import Lazybox.Polling.Engagement

/-!
# The hot set

Over the sorted rows one pass fills two kinds of slots.  An armed row takes a slot of the armed
ones as long as there are any; after that it competes with the recent pull requests of one's own
for the slots that are left.
-/

namespace Lazybox.Engagement

open Ranking

section Order

variable (focused : Option String)

instance : Std.TransCmp (eligibleOrder focused) := by
  unfold eligibleOrder
  infer_instance

instance (entries : String → Option EngagementEntry) : Std.TransCmp (targetOrder entries) := by
  unfold targetOrder
  infer_instance

/-- Only rows of one key compare as equal. -/
theorem key_eq_of_eligibleOrder {a b : EngagementCandidate} (h : eligibleOrder focused a b = .eq) :
  a.workspaceKey = b.workspaceKey
  := by
  simp only [eligibleOrder, compareLex, Ordering.then_eq_eq, compareOn] at h
  apply Std.LawfulEqOrd.eq_of_compare h.2.2.2.2.2

theorem key_eq_of_targetOrder {entries : String → Option EngagementEntry}
    {a b : GithubEngagementTarget} (h : targetOrder entries a b = .eq) :
  a.workspaceKey = b.workspaceKey
  := by
  simp only [targetOrder, compareLex, Ordering.then_eq_eq, compareOn] at h
  apply Std.LawfulEqOrd.eq_of_compare h.2.2

/-- What differs in neither focus, session, agent nor ownership is ranked by the time of the last
update. -/
theorem updatedAt_le_of_eligibleOrder {a b : EngagementCandidate}
    (h : (eligibleOrder focused a b).isLE) (hfocused : isFocused focused a = isFocused focused b)
    (hsessioned : a.sessioned = b.sessioned) (hlive : a.liveAgent = b.liveAgent)
    (hown : a.ownOpenPr = b.ownOpenPr) :
  b.updatedAt ≤ a.updatedAt
  := by
  simp only [eligibleOrder, compareLex, compareOn, hfocused, hsessioned, hlive, hown,
    Std.ReflCmp.compare_self, Ordering.eq_then] at h
  by_contra hlt
  have hgt : compare b.updatedAt a.updatedAt = .gt := by
    apply Std.OrientedCmp.gt_of_lt
    apply compare_lt_iff_lt.mpr (lt_of_not_ge hlt)
  rw [hgt] at h
  cases h

end Order

/-! ### The pass -/

section Pass

variable (focused : Option String)

def isForced (candidate : EngagementCandidate) : Bool :=
  isFocused focused candidate || candidate.liveAgent

/-- A row that is hot for being armed, if there is a slot. -/
def isArmed (candidate : EngagementCandidate) : Bool :=
  !isForced focused candidate && !candidate.cold && candidate.armed

/-- What is left of the rows for the other slots, where so many slots of the armed ones are
free. -/
def spill : ℕ → List EngagementCandidate → List EngagementCandidate
  | _, [] => []
  | free, candidate :: rest =>
      if isForced focused candidate then spill free rest
      else if isArmed focused candidate ∧ 0 < free then spill (free - 1) rest
      else candidate :: spill free rest

variable {focused}

theorem spill_sublist (focused : Option String) (free : ℕ) (rows : List EngagementCandidate) :
  (spill focused free rows).Sublist rows
  := by
  fun_induction spill focused free rows with
  | case1 => apply List.Sublist.refl
  | case2 free candidate rest hforced ih => apply ih.cons
  | case3 free candidate rest hforced harmed ih => apply ih.cons
  | case4 free candidate rest hforced harmed ih => apply ih.cons_cons

variable {candidate : EngagementCandidate}

theorem isArmed_of_isForced (h : isForced focused candidate = true) :
  ¬isArmed focused candidate = true
  := by
  simp [isArmed, h]

/-- A row that is not armed, or finds no slot, leaves the armed ones their slots. -/
theorem take_armed_cons {free : ℕ} {head : EngagementCandidate} {rest : List EngagementCandidate}
    (hslot : ¬(isArmed focused head ∧ 0 < free)) :
  ((head :: rest).filter (isArmed focused)).take free
    = (rest.filter (isArmed focused)).take free
  := by
  by_cases harmed : isArmed focused head
  · obtain rfl : free = 0 := by
      by_contra hne
      exact hslot ⟨harmed, Nat.pos_of_ne_zero hne⟩
    rw [List.take_zero, List.take_zero]
  · rw [List.filter_cons_of_neg harmed]

/-- What is left are the rows that are neither hot anyway nor take a slot of the armed ones. -/
theorem mem_spill {free : ℕ} {rows : List EngagementCandidate} (nodup : rows.Nodup) :
  candidate ∈ spill focused free rows
    ↔ candidate ∈ rows ∧ isForced focused candidate = false
      ∧ candidate ∉ (rows.filter (isArmed focused)).take free
  := by
  induction rows generalizing free with
  | nil => simp [spill]
  | cons head rest ih =>
    obtain ⟨hhead, hrest⟩ := List.nodup_cons.mp nodup
    rw [spill, List.mem_cons]
    by_cases hforced : isForced focused head
    · rw [if_pos hforced, ih hrest, List.filter_cons_of_neg (isArmed_of_isForced hforced)]
      constructor
      · rintro ⟨hmem, hfree⟩
        exact ⟨Or.inr hmem, hfree⟩
      · rintro ⟨rfl | hmem, hfree, htaken⟩
        · rw [hforced] at hfree
          cases hfree
        · exact ⟨hmem, hfree, htaken⟩
    · rw [if_neg hforced]
      by_cases hslot : isArmed focused head ∧ 0 < free
      · obtain ⟨free, rfl⟩ := Nat.exists_eq_succ_of_ne_zero hslot.2.ne'
        rw [if_pos hslot, List.filter_cons_of_pos hslot.1, List.take_succ_cons, List.mem_cons,
          not_or, Nat.succ_sub_one, ih hrest]
        constructor
        · rintro ⟨hmem, hfree, htaken⟩
          refine ⟨Or.inr hmem, hfree, ?_, htaken⟩
          rintro rfl
          exact hhead hmem
        · rintro ⟨heq | hmem, hfree, hne, htaken⟩
          · exact absurd heq hne
          · exact ⟨hmem, hfree, htaken⟩
      · rw [if_neg hslot, List.mem_cons, take_armed_cons hslot, ih hrest]
        constructor
        · rintro (rfl | ⟨hmem, hfree⟩)
          · refine ⟨Or.inl rfl, Bool.eq_false_iff.mpr hforced, ?_⟩
            intro htaken
            exact hhead (List.mem_filter.mp (List.mem_of_mem_take htaken)).1
          · exact ⟨Or.inr hmem, hfree⟩
        · rintro ⟨heq | hmem, hfree⟩
          · exact Or.inl heq
          · exact Or.inr ⟨hmem, hfree⟩

/-- The rows that a pass makes hot: those that are hot anyway, and those that take a slot. -/
def Taken (focused : Option String) (armedFree cappedFree : ℕ) (rows : List EngagementCandidate)
    (candidate : EngagementCandidate) : Prop :=
  candidate ∈ rows.filter (isForced focused)
    ∨ candidate ∈ (rows.filter (isArmed focused)).take armedFree
    ∨ candidate ∈ (spill focused armedFree rows).take cappedFree

section Step

variable {armedFree cappedFree : ℕ} {head candidate : EngagementCandidate}
  {rest : List EngagementCandidate}

theorem taken_forced (hforced : isForced focused head = true) :
  Taken focused armedFree cappedFree (head :: rest) candidate
    ↔ candidate = head ∨ Taken focused armedFree cappedFree rest candidate
  := by
  rw [Taken, Taken, List.filter_cons_of_pos hforced, spill, if_pos hforced,
    List.filter_cons_of_neg (isArmed_of_isForced hforced), List.mem_cons, or_assoc]

theorem taken_armed (harmed : isArmed focused head = true) :
  Taken focused (armedFree + 1) cappedFree (head :: rest) candidate
    ↔ candidate = head ∨ Taken focused armedFree cappedFree rest candidate
  := by
  have hforced : ¬isForced focused head = true := fun h => isArmed_of_isForced h harmed
  rw [Taken, Taken, List.filter_cons_of_neg hforced, List.filter_cons_of_pos harmed,
    List.take_succ_cons, List.mem_cons, spill, if_neg hforced,
    if_pos ⟨harmed, Nat.succ_pos armedFree⟩, Nat.add_sub_cancel, or_assoc, or_left_comm]

theorem taken_other (hforced : ¬isForced focused head = true)
    (hslot : ¬(isArmed focused head ∧ 0 < armedFree)) :
  Taken focused armedFree cappedFree (head :: rest) candidate
    ↔ candidate ∈ rest.filter (isForced focused)
      ∨ candidate ∈ (rest.filter (isArmed focused)).take armedFree
      ∨ candidate ∈ (head :: spill focused armedFree rest).take cappedFree
  := by
  rw [Taken, List.filter_cons_of_neg hforced, take_armed_cons hslot, spill, if_neg hforced,
    if_neg hslot]

end Step

section Pick

variable {head : EngagementCandidate} (hot : Hot)

theorem Hot.pick_forced (hforced : isForced focused head = true) :
  hot.pick focused head = { hot with keys := insert head.workspaceKey hot.keys }
  := if_pos hforced

theorem Hot.pick_armed (harmed : isArmed focused head = true)
    (hfree : hot.armedUsed < ARMED_HOT_MAX) :
  hot.pick focused head
    = { hot with
        armedUsed := hot.armedUsed + 1
        keys := insert head.workspaceKey hot.keys }
  := by
  have hforced : ¬isForced focused head = true := fun h => isArmed_of_isForced h harmed
  rw [isArmed, Bool.and_assoc, Bool.and_eq_true] at harmed
  apply (if_neg hforced).trans
  apply if_pos
  rw [harmed.2, decide_eq_true hfree]
  rfl

theorem Hot.not_armed (hforced : ¬isForced focused head = true)
    (hslot : ¬(isArmed focused head ∧ 0 < ARMED_HOT_MAX - hot.armedUsed)) :
  ¬(!head.cold && head.armed && decide (hot.armedUsed < ARMED_HOT_MAX)) = true
  := by
  intro h
  rw [Bool.and_eq_true, decide_eq_true_eq] at h
  apply hslot
  rw [isArmed, Bool.and_assoc, h.1, Bool.eq_false_iff.mpr hforced]
  exact ⟨rfl, by omega⟩

theorem Hot.pick_capped (hforced : ¬isForced focused head = true)
    (hslot : ¬(isArmed focused head ∧ 0 < ARMED_HOT_MAX - hot.armedUsed))
    (hcapped : hot.cappedUsed < HOT_SET_MAX) :
  hot.pick focused head
    = { hot with
        keys := insert head.workspaceKey hot.keys
        cappedUsed := hot.cappedUsed + 1 }
  := ((if_neg hforced).trans (if_neg (hot.not_armed hforced hslot))).trans (if_pos hcapped)

theorem Hot.pick_full (hforced : ¬isForced focused head = true)
    (hslot : ¬(isArmed focused head ∧ 0 < ARMED_HOT_MAX - hot.armedUsed))
    (hcapped : ¬hot.cappedUsed < HOT_SET_MAX) :
  hot.pick focused head = hot
  := ((if_neg hforced).trans (if_neg (hot.not_armed hforced hslot))).trans (if_neg hcapped)

end Pick

theorem mem_insert_or {keys : Finset String} {key : String} {head : EngagementCandidate}
    {p : EngagementCandidate → Prop} :
  (key ∈ insert head.workspaceKey keys ∨ ∃ candidate, candidate.workspaceKey = key ∧ p candidate)
    ↔ key ∈ keys ∨ ∃ candidate, candidate.workspaceKey = key ∧ (candidate = head ∨ p candidate)
  := by
  rw [Finset.mem_insert]
  constructor
  · rintro ((rfl | hkey) | ⟨candidate, hkey, hp⟩)
    · exact Or.inr ⟨head, rfl, Or.inl rfl⟩
    · exact Or.inl hkey
    · exact Or.inr ⟨candidate, hkey, Or.inr hp⟩
  · rintro (hkey | ⟨candidate, hkey, rfl | hp⟩)
    · exact Or.inl (Or.inr hkey)
    · exact Or.inl (Or.inl hkey.symm)
    · exact Or.inr ⟨candidate, hkey, hp⟩

theorem mem_foldl_pick (rows : List EngagementCandidate) (hot : Hot) (key : String) :
  key ∈ (rows.foldl (Hot.pick focused) hot).keys
    ↔ key ∈ hot.keys ∨ ∃ candidate, candidate.workspaceKey = key
      ∧ Taken focused (ARMED_HOT_MAX - hot.armedUsed) (HOT_SET_MAX - hot.cappedUsed) rows
        candidate
  := by
  induction rows generalizing hot with
  | nil => simp [Taken, spill]
  | cons head rest ih =>
    rw [List.foldl_cons, ih]
    by_cases hforced : isForced focused head
    · rw [Hot.pick_forced hot hforced]
      simp only [taken_forced hforced]
      apply mem_insert_or
    · by_cases hslot : isArmed focused head ∧ 0 < ARMED_HOT_MAX - hot.armedUsed
      · obtain ⟨harmed, hfree⟩ := hslot
        have hnext : ARMED_HOT_MAX - hot.armedUsed = ARMED_HOT_MAX - (hot.armedUsed + 1) + 1 := by
          omega
        rw [Hot.pick_armed hot harmed (by omega), hnext]
        simp only [taken_armed harmed]
        apply mem_insert_or
      · simp only [taken_other hforced hslot]
        by_cases hcapped : hot.cappedUsed < HOT_SET_MAX
        · have hnext : HOT_SET_MAX - hot.cappedUsed = HOT_SET_MAX - (hot.cappedUsed + 1) + 1 := by
            omega
          rw [Hot.pick_capped hot hforced hslot hcapped, hnext]
          simp only [List.take_succ_cons, List.mem_cons]
          rw [mem_insert_or]
          apply or_congr_right
          apply exists_congr
          intro candidate
          apply and_congr_right
          intro _
          rw [Taken, or_left_comm]
          apply or_congr_right or_left_comm
        · have hnone : HOT_SET_MAX - hot.cappedUsed = 0 := by omega
          rw [Hot.pick_full hot hforced hslot hcapped, hnone]
          rfl

end Pass

/-! ### The hot set -/

section Select

variable (candidates : List EngagementCandidate) (focused : Option String) (now : Instant)

/-- The rows that are armed and not hot anyway. -/
def armedPool : Finset EngagementCandidate := (candidates.filter (isArmed focused)).toFinset

def isRecentOwn (candidate : EngagementCandidate) : Bool :=
  !isForced focused candidate && !candidate.cold && candidate.ownOpenPr
    && now - candidate.updatedAt ≤ OWN_PR_HOT_WINDOW

/-- The recent pull requests of one's own, of the rows that are not hot anyway. -/
def ownPool : Finset EngagementCandidate :=
  (candidates.filter (isRecentOwn focused now)).toFinset

/-- Rows are hot that are focused or have a live agent, and those that take a slot. -/
def MarksHot (armed capped : Finset EngagementCandidate) : Prop :=
  ∀ key, (selectEngagementSnapshot candidates focused now).tierFor key = .hot
    ↔ ∃ candidate ∈ candidates, candidate.workspaceKey = key
      ∧ (isForced focused candidate ∨ candidate ∈ armed ∨ candidate ∈ capped)

/-- The most recently updated of the armed rows are hot, and no others of them but as recent pull
requests of one's own. -/
def DocumentedHotSet : Prop :=
  ∃ armed capped, BestOf (fun a b => b.updatedAt ≤ a.updatedAt) ARMED_HOT_MAX
      (armedPool candidates focused) armed
    ∧ BestOf (fun a b => eligibleOrder focused a b = .lt) HOT_SET_MAX
      (ownPool candidates focused now \ armed) capped
    ∧ MarksHot candidates focused now armed capped

/-- As many armed rows as there are slots are hot, of those alike in sessions and ownership the most
recently updated; and the best of what is left of the armed rows and of the recent pull requests of
one's own. -/
def HotSet : Prop :=
  ∃ armed capped,
    BestOf (fun a b => a.sessioned = b.sessioned → a.ownOpenPr = b.ownOpenPr →
        b.updatedAt ≤ a.updatedAt) ARMED_HOT_MAX (armedPool candidates focused) armed
    ∧ BestOf (fun a b => eligibleOrder focused a b = .lt) HOT_SET_MAX
      ((armedPool candidates focused ∪ ownPool candidates focused now) \ armed) capped
    ∧ MarksHot candidates focused now armed capped

/-- The rows that can be hot, in order. -/
def ranked : List EngagementCandidate :=
  sortBy (eligibleOrder focused) (candidates.filter (isEligible focused now))

variable {candidates focused now}

variable {candidate : EngagementCandidate}

theorem mem_ranked :
  candidate ∈ ranked candidates focused now
    ↔ candidate ∈ candidates ∧ isEligible focused now candidate = true
  := by
  rw [ranked, mem_sortBy, List.mem_filter]

/-- A row can be hot for being so anyway, for being armed, or as a recent pull request of one's
own. -/
theorem isEligible_iff :
  isEligible focused now candidate = true
    ↔ isForced focused candidate = true ∨ isArmed focused candidate = true
      ∨ isRecentOwn focused now candidate = true
  := by
  simp only [isEligible, isArmed, isRecentOwn, isForced, Bool.or_eq_true, Bool.and_eq_true,
    Bool.not_eq_true', Bool.or_eq_false_iff]
  cases isFocused focused candidate <;> cases candidate.liveAgent <;> simp

theorem mem_armedPool :
  candidate ∈ armedPool candidates focused
    ↔ candidate ∈ candidates ∧ isArmed focused candidate = true
  := by
  rw [armedPool, List.mem_toFinset, List.mem_filter]

theorem mem_ownPool :
  candidate ∈ ownPool candidates focused now
    ↔ candidate ∈ candidates ∧ isRecentOwn focused now candidate = true
  := by
  rw [ownPool, List.mem_toFinset, List.mem_filter]

theorem mem_hotKeys {key : String} :
  key ∈ hotKeys focused candidates now
    ↔ ∃ candidate, candidate.workspaceKey = key
      ∧ Taken focused ARMED_HOT_MAX HOT_SET_MAX (ranked candidates focused now) candidate
  := by
  apply (mem_foldl_pick (ranked candidates focused now) ⟨∅, 0, 0⟩ key).trans
  simp

end Select

/-! ### What is known of a row -/

section Update

variable {α κ β : Type} [DecidableEq κ] {keyOf : α → κ} {value : α → β} {l : List α}

theorem foldl_update_of_notMem {key : κ} (h : key ∉ l.map keyOf) (known : κ → Option β) :
  l.foldl (fun known a => Function.update known (keyOf a) (some (value a))) known key = known key
  := by
  induction l generalizing known with
  | nil => rfl
  | cons head rest ih =>
    rw [List.map_cons, List.mem_cons, not_or] at h
    rw [List.foldl_cons, ih h.2, Function.update_of_ne h.1]

theorem foldl_update_of_mem (distinct : (l.map keyOf).Nodup) {a : α} (h : a ∈ l)
    (known : κ → Option β) :
  l.foldl (fun known a => Function.update known (keyOf a) (some (value a))) known (keyOf a)
    = some (value a)
  := by
  induction l generalizing known with
  | nil => cases h
  | cons head rest ih =>
    rw [List.map_cons, List.nodup_cons] at distinct
    rw [List.foldl_cons]
    obtain rfl | hrest := List.mem_cons.mp h
    · rw [foldl_update_of_notMem distinct.1, Function.update_self]
    · apply ih distinct.2 hrest

/-- The order of the rows does not matter, where rows of one key are known as the same. -/
theorem foldl_update_perm {l' : List α} (h : l.Perm l')
    (agree : ∀ a ∈ l, ∀ b ∈ l, keyOf a = keyOf b → value a = value b) (known : κ → Option β) :
  l.foldl (fun known a => Function.update known (keyOf a) (some (value a))) known
    = l'.foldl (fun known a => Function.update known (keyOf a) (some (value a))) known
  := by
  apply h.foldl_eq'
  intro a ha b hb known
  by_cases hkey : keyOf a = keyOf b
  · rw [hkey, agree a ha b hb hkey]
  · rw [Function.update_comm hkey]

end Update

section Rows

variable {candidates candidates' : List EngagementCandidate} {focused : Option String}
  {now : Instant}

theorem eq_of_key_eq_key (distinct : (candidates.map EngagementCandidate.workspaceKey).Nodup)
    {a b : EngagementCandidate} (ha : a ∈ candidates) (hb : b ∈ candidates)
    (h : a.workspaceKey = b.workspaceKey) :
  a = b
  := List.inj_on_of_nodup_map distinct ha hb h

theorem mem_of_taken {candidate : EngagementCandidate} {armedFree cappedFree : ℕ}
    {rows : List EngagementCandidate} (h : Taken focused armedFree cappedFree rows candidate) :
  candidate ∈ rows
  := by
  obtain h | h | h := h
  · apply (List.mem_filter.mp h).1
  · apply (List.mem_filter.mp (List.mem_of_mem_take h)).1
  · apply (spill_sublist focused armedFree rows).subset (List.mem_of_mem_take h)

theorem tierFor_eq_hot_iff (distinct : (candidates.map EngagementCandidate.workspaceKey).Nodup)
    (key : String) :
  (selectEngagementSnapshot candidates focused now).tierFor key = .hot
    ↔ key ∈ hotKeys focused candidates now
  := by
  have hentries : ∀ candidate ∈ candidates,
      (selectEngagementSnapshot candidates focused now).tierFor candidate.workspaceKey
        = tierOf (hotKeys focused candidates now) candidate := by
    intro candidate hmem
    apply congrArg (fun entry => (Option.map EngagementEntry.tier entry).getD .warm)
      (foldl_update_of_mem distinct hmem fun _ => none)
  constructor
  · intro h
    by_cases hmem : key ∈ candidates.map EngagementCandidate.workspaceKey
    · obtain ⟨candidate, hcandidate, rfl⟩ := List.mem_map.mp hmem
      rw [hentries candidate hcandidate, tierOf] at h
      split at h
      · assumption
      · split at h
        · cases h
        · cases h
    · have hnone : (selectEngagementSnapshot candidates focused now).entries key = none :=
        foldl_update_of_notMem hmem fun _ => none
      rw [EngagementSnapshot.tierFor, hnone] at h
      cases h
  · intro h
    obtain ⟨candidate, rfl, htaken⟩ := mem_hotKeys.mp h
    rw [hentries candidate (mem_ranked.mp (mem_of_taken htaken)).1, tierOf, if_pos h]

theorem nodup_ranked (focused : Option String) (now : Instant)
    (distinct : (candidates.map EngagementCandidate.workspaceKey).Nodup) :
  (ranked candidates focused now).Nodup
  := by
  apply (sortBy_perm _ _).nodup_iff.mpr
  apply (List.Nodup.of_map _ distinct).filter

/-- Rows with keys of their own are ranked one above the other. -/
theorem pairwise_ranked (focused : Option String) (now : Instant)
    (distinct : (candidates.map EngagementCandidate.workspaceKey).Nodup) :
  (ranked candidates focused now).Pairwise fun a b => eligibleOrder focused a b = .lt
  := by
  have hsorted := pairwise_sortBy (eligibleOrder focused)
    (candidates.filter (isEligible focused now))
  apply List.Pairwise.imp_of_mem _ (hsorted.and (nodup_ranked focused now distinct))
  rintro a b ha hb ⟨hle, hne⟩
  cases horder : eligibleOrder focused a b with
  | lt => rfl
  | eq =>
    have hkey := key_eq_of_eligibleOrder focused horder
    exact absurd (eq_of_key_eq_key distinct (mem_ranked.mp ha).1 (mem_ranked.mp hb).1 hkey) hne
  | gt =>
    rw [horder] at hle
    cases hle

theorem toFinset_filter_ranked (candidates : List EngagementCandidate) (focused : Option String)
    (now : Instant) :
  ((ranked candidates focused now).filter (isArmed focused)).toFinset
    = armedPool candidates focused
  := by
  ext candidate
  rw [List.mem_toFinset, List.mem_filter, mem_ranked, mem_armedPool, and_assoc]
  apply and_congr_right
  intro _
  rw [isEligible_iff]
  constructor
  · apply And.right
  · intro harmed
    exact ⟨Or.inr (Or.inl harmed), harmed⟩

theorem toFinset_spill (distinct : (candidates.map EngagementCandidate.workspaceKey).Nodup)
    (free : ℕ) :
  (spill focused free (ranked candidates focused now)).toFinset
    = (armedPool candidates focused ∪ ownPool candidates focused now)
      \ (((ranked candidates focused now).filter (isArmed focused)).take free).toFinset
  := by
  ext candidate
  rw [List.mem_toFinset, mem_spill (nodup_ranked focused now distinct), Finset.mem_sdiff,
    List.mem_toFinset, ← and_assoc, Finset.mem_union, mem_armedPool, mem_ownPool, mem_ranked,
    isEligible_iff]
  apply and_congr_left
  intro _
  constructor
  · rintro ⟨⟨hmem, hforced | harmed | hown⟩, hfree⟩
    · rw [hforced] at hfree
      cases hfree
    · exact Or.inl ⟨hmem, harmed⟩
    · exact Or.inr ⟨hmem, hown⟩
  · rintro (⟨hmem, harmed⟩ | ⟨hmem, hown⟩)
    · refine ⟨⟨hmem, Or.inr (Or.inl harmed)⟩, ?_⟩
      rw [Bool.eq_false_iff]
      intro hforced
      exact isArmed_of_isForced hforced harmed
    · refine ⟨⟨hmem, Or.inr (Or.inr hown)⟩, ?_⟩
      simp only [isRecentOwn, Bool.and_eq_true, Bool.not_eq_true'] at hown
      apply hown.1.1.1

theorem hotSet (distinct : (candidates.map EngagementCandidate.workspaceKey).Nodup) :
  HotSet candidates focused now
  := by
  have hranked := pairwise_ranked focused now distinct
  have hnodup := nodup_ranked focused now distinct
  use (((ranked candidates focused now).filter (isArmed focused)).take ARMED_HOT_MAX).toFinset,
    ((spill focused ARMED_HOT_MAX (ranked candidates focused now)).take HOT_SET_MAX).toFinset
  refine ⟨?_, ?_, ?_⟩
  · rw [← toFinset_filter_ranked candidates focused now]
    apply BestOf.mono (bestOf_take (hnodup.filter _) (hranked.filter _) ARMED_HOT_MAX)
    intro a ha b hb horder hsessioned hown
    rw [List.mem_toFinset, List.mem_filter] at ha hb
    have hforced : ∀ c, isArmed focused c = true →
        isFocused focused c = false ∧ c.liveAgent = false := by
      intro c hc
      simp only [isArmed, isForced, Bool.and_eq_true, Bool.not_eq_true', Bool.or_eq_false_iff]
        at hc
      apply hc.1.1
    obtain ⟨hfocused, hlive⟩ := hforced a ha.2
    obtain ⟨hfocused', hlive'⟩ := hforced b hb.2
    have hle : (eligibleOrder focused a b).isLE := by
      rw [horder]
      rfl
    apply updatedAt_le_of_eligibleOrder focused hle (hfocused.trans hfocused'.symm) hsessioned
      (hlive.trans hlive'.symm) hown
  · rw [← toFinset_spill distinct]
    have hsublist := spill_sublist focused ARMED_HOT_MAX (ranked candidates focused now)
    apply bestOf_take (hnodup.sublist hsublist) (hranked.sublist hsublist)
  · intro key
    rw [tierFor_eq_hot_iff distinct, mem_hotKeys]
    apply exists_congr
    intro candidate
    rw [List.mem_toFinset, List.mem_toFinset]
    constructor
    · rintro ⟨hkey, htaken⟩
      refine ⟨(mem_ranked.mp (mem_of_taken htaken)).1, hkey, ?_⟩
      obtain h | h := htaken
      · exact Or.inl (List.mem_filter.mp h).2
      · exact Or.inr h
    · rintro ⟨hmem, hkey, h | h⟩
      · have hranked : candidate ∈ ranked candidates focused now :=
          mem_ranked.mpr ⟨hmem, isEligible_iff.mpr (Or.inl h)⟩
        exact ⟨hkey, Or.inl (List.mem_filter.mpr ⟨hranked, h⟩)⟩
      · exact ⟨hkey, Or.inr h⟩

/-! ### The order of the rows -/

/-- Two snapshots agree but for the stored roles. -/
structure Agree (snapshot snapshot' : EngagementSnapshot) : Prop where
  entries : snapshot.entries = snapshot'.entries
  hotTargets : snapshot.hotTargets = snapshot'.hotTargets
  coldTargets : snapshot.coldTargets = snapshot'.coldTargets
  coldOnlyRepos : snapshot.coldOnlyRepos = snapshot'.coldOnlyRepos
  activeRepos : snapshot.activeRepos = snapshot'.activeRepos
  sessionedRepos : snapshot.sessionedRepos = snapshot'.sessionedRepos
  liveAgentRepos : snapshot.liveAgentRepos = snapshot'.liveAgentRepos

theorem hotKeys_perm (distinct : (candidates.map EngagementCandidate.workspaceKey).Nodup)
    (h : candidates.Perm candidates') :
  hotKeys focused candidates now = hotKeys focused candidates' now
  := by
  have hranked : ranked candidates focused now = ranked candidates' focused now := by
    apply sortBy_eq_of_perm _ (h.filter _)
    intro a ha b hb horder
    apply eq_of_key_eq_key distinct (List.mem_filter.mp ha).1 (List.mem_filter.mp hb).1
    apply key_eq_of_eligibleOrder focused horder
  apply congrArg (fun rows => (rows.foldl (Hot.pick focused) ⟨∅, 0, 0⟩).keys) hranked

theorem repos_perm {α : Type} [DecidableEq α] (h : candidates.Perm candidates')
    (kept : EngagementCandidate → Bool) (f : EngagementCandidate → α) :
  ((candidates.filter kept).map f).toFinset = ((candidates'.filter kept).map f).toFinset
  := List.toFinset_eq_of_perm _ _ ((h.filter kept).map f)

/-- The order of the rows does not matter. -/
theorem agree_of_perm (distinct : (candidates.map EngagementCandidate.workspaceKey).Nodup)
    (h : candidates.Perm candidates') :
  Agree (selectEngagementSnapshot candidates focused now)
    (selectEngagementSnapshot candidates' focused now)
  := by
  have hkeys : hotKeys focused candidates now = hotKeys focused candidates' now :=
    hotKeys_perm distinct h
  have hentries : entriesOf focused (hotKeys focused candidates' now) candidates
      = entriesOf focused (hotKeys focused candidates' now) candidates' := by
    apply foldl_update_perm h
    intro a ha b hb hkey
    rw [eq_of_key_eq_key distinct ha hb hkey]
  unfold selectEngagementSnapshot
  dsimp only
  rw [hkeys, hentries]
  constructor
  · rfl
  · apply sortBy_eq_of_perm _ ((h.filter _).map _)
    intro a ha b hb horder
    obtain ⟨c, hc, rfl⟩ := List.mem_map.mp ha
    obtain ⟨d, hd, rfl⟩ := List.mem_map.mp hb
    rw [eq_of_key_eq_key distinct (List.mem_filter.mp hc).1 (List.mem_filter.mp hd).1
      (key_eq_of_targetOrder horder)]
  · apply repos_perm h
  · exact congrArg₂ (· \ ·) (repos_perm h _ _) (repos_perm h _ _)
  · apply repos_perm h
  · apply repos_perm h
  · apply repos_perm h

/-- Nor does it for the stored roles, where rows of one target have one role. -/
theorem knownRoles_perm (h : candidates.Perm candidates')
    (agree : ∀ a ∈ candidates, ∀ b ∈ candidates, a.target = b.target → a.role = b.role) :
  (selectEngagementSnapshot candidates focused now).knownRoles
    = (selectEngagementSnapshot candidates' focused now).knownRoles
  := foldl_update_perm h agree fun _ => none

/-- The hot rows are those that are hot anyway, and those that take the slots; and the order of the
rows does not matter. -/
theorem selects_hot_set (candidates : List EngagementCandidate) (focused : Option String)
    (now : Instant) (distinct : (candidates.map EngagementCandidate.workspaceKey).Nodup) :
  HotSet candidates focused now
    ∧ ∀ candidates', candidates.Perm candidates' →
      Agree (selectEngagementSnapshot candidates focused now)
        (selectEngagementSnapshot candidates' focused now)
      ∧ ((∀ a ∈ candidates, ∀ b ∈ candidates, a.target = b.target → a.role = b.role) →
        (selectEngagementSnapshot candidates focused now).knownRoles
          = (selectEngagementSnapshot candidates' focused now).knownRoles)
  := by
  constructor
  · apply hotSet distinct
  · intro candidates' h
    constructor
    · apply agree_of_perm distinct h
    · apply knownRoles_perm h

end Rows

/-! ### Thirteen armed rows -/

def armedRow (n : ℕ) : EngagementCandidate where
  workspaceKey := "github-o-r-" ++ toString n
  target := ⟨"o", "r", n.toUInt64, .pullRequest⟩
  nodeId := none
  role := .reviewer
  repo := "o/r"
  updatedAt := n
  cold := false
  liveAgent := false
  ownOpenPr := false
  armed := true
  sessioned := false

def armedRows : List EngagementCandidate := (List.range 13).map armedRow

theorem armedRow_key_injective :
  Function.Injective fun n => (armedRow n).workspaceKey
  := by
  intro m n h
  have hnumbers : Nat.repr m = Nat.repr n := (String.append_right_inj "github-o-r-").mp h
  rw [Nat.repr_eq_ofList_toDigits, Nat.repr_eq_ofList_toDigits, String.ofList_inj] at hnumbers
  rw [← Nat.ofDigitChars_ten_toDigits (n := m), hnumbers, Nat.ofDigitChars_ten_toDigits]

theorem armedRows_distinct :
  (armedRows.map EngagementCandidate.workspaceKey).Nodup
  := by
  rw [armedRows, List.map_map]
  exact List.nodup_range.map armedRow_key_injective

theorem selects_hot_set_armedRows :
  HotSet armedRows none 0
  := (selects_hot_set armedRows none 0 armedRows_distinct).1

theorem armedPool_armedRows :
  armedPool armedRows none = armedRows.toFinset
  := by
  rw [armedPool, List.filter_eq_self.mpr]
  intro candidate hcandidate
  obtain ⟨n, -, rfl⟩ := List.mem_map.mp hcandidate
  rfl

theorem ownPool_armedRows :
  ownPool armedRows none 0 = ∅
  := by
  rw [ownPool, List.filter_eq_nil_iff.mpr, List.toFinset_nil]
  intro candidate hcandidate
  obtain ⟨n, -, rfl⟩ := List.mem_map.mp hcandidate
  simp [isRecentOwn, armedRow]

theorem card_armedRows :
  armedRows.toFinset.card = 13
  := by
  rw [List.toFinset_card_of_nodup armedRows_distinct.of_map, armedRows, List.length_map,
    List.length_range]

/-- The armed row that gets no slot of the armed ones takes another. -/
theorem armedRows_hot {candidate : EngagementCandidate} (h : candidate ∈ armedRows) :
  (selectEngagementSnapshot armedRows none 0).tierFor candidate.workspaceKey = .hot
  := by
  obtain ⟨armed, capped, best, rest, marks⟩ : HotSet armedRows none 0 := hotSet armedRows_distinct
  rw [ownPool_armedRows, Finset.union_empty, armedPool_armedRows] at rest
  rw [armedPool_armedRows] at best
  have harmed : armed.card = 12 := by
    rw [best.card, card_armedRows]
    rfl
  have hleft : (armedRows.toFinset \ armed).card = 1 := by
    rw [Finset.card_sdiff_of_subset best.subset, card_armedRows, harmed]
  have hcapped : capped = armedRows.toFinset \ armed := by
    apply Finset.eq_of_subset_of_card_le rest.subset
    rw [rest.card, hleft]
    decide
  apply (marks _).mpr
  refine ⟨candidate, h, rfl, Or.inr ?_⟩
  rw [hcapped, Finset.mem_sdiff, List.mem_toFinset]
  by_cases hslot : candidate ∈ armed
  · exact Or.inl hslot
  · exact Or.inr ⟨h, hslot⟩

/-- Of thirteen armed rows all are hot: one of them takes a slot of the pull requests of one's
own. -/
theorem armed_row_takes_slot :
  (armedRows.map EngagementCandidate.workspaceKey).Nodup ∧ ¬DocumentedHotSet armedRows none 0
  := by
  use armedRows_distinct
  rintro ⟨armed, capped, best, rest, marks⟩
  have hcapped : capped = ∅ := by
    apply Finset.subset_empty.mp
    apply rest.subset.trans
    rw [ownPool_armedRows, Finset.empty_sdiff]
  have hsubset : armedRows.toFinset ⊆ armed := by
    intro candidate hmem
    rw [List.mem_toFinset] at hmem
    obtain ⟨other, hother, hkey, hhot⟩ := (marks _).mp (armedRows_hot hmem)
    rw [eq_of_key_eq_key armedRows_distinct hother hmem hkey, hcapped] at hhot
    obtain hforced | harmed | hnone := hhot
    · have hpool : candidate ∈ armedPool armedRows none := by
        rwa [armedPool_armedRows, List.mem_toFinset]
      exact absurd (mem_armedPool.mp hpool).2 (isArmed_of_isForced hforced)
    · apply harmed
    · exact absurd hnone (Finset.notMem_empty _)
  have hle := Finset.card_le_card hsubset
  rw [best.card, armedPool_armedRows, card_armedRows] at hle
  exact absurd hle (by decide)

end Lazybox.Engagement
