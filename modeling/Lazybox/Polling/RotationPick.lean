import Lazybox.Library.Ranking
import Lazybox.Polling.RoundRobin

/-!
# The pick of a tick

A tick polls the repository that is focused, then the forced ones, the stalest first, and then the
stalest of the others, as far as its bound and its slots go.  The maps are gone through in an order
of their own, which the pick does not depend on.
-/

namespace Lazybox.Rotation

/-! ### Going through the maps -/

/-- One forced repository is tried before another: it is staler, or as stale and first by name. -/
def TriedBefore (known : List (String × Instant)) (a b : String) : Prop :=
  notLater (known.lookup a) (known.lookup b) = true
    ∧ (notLater (known.lookup b) (known.lookup a) = true → a ≤ b)

instance (known : List (String × Instant)) : DecidableRel (TriedBefore known) := fun a b =>
  inferInstanceAs (Decidable (notLater (known.lookup a) (known.lookup b) = true
    ∧ (notLater (known.lookup b) (known.lookup a) = true → a ≤ b)))

/-- The pick, where the maps are gone through in the orders of these lists. -/
def pickVisiting (known : List (String × Instant)) (focused : Option String)
    (forced : List String) (tick n : ℕ) (maxRepos : Option ℕ) : RoundRobinPick :=
  let n := if n = 0 then defaultRoundRobinN else n
  let focused := if full maxRepos [] then none else focused
  let repos := pushForced maxRepos (forced.insertionSort (TriedBefore known)) focused.toList
  if known = [] then ⟨repos, true⟩
  else
    ⟨pushStalest maxRepos (stalestSlots focused forced.toFinset n) (known.insertionSort Staler)
        repos,
      willRunGlobal known.length tick n⟩

section Orders

theorem notLater_total (x y : Option Instant) :
  notLater x y = true ∨ notLater y x = true
  := by
  cases x with
  | none => exact Or.inl rfl
  | some x =>
    cases y with
    | none => exact Or.inr rfl
    | some y => simpa [notLater] using le_total x y

theorem notLater_trans {x y z : Option Instant} (h : notLater x y = true)
    (h' : notLater y z = true) :
  notLater x z = true
  := by
  cases x with
  | none => rfl
  | some x =>
    cases y with
    | none => cases h
    | some y =>
      cases z with
      | none => cases h'
      | some z =>
        simp only [notLater, decide_eq_true_eq] at h h' ⊢
        apply le_trans h h'

variable (known : List (String × Instant))

instance : Std.Total fun a b => notLater (known.lookup a) (known.lookup b) = true :=
  ⟨fun _ _ => notLater_total _ _⟩

instance : IsTrans String fun a b => notLater (known.lookup a) (known.lookup b) = true :=
  ⟨fun _ _ _ => notLater_trans⟩

instance : Std.Total (TriedBefore known) where
  total := by
    intro a b
    unfold TriedBefore
    obtain h | h := notLater_total (known.lookup a) (known.lookup b)
    · by_cases h' : notLater (known.lookup b) (known.lookup a) = true
      · simpa [h, h'] using String.le_total a b
      · exact Or.inl ⟨h, fun hback => absurd hback h'⟩
    · by_cases h' : notLater (known.lookup a) (known.lookup b) = true
      · simpa [h, h'] using String.le_total a b
      · exact Or.inr ⟨h, fun hback => absurd hback h'⟩

instance : IsTrans String (TriedBefore known) where
  trans := by
    rintro a b c ⟨hab, hab'⟩ ⟨hbc, hbc'⟩
    refine ⟨notLater_trans hab hbc, ?_⟩
    intro hca
    exact String.le_trans (hab' (notLater_trans hbc hca)) (hbc' (notLater_trans hca hab))

theorem triedBefore_antisymm {a b : String} (h : TriedBefore known a b)
    (h' : TriedBefore known b a) :
  a = b
  := String.le_antisymm (h.2 h'.1) (h'.2 h.1)

/-- However the forced repositories are listed, they are tried in one order. -/
theorem insertionSort_triedBefore {forced : Finset String} {listing : List String}
    (nodup : listing.Nodup) (hforced : listing.toFinset = forced) :
  listing.insertionSort (TriedBefore known) = sortedForced known forced
  := by
  have hperm : listing.Perm (forced.sort (· ≤ ·)) := by
    apply (List.perm_ext_iff_of_nodup nodup (forced.sort_nodup _)).mpr
    intro repo
    rw [Finset.mem_sort, ← hforced, List.mem_toFinset]
  have hsorted : (sortedForced known forced).Pairwise (TriedBefore known) :=
    Ranking.pairwise_insertionSort_stable (forced.pairwise_sort (· ≤ ·))
  apply List.Perm.eq_of_pairwise _ (List.pairwise_insertionSort _ listing) hsorted
  · exact ((List.perm_insertionSort _ _).trans hperm).trans (List.perm_insertionSort _ _).symm
  · intro a b _ _
    exact triedBefore_antisymm known

end Orders

variable {known : List (String × Instant)}

theorem lookup_eq_some_iff_mem (distinct : (known.map Prod.fst).Nodup) {repo : String}
    {x : Instant} :
  known.lookup repo = some x ↔ (repo, x) ∈ known
  := by
  induction known with
  | nil => simp
  | cons entry known ih =>
    obtain ⟨name, at'⟩ := entry
    rw [List.map_cons, List.nodup_cons] at distinct
    rw [List.lookup_cons, List.mem_cons, Prod.mk.injEq]
    by_cases hname : repo = name
    · subst hname
      have hrest : (repo, x) ∉ known := by
        intro h
        apply distinct.1 (List.mem_map.mpr ⟨(repo, x), h, rfl⟩)
      simp [hrest, eq_comm]
    · have hbeq : (repo == name) = false := by simpa using hname
      simp [hbeq, hname, ih distinct.2]

theorem staler_antisymm {a b : String × Instant} (h : Staler a b) (h' : Staler b a) :
  a = b
  := by
  obtain hlt | ⟨heq, hle⟩ := h
  · obtain hlt' | ⟨heq', -⟩ := h'
    · exact absurd hlt' (lt_asymm hlt)
    · exact absurd heq'.symm hlt.ne
  · obtain hlt' | ⟨-, hle'⟩ := h'
    · exact absurd heq.symm hlt'.ne
    · exact Prod.ext (String.le_antisymm hle hle') heq

theorem sortedByStamp_eq_of_perm {known' : List (String × Instant)} (h : known'.Perm known) :
  known'.insertionSort Staler = sortedByStamp known
  := by
  apply List.Perm.eq_of_pairwise _ (List.pairwise_insertionSort Staler known')
    (List.pairwise_insertionSort Staler known)
  · exact ((List.perm_insertionSort _ _).trans h).trans (List.perm_insertionSort _ _).symm
  · intro a b _ _
    exact staler_antisymm

section Listings

variable {known known' : List (String × Instant)} (distinct : (known.map Prod.fst).Nodup)
include distinct

theorem lookup_eq_of_perm (h : known'.Perm known) :
  (known'.lookup ·) = (known.lookup ·)
  := by
  funext repo
  have distinct' : (known'.map Prod.fst).Nodup := (h.map _).nodup_iff.mpr distinct
  apply Option.ext
  intro x
  rw [lookup_eq_some_iff_mem distinct', lookup_eq_some_iff_mem distinct, h.mem_iff]

/-- The pick is the same in whatever orders the maps are gone through. -/
theorem pickVisiting_eq {forced : Finset String} {listing : List String}
    (h : known'.Perm known) (nodup : listing.Nodup) (hforced : listing.toFinset = forced)
    (focused : Option String) (tick n : ℕ) (maxRepos : Option ℕ) :
  pickVisiting known' focused listing tick n maxRepos
    = pickReposForTickBudgeted known focused forced tick n maxRepos
  := by
  have hlookup : ∀ repo, known'.lookup repo = known.lookup repo :=
    congrFun (lookup_eq_of_perm distinct h)
  have htried : sortedForced known' forced = sortedForced known forced := by
    simp only [sortedForced, hlookup]
  have hempty : known' = [] ↔ known = [] := by
    rw [← List.length_eq_zero_iff, h.length_eq, List.length_eq_zero_iff]
  simp only [pickVisiting, pickReposForTickBudgeted, insertionSort_triedBefore known' nodup hforced,
    htried, sortedByStamp_eq_of_perm h, hforced, h.length_eq, hempty]

end Listings

/-! ### The parts of a pick -/

/-- One repository is staler than another, by their stamps. -/
def StalerIn (known : List (String × Instant)) (a b : String) : Prop :=
  ∀ x y, (a, x) ∈ known → (b, y) ∈ known → Staler (a, x) (b, y)

/-- The forced repositories, but for the one that is focused. -/
def unfocused (focused : Option String) (forced : Finset String) : Finset String :=
  forced.filter fun repo => focused ≠ some repo

/-- The repositories that are neither focused nor forced. -/
def others (known : List (String × Instant)) (focused : Option String) (forced : Finset String) :
    Finset String :=
  (known.map Prod.fst).toFinset.filter fun repo => focused ≠ some repo ∧ repo ∉ forced

/-- What is focused, if anything may be polled. -/
def focusPart (maxRepos : Option ℕ) (focused : Option String) : List String :=
  if maxRepos = some 0 then [] else focused.toList

/-- What a pick is. -/
structure PickExact (known : List (String × Instant)) (focused : Option String)
    (forced : Finset String) (n : ℕ) (maxRepos : Option ℕ) (repos : List String) : Prop where
  nodup : repos.Nodup
  focusFirst : ∀ focus, focused = some focus → maxRepos ≠ some 0 → repos.head? = some focus
  allForced :
    (∀ m, maxRepos = some m → focused.toList.length + (unfocused focused forced).card ≤ m) →
      ∀ repo ∈ forced, repo ∈ repos
  bounded : ∀ m, maxRepos = some m → repos.length ≤ m
  slots : repos.length ≤ forced.card + usedFanout n
  stalest : ∃ polled rest, repos = focusPart maxRepos focused ++ polled ++ rest
    ∧ polled.Pairwise (TriedBefore known)
    ∧ Ranking.BestOf (TriedBefore known)
      (room maxRepos (focusPart maxRepos focused) (unfocused focused forced).card)
      (unfocused focused forced) polled.toFinset
    ∧ rest.Pairwise (StalerIn known)
    ∧ Ranking.BestOf (StalerIn known)
      (room maxRepos (focusPart maxRepos focused ++ polled)
        (stalestSlots focused forced (usedFanout n)))
      (others known focused forced) rest.toFinset

section Parts

variable (known : List (String × Instant)) (focused : Option String) (forced : Finset String)
  (n : ℕ) (maxRepos : Option ℕ)

/-- The forced repositories that are not focused, in the order they are tried. -/
def tried : List String :=
  (sortedForced known forced).filter fun repo => repo ∉ focusPart maxRepos focused

/-- The forced repositories that there is room for. -/
def forcedPart : List String :=
  (tried known focused forced maxRepos).take
    (room maxRepos (focusPart maxRepos focused) (tried known focused forced maxRepos).length)

def frontPart : List String :=
  focusPart maxRepos focused ++ forcedPart known focused forced maxRepos

/-- What is left, the stalest first. -/
def leftOver : List String :=
  ((sortedByStamp known).map Prod.fst).filter fun repo =>
    repo ∉ frontPart known focused forced maxRepos

def restPart : List String :=
  (leftOver known focused forced maxRepos).take
    (room maxRepos (frontPart known focused forced maxRepos)
      (stalestSlots focused forced (usedFanout n)))

end Parts

section Pick

variable {known : List (String × Instant)} {focused : Option String} {forced : Finset String}
  {n : ℕ} {maxRepos : Option ℕ}

theorem full_nil :
  full maxRepos [] = true ↔ maxRepos = some 0
  := by
  cases maxRepos with
  | none => simp [full]
  | some m => simp [full]

theorem pairwise_sortedForced :
  (sortedForced known forced).Pairwise (TriedBefore known)
  := Ranking.pairwise_insertionSort_stable (forced.pairwise_sort (· ≤ ·))

theorem full_of_zero (h : maxRepos = some 0) (repos : List String) :
  full maxRepos repos = true
  := by
  rw [h, full_some]
  apply Nat.zero_le

theorem repos_eq (distinct : (known.map Prod.fst).Nodup) (tick : ℕ) :
  (pickReposForTickBudgeted known focused forced tick n maxRepos).repos
    = frontPart known focused forced maxRepos ++ restPart known focused forced n maxRepos
  := by
  have hfocus : (if full maxRepos [] = true then none else focused).toList
      = focusPart maxRepos focused := by
    rw [focusPart]
    simp only [full_nil]
    split
    · rfl
    · rfl
  have hfront : pushForced maxRepos (sortedForced known forced)
      (if full maxRepos [] = true then none else focused).toList
        = frontPart known focused forced maxRepos := by
    rw [hfocus, pushForced_eq _ _ _ nodup_sortedForced]
    rfl
  rw [pickReposForTickBudgeted]
  simp only [hfront]
  split
  · next hempty => simp [restPart, leftOver, hempty, sortedByStamp]
  · dsimp only
    rw [pushStalest_eq _ _ _ _ (nodup_sortedByStamp distinct)]
    by_cases hzero : maxRepos = some 0
    · have hnone : ∀ k, room maxRepos (frontPart known focused forced maxRepos) k = 0 :=
        room_of_full (full_of_zero hzero _)
      rw [restPart, hnone, hnone, List.take_zero, List.take_zero]
    · rw [if_neg (full_nil.not.mpr hzero)]
      rfl

/-! ### What the parts hold -/

variable {repo : String}

theorem mem_focusPart :
  repo ∈ focusPart maxRepos focused ↔ maxRepos ≠ some 0 ∧ focused = some repo
  := by
  rw [focusPart]
  split
  · next hzero => simp [hzero]
  · next hzero => simp [hzero]

theorem nodup_focusPart :
  (focusPart maxRepos focused).Nodup
  := by
  rw [focusPart]
  split
  · exact List.nodup_nil
  · cases focused with
    | none => exact List.nodup_nil
    | some focus => exact List.nodup_singleton focus

theorem focusPart_none (maxRepos : Option ℕ) :
  focusPart maxRepos none = []
  := by
  rw [focusPart]
  split
  · rfl
  · rfl

theorem length_focusPart_le (focused : Option String) (maxRepos : Option ℕ) :
  (focusPart maxRepos focused).length ≤ focused.toList.length
  := by
  rw [focusPart]
  split
  · apply Nat.zero_le
  · rfl

theorem nodup_tried :
  (tried known focused forced maxRepos).Nodup
  := nodup_sortedForced.filter _

theorem pairwise_tried :
  (tried known focused forced maxRepos).Pairwise (TriedBefore known)
  := pairwise_sortedForced.filter _

theorem toFinset_tried (known : List (String × Instant)) (h : maxRepos ≠ some 0) :
  (tried known focused forced maxRepos).toFinset = unfocused focused forced
  := by
  ext repo
  simp only [tried, unfocused, List.mem_toFinset, List.mem_filter, mem_sortedForced,
    mem_focusPart, decide_eq_true_eq, Finset.mem_filter]
  tauto

theorem length_tried (h : maxRepos ≠ some 0) :
  (tried known focused forced maxRepos).length = (unfocused focused forced).card
  := by
  rw [← toFinset_tried known h, List.toFinset_card_of_nodup nodup_tried]

/-- The forced repositories of a pick are as many of them as there is room for. -/
theorem room_tried (known : List (String × Instant)) :
  room maxRepos (focusPart maxRepos focused) (tried known focused forced maxRepos).length
    = room maxRepos (focusPart maxRepos focused) (unfocused focused forced).card
  := by
  by_cases h : maxRepos = some 0
  · have hfull := full_of_zero h (focusPart maxRepos focused)
    rw [room_of_full hfull, room_of_full hfull]
  · rw [length_tried h]

theorem room_le (repos : List String) (k : ℕ) :
  room maxRepos repos k ≤ k
  := by
  cases maxRepos with
  | none => rfl
  | some m => apply Nat.min_le_left

theorem length_forcedPart_le :
  (forcedPart known focused forced maxRepos).length ≤ (unfocused focused forced).card
  := by
  rw [forcedPart, room_tried]
  apply (List.length_take_le _ _).trans (room_le _ _)

theorem mem_forcedPart (h : repo ∈ forcedPart known focused forced maxRepos) :
  repo ∈ forced ∧ repo ∉ focusPart maxRepos focused
  := by
  have htried := List.mem_of_mem_take h
  rw [tried, List.mem_filter, mem_sortedForced, decide_eq_true_eq] at htried
  exact htried

theorem nodup_frontPart :
  (frontPart known focused forced maxRepos).Nodup
  := by
  apply List.Nodup.append nodup_focusPart (nodup_tried.sublist (List.take_sublist _ _))
  intro repo hfocus hforced
  exact (mem_forcedPart hforced).2 hfocus

theorem mem_frontPart (hzero : maxRepos ≠ some 0)
    (hroom : (unfocused focused forced).card
      ≤ room maxRepos (focusPart maxRepos focused) (unfocused focused forced).card) :
  repo ∈ frontPart known focused forced maxRepos ↔ focused = some repo ∨ repo ∈ forced
  := by
  have hall : forcedPart known focused forced maxRepos = tried known focused forced maxRepos := by
    rw [forcedPart, room_tried, List.take_of_length_le]
    rw [length_tried hzero]
    exact hroom
  rw [frontPart, hall, List.mem_append, mem_focusPart, tried, List.mem_filter, mem_sortedForced,
    decide_eq_true_eq, mem_focusPart]
  tauto

/-- The pick has no room for more, or everything that is forced is in it. -/
theorem full_or_forced (known : List (String × Instant)) (focused : Option String)
    (forced : Finset String) (maxRepos : Option ℕ) :
  full maxRepos (frontPart known focused forced maxRepos) = true
    ∨ ∀ repo, repo ∈ frontPart known focused forced maxRepos ↔ focused = some repo ∨ repo ∈ forced
  := by
  by_cases hzero : maxRepos = some 0
  · left
    exact full_of_zero hzero _
  · by_cases hroom : (unfocused focused forced).card
        ≤ room maxRepos (focusPart maxRepos focused) (unfocused focused forced).card
    · right
      intro repo
      exact mem_frontPart hzero hroom
    · left
      cases maxRepos with
      | none => exact absurd le_rfl hroom
      | some m =>
        rw [full_some, frontPart, forcedPart, List.length_append, List.length_take,
          length_tried hzero]
        rw [room] at hroom ⊢
        omega

/-- Everything that is forced is in the pick, when the bound allows it. -/
theorem mem_frontPart_of_forced
    (allows : ∀ m, maxRepos = some m → focused.toList.length + (unfocused focused forced).card ≤ m)
    (h : repo ∈ forced) :
  repo ∈ frontPart known focused forced maxRepos
  := by
  cases maxRepos with
  | none => exact (mem_frontPart (by simp) le_rfl).mpr (Or.inr h)
  | some m =>
    have hm := allows m rfl
    have hpos : m ≠ 0 := by
      rintro rfl
      have hnone : focused.toList = [] := by
        rw [← List.length_eq_zero_iff]
        omega
      have hempty : unfocused focused forced = ∅ := by
        rw [← Finset.card_eq_zero]
        omega
      rw [Option.toList_eq_nil_iff] at hnone
      rw [hnone, unfocused, Finset.filter_eq_empty_iff] at hempty
      exact hempty h nofun
    apply (mem_frontPart (by simpa using hpos) _).mpr (Or.inr h)
    have hfocus := length_focusPart_le focused (some m)
    rw [room]
    omega

theorem mem_leftOver :
  repo ∈ leftOver known focused forced maxRepos
    ↔ repo ∈ known.map Prod.fst ∧ repo ∉ frontPart known focused forced maxRepos
  := by
  rw [leftOver, List.mem_filter, decide_eq_true_eq, List.mem_map, List.mem_map]
  simp only [mem_sortedByStamp]

theorem nodup_leftOver (distinct : (known.map Prod.fst).Nodup) :
  (leftOver known focused forced maxRepos).Nodup
  := (nodup_sortedByStamp distinct).filter _

theorem pairwise_leftOver (distinct : (known.map Prod.fst).Nodup) :
  (leftOver known focused forced maxRepos).Pairwise (StalerIn known)
  := by
  apply List.Pairwise.filter
  rw [List.pairwise_map]
  apply List.Pairwise.imp_of_mem _ (List.pairwise_insertionSort Staler known)
  intro a b ha hb hab x y hx hy
  have hstamp : ∀ entry ∈ sortedByStamp known, ∀ x, (entry.1, x) ∈ known → x = entry.2 := by
    intro entry hentry x hx
    rw [mem_sortedByStamp] at hentry
    rw [← lookup_eq_some_iff_mem distinct] at hx
    rw [← Prod.mk.eta (p := entry), ← lookup_eq_some_iff_mem distinct, hx] at hentry
    exact Option.some.inj hentry
  rw [hstamp a ha x hx, hstamp b hb y hy]
  exact hab

theorem toFinset_leftOver
    (h : ∀ repo, repo ∈ frontPart known focused forced maxRepos
      ↔ focused = some repo ∨ repo ∈ forced) :
  (leftOver known focused forced maxRepos).toFinset = others known focused forced
  := by
  ext repo
  rw [List.mem_toFinset, mem_leftOver, h, others, Finset.mem_filter, List.mem_toFinset, not_or]

theorem length_restPart_le :
  (restPart known focused forced n maxRepos).length
    ≤ stalestSlots focused forced (usedFanout n)
  := by
  rw [restPart]
  apply (List.length_take_le _ _).trans (room_le _ _)

/-- What is taken as far as there is room keeps to the bound. -/
theorem length_append_take_room_le {m : ℕ} {repos : List String} (h : repos.length ≤ m)
    (l : List String) (k : ℕ) :
  (repos ++ l.take (room (some m) repos k)).length ≤ m
  := by
  rw [List.length_append, List.length_take, room]
  omega

theorem length_focusPart_le_some (m : ℕ) :
  (focusPart (some m) focused).length ≤ m
  := by
  rw [focusPart]
  split
  · apply Nat.zero_le
  · next hzero =>
      have hpos : m ≠ 0 := by
        rintro rfl
        exact hzero rfl
      cases focused with
      | none => apply Nat.zero_le
      | some focus => exact Nat.one_le_iff_ne_zero.mpr hpos

theorem usedFanout_pos (n : ℕ) :
  0 < usedFanout n
  := by
  rw [usedFanout]
  split
  · exact Nat.zero_lt_succ 2
  · next h => exact Nat.pos_of_ne_zero h

/-- A focused repository takes the place of a forced one, or a slot. -/
theorem focused_add_unfocused_add_slots (focused : Option String) (forced : Finset String) (n : ℕ) :
  focused.toList.length + (unfocused focused forced).card
    + stalestSlots focused forced (usedFanout n) = forced.card + usedFanout n
  := by
  have hpos := usedFanout_pos n
  cases focused with
  | none => simp [unfocused, stalestSlots]
  | some focus =>
    have herase : unfocused (some focus) forced = forced.erase focus := by
      ext repo
      simp only [unfocused, Finset.mem_filter, Finset.mem_erase, ne_eq, Option.some.injEq]
      rw [eq_comm, and_comm]
    by_cases hforced : focus ∈ forced
    · have hcard := Finset.card_erase_add_one hforced
      rw [herase, stalestSlots, if_neg (by simpa using hforced)]
      simp only [Option.toList_some, List.length_singleton]
      omega
    · rw [herase, Finset.erase_eq_of_notMem hforced, stalestSlots,
        if_pos (by simpa using hforced)]
      simp only [Option.toList_some, List.length_singleton]
      omega

/-- The pick of a tick is what it should be. -/
theorem pickExact (distinct : (known.map Prod.fst).Nodup) (tick : ℕ) :
  PickExact known focused forced n maxRepos
    (pickReposForTickBudgeted known focused forced tick n maxRepos).repos
  := by
  rw [repos_eq distinct]
  constructor
  · apply List.Nodup.append nodup_frontPart
      ((nodup_leftOver distinct).sublist (List.take_sublist _ _))
    intro repo hfront hrest
    exact (mem_leftOver.mp (List.mem_of_mem_take hrest)).2 hfront
  · intro focus hfocus hzero
    rw [frontPart, focusPart, if_neg hzero, hfocus]
    rfl
  · intro allows repo hrepo
    exact List.mem_append_left _ (mem_frontPart_of_forced allows hrepo)
  · rintro m rfl
    apply length_append_take_room_le
    apply length_append_take_room_le (length_focusPart_le_some m)
  · rw [List.length_append, frontPart, List.length_append,
      ← focused_add_unfocused_add_slots focused forced n]
    apply Nat.add_le_add _ length_restPart_le
    apply Nat.add_le_add (length_focusPart_le focused maxRepos) length_forcedPart_le
  · use forcedPart known focused forced maxRepos, restPart known focused forced n maxRepos
    refine ⟨rfl, pairwise_tried.sublist (List.take_sublist _ _), ?_,
      (pairwise_leftOver distinct).sublist (List.take_sublist _ _), ?_⟩
    · by_cases hzero : maxRepos = some 0
      · have hnone : room maxRepos (focusPart maxRepos focused)
            (unfocused focused forced).card = 0 :=
          room_of_full (full_of_zero hzero _) _
        rw [forcedPart, room_tried, hnone]
        apply Ranking.bestOf_zero
      · rw [← room_tried known, ← toFinset_tried known hzero]
        exact Ranking.bestOf_take nodup_tried pairwise_tried _
    · obtain hfull | hforced := full_or_forced known focused forced maxRepos
      · have hnone : room maxRepos (frontPart known focused forced maxRepos)
            (stalestSlots focused forced (usedFanout n)) = 0 :=
          room_of_full hfull _
        rw [restPart, ← frontPart, hnone]
        apply Ranking.bestOf_zero
      · rw [← toFinset_leftOver hforced]
        exact Ranking.bestOf_take (nodup_leftOver distinct) (pairwise_leftOver distinct) _

end Pick

end Lazybox.Rotation
