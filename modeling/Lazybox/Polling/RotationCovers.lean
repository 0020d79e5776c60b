import Mathlib
import Lazybox.Polling.Rotation

/-!
# The rotation covers the roster

Of the members of the roster that are neither focused nor forced, a tick polls the stalest, as many
as it has slots.  Those not polled yet are staler than those that were, so that every tick polls new
ones until none is left.  A focused repository that is not forced takes a slot away, and then the
slots of the ticks there are need not be enough for the rest.
-/

namespace Lazybox.Rotation

/-! ### Lists whose first elements are in a set -/

/-- A list in which what is in a set precedes what is not is split by the set. -/
theorem filter_append_filter_of_pairwise
    {α : Type*} {p : α → Bool} {l : List α} (h : l.Pairwise fun a b => p b → p a) :
  l.filter p ++ l.filter (fun a => !p a) = l
  := by
  induction l with
  | nil => rfl
  | cons a l ih =>
    rw [List.pairwise_cons] at h
    by_cases ha : p a = true
    · rw [List.filter_cons_of_pos ha, List.filter_cons_of_neg (by simpa using ha),
        List.cons_append, ih h.2]
    · have hnone : l.filter p = [] := by
        rw [List.filter_eq_nil_iff]
        intro b hb hpb
        apply ha (h.1 b hb hpb)
      have hrest := ih h.2
      rw [hnone, List.nil_append] at hrest
      rw [List.filter_cons_of_neg ha, hnone, List.filter_cons_of_pos (by simpa using ha), hrest,
        List.nil_append]

/-- The first elements of a list whose elements of a set come first are of the set, as long as
there are any. -/
theorem countP_take_of_pairwise
    {α : Type*} {p : α → Bool} {l : List α} (h : l.Pairwise fun a b => p b → p a) (n : ℕ) :
  (l.take n).countP p = min n (l.countP p)
  := by
  have hin : ∀ a ∈ (l.filter p).take n, p a = true := by
    intro a ha
    apply (List.mem_filter.mp (List.mem_of_mem_take ha)).2
  have hout : ∀ a ∈ (l.filter fun a => !p a).take (n - (l.filter p).length), ¬ p a = true := by
    intro a ha
    simpa using (List.mem_filter.mp (List.mem_of_mem_take ha)).2
  have htake : l.take n
      = (l.filter p).take n ++ (l.filter fun a => !p a).take (n - (l.filter p).length) := by
    nth_rewrite 1 [← filter_append_filter_of_pairwise h]
    rw [List.take_append]
  rw [htake, List.countP_append, List.countP_eq_length.mpr hin, List.countP_eq_zero.mpr hout,
    Nat.add_zero, List.length_take, List.countP_eq_length_filter]

/-! ### The pick of a tick -/

/-- How many of some more repositories the bound has room for. -/
def room (maxRepos : Option ℕ) (repos : List String) (k : ℕ) : ℕ :=
  match maxRepos with
  | none => k
  | some m => min k (m - repos.length)

section Room

variable {maxRepos : Option ℕ} {repos : List String}

theorem full_none (repos : List String) : full none repos = false := rfl

theorem full_some {m : ℕ} :
  full (some m) repos = true ↔ m ≤ repos.length
  := by
  rw [full, Option.any_some, decide_eq_true_eq]

theorem room_of_full (h : full maxRepos repos = true) (k : ℕ) :
  room maxRepos repos k = 0
  := by
  cases maxRepos with
  | none => cases h
  | some m =>
    rw [full_some] at h
    rw [room, Nat.sub_eq_zero_of_le h, Nat.min_zero]

theorem room_succ (h : ¬ full maxRepos repos = true) (repo : String) (k : ℕ) :
  room maxRepos repos (k + 1) = room maxRepos (repos ++ [repo]) k + 1
  := by
  cases maxRepos with
  | none => rfl
  | some m =>
    rw [full_some, not_le] at h
    simp only [room, List.length_append, List.length_singleton]
    omega

/-- What is not there yet, when one more is. -/
theorem filter_notMem_concat {repo : String} {rest : List String} (h : repo ∉ rest) :
  (rest.filter fun a => a ∉ repos ++ [repo]) = rest.filter fun a => a ∉ repos
  := by
  apply List.filter_congr
  intro a ha
  have hne : a ≠ repo := by
    rintro rfl
    apply h ha
  simp [hne]

/-- Of the forced repositories, as many are added as there is room for. -/
theorem pushForced_eq (maxRepos : Option ℕ) (forced repos : List String) (nodup : forced.Nodup) :
  pushForced maxRepos forced repos
    = repos ++ (forced.filter fun repo => repo ∉ repos).take
      (room maxRepos repos (forced.filter fun repo => repo ∉ repos).length)
  := by
  induction forced generalizing repos with
  | nil => simp [pushForced]
  | cons repo rest ih =>
    rw [List.nodup_cons] at nodup
    rw [pushForced]
    split
    · next hfull => rw [room_of_full hfull, List.take_zero, List.append_nil]
    · next hfull =>
        rw [ih _ nodup.2]
        by_cases h : repo ∈ repos
        · rw [if_pos h, List.filter_cons_of_neg (by simpa using h)]
        · rw [if_neg h, List.filter_cons_of_pos (by simpa using h), List.length_cons,
            room_succ hfull repo, List.take_succ_cons, filter_notMem_concat nodup.1,
            List.append_assoc, List.singleton_append]

/-- Of the others, as many are added as there are slots, and there is room for. -/
theorem pushStalest_eq (maxRepos : Option ℕ) (slots : ℕ) (sorted : List (String × Instant))
    (repos : List String) (nodup : (sorted.map Prod.fst).Nodup) :
  pushStalest maxRepos slots sorted repos
    = repos ++ ((sorted.map Prod.fst).filter fun repo => repo ∉ repos).take
      (room maxRepos repos slots)
  := by
  induction sorted generalizing repos slots with
  | nil => simp [pushStalest]
  | cons entry rest ih =>
    obtain ⟨repo, at'⟩ := entry
    rw [List.map_cons, List.nodup_cons] at nodup
    rw [pushStalest]
    by_cases hfull : full maxRepos repos = true
    · rw [if_pos (.inr hfull), room_of_full hfull, List.take_zero, List.append_nil]
    · cases slots with
      | zero =>
        have hnone : room maxRepos repos 0 = 0 := by
          cases maxRepos with
          | none => rfl
          | some m => exact Nat.zero_min _
        rw [if_pos (.inl rfl), hnone, List.take_zero, List.append_nil]
      | succ slots =>
        rw [if_neg (by simpa using hfull), List.map_cons]
        by_cases h : repo ∈ repos
        · rw [if_pos h, ih _ _ nodup.2, List.filter_cons_of_neg (by simpa using h)]
        · rw [if_neg h, ih _ _ nodup.2, List.filter_cons_of_pos (by simpa using h),
            room_succ hfull repo, List.take_succ_cons, filter_notMem_concat nodup.1,
            List.append_assoc, List.singleton_append, Nat.add_sub_cancel]

end Room

theorem pushForced_none (forced repos : List String) (nodup : forced.Nodup) :
  pushForced none forced repos = repos ++ forced.filter fun repo => repo ∉ repos
  := by
  rw [pushForced_eq none forced repos nodup, room, List.take_length]

/-- What comes before the stalest: what is focused, and what is forced. -/
def front (known : List (String × Instant)) (focused : Option String) (forced : Finset String) :
    List String :=
  pushForced none (sortedForced known forced) focused.toList

/-- What the slots of the stalest are for, the stalest first. -/
def waiting (known : List (String × Instant)) (focused : Option String) (forced : Finset String) :
    List String :=
  ((sortedByStamp known).map Prod.fst).filter fun repo => repo ∉ front known focused forced

/-- The fanout that is used. -/
def usedFanout (fanout : ℕ) : ℕ := if fanout = 0 then defaultRoundRobinN else fanout

section Pick

variable {known : List (String × Instant)} {focused : Option String} {forced : Finset String}

theorem mem_sortedByStamp {entry : String × Instant} :
  entry ∈ sortedByStamp known ↔ entry ∈ known
  := List.mem_insertionSort _

theorem nodup_sortedByStamp (nodup : (known.map Prod.fst).Nodup) :
  ((sortedByStamp known).map Prod.fst).Nodup
  := ((List.perm_insertionSort _ known).map Prod.fst).nodup_iff.mpr nodup

theorem nodup_sortedForced :
  (sortedForced known forced).Nodup
  := (List.perm_insertionSort _ _).nodup_iff.mpr (forced.sort_nodup _)

theorem mem_sortedForced {repo : String} :
  repo ∈ sortedForced known forced ↔ repo ∈ forced
  := by
  rw [sortedForced, List.mem_insertionSort, Finset.mem_sort]

theorem mem_front {repo : String} :
  repo ∈ front known focused forced ↔ focused = some repo ∨ repo ∈ forced
  := by
  rw [front, pushForced_none _ _ nodup_sortedForced]
  simp only [List.mem_append, List.mem_filter, mem_sortedForced, Option.mem_toList,
    decide_eq_true_eq]
  by_cases h : focused = some repo
  · simp [h]
  · simp [h]

/-- Without a bound, a tick polls what is focused, what is forced, and the stalest of the
others. -/
theorem repos_pick (nodup : (known.map Prod.fst).Nodup) (tick fanout : ℕ) :
  (pickReposForTickBudgeted known focused forced tick fanout none).repos
    = front known focused forced
      ++ (waiting known focused forced).take (stalestSlots focused forced (usedFanout fanout))
  := by
  rw [pickReposForTickBudgeted]
  simp only [full_none]
  split
  · next h =>
      rw [waiting, h]
      simp [sortedByStamp, front]
  · dsimp only
    rw [pushStalest_eq _ _ _ _ (nodup_sortedByStamp nodup)]
    rfl

end Pick

/-! ### Stamps -/

theorem mem_eligible {roster : List String} {forced : Finset String}
    {cursor : String → Option Instant} {repo : String} {at' : Instant} :
  (repo, at') ∈ eligible roster forced cursor
    ↔ (repo ∈ roster ∨ repo ∈ forced) ∧ cursor repo = some at'
  := by
  simp [eligible]

/-- However the names are listed, each has one stamp at most. -/
theorem nodup_stamped (names : List String) (cursor : String → Option Instant) :
  ((names.dedup.filterMap fun repo => (cursor repo).map (repo, ·)).map Prod.fst).Nodup
  := by
  have hnames : ∀ names : List String,
      (names.filterMap fun repo => (cursor repo).map (repo, ·)).map Prod.fst
        = names.filter fun repo => (cursor repo).isSome := by
    intro names
    induction names with
    | nil => rfl
    | cons repo names ih =>
      cases h : cursor repo with
      | none => simp [h, ih]
      | some at' => simp [h, ih]
  rw [hnames]
  apply (List.nodup_dedup _).filter

theorem nodup_eligible
    (roster : List String) (forced : Finset String) (cursor : String → Option Instant) :
  ((eligible roster forced cursor).map Prod.fst).Nodup
  := nodup_stamped _ cursor

instance : Std.Total Staler where
  total := by
    intro a b
    unfold Staler
    obtain h | h | h := lt_trichotomy a.2 b.2
    · simp [h]
    · have := String.le_total a.1 b.1
      simp [h, this]
    · simp [h]

instance : IsTrans (String × Instant) Staler where
  trans := by
    rintro a b c hab hbc
    obtain hab | ⟨hab, hab'⟩ := hab
    · obtain hbc | ⟨hbc, -⟩ := hbc
      · left
        apply lt_trans hab hbc
      · left
        rwa [← hbc]
    · obtain hbc | ⟨hbc, hbc'⟩ := hbc
      · left
        rwa [hab]
      · right
        exact ⟨hab.trans hbc, String.le_trans hab' hbc'⟩

section Stamps

variable {roster : List String} {forced : Finset String} {cursor : String → Option Instant}
  {focused : Option String}

/-- Of what waits, what comes first is not later. -/
theorem pairwise_waiting :
  (waiting (eligible roster forced cursor) focused forced).Pairwise
    fun a b => ∀ x y, cursor a = some x → cursor b = some y → x ≤ y
  := by
  apply List.Pairwise.filter
  rw [List.pairwise_map]
  apply List.Pairwise.imp_of_mem _ (List.pairwise_insertionSort Staler _)
  intro a b ha hb hab x y hx hy
  have hax := (mem_eligible.mp (mem_sortedByStamp.mp ha)).2
  have hby := (mem_eligible.mp (mem_sortedByStamp.mp hb)).2
  rw [hax, Option.some.injEq] at hx
  rw [hby, Option.some.injEq] at hy
  rw [← hx, ← hy]
  obtain hlt | ⟨heq, -⟩ := hab
  · apply le_of_lt hlt
  · apply le_of_eq heq

theorem nodup_waiting :
  (waiting (eligible roster forced cursor) focused forced).Nodup
  := (nodup_sortedByStamp (nodup_eligible roster forced cursor)).filter _

/-- The members of the roster that are neither focused nor forced. -/
def candidates (roster : List String) (forced : Finset String) (focused : Option String) :
    Finset String :=
  roster.toFinset.filter fun repo => repo ∉ forced ∧ focused ≠ some repo

theorem mem_waiting {repo : String} :
  repo ∈ waiting (eligible roster forced cursor) focused forced
    ↔ repo ∈ candidates roster forced focused ∧ (cursor repo).isSome
  := by
  simp only [waiting, List.mem_filter, List.mem_map, decide_eq_true_eq, mem_front, candidates,
    Finset.mem_filter, List.mem_toFinset, Option.isSome_iff_exists]
  constructor
  · rintro ⟨⟨⟨name, at'⟩, hentry, rfl⟩, hfront⟩
    obtain ⟨hmember, hat⟩ := mem_eligible.mp (mem_sortedByStamp.mp hentry)
    push Not at hfront
    exact ⟨⟨hmember.resolve_right hfront.2, hfront.2, hfront.1⟩, at', hat⟩
  · rintro ⟨⟨hroster, hforced, hfocused⟩, at', hat⟩
    constructor
    · use (repo, at')
      rw [mem_sortedByStamp, mem_eligible]
      exact ⟨⟨.inl hroster, hat⟩, rfl⟩
    · push Not
      exact ⟨hfocused, hforced⟩

/-- Some of the candidates were stamped since an instant, and the others before it. -/
structure Split (cands left : Finset String) (since : Instant)
    (cursor : String → Option Instant) : Prop where
  subset : left ⊆ cands
  polled : ∀ repo ∈ cands, repo ∉ left → ∃ at', cursor repo = some at' ∧ since ≤ at'
  left : ∀ repo ∈ left, ∃ at', cursor repo = some at' ∧ at' < since

/-- What is left comes first among what waits. -/
theorem Split.pairwise_waiting {left : Finset String} {since : Instant}
    (split : Split (candidates roster forced focused) left since cursor) :
  (waiting (eligible roster forced cursor) focused forced).Pairwise
    fun a b => decide (b ∈ left) = true → decide (a ∈ left) = true
  := by
  apply List.Pairwise.imp_of_mem _ Rotation.pairwise_waiting
  intro a b ha _ hab hb
  rw [decide_eq_true_eq] at hb ⊢
  by_contra hleft
  obtain ⟨x, hx, hsince⟩ := split.polled a (mem_waiting.mp ha).1 hleft
  obtain ⟨y, hy, hbefore⟩ := split.left b hb
  apply lt_irrefl since
  apply lt_of_le_of_lt hsince
  apply lt_of_le_of_lt (hab x y hx hy) hbefore

theorem countP_mem {l : List String} (nodup : l.Nodup) (s : Finset String) :
  l.countP (fun repo => decide (repo ∈ s)) = (s.filter fun repo => repo ∈ l).card
  := by
  rw [List.countP_eq_length_filter, ← List.toFinset_card_of_nodup (nodup.filter _)]
  congr 1
  ext repo
  simp [and_comm]

/-- What a tick polls of the candidates that are left: as many as there are slots. -/
theorem Split.card_left {left : Finset String} {since : Instant}
    (split : Split (candidates roster forced focused) left since cursor) (tick fanout : ℕ) :
  (left.filter fun repo => repo ∉ (pickReposForTickBudgeted (eligible roster forced cursor)
      focused forced tick fanout none).repos).card
    = left.card - stalestSlots focused forced (usedFanout fanout)
  := by
  have hall : left.filter (fun repo =>
      repo ∈ waiting (eligible roster forced cursor) focused forced) = left := by
    rw [Finset.filter_eq_self]
    intro repo hrepo
    obtain ⟨at', hat, -⟩ := split.left repo hrepo
    rw [mem_waiting, hat]
    exact ⟨split.subset hrepo, rfl⟩
  have hpolled : (left.filter fun repo =>
      repo ∈ (waiting (eligible roster forced cursor) focused forced).take
        (stalestSlots focused forced (usedFanout fanout))).card
        = min (stalestSlots focused forced (usedFanout fanout)) left.card := by
    rw [← countP_mem (nodup_waiting.sublist (List.take_sublist _ _)),
      countP_take_of_pairwise split.pairwise_waiting, countP_mem nodup_waiting, hall]
  have hrest : (left.filter fun repo => repo ∉ (pickReposForTickBudgeted
      (eligible roster forced cursor) focused forced tick fanout none).repos)
        = left.filter fun repo =>
          ¬ repo ∈ (waiting (eligible roster forced cursor) focused forced).take
            (stalestSlots focused forced (usedFanout fanout)) := by
    apply Finset.filter_congr
    intro repo hrepo
    have hcandidate := split.subset hrepo
    rw [candidates, Finset.mem_filter] at hcandidate
    rw [repos_pick (nodup_eligible roster forced cursor), List.mem_append, mem_front]
    simp [hcandidate.2.1, hcandidate.2.2]
  have hsum := Finset.card_filter_add_card_filter_not (s := left) fun repo =>
    repo ∈ (waiting (eligible roster forced cursor) focused forced).take
      (stalestSlots focused forced (usedFanout fanout))
  rw [hrest]
  omega

end Stamps

/-! ### The state of a tick -/

namespace RoundRobinState

variable {s : RoundRobinState} {clockStart now : Instant} {roster : List String} {repo : String}

theorem cursor_seedMember (s : RoundRobinState) (repo : String) (never : Instant)
    (member : String) :
  (s.seedMember never member).cursor repo
    = if repo = member then some (((s.cursor member).or (s.suspendedCold member)).getD never)
      else s.cursor repo
  := Function.update_apply _ _ _ _

theorem cursor_recordSync (pick : String) :
  (s.recordSync pick now).cursor repo = if repo = pick then some now else s.cursor repo
  := Function.update_apply _ _ _ _

/-- A stamp that is there stays. -/
theorem cursor_seedRoster_of_some
    (roster : List String) {at' : Instant} (h : s.cursor repo = some at') :
  (s.seedRoster clockStart roster now).cursor repo = some at'
  := by
  rw [seedRoster]
  induction roster generalizing s with
  | nil => apply h
  | cons member roster ih =>
    apply ih
    rw [cursor_seedMember]
    split
    · next hmember => rw [← hmember, h, Option.some_or, Option.getD_some]
    · apply h

/-- Each member gets a stamp. -/
theorem exists_cursor_seedRoster
    (s : RoundRobinState) (clockStart now : Instant) (h : repo ∈ roster) :
  ∃ at', (s.seedRoster clockStart roster now).cursor repo = some at'
  := by
  induction roster generalizing s with
  | nil => cases h
  | cons member roster ih =>
    obtain rfl | h := List.mem_cons.mp h
    · have hstamp := cursor_seedMember s repo (longAgo clockStart now) repo
      rw [if_pos rfl] at hstamp
      use ((s.cursor repo).or (s.suspendedCold repo)).getD (longAgo clockStart now)
      exact cursor_seedRoster_of_some roster hstamp
    · apply ih _ h

theorem cursor_recordSyncs (picks : List String) :
  (picks.foldl (fun s repo => recordSync s repo now) s).cursor repo
    = if repo ∈ picks then some now else s.cursor repo
  := by
  induction picks generalizing s with
  | nil => rfl
  | cons pick picks ih =>
    rw [List.foldl_cons, ih, cursor_recordSync]
    by_cases hpicks : repo ∈ picks
    · rw [if_pos hpicks, if_pos (List.mem_cons_of_mem _ hpicks)]
    · by_cases hpick : repo = pick
      · rw [if_neg hpicks, if_pos hpick, if_pos (by simp [hpick])]
      · rw [if_neg hpicks, if_neg hpick, if_neg (by simp [hpick, hpicks])]

theorem focusedRepo_recordSyncs (picks : List String) :
  (picks.foldl (fun s repo => recordSync s repo now) s).focusedRepo = s.focusedRepo
  := by
  induction picks generalizing s with
  | nil => rfl
  | cons pick picks ih => apply ih

theorem focusedRepo_seedRoster (s : RoundRobinState) (clockStart : Instant) (roster : List String)
    (now : Instant) :
  (s.seedRoster clockStart roster now).focusedRepo = s.focusedRepo
  := by
  rw [seedRoster]
  induction roster generalizing s with
  | nil => rfl
  | cons member roster ih => apply ih

end RoundRobinState

/-! ### Ticks -/

section Ticks

variable (clockStart : Instant) (roster : List String) (forced : Finset String) (fanout : ℕ)

/-- The ticks of a rotation without a bound.  An observation is the pick of a tick. -/
def machine : Machine RoundRobinState Instant (List String) where
  step := fun s now =>
    let (next, picks) := planRepoRotation clockStart s roster forced fanout none now
    (next, [picks])

/-- Once the roster is seeded, every member was stamped before the tick, and none so long ago that
the stamp is dropped. -/
def Fresh (s : RoundRobinState) (now : Instant) : Prop :=
  ∀ repo ∈ roster, ∀ at', (s.seedRoster clockStart roster now).cursor repo = some at' →
    at' < now ∧ now - at' < cursorTtl

instance (s : RoundRobinState) (now : Instant) : Decidable (Fresh clockStart roster s now) :=
  inferInstanceAs (Decidable (∀ repo ∈ roster,
    ∀ at' ∈ (s.seedRoster clockStart roster now).cursor repo, at' < now ∧ now - at' < cursorTtl))

variable {clockStart roster forced fanout} {s : RoundRobinState} {now since : Instant}

/-- The stamps a tick goes by. -/
def stamps (clockStart : Instant) (roster : List String) (s : RoundRobinState) (now : Instant) :
    String → Option Instant :=
  RoundRobinState.retained now (s.seedRoster clockStart roster now).cursor

/-- The pick of a tick. -/
def picks (clockStart : Instant) (roster : List String) (forced : Finset String) (fanout : ℕ)
    (s : RoundRobinState) (now : Instant) : List String :=
  (pickReposForTickBudgeted (eligible roster forced (stamps clockStart roster s now))
    s.focusedRepo forced s.tick fanout none).repos

theorem tick_seedRoster (s : RoundRobinState) (clockStart : Instant) (roster : List String)
    (now : Instant) :
  (s.seedRoster clockStart roster now).tick = s.tick
  := by
  rw [RoundRobinState.seedRoster]
  induction roster generalizing s with
  | nil => rfl
  | cons member roster ih => apply ih

theorem emit_machine :
  (machine clockStart roster forced fanout).emit s now
    = [picks clockStart roster forced fanout s now]
  := by
  rw [picks, stamps, ← s.focusedRepo_seedRoster clockStart roster now,
    ← tick_seedRoster s clockStart roster now]
  rfl

variable {repo : String}

theorem cursor_next :
  ((machine clockStart roster forced fanout).next s now).cursor repo
    = if repo ∈ picks clockStart roster forced fanout s now then some now
      else stamps clockStart roster s now repo
  := by
  rw [picks, stamps, ← s.focusedRepo_seedRoster clockStart roster now,
    ← tick_seedRoster s clockStart roster now]
  exact RoundRobinState.cursor_recordSyncs _

theorem focusedRepo_next :
  ((machine clockStart roster forced fanout).next s now).focusedRepo = s.focusedRepo
  := by
  rw [← s.focusedRepo_seedRoster clockStart roster now]
  exact RoundRobinState.focusedRepo_recordSyncs _

/-- The stamps of a fresh roster are those it was seeded with. -/
theorem stamps_of_fresh (fresh : Fresh clockStart roster s now) (h : repo ∈ roster) :
  stamps clockStart roster s now repo = (s.seedRoster clockStart roster now).cursor repo
  := by
  obtain ⟨at', hat⟩ := RoundRobinState.exists_cursor_seedRoster s clockStart now h
  rw [stamps, RoundRobinState.retained, hat, Option.filter_some_pos]
  simpa using (fresh repo h at' hat).2

variable {focused : Option String}

theorem mem_roster_of_mem_candidates (h : repo ∈ candidates roster forced focused) :
  repo ∈ roster
  := List.mem_toFinset.mp (Finset.mem_filter.mp h).1

variable {left : Finset String}

theorem Split.congr {cands : Finset String} {cursor cursor' : String → Option Instant}
    (split : Split cands left since cursor) (h : ∀ repo ∈ cands, cursor' repo = cursor repo) :
  Split cands left since cursor'
  := by
  constructor
  · apply split.subset
  · intro repo hrepo hleft
    rw [h repo hrepo]
    apply split.polled repo hrepo hleft
  · intro repo hrepo
    rw [h repo (split.subset hrepo)]
    apply split.left repo hrepo

/-- At the first tick every candidate is left. -/
theorem split_first (forced : Finset String) (fresh : Fresh clockStart roster s now) :
  Split (candidates roster forced s.focusedRepo) (candidates roster forced s.focusedRepo) now
    (stamps clockStart roster s now)
  := by
  constructor
  · rfl
  · intro repo hrepo hleft
    exact absurd hrepo hleft
  · intro repo hrepo
    have hroster := mem_roster_of_mem_candidates hrepo
    obtain ⟨at', hat⟩ := RoundRobinState.exists_cursor_seedRoster s clockStart now hroster
    rw [stamps_of_fresh fresh hroster, hat]
    exact ⟨at', rfl, (fresh repo hroster at' hat).1⟩

/-- Between ticks the stamps stay. -/
theorem Split.stamps (split : Split (candidates roster forced focused) left since s.cursor)
    (fresh : Fresh clockStart roster s now) :
  Split (candidates roster forced focused) left since (stamps clockStart roster s now)
  := by
  apply split.congr
  intro repo hrepo
  rw [stamps_of_fresh fresh (mem_roster_of_mem_candidates hrepo)]
  by_cases hleft : repo ∈ left
  · obtain ⟨at', hat, -⟩ := split.left repo hleft
    rw [hat, RoundRobinState.cursor_seedRoster_of_some _ hat]
  · obtain ⟨at', hat, -⟩ := split.polled repo hrepo hleft
    rw [hat, RoundRobinState.cursor_seedRoster_of_some _ hat]

/-- After a tick what it polled is no longer left. -/
theorem Split.next {cands : Finset String}
    (split : Split cands left since (Rotation.stamps clockStart roster s now))
    (hsince : since ≤ now) (forced : Finset String) (fanout : ℕ) :
  Split cands (left.filter fun repo => repo ∉ picks clockStart roster forced fanout s now) since
    ((machine clockStart roster forced fanout).next s now).cursor
  := by
  constructor
  · apply (Finset.filter_subset _ _).trans split.subset
  · intro repo hrepo hleft
    rw [cursor_next]
    split
    · exact ⟨now, rfl, hsince⟩
    · next hpicks =>
        apply split.polled repo hrepo
        intro hbefore
        apply hleft (Finset.mem_filter.mpr ⟨hbefore, hpicks⟩)
  · intro repo hrepo
    obtain ⟨hbefore, hpicks⟩ := Finset.mem_filter.mp hrepo
    rw [cursor_next, if_neg hpicks]
    apply split.left repo hbefore

/-- Of what is left, each tick polls as many as it has slots. -/
theorem card_unpolled
    {nows : List Instant} (split : Split (candidates roster forced focused) left since s.cursor)
    (hfocused : s.focusedRepo = focused) (hsince : ∀ now ∈ nows, since ≤ now)
    (fresh : (machine clockStart roster forced fanout).Along (Fresh clockStart roster) s nows) :
  (left.filter fun repo => ∀ pick ∈ (machine clockStart roster forced fanout).trace s nows,
      repo ∉ pick).card
    = left.card - stalestSlots focused forced (usedFanout fanout) * nows.length
  := by
  induction nows generalizing s left with
  | nil => simp [Machine.trace]
  | cons now nows ih =>
    obtain ⟨hfresh, hrest⟩ := fresh
    subst hfocused
    have htick := split.stamps hfresh
    have hnext := htick.next (hsince now (by simp)) forced fanout
    have hafter := ih hnext focusedRepo_next (fun now hnow => hsince now (by simp [hnow])) hrest
    rw [Machine.trace, emit_machine, List.length_cons, Nat.mul_succ]
    simp only [List.singleton_append, List.forall_mem_cons]
    rw [← Finset.filter_filter, hafter]
    have hcard : (left.filter fun repo =>
        repo ∉ picks clockStart roster forced fanout s now).card
        = left.card - stalestSlots s.focusedRepo forced (usedFanout fanout) :=
      htick.card_left _ _
    omega

/-- From the first tick on. -/
theorem card_unpolled_first
    {nows : List Instant} (increasing : (now :: nows).Pairwise (· < ·))
    (fresh : (machine clockStart roster forced fanout).Along (Fresh clockStart roster) s
      (now :: nows)) :
  ((candidates roster forced s.focusedRepo).filter fun repo =>
      ∀ pick ∈ (machine clockStart roster forced fanout).trace s (now :: nows), repo ∉ pick).card
    = (candidates roster forced s.focusedRepo).card
      - stalestSlots s.focusedRepo forced (usedFanout fanout) * (nows.length + 1)
  := by
  obtain ⟨hfresh, hrest⟩ := fresh
  have htick := split_first forced hfresh
  have hnext := htick.next le_rfl forced fanout
  have hlater : ∀ later ∈ nows, now ≤ later := by
    intro later hlater
    apply le_of_lt ((List.pairwise_cons.mp increasing).1 later hlater)
  have hafter := card_unpolled hnext focusedRepo_next hlater hrest
  rw [Machine.trace, emit_machine, Nat.mul_succ]
  simp only [List.singleton_append, List.forall_mem_cons]
  rw [← Finset.filter_filter, hafter]
  have hcard : ((candidates roster forced s.focusedRepo).filter fun repo =>
      repo ∉ picks clockStart roster forced fanout s now).card
      = (candidates roster forced s.focusedRepo).card
        - stalestSlots s.focusedRepo forced (usedFanout fanout) :=
    htick.card_left _ _
  omega

/-- What is focused or forced is polled in every tick. -/
theorem mem_picks_of_notMem_candidates (h : repo ∈ roster)
    (hcandidates : repo ∉ candidates roster forced s.focusedRepo) :
  repo ∈ picks clockStart roster forced fanout s now
  := by
  rw [picks, repos_pick (nodup_eligible _ _ _), List.mem_append, mem_front]
  left
  by_contra hfront
  push Not at hfront
  apply hcandidates
  rw [candidates, Finset.mem_filter, List.mem_toFinset]
  exact ⟨h, hfront.2, hfront.1⟩

end Ticks

/-! ### Coverage -/

theorem le_mul_divCeil {m n : ℕ} (h : 0 < n) :
  m ≤ n * divCeil m n
  := by
  have hdiv := Nat.div_add_mod (m + n - 1) n
  have hmod := Nat.mod_lt (m + n - 1) h
  rw [divCeil]
  omega

/-- The ticks within which the roster should be covered. -/
def coverTicks (rosterLen targetTicks : ℕ) : ℕ :=
  divCeil rosterLen (rotationFanout rosterLen targetTicks)

theorem rotationFanout_pos {rosterLen : ℕ} (h : rosterLen ≠ 0) (targetTicks : ℕ) :
  0 < rotationFanout rosterLen targetTicks
  := by
  rw [rotationFanout, if_neg h]
  apply lt_of_lt_of_le Nat.zero_lt_one (le_max_right _ _)

/-- The roster is covered when no candidate is left. -/
theorem covered_iff {clockStart now : Instant} {roster : List String} {forced : Finset String}
    {fanout : ℕ} {s : RoundRobinState} {nows : List Instant} :
  (∀ repo ∈ roster, ∃ pick ∈ (machine clockStart roster forced fanout).trace s (now :: nows),
      repo ∈ pick)
    ↔ ((candidates roster forced s.focusedRepo).filter fun repo =>
      ∀ pick ∈ (machine clockStart roster forced fanout).trace s (now :: nows),
        repo ∉ pick).card = 0
  := by
  rw [Finset.card_eq_zero, Finset.filter_eq_empty_iff]
  constructor
  · intro h repo hrepo hnone
    obtain ⟨pick, hpick, hmem⟩ := h repo (mem_roster_of_mem_candidates hrepo)
    apply hnone pick hpick hmem
  · intro h repo hrepo
    by_cases hcandidates : repo ∈ candidates roster forced s.focusedRepo
    · have hpolled := h hcandidates
      push Not at hpolled
      apply hpolled
    · use picks clockStart roster forced fanout s now
      constructor
      · rw [Machine.trace, emit_machine]
        simp
      · apply mem_picks_of_notMem_candidates hrepo hcandidates

/-- Every member of the roster is polled within the ticks that the fanout is for, exactly when
there is no focused repository that is not forced, or the slots it leaves are enough for the other
members. -/
theorem roster_covered_iff
    {clockStart : Instant} {roster : List String} {forced : Finset String}
    {s : RoundRobinState} {targetTicks : ℕ} {nows : List Instant}
    (ticks : nows.length = coverTicks roster.length targetTicks)
    (increasing : nows.Pairwise (· < ·))
    (fresh : (machine clockStart roster forced (rotationFanout roster.length targetTicks)).Along
      (Fresh clockStart roster) s nows) :
  (∀ repo ∈ roster, ∃ pick ∈ (machine clockStart roster forced
      (rotationFanout roster.length targetTicks)).trace s nows, repo ∈ pick)
    ↔ ∀ focus, s.focusedRepo = some focus → focus ∉ forced →
      (candidates roster forced (some focus)).card
        ≤ (rotationFanout roster.length targetTicks - 1) * nows.length
  := by
  by_cases hroster : roster.length = 0
  · rw [List.length_eq_zero_iff] at hroster
    subst hroster
    constructor
    · intro _ focus _ _
      simp [candidates]
    · intro _ repo hrepo
      cases hrepo
  · have hfanout := rotationFanout_pos hroster targetTicks
    have henough : roster.length
        ≤ rotationFanout roster.length targetTicks * nows.length := by
      rw [ticks, coverTicks]
      apply le_mul_divCeil hfanout
    have hused : usedFanout (rotationFanout roster.length targetTicks)
        = rotationFanout roster.length targetTicks :=
      if_neg (Nat.ne_of_gt hfanout)
    cases nows with
    | nil =>
        rw [List.length_nil, Nat.mul_zero] at henough
        exact absurd (Nat.le_zero.mp henough) hroster
    | cons now nows =>
        rw [covered_iff, card_unpolled_first increasing fresh, Nat.sub_eq_zero_iff_le, hused,
          stalestSlots, ← List.length_cons]
        split
        · next hfocus =>
            obtain ⟨focus, hsome, hforced⟩ := (Option.any_eq_true _ _).mp hfocus
            rw [hsome]
            constructor
            · rintro h _ ⟨⟩ _
              apply h
            · intro h
              apply h focus rfl (of_decide_eq_true hforced)
        · next hfocus =>
            have hcard : (candidates roster forced s.focusedRepo).card ≤ roster.length :=
              (Finset.card_filter_le _ _).trans (List.toFinset_card_le roster)
            constructor
            · intro _ focus hsome hforced
              apply absurd _ hfocus
              rw [hsome]
              simpa using hforced
            · intro _
              apply hcard.trans henough

/-- A member whose stamp is dropped in a tick is not polled in it, stale as it is. -/
example :
    picks 0 ["o/a"] ∅ 1 { RoundRobinState.new with cursor := fun _ => some 0 } cursorTtl = [] := by
  decide +kernel

/-- A roster of two, with a slot for one of them in each tick. -/
def pair : List String := ["o/a", "o/b"]

/-- The user looks at the first of them. -/
def watching : RoundRobinState := { RoundRobinState.new with focusedRepo := some "o/a" }

/-- The second one is not polled in the two ticks within which both should be. -/
theorem watching_starves :
  ¬ ∀ repo ∈ pair, ∃ pick ∈ (machine (-cursorTtl) pair ∅ (rotationFanout pair.length 2)).trace
    watching [1, 2], repo ∈ pick
  := by
  decide +kernel

/-- When the user looks at neither, both are. -/
theorem roster_covered_pair :
  (∀ repo ∈ pair, ∃ pick ∈ (machine (-cursorTtl) pair ∅ (rotationFanout pair.length 2)).trace
      .new [1, 2], repo ∈ pick)
    ↔ ∀ focus, RoundRobinState.new.focusedRepo = some focus → focus ∉ (∅ : Finset String) →
      (candidates pair ∅ (some focus)).card ≤ (rotationFanout pair.length 2 - 1) * [1, 2].length
  := by
  apply roster_covered_iff
  · decide
  · decide
  · decide +kernel

end Lazybox.Rotation
