import Lazybox.Polling.RotationPick

/-!
# The forced repositories take turns

When there are more forced repositories than a tick may poll, those that were not polled yet come
before those that were, so that every tick polls new ones until none is left.
-/

namespace Lazybox.Rotation

/-- A tick, with the order the cursor is gone through, and how many of the others to poll. -/
structure BudgetedTick where
  names : List String
  n : ℕ
  now : Instant

section Turns

variable (forced : Finset String) (m : ℕ)

/-- The ticks that poll no more than so many repositories.  An observation is the pick of a tick. -/
def budgeted : Machine RoundRobinState BudgetedTick (List String) where
  step := fun s t =>
    let (next, pick) := planRoundRobinTickBudgeted s t.names forced true t.n (some m) t.now
    (next, [pick.repos])

/-- The same ticks, where the forced repositories are gone through in the order of a list. -/
def visiting (listing : List String) : Machine RoundRobinState BudgetedTick (List String) where
  step := fun s t =>
    let s := s.prune t.now
    let pick :=
      pickVisiting (listed t.names s.cursor) s.focusedRepo listing s.tick t.n (some m)
    ((s.recordSyncs pick.repos t.now).advance, [pick.repos])

/-- A tick goes through every forced repository that has a stamp. -/
def Listed (s : RoundRobinState) (t : BudgetedTick) : Prop :=
  ∀ repo ∈ forced, (s.cursor repo).isSome → repo ∈ t.names

instance (s : RoundRobinState) (t : BudgetedTick) : Decidable (Listed forced s t) :=
  inferInstanceAs (Decidable (∀ repo ∈ forced, (s.cursor repo).isSome → repo ∈ t.names))

/-- The stamps a tick goes by. -/
def tickStamps (s : RoundRobinState) (t : BudgetedTick) : List (String × Instant) :=
  listed t.names (s.prune t.now).cursor

def budgetedPick (s : RoundRobinState) (t : BudgetedTick) : List String :=
  (pickReposForTickBudgeted (tickStamps s t) s.focusedRepo forced s.tick t.n (some m)).repos

/-- Some of the forced repositories were polled since an instant, and the others were not. -/
structure TurnsLeft (left : Finset String) (since : Instant) (cursor : String → Option Instant) :
    Prop where
  subset : left ⊆ forced
  polled : ∀ repo ∈ forced, repo ∉ left → ∃ x, cursor repo = some x ∧ since ≤ x
  earlier : ∀ repo ∈ left, ∀ x, cursor repo = some x → x < since

variable {forced m} {s : RoundRobinState} {t : BudgetedTick} {left : Finset String}
  {since : Instant}

theorem budgeted_eq_visiting {listing : List String} (nodup : listing.Nodup)
    (h : listing.toFinset = forced) :
  budgeted forced m = visiting m listing
  := by
  rw [budgeted, visiting]
  congr 1
  funext s t
  have distinct : ((listed t.names (s.prune t.now).cursor).map Prod.fst).Nodup :=
    nodup_stamped _ _
  dsimp only
  rw [pickVisiting_eq distinct (List.Perm.refl _) nodup h]
  rfl

theorem emit_budgeted :
  (budgeted forced m).emit s t = [budgetedPick forced m s t]
  := rfl

theorem cursor_budgeted {repo : String} :
  ((budgeted forced m).next s t).cursor repo
    = if repo ∈ budgetedPick forced m s t then some t.now
      else (s.prune t.now).cursor repo
  := RoundRobinState.cursor_recordSyncs _

theorem focusedRepo_budgeted :
  ((budgeted forced m).next s t).focusedRepo = s.focusedRepo
  := RoundRobinState.focusedRepo_recordSyncs _

theorem cursor_prune (s : RoundRobinState) (now : Instant) (repo : String) :
  (s.prune now).cursor repo = (s.cursor repo).filter fun last => now - last < cursorTtl
  := rfl

theorem nodup_tickStamps :
  ((tickStamps s t).map Prod.fst).Nodup
  := nodup_stamped _ _

theorem lookup_tickStamps (hlisted : Listed forced s t) {repo : String} (h : repo ∈ forced) :
  (tickStamps s t).lookup repo = (s.prune t.now).cursor repo
  := by
  apply Option.ext
  intro x
  rw [lookup_eq_some_iff_mem nodup_tickStamps, tickStamps, listed]
  simp only [List.mem_filterMap, List.mem_dedup, Option.map_eq_some_iff, Prod.mk.injEq]
  constructor
  · rintro ⟨name, -, y, hy, rfl, rfl⟩
    exact hy
  · intro hx
    have hbefore : (s.cursor repo).isSome := by
      rw [cursor_prune] at hx
      rw [Option.eq_some_of_filter_eq_some hx]
      rfl
    exact ⟨repo, hlisted repo h hbefore, x, hx, rfl, rfl⟩

/-- What is left is tried before what is not. -/
theorem TurnsLeft.pairwise_sortedForced (hlisted : Listed forced s t)
    (turns : TurnsLeft forced left since (s.prune t.now).cursor) :
  (sortedForced (tickStamps s t) forced).Pairwise
    fun a b => decide (b ∈ left) = true → decide (a ∈ left) = true
  := by
  apply List.Pairwise.imp_of_mem _ Rotation.pairwise_sortedForced
  intro a b ha hb hab hleft
  rw [mem_sortedForced] at ha hb
  rw [decide_eq_true_eq] at hleft ⊢
  by_contra hnot
  obtain ⟨x, hx, hsince⟩ := turns.polled a ha hnot
  have hle := hab.1
  rw [lookup_tickStamps hlisted ha, lookup_tickStamps hlisted hb, hx] at hle
  cases hy : (s.prune t.now).cursor b with
  | none =>
    rw [hy] at hle
    cases hle
  | some y =>
    rw [hy, notLater, decide_eq_true_eq] at hle
    apply lt_irrefl since
    apply lt_of_le_of_lt (hsince.trans hle) (turns.earlier b hleft y hy)

/-- Without a focus, the first of the forced repositories are picked, as many as the tick may
poll. -/
theorem mem_budgetedPick (hfocused : s.focusedRepo = none) {repo : String}
    (h : repo ∈ (sortedForced (tickStamps s t) forced).take m) :
  repo ∈ budgetedPick forced m s t
  := by
  have htried : tried (tickStamps s t) none forced (some m)
      = sortedForced (tickStamps s t) forced := by
    simp [tried, focusPart_none]
  have hpart : forcedPart (tickStamps s t) none forced (some m)
      = (sortedForced (tickStamps s t) forced).take m := by
    rw [forcedPart, htried, focusPart_none, List.take_eq_take_iff, room, List.length_nil,
      Nat.sub_zero]
    omega
  rw [budgetedPick, repos_eq nodup_tickStamps, hfocused, frontPart, focusPart_none, hpart]
  exact List.mem_append_left _ h

/-- As many of those that are left are polled as the tick may poll. -/
theorem TurnsLeft.card_left_le (hlisted : Listed forced s t) (hfocused : s.focusedRepo = none)
    (turns : TurnsLeft forced left since (s.prune t.now).cursor) :
  (left.filter fun repo => repo ∉ budgetedPick forced m s t).card ≤ left.card - m
  := by
  have hall : left.filter (fun repo => repo ∈ sortedForced (tickStamps s t) forced) = left := by
    rw [Finset.filter_eq_self]
    intro repo hrepo
    exact mem_sortedForced.mpr (turns.subset hrepo)
  have hpolled : (left.filter fun repo =>
      repo ∈ (sortedForced (tickStamps s t) forced).take m).card = min m left.card := by
    rw [← countP_mem (nodup_sortedForced.sublist (List.take_sublist _ _)),
      countP_take_of_pairwise (turns.pairwise_sortedForced hlisted), countP_mem nodup_sortedForced,
      hall]
  have hsplit := Finset.card_filter_add_card_filter_not (s := left)
    (fun repo => repo ∈ (sortedForced (tickStamps s t) forced).take m)
  have hle : (left.filter fun repo => repo ∉ budgetedPick forced m s t).card
      ≤ (left.filter fun repo =>
        repo ∉ (sortedForced (tickStamps s t) forced).take m).card := by
    apply Finset.card_le_card
    apply Finset.monotone_filter_right
    intro repo _ hunpolled htake
    exact hunpolled (mem_budgetedPick hfocused htake)
  omega

/-- A stamp since the first tick is not dropped. -/
theorem TurnsLeft.prune (turns : TurnsLeft forced left since s.cursor)
    (hwithin : t.now - since < cursorTtl) :
  TurnsLeft forced left since (s.prune t.now).cursor
  := by
  constructor
  · exact turns.subset
  · intro repo hrepo hleft
    obtain ⟨x, hx, hsince⟩ := turns.polled repo hrepo hleft
    use x
    constructor
    · rw [cursor_prune, hx]
      apply Option.filter_some_pos
      rw [decide_eq_true_eq]
      apply lt_of_le_of_lt _ hwithin
      exact Int.sub_le_sub_left hsince t.now
    · exact hsince
  · intro repo hrepo x hx
    apply turns.earlier repo hrepo x
    exact Option.eq_some_of_filter_eq_some hx

/-- After a tick what it polled is no longer left. -/
theorem TurnsLeft.next (turns : TurnsLeft forced left since (s.prune t.now).cursor)
    (hsince : since ≤ t.now) :
  TurnsLeft forced (left.filter fun repo => repo ∉ budgetedPick forced m s t) since
    ((budgeted forced m).next s t).cursor
  := by
  constructor
  · exact (Finset.filter_subset _ _).trans turns.subset
  · intro repo hrepo hleft
    rw [cursor_budgeted]
    split
    · exact ⟨t.now, rfl, hsince⟩
    · next hpick =>
        apply turns.polled repo hrepo
        intro hbefore
        apply hleft (Finset.mem_filter.mpr ⟨hbefore, hpick⟩)
  · intro repo hrepo
    obtain ⟨hbefore, hpick⟩ := Finset.mem_filter.mp hrepo
    rw [cursor_budgeted, if_neg hpick]
    exact turns.earlier repo hbefore

/-- Every tick polls as many of what is left as it may. -/
theorem card_untried_le {ticks : List BudgetedTick}
    (turns : TurnsLeft forced left since s.cursor) (hfocused : s.focusedRepo = none)
    (within : ∀ t ∈ ticks, since ≤ t.now ∧ t.now - since < cursorTtl)
    (hlisted : (budgeted forced m).Along (Listed forced) s ticks) :
  (left.filter fun repo => ∀ pick ∈ (budgeted forced m).trace s ticks, repo ∉ pick).card
    ≤ left.card - m * ticks.length
  := by
  induction ticks generalizing s left with
  | nil => simp [Machine.trace]
  | cons t ticks ih =>
    obtain ⟨htick, hrest⟩ := hlisted
    obtain ⟨hsince, hwithin⟩ := within t List.mem_cons_self
    have hpruned := turns.prune hwithin
    have hcard : (left.filter fun repo => repo ∉ budgetedPick forced m s t).card
        ≤ left.card - m :=
      hpruned.card_left_le htick hfocused
    have hafter := ih (hpruned.next hsince) (focusedRepo_budgeted.trans hfocused)
      (fun t ht => within t (List.mem_cons_of_mem _ ht)) hrest
    rw [Machine.trace, emit_budgeted, List.length_cons, Nat.mul_succ]
    simp only [List.singleton_append, List.forall_mem_cons]
    rw [← Finset.filter_filter]
    omega

/-- Every forced repository is polled within so many ticks that they have room for all. -/
theorem forced_polled {ticks : List BudgetedTick} (hm : 0 < m) (hfocused : s.focusedRepo = none)
    (earlier : ∀ repo ∈ forced, ∀ x, s.cursor repo = some x → x < since)
    (within : ∀ t ∈ ticks, since ≤ t.now ∧ t.now - since < cursorTtl)
    (hlisted : (budgeted forced m).Along (Listed forced) s ticks)
    (hlength : ticks.length = divCeil forced.card m) :
  ∀ repo ∈ forced, ∃ pick ∈ (budgeted forced m).trace s ticks, repo ∈ pick
  := by
  have turns : TurnsLeft forced forced since s.cursor :=
    ⟨subset_rfl, fun repo hrepo hleft => absurd hrepo hleft, earlier⟩
  have hcard := card_untried_le turns hfocused within hlisted
  have henough : forced.card ≤ m * ticks.length := by
    rw [hlength]
    exact le_mul_divCeil hm
  rw [Nat.sub_eq_zero_of_le henough, Nat.le_zero, Finset.card_eq_zero,
    Finset.filter_eq_empty_iff] at hcard
  intro repo hrepo
  have hpolled := hcard hrepo
  push Not at hpolled
  exact hpolled

end Turns

/-- The pick of a tick is what it should be, whatever the order the maps are gone through.  Without
a focus, ticks that may poll some of the forced repositories have polled all of them once they have
room for all, when they come after the stamps of the forced ones, and within the lifetime of a
stamp. -/
theorem tick_pick (known : List (String × Instant)) (distinct : (known.map Prod.fst).Nodup)
    (focused : Option String) (forced : Finset String) (tick n : ℕ) (maxRepos : Option ℕ) :
  PickExact known focused forced n maxRepos
      (pickReposForTickBudgeted known focused forced tick n maxRepos).repos
    ∧ (∀ known' listing, known'.Perm known → listing.Nodup → listing.toFinset = forced →
      pickVisiting known' focused listing tick n maxRepos
        = pickReposForTickBudgeted known focused forced tick n maxRepos)
    ∧ ∀ m s start ticks, 0 < m → s.focusedRepo = none →
      (∀ repo ∈ forced, ∀ x, s.cursor repo = some x → x < start) →
      (∀ t ∈ ticks, start ≤ t.now ∧ t.now - start < cursorTtl) →
      (budgeted forced m).Along (Listed forced) s ticks →
      ticks.length = divCeil forced.card m →
      ∀ repo ∈ forced, ∃ pick ∈ (budgeted forced m).trace s ticks, repo ∈ pick
  := by
  refine ⟨pickExact distinct tick, ?_, ?_⟩
  · intro known' listing hperm nodup hforced
    exact pickVisiting_eq distinct hperm nodup hforced focused tick n maxRepos
  · intro m s start ticks hm hfocused earlier within hlisted hlength
    exact forced_polled hm hfocused earlier within hlisted hlength

/-- Two repositories that are forced, and a tick at some time that polls one of them. -/
def twoForced : Finset String := {"o/a", "o/b"}

def tickAt (now : Instant) : BudgetedTick := ⟨["o/b", "o/a"], 3, now⟩

/-- A second after another, two ticks poll both. -/
theorem tick_pick_twoForced :
  (∃ pick ∈ (budgeted twoForced 1).trace .new [tickAt 0, tickAt (seconds 1)], "o/a" ∈ pick)
    ∧ ∃ pick ∈ (budgeted twoForced 1).trace .new [tickAt 0, tickAt (seconds 1)], "o/b" ∈ pick
  := by
  have hall : ∀ repo ∈ twoForced,
      ∃ pick ∈ (budgeted twoForced 1).trace .new [tickAt 0, tickAt (seconds 1)], repo ∈ pick := by
    apply (tick_pick [] List.nodup_nil none twoForced 0 3 none).2.2 1 .new 0
    · decide
    · rfl
    · intro repo _ x hx
      cases hx
    · decide
    · have heq : budgeted twoForced 1 = visiting 1 ["o/a", "o/b"] :=
        budgeted_eq_visiting (by decide) rfl
      rw [heq]
      decide +kernel
    · decide
  exact ⟨hall "o/a" (by decide), hall "o/b" (by decide)⟩

/-- No fanout stands for one of three, so that more are polled than those forced.  And when the
second tick comes so late that the stamp of the first is dropped, the same one is polled again. -/
theorem not_tick_pick :
  ¬ (pickReposForTickBudgeted [("o/a", 0)] none ∅ 0 0 none).repos.length
      ≤ (∅ : Finset String).card + 0
    ∧ (budgeted twoForced 1).Along (Listed twoForced) .new [tickAt 0, tickAt cursorTtl]
    ∧ [tickAt 0, tickAt cursorTtl].length = divCeil twoForced.card 1
    ∧ ¬ ∀ repo ∈ twoForced, ∃ pick ∈
      (budgeted twoForced 1).trace .new [tickAt 0, tickAt cursorTtl], repo ∈ pick
  := by
  have heq : budgeted twoForced 1 = visiting 1 ["o/a", "o/b"] :=
    budgeted_eq_visiting (by decide) rfl
  rw [heq]
  decide +kernel

end Lazybox.Rotation
