import Lazybox.Core.StackPlaces

/-!
# Stacks and the order of the tasks

The head branches are entered in the order the tasks are listed, and of two open pull requests with
the same head branch the last one is found.  Unless another one is based on such a branch, the
order does not matter.
-/

namespace Lazybox.Stack

/-- The same place, the children in whatever order. -/
def SamePlace : Option StackPosition → Option StackPosition → Prop
  | none, none => True
  | some p, some q => p.parent = q.parent ∧ (∀ c, c ∈ p.children ↔ c ∈ q.children)
      ∧ p.position = q.position ∧ p.depth = q.depth
  | _, _ => False

/-- However the tasks are listed, the pull requests get the same places. -/
def OrderIndependent (tasks : List Task) : Prop :=
  ∀ fuel, (openPrs tasks).length < fuel → ∀ tasks', tasks.Perm tasks' →
    ∃ out out', detectStacks fuel tasks = some out ∧ detectStacks fuel tasks' = some out'
      ∧ ∀ id, SamePlace (out id) (out' id)

/-- The base branch of an open pull request is the head branch of one open pull request at most. -/
def BasesUnambiguous (tasks : List Task) : Prop :=
  ∀ pr ∈ openPrs tasks, ∀ a ∈ openPrs tasks, ∀ b ∈ openPrs tasks,
    pr.repo = a.repo → pr.baseBranch = a.branch → pr.repo = b.repo → pr.baseBranch = b.branch →
      a.id = b.id

theorem SamePlace.refl (place : Option StackPosition) :
  SamePlace place place
  := by
  cases place with
  | none => trivial
  | some p => exact ⟨rfl, fun c => Iff.rfl, rfl, rfl⟩

theorem SamePlace.parent {place place' : Option StackPosition} (h : SamePlace place place') :
  place.bind StackPosition.parent = place'.bind StackPosition.parent
  := by
  cases place with
  | none =>
    cases place' with
    | none => rfl
    | some q => cases h
  | some p =>
    cases place' with
    | none => cases h
    | some q => exact h.1

variable {prs prs' : List Task} {fuel : ℕ} {tasks tasks' : List Task}

/-! ### Links in any order -/

theorem perm_links (hperm : prs.Perm prs')
    (hparent : ∀ pr ∈ prs, parentOf prs pr = parentOf prs' pr) :
  (links prs).Perm (links prs')
  := by
  have hlinks : links prs = prs.filterMap fun pr => (parentOf prs' pr).map (pr.id, ·) := by
    apply List.filterMap_congr
    intro pr hpr
    rw [hparent pr hpr]
  rw [hlinks]
  apply hperm.filterMap

/-- Where the bases are unambiguous, a parent is found in any order. -/
theorem parentOf_eq_of_perm (unambiguous : BasesUnambiguous tasks) (hperm : tasks.Perm tasks')
    {pr : Task} (hpr : pr ∈ openPrs tasks) :
  parentOf (openPrs tasks) pr = parentOf (openPrs tasks') pr
  := by
  have hheads : (heads (openPrs tasks)).Perm (heads (openPrs tasks')) :=
    (hperm.filter _).filterMap _
  have hlast : ∀ repo base, pr.repo = some repo → pr.baseBranch = some base →
      Keyed.last (heads (openPrs tasks)) (repo, base)
        = Keyed.last (heads (openPrs tasks')) (repo, base) := by
    intro repo base hrepo hbase
    apply Keyed.Single.last_eq_of_perm _ hheads
    intro i j hi hj
    obtain ⟨a, ha, harepo, hahead, rfl⟩ := mem_heads.mp hi
    obtain ⟨b, hb, hbrepo, hbhead, rfl⟩ := mem_heads.mp hj
    exact unambiguous pr hpr a ha b hb (hrepo.trans harepo.symm) (hbase.trans hahead.symm)
      (hrepo.trans hbrepo.symm) (hbase.trans hbhead.symm)
  ext below
  rw [parentOf_eq_some, parentOf_eq_some]
  constructor
  · rintro ⟨repo, base, hrepo, hbase, hfound, hne⟩
    rw [hlast repo base hrepo hbase] at hfound
    exact ⟨repo, base, hrepo, hbase, hfound, hne⟩
  · rintro ⟨repo, base, hrepo, hbase, hfound, hne⟩
    rw [← hlast repo base hrepo hbase] at hfound
    exact ⟨repo, base, hrepo, hbase, hfound, hne⟩

theorem compareIds_eq {a b : TaskId} (h : compareIds a b = .eq) :
  a = b
  := by
  simp only [compareIds, compareLex, compareOn, Ordering.then_eq_eq] at h
  cases a
  cases b
  simp_all

instance : Std.TransCmp compareIds :=
  inferInstanceAs (Std.TransCmp (compareLex (compareOn TaskId.source) (compareOn TaskId.key)))

theorem children_eq_of_perm (h : (links prs).Perm (links prs')) :
  children prs = children prs'
  := by
  funext id
  apply Ranking.sortBy_eq_of_perm _ ((h.filter _).map _)
  intro a _ b _
  apply compareIds_eq

theorem parent_eq_of_perm (distinct : (prs.map (·.id)).Nodup) (h : (links prs).Perm (links prs')) :
  parent prs = parent prs'
  := by
  funext id
  apply (Keyed.Single.of_nodup (nodup_links distinct) id).last_eq_of_perm h

variable {out : TaskId → Option StackPosition}

/-- The places depend on the links only. -/
theorem Places.eq_of_perm {out' : TaskId → Option StackPosition}
    (distinct : (prs.map (·.id)).Nodup) (hlinks : (links prs).Perm (links prs'))
    (h : Places prs fuel out) (h' : Places prs' fuel out') :
  out = out'
  := by
  funext id
  ext place
  rw [h id place, h' id place, parent_eq_of_perm distinct hlinks, children_eq_of_perm hlinks]
  simp only [Linked, hlinks.mem_iff]

theorem BasesUnambiguous.orderIndependent (unambiguous : BasesUnambiguous tasks)
    (distinct : (tasks.map (·.id)).Nodup) :
  OrderIndependent tasks
  := by
  intro fuel hfuel tasks' hperm
  have hopen : (openPrs tasks).Perm (openPrs tasks') := hperm.filter _
  have hdistinct : ((openPrs tasks).map (·.id)).Nodup :=
    distinct.sublist (List.filter_sublist.map _)
  obtain ⟨out, hout, places⟩ := exists_detectStacks hdistinct hfuel
  obtain ⟨out', hout', places'⟩ :=
    exists_detectStacks ((hopen.map _).nodup_iff.mp hdistinct) (hopen.length_eq ▸ hfuel)
  have hlinks := perm_links hopen fun pr hpr => parentOf_eq_of_perm unambiguous hperm hpr
  have heq := places.eq_of_perm hdistinct hlinks places'
  refine ⟨out, out', hout, hout', ?_⟩
  intro id
  rw [heq]
  apply SamePlace.refl

/-! ### Ambiguous bases -/

theorem Places.bind_parent (h : Places prs fuel out) (distinct : (prs.map (·.id)).Nodup)
    (hfuel : prs.length < fuel) (id : TaskId) :
  (out id).bind StackPosition.parent = parent prs id
  := by
  cases hout : out id with
  | some p => exact h.parent_eq hout
  | none =>
    cases hparent : parent prs id with
    | none => rfl
    | some below =>
      rw [parent_eq_some distinct] at hparent
      obtain ⟨p, hp⟩ := (h.exists_iff distinct hfuel).mpr (Or.inl ⟨below, hparent⟩)
      cases hout.symm.trans hp

theorem parent_eq_parentOf (distinct : (prs.map (·.id)).Nodup) {pr : Task} (hpr : pr ∈ prs) :
  parent prs pr.id = parentOf prs pr
  := by
  ext below
  rw [parent_eq_some distinct, mem_links]
  constructor
  · rintro ⟨other, hother, hid, hparent⟩
    rwa [List.inj_on_of_nodup_map distinct hother hpr hid] at hparent
  · intro hparent
    use pr, hpr

/-- The tasks with one of them listed last. -/
def withLast (tasks : List Task) (a : Task) : List Task := tasks.erase a ++ [a]

theorem withLast_perm {a : Task} (ha : a ∈ tasks) :
  tasks.Perm (withLast tasks a)
  := (List.perm_cons_erase ha).trans (List.perm_append_singleton a _).symm

/-- The pull request that is listed last is the parent of those based on its head branch. -/
theorem parentOf_withLast {pr a : Task} (ha : a ∈ openPrs tasks) (hrepo : pr.repo = a.repo)
    (hbase : pr.baseBranch = a.branch) :
  parentOf (openPrs (withLast tasks a)) pr = if a.id ≠ pr.id then some a.id else none
  := by
  obtain ⟨repo, head, harepo, hahead⟩ := mem_openPrs ha
  have hopen : openPrs (withLast tasks a) = openPrs (tasks.erase a) ++ [a] := by
    have hkept := (List.mem_filter.mp ha).2
    simp only [openPrs, withLast, List.filter_append, List.filter_cons, hkept, if_true,
      List.filter_nil]
  have hheads : heads (openPrs (withLast tasks a))
      = heads (openPrs (tasks.erase a)) ++ [((repo, head), a.id)] := by
    rw [hopen, heads, List.filterMap_append]
    simp [heads, harepo, hahead]
  rw [parentOf, hrepo, harepo, hbase, hahead, hheads]
  simp [Keyed.last_concat]

/-- When the order does not matter, no base is the head branch of two. -/
theorem OrderIndependent.unambiguous (h : OrderIndependent tasks)
    (distinct : (tasks.map (·.id)).Nodup) :
  BasesUnambiguous tasks
  := by
  intro pr hpr a ha b hb harepo hahead hbrepo hbhead
  -- the parent of the one based on both, when either of them is listed last
  have hparent : ∀ other ∈ openPrs tasks, pr.repo = other.repo →
      pr.baseBranch = other.branch → parent (openPrs tasks) pr.id
        = if other.id ≠ pr.id then some other.id else none := by
    intro other hother hrepo hbase
    have hmem : other ∈ tasks := (List.mem_filter.mp hother).1
    have hperm := withLast_perm hmem
    have hopen : (openPrs tasks).Perm (openPrs (withLast tasks other)) := hperm.filter _
    have hdistinct : ((openPrs tasks).map (·.id)).Nodup :=
      distinct.sublist (List.filter_sublist.map _)
    have hdistinct' := (hopen.map (·.id)).nodup_iff.mp hdistinct
    have hfuel := Nat.lt_succ_self (openPrs tasks).length
    have hfuel' : (openPrs (withLast tasks other)).length < (openPrs tasks).length + 1 := by
      rw [← hopen.length_eq]
      exact hfuel
    obtain ⟨out, out', hout, hout', hsame⟩ := h _ hfuel _ hperm
    obtain ⟨out₁, hout₁, places⟩ := exists_detectStacks hdistinct hfuel
    obtain ⟨out₂, hout₂, places'⟩ := exists_detectStacks hdistinct' hfuel'
    obtain rfl := Option.some.inj (hout.symm.trans hout₁)
    obtain rfl := Option.some.inj (hout'.symm.trans hout₂)
    calc
      parent (openPrs tasks) pr.id = (out pr.id).bind StackPosition.parent :=
        (places.bind_parent hdistinct hfuel _).symm
      _ = (out' pr.id).bind StackPosition.parent := (hsame pr.id).parent
      _ = parent (openPrs (withLast tasks other)) pr.id := places'.bind_parent hdistinct' hfuel' _
      _ = parentOf (openPrs (withLast tasks other)) pr :=
        parent_eq_parentOf hdistinct' (hopen.mem_iff.mp hpr)
      _ = if other.id ≠ pr.id then some other.id else none :=
        parentOf_withLast hother hrepo hbase
  have hsame := (hparent a ha harepo hahead).symm.trans (hparent b hb hbrepo hbhead)
  split at hsame
  · split at hsame
    · exact Option.some.inj hsame
    · cases hsame
  · next ha =>
      split at hsame
      · cases hsame
      · next hb => rw [not_not.mp ha, not_not.mp hb]

/-- The order of the tasks does not matter exactly when no open pull request is based on a branch
that two of them have as their head. -/
theorem orderIndependent_iff (distinct : (tasks.map (·.id)).Nodup) :
  OrderIndependent tasks ↔ BasesUnambiguous tasks
  := by
  constructor
  · intro h
    apply h.unambiguous distinct
  · intro h
    apply h.orderIndependent distinct

theorem orderIndependent_iff_chain :
  OrderIndependent [openPr "o/r#1" "a" "main", openPr "o/r#2" "b" "a", openPr "o/r#3" "c" "b"]
  := by
  rw [orderIndependent_iff (by decide), BasesUnambiguous]
  decide

/-- Two pull requests from one branch, into different bases, and one that is stacked on the
branch. -/
theorem not_orderIndependent_shared_head :
  let tasks := [openPr "o/r#1" "fix" "main", openPr "o/r#2" "fix" "release",
    openPr "o/r#3" "next" "fix"]
  (tasks.map (·.id)).Nodup ∧ ¬ OrderIndependent tasks
  := by
  intro tasks
  have distinct : (tasks.map (·.id)).Nodup := by decide
  refine ⟨distinct, ?_⟩
  intro h
  have hambiguous : ¬ BasesUnambiguous tasks := by
    rw [BasesUnambiguous]
    decide
  apply hambiguous (h.unambiguous distinct)

end Lazybox.Stack
