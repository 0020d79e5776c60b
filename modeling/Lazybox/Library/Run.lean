import Mathlib.Algebra.GroupWithZero.Nat
import Mathlib.Data.List.Induction

/-!
# Runs of a machine

A machine takes an action in a state to the next state and a list of observations.
For a list of actions, `final` is the state the actions lead to and `trace` is what is
observed along the way.  `Along P` says that every step of a run meets `P`, a condition
on the state before the step and its action.

The rules are the ways a property of whole runs is derived from a property of one step: an
invariant of the state and of the trace so far, and a simulation between two machines driven
by the same actions.  `AtEach P` says that `P` holds at every point of a trace, given what was
observed before it.
-/

universe u v w x

/-- A machine with states `σ`, actions `α` and observations `ο`. -/
structure Machine (σ : Type u) (α : Type v) (ο : Type w) where
  /-- The next state and the observations of one step. -/
  step : σ → α → σ × List ο

namespace Machine

variable {σ : Type u} {α : Type v} {ο : Type w} (M : Machine σ α ο)

/-- The state after one step. -/
def next (s : σ) (a : α) : σ := (M.step s a).1

/-- The observations of one step. -/
def emit (s : σ) (a : α) : List ο := (M.step s a).2

/-- The state a list of actions leads to. -/
def final (s : σ) : List α → σ
  | [] => s
  | a :: as => final (M.next s a) as

/-- The observations along a list of actions. -/
def trace (s : σ) : List α → List ο
  | [] => []
  | a :: as => M.emit s a ++ trace (M.next s a) as

/-- Every step of the run meets `P`. -/
def Along (P : σ → α → Prop) (s : σ) : List α → Prop
  | [] => True
  | a :: as => P s a ∧ Along P (M.next s a) as

instance decidableAlong (P : σ → α → Prop) [∀ s a, Decidable (P s a)] :
    ∀ (s : σ) (as : List α), Decidable (M.Along P s as)
  | _, [] => isTrue trivial
  | s, a :: as =>
      have := decidableAlong P (M.next s a) as
      inferInstanceAs (Decidable (P s a ∧ M.Along P (M.next s a) as))

theorem final_append (s : σ) (as bs : List α) :
  M.final s (as ++ bs) = M.final (M.final s as) bs
  := by
  induction as generalizing s with
  | nil => rfl
  | cons a as ih => apply ih

theorem trace_append (s : σ) (as bs : List α) :
  M.trace s (as ++ bs) = M.trace s as ++ M.trace (M.final s as) bs
  := by
  induction as generalizing s with
  | nil => rfl
  | cons a as ih => rw [List.cons_append, trace, ih, trace, final, List.append_assoc]

theorem along_append (P : σ → α → Prop) (s : σ) (as bs : List α) :
  M.Along P s (as ++ bs) ↔ M.Along P s as ∧ M.Along P (M.final s as) bs
  := by
  induction as generalizing s with
  | nil => simp [Along, final]
  | cons a as ih => rw [List.cons_append, Along, ih, Along, final, and_assoc]

variable {P : σ → α → Prop}

/-- A condition every action meets is met along every run. -/
theorem along_of_forall (h : ∀ s a, P s a) (s : σ) (as : List α) :
  M.Along P s as
  := by
  induction as generalizing s with
  | nil => trivial
  | cons a as ih => exact ⟨h s a, ih _⟩

variable {as : List α} {s : σ}

/-- A property of the state and of the trace so far which holds at the start and which
every step meeting `P` preserves holds at the end of every run whose steps meet `P`. -/
theorem invariant {I : σ → List ο → Prop} (start : I s [])
    (preserved : ∀ s os a, P s a → I s os → I (M.next s a) (os ++ M.emit s a))
    (along : M.Along P s as) :
  I (M.final s as) (M.trace s as)
  := by
  induction as using List.reverseRecOn with
  | nil => apply start
  | append_singleton as a ih =>
    obtain ⟨hs, ha, -⟩ := (M.along_append P s as [a]).mp along
    rw [final_append, trace_append]
    simp only [final, trace, List.append_nil]
    apply preserved _ _ _ ha (ih hs)

/-- The steps of a run meet `P`, or there is a first one that does not. -/
theorem along_or_exists_first (P : σ → α → Prop) (s : σ) (as : List α) :
  M.Along P s as
    ∨ ∃ before a after, as = before ++ a :: after ∧ M.Along P s before
      ∧ ¬P (M.final s before) a
  := by
  induction as generalizing s with
  | nil =>
    left
    trivial
  | cons a as ih =>
    by_cases ha : P s a
    · obtain along | ⟨before, b, after, rfl, along, hb⟩ := ih (M.next s a)
      · left
        exact ⟨ha, along⟩
      · right
        use a :: before, b, after
        exact ⟨rfl, ⟨ha, along⟩, hb⟩
    · right
      use [], a, as
      exact ⟨rfl, trivial, ha⟩

variable {I : σ → Prop} {Q : σ → α → Prop}

/-- When an invariant of the states makes every step meeting `P` meet `Q`, every run whose
steps meet `P` is a run whose steps meet `Q`. -/
theorem along_of_invariant (start : I s) (preserved : ∀ s a, P s a → I s → I (M.next s a))
    (implies : ∀ s a, P s a → I s → Q s a) (along : M.Along P s as) :
  M.Along Q s as
  := by
  induction as generalizing s with
  | nil => trivial
  | cons a as ih =>
    obtain ⟨ha, has⟩ := along
    constructor
    · apply implies s a ha start
    · apply ih (preserved s a ha start) has

/-- When what was observed so far holds of a step's observations only if the step meets `P`,
every run of which it holds is a run whose steps meet `P`.  `I` is an invariant of the steps
meeting `P`, and `Q` holds of what was observed at any time if it holds at the end. -/
theorem along_of_trace {I : σ → List ο → Prop} {Q : List ο → Prop} (start : I s [])
    (preserved : ∀ s os a, P s a → I s os → I (M.next s a) (os ++ M.emit s a))
    (earlier : ∀ os new, Q (os ++ new) → Q os)
    (needed : ∀ s os a, I s os → Q (os ++ M.emit s a) → P s a) (h : Q (M.trace s as)) :
  M.Along P s as
  := by
  induction as using List.reverseRecOn with
  | nil => trivial
  | append_singleton as a ih =>
    rw [trace_append] at h
    have before := ih (earlier _ _ h)
    rw [along_append]
    constructor
    · apply before
    · constructor
      · apply needed _ _ _ (M.invariant start preserved before)
        simpa [trace] using h
      · trivial

/-- Two conditions which an invariant of the steps meeting `P` makes equivalent are met along
the same runs whose steps meet `P`. -/
theorem along_congr
    {Q' : σ → α → Prop} (start : I s) (preserved : ∀ s a, P s a → I s → I (M.next s a))
    (equiv : ∀ s a, P s a → I s → (Q s a ↔ Q' s a)) (along : M.Along P s as) :
  M.Along Q s as ↔ M.Along Q' s as
  := by
  induction as generalizing s with
  | nil => rfl
  | cons a as ih =>
    obtain ⟨ha, has⟩ := along
    rw [Along, Along, equiv s a ha start, ih (preserved s a ha start) has]

/-- Two conditions which an invariant of the steps meeting one of them makes equivalent are met
along the same runs. -/
theorem along_iff_along (start : I s) (preserved : ∀ s a, P s a → I s → I (M.next s a))
    (equiv : ∀ s a, I s → (Q s a ↔ P s a)) :
  M.Along Q s as ↔ M.Along P s as
  := by
  induction as generalizing s with
  | nil => rfl
  | cons a as ih =>
    rw [Along, Along, equiv s a start]
    apply and_congr_right
    intro ha
    apply ih (preserved s a ha start)

/-- Conditions which are equivalent for the actions of a run are met along the same way. -/
theorem along_congr_mem (equiv : ∀ s, ∀ a ∈ as, P s a ↔ Q s a) (s : σ) :
  M.Along P s as ↔ M.Along Q s as
  := by
  induction as generalizing s with
  | nil => rfl
  | cons a as ih =>
    rw [Along, Along, equiv s a List.mem_cons_self, ih]
    intro s b hb
    apply equiv s b (List.mem_cons_of_mem _ hb)

/-- A reflexive and transitive relation which every step keeps relates each state of a run to
every later one, and only then. -/
theorem along_iff_forall_later {R : σ → σ → Prop} (refl : ∀ s, R s s)
    (trans : ∀ s t u, R s t → R t u → R s u) (s : σ) (as : List α) :
  (∀ before between after, as = before ++ between ++ after →
      R (M.final s before) (M.final s (before ++ between)))
    ↔ M.Along (fun s a => R s (M.next s a)) s as
  := by
  constructor
  · intro h
    induction as generalizing s with
    | nil => trivial
    | cons a as ih =>
      constructor
      · apply h [] [a] as
        rfl
      · apply ih
        rintro before between after rfl
        apply h (a :: before) between after
        rfl
  · rintro along before between after rfl
    rw [along_append, along_append] at along
    obtain ⟨⟨-, hbetween⟩, -⟩ := along
    rw [final_append]
    generalize M.final s before = t at hbetween
    induction between generalizing t with
    | nil => apply refl
    | cons a between ih => apply trans _ _ _ hbetween.1 (ih _ hbetween.2)

/-- A property of the states which every step preserves holds at the end of a run. -/
theorem final_preserved (preserved : ∀ s a, I s → I (M.next s a)) (start : I s) (as : List α) :
  I (M.final s as)
  := by
  induction as generalizing s with
  | nil => apply start
  | cons a as ih => apply ih (preserved s a start)

/-- A property of the states which a step preserves exactly when it meets `P` holds in every
state of a run exactly when its steps meet `P`.  What the steps are known to meet, and an
invariant `J`, may be used for it. -/
theorem forall_reached_iff {F : σ → α → Prop} {J : σ → Prop} (start : I s) (startJ : J s)
    (preserved : ∀ s a, F s a → J s → J (M.next s a))
    (step : ∀ s a, F s a → J s → I s → (I (M.next s a) ↔ P s a)) (along : M.Along F s as) :
  (∀ before after, as = before ++ after → I (M.final s before)) ↔ M.Along P s as
  := by
  induction as generalizing s with
  | nil =>
    constructor
    · intro _
      trivial
    · intro _ before after h
      rw [(List.append_eq_nil_iff.mp h.symm).1]
      apply start
  | cons a as ih =>
    obtain ⟨ha, hF⟩ := along
    have hJ := preserved s a ha startJ
    rw [Along, ← step s a ha startJ start]
    constructor
    · intro h
      have hnext : I (M.next s a) := h [a] as rfl
      constructor
      · apply hnext
      · rw [← ih hnext hJ hF]
        rintro before after rfl
        apply h (a :: before) after rfl
    · rintro ⟨hnext, h⟩ before after has
      cases before with
      | nil => apply start
      | cons b before =>
        rw [List.cons_append, List.cons.injEq] at has
        obtain ⟨rfl, rfl⟩ := has
        apply (ih hnext hJ hF).mpr h before after rfl

/-- What is counted along a run is nothing when nothing is counted at any step. -/
theorem sum_trace_eq_zero_iff (μ : ο → ℕ) (s : σ) (as : List α) :
  ((M.trace s as).map μ).sum = 0 ↔ M.Along (fun s a => ((M.emit s a).map μ).sum = 0) s as
  := by
  induction as generalizing s with
  | nil => simp [trace, Along]
  | cons a as ih =>
    rw [trace, Along, List.map_append, List.sum_append, Nat.add_eq_zero_iff, ih]

/-- A relation between the states of two machines which every step of both, driven by the
same action, preserves relates the states both end in. -/
theorem simulation {τ : Type x} {π : Type*} {N : Machine τ α π} {R : σ → τ → Prop} {t : τ}
    (start : R s t) (preserved : ∀ s t a, R s t → R (M.next s a) (N.next t a)) (as : List α) :
  R (M.final s as) (N.final t as)
  := by
  induction as generalizing s t with
  | nil => apply start
  | cons a as ih => apply ih (preserved s t a start)

/-- A relation between the states of two machines which every step meeting `P` preserves relates
the states they end in, along a run whose steps meet `P`. -/
theorem simulation_along
    {τ : Type x} {π : Type*} {N : Machine τ α π} {R : σ → τ → Prop} {t : τ} (start : R s t)
    (preserved : ∀ s t a, P s a → R s t → R (M.next s a) (N.next t a)) (along : M.Along P s as) :
  R (M.final s as) (N.final t as)
  := by
  induction as generalizing s t with
  | nil => apply start
  | cons a as ih => apply ih (preserved s t a along.1 start) along.2

end Machine

/-! ### Properties of the points of a trace -/

/-- `P` holds at every point of a trace: of what was observed before it, and of what is
observed at it. -/
def AtEach {ο : Type w} (P : List ο → ο → Prop) (os : List ο) : Prop :=
  ∀ (before : List ο) (o : ο) (rest : List ο), os = before ++ o :: rest → P before o

theorem atEach_nil {ο : Type w} (P : List ο → ο → Prop) :
  AtEach P []
  := by
  intro before o rest h
  simp at h

/-- The points of a trace with one more observation are its points, and the last one. -/
theorem atEach_concat {ο : Type w} {P : List ο → ο → Prop} {os : List ο} {o : ο} :
  AtEach P (os ++ [o]) ↔ AtEach P os ∧ P os o
  := by
  constructor
  · intro h
    constructor
    · intro before o' rest hos
      apply h before o' (rest ++ [o])
      rw [hos, List.append_assoc, List.cons_append]
    · apply h os o []
      rfl
  · rintro ⟨h, ho⟩ before o' rest hos
    induction rest using List.reverseRecOn with
    | nil =>
      obtain ⟨rfl, hlast⟩ := List.append_inj' hos rfl
      cases hlast
      apply ho
    | append_singleton rest r _ =>
      rw [← List.cons_append, ← List.append_assoc] at hos
      obtain ⟨rfl, -⟩ := List.append_inj' hos rfl
      apply h before o' rest rfl

/-- Points at which `P` holds whatever was observed before them may be added to a trace. -/
theorem atEach_append {ο : Type w} {P : List ο → ο → Prop} {os new : List ο} (h : AtEach P os)
    (hnew : ∀ o ∈ new, ∀ before, P before o) :
  AtEach P (os ++ new)
  := by
  induction new using List.reverseRecOn with
  | nil => rwa [List.append_nil]
  | append_singleton new o ih =>
    rw [← List.append_assoc, atEach_concat]
    constructor
    · apply ih
      intro o' ho'
      apply hnew o'
      simp [ho']
    · apply hnew
      simp
