import Mathlib.Data.List.Basic
import Mathlib.Order.Nat

/-!
# Logs of changes

A log lists the changes of a value, each with the position it takes effect at.  The value at a
position is that of the latest change at or before it.

`Follows` says what a log still tells of a history when it is bounded from two sides: the changes
before the oldest position that matters are dropped but for the last of them, and a change may be
forgotten in favour of the one before it.  From its second change on the log is exact, and before
that it tells a value the history had earlier.
-/

universe u

namespace ChangeLog

variable {α : Type u}

/-- The value of the latest change at or before a position. -/
def valueAt (init : α) (log : List (ℕ × α)) (p : ℕ) : α :=
  ((log.reverse.find? fun e => e.1 ≤ p).map Prod.snd).getD init

theorem valueAt_cons (init : α) (e : ℕ × α) (log : List (ℕ × α)) (p : ℕ) :
  valueAt init (e :: log) p = valueAt (if e.1 ≤ p then e.2 else init) log p
  := by
  rw [valueAt, valueAt, List.reverse_cons, List.find?_append]
  cases log.reverse.find? fun e => e.1 ≤ p with
  | some found => rfl
  | none =>
    rw [Option.none_or, List.find?_singleton]
    by_cases h : e.1 ≤ p
    · simp [h]
    · simp [h]

theorem valueAt_concat (init : α) (log : List (ℕ × α)) (e : ℕ × α) (p : ℕ) :
  valueAt init (log ++ [e]) p = if e.1 ≤ p then e.2 else valueAt init log p
  := by
  rw [valueAt, List.reverse_append, List.reverse_singleton, List.singleton_append,
    List.find?_cons]
  by_cases h : e.1 ≤ p
  · simp [h]
  · simp [h, valueAt]

variable {log : List (ℕ × α)}

theorem valueAt_of_lt {init : α} {p : ℕ} (h : ∀ e ∈ log, p < e.1) :
  valueAt init log p = init
  := by
  induction log with
  | nil => rfl
  | cons e log ih =>
    rw [List.forall_mem_cons] at h
    rw [valueAt_cons, if_neg (Nat.not_le.mpr h.1), ih h.2]

/-- The value at a position is that of a change at or before it, or no change is. -/
theorem valueAt_cases (init : α) (log : List (ℕ × α)) (p : ℕ) :
  (∃ e ∈ log, e.1 ≤ p ∧ valueAt init log p = e.2) ∨ ∀ e ∈ log, p < e.1
  := by
  rw [valueAt]
  cases h : log.reverse.find? fun e => e.1 ≤ p with
  | some e =>
    left
    have hle := List.find?_some h
    rw [decide_eq_true_eq] at hle
    exact ⟨e, List.mem_reverse.mp (List.mem_of_find?_eq_some h), hle, rfl⟩
  | none =>
    right
    intro e he
    have hnot := List.find?_eq_none.mp h e (List.mem_reverse.mpr he)
    simpa using hnot

/-- A change tells nothing once the next one is in effect. -/
theorem valueAt_evict
    {e' : ℕ × α} {p : ℕ} (h : e'.1 ≤ p) (init : α) (e : ℕ × α) (log : List (ℕ × α)) :
  valueAt init (e :: e' :: log) p = valueAt init (e' :: log) p
  := by
  rw [valueAt_cons, valueAt_cons, valueAt_cons, if_pos h, if_pos h]

theorem valueAt_forget
    {e₂ : ℕ × α} {p : ℕ} (h : e₂.1 ≤ p) (init : α) (e e₁ : ℕ × α) (log : List (ℕ × α)) :
  valueAt init (e :: e₁ :: e₂ :: log) p = valueAt init (e :: e₂ :: log) p
  := by
  rw [valueAt_cons init e, valueAt_cons init e, valueAt_evict h]

/-! ### Following a history -/

/-- A log of changes follows a history: from the oldest position that matters on, it tells what the
history was from its second change on, and earlier the value at its first change. -/
structure Follows (init : α) (history : ℕ → α) (oldest now : ℕ) (log : List (ℕ × α)) : Prop where
  increasing : log.Pairwise fun a b => a.1 < b.1
  reached : ∀ e ∈ log, e.1 ≤ now
  own : ∀ e ∈ log, e.2 = history e.1
  before : ∀ p, oldest ≤ p → (∀ e ∈ log, p < e.1) → history p = init
  exact : ∀ p, oldest ≤ p → (∀ e ∈ log.tail.head?, e.1 ≤ p) → valueAt init log p = history p

/-- The history after a change at a position. -/
def changed (history : ℕ → α) (now : ℕ) (value : α) (p : ℕ) : α :=
  if now ≤ p then value else history p

namespace Follows

variable {init : α} {history : ℕ → α} {oldest now : ℕ}

theorem nil (init : α) :
  Follows init (fun _ => init) 0 0 []
  where
  increasing := List.Pairwise.nil
  reached _ he := nomatch he
  own _ he := nomatch he
  before _ _ _ := rfl
  exact _ _ _ := rfl

variable {log : List (ℕ × α)}

/-- Positions go by, and the oldest of them stop to matter. -/
theorem later (h : Follows init history oldest now log) {oldest' now' : ℕ}
    (holdest : oldest ≤ oldest') (hnow : now ≤ now') :
  Follows init history oldest' now' log
  where
  increasing := h.increasing
  reached e he := (h.reached e he).trans hnow
  own := h.own
  before p hp := h.before p (holdest.trans hp)
  exact p hp := h.exact p (holdest.trans hp)

/-- The first change is dropped once the second is in effect at the oldest position. -/
theorem evict
    {e e' : ℕ × α} (h : Follows init history oldest now (e :: e' :: log)) (he : e'.1 ≤ oldest) :
  Follows init history oldest now (e' :: log)
  where
  increasing := (List.pairwise_cons.mp h.increasing).2
  reached := (List.forall_mem_cons.mp h.reached).2
  own := (List.forall_mem_cons.mp h.own).2
  before := by
    intro p hp hbefore
    have hlt := hbefore e' List.mem_cons_self
    omega
  exact := by
    intro p hp _
    have hle := he.trans hp
    rw [← valueAt_evict hle init e]
    apply h.exact p hp
    rintro _ ⟨⟩
    exact hle

/-- The second change is forgotten in favour of the first. -/
theorem forget {e e₁ e₂ : ℕ × α} (h : Follows init history oldest now (e :: e₁ :: e₂ :: log)) :
  Follows init history oldest now (e :: e₂ :: log)
  where
  increasing := h.increasing.sublist (List.Sublist.cons_cons e (List.sublist_cons_self _ _))
  reached x hx := h.reached x (List.cons_subset_cons e (List.subset_cons_self _ _) hx)
  own x hx := h.own x (List.cons_subset_cons e (List.subset_cons_self _ _) hx)
  before := by
    intro p hp hbefore
    apply h.before p hp
    have hfirst := (List.pairwise_cons.mp h.increasing).1
    intro x hx
    rw [List.forall_mem_cons] at hbefore
    obtain rfl | hx := List.mem_cons.mp hx
    · exact hbefore.1
    · exact hbefore.1.trans (hfirst x hx)
  exact := by
    intro p hp hsecond
    have hle : e₂.1 ≤ p := hsecond e₂ rfl
    rw [← valueAt_forget hle init e e₁]
    apply h.exact p hp
    rintro _ ⟨⟩
    have hlater := (List.pairwise_cons.mp (List.pairwise_cons.mp h.increasing).2).1
    exact (hlater e₂ List.mem_cons_self).le.trans hle

/-- A change is logged at a position that has no change yet. -/
theorem change (h : Follows init history oldest now log) (hlt : ∀ e ∈ log, e.1 < now) (value : α) :
  Follows init (changed history now value) oldest now (log ++ [(now, value)])
  where
  increasing := by
    rw [List.pairwise_append]
    refine ⟨h.increasing, List.pairwise_singleton _ _, ?_⟩
    intro a ha b hb
    rw [List.mem_singleton.mp hb]
    exact hlt a ha
  reached := by
    rw [List.forall_mem_append, List.forall_mem_singleton]
    exact ⟨h.reached, le_rfl⟩
  own := by
    rw [List.forall_mem_append, List.forall_mem_singleton]
    constructor
    · intro e he
      rw [changed, if_neg (Nat.not_le.mpr (hlt e he)), h.own e he]
    · exact (if_pos le_rfl).symm
  before := by
    intro p hp hbefore
    rw [List.forall_mem_append, List.forall_mem_singleton] at hbefore
    rw [changed, if_neg (Nat.not_le.mpr hbefore.2), h.before p hp hbefore.1]
  exact := by
    intro p hp hsecond
    rw [valueAt_concat, changed]
    split
    · rfl
    · next hnow =>
        apply h.exact p hp
        intro e he
        apply hsecond
        cases log with
        | nil => cases he
        | cons first rest =>
            cases rest with
            | nil => cases he
            | cons second rest => exact he

/-- A change is logged in the place of one at the same position. -/
theorem rechange
    {value' : α} (h : Follows init history oldest now (log ++ [(now, value')])) (value : α) :
  Follows init (changed history now value) oldest now (log ++ [(now, value)])
  where
  increasing := by
    have hincreasing := h.increasing
    rw [List.pairwise_append] at hincreasing ⊢
    exact ⟨hincreasing.1, List.pairwise_singleton _ _, by simpa using hincreasing.2.2⟩
  reached := by
    have hreached := h.reached
    rw [List.forall_mem_append, List.forall_mem_singleton] at hreached ⊢
    exact hreached
  own := by
    have hown := h.own
    have hlt := (List.pairwise_append.mp h.increasing).2.2
    rw [List.forall_mem_append, List.forall_mem_singleton] at hown ⊢
    constructor
    · intro e he
      rw [changed, if_neg (Nat.not_le.mpr (hlt e he _ (List.mem_singleton_self _))),
        hown.1 e he]
    · exact (if_pos le_rfl).symm
  before := by
    intro p hp hbefore
    rw [List.forall_mem_append, List.forall_mem_singleton] at hbefore
    rw [changed, if_neg (Nat.not_le.mpr hbefore.2), h.before p hp]
    rw [List.forall_mem_append, List.forall_mem_singleton]
    exact hbefore
  exact := by
    intro p hp hsecond
    rw [valueAt_concat, changed]
    split
    · rfl
    · next hnow =>
        have hexact := h.exact p hp
        rw [valueAt_concat, if_neg hnow] at hexact
        apply hexact
        intro e he
        cases log with
        | nil => cases he
        | cons first rest =>
            cases rest with
            | nil =>
                cases he
                exact hsecond (now, value) rfl
            | cons second rest => exact hsecond e he

/-- What is told of a position is what the history was there, or had been earlier. -/
theorem exists_valueAt (h : Follows init history oldest now log) {p : ℕ} (hp : oldest ≤ p) :
  ∃ q ≤ p, valueAt init log p = history q
  := by
  rcases valueAt_cases init log p with ⟨e, he, hle, hvalue⟩ | hbefore
  · exact ⟨e.1, hle, hvalue.trans (h.own e he)⟩
  · exact ⟨p, le_rfl, (valueAt_of_lt hbefore).trans (h.before p hp hbefore).symm⟩

end Follows

/-- The log tells all of the history from the oldest position on. -/
def Exact (init : α) (history : ℕ → α) (oldest : ℕ) (log : List (ℕ × α)) : Prop :=
  ∀ p, oldest ≤ p → valueAt init log p = history p

namespace Exact

variable {init : α} {history : ℕ → α} {oldest : ℕ} {log : List (ℕ × α)}

theorem change (h : Exact init history oldest log) (now : ℕ) (value : α) :
  Exact init (changed history now value) oldest (log ++ [(now, value)])
  := by
  intro p hp
  rw [valueAt_concat, changed, h p hp]

theorem rechange
    {now : ℕ} {value' : α} (h : Exact init history oldest (log ++ [(now, value')])) (value : α) :
  Exact init (changed history now value) oldest (log ++ [(now, value)])
  := by
  intro p hp
  have hexact := h p hp
  rw [valueAt_concat] at hexact ⊢
  rw [changed]
  split
  · rfl
  · next hnow =>
      rw [if_neg hnow] at hexact
      exact hexact

end Exact

/-! ### Parts of a log -/

/-- The changes after a position, with the value at it, tell the values after it. -/
theorem valueAt_filter
    (hlog : log.Pairwise fun a b => a.1 < b.1) {first p : ℕ} (hp : first ≤ p) (init : α) :
  valueAt (valueAt init log first) (log.filter fun e => first < e.1) p = valueAt init log p
  := by
  induction log generalizing init with
  | nil => rfl
  | cons e log ih =>
    rw [List.pairwise_cons] at hlog
    by_cases he : first < e.1
    · have hlater : ∀ x ∈ e :: log, first < x.1 := by
        rw [List.forall_mem_cons]
        exact ⟨he, fun x hx => he.trans (hlog.1 x hx)⟩
      rw [valueAt_of_lt hlater, List.filter_eq_self.mpr]
      simpa using hlater
    · have hle : e.1 ≤ first := Nat.not_lt.mp he
      rw [List.filter_cons_of_neg (by simpa using hle), valueAt_cons, valueAt_cons, if_pos hle,
        if_pos (hle.trans hp), ih hlog.2]

/-- The values of changes whose positions are counted from another start. -/
theorem valueAt_shift {first : ℕ} (h : ∀ e ∈ log, first < e.1) (start k : ℕ) (init : α) :
  valueAt init (log.map fun e => (start + (e.1 - first), e.2)) (start + k)
    = valueAt init log (first + k)
  := by
  induction log generalizing init with
  | nil => rfl
  | cons e log ih =>
    rw [List.forall_mem_cons] at h
    have hiff : start + (e.1 - first) ≤ start + k ↔ e.1 ≤ first + k := by omega
    rw [List.map_cons, valueAt_cons, valueAt_cons, ih h.2]
    simp only [hiff]

end ChangeLog
