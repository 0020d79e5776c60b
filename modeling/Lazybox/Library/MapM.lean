import Mathlib.Data.List.Forall2

/-!
# What may fail

A step after one that may fail, and a list that is mapped element by element, where the whole fails
when one element does.
-/

namespace MapM

variable {α β ε : Type} {l : List α} {bs : List β}

theorem of_bind_eq_ok {x : Except ε α} {f : α → Except ε β} {b : β} (h : (x >>= f) = .ok b) :
  ∃ a, x = .ok a ∧ f a = .ok b
  := by
  cases x with
  | error e => cases h
  | ok a => exact ⟨a, rfl, h⟩

variable {f : α → Option β}

theorem mapM_eq_some :
  l.mapM f = some bs ↔ List.Forall₂ (fun a b => f a = some b) l bs
  := by
  induction l generalizing bs with
  | nil =>
    rw [List.mapM_nil, List.forall₂_nil_left_iff]
    constructor
    · intro h
      exact (Option.some.inj h).symm
    · rintro rfl
      rfl
  | cons a l ih =>
    rw [List.mapM_cons, List.forall₂_cons_left_iff]
    constructor
    · intro h
      obtain ⟨b, hb, h⟩ := Option.bind_eq_some_iff.mp h
      obtain ⟨rest, hrest, h⟩ := Option.bind_eq_some_iff.mp h
      use b, rest, hb, ih.mp hrest, (Option.some.inj h).symm
    · rintro ⟨b, rest, hb, hrest, rfl⟩
      rw [hb, ih.mpr hrest]
      rfl

/-- Each element was mapped to one of the results, and each result comes from an element. -/
theorem mem_of_mapM (h : l.mapM f = some bs) :
  (∀ a ∈ l, ∃ b ∈ bs, f a = some b) ∧ ∀ b ∈ bs, ∃ a ∈ l, f a = some b
  := by
  rw [mapM_eq_some] at h
  induction h with
  | nil => simp
  | cons hab hrest ih =>
    simp only [List.forall_mem_cons, List.exists_mem_cons_iff]
    exact ⟨⟨.inl hab, fun a ha => .inr (ih.1 a ha)⟩, ⟨.inl hab, fun b hb => .inr (ih.2 b hb)⟩⟩

theorem isSome_mapM :
  (l.mapM f).isSome ↔ ∀ a ∈ l, (f a).isSome
  := by
  constructor
  · intro h a ha
    obtain ⟨bs, hbs⟩ := Option.isSome_iff_exists.mp h
    obtain ⟨b, -, hb⟩ := (mem_of_mapM hbs).1 a ha
    rw [hb]
    rfl
  · intro h
    have hmap : l.mapM f = some (l.filterMap f) := by
      rw [mapM_eq_some]
      induction l with
      | nil => apply List.Forall₂.nil
      | cons a l ih =>
        rw [List.forall_mem_cons] at h
        obtain ⟨b, hb⟩ := Option.isSome_iff_exists.mp h.1
        rw [List.filterMap_cons_some hb, List.forall₂_cons]
        exact ⟨hb, ih h.2⟩
    rw [hmap]
    rfl

/-- Mapping every element gives what each is mapped to. -/
theorem mapM_eq_ok {f : α → Except ε β} (reads : ∀ a ∈ l, ∃ b, f a = .ok b) :
  ∃ bs, l.mapM f = .ok bs ∧ l.map f = bs.map .ok
  := by
  induction l with
  | nil =>
    use []
    exact ⟨rfl, rfl⟩
  | cons a l ih =>
    rw [List.forall_mem_cons] at reads
    obtain ⟨b, hb⟩ := reads.1
    obtain ⟨bs, hbs, hmap⟩ := ih reads.2
    use b :: bs
    constructor
    · rw [List.mapM_cons, hb, hbs]
      rfl
    · rw [List.map_cons, List.map_cons, hb, hmap]

end MapM
