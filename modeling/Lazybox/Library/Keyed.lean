import Mathlib.Data.List.Nodup

/-!
# Lists with keys

A list whose elements carry keys is used as a table: an element is looked up, changed in place
or removed by its key.  When the keys are distinct, each of these is a pointwise operation on
the list: what becomes of an element depends on that element only.
-/

universe u v w

namespace Keyed

variable {α : Type u} {κ : Type v} [DecidableEq κ] (key : α → κ)

/-- Change the first element of a key. -/
def modifyFirst (k : κ) (change : α → α) : List α → List α
  | [] => []
  | a :: rest => if key a = k then change a :: rest else a :: modifyFirst k change rest

/-- The first element of a key. -/
def lookup (k : κ) (l : List α) : Option α := l.find? fun a => key a = k

/-- Every element but those of a key. -/
def erase (k : κ) (l : List α) : List α := l.filter fun a => key a ≠ k

variable {key}

variable {l : List α}

theorem lookup_eq_some {k : κ} {a : α} (h : lookup key k l = some a) :
  a ∈ l ∧ key a = k
  := by
  constructor
  · apply List.mem_of_find?_eq_some h
  · simpa using List.find?_some h

theorem lookup_eq_none {k : κ} :
  lookup key k l = none ↔ ∀ a ∈ l, key a ≠ k
  := by
  simp [lookup]

/-- With distinct keys, what is found at a key is the element of the key. -/
theorem lookup_eq_some_iff (distinct : (l.map key).Nodup) {k : κ} {a : α} :
  lookup key k l = some a ↔ a ∈ l ∧ key a = k
  := by
  constructor
  · apply lookup_eq_some
  · rintro ⟨hmem, hkey⟩
    cases hfound : lookup key k l with
    | none => exact absurd hkey (lookup_eq_none.mp hfound a hmem)
    | some b =>
      obtain ⟨hb, hbk⟩ := lookup_eq_some hfound
      rw [List.inj_on_of_nodup_map distinct hb hmem (hbk.trans hkey.symm)]

theorem lookup_cons (k : κ) (a : α) (l : List α) :
  lookup key k (a :: l) = if key a = k then some a else lookup key k l
  := by
  rw [lookup, List.find?_cons]
  split <;> simp_all [lookup]

/-- What is found at a key once another is erased. -/
theorem lookup_erase (k erased : κ) (l : List α) :
  lookup key k (erase key erased l) = if k = erased then none else lookup key k l
  := by
  induction l with
  | nil => simp [lookup, erase]
  | cons a rest ih =>
    rw [erase] at ih ⊢
    by_cases ha : key a = erased
    · rw [List.filter_cons_of_neg (by simpa using ha), ih, lookup_cons]
      split
      · rfl
      · next hk => rw [if_neg fun h => hk (h.symm.trans ha)]
    · rw [List.filter_cons_of_pos (by simpa using ha), lookup_cons, lookup_cons, ih]
      split
      · next hk => rw [if_neg fun h => ha (hk.trans h)]
      · rfl

theorem lookup_append (k : κ) (l l' : List α) :
  lookup key k (l ++ l') = (lookup key k l).or (lookup key k l')
  := List.find?_append

section Modify

variable {change : α → α} (keeps : ∀ a, key (change a) = key a)
include keeps

theorem map_modifyFirst (k : κ) (l : List α) :
  (modifyFirst key k change l).map key = l.map key
  := by
  induction l with
  | nil => rfl
  | cons a rest ih =>
    rw [modifyFirst]
    split
    · rw [List.map_cons, List.map_cons, keeps]
    · rw [List.map_cons, List.map_cons, ih]

/-- What is found at a key once the element of another is changed. -/
theorem lookup_modifyFirst (k modified : κ) (l : List α) :
  lookup key k (modifyFirst key modified change l)
    = if k = modified then (lookup key modified l).map change else lookup key k l
  := by
  induction l with
  | nil => simp [modifyFirst, lookup]
  | cons a rest ih =>
    rw [modifyFirst]
    by_cases ha : key a = modified
    · rw [if_pos ha, lookup_cons, lookup_cons, lookup_cons, keeps, if_pos ha]
      by_cases hk : key a = k
      · rw [if_pos hk, if_pos (hk.symm.trans ha), Option.map_some]
      · rw [if_neg hk, if_neg hk, if_neg fun h => hk (ha.trans h.symm)]
    · rw [if_neg ha, lookup_cons, lookup_cons, lookup_cons, ih, if_neg ha]
      split
      · next hk => rw [if_neg fun h => ha (hk.trans h)]
      · rfl

end Modify

/-- Changes that agree on the first element of a key are the same change of it. -/
theorem modifyFirst_congr
    {k : κ} {change change' : α → α} (h : ∀ a, lookup key k l = some a → change a = change' a) :
  modifyFirst key k change l = modifyFirst key k change' l
  := by
  induction l with
  | nil => rfl
  | cons a rest ih =>
    rw [modifyFirst, modifyFirst]
    split
    · next ha =>
        rw [h a]
        rw [lookup_cons, if_pos ha]
    · next ha =>
        rw [ih]
        intro b hb
        apply h
        rw [lookup_cons, if_neg ha, hb]

/-- With distinct keys, changing the first element of a key is changing every one. -/
theorem modifyFirst_eq_map (distinct : (l.map key).Nodup) (k : κ) (change : α → α) :
  modifyFirst key k change l = l.map fun a => if key a = k then change a else a
  := by
  induction l with
  | nil => rfl
  | cons a rest ih =>
    rw [List.map_cons, List.nodup_cons] at distinct
    rw [modifyFirst, List.map_cons]
    split
    · next ha =>
        congr 1
        have hrest : ∀ b ∈ rest, (if key b = k then change b else b) = b := by
          intro b hb
          rw [if_neg]
          rintro rfl
          apply distinct.1
          rw [ha]
          apply List.mem_map_of_mem hb
        rw [List.map_congr_left hrest, List.map_id']
    · rw [ih distinct.2]

/-- Erasing some keys one after another keeps the elements of the other keys. -/
theorem foldl_erase (ks : List κ) (l : List α) :
  ks.foldl (fun l k => erase key k l) l = l.filter fun a => key a ∉ ks
  := by
  induction ks generalizing l with
  | nil => simp
  | cons k ks ih =>
    rw [List.foldl_cons, ih, erase, List.filter_filter]
    apply List.filter_congr
    intro a _
    simp [Bool.and_comm]

omit [DecidableEq κ] in
/-- With distinct keys, an element has the key of an element chosen by `p` when `p` chooses
it. -/
theorem mem_map_filter (distinct : (l.map key).Nodup) (p : α → Bool) {a : α} (h : a ∈ l) :
  key a ∈ (l.filter p).map key ↔ p a = true
  := by
  constructor
  · intro ha
    obtain ⟨b, hb, hkey⟩ := List.mem_map.mp ha
    obtain ⟨hmem, hp⟩ := List.mem_filter.mp hb
    rw [← List.inj_on_of_nodup_map distinct hmem h hkey]
    apply hp
  · intro hp
    apply List.mem_map_of_mem
    apply List.mem_filter.mpr ⟨h, hp⟩

/-- With distinct keys, erasing the keys of the elements chosen by `p` is dropping those
elements. -/
theorem foldl_erase_filter (distinct : (l.map key).Nodup) (p : α → Bool) :
  ((l.filter p).map key).foldl (fun l k => erase key k l) l = l.filter fun a => !p a
  := by
  rw [foldl_erase]
  apply List.filter_congr
  intro a ha
  simp only [mem_map_filter distinct p ha]
  simp

omit [DecidableEq κ] in
/-- A pointwise operation which keeps the keys makes a list whose keys are among the keys of
the list, in order. -/
theorem sublist_map_filterMap
    {β : Type w} {key' : β → κ} {g : α → Option β} (keeps : ∀ a ∈ l, ∀ b ∈ g a, key' b = key a) :
  ((l.filterMap g).map key').Sublist (l.map key)
  := by
  induction l with
  | nil => simp
  | cons a rest ih =>
    rw [List.forall_mem_cons] at keeps
    cases hg : g a with
    | none =>
      rw [List.filterMap_cons_none hg, List.map_cons]
      apply List.Sublist.cons _ (ih keeps.2)
    | some a' =>
      rw [List.filterMap_cons_some hg, List.map_cons, List.map_cons, keeps.1 a' hg]
      apply List.Sublist.cons_cons _ (ih keeps.2)

section At

variable {l : List α} (distinct : (l.map key).Nodup) {k : κ} {a : α}
  (found : lookup key k l = some a)
include distinct found

theorem eq_of_key_eq {b : α} (hb : b ∈ l) (hk : key b = k) :
  b = a
  := by
  obtain ⟨hmem, hkey⟩ := lookup_eq_some found
  apply List.inj_on_of_nodup_map distinct hb hmem
  rw [hk, hkey]

/-- A pointwise operation which drops the element of a key, and keeps the others, erases it. -/
theorem filterMap_eq_erase
    {g : α → Option α} (drops : g a = none) (other : ∀ b ∈ l, key b ≠ k → g b = some b) :
  l.filterMap g = erase key k l
  := by
  rw [erase, ← List.filterMap_eq_filter]
  apply List.filterMap_congr
  intro b hb
  by_cases hbk : key b = k
  · rw [eq_of_key_eq distinct found hb hbk, drops, Option.guard]
    simp [(lookup_eq_some found).2]
  · rw [other b hb hbk, Option.guard]
    simp [hbk]

/-- A pointwise operation which changes the element of a key, and keeps the others, changes the
first element of the key. -/
theorem filterMap_eq_modifyFirst {g : α → Option α} (change : α → α)
    (changes : g a = some (change a)) (other : ∀ b ∈ l, key b ≠ k → g b = some b) :
  l.filterMap g = modifyFirst key k change l
  := by
  rw [modifyFirst_eq_map distinct, ← List.filterMap_eq_map]
  apply List.filterMap_congr
  intro b hb
  by_cases hbk : key b = k
  · rw [eq_of_key_eq distinct found hb hbk, changes]
    simp [(lookup_eq_some found).2]
  · rw [other b hb hbk]
    simp [hbk]

/-- What is collected at one key only is what is collected at its element. -/
theorem flatMap_eq_of_key {ο : Type w} (g : α → List ο) (other : ∀ b ∈ l, key b ≠ k → g b = []) :
  l.flatMap g = g a
  := by
  induction l with
  | nil => cases found
  | cons b rest ih =>
    rw [List.map_cons, List.nodup_cons] at distinct
    rw [List.forall_mem_cons] at other
    rw [List.flatMap_cons]
    by_cases hbk : key b = k
    · have hrest : ∀ c ∈ rest, g c = [] := by
        intro c hc
        apply other.2 c hc
        rintro rfl
        apply distinct.1
        rw [hbk]
        apply List.mem_map_of_mem hc
      have hb : b = a := by simpa [lookup, hbk] using found
      rw [List.flatMap_eq_nil_iff.mpr hrest, List.append_nil, hb]
    · rw [other.1 hbk, List.nil_append]
      apply ih distinct.2 _ other.2
      simpa [lookup, hbk] using found

end At

section Set

omit [DecidableEq κ]

variable {l : List α} {i : ℕ} {a b : α}

theorem split_of_getElem? (h : l[i]? = some a) :
  l = l.take i ++ a :: l.drop (i + 1)
  := by
  obtain ⟨hi, rfl⟩ := List.getElem?_eq_some_iff.mp h
  rw [← List.drop_eq_getElem_cons, List.take_append_drop]

theorem set_of_getElem? (h : l[i]? = some a) :
  l.set i b = l.take i ++ b :: l.drop (i + 1)
  := by
  obtain ⟨hi, -⟩ := List.getElem?_eq_some_iff.mp h
  rw [List.set_eq_take_append_cons_drop, if_pos hi]

/-- With distinct keys, no other element has the key of the one at an index. -/
theorem key_ne_of_mem_eraseIdx (distinct : (l.map key).Nodup) (h : l[i]? = some a) {x : α}
    (hx : x ∈ l.eraseIdx i) :
  key x ≠ key a
  := by
  intro hxa
  rw [split_of_getElem? h, List.map_append, List.map_cons, List.nodup_middle,
    List.nodup_cons] at distinct
  apply distinct.1
  rw [← List.map_append, ← hxa]
  apply List.mem_map_of_mem
  rw [← List.eraseIdx_eq_take_drop_succ]
  apply hx

/-- With distinct keys, an element put in place of another leaves the elements of other keys. -/
theorem mem_set_iff (distinct : (l.map key).Nodup) (h : l[i]? = some a) {x : α} :
  x ∈ l.set i b ↔ x = b ∨ x ∈ l ∧ key x ≠ key a
  := by
  have hrest : ∀ y ∈ l.take i ++ l.drop (i + 1), key y ≠ key a := by
    intro y hy
    rw [← List.eraseIdx_eq_take_drop_succ] at hy
    apply key_ne_of_mem_eraseIdx distinct h hy
  have hsplit := split_of_getElem? h
  rw [set_of_getElem? h]
  have hmem : x ∈ l ↔ x = a ∨ x ∈ l.take i ++ l.drop (i + 1) := by
    nth_rewrite 1 [hsplit]
    rw [List.mem_append, List.mem_cons, List.mem_append]
    tauto
  rw [List.mem_append, List.mem_cons, or_left_comm, ← List.mem_append, hmem]
  constructor
  · rintro (rfl | hx)
    · left
      rfl
    · right
      exact ⟨Or.inr hx, hrest x hx⟩
  · rintro (rfl | ⟨rfl | hx, hne⟩)
    · left
      rfl
    · contradiction
    · right
      apply hx

/-- An element put in place of another leaves the keys distinct when its key is fresh or that of
the other. -/
theorem nodup_map_set (distinct : (l.map key).Nodup) (h : l[i]? = some a)
    (fresh : ∀ x ∈ l, key x = key b → key x = key a) :
  ((l.set i b).map key).Nodup
  := by
  have hsplit := split_of_getElem? h
  rw [set_of_getElem? h]
  rw [hsplit, List.map_append, List.map_cons, List.nodup_middle, List.nodup_cons] at distinct
  rw [List.map_append, List.map_cons, List.nodup_middle, List.nodup_cons]
  constructor
  · intro hb
    rw [← List.map_append] at hb
    obtain ⟨x, hx, hxb⟩ := List.mem_map.mp hb
    have hxl : x ∈ l := by
      rw [hsplit]
      apply List.mem_append.mpr
      rcases List.mem_append.mp hx with hx | hx
      · left
        apply hx
      · right
        apply List.mem_cons_of_mem _ hx
    apply distinct.1
    rw [← fresh x hxl hxb, ← List.map_append]
    apply List.mem_map_of_mem hx
  · apply distinct.2

end Set

/-! ### Entries of a table -/

section Entries

variable {ν : Type w} {entries entries' : List (κ × ν)} {k : κ} {v : ν}

/-- What was entered last for a key. -/
def last (entries : List (κ × ν)) (k : κ) : Option ν :=
  (lookup Prod.fst k entries.reverse).map Prod.snd

theorem mem_of_last (h : last entries k = some v) :
  (k, v) ∈ entries
  := by
  obtain ⟨⟨k', v'⟩, hfound, rfl⟩ := Option.map_eq_some_iff.mp h
  obtain ⟨hmem, rfl⟩ := lookup_eq_some hfound
  apply List.mem_reverse.mp hmem

theorem last_eq_none :
  last entries k = none ↔ ∀ v, (k, v) ∉ entries
  := by
  rw [last, Option.map_eq_none_iff, lookup_eq_none]
  constructor
  · intro h v hmem
    apply h (k, v) (List.mem_reverse.mpr hmem) rfl
  · rintro h ⟨k', v⟩ hmem rfl
    apply h v (List.mem_reverse.mp hmem)

theorem last_concat (k' : κ) :
  last (entries ++ [(k', v)]) k = if k' = k then some v else last entries k
  := by
  rw [last, List.reverse_append, List.reverse_singleton, List.singleton_append, lookup_cons]
  split <;> simp [last]

theorem last_append (entries entries' : List (κ × ν)) (k : κ) :
  last (entries ++ entries') k = (last entries' k).or (last entries k)
  := by
  rw [last, List.reverse_append, lookup_append, last, last]
  cases lookup Prod.fst k entries'.reverse <;> rfl

section Blocks

variable {f : α → List (κ × ν)} {l l' : List α}

/-- What is found in blocks of entries is the last entry of one of them. -/
theorem exists_of_last_flatMap (h : last (l.flatMap f) k = some v) :
  ∃ a ∈ l, last (f a) k = some v
  := by
  induction l with
  | nil => cases h
  | cons a l ih =>
    rw [List.flatMap_cons, last_append, Option.or_eq_some_iff] at h
    obtain h | ⟨-, h⟩ := h
    · obtain ⟨b, hb, hlast⟩ := ih h
      use b, List.mem_cons_of_mem a hb
    · use a, List.mem_cons_self

theorem isSome_last_flatMap :
  (last (l.flatMap f) k).isSome ↔ ∃ a ∈ l, (last (f a) k).isSome
  := by
  induction l with
  | nil => simp [last, lookup]
  | cons a l ih =>
    rw [List.flatMap_cons, last_append, Option.isSome_or, Bool.or_eq_true, ih]
    simp [or_comm]

/-- Where the blocks agree, what is found does not depend on their order. -/
theorem last_flatMap_of_perm (hperm : l.Perm l')
    (agree : ∀ a ∈ l, ∀ b ∈ l, ∀ v w, last (f a) k = some v → last (f b) k = some w → v = w) :
  last (l.flatMap f) k = last (l'.flatMap f) k
  := by
  cases h : last (l.flatMap f) k with
  | none =>
    symm
    rw [← Option.not_isSome_iff_eq_none, isSome_last_flatMap]
    rw [← Option.not_isSome_iff_eq_none, isSome_last_flatMap] at h
    simpa only [← hperm.mem_iff] using h
  | some v =>
    obtain ⟨a, ha, hv⟩ := exists_of_last_flatMap h
    have hsome : (last (l'.flatMap f) k).isSome := by
      rw [isSome_last_flatMap]
      use a, hperm.mem_iff.mp ha
      rw [hv]
      rfl
    obtain ⟨w, hw⟩ := Option.isSome_iff_exists.mp hsome
    obtain ⟨b, hb, hb'⟩ := exists_of_last_flatMap hw
    rw [hw, agree a ha b (hperm.mem_iff.mpr hb) v w hv hb']

end Blocks

/-- A key is not entered with two values. -/
def Single (entries : List (κ × ν)) (k : κ) : Prop :=
  ∀ v v', (k, v) ∈ entries → (k, v') ∈ entries → v = v'

omit [DecidableEq κ] in
theorem Single.of_nodup (h : (entries.map Prod.fst).Nodup) (k : κ) :
  Single entries k
  := by
  intro v v' hv hv'
  have hsame := List.inj_on_of_nodup_map h hv hv' rfl
  apply congrArg Prod.snd hsame

theorem Single.last_eq_some_iff (h : Single entries k) :
  last entries k = some v ↔ (k, v) ∈ entries
  := by
  constructor
  · apply mem_of_last
  · intro hmem
    cases hlast : last entries k with
    | none => exact absurd hmem (last_eq_none.mp hlast v)
    | some v' => rw [h v' v (mem_of_last hlast) hmem]

/-- What a key was entered with once does not depend on the order of the entries. -/
theorem Single.last_eq_of_perm (h : Single entries k) (hperm : entries.Perm entries') :
  last entries k = last entries' k
  := by
  have h' : Single entries' k := by
    intro v v' hv hv'
    apply h v v' (hperm.mem_iff.mpr hv) (hperm.mem_iff.mpr hv')
  ext v
  rw [h.last_eq_some_iff, h'.last_eq_some_iff, hperm.mem_iff]

section Listed

variable {l l' : List α} (distinct : (l.map key).Nodup)
include distinct

omit [DecidableEq κ] in
/-- Elements with distinct keys are entered once, each for its own key. -/
theorem single_map (k : κ) :
  Single (l.map fun a => (key a, a)) k
  := by
  apply Single.of_nodup
  rw [List.map_map]
  exact distinct

theorem last_map_eq_some_iff {a : α} :
  last (l.map fun a => (key a, a)) k = some a ↔ a ∈ l ∧ key a = k
  := by
  rw [(single_map distinct k).last_eq_some_iff]
  simp only [List.mem_map, Prod.mk.injEq]
  constructor
  · rintro ⟨b, hb, rfl, rfl⟩
    exact ⟨hb, rfl⟩
  · rintro ⟨ha, rfl⟩
    exact ⟨a, ha, rfl, rfl⟩

theorem last_map_eq_of_perm (h : l.Perm l') (k : κ) :
  last (l.map fun a => (key a, a)) k = last (l'.map fun a => (key a, a)) k
  := (single_map distinct k).last_eq_of_perm (h.map _)

end Listed

end Entries

end Keyed

/-- Dropping some elements, as a pointwise operation. -/
theorem List.filterMap_ite_none {α : Type u} (p : α → Bool) (l : List α) :
  (l.filterMap fun a => if p a then none else some a) = l.filter fun a => !p a
  := by
  induction l with
  | nil => rfl
  | cons a rest ih =>
    cases hp : p a <;> simp [hp, ih]
