import Mathlib.Data.List.Infix
import Lazybox.Library.Keyed

/-!
# JSON values

A parsed JSON document is a tree.  A number is kept as it is printed.  A path leads from the root to
a value in the tree, by keys of objects and positions in arrays; a value can be read at a path and
replaced at a path.  What is replaced at one path is read at it and below it, and leaves alone
what is read at every path that is neither above it nor below.
-/

namespace Json

inductive Value where
  | null
  | bool (value : Bool)
  | number (printed : String)
  | string (text : String)
  | array (items : List Value)
  | object (fields : List (String × Value))

/-- A step down a tree. -/
inductive Step where
  | key (name : String)
  | index (i : ℕ)
deriving DecidableEq, Repr

abbrev Path := List Step

/-- Neither of two paths is above the other. -/
def Apart (p q : Path) : Prop := ¬ p <+: q ∧ ¬ q <+: p

namespace Apart

theorem symm {p q : Path} (h : Apart p q) :
  Apart q p
  := ⟨h.2, h.1⟩

theorem cons (step : Step) {p q : Path} (h : Apart p q) :
  Apart (step :: p) (step :: q)
  := by
  constructor
  · intro hpq
    exact h.1 (List.cons_prefix_cons.mp hpq).2
  · intro hqp
    exact h.2 (List.cons_prefix_cons.mp hqp).2

theorem of_ne {step step' : Step} (h : step ≠ step') (p q : Path) :
  Apart (step :: p) (step' :: q)
  := by
  constructor
  · intro hpq
    exact h (List.cons_prefix_cons.mp hpq).1
  · intro hqp
    exact h (List.cons_prefix_cons.mp hqp).1.symm

/-- What is below one of two such paths is not above or below the other. -/
theorem append {p q : Path} (h : Apart p q) (r : Path) :
  Apart p (q ++ r)
  := by
  constructor
  · intro hpq
    obtain h' | h' := List.prefix_or_prefix_of_prefix hpq (List.prefix_append q r)
    · exact h.1 h'
    · exact h.2 h'
  · intro hqp
    exact h.2 ((List.prefix_append q r).trans hqp)

end Apart

namespace Value

def asStr : Value → Option String
  | string text => some text
  | _ => none

def asArray : Value → Option (List Value)
  | array items => some items
  | _ => none

def asObject : Value → Option (List (String × Value))
  | object fields => some fields
  | _ => none

/-- The field of a name, if the value is an object that has one. -/
def get (name : String) : Value → Option Value
  | object fields => (Keyed.lookup Prod.fst name fields).map Prod.snd
  | _ => none

/-- The value at a path. -/
def at? : Path → Value → Option Value
  | [], v => some v
  | .key name :: path, v => (v.get name).bind (at? path)
  | .index i :: path, v => (v.asArray.bind (·[i]?)).bind (at? path)

/-- Replace the value at a path, if there is one. -/
def setAt (new : Value) : Path → Value → Value
  | [], _ => new
  | .key name :: path, object fields =>
      object (Keyed.modifyFirst Prod.fst name (fun field => (field.1, setAt new path field.2))
        fields)
  | .index i :: path, array items => array (items.modify i (setAt new path))
  | _ :: _, v => v

/-! ### One step -/

variable (new : Value)

theorem get_setAt_key (name other : String) (path : Path) (v : Value) :
  (setAt new (.key name :: path) v).get other
    = if other = name then (v.get name).map (setAt new path) else v.get other
  := by
  cases v with
  | object fields =>
    have hkeeps (field : String × Value) : (field.1, setAt new path field.2).1 = field.1 := rfl
    rw [setAt, get, Keyed.lookup_modifyFirst hkeeps]
    split
    · rw [get, Option.map_map, Option.map_map]
      rfl
    · rfl
  | _ => simp [setAt, get]

/-- Replacing adds no field and drops none. -/
theorem isSome_get_setAt_key (name other : String) (path : Path) (v : Value) :
  ((setAt new (.key name :: path) v).get other).isSome = (v.get other).isSome
  := by
  rw [get_setAt_key]
  split
  · next hname => rw [hname, Option.isSome_map]
  · rfl

theorem asArray_setAt_key (name : String) (path : Path) (v : Value) :
  (setAt new (.key name :: path) v).asArray = v.asArray
  := by
  cases v with
  | _ => rfl

theorem get_setAt_index (i : ℕ) (name : String) (path : Path) (v : Value) :
  (setAt new (.index i :: path) v).get name = v.get name
  := by
  cases v with
  | _ => rfl

theorem asArray_setAt_index (i : ℕ) (path : Path) (v : Value) :
  (setAt new (.index i :: path) v).asArray = v.asArray.map (·.modify i (setAt new path))
  := by
  cases v with
  | _ => rfl

/-! ### Paths -/

theorem at?_append (p q : Path) (v : Value) :
  v.at? (p ++ q) = (v.at? p).bind (at? q)
  := by
  induction p generalizing v with
  | nil => rfl
  | cons step p ih =>
    cases step with
    | key name =>
      rw [List.cons_append, at?, at?, Option.bind_assoc]
      congr 1
      funext w
      apply ih
    | index i =>
      rw [List.cons_append, at?, at?, Option.bind_assoc (v.asArray.bind _)]
      congr 1
      funext w
      apply ih

theorem at?_index (i : ℕ) (p : Path) (v : Value) :
  v.at? (.index i :: p) = (v.asArray.bind (·[i]?)).bind (at? p)
  := rfl

theorem at?_key (name : String) (p : Path) (v : Value) :
  v.at? (.key name :: p) = (v.get name).bind (at? p)
  := rfl

/-- What is read at a path and above it, once something at or below it is replaced. -/
theorem at?_setAt_append (p q : Path) (v : Value) :
  (setAt new (p ++ q) v).at? p = (v.at? p).map (setAt new q)
  := by
  induction p generalizing v with
  | nil => rfl
  | cons step p ih =>
    cases step with
    | key name =>
      rw [List.cons_append, at?_key, at?_key, get_setAt_key, if_pos rfl, Option.bind_map,
        Option.map_bind]
      congr 1
      funext w
      apply ih
    | index i =>
      rw [List.cons_append, at?_index, at?_index, asArray_setAt_index]
      cases v.asArray with
      | none => rfl
      | some items =>
        simp only [Option.map_some, Option.bind_some, List.getElem?_modify, if_true]
        cases items[i]? with
        | none => rfl
        | some item => apply ih

/-- Replacing in a part is replacing the part by what it becomes. -/
theorem setAt_append {v u : Value} {p : Path} (h : v.at? p = some u) (new : Value) (q : Path) :
  setAt new (p ++ q) v = setAt (setAt new q u) p v
  := by
  induction p generalizing v with
  | nil =>
    cases h
    rfl
  | cons step p ih =>
    cases step with
    | key name =>
      cases v with
      | object fields =>
        rw [at?_key, Option.bind_eq_some_iff] at h
        obtain ⟨w, hget, hbelow⟩ := h
        rw [get, Option.map_eq_some_iff] at hget
        obtain ⟨entry, hentry, rfl⟩ := hget
        rw [List.cons_append, setAt, setAt]
        congr 1
        apply Keyed.modifyFirst_congr
        intro found hfound
        rw [hentry] at hfound
        cases hfound
        rw [ih hbelow]
      | _ => cases h
    | index i =>
      cases v with
      | array items =>
        rw [at?_index, asArray, Option.bind_some, Option.bind_eq_some_iff] at h
        obtain ⟨w, hitem, hbelow⟩ := h
        rw [List.cons_append, setAt, setAt]
        congr 1
        apply List.ext_getElem?
        intro j
        rw [List.getElem?_modify, List.getElem?_modify]
        split
        · next hij =>
            subst hij
            rw [hitem]
            exact congrArg some (ih hbelow)
        · rfl
      | _ => cases h

/-- What is replaced is read at its path. -/
theorem at?_setAt (p : Path) (v : Value) :
  (setAt new p v).at? p = (v.at? p).map fun _ => new
  := by
  have happend := at?_setAt_append new p [] v
  rw [List.append_nil] at happend
  exact happend

/-- Replacing leaves alone what is read at a path that is neither above nor below. -/
theorem at?_setAt_of_apart {p q : Path} (h : Apart p q) (v : Value) :
  (setAt new p v).at? q = v.at? q
  := by
  obtain ⟨hpq, hqp⟩ := h
  induction p generalizing q v with
  | nil => exact absurd (List.nil_prefix) hpq
  | cons step p ih =>
    cases q with
    | nil => exact absurd (List.nil_prefix) hqp
    | cons step' q =>
      rw [List.cons_prefix_cons] at hpq hqp
      by_cases hstep : step = step'
      · subst hstep
        have hbelow (w : Value) := ih w (fun h => hpq ⟨rfl, h⟩) (fun h => hqp ⟨rfl, h⟩)
        cases step with
        | key name =>
          rw [at?_key, at?_key, get_setAt_key, if_pos rfl, Option.bind_map]
          congr 1
          funext w
          apply hbelow
        | index i =>
          rw [at?_index, at?_index, asArray_setAt_index]
          cases v.asArray with
          | none => rfl
          | some items =>
            simp only [Option.map_some, Option.bind_some, List.getElem?_modify, if_true]
            cases items[i]? with
            | none => rfl
            | some item => apply hbelow
      · cases step with
        | key name =>
          cases step' with
          | key name' =>
            have hne : name' ≠ name := fun h => hstep (h ▸ rfl)
            rw [at?_key, at?_key, get_setAt_key, if_neg hne]
          | index i' => rw [at?_index, at?_index, asArray_setAt_key]
        | index i =>
          cases step' with
          | key name' => rw [at?_key, at?_key, get_setAt_index]
          | index i' =>
            rw [at?_index, at?_index, asArray_setAt_index]
            cases v.asArray with
            | none => rfl
            | some items =>
              have hne : i ≠ i' := fun h => hstep (h ▸ rfl)
              simp [hne]

/-! ### Printing -/

def hexDigits (n : ℕ) : List Char := Nat.toDigits 16 n

/-- A character in a quoted text. -/
def printChar (c : Char) : List Char :=
  match c with
  | '"' => ['\\', '"']
  | '\\' => ['\\', '\\']
  | '\n' => ['\\', 'n']
  | '\r' => ['\\', 'r']
  | '\t' => ['\\', 't']
  | '\x08' => ['\\', 'b']
  | '\x0c' => ['\\', 'f']
  | c =>
      if c.toNat < 0x20 then
        ['\\', 'u', '0', '0'] ++ List.replicate (2 - (hexDigits c.toNat).length) '0'
          ++ hexDigits c.toNat
      else [c]

def printString (text : String) : List Char := '"' :: text.toList.flatMap printChar ++ ['"']

mutual

/-- The value as a text without blanks. -/
def print : Value → List Char
  | null => "null".toList
  | bool value => (if value then "true" else "false").toList
  | number printed => printed.toList
  | string text => printString text
  | array items => '[' :: [','].intercalate (printItems items) ++ [']']
  | object fields => '\x7b' :: [','].intercalate (printFields fields) ++ ['\x7d']

def printItems : List Value → List (List Char)
  | [] => []
  | item :: items => print item :: printItems items

def printFields : List (String × Value) → List (List Char)
  | [] => []
  | (name, value) :: fields =>
      (printString name ++ ':' :: print value) :: printFields fields

end

end Value

end Json
