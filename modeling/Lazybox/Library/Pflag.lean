import Mathlib.Data.List.Infix
import Mathlib.Data.List.TakeWhile

/-!
# Flags among arguments

How the arguments of a command are read as flags and operands: a long flag begins with two dashes,
short ones follow one another behind a single dash.  The value of a flag is behind an equality sign,
is the rest of the argument, or is the next one; a flag that needs none has none but behind an
equality sign.  Behind two dashes alone everything is an operand.
-/

namespace Pflag

abbrev Arg := List Char

variable {F : Type}

/-- A flag of a command. -/
structure Spec (F : Type) where
  long : Arg
  short : Option Char
  flag : F
  /-- The value it has where it is given without one. -/
  noValue : Option Arg

/-- A flag that is given, and the argument that its name is in. -/
structure Given (F : Type) where
  flag : F
  value : Arg
  word : Arg

/-- Why no command runs: its help was asked for, or its arguments are none of it. -/
inductive Stop where
  | help
  | invalid
deriving DecidableEq

/-- What an argument is read as. -/
inductive Reading (F : Type) where
  | operand
  | dashes
  | stop (stop : Stop)
  /-- Flags, the last of which may wait for its value. -/
  | flags (given : List (Given F)) (waiting : Option F)

section Read

variable (specs : List (Spec F))

/-- What is behind the first equality sign. -/
def valueBehind (name : Arg) : Option Arg := (name.dropWhile (· ≠ '=')).tail?

def readLong (word name : Arg) : Reading F :=
  let key := name.takeWhile (· ≠ '=')
  if name.head? = some '-' ∨ name.head? = some '=' then .stop .invalid
  else
    match specs.find? (·.long = key) with
    | none => .stop (if key = "help".toList then .help else .invalid)
    | some spec =>
        match valueBehind name with
        | some value => .flags [⟨spec.flag, value, word⟩] none
        | none =>
            match spec.noValue with
            | some value => .flags [⟨spec.flag, value, word⟩] none
            | none => .flags [] (some spec.flag)

/-- A flag before the others of a reading. -/
def Reading.cons (given : Given F) : Reading F → Reading F
  | .flags givens waiting => .flags (given :: givens) waiting
  | reading => reading

def readShort (word : Arg) : Arg → Reading F
  | [] => .flags [] none
  | c :: letters =>
      match specs.find? (·.short = some c) with
      | none => .stop (if c = 'h' then .help else .invalid)
      | some spec =>
          if letters.head? = some '=' ∧ letters.tail ≠ [] then
            .flags [⟨spec.flag, letters.tail, word⟩] none
          else
            match spec.noValue with
            | some value => (readShort word letters).cons ⟨spec.flag, value, word⟩
            | none =>
                if letters ≠ [] then .flags [⟨spec.flag, letters, word⟩] none
                else .flags [] (some spec.flag)

def readWord : Arg → Reading F
  | '-' :: '-' :: name =>
      if name = [] then .dashes else readLong specs ('-' :: '-' :: name) name
  | '-' :: c :: letters => readShort specs ('-' :: c :: letters) (c :: letters)
  | _ => .operand

end Read

/-- The flags and the operands of a command. -/
structure Parsed (F : Type) where
  given : List (Given F)
  operands : List Arg

section Parse

variable (specs : List (Spec F))

/-- The arguments after one whose flag may wait for its value. -/
def parseFrom : Option (F × Arg) → List Arg → Except Stop (Parsed F)
  | none, [] => .ok ⟨[], []⟩
  | some _, [] => .error .invalid
  | some (flag, word), value :: args =>
      (parseFrom none args).map fun p => { p with given := ⟨flag, value, word⟩ :: p.given }
  | none, word :: args =>
      match readWord specs word with
      | .operand =>
          (parseFrom none args).map fun p => { p with operands := word :: p.operands }
      | .dashes => .ok ⟨[], args⟩
      | .stop stop => .error stop
      | .flags given waiting =>
          (parseFrom (waiting.map fun flag => (flag, word)) args).map fun p =>
            { p with given := given ++ p.given }

def parse (args : List Arg) : Except Stop (Parsed F) := parseFrom specs none args

/-- The last of the flags that is given. -/
def last? [DecidableEq F] (flag : F) (given : List (Given F)) : Option (Given F) :=
  (given.filter (·.flag = flag)).getLast?

end Parse

/-! ### Where flags are -/

variable {specs : List (Spec F)}

variable {g : Given F} {given : List (Given F)} {word : Arg}

variable {waiting : Option F}

theorem word_of_mem_readLong {name : Arg} (h : readLong specs word name = .flags given waiting)
    (hg : g ∈ given) :
  g.word = word
  := by
  rw [readLong] at h
  split at h
  · cases h
  · split at h
    · cases h
    · split at h
      · cases h
        rw [List.mem_singleton.mp hg]
      · split at h
        · cases h
          rw [List.mem_singleton.mp hg]
        · cases h
          cases hg

theorem word_of_mem_readShort {letters : Arg}
    (h : readShort specs word letters = .flags given waiting) (hg : g ∈ given) :
  g.word = word
  := by
  induction letters generalizing given with
  | nil =>
    cases h
    cases hg
  | cons c letters ih =>
    rw [readShort] at h
    split at h
    · cases h
    · split at h
      · cases h
        rw [List.mem_singleton.mp hg]
      · split at h
        · cases hrest : readShort specs word letters with
          | flags given' waiting' =>
            rw [hrest] at h
            cases h
            obtain rfl | hg := List.mem_cons.mp hg
            · rfl
            · exact ih hrest hg
          | _ =>
            rw [hrest] at h
            cases h
        · split at h
          · cases h
            rw [List.mem_singleton.mp hg]
          · cases h
            cases hg

/-- A flag is in the argument that it is read from. -/
theorem word_of_mem_readWord (h : readWord specs word = .flags given waiting) (hg : g ∈ given) :
  g.word = word
  := by
  unfold readWord at h
  split at h
  · split_ifs at h
    exact word_of_mem_readLong h hg
  · exact word_of_mem_readShort h hg
  · cases h

/-- What is no operand begins with a dash. -/
theorem exists_dash_of_readWord (h : readWord specs word ≠ .operand) :
  ∃ rest, word = '-' :: rest
  := by
  unfold readWord at h
  split at h
  · exact ⟨_, rfl⟩
  · exact ⟨_, rfl⟩
  · cases h rfl

theorem valueBehind_eq_none {name : Arg} (h : valueBehind name = none) :
  '=' ∉ name
  := by
  have hnil : name.dropWhile (· ≠ '=') = [] := by
    rw [valueBehind] at h
    cases hdrop : name.dropWhile (· ≠ '=') with
    | nil => rfl
    | cons c rest =>
      rw [hdrop] at h
      cases h
  rw [List.dropWhile_eq_nil_iff] at hnil
  intro hmem
  simpa using hnil '=' hmem

theorem not_mem_of_readLong {name : Arg} {flag : F}
    (h : readLong specs word name = .flags given (some flag)) :
  '=' ∉ name
  := by
  rw [readLong] at h
  split at h
  · cases h
  · split at h
    · cases h
    · split at h
      · cases h
      · next hvalue => exact valueBehind_eq_none hvalue

theorem not_mem_of_readShort (hshort : ∀ spec ∈ specs, spec.short ≠ some '=') {letters : Arg}
    {flag : F} (h : readShort specs word letters = .flags given (some flag)) :
  '=' ∉ letters
  := by
  induction letters generalizing given with
  | nil => exact List.not_mem_nil
  | cons c letters ih =>
    rw [readShort] at h
    split at h
    · cases h
    · next spec hfind =>
        have hc : c ≠ '=' := by
          rintro rfl
          apply hshort spec (List.mem_of_find?_eq_some hfind)
          simpa using List.find?_some hfind
        rw [List.mem_cons, not_or]
        use hc.symm
        split at h
        · cases h
        · split at h
          · cases hrest : readShort specs word letters with
            | flags given' waiting =>
              rw [hrest] at h
              cases h
              exact ih hrest
            | _ =>
              rw [hrest] at h
              cases h
          · split at h
            · cases h
            · next hnil =>
                rw [not_not.mp hnil]
                exact List.not_mem_nil

/-- An argument whose last flag waits for its value has no equality sign. -/
theorem not_mem_of_waiting (hshort : ∀ spec ∈ specs, spec.short ≠ some '=') {flag : F}
    (h : readWord specs word = .flags given (some flag)) :
  '=' ∉ word
  := by
  unfold readWord at h
  split at h
  · next name =>
      split_ifs at h
      have hname := not_mem_of_readLong h
      simpa using hname
  · next c letters _ =>
      have hletters := not_mem_of_readShort hshort h
      simpa using hletters
  · cases h

/-- The last flag of its kind is given. -/
theorem of_last?_eq_some [DecidableEq F] {flag : F} (h : last? flag given = some g) :
  g ∈ given ∧ g.flag = flag
  := by
  have hmem := List.mem_of_getLast? h
  rw [List.mem_filter, decide_eq_true_iff] at hmem
  exact hmem

/-- A flag stands in an argument, with its value or right before it. -/
inductive Stands (specs : List (Spec F)) (g : Given F) (args : List Arg) : Prop where
  | within {word : Arg} {given : List (Given F)} {waiting : Option F} (mem : word ∈ args)
      (read : readWord specs word = .flags given waiting) (given : g ∈ given)
  | before {given : List (Given F)} (read : readWord specs g.word = .flags given (some g.flag))
      (infix_args : [g.word, g.value] <:+: args)

variable {args : List Arg}

theorem Stands.cons (h : Stands specs g args) (arg : Arg) :
  Stands specs g (arg :: args)
  := by
  cases h with
  | within mem read given => exact .within (List.mem_cons_of_mem arg mem) read given
  | before read infix_args => exact .before read (List.infix_cons infix_args)

theorem of_map_eq_ok {ε α β : Type} {x : Except ε α} {f : α → β} {b : β} (h : x.map f = .ok b) :
  ∃ a, x = .ok a ∧ f a = b
  := by
  cases x with
  | error e => cases h
  | ok a => exact ⟨a, rfl, Except.ok.inj h⟩

/-- A flag that is given stands among the arguments, unless it was before them. -/
theorem stands_of_mem_parseFrom {waiting : Option (F × Arg)} {p : Parsed F}
    (h : parseFrom specs waiting args = .ok p) (hg : g ∈ p.given) :
  Stands specs g args
    ∨ waiting = some (g.flag, g.word) ∧ args.head? = some g.value
  := by
  induction args generalizing waiting p with
  | nil =>
    cases waiting with
    | none =>
      obtain rfl := Except.ok.inj h
      cases hg
    | some waiting => cases h
  | cons arg args ih =>
    -- what is given behind the argument that is read
    have hlater {p' : Parsed F} (hrest : parseFrom specs none args = .ok p')
        (hg : g ∈ p'.given) : Stands specs g (arg :: args) := by
      obtain hstands | ⟨hnone, -⟩ := ih hrest hg
      · exact hstands.cons arg
      · cases hnone
    cases waiting with
    | some waiting =>
      obtain ⟨p', hrest, rfl⟩ := of_map_eq_ok h
      obtain rfl | hg := List.mem_cons.mp hg
      · right
        exact ⟨rfl, rfl⟩
      · left
        exact hlater hrest hg
    | none =>
      left
      rw [parseFrom] at h
      cases hread : readWord specs arg with
      | operand =>
        rw [hread] at h
        obtain ⟨p', hrest, rfl⟩ := of_map_eq_ok h
        exact hlater hrest hg
      | dashes =>
        rw [hread] at h
        obtain rfl := Except.ok.inj h
        cases hg
      | stop stop =>
        rw [hread] at h
        cases h
      | flags given last =>
        rw [hread] at h
        obtain ⟨p', hrest, rfl⟩ := of_map_eq_ok h
        obtain hg | hg := List.mem_append.mp hg
        · exact .within List.mem_cons_self hread hg
        · obtain hstands | ⟨hlast, hvalue⟩ := ih hrest hg
          · exact hstands.cons arg
          · obtain ⟨flag, rfl, hpair⟩ := Option.map_eq_some_iff.mp hlast
            obtain ⟨rfl, rfl⟩ := Prod.mk.inj hpair
            obtain ⟨args', rfl⟩ := List.head?_eq_some_iff.mp hvalue
            apply Stands.before hread
            exact (List.prefix_append [g.word, g.value] args').isInfix

theorem stands_of_mem {p : Parsed F} (h : parse specs args = .ok p) (hg : g ∈ p.given) :
  Stands specs g args
  := by
  obtain hstands | ⟨hnone, -⟩ := stands_of_mem_parseFrom h hg
  · exact hstands
  · cases hnone

end Pflag
