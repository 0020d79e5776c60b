import Lazybox.GhShim.Cache
import Lazybox.Library.Pflag

/-!
# Calls of gh

What the shim makes of an invocation: a call that never reaches GitHub, a read whose answer may be
given again, a mutation with the record it changes, or anything else.

Calls of `gh api` are reads unless an argument looks as if it made one that writes.  Such a call
writes where `gh`, by its own reading of the same arguments, asks with another method than GET.
-/

namespace Lazybox.GhShim

open WorkingClaim (Text stripPrefix)
open scoped WorkingClaim
open Pflag (Arg Spec Given Parsed Stands last?)

inductive GhCallKind where
  | read
  | mutation
  | other
deriving DecidableEq, Repr

inductive GhChangeKind where
  | closed
  | reopened
  | merged
  | touched
deriving DecidableEq, Repr

/-- A record that a mutation changed, and what became of it. -/
structure RecordChange where
  record : GhRecordChange
  kind : GhChangeKind
deriving DecidableEq, Repr

/-- What the shim made of an invocation. -/
structure Call where
  kind : Option GhCallKind
  readKey : Option String
  change : Option RecordChange
deriving DecidableEq, Repr

namespace Call

def default : Call := ⟨none, none, none⟩

end Call

/-! ### What calls are -/

/-- The groups that never touch the API. -/
def LOCAL : List String :=
  ["auth", "alias", "completion", "config", "extension", "extensions", "help", "version"]

def READS : List (String × String) :=
  [("issue", "view"), ("issue", "list"), ("issue", "status"), ("pr", "view"), ("pr", "list"),
    ("pr", "status"), ("pr", "diff"), ("pr", "checks"), ("release", "view"), ("release", "list"),
    ("repo", "view"), ("run", "view"), ("run", "list"), ("label", "list"), ("workflow", "list")]

def MUTATIONS : List ((String × String) × GhChangeKind) :=
  [(("issue", "close"), .closed), (("issue", "reopen"), .reopened),
    (("issue", "comment"), .touched), (("issue", "edit"), .touched),
    (("issue", "create"), .touched), (("issue", "transfer"), .touched),
    (("pr", "merge"), .merged), (("pr", "close"), .closed), (("pr", "reopen"), .reopened),
    (("pr", "comment"), .touched), (("pr", "edit"), .touched), (("pr", "create"), .touched),
    (("pr", "ready"), .touched), (("pr", "review"), .touched)]

/-- The loop of `is_help_request`. -/
def isHelpRequestAfter (afterFlag : Bool) : List String → Bool
  | [] => false
  | arg :: args =>
      isFlag arg && !afterFlag && (arg = "-h" || arg = "--help" || arg = "--version")
        || isHelpRequestAfter (isFlag arg && !arg.toList.contains '=') args

def isHelpRequest : List String → Bool := isHelpRequestAfter false

def streams (args : List String) : Bool :=
  args.any fun arg => arg = "--watch" || "--watch=".toList.isPrefixOf arg.toList

/-- `eq_ignore_ascii_case("GET")`. -/
def isGet (method : Text) : Bool := toAsciiLowercase method = "get".toList

/-- The flags after which a method is expected. -/
def methodFlags : List Text := ["-X".toList, "--method".toList]

/-- The flags that a call which reads does not have. -/
def bodyFlags : List Text :=
  ["-f".toList, "-F".toList, "--field".toList, "--raw-field".toList, "--input".toList]

/-- The method that is given in the same argument. -/
def attachedMethod (arg : Text) : Option Text :=
  (stripPrefix "--method=".toList arg).or (stripPrefix "-X=".toList arg)

/-- The loop of `is_api_read`. -/
def isApiReadFrom (expectMethod : Bool) : List Text → Bool
  | [] => true
  | arg :: args =>
      if expectMethod then isGet arg && isApiReadFrom false args
      else if arg ∈ methodFlags then isApiReadFrom true args
      else if arg ∈ bodyFlags then false
      else if (attachedMethod arg).any fun value => !isGet value then false
      else if "-f".toList <+: arg ∧ 2 < arg.length then false
      else isApiReadFrom false args

def isApiRead (args : List String) : Bool := isApiReadFrom false (args.map String.toList)

/-- The record a mutation names. -/
def changeFor (env : Env) (args positional : List String) (kind : GhChangeKind) :
    Option RecordChange :=
  (positional[2]?.filter looksLikeTarget).map fun reference =>
    ⟨⟨reference, repoScope env args⟩, kind⟩

def classify (fingerprint : String → String) (env : Env) (args : List String) : Call :=
  if isHelpRequest args then .default
  else
    let positional := operands args
    match positional.head? with
    | none => .default
    | some group =>
        if group ∈ LOCAL then .default
        else
          let verb := positional[1]?.getD ""
          match (MUTATIONS.find? fun mutation => mutation.1 = (group, verb)).map Prod.snd with
          | some kind => ⟨some .mutation, none, changeFor env args positional kind⟩
          | none =>
              if ((group, verb) ∈ READS ∨ group = "search" ∨ group = "api" ∧ isApiRead args)
                  ∧ ¬streams args then
                ⟨some .read, readKey fingerprint env args positional group, none⟩
              else ⟨some .other, none, none⟩

/-! ### The arguments of gh api -/

inductive ApiFlag where
  | method
  | field
  | rawField
  | input
  | header
  | preview
  | hostname
  | jq
  | template
  | cache
  | include_
  | slurp
  | paginate
  | silent
  | verbose
  | help
deriving DecidableEq, Repr

/-- The flags of `gh api`. -/
def apiSpecs : List (Spec ApiFlag) :=
  let valued (long : String) (short : Option Char) (flag : ApiFlag) : Spec ApiFlag :=
    ⟨long.toList, short, flag, none⟩
  let switch (long : String) (short : Option Char) (flag : ApiFlag) : Spec ApiFlag :=
    ⟨long.toList, short, flag, some "true".toList⟩
  [valued "hostname" none .hostname, valued "method" (some 'X') .method,
    valued "field" (some 'F') .field, valued "raw-field" (some 'f') .rawField,
    valued "header" (some 'H') .header, valued "preview" (some 'p') .preview,
    switch "include" (some 'i') .include_, switch "slurp" none .slurp,
    switch "paginate" none .paginate, valued "input" none .input, switch "silent" none .silent,
    valued "jq" (some 'q') .jq, valued "template" (some 't') .template,
    valued "cache" none .cache, switch "verbose" none .verbose, switch "help" none .help]

/-- The flags that give the request a body. -/
def bodies (given : List (Given ApiFlag)) : List (Given ApiFlag) :=
  given.filter (fun g => g.flag = .field ∨ g.flag = .rawField)
    ++ ((last? .input given).filter (·.value ≠ [])).toList

/-- The method that `gh api` asks with. -/
def requestMethod (given : List (Given ApiFlag)) : Arg :=
  match last? .method given with
  | some g => g.value
  | none => if bodies given ≠ [] then "POST".toList else "GET".toList

/-- A request with no method is a GET. -/
def IsGet (method : Arg) : Prop := method = [] ∨ isGet method = true

instance (method : Arg) : Decidable (IsGet method) := inferInstanceAs (Decidable (_ ∨ _))

section Accepts

variable (accepts : Parsed ApiFlag → Bool)

/-- The flags and operands of a request; `accepts` is what else `gh` checks of them. -/
def ghRequest (args : List Arg) : Option (Parsed ApiFlag) :=
  (Pflag.parse apiSpecs args).toOption.filter accepts

end Accepts

/-! ### What the scan sees -/

/-- An argument that tells of a write. -/
def Telling (arg : Text) : Prop :=
  arg ∈ bodyFlags ∨ (∃ value ∈ attachedMethod arg, isGet value = false)
    ∨ "-f".toList <+: arg ∧ 2 < arg.length

/-- The arguments tell of a write: one of them does, or a method that is not GET is behind its
flag. -/
def Recognized (args : List Text) : Prop :=
  (∃ arg ∈ args, Telling arg)
    ∨ ∃ flag ∈ methodFlags, ∃ value, [flag, value] <:+: args ∧ isGet value = false

/-- An argument that the scan looks at. -/
def Seen (arg : Text) : Prop :=
  arg ∈ bodyFlags ∨ arg ∈ methodFlags ∨ (attachedMethod arg).isSome = true ∨ "-f".toList <+: arg

/-- The flags a request is decided by are where the scan looks: the last method unless it is GET,
and without a method all that gives the request a body. -/
def InSight (p : Parsed ApiFlag) : Prop :=
  match last? .method p.given with
  | some g => IsGet g.value ∨ Seen g.word
  | none => ∀ g ∈ bodies p.given, Seen g.word

theorem recognized_cons (arg : Text) (args : List Text) :
  Recognized (arg :: args)
    ↔ Telling arg ∨ (arg ∈ methodFlags ∧ ∃ value ∈ args.head?, isGet value = false)
      ∨ Recognized args
  := by
  have hpair (flag value : Text) : [flag, value] <:+: arg :: args
      ↔ flag = arg ∧ args.head? = some value ∨ [flag, value] <:+: args := by
    rw [List.infix_cons_iff, List.cons_prefix_cons]
    cases args with
    | nil => simp
    | cons next args => simp [List.cons_prefix_cons, eq_comm]
  constructor
  · rintro (⟨telling, hmem, htelling⟩ | ⟨flag, hflag, value, hinfix, hvalue⟩)
    · obtain rfl | hmem := List.mem_cons.mp hmem
      · left
        exact htelling
      · right
        right
        left
        exact ⟨telling, hmem, htelling⟩
    · right
      obtain ⟨rfl, hhead⟩ | hinfix := (hpair flag value).mp hinfix
      · left
        exact ⟨hflag, value, hhead, hvalue⟩
      · right
        right
        exact ⟨flag, hflag, value, hinfix, hvalue⟩
  · rintro (htelling | ⟨hflag, value, hhead, hvalue⟩ | ⟨telling, hmem, htelling⟩
      | ⟨flag, hflag, value, hinfix, hvalue⟩)
    · left
      exact ⟨arg, List.mem_cons_self, htelling⟩
    · right
      exact ⟨arg, hflag, value, (hpair arg value).mpr (.inl ⟨rfl, hhead⟩), hvalue⟩
    · left
      exact ⟨telling, List.mem_cons_of_mem arg hmem, htelling⟩
    · right
      exact ⟨flag, hflag, value, List.infix_cons hinfix, hvalue⟩

theorem not_recognized_nil :
  ¬Recognized []
  := by
  rintro (⟨arg, hmem, -⟩ | ⟨flag, -, value, hinfix, -⟩)
  · cases hmem
  · simp at hinfix

variable {arg : Text}

theorem exists_of_attachedMethod {value : Text} (h : value ∈ attachedMethod arg) :
  arg = "--method=".toList ++ value ∨ arg = "-X=".toList ++ value
  := by
  obtain hlong | ⟨-, hshort⟩ := Option.or_eq_some_iff.mp h
  · left
    exact WorkingClaim.stripPrefix_eq_some.mp hlong
  · right
    exact WorkingClaim.stripPrefix_eq_some.mp hshort

theorem any_attachedMethod_iff (arg : Text) :
  ((attachedMethod arg).any fun value => !isGet value) = true
    ↔ ∃ value ∈ attachedMethod arg, isGet value = false
  := by
  cases attachedMethod arg <;> simp

theorem not_telling_of_mem_methodFlags (h : arg ∈ methodFlags) :
  ¬Telling arg
  := by
  have hall : ∀ flag ∈ methodFlags, flag ∉ bodyFlags ∧ attachedMethod flag = none
      ∧ ¬"-f".toList <+: flag := by
    decide
  obtain ⟨hbody, hattached, hfield⟩ := hall arg h
  rintro (htelling | ⟨value, hvalue, -⟩ | ⟨htelling, -⟩)
  · exact hbody htelling
  · rw [hattached] at hvalue
    cases hvalue
  · exact hfield htelling

theorem Telling.seen (h : Telling arg) :
  Seen arg
  := by
  obtain hbody | ⟨value, hvalue, -⟩ | ⟨hfield, -⟩ := h
  · left
    exact hbody
  · right
    right
    left
    exact Option.isSome_iff_exists.mpr ⟨value, hvalue⟩
  · right
    right
    right
    exact hfield

theorem Seen.exists_dash (h : Seen arg) :
  ∃ rest, arg = '-' :: rest
  := by
  obtain hbody | hmethod | hattached | ⟨rest, rfl⟩ := h
  · have hall : ∀ flag ∈ bodyFlags, ∃ rest, flag = '-' :: rest := by simp [bodyFlags]
    exact hall arg hbody
  · have hall : ∀ flag ∈ methodFlags, ∃ rest, flag = '-' :: rest := by simp [methodFlags]
    exact hall arg hmethod
  · obtain ⟨value, hvalue⟩ := Option.isSome_iff_exists.mp hattached
    obtain rfl | rfl := exists_of_attachedMethod hvalue
    · exact ⟨_, rfl⟩
    · exact ⟨_, rfl⟩
  · exact ⟨_, rfl⟩

/-- GET itself is nothing that the scan looks at. -/
theorem not_seen_of_isGet (h : isGet arg = true) :
  ¬Seen arg
  := by
  intro hseen
  obtain ⟨rest, rfl⟩ := hseen.exists_dash
  simp [isGet, toAsciiLowercase] at h

/-- The scan takes a call for a read unless its arguments tell of a write. -/
theorem isApiReadFrom_iff (expectMethod : Bool) (args : List Text) :
  isApiReadFrom expectMethod args = true
    ↔ (expectMethod = true → ∀ value ∈ args.head?, isGet value = true) ∧ ¬Recognized args
  := by
  induction args generalizing expectMethod with
  | nil => simp [isApiReadFrom, not_recognized_nil]
  | cons arg args ih =>
    rw [isApiReadFrom, recognized_cons]
    cases expectMethod with
    | true =>
      rw [if_pos rfl, Bool.and_eq_true, ih]
      constructor
      · rintro ⟨hget, -, hrest⟩
        have hseen := not_seen_of_isGet hget
        use fun _ value hvalue => Option.some.inj hvalue ▸ hget
        rintro (htelling | ⟨hflag, -⟩ | hrecognized)
        · exact hseen htelling.seen
        · exact hseen (.inr (.inl hflag))
        · exact hrest hrecognized
      · rintro ⟨hget, hrest⟩
        use hget rfl arg rfl
        rw [not_or, not_or] at hrest
        exact ⟨fun h => absurd h Bool.false_ne_true, hrest.2.2⟩
    | false =>
      rw [if_neg Bool.false_ne_true]
      by_cases hflag : arg ∈ methodFlags
      · have htelling := not_telling_of_mem_methodFlags hflag
        rw [if_pos hflag, ih, or_iff_right htelling, not_or]
        simp [hflag]
      · rw [if_neg hflag]
        by_cases htelling : Telling arg
        · have hfalse : ∀ read : Bool, (if arg ∈ bodyFlags then false
              else if (attachedMethod arg).any fun value => !isGet value then false
              else if "-f".toList <+: arg ∧ 2 < arg.length then false else read) = false := by
            intro read
            rw [Telling, ← any_attachedMethod_iff] at htelling
            obtain hbody | hattached | hfield := htelling
            · rw [if_pos hbody]
            · rw [if_pos hattached, ite_self]
            · rw [if_pos hfield, ite_self, ite_self]
          rw [hfalse]
          simp [htelling]
        · have htelling' := htelling
          rw [Telling, ← any_attachedMethod_iff, not_or, not_or] at htelling'
          rw [if_neg htelling'.1, if_neg htelling'.2.1, if_neg htelling'.2.2, ih]
          simp [htelling, hflag]

/-- Without the word api the scan does not see more. -/
theorem isApiReadFrom_insert {expectMethod : Bool} (before after : List Text)
    (h : isApiReadFrom expectMethod (before ++ "api".toList :: after) = true) :
  isApiReadFrom expectMethod (before ++ after) = true
  := by
  induction before generalizing expectMethod with
  | nil =>
    cases expectMethod with
    | true => simp [isApiReadFrom, isGet, toAsciiLowercase] at h
    | false => exact h
  | cons arg before ih =>
    rw [List.cons_append, isApiReadFrom] at h ⊢
    split_ifs at h ⊢
    · rw [Bool.and_eq_true] at h ⊢
      exact ⟨h.1, ih h.2⟩
    · exact ih h
    · exact ih h

theorem Recognized.insert {before after : List Text} (h : Recognized (before ++ after)) :
  Recognized (before ++ "api".toList :: after)
  := by
  by_contra hnone
  have hread := (isApiReadFrom_iff false _).mpr ⟨fun h => absurd h Bool.false_ne_true, hnone⟩
  exact ((isApiReadFrom_iff false _).mp (isApiReadFrom_insert before after hread)).2 h

/-! ### What gh reads -/

/-- A flag that makes a request write, unless a later one makes it a GET. -/
def Writes (g : Given ApiFlag) : Prop :=
  g.flag = .method ∧ ¬IsGet g.value ∨ g.flag = .field ∨ g.flag = .rawField ∨ g.flag = .input

theorem isGet_eq_false {method : Arg} (h : ¬IsGet method) :
  isGet method = false
  := eq_false_of_ne_true fun hget => h (.inr hget)

variable {args : List Arg}

variable {word : Arg}

/-- Anything behind the letter of a raw field tells of a write. -/
theorem recognized_of_field (hword : word ∈ args) (h : "-f".toList <+: word) :
  Recognized args
  := by
  left
  use word, hword
  by_cases hshort : word = "-f".toList
  · left
    rw [hshort]
    decide
  · right
    right
    use h
    obtain ⟨rest, rfl⟩ := h
    cases rest with
    | nil => simp at hshort
    | cons c rest => simp

/-- A method that is not GET, in the argument of its flag. -/
theorem recognized_of_attached {value : Arg} (hword : word ∈ args)
    (h : value ∈ attachedMethod word) (hvalue : isGet value = false) :
  Recognized args
  := .inl ⟨word, hword, .inr (.inl ⟨value, h, hvalue⟩)⟩

theorem readWord_methodFlag (h : word ∈ methodFlags) :
  Pflag.readWord apiSpecs word = .flags [] (some .method)
  := by
  simp only [methodFlags, List.mem_cons, List.not_mem_nil, or_false] at h
  obtain rfl | rfl := h <;> rfl

/-- A method in the argument of its flag, or an equality sign for one. -/
theorem readWord_attachedMethod {value : Arg} (h : value ∈ attachedMethod word) :
  ∃ value', Pflag.readWord apiSpecs word = .flags [⟨.method, value', word⟩] none
    ∧ (value ≠ [] → value' = value)
  := by
  obtain rfl | rfl := exists_of_attachedMethod h
  · exact ⟨value, rfl, fun _ => rfl⟩
  · cases value with
    | nil => exact ⟨['='], rfl, fun h => absurd rfl h⟩
    | cons c value => exact ⟨c :: value, rfl, fun _ => rfl⟩

/-- A flag that writes, in an argument the scan looks at, is recognized. -/
theorem recognized_of_stands {g : Given ApiFlag} (h : Stands apiSpecs g args)
    (hseen : Seen g.word) (hwrites : Writes g) :
  Recognized args
  := by
  have hmethod (hflag : g.flag = .method) : isGet g.value = false := by
    rw [Writes, hflag] at hwrites
    simp only [true_and, reduceCtorEq, or_self, or_false] at hwrites
    exact isGet_eq_false hwrites
  have hword : g.word ∈ args := by
    cases h with
    | within mem read given => rwa [Pflag.word_of_mem_readWord read given]
    | before read infix_args => exact infix_args.subset List.mem_cons_self
  obtain hbody | hflag | hattached | hfield := hseen
  · exact .inl ⟨g.word, hword, .inl hbody⟩
  · cases h with
    | within mem read given =>
      rw [← Pflag.word_of_mem_readWord read given, readWord_methodFlag hflag] at read
      cases read
      cases given
    | before read infix_args =>
      rw [readWord_methodFlag hflag] at read
      cases hg : g.flag with
      | method => exact .inr ⟨g.word, hflag, g.value, infix_args, hmethod hg⟩
      | _ =>
        rw [hg] at read
        cases read
  · obtain ⟨value, hvalue⟩ := Option.isSome_iff_exists.mp hattached
    obtain ⟨value', hread, hsame⟩ := readWord_attachedMethod hvalue
    cases h with
    | within mem read given =>
      rw [← Pflag.word_of_mem_readWord read given, hread] at read
      cases read
      rw [List.mem_singleton.mp given] at hmethod
      by_cases hnil : value = []
      · apply recognized_of_attached hword hvalue
        rw [hnil]
        rfl
      · apply recognized_of_attached hword hvalue
        rw [← hsame hnil]
        exact hmethod rfl
    | before read infix_args =>
      rw [hread] at read
      cases read
  · exact recognized_of_field hword hfield

theorem of_mem_bodies {given : List (Given ApiFlag)} {g : Given ApiFlag} (h : g ∈ bodies given) :
  g ∈ given ∧ Writes g
  := by
  obtain h | h := List.mem_append.mp h
  · rw [List.mem_filter, decide_eq_true_iff] at h
    use h.1
    right
    obtain hfield | hfield := h.2
    · left
      exact hfield
    · right
      left
      exact hfield
  · rw [Option.mem_toList, Option.filter_eq_some_iff] at h
    obtain ⟨hmem, hflag⟩ := Pflag.of_last?_eq_some h.1
    use hmem
    right
    right
    right
    exact hflag

theorem parse_of_mem_ghRequest {accepts : Parsed ApiFlag → Bool} {p : Parsed ApiFlag}
    (h : p ∈ ghRequest accepts args) :
  Pflag.parse apiSpecs args = .ok p
  := by
  obtain ⟨hparse, -⟩ := Option.filter_eq_some_iff.mp h
  cases hresult : Pflag.parse apiSpecs args with
  | error stop =>
    rw [hresult] at hparse
    cases hparse
  | ok p' =>
    rw [hresult] at hparse
    rw [Option.some.inj hparse]

/-- Unless the arguments tell of a write, a request is a GET exactly if it is decided in sight. -/
theorem isGet_iff_inSight {p : Parsed ApiFlag} (hparse : Pflag.parse apiSpecs args = .ok p)
    (hnone : ¬Recognized args) :
  IsGet (requestMethod p.given) ↔ InSight p
  := by
  have hseen {g : Given ApiFlag} (hg : g ∈ p.given) (hwrites : Writes g) : ¬Seen g.word :=
    fun hseen => hnone (recognized_of_stands (Pflag.stands_of_mem hparse hg) hseen hwrites)
  rw [requestMethod, InSight]
  cases hmethod : last? .method p.given with
  | some g =>
    obtain ⟨hmem, hflag⟩ := Pflag.of_last?_eq_some hmethod
    by_cases hget : IsGet g.value
    · simp [hget]
    · simp [hget, hseen hmem (.inl ⟨hflag, hget⟩)]
  | none =>
    simp only
    split_ifs with hbodies
    · apply iff_of_false
      · rintro (hnil | hget)
        · cases hnil
        · revert hget
          decide
      · intro hall
        obtain ⟨g, rest, hcons⟩ := List.exists_cons_of_ne_nil hbodies
        have hg : g ∈ bodies p.given := by
          rw [hcons]
          exact List.mem_cons_self
        obtain ⟨hmem, hwrites⟩ := of_mem_bodies hg
        exact hseen hmem hwrites (hall g hg)
    · apply iff_of_true
      · right
        decide
      · rw [not_not.mp hbodies]
        simp

theorem isApiRead_iff (args : List String) :
  isApiRead args = true ↔ ¬Recognized (args.map String.toList)
  := by
  rw [isApiRead, isApiReadFrom_iff]
  simp

/-- Only what the scan takes for a read is given a key. -/
theorem isApiRead_of_readKey {fingerprint : String → String} {env : Env} {args : List String}
    (hgroup : (operands args).head? = some "api")
    (hkey : (classify fingerprint env args).readKey ≠ none) :
  isApiRead args = true
  := by
  by_contra hread
  apply hkey
  rw [classify]
  split_ifs
  · rfl
  · have hlocal : "api" ∉ LOCAL := by decide
    have hreads (verb : String) : ("api", verb) ∉ READS := by simp [READS]
    have hmutations (verb : String) :
        MUTATIONS.find? (fun mutation => mutation.1 = ("api", verb)) = none := by
      simp [MUTATIONS]
    have hsearch : "api" ≠ "search" := by decide
    simp only [hgroup, if_neg hlocal, hmutations, Option.map_none]
    rw [if_neg]
    rintro ⟨hmem | hgroup | ⟨-, hapi⟩, -⟩
    · exact hreads _ hmem
    · exact hsearch hgroup
    · exact hread hapi

/-- Every request of a call of `gh api` that is taken for a read is a GET exactly if the arguments
tell of a write or the request is decided in sight; and no other call of it has a key. -/
theorem reads_are_gets_iff (fingerprint : String → String) (accepts : Parsed ApiFlag → Bool)
    (env : Env) (before after : List String) :
  ((isApiRead (before ++ "api" :: after) = true →
        ∀ p ∈ ghRequest accepts ((before ++ after).map String.toList),
          IsGet (requestMethod p.given))
      ↔ Recognized ((before ++ "api" :: after).map String.toList)
        ∨ ∀ p ∈ ghRequest accepts ((before ++ after).map String.toList), InSight p)
    ∧ ((operands (before ++ "api" :: after)).head? = some "api" →
      (classify fingerprint env (before ++ "api" :: after)).readKey ≠ none →
        isApiRead (before ++ "api" :: after) = true)
  := by
  have hiff (hnone : ¬Recognized ((before ++ "api" :: after).map String.toList))
      {p : Parsed ApiFlag} (hp : p ∈ ghRequest accepts ((before ++ after).map String.toList)) :
      IsGet (requestMethod p.given) ↔ InSight p := by
    have hparse := parse_of_mem_ghRequest hp
    apply isGet_iff_inSight hparse
    intro hrecognized
    apply hnone
    rw [List.map_append] at hrecognized ⊢
    exact hrecognized.insert
  use ?_, fun hgroup hkey => isApiRead_of_readKey hgroup hkey
  rw [isApiRead_iff]
  constructor
  · intro hgets
    by_cases hrecognized : Recognized ((before ++ "api" :: after).map String.toList)
    · left
      exact hrecognized
    · right
      intro p hp
      exact (hiff hrecognized hp).mp (hgets hrecognized p hp)
  · rintro (hrecognized | hsight) hnone p hp
    · exact absurd hrecognized hnone
    · exact (hiff hnone hp).mpr (hsight p hp)

/-- A method attached to its letter is a write that is taken for a read. -/
theorem attached_post_replayed :
  ¬∀ (accepts : Parsed ApiFlag → Bool) (before after : List String),
    isApiRead (before ++ "api" :: after) = true →
      ∀ p ∈ ghRequest accepts ((before ++ after).map String.toList), IsGet (requestMethod p.given)
  := by
  intro claim
  have hget := claim (fun _ => true) [] ["repos/o/r/issues/1/comments", "-XPOST", "--silent"]
    (by decide)
    ⟨[⟨.method, "POST".toList, "-XPOST".toList⟩, ⟨.silent, "true".toList, "--silent".toList⟩],
      ["repos/o/r/issues/1/comments".toList]⟩ rfl
  revert hget
  decide

end Lazybox.GhShim
