import Lazybox.Core.TaskRefReadBack
import Lazybox.GhShim.Calls
import Lazybox.Library.MapM

/-!
# Commands of gh

What `gh` does with a command that changes records, by its own reading of the arguments: which
records the command acts on, and the state that it leaves them in.  What this depends on besides the
arguments, the environment and the remotes is a `World`.
-/

namespace Lazybox.Gh

open WorkingClaim (Text stripPrefix)
open scoped WorkingClaim
open Pflag (Arg Spec Given Parsed last?)
open GhShim (Env isFlag onlyRemoteUrl)
open TaskRef (segments reference isQuote)

/-! ### Commands and flags -/

inductive Flag where
  | repo
  | help
  | auto
  | disableAuto
  | admin
  | other
deriving DecidableEq

/-- The flags of a command with their letters, and how many operands it has. -/
structure Command where
  valued : List (String × Option Char)
  switches : List (String × Option Char)
  least : ℕ
  /-- No bound where there is none. -/
  most : Option ℕ

def body : List (String × Option Char) := [("body", some 'b'), ("body-file", some 'F')]

def commentSwitches : List (String × Option Char) :=
  [("create-if-none", none), ("delete-last", none), ("edit-last", none), ("editor", some 'e'),
    ("web", some 'w'), ("yes", none)]

def edited : List (String × Option Char) :=
  body ++ [("add-assignee", none), ("add-label", none), ("add-project", none),
    ("milestone", some 'm'), ("remove-assignee", none), ("remove-label", none),
    ("remove-project", none), ("title", some 't')]

def created : List (String × Option Char) :=
  body ++ [("assignee", some 'a'), ("label", some 'l'), ("milestone", some 'm'),
    ("project", some 'p'), ("recover", none), ("template", some 'T'), ("title", some 't')]

def commands : List ((String × String) × Command) :=
  [(("issue", "close"),
      ⟨[("comment", some 'c'), ("duplicate-of", none), ("reason", some 'r')], [], 1, some 1⟩),
    (("issue", "reopen"), ⟨[("comment", some 'c')], [], 1, some 1⟩),
    (("issue", "comment"), ⟨body, commentSwitches, 1, some 1⟩),
    (("issue", "edit"), ⟨edited, [("remove-milestone", none)], 1, none⟩),
    (("issue", "create"), ⟨created, [("editor", some 'e'), ("web", some 'w')], 0, some 0⟩),
    (("issue", "transfer"), ⟨[], [], 2, some 2⟩),
    (("pr", "merge"),
      ⟨body ++ [("author-email", some 'A'), ("match-head-commit", none), ("subject", some 't')],
        [("admin", none), ("auto", none), ("delete-branch", some 'd'), ("disable-auto", none),
          ("merge", some 'm'), ("rebase", some 'r'), ("squash", some 's')], 0, some 1⟩),
    (("pr", "close"), ⟨[("comment", some 'c')], [("delete-branch", some 'd')], 1, some 1⟩),
    (("pr", "reopen"), ⟨[("comment", some 'c')], [], 1, some 1⟩),
    (("pr", "comment"), ⟨body, commentSwitches, 0, some 1⟩),
    (("pr", "edit"),
      ⟨edited ++ [("add-reviewer", none), ("base", some 'B'), ("remove-reviewer", none)],
        [("remove-milestone", none)], 0, some 1⟩),
    (("pr", "create"),
      ⟨created ++ [("base", some 'B'), ("head", some 'H'), ("reviewer", some 'r')],
        [("draft", some 'd'), ("dry-run", none), ("editor", some 'e'), ("fill", some 'f'),
          ("fill-first", none), ("fill-verbose", none), ("no-maintainer-edit", none),
          ("web", some 'w')], 0, some 0⟩),
    (("pr", "ready"), ⟨[], [("undo", none)], 0, some 1⟩),
    (("pr", "review"),
      ⟨body, [("approve", some 'a'), ("comment", some 'c'), ("request-changes", some 'r')],
        0, some 1⟩)]

def switchFlag (long : String) : Flag :=
  if long = "auto" then .auto
  else if long = "disable-auto" then .disableAuto
  else if long = "admin" then .admin
  else .other

/-- The flags of a command and those that every command on records has. -/
def Command.specs (command : Command) : List (Spec Flag) :=
  [⟨"repo".toList, some 'R', .repo, none⟩, ⟨"help".toList, none, .help, some "true".toList⟩]
    ++ command.valued.map (fun flag => ⟨flag.1.toList, flag.2, .other, none⟩)
    ++ command.switches.map fun flag =>
      ⟨flag.1.toList, flag.2, switchFlag flag.1, some "true".toList⟩

/-- The last value of a switch is true. -/
def isOn (flag : Flag) (given : List (Given Flag)) : Bool :=
  (last? flag given).any fun g =>
    g.value ∈ ["1", "t", "T", "true", "TRUE", "True"].map String.toList

/-! ### Words of a command -/

/-- A flag before the word of a command is followed by a value, unless it is a known switch, has an
equality sign, or is of several letters behind one dash. -/
def takesNext (switches : List String) (arg : String) : Bool :=
  !arg.toList.contains '='
    && ("--".toList.isPrefixOf arg.toList && arg ∉ switches || isFlag arg && arg.utf8ByteSize = 2)

/-- The next word of a command, and the arguments without it. -/
def nextWord (switches : List String) : List String → Option (String × List String)
  | [] => none
  | [arg] => if isFlag arg ∨ arg = "" then none else some (arg, [])
  | arg :: next :: args =>
      if arg = "--" then none
      else if takesNext switches arg then
        (nextWord switches args).map fun found => (found.1, arg :: next :: found.2)
      else if isFlag arg ∨ arg = "" then
        (nextWord switches (next :: args)).map fun found => (found.1, arg :: found.2)
      else some (arg, next :: args)

/-- The two words that name a command, and the other arguments. -/
def commandWords (argv : List String) : Option ((String × String) × List String) := do
  let group ← nextWord ["--help", "--version"] argv
  let verb ← nextWord ["--help"] group.2
  return ((group.1, verb.1), verb.2)

inductive Invocation where
  /-- None of the commands on records. -/
  | other
  | help
  | refused
  | acts (name : String × String) (p : Parsed Flag)

def invocation (argv : List String) : Invocation :=
  match commandWords argv with
  | none => .other
  | some (name, args) =>
      match (commands.find? (·.1 = name)).map Prod.snd with
      | none => .other
      | some command =>
          match Pflag.parse command.specs (args.map String.toList) with
          | .error .help => .help
          | .error .invalid => .refused
          | .ok p =>
              if isOn .help p.given then .help
              else if command.least ≤ p.operands.length
                  ∧ command.most.all (p.operands.length ≤ ·) then .acts name p
              else .refused

/-! ### Repositories and records -/

/-- The names that GitHub gives. -/
def IsName (s : Text) : Prop :=
  s ≠ [] ∧ ∀ c ∈ s, c.isAlphanum = true ∨ c ∈ ['-', '_', '.']

instance (s : Text) : Decidable (IsName s) := inferInstanceAs (Decidable (_ ∧ _))

/-- A repository on GitHub; its name does not end in `.git`. -/
structure Repo where
  owner : Text
  name : Text
  named : IsName owner ∧ IsName name ∧ ¬".git".toList <:+ name
deriving DecidableEq

namespace Repo

def ofNames (owner name : Text) : Option Repo :=
  if h : IsName owner ∧ IsName name ∧ ¬".git".toList <:+ name then some ⟨owner, name, h⟩ else none

def slug (repo : Repo) : Text := repo.owner ++ '/' :: repo.name

/-- A record of the repository. -/
def task (repo : Repo) (n : ℕ) : TaskId :=
  ⟨TaskRef.githubSource, String.ofList (TaskRef.githubKey repo.slug n)⟩

end Repo

/-- A repository as `[HOST/]OWNER/REPO`. -/
def fullName (s : Text) : Option Repo :=
  match s.splitOn '/' with
  | [owner, name] => Repo.ofNames owner name
  | [host, owner, name] => if host ≠ [] then Repo.ofNames owner name else none
  | _ => none

/-- A selector that is read as an address. -/
def isAddress (selector : Text) : Bool :=
  "http://".toList.isPrefixOf selector || "https://".toList.isPrefixOf selector

/-- The repository and the number in an address on GitHub whose path is of one of the kinds. -/
def address (kinds : List Text) (selector : Text) : Option (Repo × ℕ) := do
  let path ← TaskRef.stripHost (reference (String.ofList selector)) "github.com".toList
  match segments path with
  | owner :: name :: kind :: number :: _ =>
      if kind ∈ kinds then
        let repo ← Repo.ofNames owner name
        let n ← parseU64 (trim number)
        return (repo, n)
      else none
  | _ => none

/-- The addresses that a command takes. -/
def kinds (group : String) : List Text :=
  if group = "pr" then ["pull".toList] else ["issues".toList, "pull".toList]

/-- A repository to transfer to, as `[HOST/]OWNER/REPO`. -/
def isDestination (operand : Text) : Bool := '/' ∈ operand && !isAddress operand

def selectorNumber (selector : Text) : Option ℕ :=
  parseU64 ((stripPrefix ['#'] selector).getD selector)

/-! ### Runs -/

/-- What a run of a command did: the records it acted on, and the state they are in now; no state
where the command leaves it as it was. -/
structure Effect where
  tasks : List TaskId
  leaves : Option TaskState
deriving DecidableEq

/-- A run that acts on nothing. -/
def Effect.idle : Effect := ⟨[], none⟩

/-- What a run depends on besides the arguments, the environment and the remotes. -/
structure World where
  /-- A call that is none of the commands on records succeeds. -/
  others : List String → Bool
  /-- What else is checked of a command. -/
  accepts : String × String → Parsed Flag → Bool
  /-- The repository that was set as the default one, or that is picked among several remotes. -/
  preferred : Option Repo
  /-- The repository that the address of a remote is read as. -/
  remoteRepo : Text → Option Repo
  /-- The pull request of a branch, by default of the current one. -/
  ofBranch : Option Text → Option TaskId
  /-- The branch that is merged into has a merge queue. -/
  queued : Bool

namespace World

variable (w : World)

/-- The repository of a command: its last repository flag, or else `GH_REPO` or the remote. -/
def baseRepo (env : Env) (given : List (Given Flag)) : Option Repo :=
  match ((last? .repo given).map (·.value)).filter (· ≠ []) with
  | some value => fullName value
  | none =>
      match env.ghRepo.filter (· ≠ "") with
      | some value => fullName value.toList
      | none => w.preferred.or ((onlyRemoteUrl env).bind w.remoteRepo)

/-- The record that an operand selects. -/
def selected (group : String) (base : Option Repo) (selector : Arg) : Option TaskId :=
  if isAddress selector then
    (address (kinds group) selector).map fun found => found.1.task found.2
  else
    match selectorNumber selector with
    | some n => base.map fun repo => repo.task n
    | none => if group = "pr" then w.ofBranch (some selector) else none

/-- The records of the operands.  The second operand of a transfer is the repository it goes to. -/
def targets (name : String × String) (base : Option Repo) (operands : List Arg) :
    Option (List TaskId) :=
  match operands with
  | [] => (w.ofBranch none).map ([·])
  | first :: later =>
      if name = ("issue", "transfer") then
        if later.head?.any isDestination then (w.selected name.1 base first).map ([·]) else none
      else operands.mapM (w.selected name.1 base)

/-- A merge is not put off. -/
def MergesAtOnce (given : List (Given Flag)) : Prop :=
  isOn .auto given = false ∧ isOn .disableAuto given = false
    ∧ (w.queued = true → isOn .admin given = true)

instance (given : List (Given Flag)) : Decidable (w.MergesAtOnce given) :=
  inferInstanceAs (Decidable (_ ∧ _))

def leaves (verb : String) (given : List (Given Flag)) : Option TaskState :=
  if verb = "close" then some .closed
  else if verb = "reopen" then some .opened
  else if verb = "merge" ∧ w.MergesAtOnce given then some .merged
  else none

/-- What a successful run did; nothing where the run fails. -/
def run (env : Env) (argv : List String) : Option Effect :=
  match invocation argv with
  | .other => if w.others argv then some .idle else none
  | .help => some .idle
  | .refused => none
  | .acts name p =>
      if w.accepts name p then
        (w.targets name (w.baseRepo env p.given) p.operands).map fun tasks =>
          ⟨tasks, w.leaves name.2 p.given⟩
      else none

end World

/-! ### Records by their names -/

theorem Repo.eq_of_ofNames {owner name : Text} {repo : Repo}
    (h : Repo.ofNames owner name = some repo) :
  repo.owner = owner ∧ repo.name = name
  := by
  rw [Repo.ofNames] at h
  split_ifs at h
  cases h
  exact ⟨rfl, rfl⟩

variable {s : Text}

theorem not_mem_of_isName (h : IsName s) {c : Char} (halphanum : c.isAlphanum = false)
    (hmarks : c ∉ ['-', '_', '.']) :
  c ∉ s
  := by
  intro hmem
  obtain hc | hc := h.2 c hmem
  · rw [halphanum] at hc
    cases hc
  · exact hmarks hc

theorem isWhiteSpace_of_isName (h : IsName s) :
  ∀ c ∈ s, isWhiteSpace c = false
  := by
  intro c hc
  obtain hc | hc := h.2 c hc
  · exact WorkingClaim.isWhiteSpace_of_isAlphanum hc
  · have hmarks : ∀ c ∈ ['-', '_', '.'], isWhiteSpace c = false := by decide
    exact hmarks c hc

theorem Repo.isSlug (repo : Repo) :
  TaskRef.IsSlug repo.owner repo.name
  := by
  obtain ⟨howner, hname, -⟩ := repo.named
  refine ⟨howner.1, hname.1, not_mem_of_isName howner (by decide) (by decide),
    not_mem_of_isName hname (by decide) (by decide), ?_⟩
  intro c hc
  obtain hc | hc := List.mem_append.mp hc
  · exact isWhiteSpace_of_isName howner c hc
  · obtain rfl | hc := List.mem_cons.mp hc
    · rfl
    · exact isWhiteSpace_of_isName hname c hc

theorem trimEndGit_of_not_suffix (h : ¬".git".toList <:+ s) :
  TaskRef.trimEndGit s = s
  := by
  rw [TaskRef.trimEndGit, TaskRef.dropGit.eq_2, List.reverse_reverse]
  intro rest hrest
  apply h
  rw [← List.reverse_reverse s, hrest]
  exact ⟨rest.reverse, by simp⟩

theorem not_git_suffix {before name : Text} (h : ¬".git".toList <:+ name) :
  ¬".git".toList <:+ before ++ '/' :: name
  := by
  intro hgit
  obtain hgit | hslash := List.suffix_or_suffix_of_suffix hgit (List.suffix_append before _)
  · obtain heq | hgit := List.suffix_cons_iff.mp hgit
    · cases heq
    · exact h hgit
  · have hmem := hslash.subset List.mem_cons_self
    revert hmem
    decide

/-- The slug of a repository is read as it is. -/
theorem Repo.trimEndGit_slug (repo : Repo) :
  TaskRef.trimEndGit (trim repo.slug) = repo.slug
  := by
  rw [Repo.slug, TaskRef.trim_of_no_space repo.isSlug.no_space]
  exact trimEndGit_of_not_suffix (not_git_suffix repo.named.2.2)

variable {n : ℕ}

/-- The record that the code names is one of a repository exactly if it reads the slug of it. -/
theorem eq_task_iff {scope number : Text} {id : TaskId}
    (h : TaskRef.githubTaskId scope number = some id) (hn : parseU64 (trim number) = some n)
    (repo : Repo) :
  id = repo.task n ↔ TaskRef.trimEndGit (trim scope) = repo.slug
  := by
  obtain ⟨owner, name, n', hscope, -, hn', rfl⟩ := TaskRef.githubTaskId_eq_some.mp h
  obtain rfl : n' = n := Option.some.inj (hn'.symm.trans hn)
  rw [hscope]
  constructor
  · intro heq
    have hkey := String.ofList_injective (TaskId.mk.inj heq).2
    exact TaskRef.githubKey_inj hkey
  · intro heq
    rw [heq]
    rfl

theorem number_of_task {scope number : Text} {repo : Repo} {n' : ℕ}
    (h : TaskRef.githubTaskId scope number = some (repo.task n))
    (hn : parseU64 (trim number) = some n') :
  n = n'
  := by
  obtain ⟨owner, name, m, -, -, hm, heq⟩ := TaskRef.githubTaskId_eq_some.mp h
  obtain rfl : m = n' := Option.some.inj (hm.symm.trans hn)
  have hdigits (n : ℕ) : '#' ∉ (toString n).toList := by
    intro hmem
    cases isDigit_of_mem_toString hmem
  have hkey := String.ofList_injective (TaskId.mk.inj heq).2
  have hnumber := (WorkingClaim.eq_of_last (hdigits m) (hdigits n) hkey).2
  rw [← digitsValue_toString n, ← hnumber, digitsValue_toString]

theorem isDigit_of_parseU64 (h : parseU64 s = some n) :
  ∀ c ∈ s, c.isDigit = true ∨ c = '+'
  := by
  intro c hc
  by_contra hnot
  rw [not_or, Bool.not_eq_true] at hnot
  rw [parseU64_of_mem hc hnot.1 hnot.2] at h
  cases h

theorem isWhiteSpace_of_parseU64 (h : parseU64 s = some n) :
  ∀ c ∈ s, isWhiteSpace c = false
  := by
  intro c hc
  obtain hdigit | rfl := isDigit_of_parseU64 h c hc
  · apply WorkingClaim.isWhiteSpace_of_isAlphanum
    rw [Char.isAlphanum, hdigit, Bool.or_true]
  · rfl

/-- A number names a record of the repository beside it. -/
theorem parseTaskRef_of_number {input : String} (h : parseU64 input.toList = some n)
    (scope : Option String) :
  TaskRef.parseTaskRef input scope
    = scope.bind fun repo => TaskRef.githubTaskId repo.toList input.toList
  := by
  have hnot (c : Char) (hdigit : c.isDigit = false) (hplus : c ≠ '+') : c ∉ input.toList := by
    intro hmem
    rw [parseU64_of_mem hmem hdigit hplus] at h
    cases h
  have hquote : ∀ c ∈ input.toList, isQuote c = false := by
    intro c hc
    obtain hdigit | rfl := isDigit_of_parseU64 h c hc
    · apply TaskRef.isQuote_of_isAlphanum
      rw [Char.isAlphanum, hdigit, Bool.or_true]
    · rfl
  have href : reference input = input.toList := by
    rw [reference, TaskRef.trim_of_no_space (isWhiteSpace_of_parseU64 h)]
    apply TaskRef.trimMatches_eq_self
    · exact fun c hc => hquote c (List.mem_of_mem_head? hc)
    · exact fun c hc => hquote c (List.mem_of_mem_getLast? hc)
  have hnil : input.toList ≠ [] := by
    intro hnil
    rw [hnil] at h
    cases h
  have haddress (host : Text) : TaskRef.stripHost input.toList host = none := by
    rw [Option.eq_none_iff_forall_ne_some]
    intro path hpath
    obtain ⟨scheme, -, www, -, heq⟩ := TaskRef.eq_of_stripHost hpath
    apply hnot '/' (by decide) (by decide)
    rw [heq]
    simp
  have hhash : splitOnce '#' input.toList = none :=
    WorkingClaim.splitOnce_eq_none.mpr (hnot '#' (by decide) (by decide))
  simp only [TaskRef.parseTaskRef, TaskRef.reference_eq, href, hnil, if_false, haddress, hhash, h,
    Option.isSome_some, if_true]

/-- An address on GitHub that the code reads names the same record to it. -/
theorem task_of_address {kinds : List Text} {input : String} {repo : Repo}
    (h : address kinds input.toList = some (repo, n)) {scope : Option String} {id : TaskId}
    (hid : TaskRef.parseTaskRef input scope = some id) :
  id = repo.task n
  := by
  rw [address, String.ofList_toList] at h
  obtain ⟨path, hhost, h⟩ := Option.bind_eq_some_iff.mp h
  rw [TaskRef.parseTaskRef_github hhost, TaskRef.githubFromUrlPath] at hid
  split at h
  · next owner name kind number later hparts =>
      rw [segments] at hparts
      simp only [hparts, Option.ite_none_right_eq_some] at hid
      simp only [Option.ite_none_right_eq_some] at h
      obtain ⟨repo', hrepo, h⟩ := Option.bind_eq_some_iff.mp h.2
      obtain ⟨n', hn, h⟩ := Option.bind_eq_some_iff.mp h
      obtain ⟨rfl, rfl⟩ := Prod.mk.inj (Option.some.inj h)
      obtain ⟨rfl, rfl⟩ := Repo.eq_of_ofNames hrepo
      exact (eq_task_iff hid.2 hn repo').mpr repo'.trimEndGit_slug
  · cases h

end Lazybox.Gh
