import Mathlib.Data.List.Basic
import Lazybox.Core.ProviderOps

/-!
# The key of a workspace

A workspace that was built for a task is stored under a key made from the source and the key of
the task: the two are joined, and every character that is not plain becomes a dash.  A GitHub task
has an owner, a repository and a number, a Linear one a team and a number.
-/

namespace Lazybox

/-- The text without the `c`s at both ends. -/
def trimMatches (c : Char) (s : List Char) : List Char :=
  ((s.dropWhile (· = c)).reverse.dropWhile (· = c)).reverse

def isPlain (c : Char) : Bool := c.isAlphanum || c = '-' || c = '_' || c = '.'

def sanitizeKey (raw : List Char) : List Char :=
  trimMatches '-' (raw.map fun c => if isPlain c then c else '-')

def workspaceKeyForId (id : TaskId) : String :=
  String.ofList (sanitizeKey (id.source.toList ++ '-' :: id.key.toList))

/-! ### The tasks of the providers -/

/-- A pull request or an issue of a GitHub repository. -/
structure GithubRef where
  owner : List Char
  repo : List Char
  number : List Char
  owner_chars : owner ≠ [] ∧ ∀ c ∈ owner, c.isAlphanum ∨ c = '-'
  repo_chars : repo ≠ [] ∧ ∀ c ∈ repo, isPlain c
  number_digits : number ≠ [] ∧ ∀ c ∈ number, c.isDigit

/-- An issue of a Linear team. -/
structure LinearRef where
  team : List Char
  number : List Char
  team_chars : team ≠ [] ∧ ∀ c ∈ team, c.isAlphanum
  number_digits : number ≠ [] ∧ ∀ c ∈ number, c.isDigit

inductive TaskRef where
  | github (r : GithubRef)
  | linear (r : LinearRef)

def TaskRef.id : TaskRef → TaskId
  | .github r => ⟨"github", String.ofList (r.owner ++ '/' :: (r.repo ++ '#' :: r.number))⟩
  | .linear r => ⟨"linear", String.ofList (r.team ++ '-' :: r.number)⟩

/-- Two GitHub tasks of one number, whose owners and repositories are the same text when a dash
stands between them. -/
def TaskRef.Blurred : TaskRef → TaskRef → Prop
  | .github r, .github r' =>
      r.number = r'.number ∧ r.owner ++ '-' :: r.repo = r'.owner ++ '-' :: r'.repo
  | .github _, .linear _ | .linear _, _ => False

/-! ### The texts of the keys -/

/-- A text is split in one way only at the last of its separators. -/
theorem append_cons_inj_of_last {x x' z z' : List Char} {c : Char} (hz : c ∉ z) (hz' : c ∉ z') :
  x ++ c :: z = x' ++ c :: z' ↔ x = x' ∧ z = z'
  := by
  constructor
  · intro h
    obtain ⟨m, hx, hm⟩ | ⟨m, hx, hm⟩ := List.append_eq_append_iff.mp h
    · cases m with
      | nil => simpa [hx] using hm
      | cons d m =>
        rw [List.cons_append, List.cons.injEq] at hm
        apply absurd _ hz
        simp [hm.2]
    · cases m with
      | nil => simpa [hx, eq_comm] using hm
      | cons d m =>
        rw [List.cons_append, List.cons.injEq] at hm
        apply absurd _ hz'
        simp [hm.2]
  · rintro ⟨rfl, rfl⟩
    rfl

variable {s : List Char}

theorem trimMatches_eq_self {c : Char} (head : s.head? ≠ some c) (last : s.getLast? ≠ some c) :
  trimMatches c s = s
  := by
  have hdrop : ∀ s : List Char, s.head? ≠ some c → s.dropWhile (· = c) = s := by
    intro s h
    cases s with
    | nil => rfl
    | cons d s =>
      rw [List.dropWhile_cons_of_neg]
      simpa using h
  rw [trimMatches, hdrop s head, hdrop, List.reverse_reverse]
  rwa [List.head?_reverse]

theorem notMem_dash (h : ∀ c ∈ s, c.isAlphanum) :
  '-' ∉ s
  := by
  intro hdash
  exact absurd (h _ hdash) (by decide)

theorem isAlphanum_of_isDigit (h : ∀ c ∈ s, c.isDigit) :
  ∀ c ∈ s, c.isAlphanum
  := by
  intro c hc
  simp [Char.isAlphanum, h c hc]

theorem isPlain_of_isAlphanum {c : Char} (h : c.isAlphanum) :
  isPlain c
  := by
  simp [isPlain, h]

/-- Plain characters stay as they are. -/
theorem map_plain (h : ∀ c ∈ s, isPlain c) :
  (s.map fun c => if isPlain c then c else '-') = s
  := by
  rw [List.map_congr_left (g := id), List.map_id]
  intro c hc
  rw [if_pos (h c hc)]
  rfl

theorem isPlain_number (h : ∀ c ∈ s, c.isDigit) :
  ∀ c ∈ s, isPlain c
  := by
  intro c hc
  apply isPlain_of_isAlphanum (isAlphanum_of_isDigit h c hc)

/-- What begins with the name of a source and ends in a number has no dashes to trim. -/
theorem sanitizeKey_of_map {raw number : List Char} (digits : number ≠ [] ∧ ∀ c ∈ number, c.isDigit)
    (head : (s ++ '-' :: number).head? ≠ some '-')
    (hmap : (raw.map fun c => if isPlain c then c else '-') = s ++ '-' :: number) :
  sanitizeKey raw = s ++ '-' :: number
  := by
  rw [sanitizeKey, hmap]
  apply trimMatches_eq_self head
  rw [List.append_cons, List.getLast?_append_of_ne_nil _ digits.1]
  intro h
  apply notMem_dash (isAlphanum_of_isDigit digits.2)
  apply List.mem_of_getLast? h

theorem sanitizeKey_github (r : GithubRef) :
  sanitizeKey ("github".toList ++ '-' :: (r.owner ++ '/' :: (r.repo ++ '#' :: r.number)))
    = "github-".toList ++ (r.owner ++ '-' :: r.repo) ++ '-' :: r.number
  := by
  have howner : ∀ c ∈ r.owner, isPlain c := by
    intro c hc
    obtain h | rfl := r.owner_chars.2 c hc
    · apply isPlain_of_isAlphanum h
    · rfl
  apply sanitizeKey_of_map r.number_digits
  · simp
  · rw [List.map_append, List.map_cons, List.map_append, List.map_cons, List.map_append,
      List.map_cons, map_plain howner, map_plain r.repo_chars.2,
      map_plain (isPlain_number r.number_digits.2)]
    simp [isPlain]

theorem sanitizeKey_linear (r : LinearRef) :
  sanitizeKey ("linear".toList ++ '-' :: (r.team ++ '-' :: r.number))
    = "linear-".toList ++ r.team ++ '-' :: r.number
  := by
  have hteam : ∀ c ∈ r.team, isPlain c := fun c hc => isPlain_of_isAlphanum (r.team_chars.2 c hc)
  apply sanitizeKey_of_map r.number_digits
  · simp
  · rw [List.map_append, List.map_cons, List.map_append, List.map_cons, map_plain hteam,
      map_plain (isPlain_number r.number_digits.2)]
    simp [isPlain]

/-- The text of the key of a task, up to its number. -/
def TaskRef.stem : TaskRef → List Char
  | .github r => "github-".toList ++ (r.owner ++ '-' :: r.repo)
  | .linear r => "linear-".toList ++ r.team

def TaskRef.number : TaskRef → List Char
  | .github r => r.number
  | .linear r => r.number

theorem TaskRef.notMem_number (a : TaskRef) :
  '-' ∉ a.number
  := by
  cases a with
  | github r => apply notMem_dash (isAlphanum_of_isDigit r.number_digits.2)
  | linear r => apply notMem_dash (isAlphanum_of_isDigit r.number_digits.2)

theorem workspaceKeyForId_id (a : TaskRef) :
  workspaceKeyForId a.id = String.ofList (a.stem ++ '-' :: a.number)
  := by
  cases a with
  | github r =>
    have hkey : (TaskRef.github r).id.key.toList
        = r.owner ++ '/' :: (r.repo ++ '#' :: r.number) :=
      String.toList_ofList
    rw [workspaceKeyForId, hkey]
    exact congrArg String.ofList (sanitizeKey_github r)
  | linear r =>
    have hkey : (TaskRef.linear r).id.key.toList = r.team ++ '-' :: r.number :=
      String.toList_ofList
    rw [workspaceKeyForId, hkey]
    exact congrArg String.ofList (sanitizeKey_linear r)

/-- The keys of two tasks are the same when their numbers are, and the texts before them. -/
theorem workspaceKeyForId_eq_iff (a b : TaskRef) :
  workspaceKeyForId a.id = workspaceKeyForId b.id ↔ a.stem = b.stem ∧ a.number = b.number
  := by
  rw [workspaceKeyForId_id, workspaceKeyForId_id, String.ofList_inj,
    append_cons_inj_of_last a.notMem_number b.notMem_number]

/-- The keys of different providers begin with different letters. -/
theorem GithubRef.stem_ne_linear (r : GithubRef) (r' : LinearRef) :
  (TaskRef.github r).stem ≠ (TaskRef.linear r').stem
  := by
  intro h
  have h : "github-".toList ++ (r.owner ++ '-' :: r.repo) = "linear-".toList ++ r'.team := h
  simp at h

/-- Two distinct tasks have distinct keys unless the dash blurs their owners and repositories. -/
theorem workspaceKey_distinct_iff {a b : TaskRef} (distinct : a.id ≠ b.id) :
  workspaceKeyForId a.id ≠ workspaceKeyForId b.id ↔ ¬ a.Blurred b
  := by
  rw [Ne, not_iff_not, workspaceKeyForId_eq_iff]
  cases a with
  | github r =>
      cases b with
      | github r' =>
          have hstem : (TaskRef.github r).stem = (TaskRef.github r').stem
              ↔ r.owner ++ '-' :: r.repo = r'.owner ++ '-' :: r'.repo :=
            List.append_right_inj _
          rw [hstem, and_comm]
          exact Iff.rfl
      | linear r' =>
          constructor
          · intro h
            exact r.stem_ne_linear r' h.1
          · exact False.elim
  | linear r =>
      cases b with
      | github r' =>
          constructor
          · intro h
            exact r'.stem_ne_linear r h.1.symm
          · exact False.elim
      | linear r' =>
          constructor
          · intro h
            have hteam : r.team = r'.team := (List.append_right_inj _).mp h.1
            have hnumber : r.number = r'.number := h.2
            apply distinct
            rw [TaskRef.id, TaskRef.id, hteam, hnumber]
          · exact False.elim

/-- An issue of the repository `widget` of `acme-labs`. -/
def acmeLabsWidget : GithubRef where
  owner := "acme-labs".toList
  repo := "widget".toList
  number := "7".toList
  owner_chars := by simp
  repo_chars := by simp [isPlain]
  number_digits := by simp

/-- An issue of the repository `labs-widget` of `acme`. -/
def acmeLabsWidget' : GithubRef where
  owner := "acme".toList
  repo := "labs-widget".toList
  number := "7".toList
  owner_chars := by simp
  repo_chars := by simp [isPlain]
  number_digits := by simp

/-- Two tasks of different owners have one key. -/
theorem acmeLabs_collide :
  (TaskRef.github acmeLabsWidget).id ≠ (TaskRef.github acmeLabsWidget').id
    ∧ workspaceKeyForId (TaskRef.github acmeLabsWidget).id
      = workspaceKeyForId (TaskRef.github acmeLabsWidget').id
  := by
  decide +kernel

/-- An issue of a Linear team has another key than both. -/
theorem workspaceKey_distinct_linear :
  workspaceKeyForId (TaskRef.github acmeLabsWidget).id
    ≠ workspaceKeyForId (TaskRef.linear ⟨"ENG".toList, "7".toList, by simp, by simp⟩).id
  := (workspaceKey_distinct_iff (by decide +kernel)).mpr id

end Lazybox
