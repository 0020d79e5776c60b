import Lazybox.Core.ClaimLines
import Mathlib.Data.List.DropRight
import Lazybox.Core.Decimal

/-!
# References to records

A reference to a record of a tracker, as a person or an agent writes it: the address of an issue or
a pull request, `owner/repo#N`, a bare number beside a known repository, or an identifier of
Linear.
-/

namespace Lazybox.TaskRef

open WorkingClaim (Text stripPrefix)

def githubSource : String := "github"

def linearSource : String := "linear"

def trimMatches (p : Char → Bool) (s : Text) : Text := (s.dropWhile p).rdropWhile p

/-- A reversed text without the `.git` it ends in, however often it does. -/
def dropGit : Text → Text
  | 't' :: 'i' :: 'g' :: '.' :: rest => dropGit rest
  | s => s

def trimEndGit (s : Text) : Text := (dropGit s.reverse).reverse

def stripHost (raw host : Text) : Option Text := do
  let rest := ((stripPrefix "https://".toList raw).or (stripPrefix "http://".toList raw)).getD raw
  let rest := (stripPrefix "www.".toList rest).getD rest
  stripPrefix ['/'] (← stripPrefix host rest)

def githubTaskId (repo number : Text) : Option TaskId := do
  let repo := trimEndGit (trim repo)
  let (owner, name) ← splitOnce '/' repo
  if owner ≠ [] ∧ name ≠ [] ∧ '/' ∉ name ∧ ¬ repo.any isWhiteSpace then
    let number ← parseU64 (trim number)
    return ⟨githubSource, String.ofList (owner ++ '/' :: name) ++ "#" ++ toString number⟩
  else none

def githubFromUrlPath (path : Text) : Option TaskId :=
  match (path.takeWhile fun c => c ≠ '?' && c ≠ '#').splitOn '/' with
  | owner :: repo :: kind :: number :: _ =>
      if kind = "issues".toList ∨ kind = "pull".toList then
        githubTaskId (owner ++ '/' :: repo) number
      else none
  | _ => none

def linearIdentifier (raw : Text) : Option TaskId := do
  let (team, number) ← splitOnce '-' raw
  if team ≠ [] ∧ team.all Char.isAlphanum ∧ number ≠ [] ∧ number.all Char.isDigit then
    return ⟨linearSource, String.ofList (team.map Char.toUpper ++ '-' :: number)⟩
  else none

def linearFromUrlPath (path : Text) : Option TaskId :=
  match (path.takeWhile fun c => c ≠ '?' && c ≠ '#').splitOn '/' with
  | _ :: kind :: identifier :: _ =>
      if kind = "issue".toList then linearIdentifier identifier else none
  | _ => none

def parseTaskRef (input : String) (defaultRepo : Option String) : Option TaskId :=
  let raw := trimMatches (fun c => c = '<' || c = '>' || c = '\x60') (trim input.toList)
  if raw = [] then none
  else
    match stripHost raw "github.com".toList with
    | some path => githubFromUrlPath path
    | none =>
        match stripHost raw "linear.app".toList with
        | some path => linearFromUrlPath path
        | none =>
            match splitOnce '#' raw with
            | some ([], number) => defaultRepo.bind fun repo => githubTaskId repo.toList number
            | some (repo, number) => githubTaskId repo number
            | none =>
                if (parseU64 raw).isSome then
                  defaultRepo.bind fun repo => githubTaskId repo.toList raw
                else linearIdentifier raw

/-- The `owner/repo` of a record on GitHub. -/
def githubRepoOf (id : TaskId) : Option String :=
  if id.source = githubSource then
    (rsplitOnce '#' id.key.toList).map fun (repo, _) => String.ofList repo
  else none

end Lazybox.TaskRef

/-!
## Keys of references

A reference names a record by the slug of a repository and a number, which `Names` reads off it, or
by the identifier of a ticket.  The key that is made of them is a reference itself.
-/

namespace Lazybox.TaskRef

open WorkingClaim (Text stripPrefix)

variable {input repo number raw host path slug owner name team : Text} {id : TaskId} {n : ℕ}

/-! ### Slugs and identifiers -/

/-- The slug of a repository on GitHub. -/
structure IsSlug (owner name : Text) : Prop where
  owner_ne : owner ≠ []
  name_ne : name ≠ []
  owner_slash : '/' ∉ owner
  name_slash : '/' ∉ name
  no_space : ∀ c ∈ owner ++ '/' :: name, isWhiteSpace c = false

/-- The key of a record on GitHub. -/
def githubKey (slug : Text) (n : ℕ) : Text := slug ++ '#' :: (toString n).toList

/-- The identifier of a ticket. -/
structure IsTicket (team number : Text) : Prop where
  team_ne : team ≠ []
  team_chars : ∀ c ∈ team, c.isAlphanum
  number_ne : number ≠ []
  number_digits : ∀ c ∈ number, c.isDigit

theorem githubTaskId_eq_some :
  githubTaskId repo number = some id
    ↔ ∃ owner name n, trimEndGit (trim repo) = owner ++ '/' :: name ∧ IsSlug owner name
      ∧ parseU64 (trim number) = some n
      ∧ ⟨githubSource, String.ofList (githubKey (owner ++ '/' :: name) n)⟩ = id
  := by
  have hkey (slug : Text) (n : ℕ) :
      String.ofList slug ++ "#" ++ toString n = String.ofList (githubKey slug n) := by
    rw [← String.toList_inj]
    simp [githubKey]
  constructor
  · intro h
    obtain ⟨⟨owner, name⟩, hsplit, h⟩ := Option.bind_eq_some_iff.mp h
    obtain ⟨hrepo, hslash⟩ := WorkingClaim.splitOnce_eq_some.mp hsplit
    dsimp only at h
    split at h
    · next hformed =>
        obtain ⟨howner, hname, hname', hspace⟩ := hformed
        obtain ⟨n, hn, hid⟩ := Option.bind_eq_some_iff.mp h
        refine ⟨owner, name, n, hrepo, ⟨howner, hname, hslash, hname', ?_⟩, hn, ?_⟩
        · intro c hc
          rw [← hrepo] at hc
          rw [Bool.eq_false_iff]
          intro hblank
          apply hspace
          rw [List.any_eq_true]
          exact ⟨c, hc, hblank⟩
        · rw [← hkey]
          apply Option.some.inj hid
    · cases h
  · rintro ⟨owner, name, n, hrepo, hslug, hn, rfl⟩
    have hspace : ¬(owner ++ '/' :: name).any isWhiteSpace := by
      rw [List.any_eq_true]
      rintro ⟨c, hc, hblank⟩
      rw [hslug.no_space c hc] at hblank
      cases hblank
    rw [githubTaskId, hrepo, WorkingClaim.splitOnce_append hslug.owner_slash]
    dsimp only [Option.bind_eq_bind, Option.bind_some]
    rw [if_pos ⟨hslug.owner_ne, hslug.name_ne, hslug.name_slash, hspace⟩, hn, ← hkey]
    rfl

theorem linearIdentifier_eq_some :
  linearIdentifier raw = some id
    ↔ ∃ team number, raw = team ++ '-' :: number ∧ IsTicket team number
      ∧ ⟨linearSource, String.ofList (team.map Char.toUpper ++ '-' :: number)⟩ = id
  := by
  constructor
  · intro h
    obtain ⟨⟨team, number⟩, hsplit, h⟩ := Option.bind_eq_some_iff.mp h
    dsimp only at h
    split at h
    · next hformed =>
        obtain ⟨hteam, hletters, hnumber, hdigits⟩ := hformed
        rw [List.all_eq_true] at hletters hdigits
        exact ⟨team, number, (WorkingClaim.splitOnce_eq_some.mp hsplit).1,
          ⟨hteam, hletters, hnumber, hdigits⟩, Option.some.inj h⟩
    · cases h
  · rintro ⟨team, number, rfl, hticket, rfl⟩
    have hdash : '-' ∉ team := by
      intro hmem
      cases hticket.team_chars _ hmem
    rw [linearIdentifier, WorkingClaim.splitOnce_append hdash]
    dsimp only [Option.bind_eq_bind, Option.bind_some]
    rw [if_pos ⟨hticket.team_ne, List.all_eq_true.mpr hticket.team_chars, hticket.number_ne,
      List.all_eq_true.mpr hticket.number_digits⟩]
    rfl

/-! ### What a reference names -/

def isQuote (c : Char) : Bool := c = '<' || c = '>' || c = '\x60'

/-- A reference without blanks and quotes around it. -/
def reference (input : String) : Text := trimMatches isQuote (trim input.toList)

/-- The segments of the path of an address. -/
def segments (path : Text) : List Text :=
  (path.takeWhile fun c => c ≠ '?' && c ≠ '#').splitOn '/'

/-- A reference is no address on GitHub or Linear. -/
structure NoAddress (raw : Text) : Prop where
  github : stripHost raw "github.com".toList = none
  linear : stripHost raw "linear.app".toList = none

/-- A reference names a repository and a number, as they are written. -/
inductive Names (input : String) (defaultRepo : Option String) : Text → Text → Prop where
  | address {path owner repo kind number : Text} {later : List Text}
      (host : stripHost (reference input) "github.com".toList = some path)
      (parts : segments path = owner :: repo :: kind :: number :: later)
      (kinds : kind = "issues".toList ∨ kind = "pull".toList) :
      Names input defaultRepo (owner ++ '/' :: repo) number
  | slug {repo number : Text} (noAddress : NoAddress (reference input))
      (hash : splitOnce '#' (reference input) = some (repo, number)) (given : repo ≠ []) :
      Names input defaultRepo repo number
  | hash {repo : String} {number : Text} (noAddress : NoAddress (reference input))
      (hash : splitOnce '#' (reference input) = some ([], number))
      (default : defaultRepo = some repo) :
      Names input defaultRepo repo.toList number
  | number {repo : String} {n : ℕ} (noAddress : NoAddress (reference input))
      (noHash : splitOnce '#' (reference input) = none)
      (number : parseU64 (reference input) = some n) (default : defaultRepo = some repo) :
      Names input defaultRepo repo.toList (reference input)

section Parsing

variable {input : String} {defaultRepo : Option String}

theorem reference_eq (input : String) :
  trimMatches (fun c => c = '<' || c = '>' || c = '\x60') (trim input.toList) = reference input
  := rfl

theorem parseTaskRef_nil (h : reference input = []) :
  parseTaskRef input defaultRepo = none
  := by
  simp only [parseTaskRef, reference_eq, h, if_true]

theorem parseTaskRef_github (h : stripHost (reference input) "github.com".toList = some path) :
  parseTaskRef input defaultRepo = githubFromUrlPath path
  := by
  have hne : reference input ≠ [] := by
    intro hnil
    rw [hnil] at h
    cases h
  simp only [parseTaskRef, reference_eq, hne, if_false, h]

theorem parseTaskRef_identifier (hne : reference input ≠ []) (noAddress : NoAddress (reference input))
    (noHash : splitOnce '#' (reference input) = none) (noNumber : parseU64 (reference input) = none) :
  parseTaskRef input defaultRepo = linearIdentifier (reference input)
  := by
  simp only [parseTaskRef, reference_eq, hne, if_false, noAddress.github, noAddress.linear, noHash,
    noNumber, Option.isSome_none, Bool.false_eq_true]

/-- A reference that names a repository is read as a record of it. -/
theorem Names.parse (h : Names input defaultRepo repo number) :
  parseTaskRef input defaultRepo = githubTaskId repo number
  := by
  cases h with
  | @address path owner repo kind number later host parts kinds =>
    rw [segments] at parts
    rw [parseTaskRef_github host, githubFromUrlPath, parts]
    apply if_pos kinds
  | slug noAddress hash given =>
    have hne : reference input ≠ [] := by
      intro hnil
      rw [hnil] at hash
      cases hash
    simp only [parseTaskRef, reference_eq, hne, if_false, noAddress.github, noAddress.linear, hash]
  | hash noAddress hash default =>
    have hne : reference input ≠ [] := by
      intro hnil
      rw [hnil] at hash
      cases hash
    simp only [parseTaskRef, reference_eq, hne, if_false, noAddress.github, noAddress.linear, hash,
      default, Option.bind_some]
  | number noAddress noHash number default =>
    have hne : reference input ≠ [] := by
      intro hnil
      rw [hnil] at number
      cases number
    simp only [parseTaskRef, reference_eq, hne, if_false, noAddress.github, noAddress.linear,
      noHash, number, Option.isSome_some, if_true, default, Option.bind_some]

theorem exists_of_githubFromUrlPath (h : githubFromUrlPath path = some id) :
  ∃ owner repo kind number later, segments path = owner :: repo :: kind :: number :: later
    ∧ (kind = "issues".toList ∨ kind = "pull".toList)
  := by
  rw [githubFromUrlPath] at h
  split at h
  · next owner repo kind number later hparts =>
      split at h
      · next hkinds => exact ⟨owner, repo, kind, number, later, hparts, hkinds⟩
      · cases h
  · cases h

theorem exists_of_linearFromUrlPath (h : linearFromUrlPath path = some id) :
  ∃ raw, linearIdentifier raw = some id
  := by
  rw [linearFromUrlPath] at h
  split at h
  · next identifier _ _ =>
      split at h
      · exact ⟨identifier, h⟩
      · cases h
  · cases h

/-- A reference that names no repository is an address on Linear or the identifier of a ticket. -/
theorem linear_of_parse (h : parseTaskRef input defaultRepo = some id)
    (hnot : ∀ repo number, ¬Names input defaultRepo repo number) :
  (∃ path, stripHost (reference input) "linear.app".toList = some path
      ∧ linearFromUrlPath path = some id)
    ∨ linearIdentifier (reference input) = some id
  := by
  have hne : reference input ≠ [] := by
    intro hnil
    rw [parseTaskRef_nil hnil] at h
    cases h
  cases hgithub : stripHost (reference input) "github.com".toList with
  | some path =>
    rw [parseTaskRef_github hgithub] at h
    obtain ⟨owner, repo, kind, number, later, hparts, hkinds⟩ := exists_of_githubFromUrlPath h
    cases hnot _ _ (.address hgithub hparts hkinds)
  | none =>
    cases hlinear : stripHost (reference input) "linear.app".toList with
    | some path =>
      simp only [parseTaskRef, reference_eq, hne, if_false, hgithub, hlinear] at h
      left
      exact ⟨path, rfl, h⟩
    | none =>
      have noAddress : NoAddress (reference input) := ⟨hgithub, hlinear⟩
      right
      cases hhash : splitOnce '#' (reference input) with
      | some parts =>
        obtain ⟨repo, number⟩ := parts
        cases repo with
        | nil =>
          simp only [parseTaskRef, reference_eq, hne, if_false, hgithub, hlinear, hhash] at h
          obtain ⟨repo, hdefault, -⟩ := Option.bind_eq_some_iff.mp h
          cases hnot _ _ (.hash noAddress hhash hdefault)
        | cons c repo =>
          cases hnot _ _ (.slug noAddress hhash (List.cons_ne_nil c repo))
      | none =>
        cases hnumber : parseU64 (reference input) with
        | some n =>
          simp only [parseTaskRef, reference_eq, hne, if_false, hgithub, hlinear, hhash,
            hnumber, Option.isSome_some, if_true] at h
          obtain ⟨repo, hdefault, -⟩ := Option.bind_eq_some_iff.mp h
          cases hnot _ _ (.number noAddress hhash hnumber hdefault)
        | none =>
          rw [parseTaskRef_identifier hne noAddress hhash hnumber] at h
          exact h

/-- A reference that names no repository is read as a ticket. -/
theorem exists_linear (h : parseTaskRef input defaultRepo = some id)
    (hnot : ∀ repo number, ¬Names input defaultRepo repo number) :
  ∃ raw, linearIdentifier raw = some id
  := by
  obtain ⟨path, -, hpath⟩ | hraw := linear_of_parse h hnot
  · exact exists_of_linearFromUrlPath hpath
  · exact ⟨reference input, hraw⟩

/-- A key ends in a digit. -/
theorem exists_last_digit (h : parseTaskRef input defaultRepo = some id) :
  (id.source = githubSource ∨ id.source = linearSource)
    ∧ ∃ init d, id.key.toList = init ++ [d] ∧ d.isDigit
  := by
  have hlast (c : Char) {init digits : Text} (hne : digits ≠ [])
      (hdigits : ∀ c ∈ digits, c.isDigit) :
      ∃ init' d, init ++ c :: digits = init' ++ [d] ∧ d.isDigit := by
    use init ++ c :: digits.dropLast, digits.getLast hne
    rw [List.append_assoc, List.cons_append, List.dropLast_append_getLast]
    exact ⟨rfl, hdigits _ (List.getLast_mem hne)⟩
  by_cases hnames : ∃ repo number, Names input defaultRepo repo number
  · obtain ⟨repo, number, hnames⟩ := hnames
    rw [hnames.parse, githubTaskId_eq_some] at h
    obtain ⟨owner, name, n, -, -, -, rfl⟩ := h
    refine ⟨.inl rfl, ?_⟩
    rw [String.toList_ofList]
    apply hlast '#' (toList_toString_ne_nil n) fun c => isDigit_of_mem_toString
  · have hnot : ∀ repo number, ¬Names input defaultRepo repo number := by
      intro repo number hrepo
      apply hnames ⟨repo, number, hrepo⟩
    obtain ⟨raw, hraw⟩ := exists_linear h hnot
    obtain ⟨team, number, -, hticket, rfl⟩ := linearIdentifier_eq_some.mp hraw
    refine ⟨.inr rfl, ?_⟩
    rw [String.toList_ofList]
    apply hlast '-' hticket.number_ne hticket.number_digits

end Parsing

end Lazybox.TaskRef
