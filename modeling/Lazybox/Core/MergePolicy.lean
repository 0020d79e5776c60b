import Lazybox.Core.ProviderOps

/-!
# Merge policy

When a pull request may be merged: by hand, and by the daemon on its own.  A gate answers with
the reason it is shut, or with nothing.  The gate of automatic merging is the stricter one: the
workspace has to be armed, the pull request has to be one's own or that of an author opted in,
and its checks have to have passed.

Of a pull request only the facts that merging reads are kept.
-/

namespace Lazybox

inductive TaskRole where
  | author | reviewer | assignee | mentioned | observer
deriving DecidableEq, Repr

inductive CiStatus where
  | none | pending | running | success | failure | mixed
deriving DecidableEq, Repr

inductive ReviewStatus where
  | none | pending | approved | changesRequested
deriving DecidableEq, Repr

inductive ReviewState where
  | approved | changesRequested | commented | pending
deriving DecidableEq, Repr

structure Reviewer where
  login : String
  state : ReviewState
  isBot : Bool
deriving DecidableEq, Repr

inductive Mergeable where
  | unknown | mergeable | conflicting
deriving DecidableEq, Repr

def Mergeable.isConflicting (m : Mergeable) : Bool := m = .conflicting

inductive ApprovalPolicy where
  | default | human
deriving DecidableEq, Repr

/-- A pull request, as far as merging reads it. -/
structure PullRequest where
  id : TaskId
  nodeId : Option String
  repo : Option String
  baseBranch : Option String
  author : String
  role : TaskRole
  state : TaskState
  ci : CiStatus
  review : ReviewStatus
  reviews : List Reviewer
  approvalPolicy : ApprovalPolicy
  mergeable : Mergeable
  mergeBlocked : Bool
  autoMergeEnabled : Bool
  isInMergeQueue : Bool
deriving DecidableEq, Repr

def PullRequest.hasHumanApproval (pr : PullRequest) : Bool :=
  pr.reviews.any fun r => r.state = .approved && !r.isBot

structure WorkspaceKey where
  asStr : String
deriving DecidableEq, Repr

/-- A workspace, as far as merging reads it. -/
structure Workspace where
  key : WorkspaceKey
  pr : Option PullRequest
  autoMergeOnGreen : Bool
  /-- It was lazybox that turned on GitHub's own auto-merge. -/
  nativeAutoMergeByLazybox : Bool
deriving DecidableEq, Repr

/-! ### Text -/

/-- The characters `trim` removes. -/
def isWhiteSpace (c : Char) : Bool :=
  let n := c.toNat
  (9 ≤ n && n ≤ 13) || n = 0x20 || n = 0x85 || n = 0xA0 || n = 0x1680
    || (0x2000 ≤ n && n ≤ 0x200A) || n = 0x2028 || n = 0x2029 || n = 0x202F
    || n = 0x205F || n = 0x3000

/-- The text with the white space at both ends removed. -/
def trim (s : List Char) : List Char :=
  ((s.dropWhile isWhiteSpace).reverse.dropWhile isWhiteSpace).reverse

/-- A reversed login without the `[bot]` it ends in, however often it does. -/
def dropBot : List Char → List Char
  | ']' :: 't' :: 'o' :: 'b' :: '[' :: rest => dropBot rest
  | s => s

def toAsciiLowercase (s : List Char) : List Char := s.map Char.toLower

def normalizeAuthor (login : String) : String :=
  String.ofList (toAsciiLowercase (dropBot (trim login.toList).reverse).reverse)

/-- The texts before and after the first `c`. -/
def splitOnce (c : Char) : List Char → Option (List Char × List Char)
  | [] => none
  | d :: s =>
      if d = c then some ([], s)
      else (splitOnce c s).map fun (before, after) => (d :: before, after)

/-- The texts before and after the last `c`. -/
def rsplitOnce (c : Char) (s : List Char) : Option (List Char × List Char) :=
  (splitOnce c s.reverse).map fun (after, before) => (before.reverse, after.reverse)

/-- The number decimal digits denote. -/
def digitsValue (s : List Char) : ℕ :=
  s.foldl (fun n c => 10 * n + (c.toNat - '0'.toNat)) 0

/-- An unsigned number of 64 bits, with or without a leading plus sign. -/
def parseU64 (s : List Char) : Option ℕ :=
  let digits := if s.head? = some '+' then s.tail else s
  if digits ≠ [] ∧ digits.all Char.isDigit ∧ digitsValue digits < 18446744073709551616 then
    some (digitsValue digits)
  else none

/-- The owner, the name and the number of a pull request on GitHub. -/
def githubTarget (pr : PullRequest) : Option (String × String × ℕ) := do
  let repo ← pr.repo
  let (owner, name) ← splitOnce '/' repo.toList
  let (_, n) ← rsplitOnce '#' pr.id.key.toList
  let number ← parseU64 n
  return (String.ofList owner, String.ofList name, number)

/-! ### The gates -/

/-- The authors, besides oneself, whose pull requests may be merged automatically.  Without a
list, everyone is. -/
structure MergeOnGreenPolicy where
  allow : Option (List String)
deriving DecidableEq, Repr

namespace MergeOnGreenPolicy

def fromAllowAuthors (authors : List String) : MergeOnGreenPolicy where
  allow := some ((authors.map normalizeAuthor).filter (· ≠ ""))

def allowAll : MergeOnGreenPolicy where
  allow := none

def allowsAuthor (policy : MergeOnGreenPolicy) (login : String) : Bool :=
  match policy.allow with
  | none => true
  | some authors => normalizeAuthor login ≠ "" && authors.contains (normalizeAuthor login)

end MergeOnGreenPolicy

def NON_AUTHOR_BLOCK : String := "only your own PRs auto-merge"

def approvalPolicyBlocks (pr : PullRequest) : Option String :=
  match pr.approvalPolicy with
  | .default => none
  | .human =>
      if pr.hasHumanApproval then none
      else some "a human approval is required by this repo's policy"

def authorGateBlocks (pr : PullRequest) (policy : MergeOnGreenPolicy) : Bool :=
  pr.role ≠ .author && !policy.allowsAuthor pr.author

def mergeBlockReason (pr : PullRequest) : Option String :=
  if ¬ (pr.state = .opened ∨ pr.state = .inReview) then some "the PR isn't open"
  else if pr.review = .changesRequested then
    some "changes were requested — address the review first"
  else if let some reason := approvalPolicyBlocks pr then some reason
  else if ¬ (pr.ci = .success ∨ pr.ci = .none) then some "CI isn't green yet"
  else if pr.mergeable.isConflicting then some "the branch has merge conflicts"
  else if pr.mergeBlocked then
    some ("a repository rule blocks the merge — required reviews, checks, or signatures "
      ++ "aren't satisfied")
  else none

def autoMergeBlockReason (ws : Workspace) (policy : MergeOnGreenPolicy) : Option String :=
  if !ws.autoMergeOnGreen then some "auto-merge on green isn't armed"
  else match ws.pr with
  | none => some "the workspace has no PR"
  | some pr =>
      if pr.autoMergeEnabled then
        some (if ws.nativeAutoMergeByLazybox then
            "GitHub's native auto-merge — armed by lazybox — will land it"
          else "GitHub's native auto-merge is already enabled")
      else if authorGateBlocks pr policy then some NON_AUTHOR_BLOCK
      else if pr.ci ≠ .success then some "CI isn't green"
      else mergeBlockReason pr

def shouldAutoMerge (ws : Workspace) (policy : MergeOnGreenPolicy) : Bool :=
  (autoMergeBlockReason ws policy).isNone

end Lazybox
