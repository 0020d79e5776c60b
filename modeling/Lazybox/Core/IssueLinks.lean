import Lazybox.Core.WorkingClaim
import Lazybox.Library.Bytes
import Mathlib.Data.List.Sort

/-!
# Issue links

The issues a body declares that it closes or waits for: a keyword, and an issue on GitHub or a
ticket right after it.  Keywords are looked for in the body in lower case; at the offset where a
keyword ends there, so many bytes of the body itself are read.

How a character is put in lower case is given (`Lowercasing`).  A part of the body that cannot be
cut out is a panic, and nothing is returned.
-/

namespace Lazybox.IssueLinks

open String (utf8Len)
open ByteOffset
open WorkingClaim (Text stripPrefix lines)

/-- `#123`, `owner/repo#123`, or the key of a ticket. -/
inductive IssueLink where
  | github (repo : Option Text) (number : ℕ)
  | linear (key : Text)
deriving DecidableEq, Ord, Repr

def keywords : List Text :=
  ["close", "closes", "closed", "fix", "fixes", "fixed", "resolve", "resolves", "resolved"].map
    String.toList

/-- What introduces a blocker. -/
def blockedKeywords : List Text :=
  ["blocked by", "blocked-by", "blockedby", "blocked on", "blocked-on", "blockedon", "depends on",
    "depends-on", "dependson"].map String.toList

/-- What introduces a blocker that may be described in prose. -/
def blockedOnKeywords : List Text :=
  ["blocked on", "blocked-on", "blockedon"].map String.toList

/-- The characters of a description. -/
def blockedOnMax : ℕ := 200

/-! ### Lower case -/

/-- What a character turns into, between what stands before it and what stands after it.  No
character but the first of it is an ASCII character. -/
structure Lowercasing where
  lower : Text → Char → Text → Text
  ascii_first : ∀ before c after, ∀ d ∈ (lower before c after).tail, 128 ≤ d.toNat

namespace Lowercasing

/-- The lower case of a text, between what stands before it and what stands after it. -/
def lowerFrom (L : Lowercasing) (before : Text) : Text → Text → Text
  | [], _ => []
  | c :: s, after => L.lower before c (s ++ after) ++ L.lowerFrom (before ++ [c]) s after

def toLowercase (L : Lowercasing) (body : Text) : Text := L.lowerFrom [] body []

end Lowercasing

/-! ### The text after a keyword -/

def isAsciiWhitespace (c : Char) : Bool :=
  c = ' ' || c = '\t' || c = '\n' || c = '\x0c' || c = '\r'

/-- What must follow a keyword. -/
def isSeparator (c : Char) : Bool := isAsciiWhitespace c || c = ':'

/-- An offset, walked back to where the body can be cut, or to `after`. -/
def walkBack (body : Text) (after : ℕ) : ℕ → ℕ
  | 0 => 0
  | stop + 1 =>
      if after < stop + 1 ∧ ¬isCharBoundary body (stop + 1) then walkBack body after stop
      else stop + 1

/-- The text of the body at an offset, up to so many bytes of it. -/
def lookAhead (body : Text) (window after : ℕ) : Option Text :=
  slice body after (walkBack body after (min (after + window) (utf8Len body)))

/-- The texts after the keywords that begin what is left of the lower case of the body, `i` bytes
of which were passed. -/
def tokensAt (body : Text) (window i : ℕ) (left : Text) : List Text → Option (List Text)
  | [] => some []
  | kw :: kws =>
      match stripPrefix kw left with
      | none => tokensAt body window i left kws
      | some [] => some []
      | some (next :: _) =>
          if isSeparator next then do
            let token ← lookAhead body window (i + utf8Len kw)
            let tokens ← tokensAt body window i left kws
            return token :: tokens
          else tokensAt body window i left kws

def tokensFrom (body : Text) (kws : List Text) (window : ℕ) : ℕ → Text → Option (List Text)
  | _, [] => some []
  | i, c :: left => do
      let here ← tokensAt body window i (c :: left) kws
      let later ← tokensFrom body kws window (i + c.utf8Size) left
      return here ++ later

def tokenizeWith (L : Lowercasing) (body : Text) (kws : List Text) (window : ℕ) :
    Option (List Text) :=
  tokensFrom body kws window 0 (L.toLowercase body)

/-! ### Reading a link -/

/-- What may stand between a keyword and a link. -/
def isLeading (c : Char) : Bool := isWhiteSpace c || c = ':'

def takeDigits (s : Text) : Option ℕ :=
  let digits := s.takeWhile Char.isDigit
  if digits = [] then none else parseU64 digits

def isRepoChar (c : Char) : Bool :=
  c.isAlphanum || c = '/' || c = '-' || c = '_' || c = '.'

def splitRepoHash (s : Text) : Option (Text × Text) := do
  let (repo, rest) ← splitOnce '#' s
  if repo.all isRepoChar ∧ '/' ∈ repo then some (repo, rest) else none

def takeLinearKey (s : Text) : Option Text := do
  let team := s.takeWhile Char.isAlpha
  if 2 ≤ team.length ∧ team.length ≤ 10 then
    let rest ← stripPrefix ['-'] (s.drop team.length)
    let digits := rest.takeWhile Char.isDigit
    if digits = [] then none else some (team.map Char.toUpper ++ '-' :: digits)
  else none

def sameRepo (s : Text) : Option IssueLink := do
  let rest ← stripPrefix ['#'] s
  let number ← takeDigits rest
  return .github none number

def crossRepo (s : Text) : Option IssueLink := do
  let (repo, rest) ← splitRepoHash s
  let number ← takeDigits rest
  return .github (some repo) number

/-- The link a text begins with. -/
def readLink (s : Text) : Option IssueLink :=
  (sameRepo s).or ((crossRepo s).or ((takeLinearKey s).map .linear))

def parseLinkAfterKeyword (s : Text) : Option IssueLink := readLink (s.dropWhile isLeading)

/-! ### The links and the reason of a body -/

/-- A sorted set with a link put in. -/
def insert (out : List IssueLink) (link : IssueLink) : List IssueLink :=
  if link ∈ out then out else out.orderedInsert (fun a b => (compare a b).isLE) link

/-- The links after keywords, each once and in order. -/
def linksAfter (kws : List Text) (L : Lowercasing) (body : Text) : Option (List IssueLink) := do
  let tokens ← tokenizeWith L body kws 80
  return (tokens.filterMap parseLinkAfterKeyword).foldl insert []

def extract (L : Lowercasing) (body : Text) : Option (List IssueLink) := linksAfter keywords L body

def extractBlockedBy (L : Lowercasing) (body : Text) : Option (List IssueLink) :=
  linksAfter blockedKeywords L body

/-- The description at the beginning of a text, when no link is there. -/
def reasonOf (token : Text) : Option Text :=
  if (parseLinkAfterKeyword token).isSome then none
  else
    let line := trim ((lines (token.dropWhile isLeading)).headD [])
    if line = [] then none else some (line.take blockedOnMax)

/-- The last description of a blocker. -/
def extractBlockedOn (L : Lowercasing) (body : Text) : Option (Option Text) := do
  let tokens ← tokenizeWith L body blockedOnKeywords (blockedOnMax * 4 + 16)
  return tokens.foldl (fun reason token => (reasonOf token).or reason) none

end Lazybox.IssueLinks
