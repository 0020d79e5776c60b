import Lazybox.GitOps.Output
import Lazybox.Library.Utf8Lossy

/-!
# Diffs

What git prints for a list of changed files, and how it is read back: a file begins with the line
that has both of its names, a hunk with the line that has its two starts, and each line of a hunk is
on the old side, on the new side or on both.

A name is printed as it is, or in quotes with some of its bytes escaped.  The name of a file is read
from the line it begins with and, if there are lines of content, from the line before them.  The
numbers of lines have 32 bits.
-/

namespace Lazybox.Diff

open WorkingClaim (Text stripPrefix)
open scoped WorkingClaim
open GitOps (textLines)
open Utf8Lossy (fromUtf8Lossy encode)

abbrev Bytes := List UInt8

def u32Max : ℕ := 4294967295

/-! ### What is read -/

/-- A line that is on neither side is `info`. -/
inductive DiffLineKind where
  | context
  | addition
  | deletion
  | info
deriving DecidableEq, Repr

structure DiffLine where
  kind : DiffLineKind
  text : Text
  oldLine : Option ℕ
  newLine : Option ℕ
deriving DecidableEq, Repr

structure DiffHunk where
  header : Text
  oldStart : ℕ
  newStart : ℕ
  lines : List DiffLine
deriving DecidableEq, Repr

structure DiffFile where
  oldPath : Option Text
  path : Text
  headers : List Text
  hunks : List DiffHunk
deriving DecidableEq, Repr

/-! ### Names -/

/-- What follows the last place where the separator is. -/
def afterLast (separator : Text) : Text → Option Text
  | [] => none
  | c :: s =>
      match afterLast separator s with
      | some rest => some rest
      | none => stripPrefix separator (c :: s)

/-- A text up to a quotation mark that is not escaped, and the rest. -/
def closing : Bool → Text → Option (Text × Text)
  | _, [] => none
  | true, c :: s => (closing false s).map fun (token, rest) => (c :: token, rest)
  | false, c :: s =>
      if c = '"' then some ([c], s)
      else (closing (c = '\\') s).map fun (token, rest) => (c :: token, rest)

def takeQuotedToken : Text → Option (Text × Text)
  | [] => none
  | c :: s =>
      if c = '"' then (closing false s).map fun (token, rest) => (c :: token, rest) else none

/-- The byte that a letter after a backslash stands for. -/
def unescapeLetter (b : UInt8) : Option UInt8 :=
  if b = 0x61 then some 0x07
  else if b = 0x62 then some 0x08
  else if b = 0x74 then some 0x09
  else if b = 0x6e then some 0x0a
  else if b = 0x76 then some 0x0b
  else if b = 0x66 then some 0x0c
  else if b = 0x72 then some 0x0d
  else if b = 0x5c then some 0x5c
  else if b = 0x22 then some 0x22
  else none

def IsOctal (b : UInt8) : Prop := 0x30 ≤ b ∧ b ≤ 0x37

instance (b : UInt8) : Decidable (IsOctal b) := inferInstanceAs (Decidable (_ ∧ _))

/-- Where the loop of `decode_git_path` is: at a byte, after a backslash, or in a number. -/
inductive Decoding where
  | plain
  | escaped
  | octal (value : UInt8) (digits : ℕ)

def decode : Decoding → Bytes → Option Bytes
  | .plain, [] => some []
  | .escaped, [] => none
  | .octal value _, [] => some [value]
  | .plain, b :: rest =>
      if b = 0x5c then decode .escaped rest else (decode .plain rest).map (b :: ·)
  | .escaped, b :: rest =>
      match unescapeLetter b with
      | some value => (decode .plain rest).map (value :: ·)
      | none => if IsOctal b then decode (.octal (b - 0x30) 1) rest else none
  | .octal value digits, b :: rest =>
      if digits < 3 ∧ IsOctal b then decode (.octal (value * 8 + (b - 0x30)) (digits + 1)) rest
      else if b = 0x5c then (decode .escaped rest).map (value :: ·)
      else (decode .plain rest).map (value :: b :: ·)

/-- What stands between a quotation mark at the start and another at the end. -/
def unquote : Text → Option Text
  | [] => none
  | _ :: s => if s.getLast? = some '"' then some s.dropLast else none

def decodeGitPath (source : Text) : Option Text :=
  if source.head? ≠ some '"' then some source
  else do
    let inner ← unquote source
    let decoded ← decode .plain (encode inner)
    return fromUtf8Lossy decoded

def normalizeDiffPath (path : Text) : Option Text := do
  let path ← decodeGitPath path
  if path = "/dev/null".toList then none
  else
    some (((stripPrefix "a/".toList path).or (stripPrefix "b/".toList path)).getD path)

def diffHeaderPath (header : Text) : Option Text := do
  let paths ← stripPrefix "diff --git ".toList header
  if paths.head? = some '"' then do
    let (_, rest) ← takeQuotedToken paths
    let (newPath, _) ← takeQuotedToken (rest.dropWhile isWhiteSpace)
    normalizeDiffPath newPath
  else afterLast " b/".toList paths

def diffMarkerPath (source : Text) : Option Text := do
  let token ←
    if source.head? = some '"' then (takeQuotedToken source).map Prod.fst
    else some (source.takeWhile (· ≠ '\t'))
  normalizeDiffPath token

/-! ### Numbers -/

def parseU32 (s : Text) : Option ℕ := (parseU64 s).filter (· ≤ u32Max)

def splitWhitespace (s : Text) : List Text := (s.splitOnP isWhiteSpace).filter (· ≠ [])

def parseRangeStart : Text → Option ℕ
  | [] => none
  | c :: s => if c.utf8Size = 1 then parseU32 (s.takeWhile (· ≠ ',')) else none

def parseHunkStarts (header : Text) : ℕ × ℕ :=
  let ranges := (splitWhitespace header).drop 1
  ((ranges[0]?.bind parseRangeStart).getD 0, (ranges[1]?.bind parseRangeStart).getD 0)

/-- `saturating_add(1)`. -/
def next (line : ℕ) : ℕ := min (line + 1) u32Max

/-- A line of a hunk, and the numbers of the lines after it. -/
def hunkLine (line : Text) (oldLine newLine : ℕ) : DiffLine × ℕ × ℕ :=
  if line.head? = some '+' then
    (⟨.addition, line, none, some newLine⟩, oldLine, next newLine)
  else if line.head? = some '-' then
    (⟨.deletion, line, some oldLine, none⟩, next oldLine, newLine)
  else if line.head? = some ' ' then
    (⟨.context, line, some oldLine, some newLine⟩, next oldLine, next newLine)
  else (⟨.info, line, none, none⟩, oldLine, newLine)

/-! ### Files -/

/-- The variables of `parse_unified_diff`. -/
structure Parse where
  files : List DiffFile
  file : Option DiffFile
  hunk : Option DiffHunk
  oldLine : ℕ
  newLine : ℕ

namespace Parse

/-- The file with the hunk that is read. -/
def finishHunk (p : Parse) : Option DiffFile :=
  p.file.map fun file => { file with hunks := file.hunks ++ p.hunk.toList }

def step (p : Parse) (line : Text) : Parse :=
  if "diff --git ".toList <+: line then
    { p with
      files := p.files ++ p.finishHunk.toList
      file := some ⟨none, (diffHeaderPath line).getD [], [line], []⟩
      hunk := none }
  else
    match p.file with
    | none => p
    | some file =>
        if "@@ ".toList <+: line then
          let (oldLine, newLine) := parseHunkStarts line
          { p with
            file := p.finishHunk
            hunk := some ⟨line, oldLine, newLine, []⟩
            oldLine := oldLine
            newLine := newLine }
        else
          match p.hunk with
          | some hunk =>
              let (read, oldLine, newLine) := hunkLine line p.oldLine p.newLine
              { p with
                hunk := some { hunk with lines := hunk.lines ++ [read] }
                oldLine := oldLine
                newLine := newLine }
          | none =>
              let file := { file with headers := file.headers ++ [line] }
              match stripPrefix "--- ".toList line with
              | some path => { p with file := some { file with oldPath := diffMarkerPath path } }
              | none =>
                  match (stripPrefix "+++ ".toList line).bind diffMarkerPath with
                  | some path => { p with file := some { file with path := path } }
                  | none => { p with file := some file }

def finish (p : Parse) : List DiffFile := p.files ++ p.finishHunk.toList

end Parse

def parseUnifiedDiff (source : Text) : List DiffFile :=
  ((textLines source).foldl Parse.step ⟨[], none, none, 0, 0⟩).finish

/-! ### What git prints: names -/

/-- A path: a file has a name. -/
structure Path where
  bytes : Bytes
  nonempty : bytes ≠ []
deriving DecidableEq

section Print

variable (quotePath : Bool)

/-- The bytes that are not printed as they are; `core.quotePath` is about those of no ASCII
character. -/
def mustQuote (b : UInt8) : Bool :=
  b < 0x20 || b = 0x22 || b = 0x5c || b = 0x7f || (quotePath && 0x80 ≤ b)

/-- The letter that stands for a byte after a backslash. -/
def escapeLetter (b : UInt8) : Option UInt8 :=
  if b = 0x07 then some 0x61
  else if b = 0x08 then some 0x62
  else if b = 0x09 then some 0x74
  else if b = 0x0a then some 0x6e
  else if b = 0x0b then some 0x76
  else if b = 0x0c then some 0x66
  else if b = 0x0d then some 0x72
  else if b = 0x5c then some 0x5c
  else if b = 0x22 then some 0x22
  else none

def escape (b : UInt8) : Bytes :=
  if mustQuote quotePath b then
    match escapeLetter b with
    | some letter => [0x5c, letter]
    | none => [0x5c, 0x30 + b / 64, 0x30 + b / 8 % 8, 0x30 + b % 8]
  else [b]

namespace Path

/-- The path is printed in quotes. -/
def quoted (path : Path) : Bool := path.bytes.any (mustQuote quotePath)

/-- A side of the diff and the path on it. -/
def printed (side : String) (path : Path) : Bytes :=
  if path.quoted quotePath then
    0x22 :: (encode side.toList ++ path.bytes.flatMap (escape quotePath) ++ [0x22])
  else encode side.toList ++ path.bytes

end Path

/-! ### What git prints: hunks -/

/-- A line of a file. -/
structure Line where
  bytes : Bytes
  noFeed : 0x0a ∉ bytes
deriving DecidableEq

inductive Edit where
  | context (line : Line)
  | addition (line : Line)
  | deletion (line : Line)
  /-- The line before it ends its version without a line feed. -/
  | noNewline

namespace Edit

def print : Edit → Bytes
  | context line => 0x20 :: line.bytes
  | addition line => 0x2b :: line.bytes
  | deletion line => 0x2d :: line.bytes
  | noNewline => encode "\\ No newline at end of file".toList

def kind : Edit → DiffLineKind
  | context _ => .context
  | addition _ => .addition
  | deletion _ => .deletion
  | noNewline => .info

/-- The line as it is in the old version. -/
def old? : Edit → Option Line
  | context line | deletion line => some line
  | addition _ | noNewline => none

/-- The line as it is in the new version. -/
def new? : Edit → Option Line
  | context line | addition line => some line
  | deletion _ | noNewline => none

end Edit

/-- Edits, the lines before them that no edit is shown of, and what git says they belong to. -/
structure Hunk where
  unchanged : List Line
  edits : List Edit
  function : Option Line

namespace Hunk

/-- The lines of the old version up to the end of the hunk, from the end of the hunk before it. -/
def old (hunk : Hunk) : List Line := hunk.unchanged ++ hunk.edits.filterMap Edit.old?

def new (hunk : Hunk) : List Line := hunk.unchanged ++ hunk.edits.filterMap Edit.new?

/-- Where a number of lines begins after so many others. -/
def printRange (before count : ℕ) : Text :=
  (toString (if count = 0 then before else before + 1)).toList
    ++ if count = 1 then [] else ',' :: (toString count).toList

/-- The line a hunk begins with, after so many lines of both versions. -/
def printHeader (hunk : Hunk) (old new : ℕ) : Bytes :=
  encode ("@@ -".toList
      ++ printRange (old + hunk.unchanged.length) (hunk.edits.filterMap Edit.old?).length
      ++ " +".toList
      ++ printRange (new + hunk.unchanged.length) (hunk.edits.filterMap Edit.new?).length
      ++ " @@".toList)
    ++ hunk.function.elim [] fun line => 0x20 :: line.bytes

def print (hunk : Hunk) (old new : ℕ) : List Bytes :=
  hunk.printHeader old new :: hunk.edits.map Edit.print

end Hunk

def printHunks : List Hunk → ℕ → ℕ → List Bytes
  | [], _, _ => []
  | hunk :: hunks, old, new =>
      hunk.print old new
        ++ printHunks hunks (old + hunk.old.length) (new + hunk.new.length)

/-! ### What git prints: files -/

inductive Kind where
  | modified (path : Path)
  | added (path : Path)
  | deleted (path : Path)
  | renamed (old new : Path)
  | copied (old new : Path)

namespace Kind

def old : Kind → Path
  | modified path | added path | deleted path => path
  | renamed old _ | copied old _ => old

def new : Kind → Path
  | modified path | added path | deleted path => path
  | renamed _ new | copied _ new => new

/-- The path of the file: the old one of one that was deleted. -/
def path : Kind → Path
  | modified path | added path | deleted path => path
  | renamed _ new | copied _ new => new

def oldLabel : Kind → Bytes
  | added _ => encode "/dev/null".toList
  | kind => kind.old.printed quotePath "a/"

def newLabel : Kind → Bytes
  | deleted _ => encode "/dev/null".toList
  | kind => kind.new.printed quotePath "b/"

end Kind

/-- Digits of the mode of a file. -/
abbrev Mode := List (Fin 8)

/-- Digits of the name of an object. -/
abbrev Oid := List (Fin 16)

inductive ExtendedHeader where
  | oldMode (mode : Mode)
  | newMode (mode : Mode)
  | newFileMode (mode : Mode)
  | deletedFileMode (mode : Mode)
  | similarity (percent : ℕ)
  | dissimilarity (percent : ℕ)
  | renameFrom (path : Path)
  | renameTo (path : Path)
  | copyFrom (path : Path)
  | copyTo (path : Path)
  | index (old new : Oid) (mode : Option Mode)

namespace ExtendedHeader

def printMode (mode : Mode) : Text := mode.map fun digit : Fin 8 => Nat.digitChar digit.val

def printOid (oid : Oid) : Text := oid.map fun digit : Fin 16 => Nat.digitChar digit.val

def print : ExtendedHeader → Bytes
  | oldMode mode => encode ("old mode ".toList ++ printMode mode)
  | newMode mode => encode ("new mode ".toList ++ printMode mode)
  | newFileMode mode => encode ("new file mode ".toList ++ printMode mode)
  | deletedFileMode mode => encode ("deleted file mode ".toList ++ printMode mode)
  | similarity percent =>
      encode ("similarity index ".toList ++ (toString percent).toList ++ ['%'])
  | dissimilarity percent =>
      encode ("dissimilarity index ".toList ++ (toString percent).toList ++ ['%'])
  | renameFrom path => encode "rename from ".toList ++ path.printed quotePath ""
  | renameTo path => encode "rename to ".toList ++ path.printed quotePath ""
  | copyFrom path => encode "copy from ".toList ++ path.printed quotePath ""
  | copyTo path => encode "copy to ".toList ++ path.printed quotePath ""
  | index old new mode =>
      encode ("index ".toList ++ printOid old ++ "..".toList ++ printOid new
        ++ mode.elim [] fun mode => ' ' :: printMode mode)

end ExtendedHeader

/-- What is printed of the content: nothing where it did not change. -/
inductive Body where
  | unchanged
  | binary
  | content (first : Hunk) (rest : List Hunk)

structure Change where
  kind : Kind
  extended : List ExtendedHeader
  body : Body

namespace Change

def hunks (change : Change) : List Hunk :=
  match change.body with
  | .unchanged | .binary => []
  | .content first rest => first :: rest

/-- The line before the content that names it on one side, ended by a tab after a space. -/
def marker (sign : String) (label : Bytes) : Bytes :=
  encode sign.toList ++ label ++ if 0x20 ∈ label then [0x09] else []

def printBody (change : Change) : List Bytes :=
  match change.body with
  | .unchanged => []
  | .binary =>
      [encode "Binary files ".toList ++ change.kind.oldLabel quotePath ++ encode " and ".toList
        ++ change.kind.newLabel quotePath ++ encode " differ".toList]
  | .content first rest =>
      marker "--- " (change.kind.oldLabel quotePath)
        :: marker "+++ " (change.kind.newLabel quotePath) :: printHunks (first :: rest) 0 0

def print (change : Change) : List Bytes :=
  (encode "diff --git ".toList ++ change.kind.old.printed quotePath "a/" ++ [0x20]
      ++ change.kind.new.printed quotePath "b/")
    :: change.extended.map (ExtendedHeader.print quotePath) ++ change.printBody quotePath

end Change

/-- A diff, as it is printed. -/
def printDiff (changes : List Change) : Bytes :=
  (changes.flatMap (Change.print quotePath)).flatMap (· ++ [0x0a])

end Print

/-! ### What is to be read -/

/-- What kind of line it is, and its number in the old and in the new version. -/
abbrev Numbers := DiffLineKind × Option ℕ × Option ℕ

/-- The numbers of edits that stand after so many lines of both versions. -/
def numbers : List Edit → ℕ → ℕ → List Numbers
  | [], _, _ => []
  | edit :: edits, old, new =>
      (edit.kind, edit.old?.map fun _ => old + 1, edit.new?.map fun _ => new + 1)
        :: numbers edits (old + edit.old?.toList.length) (new + edit.new?.toList.length)

def hunkNumbers : List Hunk → ℕ → ℕ → List (List Numbers)
  | [], _, _ => []
  | hunk :: hunks, old, new =>
      numbers hunk.edits (old + hunk.unchanged.length) (new + hunk.unchanged.length)
        :: hunkNumbers hunks (old + hunk.old.length) (new + hunk.new.length)

/-- The numbers a line is shown with. -/
def DiffLine.numbers (line : DiffLine) : Numbers := (line.kind, line.oldLine, line.newLine)

/-- The file is shown: under its path, and every line with its numbers. -/
structure Shows (change : Change) (file : DiffFile) : Prop where
  path : encode file.path = change.kind.path.bytes
  numbers : file.hunks.map (fun hunk => hunk.lines.map DiffLine.numbers)
    = hunkNumbers change.hunks 0 0

/-- The line before the content has the path of the file. -/
def Marked (change : Change) : Prop :=
  change.hunks ≠ [] ∧ ∀ path, change.kind ≠ .deleted path

/-- What the line the file begins with leaves no doubt about: both paths are quoted, or neither is
and the path has no place that looks like the start of one. -/
def Plain (quotePath : Bool) (change : Change) (path : Text) : Prop :=
  change.kind.old.quoted quotePath = change.kind.new.quoted quotePath
    ∧ (change.kind.new.quoted quotePath = false → ¬" b/".toList <:+: path)

/-- The path is a text that one of the two lines shows, and no number of a line is too large. -/
structure Legible (quotePath : Bool) (change : Change) : Prop where
  path : ∃ path, encode path = change.kind.path.bytes
    ∧ (Marked change ∨ Plain quotePath change path)
  numbers : ∀ hunk ∈ hunkNumbers change.hunks 0 0, ∀ line ∈ hunk,
    (∀ old ∈ line.2.1, old ≤ u32Max) ∧ ∀ new ∈ line.2.2, new ≤ u32Max

end Lazybox.Diff
