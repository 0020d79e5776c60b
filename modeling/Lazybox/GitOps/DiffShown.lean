import Lazybox.Core.ClaimLines
import Lazybox.Core.Decimal
import Lazybox.GitOps.DiffNames

/-!
# What diffs show

A diff that is printed and read back has one file for each that changed, in their order.  Each is
under its path, and each line has its numbers, exactly if the path is a text, one of the lines that
name it leaves no doubt about it, and no number is too large for 32 bits.
-/

namespace Lazybox.Diff

open WorkingClaim (Text stripPrefix splitLines unlines)
open scoped WorkingClaim
open GitOps (textLines)
open Utf8Lossy (fromUtf8Lossy encode)

variable {quotePath : Bool}

/-! ### Lines -/

/-- A line without the carriage return it ends in. -/
def chomp (line : Text) : Text := if line.getLast? = some '\r' then line.dropLast else line

theorem textLines_unlines {texts : List Text} (h : ∀ t ∈ texts, '\n' ∉ t) :
  textLines (unlines texts) = texts.map chomp
  := by
  have hpieces : texts.flatMap splitLines = texts := by
    induction texts with
    | nil => rfl
    | cons t texts ih =>
      rw [List.forall_mem_cons] at h
      rw [List.flatMap_cons, WorkingClaim.splitLines_of_notMem h.1, ih h.2,
        List.singleton_append]
  rw [textLines, WorkingClaim.splitLines_unlines, hpieces]
  simp [chomp]

theorem chomp_append (before : Text) {after : Text} (h : after ≠ []) :
  chomp (before ++ after) = before ++ chomp after
  := by
  rw [chomp, chomp, List.getLast?_append_of_ne_nil _ h, List.dropLast_append_of_ne_nil h]
  split_ifs <;> rfl

theorem chomp_of_notMem {line : Text} (h : '\r' ∉ line) :
  chomp line = line
  := by
  rw [chomp, if_neg]
  intro hlast
  apply h (List.mem_of_getLast? hlast)

theorem fromUtf8Lossy_lines (lines : List Bytes) :
  fromUtf8Lossy (lines.flatMap (· ++ [0x0a])) = unlines (lines.map fromUtf8Lossy)
  := by
  induction lines with
  | nil => rfl
  | cons line lines ih =>
    rw [List.flatMap_cons, List.append_assoc, List.singleton_append,
      Utf8Lossy.fromUtf8Lossy_append, Utf8Lossy.fromUtf8Lossy_cons, ih]
    · simp [unlines]
    · decide
    · simp

/-- The lines of what is printed. -/
theorem textLines_printed {lines : List Bytes} (h : ∀ line ∈ lines, 0x0a ∉ line) :
  textLines (fromUtf8Lossy (lines.flatMap (· ++ [0x0a])))
    = lines.map fun line => chomp (fromUtf8Lossy line)
  := by
  rw [fromUtf8Lossy_lines, textLines_unlines, List.map_map]
  · rfl
  · intro t ht hfeed
    obtain ⟨line, hline, rfl⟩ := List.mem_map.mp ht
    obtain ⟨b, hb, hvalue⟩ := Utf8Lossy.exists_of_mem_fromUtf8Lossy (by decide) hfeed
    have hfeed : b = 0x0a := UInt8.toNat_inj.mp hvalue
    apply h line hline
    rwa [hfeed] at hb

/-- A printed line, as it is read. -/
def lineText (line : Bytes) : Text := chomp (fromUtf8Lossy line)

variable {line : Bytes}

theorem lineText_of_le (h : ∀ x ∈ line, 0x0d ≠ x) :
  lineText line = fromUtf8Lossy line
  := by
  apply chomp_of_notMem
  apply notMem_fromUtf8Lossy (by decide)
  intro x hx hvalue
  exact h x hx (UInt8.toNat_inj.mp hvalue.symm)

/-- What a line begins with, it begins with when it is read. -/
theorem exists_lineText {start rest : Text} (h : fromUtf8Lossy line = start ++ rest)
    (hreturn : '\r' ∉ start) :
  ∃ rest', lineText line = start ++ rest'
  := by
  rw [lineText, h]
  by_cases hrest : rest = []
  · use []
    rw [hrest, List.append_nil, chomp_of_notMem hreturn]
  · use chomp rest
    rw [chomp_append start hrest]

/-- What the line of an edit begins with. -/
def Edit.sign : Edit → Char
  | context _ => ' '
  | addition _ => '+'
  | deletion _ => '-'
  | noNewline => '\\'

theorem Edit.exists_lineText (edit : Edit) :
  ∃ rest, lineText edit.print = edit.sign :: rest
  := by
  have hstart : ∃ rest, fromUtf8Lossy edit.print = [edit.sign] ++ rest := by
    cases edit with
    | noNewline => exact ⟨_, Utf8Lossy.fromUtf8Lossy_encode _⟩
    | context line => exact ⟨_, Utf8Lossy.fromUtf8Lossy_cons (by decide) _⟩
    | addition line => exact ⟨_, Utf8Lossy.fromUtf8Lossy_cons (by decide) _⟩
    | deletion line => exact ⟨_, Utf8Lossy.fromUtf8Lossy_cons (by decide) _⟩
  obtain ⟨rest, hrest⟩ := hstart
  apply Diff.exists_lineText hrest
  cases edit <;> simp [sign]

/-! ### The line a hunk begins with -/

theorem isDigit_toString {c : Char} {n : ℕ} (h : c ∈ (toString n).toList) :
  isWhiteSpace c = false ∧ c ≠ ','
  := by
  have hdigit := Char.isDigit_iff_toNat.mp (isDigit_of_mem_toString h)
  constructor
  · rw [isWhiteSpace]
    simp only [Bool.or_eq_false_iff, Bool.and_eq_false_iff, decide_eq_false_iff_not]
    have hzero : '0'.toNat = 48 := rfl
    have hnine : '9'.toNat = 57 := rfl
    omega
  · rintro rfl
    revert hdigit
    decide

theorem parseU32_toString (n : ℕ) :
  parseU32 (toString n).toList = if n ≤ u32Max then some n else none
  := by
  have hdigits : ∀ c ∈ (toString n).toList, c.isDigit := fun c => isDigit_of_mem_toString
  rw [parseU32, parseU64_of_isDigit (toList_toString_ne_nil n) hdigits, digitsValue_toString]
  split_ifs with hlarge hsmall hsmall
  · simp [hsmall]
  · simpa using Nat.lt_of_not_le hsmall
  · rw [u32Max] at hsmall
    omega
  · rfl

/-- What a side of a hunk is read to begin with. -/
def readStart (before count : ℕ) : ℕ :=
  if (if count = 0 then before else before + 1) ≤ u32Max then
    if count = 0 then before else before + 1
  else 0

theorem parseRangeStart_printRange {sign : Char} (hsign : sign.utf8Size = 1) (before count : ℕ) :
  (parseRangeStart (sign :: Hunk.printRange before count)).getD 0 = readStart before count
  := by
  have htake : (Hunk.printRange before count).takeWhile (· ≠ ',')
      = (toString (if count = 0 then before else before + 1)).toList := by
    rw [Hunk.printRange, List.takeWhile_append_of_pos]
    · split_ifs <;> simp
    · intro c hc
      exact decide_eq_true (isDigit_toString hc).2
  rw [parseRangeStart, if_pos hsign, htake, parseU32_toString, readStart]
  generalize (if count = 0 then before else before + 1) = start
  split_ifs <;> rfl

theorem splitWhitespace_cons {word : Text} (hword : ∀ c ∈ word, isWhiteSpace c = false)
    (hne : word ≠ []) (rest : Text) :
  splitWhitespace (word ++ ' ' :: rest) = word :: splitWhitespace rest
  := by
  rw [splitWhitespace, List.splitOnP_append_cons _ _ (by decide),
    List.splitOnP_eq_singleton hword, List.singleton_append, splitWhitespace,
    List.filter_cons_of_pos (by simpa using hne)]

theorem not_isWhiteSpace_of_mem_range {c : Char} {before count : ℕ}
    (h : c ∈ Hunk.printRange before count) :
  isWhiteSpace c = false
  := by
  rw [Hunk.printRange] at h
  obtain h | h := List.mem_append.mp h
  · exact (isDigit_toString h).1
  · split_ifs at h
    · cases h
    · obtain rfl | h := List.mem_cons.mp h
      · rfl
      · exact (isDigit_toString h).1

/-- The two starts are read. -/
theorem parseHunkStarts_printHeader (hunk : Hunk) (old new : ℕ) :
  "@@ ".toList <+: lineText (hunk.printHeader old new)
    ∧ parseHunkStarts (lineText (hunk.printHeader old new))
      = (readStart (old + hunk.unchanged.length) (hunk.edits.filterMap Edit.old?).length,
        readStart (new + hunk.unchanged.length) (hunk.edits.filterMap Edit.new?).length)
  := by
  generalize hold : Hunk.printRange (old + hunk.unchanged.length)
    (hunk.edits.filterMap Edit.old?).length = oldRange
  generalize hnew : Hunk.printRange (new + hunk.unchanged.length)
    (hunk.edits.filterMap Edit.new?).length = newRange
  have holdSpace : ∀ c ∈ oldRange, isWhiteSpace c = false := by
    intro c hc
    rw [← hold] at hc
    exact not_isWhiteSpace_of_mem_range hc
  have hnewSpace : ∀ c ∈ newRange, isWhiteSpace c = false := by
    intro c hc
    rw [← hnew] at hc
    exact not_isWhiteSpace_of_mem_range hc
  have htext : ∃ rest, lineText (hunk.printHeader old new)
      = ("@@ -".toList ++ oldRange ++ " +".toList ++ newRange ++ " @@".toList) ++ rest := by
    apply exists_lineText
    · rw [Hunk.printHeader, Utf8Lossy.fromUtf8Lossy_encode_append, hold, hnew]
    · have holdReturn : '\r' ∉ oldRange := fun h => absurd (holdSpace _ h) (by decide)
      have hnewReturn : '\r' ∉ newRange := fun h => absurd (hnewSpace _ h) (by decide)
      simp [holdReturn, hnewReturn]
  obtain ⟨rest, htext⟩ := htext
  have hwords : lineText (hunk.printHeader old new)
      = "@@".toList ++ ' ' :: (('-' :: oldRange) ++ ' ' :: (('+' :: newRange)
        ++ ' ' :: ("@@".toList ++ rest))) := by
    rw [htext]
    simp
  constructor
  · rw [hwords]
    simp
  · rw [hwords, parseHunkStarts, splitWhitespace_cons (by decide) (by simp),
      splitWhitespace_cons _ (by simp), splitWhitespace_cons _ (by simp)]
    · simp only [List.drop_succ_cons, List.drop_zero, List.getElem?_cons_zero,
        List.getElem?_cons_succ, Option.bind_some]
      rw [← hold, ← hnew, parseRangeStart_printRange (by decide),
        parseRangeStart_printRange (by decide)]
    · rw [List.forall_mem_cons]
      exact ⟨rfl, hnewSpace⟩
    · rw [List.forall_mem_cons]
      exact ⟨rfl, holdSpace⟩

/-! ### Steps -/

/-- What begins so is neither a file, nor a hunk, nor the name of a side. -/
def Inert (start : Text) : Prop :=
  ∀ sign ∈ ["diff --git ".toList, "@@ ".toList, "--- ".toList, "+++ ".toList],
    ¬sign <+: start ∧ ¬start <+: sign

instance (start : Text) : Decidable (Inert start) :=
  inferInstanceAs (Decidable (∀ _ ∈ _, _))

theorem Inert.not_prefix {start : Text} (h : Inert start) (rest : Text) {sign : Text}
    (hsign : sign ∈ ["diff --git ".toList, "@@ ".toList, "--- ".toList, "+++ ".toList]) :
  ¬sign <+: start ++ rest
  := by
  intro hprefix
  obtain hshort | hlong := List.prefix_or_prefix_of_prefix hprefix (List.prefix_append start rest)
  · exact (h sign hsign).1 hshort
  · exact (h sign hsign).2 hlong

namespace Parse

/-- A file is read, none of its hunks yet. -/
structure Opened (files : List DiffFile) (path : Text) (p : Parse) : Prop where
  files : p.files = files
  hunk : p.hunk = none
  file : ∃ file, p.file = some file ∧ file.path = path ∧ file.hunks = []

theorem opened_step (p : Parse) {line : Text} (h : "diff --git ".toList <+: line) :
  Opened p.finish ((diffHeaderPath line).getD []) (p.step line)
  := by
  rw [step, if_pos h]
  constructor
  · rfl
  · rfl
  · exact ⟨_, rfl, rfl, rfl⟩

theorem Opened.step_inert {files : List DiffFile} {path : Text} {p : Parse}
    (h : Opened files path p) {start : Text} (hstart : Inert start) (rest : Text) :
  Opened files path (p.step (start ++ rest))
  := by
  obtain ⟨hfiles, hhunk, file, hfile, hpath, hhunks⟩ := h
  have hminus : stripPrefix "--- ".toList (start ++ rest) = none :=
    if_neg (hstart.not_prefix rest (by simp))
  have hplus : stripPrefix "+++ ".toList (start ++ rest) = none :=
    if_neg (hstart.not_prefix rest (by simp))
  rw [step, if_neg (hstart.not_prefix rest (by simp)), hfile]
  simp only [hhunk, if_neg (hstart.not_prefix rest (show "@@ ".toList ∈ _ by simp)), hminus, hplus,
    Option.bind_none]
  constructor
  · exact hfiles
  · rfl
  · exact ⟨_, rfl, hpath, hhunks⟩

/-- The line that names the old side. -/
theorem Opened.step_old {files : List DiffFile} {path : Text} {p : Parse}
    (h : Opened files path p) (rest : Text) :
  Opened files path (p.step ("--- ".toList ++ rest))
  := by
  obtain ⟨hfiles, hhunk, file, hfile, hpath, hhunks⟩ := h
  have hgit : ¬"diff --git ".toList <+: "--- ".toList ++ rest := by simp
  have hat : ¬"@@ ".toList <+: "--- ".toList ++ rest := by simp
  rw [step, if_neg hgit, hfile]
  simp only [hhunk, if_neg hat, stripPrefix_append]
  constructor
  · exact hfiles
  · rfl
  · exact ⟨_, rfl, hpath, hhunks⟩

/-- The line that names the new side, and the file if it has a name there. -/
theorem Opened.step_new {files : List DiffFile} {path : Text} {p : Parse}
    (h : Opened files path p) (rest : Text) :
  Opened files ((diffMarkerPath rest).getD path) (p.step ("+++ ".toList ++ rest))
  := by
  obtain ⟨hfiles, hhunk, file, hfile, hpath, hhunks⟩ := h
  have hgit : ¬"diff --git ".toList <+: "+++ ".toList ++ rest := by simp
  have hat : ¬"@@ ".toList <+: "+++ ".toList ++ rest := by simp
  have hold : stripPrefix "--- ".toList ("+++ ".toList ++ rest) = none := if_neg (by simp)
  rw [step, if_neg hgit, hfile]
  simp only [hhunk, if_neg hat, hold, stripPrefix_append, Option.bind_some]
  cases hmarker : diffMarkerPath rest with
  | some path' =>
    constructor
    · exact hfiles
    · rfl
    · exact ⟨_, rfl, rfl, hhunks⟩
  | none =>
    constructor
    · exact hfiles
    · rfl
    · exact ⟨_, rfl, hpath, hhunks⟩

/-! ### Hunks -/

/-- A file is read with some of its hunks. -/
structure Reading (files : List DiffFile) (path : Text) (hunks : List (List Numbers))
    (p : Parse) : Prop where
  files : p.files = files
  file : ∃ file, p.finishHunk = some file ∧ file.path = path
    ∧ file.hunks.map (fun hunk => hunk.lines.map DiffLine.numbers) = hunks

theorem Opened.reading {files : List DiffFile} {path : Text} {p : Parse} (h : Opened files path p) :
  Reading files path [] p
  := by
  obtain ⟨hfiles, hhunk, file, hfile, hpath, hhunks⟩ := h
  constructor
  · exact hfiles
  · rw [finishHunk, hfile, hhunk]
    exact ⟨_, rfl, hpath, by simp [hhunks]⟩

/-- A hunk is read with some of its lines. -/
structure Within (files : List DiffFile) (path : Text) (hunks : List (List Numbers))
    (lines : List Numbers) (oldLine newLine : ℕ) (p : Parse) : Prop where
  files : p.files = files
  oldLine : p.oldLine = oldLine
  newLine : p.newLine = newLine
  file : ∃ file hunk, p.file = some file ∧ p.hunk = some hunk ∧ file.path = path
    ∧ file.hunks.map (fun hunk => hunk.lines.map DiffLine.numbers) = hunks
    ∧ hunk.lines.map DiffLine.numbers = lines

variable {files : List DiffFile} {path : Text} {hunks : List (List Numbers)}
  {lines : List Numbers} {oldLine newLine : ℕ} {p : Parse}

theorem Within.reading (h : Within files path hunks lines oldLine newLine p) :
  Reading files path (hunks ++ [lines]) p
  := by
  obtain ⟨hfiles, -, -, file, hunk, hfile, hhunk, hpath, hhunks, hlines⟩ := h
  constructor
  · exact hfiles
  · rw [finishHunk, hfile, hhunk]
    exact ⟨_, rfl, hpath, by simp [hhunks, hlines]⟩

/-- The line a hunk begins with. -/
theorem Reading.step_hunk (h : Reading files path hunks p) {line : Text}
    (hline : "@@ ".toList <+: line) :
  Within files path hunks [] (parseHunkStarts line).1 (parseHunkStarts line).2 (p.step line)
  := by
  obtain ⟨hfiles, file, hfile, hpath, hhunks⟩ := h
  have hgit : ¬"diff --git ".toList <+: line := by
    obtain ⟨rest, rfl⟩ := hline
    simp
  rw [step, if_neg hgit]
  cases hp : p.file with
  | none => simp [finishHunk, hp] at hfile
  | some file' =>
    simp only [if_pos hline]
    constructor
    · exact hfiles
    · rfl
    · rfl
    · exact ⟨file, _, hfile, rfl, hpath, hhunks, rfl⟩

/-- The number of the next line on a side. -/
def after (line? : Option Line) (line : ℕ) : ℕ := line?.elim line fun _ => next line

/-- How an edit is read at these numbers. -/
def readNumbers (edit : Edit) (oldLine newLine : ℕ) : Numbers :=
  (edit.kind, edit.old?.map fun _ => oldLine, edit.new?.map fun _ => newLine)

theorem hunkLine_sign (edit : Edit) (rest : Text) (oldLine newLine : ℕ) :
  hunkLine (edit.sign :: rest) oldLine newLine
    = (⟨edit.kind, edit.sign :: rest, edit.old?.map fun _ => oldLine,
        edit.new?.map fun _ => newLine⟩,
      after edit.old? oldLine, after edit.new? newLine)
  := by
  cases edit <;> rfl

/-- A line of a hunk. -/
theorem Within.step_edit (h : Within files path hunks lines oldLine newLine p) (edit : Edit) :
  Within files path hunks (lines ++ [readNumbers edit oldLine newLine])
    (after edit.old? oldLine) (after edit.new? newLine) (p.step (lineText edit.print))
  := by
  obtain ⟨hfiles, hold, hnew, file, hunk, hfile, hhunk, hpath, hhunks, hlines⟩ := h
  obtain ⟨rest, hline⟩ := edit.exists_lineText
  have hgit : ¬"diff --git ".toList <+: edit.sign :: rest := by cases edit <;> simp [Edit.sign]
  have hat : ¬"@@ ".toList <+: edit.sign :: rest := by cases edit <;> simp [Edit.sign]
  rw [hline, step, if_neg hgit, hfile]
  simp only [if_neg hat, hhunk, hold, hnew, hunkLine_sign]
  constructor
  · exact hfiles
  · rfl
  · rfl
  · use file, { hunk with lines := hunk.lines ++ [⟨edit.kind, edit.sign :: rest,
      edit.old?.map fun _ => oldLine, edit.new?.map fun _ => newLine⟩] }, rfl, rfl, hpath, hhunks
    rw [List.map_append, hlines]
    rfl

/-- How edits are read from these numbers on. -/
def readAll : List Edit → ℕ → ℕ → List Numbers
  | [], _, _ => []
  | edit :: edits, oldLine, newLine =>
      readNumbers edit oldLine newLine
        :: readAll edits (after edit.old? oldLine) (after edit.new? newLine)

theorem Within.steps (h : Within files path hunks lines oldLine newLine p) (edits : List Edit) :
  Reading files path (hunks ++ [lines ++ readAll edits oldLine newLine])
    ((edits.map fun edit => lineText edit.print).foldl step p)
  := by
  induction edits generalizing lines oldLine newLine p with
  | nil =>
    rw [readAll, List.append_nil]
    exact h.reading
  | cons edit edits ih =>
    have hrest := ih (h.step_edit edit)
    rwa [List.append_assoc] at hrest

/-- The numbers a hunk is read with. -/
def readHunk (hunk : Hunk) (old new : ℕ) : List Numbers :=
  readAll hunk.edits (parseHunkStarts (lineText (hunk.printHeader old new))).1
    (parseHunkStarts (lineText (hunk.printHeader old new))).2

def readHunks : List Hunk → ℕ → ℕ → List (List Numbers)
  | [], _, _ => []
  | hunk :: hunks, old, new =>
      readHunk hunk old new
        :: readHunks hunks (old + hunk.old.length) (new + hunk.new.length)

theorem Reading.steps (h : Reading files path hunks p) (printed : List Hunk) (old new : ℕ) :
  Reading files path (hunks ++ readHunks printed old new)
    (((printHunks printed old new).map lineText).foldl step p)
  := by
  induction printed generalizing hunks p old new with
  | nil =>
    rw [readHunks, List.append_nil]
    exact h
  | cons hunk printed ih =>
    have hfirst := (h.step_hunk (parseHunkStarts_printHeader hunk old new).1).steps hunk.edits
    have hrest := ih hfirst (old + hunk.old.length) (new + hunk.new.length)
    rw [printHunks, Hunk.print, List.cons_append, List.map_cons, List.map_append, List.map_map,
      List.foldl_cons, List.foldl_append, readHunks]
    rwa [List.append_assoc] at hrest

/-! ### Numbers -/

/-- The number that is read is that of the next line, as long as that has 32 bits. -/
def Follows (read line : ℕ) : Prop := read = line + 1 ↔ line + 1 ≤ u32Max

theorem follows_readStart {before count : ℕ} (h : count ≠ 0) :
  Follows (readStart before count) before
  := by
  rw [Follows, readStart]
  simp only [if_neg h]
  split_ifs with hsmall
  · exact iff_of_true rfl hsmall
  · exact iff_of_false not_false hsmall

theorem Follows.next {read line : ℕ} (h : Follows read line) :
  Follows (Diff.next read) (line + 1)
  := by
  rw [Follows] at h ⊢
  rw [Diff.next]
  omega

/-- The numbers of a line have 32 bits. -/
def Fits (line : Numbers) : Prop :=
  (∀ old ∈ line.2.1, old ≤ u32Max) ∧ ∀ new ∈ line.2.2, new ≤ u32Max

theorem follows_after {read line : ℕ} {line? : Option Line} {rest : List Line}
    (h : line?.toList ++ rest ≠ [] → Follows read line) (hrest : rest ≠ []) :
  Follows (after line? read) (line + line?.toList.length)
  := by
  have hread := h (List.append_ne_nil_of_right_ne_nil _ hrest)
  cases line? with
  | none => exact hread
  | some _ => exact hread.next

theorem number_eq_iff {read line : ℕ} {line? : Option Line} (h : line? ≠ none → Follows read line) :
  (line?.map fun _ => read) = (line?.map fun _ => line + 1)
    ↔ ∀ number ∈ line?.map fun _ => line + 1, number ≤ u32Max
  := by
  cases line? with
  | none => simp
  | some l => simpa [Follows] using h (by simp)

/-- The numbers are those that are read exactly as long as they have 32 bits. -/
theorem readAll_eq_iff (edits : List Edit) {oldLine newLine old new : ℕ}
    (hold : edits.filterMap Edit.old? ≠ [] → Follows oldLine old)
    (hnew : edits.filterMap Edit.new? ≠ [] → Follows newLine new) :
  readAll edits oldLine newLine = numbers edits old new
    ↔ ∀ line ∈ numbers edits old new, Fits line
  := by
  induction edits generalizing oldLine newLine old new with
  | nil => simp [readAll, numbers]
  | cons edit edits ih =>
    have hfilter (side : Edit → Option Line) : (edit :: edits).filterMap side
        = (side edit).toList ++ edits.filterMap side := by
      cases h : side edit <;> simp [h]
    rw [hfilter] at hold hnew
    have holdFirst : edit.old? ≠ none → Follows oldLine old := by
      intro h
      apply hold
      simp [h]
    have hnewFirst : edit.new? ≠ none → Follows newLine new := by
      intro h
      apply hnew
      simp [h]
    rw [readAll, numbers, List.forall_mem_cons, List.cons.injEq,
      ih (follows_after hold) (follows_after hnew), readNumbers, Prod.mk.injEq, Prod.mk.injEq,
      number_eq_iff holdFirst, number_eq_iff hnewFirst]
    simp [Fits]

theorem readHunk_eq_iff (hunk : Hunk) (old new : ℕ) :
  readHunk hunk old new
      = numbers hunk.edits (old + hunk.unchanged.length) (new + hunk.unchanged.length)
    ↔ ∀ line ∈ numbers hunk.edits (old + hunk.unchanged.length) (new + hunk.unchanged.length),
      Fits line
  := by
  rw [readHunk, (parseHunkStarts_printHeader hunk old new).2]
  apply readAll_eq_iff
  · intro h
    apply follows_readStart (List.length_eq_zero_iff.ne.mpr h)
  · intro h
    apply follows_readStart (List.length_eq_zero_iff.ne.mpr h)

theorem readHunks_eq_iff (hunks : List Hunk) (old new : ℕ) :
  readHunks hunks old new = hunkNumbers hunks old new
    ↔ ∀ lines ∈ hunkNumbers hunks old new, ∀ line ∈ lines, Fits line
  := by
  induction hunks generalizing old new with
  | nil => simp [readHunks, hunkNumbers]
  | cons hunk hunks ih =>
    rw [readHunks, hunkNumbers, List.forall_mem_cons, List.cons.injEq, readHunk_eq_iff, ih]

/-! ### Files -/

end Parse

theorem ExtendedHeader.exists_start (header : ExtendedHeader) :
  ∃ start rest, fromUtf8Lossy (header.print quotePath) = start ++ rest ∧ Inert start
    ∧ '\r' ∉ start
  := by
  have htext {start : Text} (rest : Text) (h : Inert start) (hreturn : '\r' ∉ start) :
      ∃ start' rest', fromUtf8Lossy (encode (start ++ rest)) = start' ++ rest' ∧ Inert start'
        ∧ '\r' ∉ start' :=
    ⟨start, rest, Utf8Lossy.fromUtf8Lossy_encode _, h, hreturn⟩
  have hpath {start : Text} (rest : Bytes) (h : Inert start) (hreturn : '\r' ∉ start) :
      ∃ start' rest', fromUtf8Lossy (encode start ++ rest) = start' ++ rest' ∧ Inert start'
        ∧ '\r' ∉ start' :=
    ⟨start, _, Utf8Lossy.fromUtf8Lossy_encode_append start rest, h, hreturn⟩
  cases header with
  | oldMode mode => exact htext _ (by decide) (by decide)
  | newMode mode => exact htext _ (by decide) (by decide)
  | newFileMode mode => exact htext _ (by decide) (by decide)
  | deletedFileMode mode => exact htext _ (by decide) (by decide)
  | similarity percent =>
    rw [print, List.append_assoc]
    exact htext _ (by decide) (by decide)
  | dissimilarity percent =>
    rw [print, List.append_assoc]
    exact htext _ (by decide) (by decide)
  | renameFrom path => exact hpath _ (by decide) (by decide)
  | renameTo path => exact hpath _ (by decide) (by decide)
  | copyFrom path => exact hpath _ (by decide) (by decide)
  | copyTo path => exact hpath _ (by decide) (by decide)
  | index old new mode =>
    rw [print, List.append_assoc, List.append_assoc, List.append_assoc]
    exact htext _ (by decide) (by decide)

theorem Parse.Opened.steps_inert {files : List DiffFile} {path : Text} {p : Parse}
    (h : Opened files path p) {lines : List Bytes}
    (hlines : ∀ line ∈ lines, ∃ start rest, fromUtf8Lossy line = start ++ rest ∧ Inert start
      ∧ '\r' ∉ start) :
  Opened files path ((lines.map lineText).foldl step p)
  := by
  induction lines generalizing p with
  | nil => exact h
  | cons line lines ih =>
    rw [List.forall_mem_cons] at hlines
    obtain ⟨start, rest, hline, hinert, hreturn⟩ := hlines.1
    obtain ⟨rest', hread⟩ := exists_lineText hline hreturn
    rw [List.map_cons, List.foldl_cons, hread]
    exact ih (h.step_inert hinert rest') hlines.2

/-- A name has no control characters, and neither has what stands for no name. -/
theorem Kind.le_of_mem_label (kind : Kind) :
  (∀ x ∈ kind.oldLabel quotePath, 0x20 ≤ x) ∧ ∀ x ∈ kind.newLabel quotePath, 0x20 ≤ x
  := by
  have hold : ∀ x ∈ kind.old.printed quotePath "a/", 0x20 ≤ x :=
    Path.le_of_mem_printed (by decide)
  have hnew : ∀ x ∈ kind.new.printed quotePath "b/", 0x20 ≤ x :=
    Path.le_of_mem_printed (by decide)
  have hnull : ∀ x ∈ encode "/dev/null".toList, (0x20 : UInt8) ≤ x := by decide
  cases kind with
  | modified path => exact ⟨hold, hnew⟩
  | added path => exact ⟨hnull, hnew⟩
  | deleted path => exact ⟨hold, hnull⟩
  | renamed old new => exact ⟨hold, hnew⟩
  | copied old new => exact ⟨hold, hnew⟩

theorem ne_of_le {x y : UInt8} (h : 0x20 ≤ x) (hy : ¬0x20 ≤ y) :
  y ≠ x
  := by
  rintro rfl
  exact hy h

namespace Change

/-- The path the file is read to have in the line before its content. -/
def markerPath (quotePath : Bool) (change : Change) : Option Text :=
  if change.hunks = [] then none
  else
    diffMarkerPath (fromUtf8Lossy (change.kind.newLabel quotePath)
      ++ tabAfter (change.kind.newLabel quotePath))

/-- The path the file is read to have. -/
def readPath (quotePath : Bool) (change : Change) : Text :=
  (change.markerPath quotePath).getD
    ((diffHeaderPath ("diff --git ".toList ++ change.kind.names quotePath)).getD [])

/-- The line a file begins with. -/
def header (quotePath : Bool) (kind : Kind) : Bytes :=
  encode "diff --git ".toList ++ kind.old.printed quotePath "a/" ++ [0x20]
    ++ kind.new.printed quotePath "b/"

theorem le_of_mem_header {kind : Kind} {x : UInt8} (hx : x ∈ header quotePath kind) :
  0x20 ≤ x
  := by
  rw [header, List.mem_append, List.mem_append, List.mem_append] at hx
  obtain ((hx | hx) | hx) | hx := hx
  · have hstart : ∀ x ∈ encode "diff --git ".toList, (0x20 : UInt8) ≤ x := by decide
    exact hstart x hx
  · exact Path.le_of_mem_printed (by decide) x hx
  · rw [List.mem_singleton.mp hx]
    exact UInt8.le_refl _
  · exact Path.le_of_mem_printed (by decide) x hx

theorem lineText_header (kind : Kind) :
  lineText (header quotePath kind) = "diff --git ".toList ++ kind.names quotePath
  := by
  rw [lineText_of_le]
  · rw [header, List.append_assoc, List.append_assoc, Utf8Lossy.fromUtf8Lossy_encode_append,
      Utf8Lossy.fromUtf8Lossy_append _ (by simp), List.singleton_append,
      Utf8Lossy.fromUtf8Lossy_cons (by decide)]
    rfl
  · intro x hx
    exact ne_of_le (le_of_mem_header hx) (by decide)

theorem lineText_newMarker (change : Change) :
  lineText (marker "+++ " (change.kind.newLabel quotePath))
    = "+++ ".toList ++ (fromUtf8Lossy (change.kind.newLabel quotePath)
      ++ tabAfter (change.kind.newLabel quotePath))
  := by
  rw [lineText_of_le, fromUtf8Lossy_marker]
  intro x hx
  rw [marker, List.mem_append, List.mem_append] at hx
  obtain (hx | hx) | hx := hx
  · have hsign : ∀ x ∈ encode "+++ ".toList, (0x0d : UInt8) ≠ x := by decide
    exact hsign x hx
  · exact ne_of_le (change.kind.le_of_mem_label.2 x hx) (by decide)
  · split_ifs at hx
    · rw [List.mem_singleton.mp hx]
      decide
    · cases hx

theorem lineText_oldMarker (change : Change) :
  ∃ rest, lineText (marker "--- " (change.kind.oldLabel quotePath)) = "--- ".toList ++ rest
  := exists_lineText (fromUtf8Lossy_marker _ _) (by decide)

open Parse

/-- A file is read after others. -/
theorem reading_print (change : Change) (p : Parse) :
  Parse.Reading p.finish (change.readPath quotePath) (readHunks change.hunks 0 0)
    (((change.print quotePath).map lineText).foldl step p)
  := by
  have hheader : Opened p.finish
      ((diffHeaderPath ("diff --git ".toList ++ change.kind.names quotePath)).getD [])
      (p.step (lineText (header quotePath change.kind))) := by
    rw [lineText_header]
    exact opened_step p (List.prefix_append _ _)
  have hextended : ∀ line ∈ change.extended.map (ExtendedHeader.print quotePath),
      ∃ start rest, fromUtf8Lossy line = start ++ rest ∧ Inert start ∧ '\r' ∉ start := by
    intro line hline
    obtain ⟨extended, -, rfl⟩ := List.mem_map.mp hline
    exact extended.exists_start
  have hopened := hheader.steps_inert hextended
  rw [print, ← header, List.cons_append, List.map_cons, List.foldl_cons, List.map_append,
    List.foldl_append, readPath, markerPath]
  generalize (change.extended.map (ExtendedHeader.print quotePath)).map lineText = lines
    at hopened ⊢
  rw [printBody, hunks]
  cases change.body with
  | unchanged => exact hopened.reading
  | binary =>
    apply Opened.reading
    apply hopened.steps_inert
    intro line hline
    rw [List.mem_singleton.mp hline, List.append_assoc, List.append_assoc, List.append_assoc]
    exact ⟨_, _, Utf8Lossy.fromUtf8Lossy_encode_append _ _, by decide, by decide⟩
  | content first rest =>
    obtain ⟨old, hold⟩ := @lineText_oldMarker quotePath change
    simp only [List.map_cons, List.foldl_cons]
    rw [hold, lineText_newMarker, if_neg (List.cons_ne_nil _ _)]
    exact ((hopened.step_old old).step_new _).reading.steps (first :: rest) 0 0

/-- The path that is read is that of the file exactly if a line shows it. -/
theorem encode_readPath_iff (change : Change) :
  encode (change.readPath quotePath) = change.kind.path.bytes
    ↔ ∃ path, encode path = change.kind.path.bytes
      ∧ (Marked change ∨ Plain quotePath change path)
  := by
  have hpath : change.kind.path = change.kind.new := by cases change.kind <;> rfl
  have hdeleted : ¬Marked change → change.markerPath quotePath = none := by
    intro h
    rw [markerPath]
    split_ifs with hhunks
    · rfl
    · rw [Marked, not_and, not_forall] at h
      obtain ⟨path, hkind⟩ := h hhunks
      rw [not_not.mp hkind]
      exact diffMarkerPath_devNull
  rw [hpath]
  constructor
  · intro h
    use change.readPath quotePath, h
    by_cases hmarked : Marked change
    · left
      exact hmarked
    · right
      rw [← Kind.diffHeaderPath_iff h, readPath, hdeleted hmarked, Option.getD_none]
  · rintro ⟨path, htext, hshown⟩
    by_cases hmarked : Marked change
    · have hlabel : change.kind.newLabel quotePath = change.kind.new.printed quotePath "b/" := by
        cases hkind : change.kind with
        | deleted path => exact absurd hkind (hmarked.2 path)
        | _ => rfl
      rw [readPath, markerPath, if_neg hmarked.1, hlabel,
        diffMarkerPath_printed ⟨path, htext⟩ (tabAfter_cases _), Option.getD_some, Path.text,
        Utf8Lossy.encode_fromUtf8Lossy ⟨path, htext⟩]
    · rw [readPath, hdeleted hmarked, Option.getD_none,
        (Kind.diffHeaderPath_iff htext).mpr (hshown.resolve_left hmarked), htext]

end Change

/-! ### Printed lines are lines -/

theorem feed_notMem_encode {text : Text} (h : '\n' ∉ text) :
  0x0a ∉ encode text
  := by
  intro hmem
  obtain ⟨c, hc, hbyte⟩ := List.mem_flatMap.mp hmem
  by_cases hascii : c.toNat < 0x80
  · have hvalue := List.mem_map_of_mem (f := UInt8.toNat) hbyte
    rw [Utf8Lossy.encodeChar_of_ascii hascii, List.mem_singleton] at hvalue
    have hfeed : c = '\n' := Char.toNat_inj.mp hvalue.symm
    rw [hfeed] at hc
    exact h hc
  · exact absurd (Utf8Lossy.le_of_mem_encodeChar (Nat.le_of_not_lt hascii) hbyte) (by decide)

theorem feed_notMem_toString (n : ℕ) :
  '\n' ∉ (toString n).toList
  := fun h => absurd (isDigit_toString h).1 (by decide)

theorem feed_notMem_of_le (h : ∀ x ∈ line, 0x20 ≤ x) :
  0x0a ∉ line
  := fun hmem => absurd (h _ hmem) (by decide)

theorem ExtendedHeader.feed_notMem_print (header : ExtendedHeader) :
  0x0a ∉ header.print quotePath
  := by
  have hmode (mode : Mode) : '\n' ∉ printMode mode := by
    intro h
    obtain ⟨digit, -, hdigit⟩ := List.mem_map.mp h
    revert hdigit
    revert digit
    decide
  have hoid (oid : Oid) : '\n' ∉ printOid oid := by
    intro h
    obtain ⟨digit, -, hdigit⟩ := List.mem_map.mp h
    revert hdigit
    revert digit
    decide
  have hnumber (n : ℕ) : '\n' ∉ (toString n).toList := feed_notMem_toString n
  have hpath {start : Text} (hstart : '\n' ∉ start) (path : Path) :
      0x0a ∉ encode start ++ path.printed quotePath "" := by
    rw [List.mem_append, not_or]
    use feed_notMem_encode hstart
    exact feed_notMem_of_le (Path.le_of_mem_printed (by decide))
  cases header with
  | oldMode mode => exact feed_notMem_encode (by simp [hmode])
  | newMode mode => exact feed_notMem_encode (by simp [hmode])
  | newFileMode mode => exact feed_notMem_encode (by simp [hmode])
  | deletedFileMode mode => exact feed_notMem_encode (by simp [hmode])
  | similarity percent =>
    apply feed_notMem_encode
    simp only [List.mem_append, not_or]
    exact ⟨⟨by decide, hnumber percent⟩, by decide⟩
  | dissimilarity percent =>
    apply feed_notMem_encode
    simp only [List.mem_append, not_or]
    exact ⟨⟨by decide, hnumber percent⟩, by decide⟩
  | renameFrom path => exact hpath (by decide) path
  | renameTo path => exact hpath (by decide) path
  | copyFrom path => exact hpath (by decide) path
  | copyTo path => exact hpath (by decide) path
  | index old new mode =>
    apply feed_notMem_encode
    cases mode <;> simp [hoid, hmode]

theorem Hunk.feed_notMem_print {hunk : Hunk} {old new : ℕ} (h : line ∈ hunk.print old new) :
  0x0a ∉ line
  := by
  have hrange (before count : ℕ) : '\n' ∉ printRange before count := by
    intro h
    exact absurd (not_isWhiteSpace_of_mem_range h) (by decide)
  obtain rfl | h := List.mem_cons.mp h
  · rw [printHeader, List.mem_append, not_or]
    constructor
    · apply feed_notMem_encode
      simp [hrange]
    · cases hunk.function with
      | none => exact List.not_mem_nil
      | some line => simp [line.noFeed]
  · obtain ⟨edit, -, rfl⟩ := List.mem_map.mp h
    cases edit with
    | noNewline => decide
    | context line => simp [Edit.print, line.noFeed]
    | addition line => simp [Edit.print, line.noFeed]
    | deletion line => simp [Edit.print, line.noFeed]

theorem feed_notMem_printHunks {hunks : List Hunk} {old new : ℕ}
    (h : line ∈ printHunks hunks old new) :
  0x0a ∉ line
  := by
  induction hunks generalizing old new with
  | nil => cases h
  | cons hunk hunks ih =>
    obtain h | h := List.mem_append.mp h
    · exact hunk.feed_notMem_print h
    · exact ih h

theorem Change.feed_notMem_print {change : Change} (h : line ∈ change.print quotePath) :
  0x0a ∉ line
  := by
  obtain ⟨hold, hnew⟩ := @Kind.le_of_mem_label quotePath change.kind
  have hmarker {sign : String} (hsign : '\n' ∉ sign.toList) {label : Bytes}
      (hlabel : ∀ x ∈ label, 0x20 ≤ x) : 0x0a ∉ marker sign label := by
    rw [marker, List.mem_append, List.mem_append, not_or, not_or]
    use ⟨feed_notMem_encode hsign, feed_notMem_of_le hlabel⟩
    split_ifs <;> decide
  rw [print, ← header] at h
  obtain h | h := List.mem_append.mp h
  · obtain rfl | h := List.mem_cons.mp h
    · exact feed_notMem_of_le fun x hx => le_of_mem_header hx
    · obtain ⟨extended, -, rfl⟩ := List.mem_map.mp h
      exact extended.feed_notMem_print
  · rw [printBody] at h
    cases hbody : change.body with
    | unchanged =>
      rw [hbody] at h
      cases h
    | binary =>
      rw [hbody] at h
      rw [List.mem_singleton.mp h]
      simp only [List.mem_append, not_or]
      exact ⟨⟨⟨⟨by decide, feed_notMem_of_le hold⟩, by decide⟩, feed_notMem_of_le hnew⟩,
        by decide⟩
    | content first rest =>
      rw [hbody] at h
      obtain rfl | h := List.mem_cons.mp h
      · exact hmarker (by decide) hold
      · obtain rfl | h := List.mem_cons.mp h
        · exact hmarker (by decide) hnew
        · exact feed_notMem_printHunks h

/-- The files that are read. -/
theorem forall₂_read (changes : List Change) (p : Parse) :
  ∃ files, (((changes.flatMap (Change.print quotePath)).map lineText).foldl Parse.step p).finish
      = p.finish ++ files
    ∧ List.Forall₂ (fun change file => file.path = change.readPath quotePath
      ∧ file.hunks.map (fun hunk => hunk.lines.map DiffLine.numbers)
        = Parse.readHunks change.hunks 0 0) changes files
  := by
  induction changes generalizing p with
  | nil =>
    use []
    rw [List.append_nil]
    exact ⟨rfl, .nil⟩
  | cons change changes ih =>
    rw [List.flatMap_cons, List.map_append, List.foldl_append]
    obtain ⟨hfiles, file, hfile, hpath, hhunks⟩ := @Change.reading_print quotePath change p
    obtain ⟨files, hfinish, hread⟩ :=
      ih (((change.print quotePath).map lineText).foldl Parse.step p)
    use file :: files
    constructor
    · rw [hfinish, Parse.finish, hfiles, hfile, List.append_assoc]
      rfl
    · exact .cons ⟨hpath, hhunks⟩ hread

theorem forall₂_iff_of_forall₂ {α β : Type} {R S : α → β → Prop} {P : α → Prop}
    (h : ∀ a b, R a b → (S a b ↔ P a)) {as : List α} {bs : List β} (hR : List.Forall₂ R as bs) :
  List.Forall₂ S as bs ↔ ∀ a ∈ as, P a
  := by
  induction hR with
  | nil => simp
  | cons hab _ ih => rw [List.forall₂_cons, List.forall_mem_cons, h _ _ hab, ih]

/-- A diff that is printed shows every file exactly if each of them is legible. -/
theorem shows_iff_legible (quotePath : Bool) (changes : List Change) :
  List.Forall₂ Shows changes (parseUnifiedDiff (fromUtf8Lossy (printDiff quotePath changes)))
    ↔ ∀ change ∈ changes, Legible quotePath change
  := by
  have hlines : ∀ line ∈ changes.flatMap (Change.print quotePath), 0x0a ∉ line := by
    intro line hline
    obtain ⟨change, -, hline⟩ := List.mem_flatMap.mp hline
    exact change.feed_notMem_print hline
  obtain ⟨files, hfinish, hread⟩ := @forall₂_read quotePath changes ⟨[], none, none, 0, 0⟩
  have hparse : parseUnifiedDiff (fromUtf8Lossy (printDiff quotePath changes)) = files := by
    rw [parseUnifiedDiff, printDiff, textLines_printed hlines]
    exact hfinish
  rw [hparse]
  apply forall₂_iff_of_forall₂ _ hread
  rintro change file ⟨hpath, hhunks⟩
  have hshows : Shows change file ↔ encode file.path = change.kind.path.bytes
      ∧ file.hunks.map (fun hunk => hunk.lines.map DiffLine.numbers)
        = hunkNumbers change.hunks 0 0 :=
    ⟨fun h => ⟨h.path, h.numbers⟩, fun h => ⟨h.1, h.2⟩⟩
  rw [hshows, hpath, hhunks, change.encode_readPath_iff, Parse.readHunks_eq_iff]
  exact ⟨fun h => ⟨h.1, h.2⟩, fun h => ⟨h.path, h.numbers⟩⟩

/-! ### Numbers are places -/

inductive Side where
  | old
  | new

namespace Side

def line? : Side → Edit → Option Line
  | old => Edit.old?
  | new => Edit.new?

def hunk : Side → Hunk → List Line
  | old => Hunk.old
  | new => Hunk.new

def of {α : Type} : Side → α × α → α
  | old => Prod.fst
  | new => Prod.snd

/-- The number of an edit is where its line is in the version. -/
def Placed (side : Side) (version : List Line) (edit : Edit) (line : Numbers) : Prop :=
  ∀ l ∈ side.line? edit, ∃ n, side.of line.2 = some (n + 1) ∧ version[n]? = some l

end Side

/-! ### A path that looks like two -/

/-- The mode of a file in a directory whose name ends in a space and a letter. -/
def executable : Change where
  kind := .modified ⟨[0x78, 0x20, 0x62, 0x2f, 0x79], by decide⟩
  extended := [.oldMode [1, 0, 0, 6, 4, 4], .newMode [1, 0, 0, 7, 5, 5]]
  body := .unchanged

/-- A file is shown under a part of its path. -/
theorem separator_in_path_not_shown :
  ¬∀ (quotePath : Bool) (changes : List Change),
    List.Forall₂ Shows changes (parseUnifiedDiff (fromUtf8Lossy (printDiff quotePath changes)))
  := by
  intro claim
  have hread : parseUnifiedDiff (fromUtf8Lossy (printDiff true [executable]))
      = [⟨none, ['y'], ["diff --git a/x b/y b/x b/y".toList, "old mode 100644".toList,
        "new mode 100755".toList], []⟩] := by
    decide
  have hshown := claim true [executable]
  rw [hread, List.forall₂_cons] at hshown
  exact absurd hshown.1.path (by decide)

end Lazybox.Diff
