import Mathlib
import Lazybox.Core.MergePolicy
import Lazybox.Library.Bytes

/-!
# Searching what agents wrote

The end of what each terminal shows is read line by line.  A line is what is written on a row, so
that escape sequences which move the cursor to another row end it, and those which move it within
the row leave a space.  The lines a needle is found in are kept for it, a few of them and each of
them cut, first over the terminals of a workspace and then, needle by needle, into one text.

The first line of each needle is always in that text, cut.  It has the needle itself where the
needle is in the part of the line which is kept.  How bytes are decoded and how a text is
lowercased is given.
-/

namespace Lazybox.OutputSearch

open ByteOffset (takeBytes)
open String (utf8Len)

abbrev Text := List Char

def MAX_AGENT_OUTPUT_NEEDLES : ℕ := 8

def MAX_AGENT_OUTPUT_NEEDLE_BYTES : ℕ := 128

def MATCH_CORPUS_BYTES : ℕ := 8 * 1024

def MAX_MATCH_LINES_PER_NEEDLE : ℕ := 4

def MAX_MATCH_LINE_BYTES : ℕ := 512

/-! ### Escape sequences -/

/-- The bytes up to a byte that ends a control sequence, and that byte. -/
def skipParameters : List UInt8 → ℕ
  | [] => 0
  | b :: rest => if 0x40 ≤ b ∧ b ≤ 0x7e then 1 else skipParameters rest + 1

/-- The bytes of a body up to its terminator, and the terminator. -/
def skipStringTerminated : List UInt8 → ℕ
  | [] => 0
  | b :: rest =>
      if b = 0x07 then 1
      else if b = 0x1b ∧ rest.head? = some 0x5c then 2
      else skipStringTerminated rest + 1

/-- How many bytes the escape sequence takes that begins here. -/
def skipEscape : List UInt8 → ℕ
  | _ :: intro :: rest =>
      if intro = 0x5b then skipParameters rest + 2
      else if intro ∈ [0x5d, 0x50, 0x58, 0x5e, 0x5f] then skipStringTerminated rest + 2
      else if intro ∈ [0x28, 0x29, 0x2a, 0x2b] then min 3 (rest.length + 2)
      else 2
  | bytes => bytes.length

inductive EscapeEffect where
  | endsRow
  | skipsColumns
  | invisible
deriving DecidableEq, Repr

/-- `A B E F H L M S T d f` change the row, and `C D G` the column. -/
def escapeEffect (run : List UInt8) : EscapeEffect :=
  if run.head? ≠ some 0x1b ∨ run[1]? ≠ some 0x5b then .invisible
  else
    match run.getLast? with
    | some b =>
        if b ∈ [0x41, 0x42, 0x45, 0x46, 0x48, 0x4c, 0x4d, 0x53, 0x54, 0x64, 0x66] then .endsRow
        else if b ∈ [0x43, 0x44, 0x47] then .skipsColumns
        else .invisible
    | none => .invisible

/-! ### Lines -/

section Search

variable (fromUtf8Lossy : List UInt8 → Text) (toLowercase : Text → Text)

/-- A text with its words, and one space between them. -/
def collapse (text : Text) : Text :=
  [' '].intercalate ((text.splitOnP isWhiteSpace).filter (· ≠ []))

/-- The lines kept for each needle. -/
abbrev Buckets := List (List Text)

/-- A line filed for one needle, unless it has no room left. -/
def file (needle collapsed : Text) (bucket : List Text) : List Text :=
  if needle <:+: toLowercase collapsed ∧ bucket.length < MAX_MATCH_LINES_PER_NEEDLE
      ∧ collapsed ∉ bucket then
    bucket ++ [takeBytes MAX_MATCH_LINE_BYTES collapsed]
  else bucket

def takeLine (needles : List Text) (buckets : Buckets) (line : List UInt8) : Buckets :=
  if line = [] then buckets
  else
    let collapsed := collapse (fromUtf8Lossy line)
    if collapsed = [] then buckets
    else needles.zipWith (fun needle bucket => file toLowercase needle collapsed bucket) buckets

def isFull (buckets : Buckets) : Bool :=
  buckets.all fun bucket => MAX_MATCH_LINES_PER_NEEDLE ≤ bucket.length

/-- The loop of `scan_buckets`: the first bytes of the rest are of an escape sequence that was
handled. -/
def scanFrom (needles : List Text) : ℕ → List UInt8 → List UInt8 → Buckets → Buckets
  | _, [], line, buckets => takeLine fromUtf8Lossy toLowercase needles buckets line
  | skip + 1, _ :: rest, line, buckets => scanFrom needles skip rest line buckets
  | 0, b :: rest, line, buckets =>
      let taken := takeLine fromUtf8Lossy toLowercase needles buckets line
      if b = 0x1b then
        let run := skipEscape (b :: rest)
        match escapeEffect ((b :: rest).take run) with
        | .endsRow =>
            if isFull taken then takeLine fromUtf8Lossy toLowercase needles taken []
            else scanFrom needles (run - 1) rest [] taken
        | .skipsColumns => scanFrom needles (run - 1) rest (line ++ [0x20]) buckets
        | .invisible => scanFrom needles (run - 1) rest line buckets
      else if b = 0x0a ∨ b = 0x0d then
        if isFull taken then takeLine fromUtf8Lossy toLowercase needles taken []
        else scanFrom needles 0 rest [] taken
      else if b < 0x20 ∧ b ≠ 0x09 then scanFrom needles 0 rest line buckets
      else scanFrom needles 0 rest (line ++ [b]) buckets

def scanBuckets (needles : List Text) (bytes : List UInt8) : Buckets :=
  scanFrom fromUtf8Lossy toLowercase needles 0 bytes [] (needles.map fun _ => [])

/-! ### Workspaces -/

/-- The hits of one terminal put to those of the workspace, for one needle. -/
def merge (merged hits : List Text) : List Text :=
  hits.foldl (fun merged hit =>
    if merged.length < MAX_MATCH_LINES_PER_NEEDLE ∧ hit ∉ merged then merged ++ [hit]
    else merged) merged

/-- The buckets of each workspace something was found for. -/
abbrev PerSession := String → Option Buckets

/-- The body of the loop of `fold_matches` over the terminals. -/
def foldTail (needles : List Text) (perSession : PerSession) (tail : String × List UInt8) :
    PerSession :=
  let buckets := scanBuckets fromUtf8Lossy toLowercase needles tail.2
  if buckets.all List.isEmpty then perSession
  else
    let merged := (perSession tail.1).getD (needles.map fun _ => [])
    Function.update perSession tail.1 (some (merged.zipWith merge buckets))

/-- The hits of a round that were not there yet. -/
def roundRobinFrom (buckets : Buckets) (ordered : List Text) (round : ℕ) : List Text :=
  buckets.foldl (fun ordered bucket =>
    match bucket[round]? with
    | some hit => if hit ∈ ordered then ordered else ordered ++ [hit]
    | none => ordered) ordered

def roundRobin (buckets : Buckets) : List Text :=
  (List.range MAX_MATCH_LINES_PER_NEEDLE).foldl (roundRobinFrom buckets) []

/-- The lines put after a text, up to the first that does not fit. -/
def corpusFrom (corpus : Text) : List Text → Text
  | [] => corpus
  | line :: rest =>
      if MATCH_CORPUS_BYTES < utf8Len corpus + utf8Len line + 1 then corpus
      else corpusFrom (corpus ++ line ++ ['\n']) rest

/-- The entries are in the order of the workspaces. -/
def foldMatches (tails : List (String × List UInt8)) (needles : List Text) :
    List (String × Text) :=
  let perSession := tails.foldl (foldTail fromUtf8Lossy toLowercase needles) fun _ => none
  ((tails.map Prod.fst).dedup.mergeSort (· ≤ ·)).filterMap fun key => do
    let buckets ← perSession key
    let corpus := corpusFrom [] (roundRobin buckets)
    if corpus = [] then none else some (key, corpus)

def normalizeNeedles (needles : List Text) : List Text :=
  ((((needles.map toLowercase).filter fun needle => trim needle ≠ []).map
    (takeBytes MAX_AGENT_OUTPUT_NEEDLE_BYTES)).filter (· ≠ [])).take MAX_AGENT_OUTPUT_NEEDLES

/-! ### The lines of a workspace -/

/-- The rows of what a terminal shows, the first of them begun. -/
def rowsFrom : ℕ → List UInt8 → List UInt8 → List (List UInt8)
  | _, [], line => [line]
  | skip + 1, _ :: rest, line => rowsFrom skip rest line
  | 0, b :: rest, line =>
      if b = 0x1b then
        let run := skipEscape (b :: rest)
        match escapeEffect ((b :: rest).take run) with
        | .endsRow => line :: rowsFrom (run - 1) rest []
        | .skipsColumns => rowsFrom (run - 1) rest (line ++ [0x20])
        | .invisible => rowsFrom (run - 1) rest line
      else if b = 0x0a ∨ b = 0x0d then line :: rowsFrom 0 rest []
      else if b < 0x20 ∧ b ≠ 0x09 then rowsFrom 0 rest line
      else rowsFrom 0 rest (line ++ [b])

/-- The text of a row, if there is any. -/
def lineOf (row : List UInt8) : Option Text :=
  if row = [] ∨ collapse (fromUtf8Lossy row) = [] then none
  else some (collapse (fromUtf8Lossy row))

/-- The lines that are reconstructed from what a terminal shows. -/
def linesOf (bytes : List UInt8) : List Text :=
  (rowsFrom 0 bytes []).filterMap (lineOf fromUtf8Lossy)

/-- The lines of a workspace, of one terminal after the other. -/
def linesFor (tails : List (String × List UInt8)) (key : String) : List Text :=
  (tails.filter fun tail => tail.1 = key).flatMap fun tail => linesOf fromUtf8Lossy tail.2

/-- The part of a line that is kept. -/
def cut (line : Text) : Text := takeBytes MAX_MATCH_LINE_BYTES line

/-- A text contains a needle, in whatever case. -/
def Has (text needle : Text) : Prop := needle <:+: toLowercase text

instance (text needle : Text) : Decidable (Has toLowercase text needle) :=
  inferInstanceAs (Decidable (_ <:+: _))

/-- The first line of a workspace that has the needle. -/
def firstLine? (tails : List (String × List UInt8)) (key : String) (needle : Text) :
    Option Text :=
  (linesFor fromUtf8Lossy tails key).find? fun line => Has toLowercase line needle

/-! ### Buckets -/

/-- The lines kept of some lines for a needle. -/
def bucketOf (needle : Text) (lines : List Text) (bucket : List Text) : List Text :=
  lines.foldl (fun bucket line => file toLowercase needle line bucket) bucket

variable {fromUtf8Lossy toLowercase}

variable {bucket : List Text} {needle : Text}

variable {line : Text}

theorem file_of_full (h : MAX_MATCH_LINES_PER_NEEDLE ≤ bucket.length) :
  file toLowercase needle line bucket = bucket
  := by
  rw [file, if_neg]
  omega

variable {lines : List Text}

theorem bucketOf_of_full (h : MAX_MATCH_LINES_PER_NEEDLE ≤ bucket.length) :
  bucketOf toLowercase needle lines bucket = bucket
  := by
  induction lines with
  | nil => rfl
  | cons line lines ih =>
    rw [bucketOf, List.foldl_cons, file_of_full h]
    apply ih

theorem takeLine_map (needles : List Text) (f : Text → List Text) (row : List UInt8) :
  takeLine fromUtf8Lossy toLowercase needles (needles.map f) row
    = needles.map fun needle =>
      bucketOf toLowercase needle (lineOf fromUtf8Lossy row).toList (f needle)
  := by
  rw [takeLine, lineOf]
  by_cases hrow : row = []
  · simp [hrow, bucketOf]
  · by_cases hline : collapse (fromUtf8Lossy row) = []
    · simp [hrow, hline, bucketOf]
    · simp [hrow, hline, bucketOf, List.zipWith_map_right, List.zipWith_self]

variable {f : Text → List Text}

theorem isFull_map {needles : List Text} (h : isFull (needles.map f) = true) :
  ∀ needle ∈ needles, MAX_MATCH_LINES_PER_NEEDLE ≤ (f needle).length
  := by
  simpa [isFull] using h

theorem bucketOf_append (needle : Text) (lines lines' bucket : List Text) :
  bucketOf toLowercase needle (lines ++ lines') bucket
    = bucketOf toLowercase needle lines' (bucketOf toLowercase needle lines bucket)
  := List.foldl_append

/-- A row, and what is scanned after it unless there is no room left. -/
theorem scan_row
    {needles : List Text} (row : List UInt8) (rows : List (List UInt8))
    {rest : Buckets}
    (ih : ∀ g : Text → List Text,
      takeLine fromUtf8Lossy toLowercase needles (needles.map f) row = needles.map g →
        rest = needles.map fun needle =>
          bucketOf toLowercase needle (rows.filterMap (lineOf fromUtf8Lossy)) (g needle)) :
  (if isFull (takeLine fromUtf8Lossy toLowercase needles (needles.map f) row) then
      takeLine fromUtf8Lossy toLowercase needles
        (takeLine fromUtf8Lossy toLowercase needles (needles.map f) row) []
    else rest)
    = needles.map fun needle =>
      bucketOf toLowercase needle ((row :: rows).filterMap (lineOf fromUtf8Lossy)) (f needle)
  := by
  have hrows (needle) : bucketOf toLowercase needle
        ((row :: rows).filterMap (lineOf fromUtf8Lossy)) (f needle)
      = bucketOf toLowercase needle (rows.filterMap (lineOf fromUtf8Lossy))
        (bucketOf toLowercase needle (lineOf fromUtf8Lossy row).toList (f needle)) := by
    rw [← bucketOf_append]
    cases h : lineOf fromUtf8Lossy row <;> simp [h]
  rw [ih _ (takeLine_map needles f row)]
  split_ifs with hfull
  · rw [takeLine_map] at hfull
    rw [takeLine, if_pos rfl, takeLine_map, List.map_inj_left]
    intro needle hneedle
    rw [hrows, bucketOf_of_full (isFull_map hfull needle hneedle)]
  · simp only [hrows]

/-- A scan that stops early leaves nothing out. -/
theorem scanFrom_eq (needles : List Text) (skip : ℕ) (bytes line : List UInt8)
    (f : Text → List Text) :
  scanFrom fromUtf8Lossy toLowercase needles skip bytes line (needles.map f)
    = needles.map fun needle =>
      bucketOf toLowercase needle
        ((rowsFrom skip bytes line).filterMap (lineOf fromUtf8Lossy)) (f needle)
  := by
  induction bytes generalizing skip line f with
  | nil =>
    rw [scanFrom, rowsFrom, takeLine_map]
    cases h : lineOf fromUtf8Lossy line <;> simp [h]
  | cons b rest ih =>
    cases skip with
    | succ skip => apply ih
    | zero =>
      rw [scanFrom, rowsFrom]
      by_cases hescape : b = 0x1b
      · simp only [if_pos hescape]
        cases heffect : escapeEffect ((b :: rest).take (skipEscape (b :: rest))) with
        | endsRow =>
          simp only
          apply scan_row
          intro g hg
          rw [hg, ih]
        | skipsColumns => simp only [ih]
        | invisible => simp only [ih]
      · simp only [if_neg hescape]
        by_cases hend : b = 0x0a ∨ b = 0x0d
        · simp only [if_pos hend]
          apply scan_row
          intro g hg
          rw [hg, ih]
        · simp only [if_neg hend]
          split_ifs <;> apply ih

theorem scanBuckets_eq (needles : List Text) (bytes : List UInt8) :
  scanBuckets fromUtf8Lossy toLowercase needles bytes
    = needles.map fun needle =>
      bucketOf toLowercase needle (linesOf fromUtf8Lossy bytes) []
  := scanFrom_eq needles 0 bytes [] fun _ => []

/-! ### First hits -/

theorem head?_bucketOf (needle : Text) (lines bucket : List Text) :
  (bucketOf toLowercase needle lines bucket).head?
    = bucket.head?.or ((lines.find? fun line => Has toLowercase line needle).map cut)
  := by
  induction lines generalizing bucket with
  | nil => simp [bucketOf]
  | cons line lines ih =>
    rw [bucketOf, List.foldl_cons, ← bucketOf, ih, file]
    cases bucket with
    | nil =>
      by_cases h : Has toLowercase line needle
      · simp [h, show needle <:+: toLowercase line from h, MAX_MATCH_LINES_PER_NEEDLE, cut]
      · simp [h, show ¬needle <:+: toLowercase line from h]
    | cons hit bucket => split_ifs <;> rfl

variable {hit : Text}

/-- What is kept for a needle is cut from a line that has it. -/
theorem of_mem_bucketOf (h : hit ∈ bucketOf toLowercase needle lines bucket) :
  hit ∈ bucket ∨ ∃ line ∈ lines, Has toLowercase line needle ∧ hit = cut line
  := by
  induction lines generalizing bucket with
  | nil =>
    left
    exact h
  | cons line lines ih =>
    rw [bucketOf, List.foldl_cons, ← bucketOf] at h
    obtain hfile | ⟨line', hline', hhas, rfl⟩ := ih h
    · rw [file] at hfile
      split_ifs at hfile with hroom
      · obtain hfile | hfile := List.mem_append.mp hfile
        · left
          exact hfile
        · right
          use line, List.mem_cons_self, hroom.1
          exact List.mem_singleton.mp hfile
      · left
        exact hfile
    · right
      use line', List.mem_cons_of_mem _ hline'

theorem head?_merge (merged hits : List Text) :
  (merge merged hits).head? = merged.head?.or hits.head?
  := by
  induction hits generalizing merged with
  | nil => simp [merge]
  | cons hit hits ih =>
    rw [merge, List.foldl_cons, ← merge, ih]
    cases merged with
    | nil => simp [MAX_MATCH_LINES_PER_NEEDLE]
    | cons first merged => split_ifs <;> rfl

theorem of_mem_merge {merged hits : List Text} (h : hit ∈ merge merged hits) :
  hit ∈ merged ∨ hit ∈ hits
  := by
  induction hits generalizing merged with
  | nil =>
    left
    exact h
  | cons first hits ih =>
    rw [merge, List.foldl_cons, ← merge] at h
    obtain h | h := ih h
    · split_ifs at h
      · obtain h | h := List.mem_append.mp h
        · left
          exact h
        · right
          rw [List.mem_singleton.mp h]
          apply List.mem_cons_self
      · left
        exact h
    · right
      apply List.mem_cons_of_mem _ h

/-! ### The buckets of a workspace -/

variable (fromUtf8Lossy toLowercase)

/-- The terminals of a workspace. -/
def tailsOf (tails : List (String × List UInt8)) (key : String) : List (String × List UInt8) :=
  tails.filter fun tail => tail.1 = key

/-- What is kept of the terminals for a needle. -/
def mergedOf (needle : Text) (tails : List (String × List UInt8)) : List Text :=
  tails.foldl (fun merged tail =>
    merge merged (bucketOf toLowercase needle (linesOf fromUtf8Lossy tail.2) [])) []

/-- A needle is found in a line of the workspace. -/
def Found (tails : List (String × List UInt8)) (key : String) (needle : Text) : Prop :=
  ∃ line ∈ linesFor fromUtf8Lossy tails key, Has toLowercase line needle

variable {fromUtf8Lossy toLowercase}

theorem linesFor_concat (tails : List (String × List UInt8)) (tail : String × List UInt8)
    (key : String) :
  linesFor fromUtf8Lossy (tails ++ [tail]) key
    = linesFor fromUtf8Lossy tails key
      ++ if tail.1 = key then linesOf fromUtf8Lossy tail.2 else []
  := by
  rw [linesFor, List.filter_append, List.flatMap_append, ← linesFor]
  split_ifs with h <;> simp [h]

theorem tailsOf_concat (tails : List (String × List UInt8)) (tail : String × List UInt8)
    (key : String) :
  tailsOf (tails ++ [tail]) key = tailsOf tails key ++ if tail.1 = key then [tail] else []
  := by
  rw [tailsOf, List.filter_append, ← tailsOf]
  split_ifs with h <;> simp [h]

theorem mergedOf_concat (needle : Text) (tails : List (String × List UInt8))
    (tail : String × List UInt8) :
  mergedOf fromUtf8Lossy toLowercase needle (tails ++ [tail])
    = merge (mergedOf fromUtf8Lossy toLowercase needle tails)
      (bucketOf toLowercase needle (linesOf fromUtf8Lossy tail.2) [])
  := by
  rw [mergedOf, List.foldl_append]
  rfl

/-- The first hit of a needle is its first line, cut. -/
theorem head?_mergedOf (tails : List (String × List UInt8)) (key : String) (needle : Text) :
  (mergedOf fromUtf8Lossy toLowercase needle (tailsOf tails key)).head?
    = (firstLine? fromUtf8Lossy toLowercase tails key needle).map cut
  := by
  induction tails using List.reverseRecOn with
  | nil => rfl
  | append_singleton tails tail ih =>
    rw [tailsOf_concat, firstLine?, linesFor_concat]
    split_ifs
    · rw [mergedOf_concat, head?_merge, ih, head?_bucketOf, List.find?_append, firstLine?]
      cases (linesFor fromUtf8Lossy tails key).find? fun line => Has toLowercase line needle <;>
        rfl
    · rw [List.append_nil, List.append_nil, ih, firstLine?]

variable {key : String} {tails : List (String × List UInt8)}

theorem of_mem_mergedOf (h : hit ∈ mergedOf fromUtf8Lossy toLowercase needle (tailsOf tails key)) :
  ∃ line ∈ linesFor fromUtf8Lossy tails key, Has toLowercase line needle ∧ hit = cut line
  := by
  induction tails using List.reverseRecOn with
  | nil => exact absurd h List.not_mem_nil
  | append_singleton tails tail ih =>
    rw [tailsOf_concat] at h
    rw [linesFor_concat]
    split_ifs at h ⊢
    · rw [mergedOf_concat] at h
      obtain h | h := of_mem_merge h
      · obtain ⟨line, hline, hhas⟩ := ih h
        use line, List.mem_append_left _ hline
      · obtain h | ⟨line, hline, hhas⟩ := of_mem_bucketOf h
        · exact absurd h List.not_mem_nil
        · use line, List.mem_append_right _ hline
    · rw [List.append_nil] at h ⊢
      apply ih h

theorem found_iff (tails : List (String × List UInt8)) (key : String) (needle : Text) :
  Found fromUtf8Lossy toLowercase tails key needle
    ↔ mergedOf fromUtf8Lossy toLowercase needle (tailsOf tails key) ≠ []
  := by
  rw [← List.head?_eq_none_iff.ne, head?_mergedOf, Ne, Option.map_eq_none_iff, firstLine?,
    List.find?_eq_none]
  simp [Found]

variable (fromUtf8Lossy toLowercase) in
/-- The buckets of a workspace. -/
def bucketsOf (tails : List (String × List UInt8)) (needles : List Text) (key : String) :
    Buckets :=
  needles.map fun needle => mergedOf fromUtf8Lossy toLowercase needle (tailsOf tails key)

theorem firstLine?_isSome_iff :
  (firstLine? fromUtf8Lossy toLowercase tails key needle).isSome
    ↔ Found fromUtf8Lossy toLowercase tails key needle
  := by
  simp [firstLine?, Found]

theorem merge_nil_iff (merged hits : List Text) :
  merge merged hits = [] ↔ merged = [] ∧ hits = []
  := by
  rw [← List.head?_eq_none_iff, head?_merge, Option.or_eq_none_iff, List.head?_eq_none_iff,
    List.head?_eq_none_iff]

theorem all_isEmpty_map {needles : List Text} :
  (needles.map f).all List.isEmpty = true ↔ ∀ needle ∈ needles, f needle = []
  := by
  simp

/-- One more terminal. -/
theorem bucketsOf_concat (tails : List (String × List UInt8)) (tail : String × List UInt8)
    (needles : List Text) (key : String) :
  bucketsOf fromUtf8Lossy toLowercase (tails ++ [tail]) needles key
    = if tail.1 = key then
        (bucketsOf fromUtf8Lossy toLowercase tails needles key).zipWith merge
          (scanBuckets fromUtf8Lossy toLowercase needles tail.2)
      else bucketsOf fromUtf8Lossy toLowercase tails needles key
  := by
  rw [bucketsOf, tailsOf_concat, scanBuckets_eq]
  split_ifs
  · simp [bucketsOf, mergedOf_concat, List.zipWith_map, List.zipWith_self]
  · simp [bucketsOf]

/-- Nothing found adds nothing. -/
theorem zipWith_merge_of_none {needles : List Text} {g : Text → List Text}
    (h : (needles.map g).all List.isEmpty = true) :
  (needles.map f).zipWith merge (needles.map g) = needles.map f
  := by
  rw [all_isEmpty_map] at h
  rw [List.zipWith_map, List.zipWith_self, List.map_inj_left]
  intro needle hneedle
  rw [h needle hneedle]
  rfl

/-- Something found stays. -/
theorem zipWith_merge_of_some {needles : List Text} {g : Text → List Text}
    (h : ¬(needles.map g).all List.isEmpty = true) :
  ¬((needles.map f).zipWith merge (needles.map g)).all List.isEmpty = true
  := by
  rw [List.zipWith_map, List.zipWith_self, all_isEmpty_map]
  rw [all_isEmpty_map] at h
  intro hmerged
  apply h
  intro needle hneedle
  exact ((merge_nil_iff _ _).mp (hmerged needle hneedle)).2

/-- What is known of each workspace once its terminals are scanned. -/
theorem foldTails_eq (tails : List (String × List UInt8)) (needles : List Text) (key : String) :
  tails.foldl (foldTail fromUtf8Lossy toLowercase needles) (fun _ => none) key
    = if (bucketsOf fromUtf8Lossy toLowercase tails needles key).all List.isEmpty then none
      else some (bucketsOf fromUtf8Lossy toLowercase tails needles key)
  := by
  induction tails using List.reverseRecOn with
  | nil =>
    rw [if_pos]
    · rfl
    · exact all_isEmpty_map.mpr fun _ _ => rfl
  | append_singleton tails tail ih =>
    rw [List.foldl_append, List.foldl_cons, List.foldl_nil, bucketsOf_concat, foldTail,
      scanBuckets_eq]
    by_cases hnone : (needles.map fun needle =>
        bucketOf toLowercase needle (linesOf fromUtf8Lossy tail.2) []).all List.isEmpty
    · rw [if_pos hnone, bucketsOf, zipWith_merge_of_none hnone, ite_self, ih, bucketsOf]
    · rw [if_neg hnone]
      obtain rfl | hkey := eq_or_ne key tail.1
      · have hbefore : (tails.foldl (foldTail fromUtf8Lossy toLowercase needles)
              (fun _ => none) tail.1).getD (needles.map fun _ => [])
            = bucketsOf fromUtf8Lossy toLowercase tails needles tail.1 := by
          rw [ih]
          split_ifs with hall
          · rw [bucketsOf, all_isEmpty_map] at hall
            rw [Option.getD_none, bucketsOf, List.map_inj_left]
            intro needle hneedle
            rw [hall needle hneedle]
          · rfl
        rw [Function.update_self, hbefore, if_pos rfl, if_neg]
        exact zipWith_merge_of_some hnone
      · rw [Function.update_of_ne hkey, ih, if_neg hkey.symm]

/-! ### The text of a workspace -/

/-- Some hits are put after others, none of them twice. -/
structure Extends (buckets : Buckets) (before after : List Text) : Prop where
  starts : before <+: after
  nodup : before.Nodup → after.Nodup
  mem : ∀ hit ∈ after, hit ∈ before ∨ ∃ bucket ∈ buckets, hit ∈ bucket

variable (buckets : Buckets)

theorem Extends.refl (ordered : List Text) :
  Extends buckets ordered ordered
  := ⟨List.prefix_rfl, id, fun _ h => .inl h⟩

theorem Extends.trans {buckets : Buckets} {before between after : List Text}
    (h : Extends buckets before between) (h' : Extends buckets between after) :
  Extends buckets before after
  := by
  constructor
  · apply h.starts.trans h'.starts
  · intro nodup
    apply h'.nodup (h.nodup nodup)
  · intro hit hhit
    obtain hhit | hbucket := h'.mem hit hhit
    · apply h.mem hit hhit
    · right
      exact hbucket

/-- A hit that is put at the end unless it is there. -/
def push (ordered : List Text) : Option Text → List Text
  | some hit => if hit ∈ ordered then ordered else ordered ++ [hit]
  | none => ordered

theorem extends_push (ordered : List Text) (h : bucket ∈ buckets) (round : ℕ) :
  Extends buckets ordered (push ordered bucket[round]?)
    ∧ (push ordered bucket[round]?).length ≤ ordered.length + 1
    ∧ ∀ hit, bucket[round]? = some hit → hit ∈ push ordered bucket[round]?
  := by
  cases hround : bucket[round]? with
  | none =>
    use .refl buckets ordered, Nat.le_succ _
    simp
  | some hit =>
    by_cases hmem : hit ∈ ordered
    · rw [push, if_pos hmem]
      use .refl buckets ordered, Nat.le_succ _
      rintro _ ⟨⟩
      exact hmem
    · rw [push, if_neg hmem]
      constructor
      · constructor
        · apply List.prefix_append
        · intro nodup
          rw [← List.concat_eq_append]
          apply nodup.concat hmem
        · intro hit' hhit'
          obtain hhit' | hhit' := List.mem_append.mp hhit'
          · left
            exact hhit'
          · right
            rw [List.mem_singleton.mp hhit']
            use bucket, h
            apply List.mem_of_getElem? hround
      · simp

theorem roundRobinFrom_cons (bucket : List Text) (buckets : Buckets) (ordered : List Text)
    (round : ℕ) :
  roundRobinFrom (bucket :: buckets) ordered round
    = roundRobinFrom buckets (push ordered bucket[round]?) round
  := rfl

/-- A round adds at most one hit for each needle, and has the one each needle has for it. -/
theorem extends_roundRobinFrom {all buckets : Buckets} (h : buckets ⊆ all) (ordered : List Text)
    (round : ℕ) :
  Extends all ordered (roundRobinFrom buckets ordered round)
    ∧ (roundRobinFrom buckets ordered round).length ≤ ordered.length + buckets.length
    ∧ ∀ bucket ∈ buckets, ∀ hit, bucket[round]? = some hit →
        hit ∈ roundRobinFrom buckets ordered round
  := by
  induction buckets generalizing ordered with
  | nil =>
    use .refl all ordered, le_rfl
    simp
  | cons bucket buckets ih =>
    rw [List.cons_subset] at h
    obtain ⟨hpush, hlength, hhit⟩ := extends_push all ordered h.1 round
    obtain ⟨hrest, hlengths, hhits⟩ := ih h.2 (push ordered bucket[round]?)
    rw [roundRobinFrom_cons]
    use hpush.trans hrest
    constructor
    · rw [List.length_cons]
      omega
    · rw [List.forall_mem_cons]
      constructor
      · intro hit hround
        apply hrest.starts.subset (hhit hit hround)
      · exact hhits

theorem extends_foldl (ordered : List Text) (rounds : List ℕ) :
  Extends buckets ordered (rounds.foldl (roundRobinFrom buckets) ordered)
  := by
  induction rounds generalizing ordered with
  | nil => apply Extends.refl
  | cons round rounds ih =>
    apply Extends.trans _ (ih _)
    apply (extends_roundRobinFrom (List.Subset.refl buckets) ordered round).1

/-- The first hits come first. -/
theorem isPrefix_firstRound :
  roundRobinFrom buckets [] 0 <+: roundRobin buckets
  := by
  have hrounds : List.range MAX_MATCH_LINES_PER_NEEDLE = 0 :: [1, 2, 3] := rfl
  rw [roundRobin, hrounds, List.foldl_cons]
  exact (extends_foldl buckets _ _).starts

/-- Lines, each of them ended. -/
def unlines (lines : List Text) : Text := lines.flatMap (· ++ ['\n'])

theorem unlines_cons (line : Text) (lines : List Text) :
  unlines (line :: lines) = line ++ ['\n'] ++ unlines lines
  := rfl

/-- The text has the lines up to some line, and all that fit. -/
theorem corpusFrom_spec (corpus : Text) (lines : List Text)
    (h : utf8Len corpus ≤ MATCH_CORPUS_BYTES) :
  ∃ kept, kept <+: lines ∧ corpusFrom corpus lines = corpus ++ unlines kept
    ∧ utf8Len (corpusFrom corpus lines) ≤ MATCH_CORPUS_BYTES
    ∧ ∀ first, first <+: lines → utf8Len (corpus ++ unlines first) ≤ MATCH_CORPUS_BYTES →
        first <+: kept
  := by
  induction lines generalizing corpus with
  | nil =>
    use [], List.prefix_rfl
    simp [corpusFrom, unlines, h]
  | cons line lines ih =>
    have hlen : utf8Len (corpus ++ line ++ ['\n']) = utf8Len corpus + utf8Len line + 1 := by
      rw [String.utf8Len_append, String.utf8Len_append]
      rfl
    rw [corpusFrom]
    split_ifs with hfull
    · use [], List.nil_prefix
      rw [show unlines [] = [] from rfl, List.append_nil]
      use rfl, h
      intro first hfirst hfits
      cases first with
      | nil => apply List.prefix_rfl
      | cons line' first =>
        obtain ⟨rfl, -⟩ := List.cons_prefix_cons.mp hfirst
        rw [unlines_cons, ← List.append_assoc, ← List.append_assoc, String.utf8Len_append,
          hlen] at hfits
        omega
    · obtain ⟨kept, hkept, hcorpus, hfits, hall⟩ := ih (corpus ++ line ++ ['\n']) (by omega)
      use line :: kept, List.cons_prefix_cons.mpr ⟨rfl, hkept⟩
      constructor
      · rw [hcorpus, unlines_cons, List.append_assoc, List.append_assoc, List.append_assoc]
      · use hfits
        intro first hfirst hfirstFits
        cases first with
        | nil => apply List.nil_prefix
        | cons line' first =>
          obtain ⟨rfl, hrest⟩ := List.cons_prefix_cons.mp hfirst
          rw [List.cons_prefix_cons]
          use rfl
          apply hall first hrest
          rwa [unlines_cons, ← List.append_assoc, ← List.append_assoc] at hfirstFits

/-- The pieces between separators have none. -/
theorem of_mem_splitOnP {p : Char → Bool} {text piece : Text} (h : piece ∈ text.splitOnP p) :
  ∀ c ∈ piece, p c = false
  := by
  induction text generalizing piece with
  | nil => simp_all [List.splitOnP_nil]
  | cons c text ih =>
    rw [List.splitOnP_cons_eq_if_modifyHead] at h
    split_ifs at h with hc
    · obtain rfl | h := List.mem_cons.mp h
      · simp
      · apply ih h
    · obtain ⟨first, rest, hsplit⟩ := List.exists_cons_of_ne_nil (List.splitOnP_ne_nil p text)
      rw [hsplit, List.modifyHead_cons] at h
      obtain rfl | h := List.mem_cons.mp h
      · rw [List.forall_mem_cons]
        use eq_false_of_ne_true hc
        apply ih
        rw [hsplit]
        apply List.mem_cons_self
      · apply ih
        rw [hsplit]
        apply List.mem_cons_of_mem _ h

theorem of_mem_intercalate {c : Char} {words : List Text} (h : c ∈ [' '].intercalate words) :
  c = ' ' ∨ ∃ word ∈ words, c ∈ word
  := by
  induction words with
  | nil => simp at h
  | cons word words ih =>
    cases words with
    | nil =>
      right
      use word
      simpa using h
    | cons next words =>
      rw [List.intercalate_cons_cons, List.append_assoc, List.mem_append,
        List.mem_append] at h
      obtain h | h | h := h
      · right
        use word, List.mem_cons_self
      · left
        exact List.mem_singleton.mp h
      · obtain h | ⟨word', hword, h⟩ := ih h
        · left
          exact h
        · right
          use word', List.mem_cons_of_mem _ hword

theorem lineFeed_notMem_collapse (text : Text) :
  '\n' ∉ collapse text
  := by
  intro h
  obtain h | ⟨word, hword, h⟩ := of_mem_intercalate h
  · contradiction
  · have hspace := of_mem_splitOnP (List.mem_of_mem_filter hword) '\n' h
    contradiction

theorem lineFeed_notMem_linesFor (h : line ∈ linesFor fromUtf8Lossy tails key) :
  line ≠ [] ∧ '\n' ∉ line
  := by
  obtain ⟨tail, -, h⟩ := List.mem_flatMap.mp h
  obtain ⟨row, -, h⟩ := List.mem_filterMap.mp h
  rw [lineOf] at h
  split_ifs at h with hblank
  rw [not_or] at hblank
  rw [← Option.some.inj h]
  exact ⟨hblank.2, lineFeed_notMem_collapse _⟩

theorem cut_ne_nil (h : line ≠ []) :
  cut line ≠ []
  := by
  obtain ⟨c, rest, rfl⟩ := List.exists_cons_of_ne_nil h
  have hc : c.utf8Size ≤ MAX_MATCH_LINE_BYTES := c.utf8Size_le_four.trans (by decide)
  rw [cut, takeBytes, if_pos hc]
  apply List.cons_ne_nil

theorem utf8Len_unlines_le {n : ℕ} (h : ∀ line ∈ lines, utf8Len line ≤ n) :
  utf8Len (unlines lines) ≤ lines.length * (n + 1)
  := by
  induction lines with
  | nil => simp [unlines]
  | cons line lines ih =>
    rw [List.forall_mem_cons] at h
    have hrest := ih h.2
    have hfeed : utf8Len ['\n'] = 1 := rfl
    rw [unlines_cons, String.utf8Len_append, String.utf8Len_append, hfeed, List.length_cons,
      Nat.succ_mul]
    omega

theorem mem_bucketsOf {needles : List Text}
    (h : ∃ bucket ∈ bucketsOf fromUtf8Lossy toLowercase tails needles key, hit ∈ bucket) :
  ∃ line ∈ linesFor fromUtf8Lossy tails key, hit = cut line
  := by
  obtain ⟨bucket, hbucket, hhit⟩ := h
  obtain ⟨needle, -, rfl⟩ := List.mem_map.mp hbucket
  obtain ⟨line, hline, -, hcut⟩ := of_mem_mergedOf hhit
  use line, hline

/-- The text of a workspace is of cut lines, no two the same, and has the first of each needle. -/
theorem corpus_spec (tails : List (String × List UInt8)) {needles : List Text}
    (h : needles.length ≤ MAX_AGENT_OUTPUT_NEEDLES) (key : String) :
  ∃ kept, corpusFrom [] (roundRobin (bucketsOf fromUtf8Lossy toLowercase tails needles key))
      = unlines kept
    ∧ utf8Len (unlines kept) ≤ MATCH_CORPUS_BYTES ∧ kept.Nodup
    ∧ (∀ hit ∈ kept, ∃ line ∈ linesFor fromUtf8Lossy tails key, hit = cut line)
    ∧ ∀ needle ∈ needles, ∀ line,
        firstLine? fromUtf8Lossy toLowercase tails key needle = some line → cut line ∈ kept
  := by
  let buckets := bucketsOf fromUtf8Lossy toLowercase tails needles key
  obtain ⟨kept, hkept, hcorpus, hfits, hall⟩ :=
    corpusFrom_spec [] (roundRobin buckets) (Nat.zero_le _)
  rw [List.nil_append] at hcorpus
  have hextends := extends_foldl buckets [] (List.range MAX_MATCH_LINES_PER_NEEDLE)
  obtain ⟨-, hlength, hfirst⟩ := extends_roundRobinFrom (List.Subset.refl buckets) [] 0
  have hmem (hit) (hhit : hit ∈ roundRobin buckets) :
      ∃ line ∈ linesFor fromUtf8Lossy tails key, hit = cut line := by
    apply mem_bucketsOf
    exact (hextends.mem hit hhit).resolve_left List.not_mem_nil
  have hround : utf8Len (unlines (roundRobinFrom buckets [] 0)) ≤ MATCH_CORPUS_BYTES := by
    have hlines : ∀ hit ∈ roundRobinFrom buckets [] 0, utf8Len hit ≤ MAX_MATCH_LINE_BYTES := by
      intro hit hhit
      obtain ⟨line, -, rfl⟩ := hmem hit ((isPrefix_firstRound buckets).subset hhit)
      apply ByteOffset.utf8Len_takeBytes_le
    have hneedles : buckets.length = needles.length := List.length_map _
    apply (utf8Len_unlines_le hlines).trans
    rw [List.length_nil, Nat.zero_add, hneedles] at hlength
    apply (Nat.mul_le_mul_right _ (hlength.trans h)).trans
    decide
  use kept, hcorpus
  rw [hcorpus] at hfits
  use hfits, (hextends.nodup List.nodup_nil).sublist hkept.sublist
  constructor
  · intro hit hhit
    apply hmem hit (hkept.subset hhit)
  · intro needle hneedle line hline
    apply (hall _ (isPrefix_firstRound buckets) (by rwa [List.nil_append])).subset
    apply hfirst _ (List.mem_map_of_mem hneedle)
    rw [← List.head?_eq_getElem?, head?_mergedOf, hline, Option.map_some]

theorem bucketsOf_all_isEmpty {needles : List Text} :
  (bucketsOf fromUtf8Lossy toLowercase tails needles key).all List.isEmpty = true
    ↔ ¬∃ needle ∈ needles, Found fromUtf8Lossy toLowercase tails key needle
  := by
  rw [bucketsOf, all_isEmpty_map]
  simp [found_iff]

/-- A workspace in which something is found has a text. -/
theorem corpus_ne_nil {needles : List Text} (h : needles.length ≤ MAX_AGENT_OUTPUT_NEEDLES)
    (hneedle : needle ∈ needles) (hfound : Found fromUtf8Lossy toLowercase tails key needle) :
  corpusFrom [] (roundRobin (bucketsOf fromUtf8Lossy toLowercase tails needles key)) ≠ []
  := by
  obtain ⟨kept, hcorpus, -, -, hlines, hfirst⟩ := corpus_spec tails h key
  obtain ⟨line, hline⟩ := Option.isSome_iff_exists.mp (firstLine?_isSome_iff.mpr hfound)
  have hmem := List.mem_of_find?_eq_some hline
  have hcut : cut line ≠ [] := cut_ne_nil (lineFeed_notMem_linesFor hmem).1
  rw [hcorpus]
  intro hnil
  apply hcut
  apply List.eq_nil_iff_forall_not_mem.mpr
  intro c hc
  have hunlines : c ∈ unlines kept :=
    List.mem_flatMap.mpr ⟨cut line, hfirst needle hneedle line hline, List.mem_append_left _ hc⟩
  rw [hnil] at hunlines
  exact List.not_mem_nil hunlines

/-- The entries are of the workspaces in which something is found. -/
theorem mem_foldMatches
    {needles : List Text} (h : needles.length ≤ MAX_AGENT_OUTPUT_NEEDLES) {text : Text} :
  (key, text) ∈ foldMatches fromUtf8Lossy toLowercase tails needles
    ↔ (∃ needle ∈ needles, Found fromUtf8Lossy toLowercase tails key needle)
      ∧ text = corpusFrom [] (roundRobin (bucketsOf fromUtf8Lossy toLowercase tails needles key))
  := by
  rw [foldMatches, List.mem_filterMap]
  constructor
  · rintro ⟨key', -, hentry⟩
    rw [foldTails_eq] at hentry
    split_ifs at hentry with hnone
    · simp at hentry
    · rw [bucketsOf_all_isEmpty, not_not] at hnone
      simp only [Option.bind_eq_bind, Option.bind_some] at hentry
      split_ifs at hentry
      obtain ⟨rfl, rfl⟩ := Prod.mk.inj (Option.some.inj hentry)
      exact ⟨hnone, rfl⟩
  · rintro ⟨hfound, rfl⟩
    have hsome := bucketsOf_all_isEmpty.not_left.mpr hfound
    obtain ⟨needle, hneedle, hline⟩ := hfound
    use key
    constructor
    · obtain ⟨line, hmem, -⟩ := hline
      obtain ⟨tail, htail, -⟩ := List.mem_flatMap.mp hmem
      rw [List.mem_filter, decide_eq_true_iff] at htail
      rw [List.mem_mergeSort, List.mem_dedup, ← htail.2]
      apply List.mem_map_of_mem htail.1
    · rw [foldTails_eq, if_neg hsome]
      simp only [Option.bind_eq_bind, Option.bind_some]
      rw [if_neg (corpus_ne_nil h hneedle hline)]

/-! ### Needles in the text -/

/-- What lowercasing is known to do with a line feed: it stays, none comes to be, and what is before
it does not depend on what is behind it. -/
structure Lowers (toLowercase : Text → Text) : Prop where
  nil : toLowercase [] = []
  lineFeed : ∀ before after,
    toLowercase (before ++ '\n' :: after) = toLowercase before ++ '\n' :: toLowercase after
  notMem : ∀ text, '\n' ∉ text → '\n' ∉ toLowercase text

theorem infix_or_of_notMem {before after : Text} {c : Char} (hc : c ∉ needle)
    (h : needle <:+: before ++ c :: after) :
  needle <:+: before ∨ needle <:+: after
  := by
  rw [List.infix_append_iff_ne_nil] at h
  obtain h | h | ⟨first, last, -, hlast, rfl, -, hprefix⟩ := h
  · left
    exact h
  · obtain hprefix | h := List.infix_cons_iff.mp h
    · cases needle with
      | nil =>
        left
        apply List.nil_infix
      | cons d needle =>
        obtain ⟨rfl, -⟩ := List.cons_prefix_cons.mp hprefix
        exact absurd List.mem_cons_self hc
    · right
      exact h
  · obtain ⟨d, last, rfl⟩ := List.exists_cons_of_ne_nil hlast
    obtain ⟨rfl, -⟩ := List.cons_prefix_cons.mp hprefix
    exact absurd (List.mem_append_right _ List.mem_cons_self) hc

theorem has_unlines_cons (lowers : Lowers toLowercase) (line : Text) (lines : List Text)
    (needle : Text) :
  Has toLowercase (unlines (line :: lines)) needle
    ↔ needle <:+: toLowercase line ++ '\n' :: toLowercase (unlines lines)
  := by
  rw [Has, unlines_cons, List.append_assoc, List.singleton_append, lowers.lineFeed]

/-- A needle of a line is one of the text. -/
theorem has_unlines_of_mem (lowers : Lowers toLowercase) (hline : line ∈ lines)
    (h : Has toLowercase line needle) :
  Has toLowercase (unlines lines) needle
  := by
  induction lines with
  | nil => exact absurd hline List.not_mem_nil
  | cons first lines ih =>
    rw [has_unlines_cons lowers]
    obtain rfl | hline := List.mem_cons.mp hline
    · apply List.infix_append_of_infix_left h
    · apply List.infix_append_of_infix_right
      apply List.infix_cons (ih hline)

/-- A needle of the text is in no two of its lines. -/
theorem exists_has_of_has_unlines (lowers : Lowers toLowercase) (hneedle : needle ≠ [])
    (hfeed : '\n' ∉ needle) (h : Has toLowercase (unlines lines) needle) :
  ∃ line ∈ lines, Has toLowercase line needle
  := by
  induction lines with
  | nil =>
    rw [Has, unlines, List.flatMap_nil, lowers.nil, List.infix_nil] at h
    exact absurd h hneedle
  | cons first lines ih =>
    rw [has_unlines_cons lowers] at h
    obtain h | h := infix_or_of_notMem hfeed h
    · use first, List.mem_cons_self
      exact h
    · obtain ⟨line, hline, h⟩ := ih h
      use line, List.mem_cons_of_mem _ hline

theorem lineFeed_notMem_of_found (lowers : Lowers toLowercase)
    (h : Found fromUtf8Lossy toLowercase tails key needle) :
  '\n' ∉ needle
  := by
  obtain ⟨line, hline, h⟩ := h
  intro hfeed
  apply lowers.notMem line (lineFeed_notMem_linesFor hline).2
  apply h.subset hfeed

theorem length_normalizeNeedles_le (asked : List Text) :
  (normalizeNeedles toLowercase asked).length ≤ MAX_AGENT_OUTPUT_NEEDLES
  := List.length_take_le _ _

theorem ne_nil_of_mem_normalizeNeedles {asked : List Text}
    (h : needle ∈ normalizeNeedles toLowercase asked) :
  needle ≠ []
  := by
  rw [normalizeNeedles] at h
  simpa using (List.mem_filter.mp (List.mem_of_mem_take h)).2

/-- What the text has is in the kept part of some line. -/
theorem has_cut_of_has (lowers : Lowers toLowercase) {asked : List Text}
    {text : Text}
    (htext : (key, text) ∈ foldMatches fromUtf8Lossy toLowercase tails
      (normalizeNeedles toLowercase asked))
    (hneedle : needle ∈ normalizeNeedles toLowercase asked)
    (hfound : Found fromUtf8Lossy toLowercase tails key needle)
    (h : Has toLowercase text needle) :
  ∃ line ∈ linesFor fromUtf8Lossy tails key, Has toLowercase (cut line) needle
  := by
  have hlength := @length_normalizeNeedles_le toLowercase asked
  obtain ⟨kept, hcorpus, -, -, hcuts, -⟩ :=
    @corpus_spec fromUtf8Lossy toLowercase tails _ hlength key
  rw [mem_foldMatches hlength, hcorpus] at htext
  rw [htext.2] at h
  obtain ⟨hit, hhit, hhas⟩ := exists_has_of_has_unlines lowers
    (ne_nil_of_mem_normalizeNeedles hneedle) (lineFeed_notMem_of_found lowers hfound) h
  obtain ⟨line, hline, rfl⟩ := hcuts hit hhit
  use line, hline

/-- Exactly the workspaces in which something is found have a text.  It is of different lines and
within its limit.  What is found in a workspace is in its text if the first line that has it has it
in the part that is kept, and only if some line has it there. -/
theorem evidence_kept
    (fromUtf8Lossy : List UInt8 → Text) {toLowercase : Text → Text}
    (lowers : Lowers toLowercase) (asked : List Text) (tails : List (String × List UInt8))
    (key : String) :
  ((∃ text, (key, text) ∈ foldMatches fromUtf8Lossy toLowercase tails
        (normalizeNeedles toLowercase asked))
      ↔ ∃ needle ∈ normalizeNeedles toLowercase asked,
        Found fromUtf8Lossy toLowercase tails key needle)
    ∧ ∀ text, (key, text) ∈ foldMatches fromUtf8Lossy toLowercase tails
        (normalizeNeedles toLowercase asked) →
      (∃ kept, text = unlines kept ∧ kept.Nodup ∧ ∀ line ∈ kept, line ≠ [] ∧ '\n' ∉ line)
        ∧ utf8Len text ≤ MATCH_CORPUS_BYTES
        ∧ ∀ needle ∈ normalizeNeedles toLowercase asked,
          Found fromUtf8Lossy toLowercase tails key needle →
            ((∀ line, firstLine? fromUtf8Lossy toLowercase tails key needle = some line →
                Has toLowercase (cut line) needle) →
              Has toLowercase text needle)
            ∧ (Has toLowercase text needle →
                ∃ line ∈ linesFor fromUtf8Lossy tails key, Has toLowercase (cut line) needle)
  := by
  have hlength := @length_normalizeNeedles_le toLowercase asked
  obtain ⟨kept, hcorpus, hfits, hnodup, hcuts, hfirst⟩ :=
    @corpus_spec fromUtf8Lossy toLowercase tails _ hlength key
  constructor
  · simp only [mem_foldMatches hlength]
    simp
  · intro text htext
    have hentry := ((mem_foldMatches hlength).mp htext).2.trans hcorpus
    constructor
    · use kept, hentry, hnodup
      intro hit hhit
      obtain ⟨line, hline, rfl⟩ := hcuts hit hhit
      obtain ⟨hne, hfeed⟩ := lineFeed_notMem_linesFor hline
      use cut_ne_nil hne
      intro hmem
      apply hfeed
      apply (ByteOffset.takeBytes_isPrefix _ line).subset hmem
    · rw [← hentry] at hfits
      use hfits
      intro needle hneedle hfound
      constructor
      · intro hkept
        obtain ⟨line, hline⟩ := Option.isSome_iff_exists.mp (firstLine?_isSome_iff.mpr hfound)
        rw [hentry]
        apply has_unlines_of_mem lowers (hfirst needle hneedle line hline) (hkept line hline)
      · exact has_cut_of_has lowers htext hneedle hfound

end Search

/-! ### A needle that is too far in -/

def decodeAscii (bytes : List UInt8) : Text := bytes.map fun b => Char.ofNat b.toNat

theorem toLower_ne_lineFeed {c : Char} (h : c ≠ '\n') :
  c.toLower ≠ '\n'
  := by
  rw [Char.toLower]
  split_ifs with hupper
  · simp only [ge_iff_le, UInt32.le_iff_toNat_le] at hupper
    simp only [ne_eq, Char.ext_iff, ← UInt32.toNat_inj, UInt32.toNat_add]
    have hA : 'A'.val.toNat = 65 := rfl
    have hZ : 'Z'.val.toNat = 90 := rfl
    have hshift : ('a'.val - 'A'.val).toNat = 32 := rfl
    have hfeed : '\n'.val.toNat = 10 := rfl
    omega
  · exact h

theorem lowers_toAsciiLowercase :
  Lowers toAsciiLowercase
  := by
  constructor
  · rfl
  · intro before after
    simp [toAsciiLowercase]
  · intro text h hlower
    obtain ⟨c, hc, hfeed⟩ := List.mem_map.mp hlower
    apply toLower_ne_lineFeed (ne_of_mem_of_not_mem hc h) hfeed

/-- A workspace with the text of its needle. -/
theorem evidence_kept_lock :
  ∃ text, ("w", text) ∈ foldMatches decodeAscii toAsciiLowercase [("w", [0x4c, 0x6f, 0x63, 0x6b])]
      (normalizeNeedles toAsciiLowercase [['L', 'O', 'C', 'K']])
    ∧ Has toAsciiLowercase text ['l', 'o', 'c', 'k']
  := by
  obtain ⟨hentry, htext⟩ := evidence_kept decodeAscii lowers_toAsciiLowercase
    [['L', 'O', 'C', 'K']] [("w", [0x4c, 0x6f, 0x63, 0x6b])] "w"
  have hneedle :
      ['l', 'o', 'c', 'k'] ∈ normalizeNeedles toAsciiLowercase [['L', 'O', 'C', 'K']] := by
    decide
  have hfound : Found decodeAscii toAsciiLowercase [("w", [0x4c, 0x6f, 0x63, 0x6b])] "w"
      ['l', 'o', 'c', 'k'] := by
    use ['L', 'o', 'c', 'k']
    decide
  obtain ⟨text, hmem⟩ := hentry.mpr ⟨_, hneedle, hfound⟩
  use text, hmem
  apply ((htext text hmem).2.2 _ hneedle hfound).1
  intro line hline
  obtain rfl : ['L', 'o', 'c', 'k'] = line := Option.some.inj hline
  decide

/-- What a terminal shows with a needle behind the part of the line that is kept. -/
def deepTail : List UInt8 := List.replicate 512 0x78 ++ [0x6c, 0x6f, 0x63, 0x6b]

set_option maxRecDepth 20000 in
theorem linesFor_deepTail :
  linesFor decodeAscii [("w", deepTail)] "w"
    = [List.replicate 512 'x' ++ ['l', 'o', 'c', 'k']]
  := by
  decide

/-- A needle that a line of the workspace has is not in its text. -/
theorem deep_needle_lost :
  ¬∀ (fromUtf8Lossy : List UInt8 → Text) (toLowercase : Text → Text), Lowers toLowercase →
    ∀ (asked : List Text) (tails : List (String × List UInt8)) (key : String),
      ∀ needle ∈ normalizeNeedles toLowercase asked,
        Found fromUtf8Lossy toLowercase tails key needle →
          ∃ text, (key, text) ∈ foldMatches fromUtf8Lossy toLowercase tails
              (normalizeNeedles toLowercase asked)
            ∧ Has toLowercase text needle
  := by
  intro claim
  have hneedle :
      ['l', 'o', 'c', 'k'] ∈ normalizeNeedles toAsciiLowercase [['l', 'o', 'c', 'k']] := by
    decide
  have hfound : Found decodeAscii toAsciiLowercase [("w", deepTail)] "w" ['l', 'o', 'c', 'k'] := by
    rw [Found, linesFor_deepTail]
    use List.replicate 512 'x' ++ ['l', 'o', 'c', 'k'], List.mem_singleton_self _
    set_option maxRecDepth 20000 in decide
  obtain ⟨text, htext, hhas⟩ := claim decodeAscii toAsciiLowercase lowers_toAsciiLowercase
    [['l', 'o', 'c', 'k']] [("w", deepTail)] "w" _ hneedle hfound
  obtain ⟨line, hline, hcut⟩ := has_cut_of_has lowers_toAsciiLowercase htext hneedle hfound hhas
  rw [linesFor_deepTail, List.mem_singleton] at hline
  rw [hline] at hcut
  revert hcut
  set_option maxRecDepth 20000 in decide

end Lazybox.OutputSearch
