import Lazybox.Pty.ReplayRing

/-!
# The blank rows of a seed

A scrollback that seeds a terminal is cut after the last of its rows that shows something, and the
newline that ends that row is kept.  A row is blank when there is nothing on it but white space and
escape sequences.
-/

namespace Lazybox.Scrollback

open ReplayRing (NEWLINE)

/-! ### Blank rows -/

def ESC : UInt8 := 0x1b

def BEL : UInt8 := 0x07

/-- The rest of a row after the final byte of a control sequence. -/
def skipCsi : List UInt8 → List UInt8
  | [] => []
  | byte :: line => if 0x40 ≤ byte && byte ≤ 0x7e then line else skipCsi line

/-- The rest of a row after an operating system command, which a bell ends or a string
terminator. -/
def skipOsc : List UInt8 → List UInt8
  | [] => []
  | byte :: line =>
      if byte = BEL then line
      else if byte = ESC && line.head? = some 0x5c then line.drop 1
      else skipOsc line

def isAsciiWhitespace (byte : UInt8) : Bool := [0x20, 0x09, 0x0a, 0x0c, 0x0d].contains byte

theorem length_skipCsi_le (line : List UInt8) :
  (skipCsi line).length ≤ line.length
  := by
  induction line with
  | nil => rfl
  | cons byte line ih =>
    rw [skipCsi]
    split_ifs
    · simp
    · apply ih.trans
      simp

theorem length_skipOsc_le (line : List UInt8) :
  (skipOsc line).length ≤ line.length
  := by
  induction line with
  | nil => rfl
  | cons byte line ih =>
    rw [skipOsc]
    split_ifs
    · simp
    · simp
      omega
    · apply ih.trans
      simp

/-- No byte of the row shows. -/
def isBlankCaptureLine : List UInt8 → Bool
  | [] => true
  | byte :: line =>
      if byte = ESC then
        match line with
        | [] => true
        | 0x5b :: line => isBlankCaptureLine (skipCsi line)
        | 0x5d :: line => isBlankCaptureLine (skipOsc line)
        -- Any other escape: its next byte is skipped.
        | _ :: line => isBlankCaptureLine line
      else if isAsciiWhitespace byte then isBlankCaptureLine line
      else false
termination_by line => line.length
decreasing_by
  · have := length_skipCsi_le line
    simp
    omega
  · have := length_skipOsc_le line
    simp
    omega
  · simp only [List.length_cons]
    omega
  · simp

/-! ### The end of the content -/

/-- The index of the last byte that is `byte`. -/
def rposition (byte : UInt8) : List UInt8 → Option ℕ
  | [] => none
  | b :: bytes =>
      match rposition byte bytes with
      | some i => some (i + 1)
      | none => if b = byte then some 0 else none

/-- Where the last row begins. -/
def lineStart (bytes : List UInt8) : ℕ := (rposition NEWLINE bytes).elim 0 (· + 1)

variable {bytes : List UInt8}

/-- A byte of a list has a last place in it. -/
theorem exists_last {byte : UInt8} (h : byte ∈ bytes) :
  ∃ front last, bytes = front ++ byte :: last ∧ byte ∉ last
  := by
  obtain ⟨last, front, hsplit, hlast⟩ := List.eq_append_cons_of_mem (List.mem_reverse.mpr h)
  use front.reverse, last.reverse
  constructor
  · rw [← List.reverse_inj, hsplit]
    simp
  · rw [List.mem_reverse]
    apply hlast

theorem rposition_of_notMem {byte : UInt8} (h : byte ∉ bytes) :
  rposition byte bytes = none
  := by
  induction bytes with
  | nil => rfl
  | cons b bytes ih =>
    rw [List.mem_cons, not_or] at h
    rw [rposition, ih h.2]
    exact if_neg fun hb => h.1 hb.symm

variable {last : List UInt8}

theorem rposition_append {byte : UInt8} (h : byte ∉ last) (front : List UInt8) :
  rposition byte (front ++ byte :: last) = some front.length
  := by
  induction front with
  | nil =>
    rw [List.nil_append, rposition, rposition_of_notMem h]
    exact if_pos rfl
  | cons b front ih =>
    rw [List.cons_append, rposition, ih]
    rfl

theorem lineStart_of_notMem (h : NEWLINE ∉ bytes) :
  lineStart bytes = 0
  := by
  rw [lineStart, rposition_of_notMem h]
  rfl

theorem lineStart_append (h : NEWLINE ∉ last) (front : List UInt8) :
  lineStart (front ++ NEWLINE :: last) = front.length + 1
  := by
  rw [lineStart, rposition_append h]
  rfl

/-- Either there is one row, or the last row follows a newline. -/
theorem one_row_or_last (bytes : List UInt8) :
  NEWLINE ∉ bytes ∨ ∃ front last, bytes = front ++ NEWLINE :: last ∧ NEWLINE ∉ last
  := by
  by_cases h : NEWLINE ∈ bytes
  · right
    apply exists_last h
  · left
    apply h

theorem length_take_lineStart_lt (h : bytes ≠ []) :
  (bytes.take (lineStart bytes - 1)).length < bytes.length
  := by
  obtain hone | ⟨front, last, rfl, hlast⟩ := one_row_or_last bytes
  · rw [lineStart_of_notMem hone, Nat.zero_sub, List.take_zero]
    apply List.length_pos_of_ne_nil h
  · rw [lineStart_append hlast, Nat.add_sub_cancel, List.take_left]
    simp

/-- The length of the bytes once the blank rows at their end are taken off, each with the newline
before it. -/
def contentEnd (bytes : List UInt8) : ℕ :=
  if h : bytes = [] then 0
  else if isBlankCaptureLine (bytes.drop (lineStart bytes)) then
    contentEnd (bytes.take (lineStart bytes - 1))
  else bytes.length
termination_by bytes.length
decreasing_by exact length_take_lineStart_lt h

def trimTrailingBlankSeed (buf : List UInt8) : List UInt8 :=
  let ce := contentEnd buf
  if ce = 0 then []
  else if ce < buf.length then buf.take (ce + 1)
  else buf

/-! ### Rows -/

/-- The rows of a text. -/
def rows (bytes : List UInt8) : List (List UInt8) := bytes.splitOn NEWLINE

theorem rows_of_notMem (h : NEWLINE ∉ bytes) :
  rows bytes = [bytes]
  := by
  apply List.splitOn_eq_singleton
  simpa using h

theorem rows_append (front last : List UInt8) :
  rows (front ++ NEWLINE :: last) = rows front ++ rows last
  := List.splitOn_append_cons_self ..

/-- One row is all content, unless it is blank. -/
theorem contentEnd_of_notMem (h : NEWLINE ∉ bytes) :
  contentEnd bytes = if isBlankCaptureLine bytes then 0 else bytes.length
  := by
  rw [contentEnd, lineStart_of_notMem h, List.drop_zero, Nat.zero_sub, List.take_zero]
  split_ifs with hnil hblank hblank'
  · rfl
  · rw [hnil]
    rfl
  · rw [contentEnd, dif_pos rfl]
  · rfl

/-- A last row that is blank is taken off with the newline before it. -/
theorem contentEnd_append (h : NEWLINE ∉ last) (front : List UInt8) :
  contentEnd (front ++ NEWLINE :: last)
    = if isBlankCaptureLine last then contentEnd front else (front ++ NEWLINE :: last).length
  := by
  have hdrop : (front ++ NEWLINE :: last).drop (front.length + 1) = last := by
    rw [← List.drop_drop, List.drop_left]
    rfl
  rw [contentEnd, dif_neg (by simp), lineStart_append h, hdrop, Nat.add_sub_cancel, List.take_left]

/-- What is taken off are the blank rows at the end, and no row that shows something. -/
structure Content (bytes : List UInt8) (e : ℕ) (front : List (List UInt8)) (last : List UInt8)
    (blanks : List (List UInt8)) : Prop where
  rows : rows bytes = front ++ last :: blanks
  shows : isBlankCaptureLine last = false
  blank : ∀ row ∈ blanks, isBlankCaptureLine row = true
  kept : Scrollback.rows (bytes.take e) = front ++ [last]
  pos : 0 < e
  stops : blanks = [] ∧ e = bytes.length ∨ blanks ≠ [] ∧ bytes[e]? = some NEWLINE

/-- A row that is not blank is not empty. -/
theorem length_pos_of_shows {row : List UInt8} (h : isBlankCaptureLine row = false) :
  0 < row.length
  := by
  cases row with
  | nil =>
    rw [isBlankCaptureLine] at h
    cases h
  | cons byte row => exact Nat.succ_pos _

variable {blanks front : List (List UInt8)}

theorem Content.le {e : ℕ} (h : Content bytes e front last blanks) :
  e ≤ bytes.length
  := by
  obtain ⟨-, hend⟩ | ⟨-, hstops⟩ := h.stops
  · apply hend.le
  · obtain ⟨hlt, -⟩ := List.getElem?_eq_some_iff.mp hstops
    apply hlt.le

/-- One more blank row is taken off. -/
theorem Content.append {row : List UInt8} {e : ℕ} (h : Content bytes e front last blanks)
    (hrow : NEWLINE ∉ row) (hblank : isBlankCaptureLine row = true) :
  Content (bytes ++ NEWLINE :: row) e front last (blanks ++ [row])
  := by
  constructor
  · rw [rows_append, rows_of_notMem hrow, h.rows]
    simp
  · apply h.shows
  · simpa [or_imp, forall_and, hblank] using h.blank
  · rw [List.take_append_of_le_length h.le]
    apply h.kept
  · apply h.pos
  · right
    constructor
    · simp
    · obtain ⟨-, hend⟩ | ⟨-, hstops⟩ := h.stops
      · rw [hend, List.getElem?_append_right le_rfl, Nat.sub_self]
        rfl
      · obtain ⟨hlt, -⟩ := List.getElem?_eq_some_iff.mp hstops
        rw [List.getElem?_append_left hlt]
        apply hstops

theorem contentEnd_cases (bytes : List UInt8) :
  contentEnd bytes = 0 ∧ (∀ row ∈ rows bytes, isBlankCaptureLine row = true)
    ∨ ∃ front last blanks, Content bytes (contentEnd bytes) front last blanks
  := by
  induction hn : bytes.length using Nat.strong_induction_on generalizing bytes with
  | _ n ih =>
    obtain hone | ⟨front, last, rfl, hlast⟩ := one_row_or_last bytes
    · rw [contentEnd_of_notMem hone]
      split_ifs with hblank
      · left
        rw [rows_of_notMem hone]
        exact ⟨rfl, List.forall_mem_singleton.mpr hblank⟩
      · right
        have hshows := eq_false_of_ne_true hblank
        use [], bytes, []
        constructor
        · rw [rows_of_notMem hone, List.nil_append]
        · apply hshows
        · exact fun _ h => absurd h List.not_mem_nil
        · rw [List.take_length, rows_of_notMem hone, List.nil_append]
        · apply length_pos_of_shows hshows
        · left
          exact ⟨rfl, rfl⟩
    · rw [contentEnd_append hlast, rows_append, rows_of_notMem hlast]
      split_ifs with hblank
      · obtain ⟨hzero, hblanks⟩ | ⟨before, shown, blanks, hcontent⟩ :=
          ih front.length (by simp [← hn]) front rfl
        · left
          constructor
          · apply hzero
          · simpa [or_imp, forall_and, hblank] using hblanks
        · right
          exact ⟨before, shown, blanks ++ [last], hcontent.append hlast hblank⟩
      · right
        have hshows := eq_false_of_ne_true hblank
        use rows front, last, []
        constructor
        · rw [rows_append, rows_of_notMem hlast]
        · apply hshows
        · exact fun _ h => absurd h List.not_mem_nil
        · rw [List.take_length, rows_append, rows_of_notMem hlast]
        · rw [List.length_append, List.length_cons]
          omega
        · left
          exact ⟨rfl, rfl⟩

/-! ### The seed -/

theorem trimTrailingBlankSeed_of_content (h : Content bytes (contentEnd bytes) front last blanks) :
  trimTrailingBlankSeed bytes
    = bytes.take (contentEnd bytes) ++ if blanks = [] then [] else [NEWLINE]
  := by
  rw [trimTrailingBlankSeed, if_neg h.pos.ne']
  obtain ⟨hblanks, hend⟩ | ⟨hblanks, hstops⟩ := h.stops
  · rw [if_neg hend.not_lt, if_pos hblanks, hend, List.take_length, List.append_nil]
  · obtain ⟨hlt, -⟩ := List.getElem?_eq_some_iff.mp hstops
    rw [if_pos hlt, if_neg hblanks, List.take_add_one, hstops]
    rfl

/-- Bytes whose last row shows something are all content. -/
theorem contentEnd_of_rows (h : rows bytes = front ++ [last])
    (shows : isBlankCaptureLine last = false) :
  contentEnd bytes = bytes.length
  := by
  obtain ⟨-, hblank⟩ | ⟨front', last', blanks, hcontent⟩ := contentEnd_cases bytes
  · rw [h] at hblank
    have hlast := hblank last (List.mem_append_right _ (List.mem_singleton_self _))
    rw [shows] at hlast
    cases hlast
  · obtain ⟨-, hend⟩ | ⟨hblanks, -⟩ := hcontent.stops
    · apply hend
    · obtain hnil | ⟨before, row, rfl⟩ := List.eq_nil_or_concat blanks
      · exact absurd hnil hblanks
      · have hrows := hcontent.rows
        rw [h, List.concat_eq_append, ← List.cons_append, ← List.append_assoc] at hrows
        obtain ⟨-, hrow⟩ := List.append_inj' hrows rfl
        cases hrow
        have hlast := hcontent.blank last (by simp)
        rw [shows] at hlast
        cases hlast

/-- A seed that was trimmed is not trimmed further. -/
theorem trimTrailingBlankSeed_trimTrailingBlankSeed (bytes : List UInt8) :
  trimTrailingBlankSeed (trimTrailingBlankSeed bytes) = trimTrailingBlankSeed bytes
  := by
  obtain ⟨hzero, -⟩ | ⟨front, last, blanks, hcontent⟩ := contentEnd_cases bytes
  · have hempty : trimTrailingBlankSeed bytes = [] := by
      rw [trimTrailingBlankSeed, if_pos hzero]
    rw [hempty, trimTrailingBlankSeed, contentEnd, dif_pos rfl]
    rfl
  · have hlength := contentEnd_of_rows hcontent.kept hcontent.shows
    have hpos : 0 < (bytes.take (contentEnd bytes)).length := by
      rw [List.length_take_of_le hcontent.le]
      apply hcontent.pos
    rw [trimTrailingBlankSeed_of_content hcontent]
    generalize bytes.take (contentEnd bytes) = content at hlength hpos
    split_ifs
    · rw [List.append_nil, trimTrailingBlankSeed, hlength, if_neg hpos.ne', if_neg (lt_irrefl _)]
    · have hend : contentEnd (content ++ [NEWLINE]) = content.length := by
        rw [contentEnd_append List.not_mem_nil, if_pos, hlength]
        rw [isBlankCaptureLine]
      rw [trimTrailingBlankSeed, hend, if_neg hpos.ne', if_pos (by simp)]
      apply List.take_of_length_le
      simp

/-- Trimming a seed keeps its content: it stays as it is up to the last row that shows something,
and the newline that ends that row is kept.  Nothing is left when every row is blank. -/
theorem trim_keeps_content (bytes : List UInt8) :
  trimTrailingBlankSeed bytes <+: bytes
    ∧ (trimTrailingBlankSeed bytes = [] ↔ ∀ row ∈ rows bytes, isBlankCaptureLine row = true)
    ∧ (trimTrailingBlankSeed bytes ≠ [] →
        ∃ front last blanks, rows bytes = front ++ last :: blanks
          ∧ isBlankCaptureLine last = false
          ∧ (∀ row ∈ blanks, isBlankCaptureLine row = true)
          ∧ rows (trimTrailingBlankSeed bytes)
            = front ++ last :: if blanks = [] then [] else [[]])
    ∧ trimTrailingBlankSeed (trimTrailingBlankSeed bytes) = trimTrailingBlankSeed bytes
    ∧ (0 < contentEnd bytes → contentEnd bytes < bytes.length →
        bytes[contentEnd bytes]? = some NEWLINE)
  := by
  refine ⟨?_, ?_, ?_, trimTrailingBlankSeed_trimTrailingBlankSeed bytes, ?_⟩
  · rw [trimTrailingBlankSeed]
    split_ifs
    · apply List.nil_prefix
    · apply List.take_prefix
    · apply List.prefix_rfl
  · obtain ⟨hzero, hblank⟩ | ⟨front, last, blanks, hcontent⟩ := contentEnd_cases bytes
    · rw [trimTrailingBlankSeed, if_pos hzero]
      exact ⟨fun _ => hblank, fun _ => rfl⟩
    · constructor
      · intro hempty
        rw [trimTrailingBlankSeed_of_content hcontent, List.append_eq_nil_iff] at hempty
        have hlength := congrArg List.length hempty.1
        rw [List.length_take_of_le hcontent.le] at hlength
        exact absurd hlength hcontent.pos.ne'
      · intro hblank
        have hlast := hblank last (by simp [hcontent.rows])
        rw [hcontent.shows] at hlast
        cases hlast
  · intro hne
    obtain ⟨hzero, -⟩ | ⟨front, last, blanks, hcontent⟩ := contentEnd_cases bytes
    · rw [trimTrailingBlankSeed, if_pos hzero] at hne
      exact absurd rfl hne
    · use front, last, blanks, hcontent.rows, hcontent.shows, hcontent.blank
      rw [trimTrailingBlankSeed_of_content hcontent]
      split_ifs
      · rw [List.append_nil, hcontent.kept]
      · rw [rows_append, hcontent.kept, List.append_assoc]
        rfl
  · intro hpos hlt
    obtain ⟨hzero, -⟩ | ⟨front, last, blanks, hcontent⟩ := contentEnd_cases bytes
    · exact absurd hzero hpos.ne'
    · obtain ⟨-, hend⟩ | ⟨-, hstops⟩ := hcontent.stops
      · exact absurd hend hlt.ne
      · apply hstops

end Lazybox.Scrollback
