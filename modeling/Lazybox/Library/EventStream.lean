import Mathlib.Data.List.Induction

/-!
# Event streams

The framing of server-sent events.  A line is ended by a line feed, a carriage return, or the latter
and then the former.  An event is a list of lines, ended by a blank line.  Its data is what follows
`data:` on those of its lines that begin so; other fields and comments are not kept.

`frame` has the events of a stream that were ended, and the lines of the one that is still open, of
which the last one is still open too.  The lemmas say how a frame changes by one more byte.
-/

/-! ### Lists cut at a separator -/

namespace List

variable {α : Type*} [DecidableEq α] (sep : α)

/-- The segments of a list that the separator ends. -/
def ended (l : List α) : List (List α) := (l.splitOn sep).dropLast

/-- What follows the last separator of a list. -/
def unended (l : List α) : List α := (l.splitOn sep).getLastD []

theorem ended_append_unended (l : List α) :
  l.ended sep ++ [l.unended sep] = l.splitOn sep
  := by
  rw [ended, unended, getLastD_eq_getLast?, getLast?_eq_some_getLast (splitOn_ne_nil sep l),
    Option.getD_some, dropLast_concat_getLast]

/-- An element that is no separator goes to the last segment. -/
theorem exists_splitOn_concat {x : α} (h : x ≠ sep) (l : List α) :
  ∃ front last, l.splitOn sep = front ++ [last]
    ∧ (l ++ [x]).splitOn sep = front ++ [last ++ [x]]
  := by
  induction l with
  | nil =>
    use [], []
    refine ⟨rfl, ?_⟩
    rw [nil_append, splitOn_cons_eq_if_modifyHead, if_neg (by simpa using h)]
    rfl
  | cons y l ih =>
    obtain ⟨front, last, hl, hx⟩ := ih
    rw [cons_append, splitOn_cons_eq_if_modifyHead, splitOn_cons_eq_if_modifyHead, hl, hx]
    by_cases hy : (y == sep) = true
    · rw [if_pos hy, if_pos hy]
      use [] :: front, last
      exact ⟨rfl, rfl⟩
    · rw [if_neg hy, if_neg hy]
      cases front with
      | nil =>
        use [], y :: last
        exact ⟨rfl, rfl⟩
      | cons first front =>
        use (y :: first) :: front, last
        exact ⟨rfl, rfl⟩

@[simp]
theorem ended_concat_self (l : List α) :
  (l ++ [sep]).ended sep = l.ended sep ++ [l.unended sep]
  := by
  rw [ended_append_unended, ended, splitOn_append_cons_self, splitOn_nil, dropLast_concat]

@[simp]
theorem unended_concat_self (l : List α) :
  (l ++ [sep]).unended sep = []
  := by
  rw [unended, splitOn_append_cons_self, splitOn_nil, getLastD_concat]

theorem ended_concat_of_ne {x : α} (h : x ≠ sep) (l : List α) :
  (l ++ [x]).ended sep = l.ended sep
  := by
  obtain ⟨front, last, hl, hx⟩ := exists_splitOn_concat sep h l
  rw [ended, ended, hl, hx, dropLast_concat, dropLast_concat]

theorem unended_concat_of_ne {x : α} (h : x ≠ sep) (l : List α) :
  (l ++ [x]).unended sep = l.unended sep ++ [x]
  := by
  obtain ⟨front, last, hl, hx⟩ := exists_splitOn_concat sep h l
  rw [unended, unended, hl, hx, getLastD_concat, getLastD_concat]

end List

/-! ### Lines -/

namespace EventStream

def CR : UInt8 := 0x0D

def LF : UInt8 := 0x0A

/-- The bytes with each line end as a line feed, after a carriage return or not. -/
def unifyAfter (afterCr : Bool) : List UInt8 → List UInt8
  | [] => []
  | byte :: bytes =>
      if afterCr && byte = LF then unifyAfter false bytes
      else (if byte = CR then LF else byte) :: unifyAfter (byte = CR) bytes

/-- The events that were ended, the ended lines of the event that is open, and the line that is. -/
structure StreamFrame where
  events : List (List (List UInt8))
  lines : List (List UInt8)
  line : List UInt8

def frame (bytes : List UInt8) : StreamFrame :=
  let text := unifyAfter false bytes
  ⟨(text.ended LF).ended [], (text.ended LF).unended [], text.unended LF⟩

/-- The event that is open. -/
def StreamFrame.unfinished (f : StreamFrame) : List (List UInt8) := f.lines ++ [f.line]

/-- The last byte is a carriage return that goes with no line feed yet. -/
def endsCr (bytes : List UInt8) : Bool := bytes.getLast? = some CR

theorem unifyAfter_concat (afterCr : Bool) (bytes : List UInt8) (byte : UInt8) :
  unifyAfter afterCr (bytes ++ [byte])
    = unifyAfter afterCr bytes
      ++ if (bytes.getLast?.elim afterCr (· = CR)) && byte = LF then []
        else [if byte = CR then LF else byte]
  := by
  induction bytes generalizing afterCr with
  | nil =>
    rw [List.nil_append, unifyAfter, unifyAfter, unifyAfter]
    rfl
  | cons first bytes ih =>
    have hlast (b : Bool) :
        (first :: bytes).getLast?.elim b (· = CR)
          = bytes.getLast?.elim (decide (first = CR)) (· = CR) := by
      rw [List.getLast?_cons]
      cases bytes.getLast? with
      | none => rfl
      | some last => rfl
    rw [List.cons_append, unifyAfter, unifyAfter, ih, ih, hlast]
    by_cases hjoined : (afterCr && first = LF) = true
    · have hcr : decide (first = CR) = false := by
        rw [Bool.and_eq_true, decide_eq_true_eq] at hjoined
        rw [hjoined.2]
        rfl
      rw [if_pos hjoined, if_pos hjoined, hcr]
    · rw [if_neg hjoined, if_neg hjoined]
      rfl

variable (bytes : List UInt8) (byte : UInt8)

theorem unify_concat :
  unifyAfter false (bytes ++ [byte])
    = unifyAfter false bytes
      ++ if endsCr bytes && byte = LF then [] else [if byte = CR then LF else byte]
  := by
  have hlast : bytes.getLast?.elim false (fun last => decide (last = CR)) = endsCr bytes := by
    rw [endsCr]
    cases bytes.getLast? with
    | none => rfl
    | some last => simp
  rw [unifyAfter_concat, hlast]

variable {bytes} {byte}

/-- A line feed right after a carriage return is of the same line end. -/
theorem frame_concat_joined (h : (endsCr bytes && byte = LF) = true) :
  frame (bytes ++ [byte]) = frame bytes
  := by
  rw [frame, unify_concat, if_pos h, List.append_nil, frame]

theorem frame_concat_lineEnd
    (hjoined : (endsCr bytes && byte = LF) = false) (hend : byte = CR ∨ byte = LF) :
  frame (bytes ++ [byte])
    = ⟨((unifyAfter false bytes).ended LF ++ [(frame bytes).line]).ended [],
        ((unifyAfter false bytes).ended LF ++ [(frame bytes).line]).unended [], []⟩
  := by
  have hbyte : (if byte = CR then LF else byte) = LF := by
    split
    · rfl
    · next hcr => exact hend.resolve_left hcr
  rw [frame, unify_concat, hjoined, if_neg Bool.false_ne_true, hbyte, List.ended_concat_self,
    List.unended_concat_self]
  rfl

/-- A line end on a blank line ends the event. -/
theorem frame_concat_blank (hjoined : (endsCr bytes && byte = LF) = false)
    (hend : byte = CR ∨ byte = LF) (hblank : (frame bytes).line = []) :
  frame (bytes ++ [byte]) = ⟨(frame bytes).events ++ [(frame bytes).lines], [], []⟩
  := by
  rw [frame_concat_lineEnd hjoined hend, hblank, List.ended_concat_self, List.unended_concat_self]
  rfl

/-- A line end on another line ends the line. -/
theorem frame_concat_line (hjoined : (endsCr bytes && byte = LF) = false)
    (hend : byte = CR ∨ byte = LF) (hline : (frame bytes).line ≠ []) :
  frame (bytes ++ [byte])
    = ⟨(frame bytes).events, (frame bytes).lines ++ [(frame bytes).line], []⟩
  := by
  rw [frame_concat_lineEnd hjoined hend, List.ended_concat_of_ne [] hline,
    List.unended_concat_of_ne [] hline]
  rfl

/-- Any other byte goes to the open line. -/
theorem frame_concat_text (hcr : byte ≠ CR) (hlf : byte ≠ LF) :
  frame (bytes ++ [byte])
    = ⟨(frame bytes).events, (frame bytes).lines, (frame bytes).line ++ [byte]⟩
  := by
  have hjoined : (endsCr bytes && byte = LF) = false := by
    rw [decide_eq_false hlf, Bool.and_false]
  rw [frame, unify_concat, hjoined, if_neg Bool.false_ne_true, if_neg hcr,
    List.ended_concat_of_ne LF hlf, List.unended_concat_of_ne LF hlf]
  rfl

/-- An event that was ended stays as it is. -/
theorem events_prefix_append (bytes more : List UInt8) :
  (frame bytes).events <+: (frame (bytes ++ more)).events
  := by
  induction more using List.reverseRecOn with
  | nil =>
    use []
    rw [List.append_nil, List.append_nil]
  | append_singleton more byte ih =>
    apply ih.trans
    rw [← List.append_assoc]
    cases hjoined : endsCr (bytes ++ more) && byte = LF with
    | true =>
      use []
      rw [frame_concat_joined hjoined, List.append_nil]
    | false =>
      by_cases hend : byte = CR ∨ byte = LF
      · by_cases hblank : (frame (bytes ++ more)).line = []
        · rw [frame_concat_blank hjoined hend hblank]
          exact List.prefix_append _ _
        · use []
          rw [frame_concat_line hjoined hend hblank, List.append_nil]
      · rw [not_or] at hend
        use []
        rw [frame_concat_text hend.1 hend.2, List.append_nil]

/-! ### Data -/

/-- `data:` -/
def DATA : List UInt8 := [0x64, 0x61, 0x74, 0x61, 0x3A]

/-- What follows `data:` on a line that begins so. -/
def dataOf (line : List UInt8) : Option (List UInt8) := DATA.isPrefixOf? line

/-- An event that has data. -/
def hasData (event : List (List UInt8)) : Bool := event.any fun line => (dataOf line).isSome

/-- The data of an event, each line of it ended. -/
def dataText (event : List (List UInt8)) : List UInt8 :=
  (event.filterMap dataOf).flatMap (· ++ [LF])

theorem hasData_concat (event : List (List UInt8)) (line : List UInt8) :
  hasData (event ++ [line]) = (hasData event || (dataOf line).isSome)
  := by
  rw [hasData, List.any_append, List.any_cons, List.any_nil, Bool.or_false]
  rfl

theorem dataText_concat (event : List (List UInt8)) (line : List UInt8) :
  dataText (event ++ [line]) = dataText event ++ (dataOf line).elim [] (· ++ [LF])
  := by
  rw [dataText, List.filterMap_append, List.flatMap_append, ← dataText, List.filterMap_cons]
  cases dataOf line with
  | none => rfl
  | some data =>
    rw [List.filterMap_nil, List.flatMap_singleton]
    rfl

/-- Without data there is no text of it. -/
theorem dataText_of_not_hasData {event : List (List UInt8)} (h : hasData event = false) :
  dataText event = []
  := by
  have hnone : event.filterMap dataOf = [] := by
    rw [List.filterMap_eq_nil_iff]
    intro line hline
    rw [hasData, List.any_eq_false] at h
    exact Option.not_isSome_iff_eq_none.mp (h line hline)
  rw [dataText, hnone]
  rfl

end EventStream
