import Lazybox.Proxy.UsageParse

/-!
# The accumulator follows the frames of a stream

What the accumulator has after some bytes of an event stream is said by their frame alone: it has
scanned the events that were ended, one after the other, and of the open event it has read the data.
Once a response has ended it stays as it is.
-/

namespace Lazybox

/-! ### Reading up to a line end -/

namespace UsageJson

variable {ν : Type}

@[simp]
theorem string_value (s : UsageJson ν) (value : Value ν) :
  (s.value value).string = s.string
  := by
  rw [UsageJson.value]
  split
  · rfl
  · split
    · rfl
    · rfl

@[simp]
theorem string_scalar (s : UsageJson ν) (value : Value ν) :
  (s.scalar value).string = s.string
  := by
  rw [scalar]
  split
  · split
    · split
      · rfl
      · split
        · rfl
        · rfl
    · exact string_value s value
  · exact string_value s value

variable (serde : SerdeJson ν)

theorem string_completeToken (s : UsageJson ν) :
  (s.completeToken serde).string = s.string
  := by
  rw [completeToken]
  dsimp only
  split
  · rfl
  · split
    · exact string_scalar s _
    · split
      · exact string_scalar s _
      · split
        · exact string_scalar s _
        · rfl

variable {s : UsageJson ν}

variable {byte : UInt8}

/-- Only a quote ends a string. -/
theorem string_push (h : s.string = true) (hbyte : byte ≠ 0x22) :
  (s.push serde byte).string = true
  := by
  rw [push]
  split
  · exact h
  · rw [pushString]
    dsimp only
    rw [if_neg (fun hquote => hbyte hquote.1)]
    split
    · split
      · exact h
      · split
        · exact h
        · exact h
    · exact h

theorem finish_of_string (h : s.string = true) :
  s.finish serde = none
  := by
  rw [finish]
  exact if_pos (.inr (.inl (string_push serde h (by decide))))

theorem push_of_invalid (h : s.invalid = true) (byte : UInt8) :
  s.push serde byte = s
  := by
  rw [push, if_pos h]

theorem blank_of (h : byte = 0x20 ∨ byte = 0x0A) :
  byte = 0x20 ∨ byte = 0x09 ∨ byte = 0x0D ∨ byte = 0x0A
  := by
  obtain h | h := h
  · exact .inl h
  · exact .inr (.inr (.inr h))

/-- Between tokens, a line end and a blank change nothing. -/
theorem push_between (hstring : s.string = false) (htoken : s.token = [])
    (hbyte : byte = 0x20 ∨ byte = 0x0A) :
  s.push serde byte = s
  := by
  rw [push, hstring, if_neg Bool.false_ne_true, if_pos htoken, pushBetween, if_pos (blank_of hbyte)]
  split
  · rfl
  · rfl

/-- A line end and a blank both end a scalar. -/
theorem push_scalar (hvalid : s.invalid = false) (hstring : s.string = false)
    (htoken : s.token ≠ []) (hbyte : byte = 0x20 ∨ byte = 0x0A) :
  s.push serde byte = s.completeToken serde
  := by
  have hends : terminates byte = true := by
    obtain rfl | rfl := hbyte
    · rfl
    · rfl
  rw [push, hvalid, hstring, if_neg Bool.false_ne_true, if_neg Bool.false_ne_true, if_neg htoken,
    if_pos hends, pushBetween, if_pos (blank_of hbyte)]

/-- A line end after a document changes nothing. -/
theorem finish_push_lineFeed (s : UsageJson ν) :
  (s.push serde 0x0A).finish serde = s.finish serde
  := by
  cases hinvalid : s.invalid with
  | true => rw [push_of_invalid serde hinvalid]
  | false =>
    cases hstring : s.string with
    | true =>
      rw [finish_of_string serde hstring,
        finish_of_string serde (string_push serde hstring (by decide))]
    | false =>
      by_cases htoken : s.token = []
      · rw [push_between serde hstring htoken (.inr rfl)]
      · have hcompleted : (s.completeToken serde).string = false := by
          rw [string_completeToken, hstring]
        rw [finish, finish, push_scalar serde hinvalid hstring htoken (.inr rfl),
          push_scalar serde hinvalid hstring htoken (.inl rfl),
          push_between serde hcompleted rfl (.inl rfl)]

theorem read_concat_lineFeed (bytes : List UInt8) :
  read serde (bytes ++ [0x0A]) = read serde bytes
  := by
  rw [read, List.foldl_concat, finish_push_lineFeed, read]

end UsageJson

namespace UsageParse

open EventStream (CR LF DATA StreamFrame frame endsCr dataOf hasData dataText)

variable {ν P : Type}

/-! ### The open line -/

/-- Where a line is, by what it has so far. -/
def lineState (line : List UInt8) : Line :=
  if line = [] then .start
  else if (dataOf line).isSome then .data
  else if DATA.take line.length = line then .matched line.length
  else .ignore

variable {line : List UInt8}

theorem lineState_eq_data :
  lineState line = .data ↔ (dataOf line).isSome = true
  := by
  rw [lineState]
  split
  · next hnil =>
      rw [hnil]
      exact iff_of_false (fun h => nomatch h) (by decide)
  · split
    · next hdata => exact iff_of_true rfl hdata
    · next hdata =>
        split
        · exact iff_of_false (fun h => nomatch h) hdata
        · exact iff_of_false (fun h => nomatch h) hdata

theorem dataOf_eq_some {data : List UInt8} :
  dataOf line = some data ↔ DATA ++ data = line
  := List.isPrefixOf?_eq_some_iff_append_eq

/-- The data of a line that goes on. -/
theorem dataOf_concat_of_some {data : List UInt8} (h : dataOf line = some data) (byte : UInt8) :
  dataOf (line ++ [byte]) = some (data ++ [byte])
  := by
  rw [dataOf_eq_some] at h ⊢
  rw [← h, List.append_assoc]

/-- A line without data gets some when it becomes `data:`. -/
theorem dataOf_concat_of_none (h : dataOf line = none) (byte : UInt8) :
  dataOf (line ++ [byte]) = if line ++ [byte] = DATA then some [] else none
  := by
  split
  · next heq =>
      rw [dataOf_eq_some, heq, List.append_nil]
  · next hne =>
      rw [Option.eq_none_iff_forall_ne_some]
      intro data hdata
      rw [dataOf_eq_some] at hdata
      obtain rfl | ⟨front, last, rfl⟩ := List.eq_nil_or_concat' data
      · rw [List.append_nil] at hdata
        exact hne hdata.symm
      · rw [← List.append_assoc] at hdata
        have hline := (List.append_inj' hdata rfl).1
        rw [dataOf_eq_some.mpr hline] at h
        cases h

/-- A line that goes on follows `data:` when it did and the byte is the next one of it. -/
theorem take_concat_iff (byte : UInt8) :
  DATA.take (line ++ [byte]).length = line ++ [byte]
    ↔ DATA.take line.length = line ∧ DATA[line.length]? = some byte
  := by
  rw [List.length_append, List.length_singleton, List.take_add_one]
  constructor
  · intro h
    cases hbyte : DATA[line.length]? with
    | none =>
      have hlength := congrArg List.length h
      rw [hbyte, Option.toList_none, List.append_nil, List.length_take, List.length_append,
        List.length_singleton] at hlength
      omega
    | some next =>
      rw [hbyte, Option.toList_some] at h
      obtain ⟨hline, hnext⟩ := List.append_inj' h rfl
      exact ⟨hline, congrArg some (List.singleton_inj.mp hnext)⟩
  · rintro ⟨hline, hbyte⟩
    rw [hline, hbyte]
    rfl

theorem lineState_of_none (hne : line ≠ []) (hdata : dataOf line = none) :
  lineState line = if DATA.take line.length = line then .matched line.length else .ignore
  := by
  rw [lineState, if_neg hne, hdata]
  rfl

/-- A line that leaves `data:` is ignored. -/
theorem lineState_concat_of_leaves {byte : UInt8} (hdata : dataOf line = none)
    (hleaves : DATA.take (line ++ [byte]).length ≠ line ++ [byte]) :
  lineState (line ++ [byte]) = .ignore
  := by
  have hnext := dataOf_concat_of_none hdata byte
  rw [if_neg (fun h => hleaves (by rw [h]; rfl))] at hnext
  rw [lineState_of_none (List.concat_ne_nil byte line) hnext, if_neg hleaves]

/-- Where a line is after one more byte, which is no line end. -/
def Line.next (line : Line) (byte : UInt8) : Line :=
  match line with
  | .start => if byte = 0x64 then .matched 1 else .ignore
  | .matched n =>
      if DATA[n]? = some byte then if n = 4 then .data else .matched (n + 1) else .ignore
  | .data => .data
  | .ignore => .ignore

theorem lineState_concat (line : List UInt8) (byte : UInt8) :
  lineState (line ++ [byte]) = (lineState line).next byte
  := by
  have hne : line ++ [byte] ≠ [] := List.concat_ne_nil byte line
  cases hdata : dataOf line with
  | some data =>
    have hnext : (dataOf (line ++ [byte])).isSome = true := by
      rw [dataOf_concat_of_some hdata]
      rfl
    have hline : lineState line = .data := by
      rw [lineState_eq_data, hdata]
      rfl
    rw [lineState_eq_data.mpr hnext, hline, Line.next]
  | none =>
    have hnext := dataOf_concat_of_none hdata byte
    by_cases hnil : line = []
    · subst hnil
      by_cases hbyte : byte = 0x64
      · subst hbyte
        rfl
      · rw [lineState_concat_of_leaves hdata]
        · exact (if_neg hbyte).symm
        · rw [Ne, take_concat_iff]
          rintro ⟨-, h⟩
          exact hbyte (Option.some.inj h).symm
    · rw [lineState_of_none hnil hdata]
      by_cases htake : DATA.take line.length = line
      · rw [if_pos htake, Line.next]
        by_cases hbyte : DATA[line.length]? = some byte
        · rw [if_pos hbyte]
          have hgoes := (take_concat_iff byte).mpr ⟨htake, hbyte⟩
          by_cases hlength : line.length = 4
          · rw [if_pos hlength, lineState_eq_data, hnext, if_pos]
            · rfl
            · rw [← hgoes, List.length_append, hlength]
              rfl
          · rw [if_neg (fun h => hlength (by simpa [DATA] using congrArg List.length h))] at hnext
            rw [if_neg hlength, lineState_of_none hne hnext, if_pos hgoes, List.length_append]
            rfl
        · rw [if_neg hbyte]
          apply lineState_concat_of_leaves hdata
          exact fun h => hbyte ((take_concat_iff byte).mp h).2
      · rw [if_neg htake]
        apply lineState_concat_of_leaves hdata
        exact fun h => htake ((take_concat_iff byte).mp h).1

/-! ### Events -/

/-- What is read of an event, if it has data. -/
def record (serde : SerdeJson ν) (event : List (List UInt8)) : Option (Value ν) :=
  if hasData event then UsageJson.read serde (dataText event) else none

namespace UsageAccumulator

variable (meter : Meter ν P)

/-- The totals once an event was scanned. -/
def scanEvent (acc : UsageAccumulator ν P) (event : List (List UInt8)) : UsageAccumulator ν P :=
  match record meter.serde event with
  | some value => acc.scanValue meter value
  | none => acc

end UsageAccumulator

/-- Where the accumulator is in the stream. -/
structure Framing (ν : Type) where
  json : UsageJson ν
  wire : Wire
  line : Line
  lineNonempty : Bool
  eventData : Bool
  afterCr : Bool

/-- The data of the event that is open, as far as it goes. -/
def openText (f : StreamFrame) : List UInt8 := dataText f.lines ++ (dataOf f.line).getD []

/-- Where the accumulator is when the stream has a frame. -/
def framing (serde : SerdeJson ν) (f : StreamFrame) (afterCr : Bool) : Framing ν where
  json := (openText f).foldl (UsageJson.push serde) UsageJson.default
  wire := .sse
  line := lineState f.line
  lineNonempty := !f.line.isEmpty
  eventData := hasData f.unfinished
  afterCr := afterCr

namespace UsageAccumulator

/-- The accumulator at a place in the stream. -/
def placed (acc : UsageAccumulator ν P) (φ : Framing ν) : UsageAccumulator ν P :=
  { acc with
    json := φ.json
    wire := φ.wire
    line := φ.line
    lineNonempty := φ.lineNonempty
    eventData := φ.eventData
    afterCr := φ.afterCr }

variable (meter : Meter ν P)

variable (acc : UsageAccumulator ν P)

theorem scanTerminal_placed (φ : Framing ν) (value : Value ν) :
  (acc.placed φ).scanTerminal meter value = (acc.scanTerminal meter value).placed φ
  := by
  rw [scanTerminal, scanTerminal]
  dsimp only
  split
  · split
    · rfl
    · rfl
  · rfl

/-- Scanning a record goes by the totals, wherever the accumulator is. -/
theorem scanValue_placed (φ : Framing ν) (value : Value ν) :
  (acc.placed φ).scanValue meter value = (acc.scanValue meter value).placed φ
  := by
  rw [scanValue, scanValue]
  change (if acc.responses.isTerminal then _ else _) = _
  split
  · rfl
  · split
    · split
      · exact scanTerminal_placed meter { acc with responses := .streaming } φ value
      · rfl
    · rfl

/-- The end of an event scans what was read of it. -/
theorem endEvent_placed {φ : Framing ν} {event : List (List UInt8)} (hwire : φ.wire = .sse)
    (hdata : φ.eventData = hasData event)
    (hjson : φ.json.finish meter.serde = UsageJson.read meter.serde (dataText event)) :
  (acc.placed φ).endEvent meter
    = (acc.scanEvent meter event).placed
      { φ with json := if φ.eventData then UsageJson.default else φ.json, eventData := false }
  := by
  have hnotJson : decide (φ.wire = .json) = false := by
    rw [hwire]
    rfl
  rw [endEvent, scanEvent, record, ← hdata, ← hjson]
  change (if φ.eventData || decide (φ.wire = .json) then _ else _) = _
  rw [hnotJson, Bool.or_false]
  cases hhas : φ.eventData with
  | false =>
    rw [if_neg Bool.false_ne_true, if_neg Bool.false_ne_true, if_neg Bool.false_ne_true, ← hhas]
  | true =>
    rw [if_pos rfl, if_pos rfl, if_pos rfl]
    have htaken : (acc.placed φ).json = φ.json := rfl
    dsimp only
    rw [htaken]
    cases φ.json.finish meter.serde with
    | none => rfl
    | some value =>
      have hscan := scanValue_placed meter acc { φ with json := UsageJson.default } value
      exact congrArg (fun scanned => { scanned with eventData := false }) hscan

end UsageAccumulator

/-! ### Bytes -/

variable (meter : Meter ν P)

theorem endsCr_concat (bytes : List UInt8) (byte : UInt8) :
  endsCr (bytes ++ [byte]) = decide (byte = CR)
  := by
  rw [endsCr, List.getLast?_concat]
  simp

/-- A blank line has no data. -/
theorem record_concat_blank (serde : SerdeJson ν) (event : List (List UInt8)) :
  record serde (event ++ [[]]) = record serde event
  := by
  have hnone : dataOf [] = none := rfl
  rw [record, record, EventStream.hasData_concat, EventStream.dataText_concat, hnone,
    Option.isSome_none, Bool.or_false, Option.elim_none, List.append_nil]

/-- What was read of the open event is what is read of it once it ends. -/
theorem finish_framing (serde : SerdeJson ν) (f : StreamFrame) (afterCr : Bool) :
  (framing serde f afterCr).json.finish serde = UsageJson.read serde (dataText f.unfinished)
  := by
  rw [StreamFrame.unfinished, EventStream.dataText_concat]
  change UsageJson.read serde (openText f) = _
  rw [openText]
  cases dataOf f.line with
  | none => rfl
  | some data =>
    rw [Option.getD_some, Option.elim_some, ← List.append_assoc]
    exact (UsageJson.read_concat_lineFeed serde _).symm

namespace UsageAccumulator

variable {meter} {f : StreamFrame} {afterCr : Bool} {byte : UInt8}

theorem pushByte_placed {acc : UsageAccumulator ν P} (hlive : acc.responses.isTerminal = false) :
  (acc.placed (framing meter.serde f afterCr)).pushByte meter byte
    = (acc.placed (framing meter.serde f afterCr)).pushSse meter byte
  := by
  rw [pushByte]
  change (if acc.responses.isTerminal then _ else _) = _
  rw [hlive, if_neg Bool.false_ne_true]
  rfl

/-- Nothing is read of an event without data. -/
theorem json_framing_of_not_hasData (serde : SerdeJson ν) (h : hasData f.unfinished = false) :
  (framing serde f afterCr).json = UsageJson.default
  := by
  rw [StreamFrame.unfinished, EventStream.hasData_concat, Bool.or_eq_false_iff] at h
  have hnone : dataOf f.line = none := by
    rw [← Option.not_isSome_iff_eq_none, h.2]
    exact Bool.false_ne_true
  rw [framing, openText, EventStream.dataText_of_not_hasData h.1, hnone]
  rfl

variable (acc : UsageAccumulator ν P)

theorem pushSse_joined (hjoined : (afterCr && byte = LF) = true) :
  (acc.placed (framing meter.serde f afterCr)).pushSse meter byte
    = acc.placed (framing meter.serde f false)
  := by
  rw [pushSse]
  exact if_pos hjoined

section LineEnd

variable {acc} (hjoined : (acc.afterCr && byte = LF) = false) (hend : byte = CR ∨ byte = LF)
include hjoined hend

theorem pushSse_of_empty (hempty : acc.lineNonempty = false) :
  acc.pushSse meter byte
    = { { acc with afterCr := byte = CR }.endEvent meter with
        line := .start, lineNonempty := false }
  := by
  have hcond : (!acc.lineNonempty) = true := by
    rw [hempty]
    rfl
  rw [pushSse, hjoined, if_neg Bool.false_ne_true]
  dsimp only
  rw [if_pos hend, if_pos hcond]

theorem pushSse_of_nonempty (hnonempty : acc.lineNonempty = true) :
  acc.pushSse meter byte
    = { acc with
        json := if acc.line = .data then acc.json.push meter.serde LF else acc.json
        line := .start
        lineNonempty := false
        afterCr := byte = CR }
  := by
  have hcond : ¬ (!acc.lineNonempty) = true := by
    rw [hnonempty]
    exact Bool.false_ne_true
  rw [pushSse, hjoined, if_neg Bool.false_ne_true]
  dsimp only
  rw [if_pos hend, if_neg hcond]
  split
  · rfl
  · rfl

end LineEnd

/-- A line end on a blank line scans the event. -/
theorem pushSse_blank (hjoined : (afterCr && byte = LF) = false) (hend : byte = CR ∨ byte = LF)
    (hblank : f.line = []) (events : List (List (List UInt8))) :
  (acc.placed (framing meter.serde f afterCr)).pushSse meter byte
    = (acc.scanEvent meter f.lines).placed (framing meter.serde ⟨events, [], []⟩ (byte = CR))
  := by
  have hevent : acc.scanEvent meter f.unfinished = acc.scanEvent meter f.lines := by
    rw [StreamFrame.unfinished, hblank, scanEvent, record_concat_blank, scanEvent]
  have hended :
      (acc.placed (framing meter.serde f (byte = CR))).endEvent meter
        = (acc.scanEvent meter f.lines).placed
          { framing meter.serde f (byte = CR) with json := UsageJson.default, eventData := false }
      := by
    rw [endEvent_placed meter acc rfl rfl (finish_framing meter.serde f (byte = CR)), hevent]
    cases hdata : (framing meter.serde f (byte = CR)).eventData with
    | true => rw [if_pos rfl]
    | false =>
      rw [if_neg Bool.false_ne_true, json_framing_of_not_hasData meter.serde hdata]
  have hempty : (acc.placed (framing meter.serde f afterCr)).lineNonempty = false := by
    change (!f.line.isEmpty) = false
    rw [hblank]
    rfl
  rw [pushSse_of_empty hjoined hend hempty]
  change { (acc.placed (framing meter.serde f (byte = CR))).endEvent meter with
    line := Line.start, lineNonempty := false } = _
  rw [hended]
  rfl

/-- A line that ends has its data in the open event. -/
theorem openText_line (events : List (List (List UInt8))) (f : StreamFrame) :
  openText ⟨events, f.lines ++ [f.line], []⟩
    = openText f ++ if (dataOf f.line).isSome then [LF] else []
  := by
  have hnone : dataOf [] = none := rfl
  rw [openText, openText, EventStream.dataText_concat, hnone, Option.getD_none, List.append_nil,
    List.append_assoc]
  cases dataOf f.line with
  | none => rfl
  | some data => rfl

/-- A line end on another line leaves its data, if it has some, in the open event. -/
theorem pushSse_line (hjoined : (afterCr && byte = LF) = false) (hend : byte = CR ∨ byte = LF)
    (hline : f.line ≠ []) (events : List (List (List UInt8))) :
  (acc.placed (framing meter.serde f afterCr)).pushSse meter byte
    = acc.placed (framing meter.serde ⟨events, f.lines ++ [f.line], []⟩ (byte = CR))
  := by
  have hnonempty : (acc.placed (framing meter.serde f afterCr)).lineNonempty = true := by
    change (!f.line.isEmpty) = true
    rw [Bool.not_eq_true', List.isEmpty_eq_false_iff]
    exact hline
  have heventData :
      (framing meter.serde ⟨events, f.lines ++ [f.line], []⟩ (byte = CR)).eventData
        = (framing meter.serde f afterCr).eventData := by
    change hasData (f.lines ++ [f.line] ++ [[]]) = _
    rw [EventStream.hasData_concat]
    exact Bool.or_false _
  have hjson :
      (framing meter.serde ⟨events, f.lines ++ [f.line], []⟩ (byte = CR)).json
        = if lineState f.line = .data then (framing meter.serde f afterCr).json.push meter.serde LF
          else (framing meter.serde f afterCr).json := by
    have htext := openText_line events f
    split
    · next hstate =>
        rw [lineState_eq_data] at hstate
        rw [hstate, if_pos rfl] at htext
        rw [framing, htext, List.foldl_concat, framing]
    · next hstate =>
        rw [lineState_eq_data] at hstate
        rw [if_neg hstate, List.append_nil] at htext
        rw [framing, htext, framing]
  rw [pushSse_of_nonempty hjoined hend hnonempty]
  change { acc.placed (framing meter.serde f afterCr) with
    json :=
      if lineState f.line = Line.data then (framing meter.serde f afterCr).json.push meter.serde LF
      else (framing meter.serde f afterCr).json
    line := Line.start
    lineNonempty := false
    afterCr := byte = CR } = _
  rw [← hjson]
  change acc.placed { framing meter.serde ⟨events, f.lines ++ [f.line], []⟩ (byte = CR) with
    eventData := (framing meter.serde f afterCr).eventData } = _
  rw [← heventData]

theorem pushText_eq (acc : UsageAccumulator ν P) (h : acc.line = .data → acc.eventData = true) :
  acc.pushText meter byte
    = { acc with
        json := if acc.line = .data then acc.json.push meter.serde byte else acc.json
        line := acc.line.next byte
        lineNonempty := true
        eventData := acc.eventData || acc.line.next byte = .data }
  := by
  have hmatched (n : ℕ) : Line.matched n ≠ .data := fun h => nomatch h
  have hstart : Line.start ≠ .data := fun h => nomatch h
  have hignore : Line.ignore ≠ .data := fun h => nomatch h
  obtain ⟨json, wire, line, lineNonempty, eventData, _⟩ := acc
  rw [pushText]
  cases line with
  | start =>
    have hnext : Line.start.next byte ≠ .data := by
      rw [Line.next]
      split
      · exact hmatched 1
      · exact hignore
    rw [if_neg hstart, decide_eq_false hnext, Bool.or_false]
    rfl
  | matched n =>
    rw [if_neg (hmatched n), Line.next]
    dsimp only
    by_cases hbyte : DATA[n]? = some byte
    · rw [if_pos hbyte, if_pos hbyte]
      by_cases hlast : n = 4
      · rw [if_pos hlast, if_pos hlast, decide_eq_true rfl, Bool.or_true]
      · rw [if_neg hlast, if_neg hlast, decide_eq_false (hmatched _), Bool.or_false]
    · rw [if_neg hbyte, if_neg hbyte, decide_eq_false hignore, Bool.or_false]
  | data =>
    have hdata : eventData = true := h rfl
    rw [if_pos rfl, hdata, Bool.true_or]
    rfl
  | ignore =>
    rw [if_neg hignore, Line.next, decide_eq_false hignore, Bool.or_false]

/-- What is read of a line that goes on. -/
theorem openText_text (events : List (List (List UInt8))) (f : StreamFrame) (byte : UInt8) :
  openText ⟨events, f.lines, f.line ++ [byte]⟩
    = openText f ++ if lineState f.line = .data then [byte] else []
  := by
  rw [openText, openText, List.append_assoc]
  cases hdata : dataOf f.line with
  | some data =>
    have hstate : lineState f.line = .data := by
      rw [lineState_eq_data, hdata]
      rfl
    rw [dataOf_concat_of_some hdata, if_pos hstate]
    rfl
  | none =>
    have hstate : lineState f.line ≠ .data := by
      rw [Ne, lineState_eq_data, hdata]
      exact Bool.false_ne_true
    rw [dataOf_concat_of_none hdata, if_neg hstate]
    split
    · rfl
    · rfl

theorem hasData_unfinished (f : StreamFrame) :
  hasData f.unfinished = (hasData f.lines || lineState f.line = .data)
  := by
  rw [StreamFrame.unfinished, EventStream.hasData_concat]
  congr 1
  rw [Bool.eq_iff_iff, decide_eq_true_iff, lineState_eq_data]

/-- Any other byte goes on with the line. -/
theorem pushSse_text (hcr : byte ≠ CR) (hlf : byte ≠ LF) (events : List (List (List UInt8))) :
  (acc.placed (framing meter.serde f afterCr)).pushSse meter byte
    = acc.placed (framing meter.serde ⟨events, f.lines, f.line ++ [byte]⟩ false)
  := by
  have hjoined : (afterCr && decide (byte = LF)) = false := by
    rw [decide_eq_false hlf, Bool.and_false]
  have hend : ¬ (byte = CR ∨ byte = LF) := not_or.mpr ⟨hcr, hlf⟩
  have hdata : lineState f.line = .data → hasData f.unfinished = true := by
    intro h
    rw [hasData_unfinished, decide_eq_true h, Bool.or_true]
  have hstate := lineState_concat f.line byte
  have hjson :
      (framing meter.serde ⟨events, f.lines, f.line ++ [byte]⟩ false).json
        = if lineState f.line = .data then
            (framing meter.serde f afterCr).json.push meter.serde byte
          else (framing meter.serde f afterCr).json := by
    rw [framing, framing, openText_text]
    split
    · rw [List.foldl_concat]
    · rw [List.append_nil]
  have heventData :
      (framing meter.serde ⟨events, f.lines, f.line ++ [byte]⟩ false).eventData
        = (hasData f.unfinished || (lineState f.line).next byte = .data) := by
    change hasData (StreamFrame.unfinished ⟨events, f.lines, f.line ++ [byte]⟩) = _
    rw [hasData_unfinished, hasData_unfinished, hstate]
    by_cases h : lineState f.line = .data
    · rw [h, Line.next, decide_eq_true rfl, Bool.or_true, Bool.or_true]
    · rw [decide_eq_false h, Bool.or_false]
  have hnonempty :
      (framing meter.serde ⟨events, f.lines, f.line ++ [byte]⟩ false).lineNonempty = true := by
    change (!(f.line ++ [byte]).isEmpty) = true
    rw [Bool.not_eq_true', List.isEmpty_eq_false_iff]
    exact List.concat_ne_nil byte f.line
  rw [pushSse]
  change (if afterCr && decide (byte = LF) then _ else _) = _
  rw [hjoined, if_neg Bool.false_ne_true, decide_eq_false hcr, if_neg hend, pushText_eq]
  · change { acc.placed (framing meter.serde f afterCr) with
      json :=
        if lineState f.line = Line.data then
          (framing meter.serde f afterCr).json.push meter.serde byte
        else (framing meter.serde f afterCr).json
      line := (lineState f.line).next byte
      lineNonempty := true
      eventData := hasData f.unfinished || decide ((lineState f.line).next byte = Line.data)
      afterCr := false } = _
    rw [← hjson, ← heventData, ← hstate, ← hnonempty]
    rfl
  · exact hdata

/-! ### Runs -/

variable (meter)

/-- The accumulator once it has scanned events. -/
def scanAll (start : UsageAccumulator ν P) (events : List (List (List UInt8))) :
    UsageAccumulator ν P :=
  events.foldl (scanEvent meter) start

variable {start : UsageAccumulator ν P}

theorem scanAll_of_terminal
    (h : start.responses.isTerminal = true) (events : List (List (List UInt8))) :
  scanAll meter start events = start
  := by
  induction events with
  | nil => rfl
  | cons event events ih =>
    have hscan : scanEvent meter start event = start := by
      rw [scanEvent]
      split
      · rw [scanValue, if_pos h]
      · rfl
    rw [scanAll, List.foldl_cons, hscan]
    exact ih

theorem scanAll_append (start : UsageAccumulator ν P) (events events' : List (List (List UInt8))) :
  scanAll meter start (events ++ events') = scanAll meter (scanAll meter start events) events'
  := List.foldl_append

/-- The accumulator has followed a stream: it has scanned the ended events and is where the frame
says, unless one of them ended the response. -/
def Follows (start : UsageAccumulator ν P) (bytes : List UInt8) (acc : UsageAccumulator ν P) :
    Prop :=
  let scanned := scanAll meter start (frame bytes).events
  (scanned.responses.isTerminal = false
      ∧ acc = scanned.placed (framing meter.serde (frame bytes) (endsCr bytes)))
    ∨ (scanned.responses.isTerminal = true ∧ acc.responses = scanned.responses
      ∧ acc.wire = .sse ∧ acc.eventData = false)

variable {meter}

theorem follows_placed {scanned : UsageAccumulator ν P} {bytes : List UInt8} {afterCr : Bool}
    (hscanned : scanAll meter start (frame bytes).events = scanned) (hcr : endsCr bytes = afterCr)
    (hdata : scanned.responses.isTerminal = true → hasData (frame bytes).unfinished = false) :
  Follows meter start bytes (scanned.placed (framing meter.serde (frame bytes) afterCr))
  := by
  subst hscanned hcr
  cases hlive : (scanAll meter start (frame bytes).events).responses.isTerminal with
  | false =>
    left
    exact ⟨hlive, rfl⟩
  | true =>
    right
    exact ⟨hlive, rfl, rfl, hdata hlive⟩

/-- One byte keeps the accumulator with the stream. -/
theorem follows_pushByte {acc : UsageAccumulator ν P} {bytes : List UInt8}
    (h : Follows meter start bytes acc) (byte : UInt8) :
  Follows meter start (bytes ++ [byte]) (acc.pushByte meter byte)
  := by
  obtain ⟨hlive, rfl⟩ | ⟨hended, hresponses, hwire, hdata⟩ := h
  · rw [pushByte_placed hlive]
    cases hjoined : endsCr bytes && byte = LF with
    | true =>
      have hframe := EventStream.frame_concat_joined hjoined
      have hbyte : byte ≠ CR := by
        rw [Bool.and_eq_true, decide_eq_true_eq] at hjoined
        rw [hjoined.2]
        decide
      rw [pushSse_joined _ hjoined, ← hframe]
      apply follows_placed rfl
      · rw [endsCr_concat, decide_eq_false hbyte]
      · intro hended
        rw [hframe, hlive] at hended
        cases hended
    | false =>
      by_cases hend : byte = CR ∨ byte = LF
      · by_cases hblank : (frame bytes).line = []
        · have hframe := EventStream.frame_concat_blank hjoined hend hblank
          rw [pushSse_blank _ hjoined hend hblank, ← hframe]
          apply follows_placed _ (endsCr_concat bytes byte)
          · intro
            rw [hframe]
            rfl
          · rw [hframe, scanAll_append]
            rfl
        · have hframe := EventStream.frame_concat_line hjoined hend hblank
          have hevents := congrArg StreamFrame.events hframe
          rw [pushSse_line _ hjoined hend hblank, ← hframe]
          apply follows_placed _ (endsCr_concat bytes byte)
          · rw [hlive]
            exact fun h => nomatch h
          · rw [hevents]
      · rw [not_or] at hend
        have hframe : frame (bytes ++ [byte]) = _ := EventStream.frame_concat_text hend.1 hend.2
        have hevents := congrArg StreamFrame.events hframe
        rw [pushSse_text _ hend.1 hend.2, ← hframe]
        apply follows_placed
        · rw [hevents]
        · rw [endsCr_concat, decide_eq_false hend.1]
        · rw [hlive]
          exact fun h => nomatch h
  · obtain ⟨more, hmore⟩ := EventStream.events_prefix_append bytes [byte]
    have hscanned :
        scanAll meter start (frame (bytes ++ [byte])).events
          = scanAll meter start (frame bytes).events := by
      rw [← hmore, scanAll_append, scanAll_of_terminal meter hended]
    have hstays : acc.pushByte meter byte = acc := by
      rw [pushByte, hresponses, if_pos hended]
    right
    rw [hscanned, hstays]
    exact ⟨hended, hresponses, hwire, hdata⟩

/-- The accumulator of an event stream follows it. -/
theorem follows_push (prices : P) (countOnly : Bool) (bytes : List UInt8) :
  Follows meter (new prices countOnly) bytes
    (({ new prices countOnly with wire := .sse } : UsageAccumulator ν P).push meter bytes)
  := by
  induction bytes using List.reverseRecOn with
  | nil =>
    left
    exact ⟨rfl, rfl⟩
  | append_singleton bytes byte ih =>
    rw [push, List.foldl_concat]
    exact follows_pushByte ih byte

/-! ### Detecting the stream -/

variable (meter)

/-- Blank bytes come before the stream, which begins with the first other byte. -/
theorem push_new (prices : P) (countOnly : Bool) (bytes : List UInt8)
    (hsse : (bytes.dropWhile isAsciiWhitespace).head? ≠ some 0x7B) :
  (new prices countOnly : UsageAccumulator ν P).push meter bytes = new prices countOnly
      ∧ bytes.dropWhile isAsciiWhitespace = []
    ∨ (new prices countOnly : UsageAccumulator ν P).push meter bytes
      = ({ new prices countOnly with wire := .sse } : UsageAccumulator ν P).push meter
        (bytes.dropWhile isAsciiWhitespace)
  := by
  induction bytes with
  | nil =>
    left
    exact ⟨rfl, rfl⟩
  | cons byte bytes ih =>
    by_cases hblank : isAsciiWhitespace byte = true
    · have hskip :
          pushByte meter (new prices countOnly : UsageAccumulator ν P) byte
            = new prices countOnly := by
        rw [pushByte]
        apply (if_neg Bool.false_ne_true).trans
        exact if_pos ⟨rfl, hblank⟩
      rw [List.dropWhile_cons_of_pos hblank] at hsse ⊢
      rw [push, List.foldl_cons, hskip]
      exact ih hsse
    · right
      rw [List.dropWhile_cons_of_neg hblank] at hsse ⊢
      have hbyte : byte ≠ 0x7B := fun h => hsse (congrArg some h)
      have hfirst :
          pushByte meter (new prices countOnly : UsageAccumulator ν P) byte
            = pushByte meter { new prices countOnly with wire := .sse } byte := by
        have hwire : (if byte = 0x7B then Wire.json else Wire.sse) = Wire.sse := if_neg hbyte
        have hdetected :
            (if (new prices countOnly : UsageAccumulator ν P).wire = .detect then
                { new prices countOnly with wire := if byte = 0x7B then .json else .sse }
              else new prices countOnly : UsageAccumulator ν P)
              = { new prices countOnly with wire := .sse } := by
          rw [hwire]
          exact if_pos rfl
        rw [pushByte]
        apply (if_neg Bool.false_ne_true).trans
        apply (if_neg (fun h => hblank h.2)).trans
        dsimp only
        rw [hdetected]
        rfl
      rw [push, push, List.foldl_cons, List.foldl_cons, hfirst]

end UsageAccumulator

end UsageParse

end Lazybox
