import Lazybox.Proxy.CompactionPlan

/-!
# The payload of a tool result

The lines that are counted of a payload are lines of its text, so that what is cut out of a long
text is there.  A text that is set is the payload from then on, and a condensation is shorter than
the text it stands for.
-/

namespace Lazybox.Compaction

open Json (Value Path)
open Condense (CondenseKind)
open GitOps (textLines)
open ContextParse (linesOf linesOfItems linesOfField payload payloadLines)
open WorkingClaim (splitLines)

/-! ### Lines -/

theorem length_textLines (s : List Char) :
  (textLines s).length
    = (splitLines s).length - 1 + ((splitLines s).getLast?.toList.filter (· ≠ [])).length
  := by
  rw [textLines, List.length_append, List.length_map, List.length_dropLast]

theorem length_textLines_le (s : List Char) :
  (textLines s).length ≤ (splitLines s).length
  := by
  have hpos := List.length_pos_of_ne_nil (WorkingClaim.splitLines_ne_nil s)
  have hlast : ((splitLines s).getLast?.toList.filter (· ≠ [])).length ≤ 1 := by
    apply (List.length_filter_le _ _).trans
    cases (splitLines s).getLast? with
    | none => exact Nat.zero_le 1
    | some line => exact le_rfl
  rw [length_textLines]
  omega

/-- Two texts have their lines when they are joined. -/
theorem length_textLines_append (s t : List Char) :
  (textLines s).length + (textLines t).length ≤ (textLines (s ++ '\n' :: t)).length
  := by
  have hs := length_textLines_le s
  have hpos := List.length_pos_of_ne_nil (WorkingClaim.splitLines_ne_nil t)
  have hlast : (splitLines s ++ splitLines t).getLast? = (splitLines t).getLast? := by
    rw [List.getLast?_append_of_ne_nil _ (WorkingClaim.splitLines_ne_nil t)]
  rw [length_textLines t, length_textLines (s ++ '\n' :: t),
    WorkingClaim.splitLines_append_newline, hlast, List.length_append]
  omega

mutual

/-- The lines that are counted are lines of the text. -/
theorem linesOf_le : (value : Value) → linesOf value ≤ (textLines (textOf value)).length
  | .string text => by
      rw [linesOf, textOf]
  | .array items => by
      rw [linesOf, textOf]
      exact linesOfItems_le items
  | .object fields => by
      obtain ⟨htext, hlines⟩ := linesOfField_le "text" fields
      obtain ⟨hcontent, hlines'⟩ := linesOfField_le "content" fields
      obtain ⟨_, hlines''⟩ := linesOfField_le "output" fields
      rw [linesOf, textOf]
      cases h : textOfField "text" fields with
      | some text =>
          rw [h, Option.isSome_some, Option.isSome_iff_exists] at htext
          obtain ⟨lines, hcount⟩ := htext
          rw [h, hcount] at hlines
          rw [hcount]
          exact hlines
      | none =>
          rw [h, Option.isSome_none, Option.isSome_eq_false_iff, Option.isNone_iff_eq_none] at htext
          rw [htext, Option.none_or, Option.none_or]
          cases h' : textOfField "content" fields with
          | some text =>
              rw [h', Option.isSome_some, Option.isSome_iff_exists] at hcontent
              obtain ⟨lines, hcount⟩ := hcontent
              rw [h', hcount] at hlines'
              rw [hcount]
              exact hlines'
          | none =>
              rw [h', Option.isSome_none, Option.isSome_eq_false_iff,
                Option.isNone_iff_eq_none] at hcontent
              rw [hcontent, Option.none_or, Option.none_or]
              exact hlines''
  | .null => Nat.zero_le _
  | .bool value => by
      cases value with
      | _ => decide
  | .number printed => by
      rw [linesOf, textOf]

theorem linesOfItems_le :
    (items : List Value) →
      linesOfItems items ≤ (textLines (joinLines (textOfItems items))).length
  | [] => Nat.zero_le _
  | item :: items => by
      have hitem := linesOf_le item
      have hitems := linesOfItems_le items
      cases items with
      | nil => exact hitem
      | cons next items =>
          rw [linesOfItems, textOfItems]
          rw [textOfItems] at hitems ⊢
          rw [joinLines]
          · have hjoin := length_textLines_append (textOf item)
              (joinLines (textOf next :: textOfItems items))
            omega
          · exact List.cons_ne_nil _ _

theorem linesOfField_le (name : String) :
    (fields : List (String × Value)) →
      (linesOfField name fields).isSome = (textOfField name fields).isSome
        ∧ (linesOfField name fields).getD 0
          ≤ (textLines ((textOfField name fields).getD [])).length
  | [] => ⟨rfl, Nat.zero_le _⟩
  | (key, value) :: fields => by
      have hvalue := linesOf_le value
      have hfields := linesOfField_le name fields
      rw [linesOfField, textOfField]
      split
      · exact ⟨rfl, hvalue⟩
      · exact hfields

end

/-- No line is missing from the text of a payload whose lines are counted. -/
theorem payloadLines_le (unit : Value) :
  payloadLines unit ≤ (textLines (payloadText unit).toList).length
  := by
  rw [payloadLines, payloadText]
  cases payload unit with
  | none => exact Nat.zero_le _
  | some value =>
    dsimp only
    rw [String.toList_ofList]
    apply linesOf_le

/-! ### Setting a text -/

theorem payload_eq (unit : Value) :
  payload unit = unit.get (payloadKey unit)
  := by
  rw [payload, payloadKey]
  cases h : unit.get "output" with
  | none => rfl
  | some value => simp [h]

/-- A value in the place of the payload is the payload. -/
theorem payload_setAt {unit old : Value} (h : unit.get (payloadKey unit) = some old) (new : Value) :
  payload (Value.setAt new [.key (payloadKey unit)] unit) = some new
  := by
  have hkey :
      payloadKey (Value.setAt new [.key (payloadKey unit)] unit) = payloadKey unit := by
    rw [payloadKey, Value.isSome_get_setAt_key, payloadKey]
  rw [payload_eq, hkey, Value.get_setAt_key, if_pos rfl, h]
  rfl

/-- What a payload is set from: a text, or parts that are all text. -/
def IsText (value : Value) : Prop :=
  (∃ text, value = .string text) ∨ ∃ parts, value = .array parts ∧ parts.all isTextPart = true

variable {text : String}

theorem setPayloadText_eq_some {unit new : Value} (h : setPayloadText unit text = some new) :
  ∃ old value, unit.get (payloadKey unit) = some old ∧ IsText old
    ∧ new = Value.setAt value [.key (payloadKey unit)] unit
    ∧ (value = .string text ∨ value = .array [textPart text])
  := by
  rw [setPayloadText] at h
  cases hget : unit.get (payloadKey unit) with
  | none =>
    rw [hget] at h
    cases h
  | some old =>
    rw [hget] at h
    cases old with
    | string old =>
      cases h
      exact ⟨_, _, rfl, .inl ⟨old, rfl⟩, rfl, .inl rfl⟩
    | array parts =>
      dsimp only at h
      split at h
      · next hall =>
          cases h
          exact ⟨_, _, rfl, .inr ⟨parts, rfl, hall⟩, rfl, .inr rfl⟩
      · cases h
    | _ => cases h

/-- A text that is set is the text of the payload. -/
theorem payloadText_setPayloadText {unit new : Value} (h : setPayloadText unit text = some new) :
  payloadText new = text
  := by
  obtain ⟨old, value, hget, -, rfl, hvalue⟩ := setPayloadText_eq_some h
  rw [payloadText, payload_setAt hget]
  obtain rfl | rfl := hvalue
  · exact String.ofList_toList
  · exact String.ofList_toList

/-! ### Condensing -/

/-- A condensation is shorter than the text it stands for. -/
theorem utf8ByteSize_condense_lt {rendered : String} {kind : CondenseKind} {lines : ℕ}
    {tag : CondenseTag} (hlines : lines ≤ (textLines text.toList).length)
    (h : condense text kind lines tag = some rendered) :
  rendered.utf8ByteSize < text.utf8ByteSize
  := by
  rw [condense] at h
  split at h
  · cases h
  · next hlong =>
      dsimp only at h
      rw [Option.filter_eq_some_iff, decide_eq_true_eq] at h
      have hne : text.utf8ByteSize ≠ 0 := by
        rw [Ne, String.utf8ByteSize_eq_zero_iff]
        rintro rfl
        have hempty : (textLines "".toList).length = 0 := by decide
        omega
      obtain ⟨-, hsaved⟩ := h
      omega

/-! ### Slices -/

/-- A difference of lengths, which there is none of below zero. -/
def checkedSub (a b : ℕ) : Option ℕ := if b ≤ a then some (a - b) else none

/-- The lines before an index, which must be in range. -/
def sliceTo (lines : List Text) (stop : ℕ) : Option (List Text) :=
  if stop ≤ lines.length then some (lines.take stop) else none

/-- The lines from an index on, which must be in range. -/
def sliceFrom (lines : List Text) (start : ℕ) : Option (List Text) :=
  if start ≤ lines.length then some (lines.drop start) else none

/-- `condense` with every difference and every slice checked: there is no result where one of them
is out of range. -/
def condenseChecked (text : String) (kind : CondenseKind) (lines : ℕ) (tag : CondenseTag) :
    Option (Option String) :=
  if lines ≤ KEEP_HEAD_LINES + KEEP_TAIL_LINES then some none
  else do
    let all := textLines text.toList
    let rest ← checkedSub all.length KEEP_HEAD_LINES
    let elided ← checkedSub rest KEEP_TAIL_LINES
    let head ← sliceTo all KEEP_HEAD_LINES
    let start ← checkedSub all.length KEEP_TAIL_LINES
    let tail ← sliceFrom all start
    let summary := WorkingClaim.unlines head
      ++ ("… " ++ toString elided ++ " lines elided by lazybox context compaction; "
        ++ "re-read the source if you need them …\n").toList
      ++ WorkingClaim.unlines tail
    some ((renderCondensed kind lines summary tag).filter fun rendered =>
      text.utf8ByteSize ≤ 4 * (text.utf8ByteSize - rendered.utf8ByteSize))

/-- Where a text has the lines that are counted, nothing is out of range. -/
theorem condenseChecked_eq {lines : ℕ} (hlines : lines ≤ (textLines text.toList).length)
    (kind : CondenseKind) (tag : CondenseTag) :
  condenseChecked text kind lines tag = some (condense text kind lines tag)
  := by
  rw [condenseChecked, condense]
  split_ifs with hshort
  · rfl
  · have hhead : KEEP_HEAD_LINES ≤ (textLines text.toList).length := by omega
    have htail : KEEP_TAIL_LINES ≤ (textLines text.toList).length := by omega
    have hrest : KEEP_TAIL_LINES ≤ (textLines text.toList).length - KEEP_HEAD_LINES := by omega
    simp only [checkedSub, sliceTo, sliceFrom, if_pos hhead, if_pos htail, if_pos hrest,
      if_pos (Nat.sub_le _ _), Option.bind_eq_bind, Option.bind_some]

/-- No more lines are counted of a unit than its text has, and the lines that are kept of a text
that is condensed are there. -/
theorem condense_in_range (unit : Value) (kind : CondenseKind) (tag : CondenseTag) :
  payloadLines unit ≤ (textLines (payloadText unit).toList).length
    ∧ condenseChecked (payloadText unit) kind (payloadLines unit) tag
      = some (condense (payloadText unit) kind (payloadLines unit) tag)
  := by
  have hlines := payloadLines_le unit
  exact ⟨hlines, condenseChecked_eq hlines kind tag⟩

end Lazybox.Compaction
