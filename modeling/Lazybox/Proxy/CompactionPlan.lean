import Mathlib.Data.List.Sort
import Lazybox.Proxy.ContextHygiene

/-!
# Planning the compaction of a request

One pass over the conversation of a request condenses the tool results the policy allows it to:
those whose call is known, that are old and long enough, and whose payload is text.  A mutable
reference into the body is a path here, at which a value is read and replaced.

The codec of JSON is a parameter.
-/

namespace Lazybox.Compaction

open Json (Value Step Path)
open Condense (CondenseKind)
open GitOps (textLines)
open ContextParse (field isResultItem isResultBlock payload payloadLines)

/-- `serde_json`, at the functions it is used at. -/
structure Serde where
  fromStr : String → Option Value
  fromSlice : Bytes → Option Value
  toVec : Value → Option Bytes

/-! ### Units -/

/-- The place of the conversation in a body. -/
def conversationMut (body : Value) : Option Path :=
  let key := if (body.get "messages").isSome then "messages" else "input"
  ((body.get key).bind Value.asArray).map fun _ => [.key key]

/-- The places of the blocks of an item that are tool results. -/
def resultBlocksMut (item : Value) : List Path :=
  (((item.get "content").bind Value.asArray).getD []).zipIdx.filterMap fun (block, j) =>
    if isResultBlock block then some [.key "content", .index j] else none

/-- The places of the tool results in a conversation. -/
def toolResultUnitsMut (array : List Value) : List Path :=
  array.zipIdx.flatMap fun (item, i) =>
    (if isResultItem item then [[]] else resultBlocksMut item).map (.index i :: ·)

/-! ### Payloads -/

def joinLines : List (List Char) → List Char
  | [] => []
  | [text] => text
  | text :: texts => text ++ '\n' :: joinLines texts

mutual

def textOf : Value → List Char
  | .string text => text.toList
  | .array items => joinLines (textOfItems items)
  | .object fields =>
      ((textOfField "text" fields).or ((textOfField "content" fields).or
        (textOfField "output" fields))).getD []
  | .null => "null".toList
  | .bool value => (if value then "true" else "false").toList
  | .number printed => printed.toList

def textOfItems : List Value → List (List Char)
  | [] => []
  | item :: items => textOf item :: textOfItems items

/-- The text of the field of a name. -/
def textOfField (name : String) : List (String × Value) → Option (List Char)
  | [] => none
  | (key, value) :: fields =>
      if key = name then some (textOf value) else textOfField name fields

end

def payloadText (unit : Value) : String :=
  match payload unit with
  | some value => String.ofList (textOf value)
  | none => ""

def isTextPart (part : Value) : Bool := field "type" part = some "text"

def textPart (text : String) : Value := .object [("text", .string text), ("type", .string "text")]

/-- The name of the field that has the payload of a unit. -/
def payloadKey (unit : Value) : String :=
  if (unit.get "output").isSome then "output" else "content"

/-- The unit with another text, if its payload is only text. -/
def setPayloadText (unit : Value) (text : String) : Option Value :=
  match unit.get (payloadKey unit) with
  | some (.string _) => some (Value.setAt (.string text) [.key (payloadKey unit)] unit)
  | some (.array parts) =>
      if parts.all isTextPart then
        some (Value.setAt (.array [textPart text]) [.key (payloadKey unit)] unit)
      else none
  | _ => none

/-! ### Calls -/

abbrev Fields := List (String × Value)

/-- The first of some fields that is a text. -/
def firstText (names : List String) (fields : Fields) : Option String :=
  names.findSome? fun name => field name (.object fields)

def resultCallId : Fields → Option String := firstText ["tool_use_id", "call_id", "tool_call_id"]

def callId : Fields → Option String := firstText ["id", "call_id", "tool_use_id"]

/-- The argument of a name, empty where it is no text. -/
def argText (name : String) (input : Value) : String := (field name input).getD ""

def commandText (input : Value) : String :=
  match input.get "command" with
  | some (.string command) => command
  | some (.array argv) => " ".intercalate (argv.filterMap Value.asStr)
  | _ => ""

def kindForTool (name : String) (input : Value) : Option CondenseKind :=
  match String.ofList (toAsciiLowercase (trim name.toList)) with
  | "read" | "read_file" | "view" | "str_replace_editor" =>
      some (.fileRead (argText "file_path" input))
  | "bash" | "shell" | "run_command" | "local_shell" | "exec_command" =>
      some (.commandOutput (commandText input))
  | "grep" | "glob" | "search" | "codebase_search" =>
      some (.commandOutput (name ++ " " ++ argText "pattern" input))
  | _ => none

section Calls

variable (serde : Serde)

/-- The input of a call, which may be written as a text. -/
def callInput (source : Value) : Value :=
  match source.get "input" with
  | some input => input
  | none =>
      match source.get "arguments" with
      | some (.string raw) => (serde.fromStr raw).getD .null
      | some other => other
      | none => .null

def callKind (fields : Fields) : Option CondenseKind :=
  let source : Value :=
    match ((Value.object fields).get "function").bind Value.asObject with
    | some function => .object function
    | none => .object fields
  (field "name" source).bind fun name => kindForTool name (callInput serde source)

/-- The call an object announces. -/
def ownCall (fields : Fields) : List (String × CondenseKind) :=
  match callKind serde fields, callId fields with
  | some kind, some id => [(id, kind)]
  | _, _ => []

mutual

/-- The calls in a value, in the order they are inserted. -/
def walkCalls : Value → List (String × CondenseKind)
  | .object fields => ownCall serde fields ++ walkFields fields
  | .array items => walkItems items
  | _ => []

def walkItems : List Value → List (String × CondenseKind)
  | [] => []
  | item :: items => walkCalls item ++ walkItems items

def walkFields : List (String × Value) → List (String × CondenseKind)
  | [] => []
  | (_, value) :: fields => walkCalls value ++ walkFields fields

end

/-- Of the calls of one identity, the last that is inserted stays. -/
def toolCalls (value : Value) (id : String) : Option CondenseKind :=
  (((walkCalls serde value).filter (·.1 = id)).getLast?).map Prod.snd

end Calls

/-! ### The pass -/

def KEEP_HEAD_LINES : ℕ := 20

def KEEP_TAIL_LINES : ℕ := 20

/-- The condensation of a block, when it is long and becomes at least a quarter shorter. -/
def condense (text : String) (kind : CondenseKind) (lines : ℕ) (tag : CondenseTag) :
    Option String :=
  if lines ≤ KEEP_HEAD_LINES + KEEP_TAIL_LINES then none
  else
    let all := textLines text.toList
    let elided := all.length - KEEP_HEAD_LINES - KEEP_TAIL_LINES
    let summary := WorkingClaim.unlines (all.take KEEP_HEAD_LINES)
      ++ ("… " ++ toString elided ++ " lines elided by lazybox context compaction; "
        ++ "re-read the source if you need them …\n").toList
      ++ WorkingClaim.unlines (all.drop (all.length - KEEP_TAIL_LINES))
    (renderCondensed kind lines summary tag).filter fun rendered =>
      text.utf8ByteSize ≤ 4 * (text.utf8ByteSize - rendered.utf8ByteSize)

/-- What becomes of a unit. -/
inductive Outcome where
  | skipped (reason : SkipReason)
  | passed
  | condensed (id : String) (saved : ℕ) (unit : Value)

/-- The call that produced a unit, and its kind. -/
def unitCall (calls : String → Option CondenseKind) (unit : Value) :
    Option (String × CondenseKind) :=
  (unit.asObject.bind resultCallId).bind fun id => (calls id).map (id, ·)

def unitFacts (calls : String → Option CondenseKind) (tag : CondenseTag) (total index : ℕ)
    (unit : Value) : ToolResultFacts :=
  .inSequence ((unitCall calls unit).map Prod.snd) (payloadLines unit) index total
    (isCondensed (payloadText unit) tag)

def considerUnit (calls : String → Option CondenseKind) (policy : ContextHygiene)
    (tag : CondenseTag) (total index : ℕ) (unit : Value) : Outcome :=
  let text := payloadText unit
  let facts := unitFacts calls tag total index unit
  match policy.eligibility facts with
  | .skip reason => .skipped reason
  | .condense =>
      match unitCall calls unit with
      | none => .passed
      | some (id, kind) =>
          match condense text kind facts.lines tag with
          | none => .skipped .belowLineFloor
          | some condensed =>
              match setPayloadText unit condensed with
              | some unit => .condensed id (text.utf8ByteSize - condensed.utf8ByteSize) unit
              | none => .skipped .kindNotEligible

/-- The body as it is being rewritten, and what was found so far. -/
structure Rewriting where
  value : Value
  condensed : ℕ
  condensedIds : List String
  savedBytes : ℕ
  skipped : List (SkipReason × ℕ)

def Rewriting.start (value : Value) : Rewriting := ⟨value, 0, [], 0, []⟩

/-- Count a reason. -/
def countSkip (reason : SkipReason) : List (SkipReason × ℕ) → List (SkipReason × ℕ)
  | [] => [(reason, 1)]
  | (seen, count) :: counts =>
      if seen = reason then (seen, count + 1) :: counts
      else (seen, count) :: countSkip reason counts

def Rewriting.settle (s : Rewriting) (place : Path) : Outcome → Rewriting
  | .skipped reason => { s with skipped := countSkip reason s.skipped }
  | .passed => s
  | .condensed id saved unit =>
      { s with
        value := Value.setAt unit place s.value
        condensed := s.condensed + 1
        condensedIds := s.condensedIds ++ [id]
        savedBytes := s.savedBytes + saved }

section Plan

variable (serde : Serde) (policy : ContextHygiene) (tag : CondenseTag)

/-- Consider the unit at a place, which is read where the body has come to. -/
def visitUnit (calls : String → Option CondenseKind) (total : ℕ) (s : Rewriting)
    (unit : Path × ℕ) : Rewriting :=
  match s.value.at? unit.1 with
  | some value => s.settle unit.1 (considerUnit calls policy tag total unit.2 value)
  | none => s

/-- The places of the tool results in a body. -/
def unitPlaces (body : Value) : Option (List Path) :=
  (conversationMut body).bind fun place =>
    ((body.at? place).bind Value.asArray).map fun array =>
      (toolResultUnitsMut array).map (place ++ ·)

def rewriteUnits (body : Value) (places : List Path) : Rewriting :=
  places.zipIdx.foldl (visitUnit policy tag (toolCalls serde body) places.length)
    (.start body)

def mostSkipped (a b : SkipReason × ℕ) : Prop :=
  b.2 < a.2 ∨ (a.2 = b.2 ∧ a.1.asStr ≤ b.1.asStr)

instance : DecidableRel mostSkipped := fun _ _ => inferInstanceAs (Decidable (_ ∨ _))

/-- What the pass found, with how many blocks it skipped for each reason, most of them first. -/
def plan (body : Value) : Option (Plan × List (SkipReason × ℕ)) :=
  match unitPlaces body with
  | none => none
  | some places =>
      if places.length = 0 then none
      else
        let s := rewriteUnits serde policy tag body places
        some (
          { body := if 0 < s.condensed then serde.toVec s.value else none
            model := (field "model" body).filter (· ≠ "")
            condensed := s.condensed
            condensedIds := s.condensedIds
            savedBytes := s.savedBytes },
          s.skipped.insertionSort mostSkipped)

end Plan

end Lazybox.Compaction
