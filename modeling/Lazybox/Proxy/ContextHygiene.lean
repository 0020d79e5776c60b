import Lazybox.Condense.Summarizer
import Lazybox.Core.ClaimLines
import Lazybox.GitOps.Output
import Lazybox.Proxy.Compactor
import Lazybox.Library.JsonValue

/-!
# The context-hygiene policy

The policy says of one tool result whether it may be condensed, from its kind, its lines, how far it
is from the newest and whether it is condensed already.  A condensation opens with a header that
carries the tag of the session, by which it is known again.
-/

namespace Lazybox.Compaction

open Condense (CondenseKind)
open GitOps (textLines)

/-! ### The verdict -/

inductive SkipReason where
  | disabled | withinRecencyWindow | belowLineFloor | kindNotEligible | alreadyCondensed
deriving DecidableEq, Repr

def SkipReason.asStr : SkipReason → String
  | disabled => "disabled"
  | withinRecencyWindow => "within-recency-window"
  | belowLineFloor => "below-line-floor"
  | kindNotEligible => "kind-not-eligible"
  | alreadyCondensed => "already-condensed"

inductive Eligibility where
  | condense
  | skip (reason : SkipReason)
deriving DecidableEq, Repr

/-- What is known of one block.  The newest tool result is at distance zero from the end. -/
structure ToolResultFacts where
  kind : Option CondenseKind
  lines : ℕ
  fromEnd : ℕ
  alreadyCondensed : Bool
deriving DecidableEq, Repr

def ToolResultFacts.inSequence (kind : Option CondenseKind) (lines index total : ℕ)
    (alreadyCondensed : Bool) : ToolResultFacts where
  kind := kind
  lines := lines
  fromEnd := total - 1 - index
  alreadyCondensed := alreadyCondensed

namespace ContextHygiene

variable (policy : ContextHygiene)

def validate : Except String Unit :=
  if policy.keepRecent = 0 then
    .error ("agent.context_hygiene.keep_recent must be at least 1: 0 would make the newest "
      ++ "tool result eligible, and edits need real content")
  else if policy.minLines = 0 then
    .error ("agent.context_hygiene.min_lines must be at least 1: 0 would condense every "
      ++ "tool result, however small")
  else
    .ok ()

def eligibility (facts : ToolResultFacts) : Eligibility :=
  if !policy.mode.evaluates then .skip .disabled
  else if facts.alreadyCondensed then .skip .alreadyCondensed
  else if facts.kind.isNone then .skip .kindNotEligible
  else if facts.fromEnd < policy.keepRecent then .skip .withinRecencyWindow
  else if facts.lines < policy.minLines then .skip .belowLineFloor
  else .condense

/-- The lines of a block reach the floor. -/
def reachesFloor (lines : ℕ) : Bool := !(lines < policy.minLines)

theorem reachesFloor_iff (lines : ℕ) :
  policy.reachesFloor lines = true ↔ policy.minLines ≤ lines
  := by
  rw [reachesFloor, Bool.not_eq_true', decide_eq_false_iff_not, Nat.not_lt]

theorem eligibility_eq_condense_iff (facts : ToolResultFacts) :
  policy.eligibility facts = .condense
    ↔ policy.mode.evaluates = true ∧ facts.alreadyCondensed = false ∧ facts.kind.isSome = true
      ∧ policy.keepRecent ≤ facts.fromEnd ∧ policy.reachesFloor facts.lines = true
  := by
  rw [eligibility, reachesFloor]
  cases policy.mode.evaluates with
  | false => simp
  | true =>
    cases facts.alreadyCondensed with
    | true => simp
    | false =>
      cases facts.kind with
      | none => simp
      | some kind =>
        by_cases hrecent : facts.fromEnd < policy.keepRecent
        · simp [hrecent]
        · by_cases hlines : facts.lines < policy.minLines
          · simp [hrecent, hlines]
          · simp [hrecent, hlines, Nat.le_of_not_lt]

end ContextHygiene

/-! ### Condensations -/

end Lazybox.Compaction

namespace Lazybox.Condense.CondenseKind

def label : CondenseKind → String
  | fileRead path => path
  | commandOutput command => command
  | diff => "diff"

def rereadHint : CondenseKind → String
  | fileRead _ => "re-read the file for full content"
  | commandOutput _ => "re-run the command for full output"
  | diff => "re-read the diff for full content"

end Lazybox.Condense.CondenseKind

namespace Lazybox.Compaction

open Condense (CondenseKind)
open GitOps (textLines)

def condensedMarker : String := "[condensed by lazybox "

/-- The opening of the blocks that are condensed in a session. -/
structure CondenseTag where
  opening : String
deriving DecidableEq, Repr

namespace CondenseTag

def new (token : String) : CondenseTag := ⟨condensedMarker ++ token ++ ": "⟩

/-- The first or the second line of the text opens as a condensation. -/
def marks (tag : CondenseTag) (text : String) : Bool :=
  ((textLines text.toList).take 2).any fun line => tag.opening.toList.isPrefixOf line

end CondenseTag

def isCondensed (text : String) (tag : CondenseTag) : Bool := tag.marks text

/-- A condensation, unless there is nothing to render. -/
def renderCondensed (kind : CondenseKind) (originalLines : ℕ) (summary : List Char)
    (tag : CondenseTag) : Option String :=
  let summary := trim summary
  if summary = [] then none
  else
    let condensedLines := (textLines summary).length + 1
    some (tag.opening ++ kind.label ++ ", " ++ toString originalLines ++ " lines → "
      ++ toString condensedLines ++ " lines; " ++ kind.rereadHint ++ "]\n"
      ++ String.ofList summary)

/-! ### Tags -/

def hexDigit (n : ℕ) : Char := "0123456789abcdef".toList.getD n '0'

/-- The tag of a session, derived from the secret of the installation. -/
def tagOf (sha256 : List UInt8 → List UInt8) (secret session : String) : CondenseTag :=
  let field (text : String) : List UInt8 :=
    let bytes := text.toUTF8.toList
    (List.range 8).map (fun i => .ofNat (bytes.length / 256 ^ i)) ++ bytes
  .new (String.ofList ((sha256 (field secret ++ field session)).flatMap fun byte =>
    [hexDigit (byte.toNat / 16), hexDigit (byte.toNat % 16)]))

/-- The token of the tag is on one line. -/
def CondenseTag.OneLine (tag : CondenseTag) : Prop :=
  ∃ token : String, tag = .new token ∧ '\n' ∉ token.toList

/-- Dropping a carriage return at the end of a line leaves what precedes the last space on it. -/
theorem append_space_isPrefix (opening rest : List Char) :
  opening ++ [' '] <+: (if (opening ++ [' '] ++ rest).getLast? = some '\r'
    then (opening ++ [' '] ++ rest).dropLast else opening ++ [' '] ++ rest)
  := by
  split
  · next hlast =>
      obtain rfl | ⟨rest, c, rfl⟩ := rest.eq_nil_or_concat'
      · simp at hlast
      · rw [← List.append_assoc, List.dropLast_concat]
        apply List.prefix_append
  · apply List.prefix_append

/-- The first line of a text opens with what the text opens with, up to a space on that line. -/
theorem exists_textLines_append {opening : List Char} (h : '\n' ∉ opening) (s : List Char) :
  ∃ line later, textLines (opening ++ [' '] ++ s) = line :: later ∧ opening ++ [' '] <+: line
  := by
  have hsplit := WorkingClaim.splitLines_append (p := opening ++ [' ']) (by simpa using h) s
  rw [textLines, hsplit]
  cases hlater : WorkingClaim.laterLines s with
  | nil =>
    refine ⟨_, [], ?_, List.prefix_append _ (WorkingClaim.firstLine s)⟩
    simp
  | cons next later =>
    refine ⟨_, _, rfl, ?_⟩
    apply append_space_isPrefix

theorem toList_opening_new (token : String) :
  (CondenseTag.new token).opening.toList
    = (condensedMarker.toList ++ token.toList ++ [':']) ++ [' ']
  := by
  simp [CondenseTag.new]

/-- A text that opens with a tag is known by it. -/
theorem CondenseTag.OneLine.marks {tag : CondenseTag} (htag : tag.OneLine) {text : String}
    {rest : List Char} (h : text.toList = tag.opening.toList ++ rest) :
  tag.marks text = true
  := by
  obtain ⟨token, rfl, htoken⟩ := htag
  have hopening := toList_opening_new token
  have hnewline : '\n' ∉ condensedMarker.toList ++ token.toList ++ [':'] := by
    simp only [List.mem_append, List.mem_singleton]
    rintro ((hmem | hmem) | hmem)
    · revert hmem
      decide
    · exact htoken hmem
    · cases hmem
  rw [hopening] at h
  obtain ⟨line, later, hlines, hopens⟩ := exists_textLines_append hnewline rest
  rw [CondenseTag.marks, h, hlines, hopening, List.take_succ_cons, List.any_cons,
    List.isPrefixOf_iff_prefix.mpr hopens, Bool.true_or]

/-- A condensation is known by its tag, whatever its label and its summary. -/
theorem isCondensed_renderCondensed {kind : CondenseKind} {originalLines : ℕ} {summary : List Char}
    {tag : CondenseTag} {rendered : String} (htag : tag.OneLine)
    (h : renderCondensed kind originalLines summary tag = some rendered) :
  isCondensed rendered tag = true
  := by
  rw [renderCondensed] at h
  dsimp only at h
  split at h
  · cases h
  · cases h
    apply htag.marks
    simp only [String.toList_append, List.append_assoc]
    rfl

end Lazybox.Compaction

/-!
## Measuring the context of a request

The body of a request has the conversation in an array, and tool results in it in one of three
shapes.  The measurement counts their bytes, those of blocks the session had already sent, and the
blocks that are large.  What it counts as large is what reaches more than the line floor of the
policy, while the policy condenses what reaches the floor.

How a value is serialized, and the hash of bytes, are parameters.
-/

namespace Lazybox.ContextParse

open Json (Value)
open GitOps (textLines)

/-! ### Blocks -/

def conversation (body : Value) : Option (List Value) :=
  ((body.get "messages").or (body.get "input")).bind Value.asArray

/-- The text in a field of the value. -/
def field (name : String) (item : Value) : Option String := (item.get name).bind Value.asStr

/-- The whole item is a tool result. -/
def isResultItem (item : Value) : Bool :=
  field "type" item = some "function_call_output" || field "role" item = some "tool"

def isResultBlock (block : Value) : Bool := field "type" block = some "tool_result"

def toolResultUnits (array : List Value) : List Value :=
  array.flatMap fun item =>
    if isResultItem item then [item]
    else (((item.get "content").bind Value.asArray).getD []).filter isResultBlock

mutual

/-- The lines of a payload: a text, parts of one, or an object with one. -/
def linesOf : Value → ℕ
  | .string text => (textLines text.toList).length
  | .array items => linesOfItems items
  | .object fields =>
      ((linesOfField "text" fields).or ((linesOfField "content" fields).or
        (linesOfField "output" fields))).getD 0
  | .null => 0
  | .bool _ => 1
  | .number printed => (textLines printed.toList).length

def linesOfItems : List Value → ℕ
  | [] => 0
  | item :: items => linesOf item + linesOfItems items

/-- The lines of the field of a name. -/
def linesOfField (name : String) : List (String × Value) → Option ℕ
  | [] => none
  | (key, value) :: fields =>
      if key = name then some (linesOf value) else linesOfField name fields

end

/-- The payload of a unit. -/
def payload (unit : Value) : Option Value := (unit.get "output").or (unit.get "content")

def payloadLines (unit : Value) : ℕ :=
  match payload unit with
  | some value => linesOf value
  | none => 0

/-! ### The measurement -/

def maxBlocksPerSession : ℕ := 8192

/-- The hashes of the blocks a session sent, oldest first. -/
abbrev SeenBlocks := List ℕ

/-- Record a hash: whether it had been recorded, and the hashes then. -/
def SeenBlocks.observe (seen : SeenBlocks) (hash : ℕ) : Bool × SeenBlocks :=
  if hash ∈ seen then (true, seen)
  else
    let order := seen ++ [hash]
    (false, if maxBlocksPerSession < order.length then order.tail else order)

structure ContextAccounting where
  messageBytes : ℕ
  toolResultBytes : ℕ
  toolResultResentBytes : ℕ
  largeToolResults : ℕ
deriving DecidableEq, Repr

structure Block where
  hash : ℕ
  bytes : ℕ
  large : Bool
deriving DecidableEq, Repr

structure Measured where
  accounting : ContextAccounting
  blocks : List Block
deriving DecidableEq, Repr

/-- How values are written, and how bytes are hashed. -/
structure Digest where
  toWriter : Value → List UInt8
  hash : List UInt8 → ℕ

variable (digest : Digest)

def conversationBytes (array : List Value) : ℕ := (digest.toWriter (.array array)).length

def measureUnit (largeLines : ℕ) (unit : Value) : Block :=
  let bytes := digest.toWriter unit
  ⟨digest.hash bytes, bytes.length, largeLines < payloadLines unit⟩

def measure (body : Value) (largeLines : ℕ) : Option Measured :=
  (conversation body).map fun array =>
    let blocks := (toolResultUnits array).map (measureUnit digest largeLines)
    ⟨⟨conversationBytes digest array, (blocks.map Block.bytes).sum, 0, 0⟩, blocks⟩

/-- Count the blocks against what the session sent. -/
def countBlocks : List Block → SeenBlocks × ContextAccounting → SeenBlocks × ContextAccounting
  | [], s => s
  | block :: blocks, (seen, accounting) =>
      let (resent, seen) := seen.observe block.hash
      countBlocks blocks (seen,
        if resent then
          { accounting with
            toolResultResentBytes := accounting.toolResultResentBytes + block.bytes }
        else if block.large then
          { accounting with largeToolResults := accounting.largeToolResults + 1 }
        else accounting)

def Measured.against (measured : Measured) (seen : SeenBlocks) : SeenBlocks × ContextAccounting :=
  countBlocks measured.blocks (seen, measured.accounting)

end Lazybox.ContextParse
