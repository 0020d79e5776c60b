import Lazybox.Library.EventStream
import Lazybox.Proxy.ContextHygiene
import Lazybox.Proxy.UsageJson

/-!
# The usage a response reports

The accumulator reads a response byte by byte, as a JSON document or as an event stream, and finds
the token counts in it.  Counts of one record after another are merged as high-water marks.  In a
stream of the Responses API, only the event that ends the response has counts that are reported.

Decoding scalars, numbers as counts, and the rate card are parameters.
-/

namespace Lazybox

namespace Value

variable {ν : Type}

def get (key : String) : Value ν → Option (Value ν)
  | .object fields => fields.lookup key
  | _ => none

def asStr : Value ν → Option String
  | .string text => some text
  | _ => none

def asObject : Value ν → Option (List (String × Value ν))
  | .object fields => some fields
  | _ => none

/-- The count a number is, if it is one. -/
def asU64 (toU64 : ν → Option ℕ) : Value ν → Option ℕ
  | .number n => toU64 n
  | _ => none

end Value

namespace UsageParse

open ContextParse (ContextAccounting)
open EventStream (CR LF DATA)

variable {ν P : Type}

/-! ### Counts -/

/-- Running high-water totals for one response. -/
structure Merged where
  input : Option ℕ
  output : Option ℕ
  cacheCreation : Option ℕ
  cacheRead : Option ℕ
  cacheCreation1h : Option ℕ
  fast : Bool
  inputIncludesCached : Bool
deriving DecidableEq, Repr

namespace Merged

def default : Merged := ⟨none, none, none, none, none, false, false⟩

/-- One field as a high-water mark. -/
def bump (slot value : Option ℕ) : Option ℕ :=
  match value with
  | some v => some (slot.elim v fun cur => max cur v)
  | none => slot

def merge (self other : Merged) : Merged where
  input := bump self.input other.input
  output := bump self.output other.output
  cacheCreation := bump self.cacheCreation other.cacheCreation
  cacheRead := bump self.cacheRead other.cacheRead
  cacheCreation1h := bump self.cacheCreation1h other.cacheCreation1h
  fast := self.fast || other.fast
  inputIncludesCached := self.inputIncludesCached || other.inputIncludesCached

/-- Input that was not served from the cache, whichever way the provider counted it. -/
def uncachedInput (self : Merged) : Option ℕ :=
  self.input.map fun input =>
    if self.inputIncludesCached then input - self.cacheRead.getD 0 else input

def isEmpty (self : Merged) : Bool :=
  self.input.isNone && self.output.isNone && self.cacheCreation.isNone && self.cacheRead.isNone

end Merged

/-- The counts that are priced. -/
structure TokenCounts where
  input : ℕ
  output : ℕ
  cacheCreation : ℕ
  cacheRead : ℕ
  cacheCreation1h : ℕ
  fast : Bool
deriving DecidableEq, Repr

structure AgentUsage where
  inputTokens : Option ℕ
  outputTokens : Option ℕ
  cacheCreationInputTokens : Option ℕ
  cacheReadInputTokens : Option ℕ
  costUsdMicros : Option ℕ
  context : Option ContextAccounting
deriving DecidableEq, Repr

/-- How scalars are decoded, which numbers are counts, and what counts of a model cost. -/
structure Meter (ν P : Type) where
  serde : SerdeJson ν
  toU64 : ν → Option ℕ
  costMicros : String → TokenCounts → P → Option ℕ

section Extract

variable (toU64 : ν → Option ℕ)

/-- The first of the fields that has a count. -/
def num (usage : List (String × Value ν)) (keys : List String) : Option ℕ :=
  keys.findSome? fun key => (usage.lookup key).bind (Value.asU64 toU64)

/-- The count in a field of a field that is an object. -/
def nested (usage : List (String × Value ν)) (parent child : String) : Option ℕ :=
  (((usage.lookup parent).bind Value.asObject).bind (·.lookup child)).bind (Value.asU64 toU64)

/-- The token counts of a usage object. -/
def extract (usage : List (String × Value ν)) : Merged :=
  let anthropicCacheRead := num toU64 usage ["cache_read_input_tokens"]
  let openaiCacheRead :=
    (num toU64 usage ["cached_input_tokens"]).or
      ((nested toU64 usage "prompt_tokens_details" "cached_tokens").or
        (nested toU64 usage "input_tokens_details" "cached_tokens"))
  { input := num toU64 usage ["input_tokens", "prompt_tokens"]
    output := num toU64 usage ["output_tokens", "completion_tokens"]
    cacheCreation := num toU64 usage ["cache_creation_input_tokens"]
    cacheRead := anthropicCacheRead.or openaiCacheRead
    cacheCreation1h := nested toU64 usage "cache_creation" "ephemeral_1h_input_tokens"
    fast := (usage.lookup "speed").bind Value.asStr = some "fast"
    inputIncludesCached := anthropicCacheRead.isNone && openaiCacheRead.isSome }

/-- A field that is there has a count. -/
def countIfThere (usage : List (String × Value ν)) (key : String) : Bool :=
  (usage.lookup key).all fun value => (value.asU64 toU64).isSome

/-- A final report has both totals, and of the optional counts none that is not a number. -/
def validResponseUsage (usage : List (String × Value ν)) : Bool :=
  (["input_tokens", "output_tokens"].all fun key =>
      ((usage.lookup key).bind (Value.asU64 toU64)).isSome)
    && (["cache_creation_input_tokens", "cache_read_input_tokens", "cached_input_tokens"].all
      fun key => countIfThere toU64 usage key)
    && (["input_tokens_details", "prompt_tokens_details"].all fun key =>
      (usage.lookup key).all fun details =>
        details.asObject.any fun details => countIfThere toU64 details "cached_tokens")

/-- What the fields of an object tell on their own: the counts in `usage` and the model. -/
def collectOwn (fields : List (String × Value ν)) (merged : Merged) (model : Option String) :
    Merged × Option String :=
  (match (fields.lookup "usage").bind Value.asObject with
    | some usage => merged.merge (extract toU64 usage)
    | none => merged,
  match (fields.lookup "model").bind Value.asStr with
    | some name => if name ≠ "" then some name else model
    | none => model)

mutual

/-- Fold what a record tells anywhere in it. -/
def collectUsage : Value ν → Merged × Option String → Merged × Option String
  | .object fields, (merged, model) => collectFields fields (collectOwn toU64 fields merged model)
  | _, totals => totals

def collectFields :
    List (String × Value ν) → Merged × Option String → Merged × Option String
  | [], totals => totals
  | (_, child) :: fields, totals => collectFields fields (collectUsage child totals)

end

end Extract

/-! ### The accumulator -/

/-- Where a response of the Responses API is. -/
inductive Responses where
  | unseen
  | streaming
  | terminal (usage : Option AgentUsage)
deriving DecidableEq, Repr

namespace Responses

def isTerminal : Responses → Bool
  | terminal _ => true
  | _ => false

end Responses

inductive Wire where
  | detect
  | json
  | sse
deriving DecidableEq, Repr

/-- Where a line is: `matched n` is after so many bytes of `data:`. -/
inductive Line where
  | start
  | matched (n : ℕ)
  | data
  | ignore
deriving DecidableEq, Repr

structure UsageAccumulator (ν P : Type) where
  json : UsageJson ν
  wire : Wire
  line : Line
  lineNonempty : Bool
  eventData : Bool
  afterCr : Bool
  merged : Merged
  model : Option String
  prices : P
  countOnly : Bool
  responses : Responses

namespace UsageAccumulator

/-- The accumulator before the first byte. -/
def new (prices : P) (countOnly : Bool) : UsageAccumulator ν P where
  json := UsageJson.default
  wire := .detect
  line := .start
  lineNonempty := false
  eventData := false
  afterCr := false
  merged := .default
  model := none
  prices := prices
  countOnly := countOnly
  responses := .unseen

variable (meter : Meter ν P)

/-- The totals, priced if the model is known. -/
def usage (acc : UsageAccumulator ν P) : Option AgentUsage :=
  if acc.merged.isEmpty then none
  else
    let costUsdMicros :=
      if acc.countOnly then some 0
      else
        acc.model.bind fun model =>
          meter.costMicros model
            { input := acc.merged.uncachedInput.getD 0
              output := acc.merged.output.getD 0
              cacheCreation := acc.merged.cacheCreation.getD 0
              cacheRead := acc.merged.cacheRead.getD 0
              cacheCreation1h := acc.merged.cacheCreation1h.getD 0
              fast := acc.merged.fast }
            acc.prices
    some
      { inputTokens := acc.merged.uncachedInput
        outputTokens := acc.merged.output
        cacheCreationInputTokens := acc.merged.cacheCreation
        cacheReadInputTokens := acc.merged.cacheRead
        costUsdMicros := costUsdMicros
        context := none }

end UsageAccumulator

/-- The types of the events that end a response. -/
def terminalKinds : List String :=
  ["response.completed", "response.incomplete", "response.failed"]

/-- The type of a record, if it is one of a response. -/
def responseKind (value : Value ν) : Option String :=
  ((value.get "type").bind Value.asStr).filter fun kind =>
    "response.".toList.isPrefixOf kind.toList

namespace UsageAccumulator

variable (meter : Meter ν P)

/-- A response has ended: only its own totals are taken, and only valid ones. -/
def scanTerminal (acc : UsageAccumulator ν P) (value : Value ν) : UsageAccumulator ν P :=
  let acc := { acc with responses := .terminal none }
  match ((value.get "response").bind (·.get "usage")).bind Value.asObject with
  | some usage =>
      let totals := extract meter.toU64 usage
      if validResponseUsage meter.toU64 usage then
        let model :=
          (((value.get "response").bind (·.get "model")).bind Value.asStr).filter (· ≠ "")
        let acc := { acc with merged := totals, model := model }
        { acc with responses := .terminal (acc.usage meter) }
      else acc
  | none => acc

def scanValue (acc : UsageAccumulator ν P) (value : Value ν) : UsageAccumulator ν P :=
  if acc.responses.isTerminal then acc
  else
    match responseKind value with
    | some kind =>
        let acc := { acc with responses := .streaming }
        if kind ∈ terminalKinds then acc.scanTerminal meter value else acc
    | none =>
        let (merged, model) := collectUsage meter.toU64 value (acc.merged, acc.model)
        { acc with merged := merged, model := model }

/-- An event is complete, if it has data; or the document is. -/
def endEvent (acc : UsageAccumulator ν P) : UsageAccumulator ν P :=
  if acc.eventData || acc.wire = .json then
    let json := acc.json
    let acc := { acc with json := UsageJson.default }
    let acc :=
      match json.finish meter.serde with
      | some value => acc.scanValue meter value
      | none => acc
    { acc with eventData := false }
  else acc

/-- A byte of a line that is no line end. -/
def pushText (acc : UsageAccumulator ν P) (byte : UInt8) : UsageAccumulator ν P :=
  let acc := { acc with lineNonempty := true }
  match acc.line with
  | .start => { acc with line := if byte = 0x64 then .matched 1 else .ignore }
  | .matched n =>
      if DATA[n]? = some byte then
        if n = 4 then { acc with eventData := true, line := .data }
        else { acc with line := .matched (n + 1) }
      else { acc with line := .ignore }
  | .data => { acc with json := acc.json.push meter.serde byte }
  | .ignore => acc

/-- A byte of an event stream. -/
def pushSse (acc : UsageAccumulator ν P) (byte : UInt8) : UsageAccumulator ν P :=
  if acc.afterCr && byte = LF then { acc with afterCr := false }
  else
    let acc := { acc with afterCr := byte = CR }
    if byte = CR ∨ byte = LF then
      let acc :=
        if !acc.lineNonempty then acc.endEvent meter
        else if acc.line = .data then { acc with json := acc.json.push meter.serde LF }
        else acc
      { acc with line := .start, lineNonempty := false }
    else acc.pushText meter byte

/-- `u8::is_ascii_whitespace` -/
def isAsciiWhitespace (byte : UInt8) : Bool :=
  byte = 0x20 || byte = 0x09 || byte = 0x0A || byte = 0x0C || byte = 0x0D

def pushByte (acc : UsageAccumulator ν P) (byte : UInt8) : UsageAccumulator ν P :=
  if acc.responses.isTerminal then acc
  else if acc.wire = .detect ∧ isAsciiWhitespace byte then acc
  else
    let acc :=
      if acc.wire = .detect then { acc with wire := if byte = 0x7B then .json else .sse } else acc
    if acc.wire = .json then { acc with json := acc.json.push meter.serde byte }
    else acc.pushSse meter byte

/-- Feed a chunk.  Once a response has ended, its bytes are not looked at. -/
def push (acc : UsageAccumulator ν P) (chunk : List UInt8) : UsageAccumulator ν P :=
  chunk.foldl (pushByte meter) acc

/-- What is reported at the end of the body. -/
def finish (acc : UsageAccumulator ν P) : Option AgentUsage :=
  let acc := acc.endEvent meter
  match acc.responses with
  | .terminal usage => usage
  | .streaming => none
  | .unseen => acc.usage meter

/-- What is reported before the end of the body. -/
def completedUsage (acc : UsageAccumulator ν P) : Option AgentUsage :=
  match acc.responses with
  | .terminal usage => usage
  | _ => none

end UsageAccumulator

end UsageParse

end Lazybox
