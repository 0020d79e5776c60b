import Lazybox.Proxy.UsageExact
import Lazybox.Proxy.UsageFraming

/-!
# The event that ends a response decides

In a stream of the Responses API what is reported is decided by the first event that ends the
response: by its own usage and its own model, whatever came before it and whatever follows.  A
stream without such an event reports nothing.
-/

namespace Lazybox.UsageParse

open EventStream (StreamFrame frame)

variable {ν P : Type}

/-! ### What is reported -/

/-- The accumulator after the chunks of a body. -/
def accumulate (meter : Meter ν P) (prices : P) (countOnly : Bool) (chunks : List (List UInt8)) :
    UsageAccumulator ν P :=
  chunks.foldl (UsageAccumulator.push meter) (.new prices countOnly)

/-- The type of an event, if it is one of a response. -/
def eventKind (serde : SerdeJson ν) (event : List (List UInt8)) : Option String :=
  (record serde event).bind responseKind

/-- The event ends the response. -/
def endsResponse (serde : SerdeJson ν) (event : List (List UInt8)) : Bool :=
  (eventKind serde event).any (· ∈ terminalKinds)

/-- A field of the response that an event is about. -/
def responseField (serde : SerdeJson ν) (event : List (List UInt8)) (key : String) :
    Option (Value ν) :=
  ((record serde event).bind (·.get "response")).bind (·.get key)

/-- What is reported of the usage and the model of a response. -/
def finalUsage (meter : Meter ν P) (prices : P) (countOnly : Bool)
    (usage model : Option (Value ν)) : Option AgentUsage :=
  ((usage.bind Value.asObject).filter (validResponseUsage meter.toU64)).bind fun fields =>
    UsageAccumulator.usage meter
      { UsageAccumulator.new prices countOnly with
        merged := extract meter.toU64 fields
        model := (model.bind Value.asStr).filter (· ≠ "") }

/-- What is reported of the response that an event ends. -/
def reported (meter : Meter ν P) (prices : P) (countOnly : Bool) (event : List (List UInt8)) :
    Option AgentUsage :=
  finalUsage meter prices countOnly (responseField meter.serde event "usage")
    (responseField meter.serde event "model")

/-- A response whose usage has a total. -/
def HasTotal (meter : Meter ν P) (event : List (List UInt8)) (key : String) : Prop :=
  (((responseField meter.serde event "usage").bind (·.get key)).bind
    (Value.asU64 meter.toU64)).isSome = true

/-- A body with these frames is decided by the first event that ends the response, and reports
nothing if there is none.  The event that is still open at the end of the body counts there. -/
def Decided (meter : Meter ν P) (prices : P) (countOnly : Bool) (f : List UInt8 → StreamFrame)
    (chunks : List (List UInt8)) : Prop :=
  (∀ event, (f chunks.flatten).events.find? (endsResponse meter.serde) = some event →
    (∀ more,
      (accumulate meter prices countOnly (chunks ++ more)).completedUsage
          = reported meter prices countOnly event
        ∧ (accumulate meter prices countOnly (chunks ++ more)).finish meter
          = reported meter prices countOnly event)
      ∧ ((reported meter prices countOnly event).isSome = true →
        HasTotal meter event "input_tokens" ∧ HasTotal meter event "output_tokens"))
    ∧ ((∀ event ∈ (f chunks.flatten).events ++ [(f chunks.flatten).unfinished],
        endsResponse meter.serde event = false) →
      (∃ event ∈ (f chunks.flatten).events ++ [(f chunks.flatten).unfinished],
        (eventKind meter.serde event).isSome = true) →
      (accumulate meter prices countOnly chunks).finish meter = none)

/-! ### Scanning events -/

namespace UsageAccumulator

variable (meter : Meter ν P)

theorem responses_scanTerminal (acc : UsageAccumulator ν P) (value : Value ν) :
  (acc.scanTerminal meter value).responses
    = .terminal (finalUsage meter acc.prices acc.countOnly
        ((value.get "response").bind (·.get "usage")) ((value.get "response").bind (·.get "model")))
  := by
  rw [scanTerminal, finalUsage]
  dsimp only
  cases ((value.get "response").bind (·.get "usage")).bind Value.asObject with
  | none => rfl
  | some fields =>
    cases hvalid : validResponseUsage meter.toU64 fields with
    | true =>
      rw [Option.filter_some_pos hvalid]
      dsimp only
      rw [hvalid]
      rfl
    | false =>
      rw [Option.filter_some_neg (by rw [hvalid])]
      dsimp only
      rw [hvalid]
      rfl

variable {meter} {acc : UsageAccumulator ν P} (hlive : acc.responses.isTerminal = false)
  {event : List (List UInt8)}
include hlive

/-- An event that ends the response leaves what is reported of it. -/
theorem responses_scanEvent_of_ends (hends : endsResponse meter.serde event = true) :
  (acc.scanEvent meter event).responses
    = .terminal (reported meter acc.prices acc.countOnly event)
  := by
  rw [endsResponse, Option.any_eq_true] at hends
  obtain ⟨kind, hkind, hends⟩ := hends
  rw [eventKind, Option.bind_eq_some_iff] at hkind
  obtain ⟨value, hvalue, hkind⟩ := hkind
  rw [scanEvent, hvalue]
  dsimp only
  rw [scanValue, hlive, if_neg Bool.false_ne_true, hkind]
  dsimp only
  rw [if_pos (of_decide_eq_true hends), responses_scanTerminal, reported, responseField,
    responseField, hvalue, Option.bind_some]

/-- Any other event of a response leaves it going on; and one of no response leaves it. -/
theorem responses_scanEvent_of_not (hgoes : endsResponse meter.serde event = false) :
  (acc.scanEvent meter event).responses
    = if (eventKind meter.serde event).isSome then .streaming else acc.responses
  := by
  rw [endsResponse, eventKind] at hgoes
  rw [scanEvent, eventKind]
  cases hvalue : record meter.serde event with
  | none => rfl
  | some value =>
    rw [hvalue, Option.bind_some] at hgoes
    dsimp only
    rw [scanValue, hlive, if_neg Bool.false_ne_true, Option.bind_some]
    cases hkind : responseKind value with
    | none => rfl
    | some kind =>
      rw [hkind] at hgoes
      dsimp only
      rw [if_neg (of_decide_eq_false hgoes)]
      rfl

/-- The prices are not touched. -/
theorem prices_scanEvent_of_not (hgoes : endsResponse meter.serde event = false) :
  (acc.scanEvent meter event).prices = acc.prices
    ∧ (acc.scanEvent meter event).countOnly = acc.countOnly
  := by
  rw [endsResponse, eventKind] at hgoes
  rw [scanEvent]
  cases hvalue : record meter.serde event with
  | none => exact ⟨rfl, rfl⟩
  | some value =>
    rw [hvalue, Option.bind_some] at hgoes
    dsimp only
    rw [scanValue, hlive, if_neg Bool.false_ne_true]
    cases hkind : responseKind value with
    | none => exact ⟨rfl, rfl⟩
    | some kind =>
      rw [hkind] at hgoes
      dsimp only
      rw [if_neg (of_decide_eq_false hgoes)]
      exact ⟨rfl, rfl⟩

variable {events : List (List (List UInt8))}

/-- A list of events is decided by its first one that ends the response. -/
theorem responses_scanAll_of_find (hfirst : events.find? (endsResponse meter.serde) = some event) :
  (scanAll meter acc events).responses
    = .terminal (reported meter acc.prices acc.countOnly event)
  := by
  induction events generalizing acc with
  | nil => cases hfirst
  | cons first events ih =>
    rw [scanAll, List.foldl_cons]
    cases hends : endsResponse meter.serde first with
    | true =>
      rw [List.find?_cons_of_pos hends, Option.some_inj] at hfirst
      have hscanned := responses_scanEvent_of_ends hlive hends
      have hended : (acc.scanEvent meter first).responses.isTerminal = true := by
        rw [hscanned]
        rfl
      rw [← hfirst, ← hscanned]
      exact congrArg responses (scanAll_of_terminal meter hended events)
    | false =>
      rw [List.find?_cons_of_neg (by rw [hends]; exact Bool.false_ne_true)] at hfirst
      obtain ⟨hprices, hcountOnly⟩ := prices_scanEvent_of_not hlive hends
      have hgoes : (acc.scanEvent meter first).responses.isTerminal = false := by
        rw [responses_scanEvent_of_not hlive hends]
        split
        · rfl
        · exact hlive
      rw [← hprices, ← hcountOnly]
      exact ih hgoes hfirst

/-- Without an event that ends the response, one of a response leaves it going on. -/
theorem responses_scanAll_of_not
    (hgoes : ∀ event ∈ events, endsResponse meter.serde event = false)
    (hseen : acc.responses = .streaming
      ∨ ∃ event ∈ events, (eventKind meter.serde event).isSome = true) :
  (scanAll meter acc events).responses = .streaming
  := by
  induction events generalizing acc with
  | nil =>
    obtain hstreaming | ⟨event, hmem, -⟩ := hseen
    · exact hstreaming
    · cases hmem
  | cons first events ih =>
    have hfirst := hgoes first (List.mem_cons_self ..)
    have hscanned := responses_scanEvent_of_not hlive hfirst
    rw [scanAll, List.foldl_cons]
    apply ih
    · rw [hscanned]
      split
      · rfl
      · exact hlive
    · intro event hmem
      exact hgoes event (List.mem_cons_of_mem _ hmem)
    · rw [hscanned]
      obtain hstreaming | ⟨event, hmem, hkind⟩ := hseen
      · left
        rw [hstreaming, ite_self]
      · obtain rfl | hmem := List.mem_cons.mp hmem
        · left
          rw [if_pos hkind]
        · right
          use event, hmem

omit hlive in
/-- A response that is still going on at the end of the body is not reported. -/
theorem finish_of_streaming (h : (acc.endEvent meter).responses = .streaming) :
  acc.finish meter = none
  := by
  rw [finish, h]

end UsageAccumulator

/-! ### The end of a stream -/

section Ends

variable {meter : Meter ν P} {start acc : UsageAccumulator ν P} {bytes : List UInt8}
  (hlive : start.responses.isTerminal = false)
  (hfollows : UsageAccumulator.Follows meter start bytes acc)
include hlive hfollows

/-- Once an event has ended the response, it is reported then and at the end of the body. -/
theorem reports_of_find {event : List (List UInt8)}
    (hfirst : (frame bytes).events.find? (endsResponse meter.serde) = some event) :
  acc.completedUsage = reported meter start.prices start.countOnly event
    ∧ acc.finish meter = reported meter start.prices start.countOnly event
  := by
  have hscanned := UsageAccumulator.responses_scanAll_of_find hlive hfirst
  obtain ⟨hgoes, -⟩ | ⟨-, hresponses, hwire, hdata⟩ := hfollows
  · rw [hscanned] at hgoes
    cases hgoes
  · rw [hscanned] at hresponses
    have hstays : acc.endEvent meter = acc := by
      rw [UsageAccumulator.endEvent, hdata, hwire]
      rfl
    rw [UsageAccumulator.completedUsage, UsageAccumulator.finish, hstays, hresponses]
    exact ⟨rfl, rfl⟩

/-- A stream of a response that no event has ended reports nothing at the end of the body. -/
theorem finish_of_not
    (hgoes : ∀ event ∈ (frame bytes).events ++ [(frame bytes).unfinished],
      endsResponse meter.serde event = false)
    (hseen : ∃ event ∈ (frame bytes).events ++ [(frame bytes).unfinished],
      (eventKind meter.serde event).isSome = true) :
  acc.finish meter = none
  := by
  have hstreaming := UsageAccumulator.responses_scanAll_of_not hlive hgoes (.inr hseen)
  rw [UsageAccumulator.scanAll_append] at hstreaming
  obtain ⟨-, rfl⟩ | ⟨hended, -⟩ := hfollows
  · apply UsageAccumulator.finish_of_streaming
    rw [UsageAccumulator.endEvent_placed meter _ rfl rfl
      (finish_framing meter.serde (frame bytes) _)]
    exact hstreaming
  · rw [UsageAccumulator.scanAll_of_terminal meter hended] at hstreaming
    rw [hstreaming] at hended
    cases hended

end Ends

theorem get_of_asObject {value : Value ν} {fields : List (String × Value ν)}
    (h : value.asObject = some fields) (key : String) :
  value.get key = fields.lookup key
  := by
  cases value with
  | object fields' =>
    cases h
    rfl
  | _ => cases h

/-- A response whose usage lacks a total is not reported. -/
theorem hasTotal_of_reported {meter : Meter ν P} {prices : P} {countOnly : Bool}
    {event : List (List UInt8)} (h : (reported meter prices countOnly event).isSome = true) :
  HasTotal meter event "input_tokens" ∧ HasTotal meter event "output_tokens"
  := by
  obtain ⟨usage, husage⟩ := Option.isSome_iff_exists.mp h
  rw [reported, finalUsage, Option.bind_eq_some_iff] at husage
  obtain ⟨fields, hfields, -⟩ := husage
  rw [Option.filter_eq_some_iff, Option.bind_eq_some_iff] at hfields
  obtain ⟨⟨value, hvalue, hfields⟩, hvalid⟩ := hfields
  rw [validResponseUsage, Bool.and_eq_true, Bool.and_eq_true, List.all_eq_true] at hvalid
  have htotal (key : String) (hkey : key ∈ ["input_tokens", "output_tokens"]) :
      HasTotal meter event key := by
    rw [HasTotal, hvalue, Option.bind_some, get_of_asObject hfields]
    exact hvalid.1.1 key hkey
  exact ⟨htotal _ (by simp), htotal _ (by simp)⟩

/-! ### Bodies -/

theorem accumulate_eq
    (meter : Meter ν P) (prices : P) (countOnly : Bool) (chunks : List (List UInt8)) :
  accumulate meter prices countOnly chunks
    = (UsageAccumulator.new prices countOnly).push meter chunks.flatten
  := List.foldl_flatten.symm

/-- The frames of a body, whose stream begins with the first byte that is not blank. -/
def bodyFrame (bytes : List UInt8) : StreamFrame :=
  frame (bytes.dropWhile UsageAccumulator.isAsciiWhitespace)

/-- What comes after the stream has begun goes on with it. -/
theorem dropWhile_append_of_ne {bytes : List UInt8}
    (h : bytes.dropWhile UsageAccumulator.isAsciiWhitespace ≠ []) (more : List UInt8) :
  (bytes ++ more).dropWhile UsageAccumulator.isAsciiWhitespace
    = bytes.dropWhile UsageAccumulator.isAsciiWhitespace ++ more
  := by
  rw [List.dropWhile_append, if_neg]
  rw [List.isEmpty_iff]
  exact h

/-- The accumulator of a body follows its stream, once that has begun. -/
theorem follows_accumulate
    (meter : Meter ν P) (prices : P) (countOnly : Bool) {chunks : List (List UInt8)}
    (hsse : (chunks.flatten.dropWhile UsageAccumulator.isAsciiWhitespace).head? ≠ some 0x7B)
    (hbegun : chunks.flatten.dropWhile UsageAccumulator.isAsciiWhitespace ≠ []) :
  UsageAccumulator.Follows meter (.new prices countOnly)
    (chunks.flatten.dropWhile UsageAccumulator.isAsciiWhitespace)
    (accumulate meter prices countOnly chunks)
  := by
  rw [accumulate_eq]
  obtain ⟨-, hblank⟩ | hpush := UsageAccumulator.push_new meter prices countOnly _ hsse
  · exact absurd hblank hbegun
  · rw [hpush]
    exact UsageAccumulator.follows_push prices countOnly _

/-- A body that does not begin as a JSON document, after blank bytes, is decided by the first event
that ends the response. -/
theorem decided_of_sse
    (meter : Meter ν P) (prices : P) (countOnly : Bool) {chunks : List (List UInt8)}
    (hsse : (chunks.flatten.dropWhile UsageAccumulator.isAsciiWhitespace).head? ≠ some 0x7B) :
  Decided meter prices countOnly bodyFrame chunks
  := by
  constructor
  · intro event hfirst
    have hbegun : chunks.flatten.dropWhile UsageAccumulator.isAsciiWhitespace ≠ [] := by
      intro hblank
      rw [bodyFrame, hblank] at hfirst
      cases hfirst
    constructor
    · intro more
      have hmore :
          (chunks ++ more).flatten.dropWhile UsageAccumulator.isAsciiWhitespace
            = chunks.flatten.dropWhile UsageAccumulator.isAsciiWhitespace ++ more.flatten := by
        rw [List.flatten_append, dropWhile_append_of_ne hbegun]
      have hsse' :
          ((chunks ++ more).flatten.dropWhile UsageAccumulator.isAsciiWhitespace).head?
            ≠ some 0x7B := by
        rw [hmore, List.head?_append_of_ne_nil _ hbegun]
        exact hsse
      have hbegun' :
          (chunks ++ more).flatten.dropWhile UsageAccumulator.isAsciiWhitespace ≠ [] := by
        rw [hmore]
        exact List.append_ne_nil_of_left_ne_nil hbegun _
      have hfollows := follows_accumulate meter prices countOnly hsse' hbegun'
      rw [hmore] at hfollows
      exact reports_of_find rfl hfollows
        ((EventStream.events_prefix_append _ more.flatten).find?_eq_some hfirst)
    · exact hasTotal_of_reported
  · intro hgoes hseen
    have hbegun : chunks.flatten.dropWhile UsageAccumulator.isAsciiWhitespace ≠ [] := by
      intro hblank
      rw [bodyFrame, hblank] at hseen
      obtain ⟨event, hmem, hkind⟩ := hseen
      rw [List.mem_singleton.mp hmem] at hkind
      cases hkind
    exact finish_of_not rfl (follows_accumulate meter prices countOnly hsse hbegun) hgoes hseen

/-! ### Bodies that are not decided so -/

/-- `data:{"type":"response.completed","response":{"usage":{"input_tokens":1,"output_tokens":2}}}` -/
def completedLine : List UInt8 :=
  [0x64, 0x61, 0x74, 0x61, 0x3A, 0x7B, 0x22, 0x74, 0x79, 0x70, 0x65, 0x22, 0x3A, 0x22, 0x72, 0x65,
    0x73, 0x70, 0x6F, 0x6E, 0x73, 0x65, 0x2E, 0x63, 0x6F, 0x6D, 0x70, 0x6C, 0x65, 0x74, 0x65,
    0x64, 0x22, 0x2C, 0x22, 0x72, 0x65, 0x73, 0x70, 0x6F, 0x6E, 0x73, 0x65, 0x22, 0x3A, 0x7B,
    0x22, 0x75, 0x73, 0x61, 0x67, 0x65, 0x22, 0x3A, 0x7B, 0x22, 0x69, 0x6E, 0x70, 0x75, 0x74,
    0x5F, 0x74, 0x6F, 0x6B, 0x65, 0x6E, 0x73, 0x22, 0x3A, 0x31, 0x2C, 0x22, 0x6F, 0x75, 0x74,
    0x70, 0x75, 0x74, 0x5F, 0x74, 0x6F, 0x6B, 0x65, 0x6E, 0x73, 0x22, 0x3A, 0x32, 0x7D, 0x7D,
    0x7D]

/-- `data:{"type":"response.failed"}` -/
def failedLine : List UInt8 :=
  [0x64, 0x61, 0x74, 0x61, 0x3A, 0x7B, 0x22, 0x74, 0x79, 0x70, 0x65, 0x22, 0x3A, 0x22, 0x72, 0x65,
    0x73, 0x70, 0x6F, 0x6E, 0x73, 0x65, 0x2E, 0x66, 0x61, 0x69, 0x6C, 0x65, 0x64, 0x22, 0x7D]

/-- Counts without a price. -/
def naturalMeter : Meter ℕ Unit := ⟨UsageJson.naturals, some, fun _ _ _ => none⟩

set_option maxRecDepth 4000 in
theorem record_completedLine :
  record UsageJson.naturals [completedLine]
    = some (.object [("response", .object [("usage", .object [("input_tokens", .number 1),
        ("output_tokens", .number 2)])]), ("type", .string "response.completed")])
  := rfl

theorem record_failedLine :
  record UsageJson.naturals [failedLine]
    = some (.object [("type", .string "response.failed")])
  := rfl

theorem endsResponse_completedLine :
  endsResponse UsageJson.naturals [completedLine] = true
  := by
  rw [endsResponse, eventKind, record_completedLine]
  rfl

theorem endsResponse_failedLine :
  endsResponse UsageJson.naturals [failedLine] = true
  := by
  rw [endsResponse, eventKind, record_failedLine]
  rfl

theorem reported_completedLine :
  reported naturalMeter () true [completedLine] = some ⟨some 1, some 2, none, none, some 0, none⟩
  := by
  rw [reported, responseField, responseField]
  change finalUsage _ _ _ (((record UsageJson.naturals [completedLine]).bind _).bind _)
    (((record UsageJson.naturals [completedLine]).bind _).bind _) = _
  rw [record_completedLine]
  rfl

theorem reported_failedLine :
  reported naturalMeter () true [failedLine] = none
  := by
  rw [reported, responseField, responseField]
  change finalUsage _ _ _ (((record UsageJson.naturals [failedLine]).bind _).bind _)
    (((record UsageJson.naturals [failedLine]).bind _).bind _) = _
  rw [record_failedLine]
  rfl

/-- A response that has completed, and then fails. -/
theorem decided_of_sse_completed :
  (accumulate naturalMeter () true [completedLine, [0x0D], [0x0A, 0x0D, 0x0A], failedLine,
      [0x0A, 0x0A]]).finish naturalMeter
    = some ⟨some 1, some 2, none, none, some 0, none⟩
  := by
  have hdecided : Decided naturalMeter () true bodyFrame
      [completedLine, [0x0D], [0x0A, 0x0D, 0x0A]] :=
    decided_of_sse naturalMeter () true (by decide +kernel)
  have hevents :
      (bodyFrame (List.flatten [completedLine, [0x0D], [0x0A, 0x0D, 0x0A]])).events
        = [[completedLine]] := by
    decide +kernel
  have hfirst :
      (bodyFrame (List.flatten [completedLine, [0x0D], [0x0A, 0x0D, 0x0A]])).events.find?
        (endsResponse naturalMeter.serde) = some [completedLine] := by
    rw [hevents]
    exact List.find?_cons_of_pos endsResponse_completedLine
  rw [← reported_completedLine]
  exact ((hdecided.1 _ hfirst).1 [failedLine, [0x0A, 0x0A]]).2

/-- A line that is no field, before the event that ends the response, has the body read as a JSON
document; and a blank before the first line is not of the line. -/
theorem not_decided_brace_blank :
  ¬ Decided naturalMeter () true frame [[0x7B, 0x0A, 0x0A], completedLine, [0x0A, 0x0A]]
    ∧ ¬ Decided naturalMeter () true frame
      [[0x20], completedLine, [0x0A, 0x0A], failedLine, [0x0A, 0x0A]]
  := by
  constructor
  · intro h
    have hevents :
        (frame (List.flatten [[0x7B, 0x0A, 0x0A], completedLine, [0x0A, 0x0A]])).events
          = [[[0x7B]], [completedLine]] := by
      decide +kernel
    have hfirst :
        (frame (List.flatten [[0x7B, 0x0A, 0x0A], completedLine, [0x0A, 0x0A]])).events.find?
          (endsResponse naturalMeter.serde) = some [completedLine] := by
      rw [hevents, List.find?_cons_of_neg (by decide)]
      exact List.find?_cons_of_pos endsResponse_completedLine
    have hreported := ((h.1 _ hfirst).1 []).1
    rw [reported_completedLine] at hreported
    exact absurd hreported (by decide +kernel)
  · intro h
    have hevents :
        (frame (List.flatten [[0x20], completedLine, [0x0A, 0x0A], failedLine,
          [0x0A, 0x0A]])).events = [[0x20 :: completedLine], [failedLine]] := by
      decide +kernel
    have hfirst :
        (frame (List.flatten [[0x20], completedLine, [0x0A, 0x0A], failedLine,
          [0x0A, 0x0A]])).events.find? (endsResponse naturalMeter.serde) = some [failedLine] := by
      rw [hevents, List.find?_cons_of_neg (by decide +kernel)]
      exact List.find?_cons_of_pos endsResponse_failedLine
    have hreported := ((h.1 _ hfirst).1 []).1
    rw [reported_failedLine] at hreported
    exact absurd hreported (by decide +kernel)

end Lazybox.UsageParse
