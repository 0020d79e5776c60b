import Lazybox.Library.Bytes
import Lazybox.Proxy.PlanPass
import Lazybox.Proxy.ToolCalls

/-!
# Condensing a longer conversation

A conversation grows by messages at its end.  The tool results it had are at the same places and at
the same indices, are further from the newest, and are of the same calls as long as no new call
takes the identity of an earlier one.  What the plan of the shorter conversation made of a tool
result, the plan of the longer one makes of it again.
-/

namespace Lazybox.Compaction

open Json (Value Step Path)
open Condense (CondenseKind)
open ContextParse (conversation)
open GitOps (textLines)

/-! ### The longer conversation -/

/-- The body with more messages at the end of its conversation. -/
def extended (body : Value) (later : List Value) : Value :=
  match conversation body with
  | some array => Value.setAt (.array (array ++ later)) [.key (conversationKey body)] body
  | none => body

section Extended

variable {body : Value} {array : List Value}

theorem get_conversationKey (h : conversation body = some array) :
  body.get (conversationKey body) = some (.array array)
  := by
  have hread := at?_conversation h
  rw [Value.at?_key] at hread
  cases hget : body.get (conversationKey body) with
  | none =>
    rw [hget] at hread
    cases hread
  | some value =>
    rw [hget] at hread
    exact hread

theorem get_extended (h : conversation body = some array) (later : List Value) (name : String) :
  (extended body later).get name
    = if name = conversationKey body then some (.array (array ++ later)) else body.get name
  := by
  rw [extended, h]
  dsimp only
  rw [Value.get_setAt_key, get_conversationKey h]
  rfl

theorem conversationKey_extended (h : conversation body = some array) (later : List Value) :
  conversationKey (extended body later) = conversationKey body
  := by
  rw [extended, h]
  dsimp only
  rw [conversationKey, Value.isSome_get_setAt_key, conversationKey]

theorem conversation_extended (h : conversation body = some array) (later : List Value) :
  conversation (extended body later) = some (array ++ later)
  := by
  rw [conversation_eq, conversationKey_extended h, arrayAt, get_extended h, if_pos rfl]
  rfl

/-- The tool results of the shorter conversation are the first of the longer one. -/
theorem unitPlaces_extended {places : List Path} (h : unitPlaces body = some places)
    (later : List Value) :
  ∃ more, unitPlaces (extended body later) = some (places ++ more)
  := by
  rw [unitPlaces_eq, Option.map_eq_some_iff] at h
  obtain ⟨array, harray, rfl⟩ := h
  rw [unitPlaces_eq, conversation_extended harray, conversationKey_extended harray,
    Option.map_some, toolResultUnitsMut_eq, toolResultUnitsMut_eq, List.zipIdx_append,
    List.flatMap_append, List.map_append]
  exact ⟨_, rfl⟩

/-- They are what they were. -/
theorem at?_extended {places : List Path} (h : unitPlaces body = some places) {place : Path}
    (hplace : place ∈ places) (later : List Value) :
  (extended body later).at? place = body.at? place
  := by
  rw [unitPlaces_eq, Option.map_eq_some_iff] at h
  obtain ⟨array, harray, rfl⟩ := h
  obtain ⟨place, hunit, rfl⟩ := List.mem_map.mp hplace
  rw [toolResultUnitsMut_eq, List.mem_flatMap] at hunit
  obtain ⟨⟨item, i⟩, hentry, hunit⟩ := hunit
  obtain ⟨place, -, rfl⟩ := List.mem_map.mp hunit
  rw [List.mk_mem_zipIdx_iff_getElem?] at hentry
  have hlater : (array ++ later)[i]? = some item := by
    rw [List.getElem?_append_left (List.getElem?_eq_some_iff.mp hentry).1, hentry]
  rw [Value.at?_key, get_extended harray, if_pos rfl, Value.at?_key, get_conversationKey harray,
    Option.bind_some, Option.bind_some, Value.at?_index, Value.at?_index, Value.asArray,
    Value.asArray, Option.bind_some, Option.bind_some, hentry, hlater]

theorem exists_walkCalls_extended
    (serde : Serde) (h : conversation body = some array) (later : List Value) :
  ∃ pre post, walkCalls serde body = pre ++ walkItems serde array ++ post
    ∧ walkCalls serde (extended body later)
      = pre ++ walkItems serde array ++ walkItems serde later ++ post
  := by
  have hquiet : Quiet (conversationKey body) (.array array) (.array (array ++ later)) := by
    rw [conversationKey]
    split
    · left
      decide
    · right
      exact ⟨rfl, rfl, rfl⟩
  obtain ⟨pre, post, hold, hnew⟩ :
      ∃ pre post, walkCalls serde body = pre ++ walkCalls serde (.array array) ++ post
        ∧ walkCalls serde
            (Value.setAt (.array (array ++ later)) [.key (conversationKey body)] body)
          = pre ++ walkCalls serde (.array (array ++ later)) ++ post :=
    exists_walkCalls_setAt_key (get_conversationKey h) hquiet
  use pre, post
  constructor
  · exact hold
  · rw [extended, h]
    dsimp only
    rw [hnew, walkCalls, walkItems_append, ← List.append_assoc pre]

variable {serde : Serde}

/-- The messages announce no call under the identity of an earlier one. -/
def NoReuse (serde : Serde) (body : Value) (later : List Value) : Prop :=
  ∀ call ∈ walkItems serde later, ∀ earlier ∈ walkCalls serde body, call.1 ≠ earlier.1

/-- An earlier call is found as before. -/
theorem toolCalls_extended {later : List Value} (hreuse : NoReuse serde body later) {id : String}
    {kind : CondenseKind} (h : toolCalls serde body id = some kind) :
  toolCalls serde (extended body later) id = some kind
  := by
  cases harray : conversation body with
  | none =>
    rw [extended, harray]
    exact h
  | some array =>
    obtain ⟨pre, post, hold, hnew⟩ := exists_walkCalls_extended serde harray later
    have hne : toolCalls serde body id ≠ none := by
      rw [h]
      exact Option.some_ne_none kind
    obtain ⟨earlier, hearlier, rfl⟩ := exists_mem_walkCalls hne
    have hlater : ∀ call ∈ walkItems serde later, call.1 ≠ earlier.1 := by
      intro call hcall
      exact hreuse call hcall earlier hearlier
    rw [toolCalls, hold] at h
    rw [toolCalls, hnew, getLast?_filter_insert _ _ _ hlater]
    exact h

end Extended

/-! ### The verdict on a unit -/

section Verdict

variable {calls calls' : String → Option CondenseKind} {policy : ContextHygiene}
  {tag : CondenseTag} {total total' : ℕ}

/-- A block that is condensed stays eligible further from the newest. -/
theorem eligibility_older
    {kind : Option CondenseKind} {lines index : ℕ} {fresh : Bool} (htotal : total ≤ total')
    (h : policy.eligibility (.inSequence kind lines index total fresh) = .condense) :
  policy.eligibility (.inSequence kind lines index total' fresh) = .condense
  := by
  rw [ContextHygiene.eligibility_eq_condense_iff] at h ⊢
  obtain ⟨hmode, hfresh, hkind, hrecent, hlines⟩ := h
  refine ⟨hmode, hfresh, hkind, ?_, hlines⟩
  have holder : total - 1 - index ≤ total' - 1 - index := by omega
  exact hrecent.trans holder

/-- A unit is condensed to the same when it is further from the newest and its call is found. -/
theorem considerUnit_older {index saved : ℕ} {unit new : Value} {id : String}
    (htotal : total ≤ total') (hcalls : ∀ id kind, calls id = some kind → calls' id = some kind)
    (h : considerUnit calls policy tag total index unit = .condensed id saved new) :
  considerUnit calls' policy tag total' index unit = .condensed id saved new
  := by
  obtain ⟨heligible, kind, text, hcall, hcondense, hset, hsaved⟩ :=
    considerUnit_eq_condensed_iff.mp h
  have hcall' : unitCall calls' unit = some (id, kind) := by
    rw [unitCall, Option.bind_eq_some_iff] at hcall ⊢
    obtain ⟨id', hid, hkind⟩ := hcall
    use id', hid
    rw [Option.map_eq_some_iff] at hkind ⊢
    obtain ⟨kind', hkind, heq⟩ := hkind
    exact ⟨kind', hcalls id' kind' hkind, heq⟩
  have heligible' :
      policy.eligibility (unitFacts calls' tag total' index unit) = .condense := by
    rw [unitFacts, hcall']
    rw [unitFacts, hcall] at heligible
    exact eligibility_older htotal heligible
  apply considerUnit_eq_condensed_iff.mpr
  exact ⟨heligible', kind, text, hcall', hcondense, hset, hsaved⟩

end Verdict

/-! ### The plan -/

section Plan

variable (serde : Serde) (policy : ContextHygiene) (tag : CondenseTag)

/-- The plan of a body condenses the tool result at a place to a new one, and sends the body with
it. -/
structure CondensedAt (body : Value) (place : Path) (new : Value) : Prop where
  isUnit : ∃ places, unitPlaces body = some places ∧ place ∈ places
  rewritten : (planTree serde policy tag body).at? place = some new
  changed : body.at? place ≠ some new
  sent : ∃ plan skipped, Compaction.plan serde policy tag body = some (plan, skipped)
    ∧ plan.body = serde.toVec (planTree serde policy tag body)

variable {serde policy tag} {body : Value} {places : List Path}

/-- A tool result that the plan changes has been condensed. -/
theorem planOutcome_eq_condensed
    (h : unitPlaces body = some places) {unit : Path × ℕ} (hmem : unit ∈ places.zipIdx)
    {new : Value} (hnew : (planTree serde policy tag body).at? unit.1 = some new)
    (hchanged : body.at? unit.1 ≠ some new) :
  ∃ id saved, planOutcome serde policy tag body places unit = .condensed id saved new
  := by
  rw [at?_planTree h hmem] at hnew
  cases houtcome : planOutcome serde policy tag body places unit with
  | condensed id saved unit' =>
    rw [houtcome, Option.map_eq_some_iff] at hnew
    obtain ⟨_, _, rfl⟩ := hnew
    exact ⟨id, saved, rfl⟩
  | _ =>
    rw [houtcome, Option.map_eq_some_iff] at hnew
    obtain ⟨old, hold, rfl⟩ := hnew
    exact absurd hold hchanged

/-- The plan sends the body once it has condensed a tool result. -/
theorem plan_sends (h : unitPlaces body = some places) {unit : Path × ℕ}
    (hmem : unit ∈ places.zipIdx) {id : String} {saved : ℕ} {new : Value}
    (houtcome : planOutcome serde policy tag body places unit = .condensed id saved new) :
  ∃ plan skipped, Compaction.plan serde policy tag body = some (plan, skipped)
    ∧ plan.body = serde.toVec (planTree serde policy tag body)
  := by
  have hlength : places.length ≠ 0 := by
    intro hzero
    rw [List.length_eq_zero_iff] at hzero
    rw [hzero] at hmem
    cases hmem
  have hid : id ∈ (rewriteUnits serde policy tag body places).condensedIds := by
    rw [condensedIds_rewriteUnits h, List.mem_filterMap]
    use unit, hmem
    rw [houtcome]
    rfl
  have hcondensed : 0 < (rewriteUnits serde policy tag body places).condensed := by
    rw [condensed_rewriteUnits h]
    exact List.length_pos_of_mem hid
  rw [plan, h]
  dsimp only
  rw [if_neg hlength]
  refine ⟨_, _, rfl, ?_⟩
  rw [planTree, h]
  dsimp only
  rw [if_pos hcondensed]

/-- The plan condenses the tool results whose outcome it is. -/
theorem condensedAt_iff {place : Path} {new : Value} :
  CondensedAt serde policy tag body place new
    ↔ ∃ places index id saved, unitPlaces body = some places ∧ (place, index) ∈ places.zipIdx
      ∧ planOutcome serde policy tag body places (place, index) = .condensed id saved new
  := by
  constructor
  · intro h
    obtain ⟨places, hplaces, hplace⟩ := h.isUnit
    obtain ⟨index, hindex⟩ := List.getElem?_of_mem hplace
    have hmem : (place, index) ∈ places.zipIdx := List.mk_mem_zipIdx_iff_getElem?.mpr hindex
    obtain ⟨id, saved, houtcome⟩ := planOutcome_eq_condensed hplaces hmem h.rewritten h.changed
    exact ⟨places, index, id, saved, hplaces, hmem, houtcome⟩
  · rintro ⟨places, index, id, saved, hplaces, hmem, houtcome⟩
    obtain ⟨unit, hunit, hconsider⟩ := exists_unit_of_condensed houtcome
    refine ⟨⟨places, hplaces, List.fst_mem_of_mem_zipIdx hmem⟩, ?_, ?_,
      plan_sends hplaces hmem houtcome⟩
    · rw [at?_planTree hplaces hmem, houtcome, hunit]
      rfl
    · rw [hunit]
      rintro ⟨⟩
      exact absurd (payloadText_lt_of_condensed hconsider).1 (lt_irrefl _)

/-- What is condensed in a conversation is condensed in a longer one to the same. -/
theorem condensedAt_extended
    {later : List Value} (hreuse : NoReuse serde body later) {place : Path} {new : Value}
    (h : CondensedAt serde policy tag body place new) :
  CondensedAt serde policy tag (extended body later) place new
    ∧ (extended body later).at? place = body.at? place
  := by
  obtain ⟨places, index, id, saved, hplaces, hmem, houtcome⟩ := condensedAt_iff.mp h
  obtain ⟨unit, hunit, hconsider⟩ := exists_unit_of_condensed houtcome
  obtain ⟨more, hmore⟩ := unitPlaces_extended hplaces later
  have hsame := at?_extended hplaces (List.fst_mem_of_mem_zipIdx hmem) later
  have hmem' : (place, index) ∈ (places ++ more).zipIdx := by
    rw [List.zipIdx_append]
    exact List.mem_append_left _ hmem
  have houtcome' :
      planOutcome serde policy tag (extended body later) (places ++ more) (place, index)
        = .condensed id saved new := by
    have hlength : places.length ≤ (places ++ more).length := by simp
    rw [planOutcome, outcomeAt, hsame, hunit]
    exact considerUnit_older hlength (fun id kind => toolCalls_extended hreuse) hconsider
  constructor
  · apply condensedAt_iff.mpr
    exact ⟨_, index, id, saved, hmore, hmem', houtcome'⟩
  · exact hsame

end Plan

/-! ### A conversation that grows -/

/-- Forty-one lines, one of them long. -/
def longLines : List (List Char) :=
  List.replicate 20 [] ++ [List.replicate 300 'x'] ++ List.replicate 20 []

def longText : String := String.ofList (WorkingClaim.unlines longLines)

/-- The result of reading a file. -/
def longResult : Value :=
  .object [("type", .string "function_call_output"), ("call_id", .string "old"),
    ("output", .string longText)]

/-- A long result, and a newer one. -/
def longConversation : Value :=
  .object [("input", .array [
    .object [("type", .string "function_call"), ("call_id", .string "old"),
      ("name", .string "read")],
    longResult,
    .object [("type", .string "function_call_output"), ("call_id", .string "new"),
      ("output", .string "done")]])]

/-- The messages of one more turn. -/
def laterMessages : List Value :=
  [.object [("type", .string "function_call"), ("call_id", .string "newer"),
      ("name", .string "shell")],
    .object [("type", .string "function_call_output"), ("call_id", .string "newer"),
      ("output", .string "done")]]

/-- A codec that prints, and reads nothing. -/
def printing : Serde where
  fromStr := fun _ => none
  fromSlice := fun _ => none
  toVec := fun value => some (asBytes (String.ofList value.print))

theorem textLines_longText :
  textLines longText.toList = longLines
  := by
  have hlines : textLines (WorkingClaim.unlines longLines) = longLines := by decide +kernel
  rw [longText, String.toList_ofList, hlines]

theorem utf8ByteSize_ofList (l : List Char) :
  (String.ofList l).utf8ByteSize = (l.map Char.utf8Size).sum
  := by
  rw [← String.size_toByteArray, String.toByteArray_ofList, List.utf8Encode,
    List.size_toByteArray, List.length_flatMap]
  simp only [String.length_utf8EncodeChar]

theorem utf8ByteSize_longText :
  longText.utf8ByteSize = 341
  := by
  rw [longText, utf8ByteSize_ofList]
  decide +kernel

theorem condense_longText :
  (condense longText (.fileRead "") 41 (.new "session")).isSome = true
  := by
  rw [condense, textLines_longText, utf8ByteSize_longText, if_neg (by decide)]
  simp only [String.toList_append]
  rw [renderCondensed]
  dsimp only
  rw [if_neg (by decide +kernel), Option.filter_some_pos]
  · rfl
  · -- the sizes of the parts, so that no text is put together
    simp only [String.utf8ByteSize_append, utf8ByteSize_ofList]
    decide +kernel

/-- The long result is condensed. -/
theorem condensedAt_longConversation (serde : Serde) :
  ∃ new, CondensedAt serde ⟨.on, 1, 1⟩ (.new "session") longConversation
    [.key "input", .index 1] new
  := by
  have htext : payloadText longResult = longText := String.ofList_toList
  have hlines : ContextParse.payloadLines longResult = 41 := by
    have hcount : ContextParse.payloadLines longResult = (textLines longText.toList).length := rfl
    rw [hcount, textLines_longText]
    rfl
  have hfresh : isCondensed longText (.new "session") = false := by
    rw [isCondensed, CondenseTag.marks, textLines_longText]
    decide +kernel
  obtain ⟨text, hcondense⟩ := Option.isSome_iff_exists.mp condense_longText
  use Value.setAt (.string text) [.key "output"] longResult
  apply condensedAt_iff.mpr
  refine ⟨[[.key "input", .index 1], [.key "input", .index 2]], 0, "old",
    (payloadText longResult).utf8ByteSize - text.utf8ByteSize, rfl, ?_, ?_⟩
  · exact List.mem_cons_self
  · have hunit : longConversation.at? [.key "input", .index 1] = some longResult := rfl
    rw [planOutcome, outcomeAt, hunit]
    apply considerUnit_eq_condensed_iff.mpr
    have hcall :
        unitCall (toolCalls serde longConversation) longResult = some ("old", .fileRead "") := rfl
    refine ⟨?_, .fileRead "", text, hcall, ?_, rfl, rfl⟩
    · rw [unitFacts, hcall, hlines, htext, hfresh]
      decide
    · rw [htext, hlines]
      exact hcondense

/-- One turn later the long result is condensed to the same. -/
theorem condensedAt_extended_longConversation :
  ∃ new, CondensedAt printing ⟨.on, 1, 1⟩ (.new "session") longConversation
      [.key "input", .index 1] new
    ∧ CondensedAt printing ⟨.on, 1, 1⟩ (.new "session") (extended longConversation laterMessages)
      [.key "input", .index 1] new
  := by
  obtain ⟨new, h⟩ := condensedAt_longConversation printing
  have hreuse : NoReuse printing longConversation laterMessages := by
    have hlater : walkItems printing laterMessages = [("newer", .commandOutput "")] := rfl
    have hearlier : walkCalls printing longConversation = [("old", .fileRead "")] := rfl
    rw [NoReuse, hlater, hearlier]
    simp
  exact ⟨new, h, (condensedAt_extended hreuse h).1⟩

end Lazybox.Compaction
