import Lazybox.Proxy.CompactionPlan

/-!
# Where the tool results of a request are

The accounting reads the tool results of a request, the compaction collects mutable references to
them.  What is read at the places of the references are the tool results of the accounting, in
order.  None of the places is above another, and a longer conversation has the places of a shorter
one first.
-/

namespace Lazybox.Compaction

open Json (Value Step Path)
open ContextParse (field conversation toolResultUnits isResultItem isResultBlock)

/-- The array in the field of a name. -/
def arrayAt (name : String) (value : Value) : Option (List Value) :=
  (value.get name).bind Value.asArray

/-- The places of the tool results in an item. -/
def itemPlaces (item : Value) : List Path :=
  if isResultItem item then [[]] else resultBlocksMut item

/-- The tool results in an item. -/
def itemUnits (item : Value) : List Value :=
  if isResultItem item then [item] else ((arrayAt "content" item).getD []).filter isResultBlock

variable (array : List Value)

theorem toolResultUnits_eq :
  toolResultUnits array = array.flatMap itemUnits
  := rfl

theorem toolResultUnitsMut_eq :
  toolResultUnitsMut array
    = array.zipIdx.flatMap fun entry => (itemPlaces entry.1).map (Step.index entry.2 :: ·)
  := rfl

/-! ### What is read at the places -/

theorem at?_block {item : Value} {blocks : List Value} (h : arrayAt "content" item = some blocks)
    (j : ℕ) :
  item.at? [.key "content", .index j] = blocks[j]?
  := by
  rw [arrayAt] at h
  cases hget : item.get "content" with
  | none =>
    rw [hget] at h
    cases h
  | some content =>
    rw [hget] at h
    have harray : content.asArray = some blocks := h
    rw [Value.at?_key, hget, Option.bind_some, Value.at?_index, harray, Option.bind_some]
    cases blocks[j]? with
    | none => rfl
    | some block => rfl

theorem at?_resultBlocksMut (item : Value) :
  (resultBlocksMut item).map (item.at? ·)
    = (((arrayAt "content" item).getD []).filter isResultBlock).map some
  := by
  rw [resultBlocksMut]
  cases h : arrayAt "content" item with
  | none =>
    rw [arrayAt] at h
    rw [h]
    rfl
  | some blocks =>
    have hread := at?_block h
    rw [arrayAt] at h
    rw [h, Option.getD_some, List.map_filterMap]
    have hentry :
        ∀ entry ∈ blocks.zipIdx,
          ((if isResultBlock entry.1 then
              some [Step.key "content", Step.index entry.2] else none).map (item.at? ·))
            = if isResultBlock entry.1 then some (some entry.1) else none := by
      rintro ⟨block, j⟩ hmem
      rw [List.mk_mem_zipIdx_iff_getElem?] at hmem
      split
      · rw [Option.map_some, hread, hmem]
      · rfl
    rw [List.filterMap_congr hentry]
    conv_rhs => rw [← List.zipIdx_map_fst 0 blocks, List.filter_map, List.map_map]
    rw [← List.filterMap_eq_map, ← List.filterMap_eq_filter, List.filterMap_filterMap]
    apply List.filterMap_congr
    intro entry _
    cases h : isResultBlock entry.1 with
    | true => simp [Option.guard, h]
    | false => simp [Option.guard, h]

theorem at?_itemPlaces (item : Value) :
  (itemPlaces item).map (item.at? ·) = (itemUnits item).map some
  := by
  rw [itemPlaces, itemUnits]
  split
  · rfl
  · apply at?_resultBlocksMut

/-- What is read at the places of the tool results are the tool results. -/
theorem at?_toolResultUnitsMut :
  (toolResultUnitsMut array).map ((Value.array array).at? ·) = (toolResultUnits array).map some
  := by
  rw [toolResultUnitsMut_eq, toolResultUnits_eq, List.map_flatMap, List.map_flatMap]
  have hentry :
      ∀ entry ∈ array.zipIdx,
        ((itemPlaces entry.1).map (Step.index entry.2 :: ·)).map ((Value.array array).at? ·)
          = (itemUnits entry.1).map some := by
    rintro ⟨item, i⟩ hmem
    rw [List.mk_mem_zipIdx_iff_getElem?] at hmem
    rw [List.map_map, ← at?_itemPlaces]
    apply List.map_congr_left
    intro place _
    rw [Function.comp_apply, Value.at?_index, Value.asArray, Option.bind_some, hmem,
      Option.bind_some]
  rw [List.flatMap_congr hentry]
  conv_rhs => rw [← List.zipIdx_map_fst 0 array, List.flatMap_map]

/-! ### The conversation -/

/-- The name of the field that has the conversation. -/
def conversationKey (body : Value) : String :=
  if (body.get "messages").isSome then "messages" else "input"

theorem conversationMut_eq (body : Value) :
  conversationMut body
    = (arrayAt (conversationKey body) body).map fun _ => [.key (conversationKey body)]
  := rfl

theorem conversation_eq (body : Value) :
  conversation body = arrayAt (conversationKey body) body
  := by
  rw [conversation, arrayAt, conversationKey]
  cases h : body.get "messages" with
  | none => rfl
  | some messages => simp [h]

variable {body : Value}

theorem at?_conversation {array : List Value} (h : conversation body = some array) :
  body.at? [.key (conversationKey body)] = some (.array array)
  := by
  rw [conversation_eq, arrayAt] at h
  cases hget : body.get (conversationKey body) with
  | none =>
    rw [hget] at h
    cases h
  | some value =>
    rw [hget, Option.bind_some] at h
    rw [Value.at?_key, hget, Option.bind_some, Value.at?]
    cases value with
    | array items =>
      cases h
      rfl
    | _ => cases h

/-- The places of the tool results in a body are those in its conversation. -/
theorem unitPlaces_eq (body : Value) :
  unitPlaces body
    = (conversation body).map fun array =>
        (toolResultUnitsMut array).map (Step.key (conversationKey body) :: ·)
  := by
  rw [unitPlaces, conversationMut_eq, ← conversation_eq]
  cases h : conversation body with
  | none => rfl
  | some array =>
    rw [Option.map_some, Option.bind_some, at?_conversation h]
    rfl

variable {places : List Path}

/-- What the compaction reads at its places is what the accounting counts. -/
theorem at?_unitPlaces (h : unitPlaces body = some places) :
  ∃ array, conversation body = some array
    ∧ places.map (body.at? ·) = (toolResultUnits array).map some
  := by
  rw [unitPlaces_eq, Option.map_eq_some_iff] at h
  obtain ⟨array, harray, rfl⟩ := h
  refine ⟨array, harray, ?_⟩
  rw [List.map_map, ← at?_toolResultUnitsMut]
  apply List.map_congr_left
  intro place _
  rw [Function.comp_apply, ← List.singleton_append, Value.at?_append, at?_conversation harray,
    Option.bind_some]

/-- The tool results the compaction collects. -/
def collectedUnits (body : Value) : List Value :=
  ((unitPlaces body).getD []).filterMap (body.at? ·)

theorem mem_collectedUnits {unit : Value} (h : unitPlaces body = some places) {place : Path}
    (hplace : place ∈ places) (hunit : body.at? place = some unit) :
  unit ∈ collectedUnits body
  := by
  rw [collectedUnits, h, Option.getD_some, List.mem_filterMap]
  exact ⟨place, hplace, hunit⟩

/-- The compaction collects the tool results that are measured. -/
theorem collectedUnits_eq (body : Value) :
  collectedUnits body = ((conversation body).map toolResultUnits).getD []
  := by
  rw [collectedUnits]
  cases h : unitPlaces body with
  | none =>
    rw [unitPlaces_eq, Option.map_eq_none_iff] at h
    rw [h]
    rfl
  | some places =>
    obtain ⟨array, harray, hread⟩ := at?_unitPlaces h
    have hmap : places.filterMap (body.at? ·) = (places.map (body.at? ·)).filterMap id := by
      rw [List.filterMap_map]
      rfl
    rw [harray, Option.getD_some, Option.map_some, Option.getD_some, hmap, hread,
      List.filterMap_map]
    apply List.filterMap_some

/-! ### No place is above another -/

/-- Steps that differ in their positions. -/
theorem pairwise_zipIdx {α : Type} (items : List α) :
  items.zipIdx.Pairwise fun a b => Step.index a.2 ≠ Step.index b.2
  := by
  have hpositions : (items.zipIdx.map Prod.snd).Pairwise (· < ·) := by
    rw [List.zipIdx_map_snd]
    exact List.pairwise_lt_range'
  rw [List.pairwise_map] at hpositions
  apply hpositions.imp
  intro a b hlt heq
  injection heq with heq
  omega

theorem pairwise_resultBlocksMut (item : Value) :
  (resultBlocksMut item).Pairwise Json.Apart
  := by
  rw [resultBlocksMut, List.pairwise_filterMap]
  apply (pairwise_zipIdx _).imp
  intro a b hne p hp q hq
  rw [Option.ite_none_right_eq_some] at hp hq
  obtain ⟨-, ⟨⟩⟩ := hp
  obtain ⟨-, ⟨⟩⟩ := hq
  apply Json.Apart.cons
  apply Json.Apart.of_ne hne

theorem pairwise_itemPlaces (item : Value) :
  (itemPlaces item).Pairwise Json.Apart
  := by
  rw [itemPlaces]
  split
  · apply List.pairwise_singleton
  · apply pairwise_resultBlocksMut

/-- No tool result is in another. -/
theorem pairwise_toolResultUnitsMut :
  (toolResultUnitsMut array).Pairwise Json.Apart
  := by
  rw [toolResultUnitsMut_eq, List.pairwise_flatMap]
  constructor
  · intro entry _
    rw [List.pairwise_map]
    apply (pairwise_itemPlaces entry.1).imp
    intro p q h
    exact h.cons _
  · apply (pairwise_zipIdx array).imp
    intro a b hne p hp q hq
    rw [List.mem_map] at hp hq
    obtain ⟨p, -, rfl⟩ := hp
    obtain ⟨q, -, rfl⟩ := hq
    apply Json.Apart.of_ne hne

theorem pairwise_unitPlaces (h : unitPlaces body = some places) :
  places.Pairwise Json.Apart
  := by
  rw [unitPlaces_eq, Option.map_eq_some_iff] at h
  obtain ⟨array, -, rfl⟩ := h
  rw [List.pairwise_map]
  apply (pairwise_toolResultUnitsMut array).imp
  intro p q hapart
  exact hapart.cons _

/-! ### Changing a payload moves no tool result -/

theorem map_modify_of_eq {α β : Type} {g : α → β} {change : α → α} {items : List α} {i : ℕ}
    (h : ∀ a, items[i]? = some a → g (change a) = g a) :
  (items.modify i change).map g = items.map g
  := by
  apply List.ext_getElem?
  intro j
  rw [List.getElem?_map, List.getElem?_map, List.getElem?_modify]
  cases hj : items[j]? with
  | none => rfl
  | some a =>
    by_cases hij : i = j
    · subst hij
      simp [h a hj]
    · simp [hij]

/-- The places in a conversation depend on the places in its items. -/
theorem toolResultUnitsMut_eq_map :
  toolResultUnitsMut array
    = (array.map itemPlaces).zipIdx.flatMap fun entry => entry.1.map (Step.index entry.2 :: ·)
  := by
  rw [toolResultUnitsMut_eq, List.zipIdx_map, List.flatMap_map]
  rfl

/-- The places in an item depend on which of its blocks are tool results. -/
theorem resultBlocksMut_eq_map (item : Value) :
  resultBlocksMut item
    = (((arrayAt "content" item).getD []).map isResultBlock).zipIdx.filterMap fun entry =>
        if entry.1 then some [.key "content", .index entry.2] else none
  := by
  rw [List.zipIdx_map, List.filterMap_map]
  rfl

section SetPayload

variable (new : Value) {name : String} (path : Path)

theorem field_setAt_key {other : String} (h : other ≠ name) (v : Value) :
  field other (Value.setAt new (.key name :: path) v) = field other v
  := by
  rw [field, field, Value.get_setAt_key, if_neg h]

theorem isResultItem_setAt_key (htype : "type" ≠ name) (hrole : "role" ≠ name) (v : Value) :
  isResultItem (Value.setAt new (.key name :: path) v) = isResultItem v
  := by
  rw [isResultItem, isResultItem, field_setAt_key new path htype, field_setAt_key new path hrole]

theorem isResultBlock_setAt_key (htype : "type" ≠ name) (v : Value) :
  isResultBlock (Value.setAt new (.key name :: path) v) = isResultBlock v
  := by
  rw [isResultBlock, isResultBlock, field_setAt_key new path htype]

theorem arrayAt_setAt_index (i : ℕ) (v : Value) :
  arrayAt name (Value.setAt new (.key name :: .index i :: path) v)
    = (arrayAt name v).map (·.modify i (Value.setAt new path))
  := by
  rw [arrayAt, arrayAt, Value.get_setAt_key, if_pos rfl]
  cases v.get name with
  | none => rfl
  | some w => apply Value.asArray_setAt_index

variable (htype : "type" ≠ name) (hrole : "role" ≠ name)
include htype hrole

/-- Another payload in a tool result of an item moves none of its tool results. -/
theorem itemPlaces_setAt {item : Value} {place : Path} (h : place ∈ itemPlaces item) :
  itemPlaces (Value.setAt new (place ++ [.key name]) item) = itemPlaces item
  := by
  cases hitem : isResultItem item with
  | true =>
    rw [itemPlaces, hitem, if_pos rfl, List.mem_singleton] at h
    rw [h, List.nil_append, itemPlaces, isResultItem_setAt_key new [] htype hrole, itemPlaces]
    simp [hitem]
  | false =>
    rw [itemPlaces, hitem, if_neg Bool.false_ne_true, resultBlocksMut, List.mem_filterMap] at h
    obtain ⟨⟨block, j⟩, -, hplace⟩ := h
    rw [Option.ite_none_right_eq_some] at hplace
    obtain ⟨-, ⟨⟩⟩ := hplace
    have hsame :
        isResultItem
            (Value.setAt new ([.key "content", .index j] ++ [.key name]) item) = false := by
      rw [List.cons_append, isResultItem_setAt_key new _ (by decide) (by decide), hitem]
    rw [itemPlaces, itemPlaces, hsame, hitem, if_neg Bool.false_ne_true,
      if_neg Bool.false_ne_true, resultBlocksMut_eq_map, resultBlocksMut_eq_map,
      List.cons_append, List.cons_append, List.nil_append, arrayAt_setAt_index]
    cases arrayAt "content" item with
    | none => rfl
    | some blocks =>
      rw [Option.map_some, Option.getD_some, Option.getD_some, map_modify_of_eq]
      intro block _
      apply isResultBlock_setAt_key new [] htype

/-- Another payload in a tool result of a body moves none of its tool results. -/
theorem unitPlaces_setAt {body : Value} {places : List Path} (h : unitPlaces body = some places)
    {place : Path} (hplace : place ∈ places) :
  unitPlaces (Value.setAt new (place ++ [.key name]) body) = some places
  := by
  rw [unitPlaces_eq, Option.map_eq_some_iff] at h
  obtain ⟨array, harray, rfl⟩ := h
  obtain ⟨below, hbelow, rfl⟩ := List.mem_map.mp hplace
  rw [toolResultUnitsMut_eq, List.mem_flatMap] at hbelow
  obtain ⟨⟨item, i⟩, hentry, hbelow⟩ := hbelow
  obtain ⟨inItem, hinItem, rfl⟩ := List.mem_map.mp hbelow
  rw [List.mk_mem_zipIdx_iff_getElem?] at hentry
  rw [conversation_eq] at harray
  have hkey :
      conversationKey (Value.setAt new
          (.key (conversationKey body) :: .index i :: (inItem ++ [.key name])) body)
        = conversationKey body := by
    rw [conversationKey, Value.isSome_get_setAt_key, ← conversationKey]
  rw [List.cons_append, List.cons_append, unitPlaces_eq, conversation_eq, hkey,
    arrayAt_setAt_index, harray, Option.map_some, Option.map_some, toolResultUnitsMut_eq_map,
    toolResultUnitsMut_eq_map, map_modify_of_eq]
  intro item' hitem'
  rw [hentry] at hitem'
  cases hitem'
  exact itemPlaces_setAt new htype hrole hinItem

end SetPayload

end Lazybox.Compaction

/-!
## Large results

The measurement flags the tool results whose lines are more than the floor of the policy, the
compaction takes those that reach it.  The two agree on a request exactly when no tool result has as
many lines as the floor.
-/

namespace Lazybox.Compaction

open Json (Value Path)
open ContextParse (conversation toolResultUnits payloadLines measureUnit measure countBlocks Digest
  Measured Block ContextAccounting)

section Agreement

variable (digest : Digest) (policy : ContextHygiene) (body : Value)

/-- The tool results whose block the measurement flags. -/
def flaggedLarge (largeLines : ℕ) : List Value :=
  match conversation body, measure digest body largeLines with
  | some array, some measured =>
      ((toolResultUnits array).zip measured.blocks).filterMap fun (unit, block) =>
        if block.large then some unit else none
  | _, _ => []

/-- The collected tool results that reach the floor of the policy. -/
def sizeEligible : List Value :=
  (collectedUnits body).filter fun unit => policy.reachesFloor (payloadLines unit)

/-- The tool results that the session sends for the first time. -/
def newUnits : List Value → ContextParse.SeenBlocks → List Value
  | [], _ => []
  | unit :: units, seen =>
      let (resent, seen) := seen.observe (digest.hash (digest.toWriter unit))
      if resent then newUnits units seen else unit :: newUnits units seen

/-- The measurement flags what the compaction takes by size, in its order, and reports how many
of them the session sends for the first time. -/
structure MeasuresCandidates : Prop where
  flagged : flaggedLarge digest body policy.minLines = sizeEligible policy body
  reported :
    ∀ measured, measure digest body policy.minLines = some measured →
      ∀ seen, (measured.against seen).2.largeToolResults
        = ((newUnits digest (collectedUnits body) seen).filter fun unit =>
            policy.reachesFloor (payloadLines unit)).length

end Agreement

/-! ### The two traversals -/

variable {digest : Digest} {policy : ContextHygiene} {body : Value}

theorem flaggedLarge_eq (largeLines : ℕ) :
  flaggedLarge digest body largeLines
    = (collectedUnits body).filter (largeLines < payloadLines ·)
  := by
  rw [flaggedLarge, collectedUnits_eq, ContextParse.measure]
  cases conversation body with
  | none => rfl
  | some array =>
    simp only [Option.map_some, Option.getD_some]
    induction toolResultUnits array with
    | nil => rfl
    | cons unit units ih =>
      rw [List.map_cons, List.zip_cons_cons, List.filterMap_cons, ih, measureUnit,
        List.filter_cons]
      by_cases hlarge : largeLines < payloadLines unit
      · simp [hlarge]
      · simp [hlarge]

theorem largeToolResults_countBlocks (largeLines : ℕ) (units : List Value)
    (seen : ContextParse.SeenBlocks) (accounting : ContextAccounting) :
  (countBlocks (units.map (measureUnit digest largeLines))
      (seen, accounting)).2.largeToolResults
    = accounting.largeToolResults
      + ((newUnits digest units seen).filter (largeLines < payloadLines ·)).length
  := by
  induction units generalizing seen accounting with
  | nil => rfl
  | cons unit units ih =>
    rw [List.map_cons, countBlocks, newUnits, measureUnit]
    dsimp only
    rw [ih]
    cases seen.observe (digest.hash (digest.toWriter unit)) with
    | mk resent seen' =>
      cases resent with
      | true => rfl
      | false =>
        by_cases hlarge : largeLines < payloadLines unit
        · simp [hlarge]
          omega
        · simp [hlarge]

theorem newUnits_subset (units : List Value) (seen : ContextParse.SeenBlocks) :
  newUnits digest units seen ⊆ units
  := by
  induction units generalizing seen with
  | nil => exact List.Subset.refl _
  | cons unit units ih =>
    rw [newUnits]
    dsimp only
    split
    · apply List.subset_cons_of_subset _ (ih _)
    · apply List.cons_subset_cons _ (ih _)

/-! ### The boundary -/

/-- Being over the floor and reaching it differ on the floor alone. -/
theorem filter_over_eq_filter_reaches_iff (units : List Value) :
  units.filter (policy.minLines < payloadLines ·)
      = units.filter (fun unit => policy.reachesFloor (payloadLines unit))
    ↔ ∀ unit ∈ units, payloadLines unit ≠ policy.minLines
  := by
  constructor
  · intro h unit hmem hfloor
    have hreaches :
        unit ∈ units.filter (fun unit => policy.reachesFloor (payloadLines unit)) := by
      rw [List.mem_filter, ContextHygiene.reachesFloor, hfloor]
      simp [hmem]
    rw [← h, List.mem_filter, hfloor] at hreaches
    simp at hreaches
  · intro h
    apply List.filter_congr
    intro unit hmem
    have hne := h unit hmem
    rw [ContextHygiene.reachesFloor, Bool.eq_iff_iff]
    simp only [decide_eq_true_eq, Bool.not_eq_true', decide_eq_false_iff_not]
    omega

/-- The measurement and the compaction agree on the large results of a request exactly when none has
as many lines as the floor. -/
theorem measuresCandidates_iff :
  MeasuresCandidates digest policy body
    ↔ ∀ unit ∈ collectedUnits body, payloadLines unit ≠ policy.minLines
  := by
  constructor
  · intro h
    have hflagged := h.flagged
    rw [flaggedLarge_eq, sizeEligible, filter_over_eq_filter_reaches_iff] at hflagged
    exact hflagged
  · intro h
    refine ⟨?_, ?_⟩
    · rw [flaggedLarge_eq, sizeEligible, filter_over_eq_filter_reaches_iff]
      exact h
    · intro measured hmeasured seen
      rw [ContextParse.measure, Option.map_eq_some_iff] at hmeasured
      obtain ⟨array, harray, rfl⟩ := hmeasured
      have hunits : collectedUnits body = toolResultUnits array := by
        rw [collectedUnits_eq, harray]
        rfl
      have hnew :
          ∀ unit ∈ newUnits digest (toolResultUnits array) seen,
            payloadLines unit ≠ policy.minLines := by
        intro unit hmem
        apply h
        rw [hunits]
        exact newUnits_subset _ _ hmem
      rw [Measured.against, largeToolResults_countBlocks, Nat.zero_add, hunits,
        (filter_over_eq_filter_reaches_iff _).mpr hnew]

/-- A request with one result of one line. -/
def oneLineResult : Value :=
  .object [("input", .array [.object [
    ("type", .string "function_call_output"), ("call_id", .string "call"),
    ("output", .string "done")]])]

/-- Under a floor of one line, a result of one line is a candidate that is not flagged. -/
theorem measuresCandidates_atFloor :
  ¬ MeasuresCandidates ⟨fun _ => [], List.length⟩ ⟨.on, 1, 1⟩ oneLineResult
  := by
  intro h
  have hlength := congrArg List.length h.flagged
  revert hlength
  decide

end Lazybox.Compaction
