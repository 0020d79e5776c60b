import Lazybox.Proxy.PlanStable

/-!
# What the plan touches

The plan replaces payloads of tool results that are old, of a known call, long, not condensed yet
and only text.  It leaves the rest of the body alone, reports the units whose payload it replaced
and the bytes that went, and finds nothing more to condense in what it sends.
-/

namespace Lazybox.Compaction

open Json (Value Step Path)
open Condense (CondenseKind)
open ContextParse (payload payloadLines)

/-! ### Rewrites -/

/-- The payload of a unit that is replaced: where the unit is, what it was, the identity of its
call, and the payload that comes in. -/
structure Rewrite where
  place : Path
  index : ℕ
  unit : Value
  id : String
  replacement : Value

namespace Rewrite

/-- The path of the payload. -/
def path (r : Rewrite) : Path := r.place ++ [.key (payloadKey r.unit)]

/-- The unit once its payload is replaced. -/
def after (r : Rewrite) : Value := Value.setAt r.replacement [.key (payloadKey r.unit)] r.unit

/-- The bytes the text of the unit lost. -/
def saved (r : Rewrite) : ℕ :=
  (payloadText r.unit).utf8ByteSize - (payloadText r.after).utf8ByteSize

def applyAll (rewrites : List Rewrite) (value : Value) : Value :=
  rewrites.foldl (fun value r => Value.setAt r.replacement r.path value) value

/-- What is in no payload that is replaced is left alone. -/
theorem at?_applyAll {rewrites : List Rewrite} {q : Path} (h : ∀ r ∈ rewrites, Json.Apart r.path q)
    (value : Value) :
  (applyAll rewrites value).at? q = value.at? q
  := by
  induction rewrites generalizing value with
  | nil => rfl
  | cons r rewrites ih =>
    rw [List.forall_mem_cons] at h
    rw [applyAll, List.foldl_cons, ← applyAll, ih h.2, Value.at?_setAt_of_apart _ h.1]

end Rewrite

/-- A unit that the policy allows to condense, and its condensation. -/
structure Rewrite.Allowed (serde : Serde) (policy : ContextHygiene) (tag : CondenseTag)
    (body : Value) (total : ℕ) (r : Rewrite) : Prop where
  unit : body.at? r.place = some r.unit
  old : policy.keepRecent ≤ total - 1 - r.index
  id : r.unit.asObject.bind resultCallId = some r.id
  known : (toolCalls serde body r.id).isSome = true
  long : policy.minLines ≤ payloadLines r.unit
  fresh : isCondensed (payloadText r.unit) tag = false
  isText : ∃ old, payload r.unit = some old ∧ IsText old
  becomes : ∃ text, r.replacement = .string text ∨ r.replacement = .array [textPart text]
  marked : isCondensed (payloadText r.after) tag = true
  shorter : (payloadText r.after).utf8ByteSize < (payloadText r.unit).utf8ByteSize

/-! ### The rewrites of a plan -/

section Plan

variable (serde : Serde) (policy : ContextHygiene) (tag : CondenseTag) (body : Value)
  (places : List Path)

/-- The rewrite of a unit, if it is condensed. -/
def planRewrite (unit : Path × ℕ) : Option Rewrite :=
  match body.at? unit.1, planOutcome serde policy tag body places unit with
  | some value, .condensed id _ new =>
      (payload new).map fun replacement => ⟨unit.1, unit.2, value, id, replacement⟩
  | _, _ => none

def planRewrites : List Rewrite :=
  places.zipIdx.filterMap (planRewrite serde policy tag body places)

variable {serde policy tag body places}

theorem planRewrite_condensed (htag : tag.OneLine) {unit : Path × ℕ} {id : String} {saved : ℕ}
    {new : Value} (h : planOutcome serde policy tag body places unit = .condensed id saved new) :
  ∃ r, planRewrite serde policy tag body places unit = some r
    ∧ r.place = unit.1 ∧ r.index = unit.2 ∧ r.id = id ∧ r.after = new ∧ r.saved = saved
    ∧ r.Allowed serde policy tag body places.length
  := by
  obtain ⟨value, hvalue, hconsider⟩ := exists_unit_of_condensed h
  obtain ⟨hshorter, hsaved⟩ := payloadText_lt_of_condensed hconsider
  obtain ⟨heligible, kind, text, hcall, hcondense, hset, -⟩ :=
    considerUnit_eq_condensed_iff.mp hconsider
  obtain ⟨hmode, hfresh, hkind, hrecent, hlines⟩ :=
    (ContextHygiene.eligibility_eq_condense_iff _ _).mp heligible
  have htext := payloadText_setPayloadText hset
  obtain ⟨old, newPayload, hold, hisText, rfl, hnewPayload⟩ := setPayloadText_eq_some hset
  obtain ⟨id', hid, hfound⟩ := Option.bind_eq_some_iff.mp hcall
  obtain ⟨kind', hfound, heq⟩ := Option.map_eq_some_iff.mp hfound
  cases heq
  have hmarked : isCondensed text tag = true := by
    rw [condense] at hcondense
    split at hcondense
    · cases hcondense
    · exact isCondensed_renderCondensed htag (Option.filter_eq_some_iff.mp hcondense).1
  refine ⟨⟨unit.1, unit.2, value, id, newPayload⟩, ?_, rfl, rfl, rfl, rfl, hsaved.symm, ?_⟩
  · rw [planRewrite, hvalue, h]
    dsimp only
    rw [payload_setAt hold]
    rfl
  · exact {
      unit := hvalue
      old := hrecent
      id := hid
      known := by rw [hfound, Option.isSome_some]
      long := (policy.reachesFloor_iff _).mp hlines
      fresh := hfresh
      isText := ⟨old, by rw [payload_eq, hold], hisText⟩
      becomes := ⟨text, hnewPayload⟩
      marked := by rw [Rewrite.after, htext, hmarked]
      shorter := hshorter }

/-- A unit is condensed by an allowed rewrite, or is left as it is. -/
theorem planRewrite_cases (htag : tag.OneLine) (unit : Path × ℕ) :
  (∃ r, planRewrite serde policy tag body places unit = some r ∧ (r.place, r.index) = unit
      ∧ planOutcome serde policy tag body places unit = .condensed r.id r.saved r.after
      ∧ r.Allowed serde policy tag body places.length)
    ∨ (planRewrite serde policy tag body places unit = none
      ∧ (planOutcome serde policy tag body places unit).id? = none
      ∧ (planOutcome serde policy tag body places unit).saved = 0
      ∧ ∀ s : Rewriting,
          (s.settle unit.1 (planOutcome serde policy tag body places unit)).value = s.value)
  := by
  cases houtcome : planOutcome serde policy tag body places unit with
  | condensed id saved new =>
    obtain ⟨r, hr, hplace, hindex, hid, hafter, hsaved, hallowed⟩ :=
      planRewrite_condensed htag houtcome
    left
    use r, hr
    rw [hplace, hindex, hid, hafter, hsaved]
    exact ⟨rfl, rfl, hallowed⟩
  | _ =>
    right
    rw [planRewrite, houtcome]
    cases body.at? unit.1 with
    | _ => exact ⟨rfl, rfl, rfl, fun s => rfl⟩

theorem mem_planRewrites
    (htag : tag.OneLine) {r : Rewrite} (h : r ∈ planRewrites serde policy tag body places) :
  (r.place, r.index) ∈ places.zipIdx
    ∧ planOutcome serde policy tag body places (r.place, r.index)
      = .condensed r.id r.saved r.after
    ∧ r.Allowed serde policy tag body places.length
  := by
  rw [planRewrites, List.mem_filterMap] at h
  obtain ⟨unit, hmem, hrewrite⟩ := h
  rcases planRewrite_cases htag unit with ⟨r', hr, rfl, houtcome, hallowed⟩ | ⟨hr, -⟩
  · rw [hrewrite] at hr
    cases hr
    exact ⟨hmem, houtcome, hallowed⟩
  · rw [hrewrite] at hr
    cases hr

/-- The units that are rewritten are units of the body, in their order. -/
theorem sublist_planRewrites (htag : tag.OneLine) :
  ((planRewrites serde policy tag body places).map fun r => (r.place, r.index)).Sublist
    places.zipIdx
  := by
  have hsublist :
      ((places.zipIdx.filterMap (planRewrite serde policy tag body places)).map fun r =>
        (r.place, r.index)).Sublist (places.zipIdx.map id) := by
    apply Keyed.sublist_map_filterMap
    intro unit _ r hr
    rcases planRewrite_cases htag unit with ⟨r', hr', hunit, -⟩ | ⟨hr', -⟩
    · rw [hr', Option.mem_some] at hr
      rw [← hr, hunit, id]
    · rw [hr'] at hr
      cases hr
  rw [List.map_id] at hsublist
  exact hsublist

theorem map_id_planRewrites (htag : tag.OneLine) :
  (planRewrites serde policy tag body places).map Rewrite.id
    = places.zipIdx.filterMap fun unit => (planOutcome serde policy tag body places unit).id?
  := by
  rw [planRewrites, List.map_filterMap]
  apply List.filterMap_congr
  intro unit _
  rcases planRewrite_cases htag unit with ⟨r, hr, -, houtcome, -⟩ | ⟨hr, hid, -⟩
  · rw [hr, houtcome]
    rfl
  · rw [hr, hid]
    rfl

theorem sum_filterMap {α β : Type} {g : α → Option β} {size : β → ℕ} {size' : α → ℕ} (l : List α)
    (h : ∀ a, ((g a).map size).getD 0 = size' a) :
  ((l.filterMap g).map size).sum = (l.map size').sum
  := by
  induction l with
  | nil => rfl
  | cons a l ih =>
    rw [List.map_cons, List.sum_cons, ← ih, ← h a, List.filterMap_cons]
    cases g a with
    | none => exact (Nat.zero_add _).symm
    | some b => rfl

theorem sum_saved_planRewrites (htag : tag.OneLine) :
  ((planRewrites serde policy tag body places).map Rewrite.saved).sum
    = (places.zipIdx.map fun unit => (planOutcome serde policy tag body places unit).saved).sum
  := by
  apply sum_filterMap
  intro unit
  rcases planRewrite_cases htag unit with ⟨r, hr, -, houtcome, -⟩ | ⟨hr, -, hsaved, -⟩
  · rw [hr, houtcome]
    rfl
  · rw [hr, hsaved]
    rfl

/-- Settling the outcomes of units is replacing the payloads of those that are condensed. -/
theorem value_settleAll (htag : tag.OneLine) {units : List (Path × ℕ)}
    (hapart : units.Pairwise fun a b => Json.Apart a.1 b.1) (s : Rewriting)
    (hsame : ∀ unit ∈ units, s.value.at? unit.1 = body.at? unit.1) :
  (settleAll (planOutcome serde policy tag body places) units s).value
    = Rewrite.applyAll (units.filterMap (planRewrite serde policy tag body places)) s.value
  := by
  induction units generalizing s with
  | nil => rfl
  | cons unit units ih =>
    rw [List.pairwise_cons] at hapart
    rw [List.forall_mem_cons] at hsame
    have hlater :
        ∀ later ∈ units, (s.settle unit.1
          (planOutcome serde policy tag body places unit)).value.at? later.1
            = body.at? later.1 := by
      intro later hmem
      rw [at?_settle_of_apart _ _ (hapart.1 later hmem), hsame.2 later hmem]
    rw [settleAll, List.foldl_cons, ← settleAll, ih hapart.2 _ hlater]
    rcases planRewrite_cases htag unit with
      ⟨r, hr, rfl, houtcome, hallowed⟩ | ⟨hr, -, -, hvalue⟩
    · have hunit : s.value.at? r.place = some r.unit := by
        rw [hsame.1, hallowed.unit]
      rw [List.filterMap_cons_some hr, Rewrite.applyAll, Rewrite.applyAll, List.foldl_cons,
        Rewrite.path, Value.setAt_append hunit, ← Rewrite.after, houtcome]
      rfl
    · rw [List.filterMap_cons_none hr, hvalue]

/-- The plan replaces the payloads of its rewrites. -/
theorem planTree_eq_applyAll (htag : tag.OneLine) (h : unitPlaces body = some places) :
  planTree serde policy tag body
    = Rewrite.applyAll (planRewrites serde policy tag body places) body
  := by
  rw [planTree, h]
  dsimp only
  rw [rewriteUnits_eq h, value_settleAll htag (pairwise_units h)]
  · rfl
  · intro unit _
    rfl

end Plan

/-! ### What a rewrite keeps -/

theorem payloadKey_notMem (unit : Value) :
  payloadKey unit ∉ callFields
  := by
  rw [payloadKey]
  split
  · decide
  · decide

theorem ne_payloadKey (unit : Value) :
  "type" ≠ payloadKey unit ∧ "role" ≠ payloadKey unit
  := by
  rw [payloadKey]
  split
  · decide
  · decide

/-- A new text announces no call. -/
theorem walkCalls_text (serde : Serde) {value : Value} {text : String}
    (h : value = .string text ∨ value = .array [textPart text]) :
  walkCalls serde value = []
  := by
  obtain rfl | rfl := h
  · rfl
  · rfl

/-- No call is read along the path of a payload. -/
theorem calm_unitPlace {body : Value} {places : List Path} (h : unitPlaces body = some places)
    {place : Path} (hplace : place ∈ places) {name : String} (hname : name ∉ callFields) :
  Calm (place ++ [.key name])
  := by
  rw [unitPlaces_eq, Option.map_eq_some_iff] at h
  obtain ⟨array, -, rfl⟩ := h
  obtain ⟨below, hbelow, rfl⟩ := List.mem_map.mp hplace
  rw [toolResultUnitsMut_eq, List.mem_flatMap] at hbelow
  obtain ⟨⟨item, i⟩, -, hbelow⟩ := hbelow
  obtain ⟨inItem, hinItem, rfl⟩ := List.mem_map.mp hbelow
  have hinner : Calm (inItem ++ [.key name]) := by
    rw [itemPlaces] at hinItem
    split at hinItem
    · rw [List.mem_singleton] at hinItem
      rw [hinItem]
      exact ⟨.inl hname, trivial⟩
    · rw [resultBlocksMut, List.mem_filterMap] at hinItem
      obtain ⟨⟨block, j⟩, -, hinItem⟩ := hinItem
      rw [Option.ite_none_right_eq_some] at hinItem
      obtain ⟨-, ⟨⟩⟩ := hinItem
      exact ⟨.inl (by decide), .inl hname, trivial⟩
  refine ⟨?_, hinner⟩
  rw [conversationKey]
  split
  · left
    decide
  · right
    exact ⟨rfl, i, inItem ++ [.key name], rfl⟩

section Keeps

variable {serde : Serde} {places : List Path}

/-- Replacing the payload of a unit without calls moves no unit and changes no call. -/
theorem keeps_setAt {value : Value} (hplaces : unitPlaces value = some places) {r : Rewrite}
    (hplace : r.place ∈ places) (hunit : value.at? r.place = some r.unit)
    (hpayload : ∃ old, payload r.unit = some old) (hcalls : walkCalls serde r.unit = [])
    (hreplacement : walkCalls serde r.replacement = []) :
  unitPlaces (Value.setAt r.replacement r.path value) = some places
    ∧ walkCalls serde (Value.setAt r.replacement r.path value) = walkCalls serde value
  := by
  obtain ⟨old, hold⟩ := hpayload
  rw [payload_eq] at hold
  have hread : r.unit.at? [.key (payloadKey r.unit)] = some old := by
    rw [Value.at?_key, hold]
    rfl
  have hold' : walkCalls serde old = [] := by
    apply walkCalls_at? _ hread hcalls
    exact ⟨.inl (payloadKey_notMem r.unit), trivial⟩
  constructor
  · apply unitPlaces_setAt _ (ne_payloadKey r.unit).1 (ne_payloadKey r.unit).2 hplaces hplace
  · apply walkCalls_setAt (calm_unitPlace hplaces hplace (payloadKey_notMem r.unit)) _ hold'
      hreplacement
    rw [Value.at?_append, hunit]
    exact hread

theorem keeps_applyAll
    {rewrites : List Rewrite} {value : Value} (hplaces : unitPlaces value = some places)
    (hapart : rewrites.Pairwise fun a b => Json.Apart a.place b.place)
    (hplace : ∀ r ∈ rewrites, r.place ∈ places)
    (hunit : ∀ r ∈ rewrites, value.at? r.place = some r.unit)
    (hpayload : ∀ r ∈ rewrites, ∃ old, payload r.unit = some old)
    (hcalls : ∀ r ∈ rewrites, walkCalls serde r.unit = [])
    (hreplacement : ∀ r ∈ rewrites, walkCalls serde r.replacement = []) :
  unitPlaces (Rewrite.applyAll rewrites value) = some places
    ∧ walkCalls serde (Rewrite.applyAll rewrites value) = walkCalls serde value
  := by
  induction rewrites generalizing value with
  | nil => exact ⟨hplaces, rfl⟩
  | cons r rewrites ih =>
    rw [List.pairwise_cons] at hapart
    rw [List.forall_mem_cons] at hplace hunit hpayload hcalls hreplacement
    obtain ⟨hplaces', hcalls'⟩ := keeps_setAt hplaces hplace.1 hunit.1 hpayload.1 hcalls.1
      hreplacement.1
    have hlater :
        ∀ later ∈ rewrites,
          (Value.setAt r.replacement r.path value).at? later.place = some later.unit := by
      intro later hmem
      rw [Value.at?_setAt_of_apart, hunit.2 later hmem]
      exact ((hapart.1 later hmem).symm.append _).symm
    obtain ⟨hplaces'', hcalls''⟩ := ih hplaces' hapart.2 hplace.2 hlater hpayload.2 hcalls.2
      hreplacement.2
    exact ⟨hplaces'', hcalls''.trans hcalls'⟩

end Keeps

/-! ### What the plan does -/

section Result

variable (serde : Serde) (policy : ContextHygiene) (tag : CondenseTag) (body : Value)
  (places : List Path)

/-- What a plan does to a body: it makes allowed rewrites of units in their order and nothing else,
reports them, and has nothing more to condense in what it sends. -/
structure TouchesOnly (plan : Plan) (rewrites : List Rewrite) : Prop where
  order : (rewrites.map fun r => (r.place, r.index)).Sublist places.zipIdx
  allowed : ∀ r ∈ rewrites, r.Allowed serde policy tag body places.length
  tree : planTree serde policy tag body = Rewrite.applyAll rewrites body
  frame :
    ∀ q, (∀ r ∈ rewrites, Json.Apart r.path q) →
      (planTree serde policy tag body).at? q = body.at? q
  rewritten : ∀ r ∈ rewrites, (planTree serde policy tag body).at? r.place = some r.after
  units : unitPlaces (planTree serde policy tag body) = some places
  condensed : plan.condensed = rewrites.length
  condensedIds : plan.condensedIds = rewrites.map Rewrite.id
  savedBytes : plan.savedBytes = (rewrites.map Rewrite.saved).sum
  sent :
    plan.body = if rewrites = [] then none else serde.toVec (planTree serde policy tag body)
  again :
    ∀ bytes, plan.body = some bytes →
      ∃ value again skipped, serde.fromSlice bytes = some value
        ∧ Compaction.plan serde policy tag value = some (again, skipped)
        ∧ again.condensed = 0 ∧ again.body = none

variable {serde policy tag body places}

/-- What a plan reports. -/
theorem plan_eq_some {plan : Plan} {skipped : List (SkipReason × ℕ)}
    (h : Compaction.plan serde policy tag body = some (plan, skipped)) :
  ∃ places, unitPlaces body = some places ∧ places.length ≠ 0
    ∧ plan.condensed = (rewriteUnits serde policy tag body places).condensed
    ∧ plan.condensedIds = (rewriteUnits serde policy tag body places).condensedIds
    ∧ plan.savedBytes = (rewriteUnits serde policy tag body places).savedBytes
    ∧ plan.body = if 0 < (rewriteUnits serde policy tag body places).condensed then
        serde.toVec (planTree serde policy tag body) else none
  := by
  rw [Compaction.plan] at h
  cases hplaces : unitPlaces body with
  | none =>
    rw [hplaces] at h
    cases h
  | some places =>
    rw [hplaces] at h
    dsimp only at h
    split at h
    · cases h
    · next hlength =>
        cases h
        refine ⟨places, rfl, hlength, rfl, rfl, rfl, ?_⟩
        rw [planTree, hplaces]

/-- A body in which no unit is to be condensed is planned to stay. -/
theorem plan_of_none (hplaces : unitPlaces body = some places) (hlength : places.length ≠ 0)
    (h : ∀ unit ∈ places.zipIdx, (planOutcome serde policy tag body places unit).id? = none) :
  ∃ plan skipped, Compaction.plan serde policy tag body = some (plan, skipped)
    ∧ plan.condensed = 0 ∧ plan.body = none
  := by
  have hcondensed : (rewriteUnits serde policy tag body places).condensed = 0 := by
    rw [condensed_rewriteUnits hplaces, condensedIds_rewriteUnits hplaces,
      List.length_eq_zero_iff, List.filterMap_eq_nil_iff]
    exact h
  rw [Compaction.plan, hplaces]
  dsimp only
  rw [if_neg hlength]
  refine ⟨_, _, rfl, hcondensed, ?_⟩
  dsimp only
  rw [hcondensed, if_neg (lt_irrefl 0)]

/-- Nothing is to be condensed in a body that was planned. -/
theorem id?_planOutcome_planTree (htag : tag.OneLine) (hplaces : unitPlaces body = some places)
    (hcalls : toolCalls serde (planTree serde policy tag body) = toolCalls serde body)
    {unit : Path × ℕ} (hmem : unit ∈ places.zipIdx) :
  (planOutcome serde policy tag (planTree serde policy tag body) places unit).id? = none
  := by
  cases houtcome :
      planOutcome serde policy tag (planTree serde policy tag body) places unit with
  | condensed id saved new =>
    obtain ⟨value, hvalue, hconsider⟩ := exists_unit_of_condensed houtcome
    have hfresh :
        (unitFacts (toolCalls serde (planTree serde policy tag body)) tag places.length unit.2
          value).alreadyCondensed = false :=
      ((ContextHygiene.eligibility_eq_condense_iff _ _).mp
        (considerUnit_eq_condensed_iff.mp hconsider).1).2.1
    have htree :
        (planTree serde policy tag body).at? unit.1
          = (body.at? unit.1).map (planOutcome serde policy tag body places unit).unit :=
      at?_planTree hplaces hmem
    rcases planRewrite_cases htag unit with ⟨r, -, rfl, hbefore, hallowed⟩ | ⟨-, hbefore, -⟩
    · -- what was condensed is marked
      rw [hbefore, hallowed.unit, hvalue] at htree
      cases htree
      have hmarked := hallowed.marked
      rw [unitFacts, ToolResultFacts.inSequence] at hfresh
      exact absurd (hmarked.symm.trans hfresh) (by decide)
    · -- what was not is as it was
      cases hunit : body.at? unit.1 with
      | none =>
        rw [hunit, hvalue] at htree
        cases htree
      | some old =>
        rw [hunit, hvalue, Option.map_some, Outcome.unit_of_id?_eq_none hbefore] at htree
        cases htree
        rw [planOutcome, outcomeAt, hunit] at hbefore
        dsimp only at hbefore
        rw [← hcalls, hconsider] at hbefore
        cases hbefore
  | _ => rfl

/-- The places that the plan rewrites are apart. -/
theorem pairwise_planRewrites (htag : tag.OneLine) (hplaces : unitPlaces body = some places) :
  (planRewrites serde policy tag body places).Pairwise fun a b => Json.Apart a.place b.place
  := by
  have horder :
      ((planRewrites serde policy tag body places).map fun r => (r.place, r.index)).Sublist
        places.zipIdx := sublist_planRewrites htag
  have hpairwise := (pairwise_units hplaces).sublist horder
  rw [List.pairwise_map] at hpairwise
  exact hpairwise

/-- The units and the calls of a body are in the same places once it is planned. -/
theorem keeps_planTree (htag : tag.OneLine) (hplaces : unitPlaces body = some places)
    (hcalls : ∀ unit ∈ collectedUnits body, walkCalls serde unit = []) :
  unitPlaces (planTree serde policy tag body) = some places
    ∧ walkCalls serde (planTree serde policy tag body) = walkCalls serde body
  := by
  have hplace : ∀ r ∈ planRewrites serde policy tag body places, r.place ∈ places := by
    intro r hr
    exact List.fst_mem_of_mem_zipIdx (mem_planRewrites htag hr).1
  have hallowed :
      ∀ r ∈ planRewrites serde policy tag body places,
        r.Allowed serde policy tag body places.length := by
    intro r hr
    exact (mem_planRewrites htag hr).2.2
  rw [planTree_eq_applyAll htag hplaces]
  apply keeps_applyAll hplaces (pairwise_planRewrites htag hplaces) hplace
  · intro r hr
    exact (hallowed r hr).unit
  · intro r hr
    obtain ⟨old, hold, -⟩ := (hallowed r hr).isText
    exact ⟨old, hold⟩
  · intro r hr
    exact hcalls _ (mem_collectedUnits hplaces (hplace r hr) (hallowed r hr).unit)
  · intro r hr
    obtain ⟨text, htext⟩ := (hallowed r hr).becomes
    exact walkCalls_text serde htext

/-- The plan touches only what it may. -/
theorem plan_touchesOnly
    (htag : tag.OneLine) (hcalls : ∀ unit ∈ collectedUnits body, walkCalls serde unit = [])
    (hcodec :
      ∀ bytes, serde.toVec (planTree serde policy tag body) = some bytes →
        serde.fromSlice bytes = some (planTree serde policy tag body))
    {plan : Plan} {skipped : List (SkipReason × ℕ)}
    (h : Compaction.plan serde policy tag body = some (plan, skipped)) :
  ∃ places, unitPlaces body = some places
    ∧ ∃ rewrites, TouchesOnly serde policy tag body places plan rewrites
  := by
  obtain ⟨places, hplaces, hlength, hcondensed, hids, hsaved, hbody⟩ := plan_eq_some h
  have hcount : plan.condensed = (planRewrites serde policy tag body places).length := by
    rw [hcondensed, condensed_rewriteUnits hplaces, condensedIds_rewriteUnits hplaces,
      ← map_id_planRewrites htag, List.length_map]
  have hallowed :
      ∀ r ∈ planRewrites serde policy tag body places,
        r.Allowed serde policy tag body places.length := by
    intro r hr
    exact (mem_planRewrites htag hr).2.2
  have htree :
      planTree serde policy tag body
        = Rewrite.applyAll (planRewrites serde policy tag body places) body :=
    planTree_eq_applyAll htag hplaces
  obtain ⟨hunits, hwalk⟩ := keeps_planTree htag hplaces hcalls
  have hagain :
      ∃ again skipped,
        Compaction.plan serde policy tag (planTree serde policy tag body) = some (again, skipped)
          ∧ again.condensed = 0 ∧ again.body = none := by
    apply plan_of_none hunits hlength
    intro unit hmem
    apply id?_planOutcome_planTree htag hplaces _ hmem
    funext id
    rw [toolCalls, toolCalls, hwalk]
  have hsent :
      plan.body = if planRewrites serde policy tag body places = [] then none
        else serde.toVec (planTree serde policy tag body) := by
    rw [hbody, ← hcondensed, hcount]
    cases planRewrites serde policy tag body places with
    | nil => rfl
    | cons r rewrites => rfl
  refine ⟨places, hplaces, planRewrites serde policy tag body places, ?_⟩
  exact {
    order := sublist_planRewrites htag
    allowed := hallowed
    tree := htree
    frame := by
      intro q hq
      rw [htree, Rewrite.at?_applyAll hq]
    rewritten := by
      intro r hr
      obtain ⟨hmem, houtcome, hr⟩ := mem_planRewrites htag hr
      rw [at?_planTree hplaces hmem, houtcome, hr.unit]
      rfl
    units := hunits
    condensed := hcount
    condensedIds := by
      rw [hids, condensedIds_rewriteUnits hplaces, map_id_planRewrites htag]
    savedBytes := by
      rw [hsaved, savedBytes_rewriteUnits hplaces, sum_saved_planRewrites htag]
    sent := hsent
    again := by
      intro bytes hbytes
      obtain ⟨again, skipped, hplan, hnone⟩ := hagain
      rw [hsent] at hbytes
      split at hbytes
      · cases hbytes
      · exact ⟨_, again, skipped, hcodec bytes hbytes, hplan, hnone⟩ }

end Result

/-- A codec that prints, and reads back the text of one value. -/
def readingBack (value : Value) : Serde where
  fromStr := fun _ => none
  fromSlice := fun bytes =>
    if bytes = asBytes (String.ofList value.print) then some value else none
  toVec := fun value => some (asBytes (String.ofList value.print))

theorem fromSlice_readingBack
    {value : Value} {bytes : Bytes} (h : (readingBack value).toVec value = some bytes) :
  (readingBack value).fromSlice bytes = some value
  := if_pos (Option.some_inj.mp h).symm

/-- The conversation with a long result once it is planned. -/
def plannedConversation : Value :=
  planTree printing ⟨.on, 1, 1⟩ (.new "session") longConversation

theorem planTree_readingBack :
  planTree (readingBack plannedConversation) ⟨.on, 1, 1⟩ (.new "session") longConversation
    = plannedConversation
  := rfl

/-- The plan of the conversation with a long result sends a body in which only that result is
touched. -/
theorem plan_touchesOnly_longConversation :
  ∃ plan skipped,
    Compaction.plan (readingBack plannedConversation) ⟨.on, 1, 1⟩ (.new "session")
        longConversation = some (plan, skipped)
      ∧ plan.body.isSome = true
      ∧ ∃ places, unitPlaces longConversation = some places
        ∧ ∃ rewrites, TouchesOnly (readingBack plannedConversation) ⟨.on, 1, 1⟩
          (.new "session") longConversation places plan rewrites
  := by
  obtain ⟨new, hnew⟩ := condensedAt_longConversation (readingBack plannedConversation)
  obtain ⟨plan, skipped, hplan, hbody⟩ := hnew.sent
  have htag : (CondenseTag.new "session").OneLine := ⟨"session", rfl, by decide⟩
  have hcalls :
      ∀ unit ∈ collectedUnits longConversation,
        walkCalls (readingBack plannedConversation) unit = [] := by
    have hunits :
        collectedUnits longConversation
          = [longResult, .object [("type", .string "function_call_output"),
              ("call_id", .string "new"), ("output", .string "done")]] := rfl
    rw [hunits, List.forall_mem_cons, List.forall_mem_singleton]
    exact ⟨rfl, rfl⟩
  have hbodySome : plan.body.isSome = true := by rw [hbody]; rfl
  refine ⟨plan, skipped, hplan, hbodySome, plan_touchesOnly htag hcalls ?_ hplan⟩
  intro bytes hbytes
  rw [planTree_readingBack] at hbytes ⊢
  exact fromSlice_readingBack hbytes

end Lazybox.Compaction
