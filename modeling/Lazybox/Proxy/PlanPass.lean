import Lazybox.Proxy.Payloads
import Lazybox.Proxy.UnitPlaces

/-!
# The pass over the tool results

The pass settles one tool result after another in a body that changes under it.  As no tool result
is in another, each is considered as it was at the start: the pass settles outcomes that are known
beforehand, rewrites each place by its own outcome, and leaves the rest of the body alone.
-/

namespace Lazybox.Compaction

open Json (Value Path)
open Condense (CondenseKind)

namespace Outcome

/-- What is at the place of a unit once its outcome is settled. -/
def unit (value : Value) : Outcome → Value
  | condensed _ _ unit => unit
  | _ => value

def id? : Outcome → Option String
  | condensed id _ _ => some id
  | _ => none

def saved : Outcome → ℕ
  | condensed _ saved _ => saved
  | _ => 0

theorem unit_of_id?_eq_none {outcome : Outcome} (h : outcome.id? = none) (value : Value) :
  outcome.unit value = value
  := by
  cases outcome with
  | condensed id saved unit => cases h
  | _ => rfl

end Outcome

/-! ### The verdict on a unit -/

section Verdict

variable {calls : String → Option CondenseKind} {policy : ContextHygiene} {tag : CondenseTag}
  {total : ℕ}

/-- A unit is condensed only when it is eligible, its call is known and its payload can be set. -/
theorem considerUnit_eq_condensed_iff {index saved : ℕ} {unit new : Value} {id : String} :
  considerUnit calls policy tag total index unit = .condensed id saved new
    ↔ policy.eligibility (unitFacts calls tag total index unit) = .condense
      ∧ ∃ kind text, unitCall calls unit = some (id, kind)
        ∧ condense (payloadText unit) kind (ContextParse.payloadLines unit) tag = some text
        ∧ setPayloadText unit text = some new
        ∧ saved = (payloadText unit).utf8ByteSize - text.utf8ByteSize
  := by
  have hlines : (unitFacts calls tag total index unit).lines = ContextParse.payloadLines unit := rfl
  rw [considerUnit]
  cases heligible : policy.eligibility (unitFacts calls tag total index unit) with
  | skip reason => simp
  | condense =>
    cases hcall : unitCall calls unit with
    | none => simp
    | some call =>
      obtain ⟨id', kind⟩ := call
      dsimp only
      rw [hlines]
      cases hcondense :
          condense (payloadText unit) kind (ContextParse.payloadLines unit) tag with
      | none => simp_all
      | some text =>
        dsimp only
        cases hset : setPayloadText unit text with
        | none => simp_all
        | some unit' =>
          dsimp only
          constructor
          · rintro ⟨⟩
            exact ⟨rfl, kind, text, rfl, hcondense, hset, rfl⟩
          · rintro ⟨-, kind', text', ⟨⟩, htext, hunit, rfl⟩
            rw [hcondense] at htext
            cases htext
            rw [hset, Option.some_inj] at hunit
            rw [hunit]

/-- A unit that is condensed changes, and what is saved is what its text lost. -/
theorem payloadText_lt_of_condensed {index saved : ℕ} {unit new : Value} {id : String}
    (h : considerUnit calls policy tag total index unit = .condensed id saved new) :
  (payloadText new).utf8ByteSize < (payloadText unit).utf8ByteSize
    ∧ saved = (payloadText unit).utf8ByteSize - (payloadText new).utf8ByteSize
  := by
  obtain ⟨-, kind, text, -, hcondense, hset, hsaved⟩ := considerUnit_eq_condensed_iff.mp h
  rw [payloadText_setPayloadText hset]
  exact ⟨utf8ByteSize_condense_lt (payloadLines_le unit) hcondense, hsaved⟩

end Verdict

/-! ### Settling outcomes -/

theorem at?_settle (s : Rewriting) (place : Path) (outcome : Outcome) :
  (s.settle place outcome).value.at? place = (s.value.at? place).map outcome.unit
  := by
  cases outcome with
  | condensed id saved unit => apply Value.at?_setAt
  | _ => exact Option.map_id'.symm

theorem at?_settle_of_apart
    (s : Rewriting) {place q : Path} (outcome : Outcome) (h : Json.Apart place q) :
  (s.settle place outcome).value.at? q = s.value.at? q
  := by
  cases outcome with
  | condensed id saved unit => apply Value.at?_setAt_of_apart _ h
  | _ => rfl

/-- Settle the outcomes of units in order. -/
def settleAll (outcome : Path × ℕ → Outcome) (units : List (Path × ℕ)) (s : Rewriting) :
    Rewriting :=
  units.foldl (fun s unit => s.settle unit.1 (outcome unit)) s

section SettleAll

variable {outcome : Path × ℕ → Outcome} {units : List (Path × ℕ)}

theorem at?_settleAll_of_apart {q : Path} (h : ∀ unit ∈ units, Json.Apart unit.1 q)
    (s : Rewriting) :
  (settleAll outcome units s).value.at? q = s.value.at? q
  := by
  induction units generalizing s with
  | nil => rfl
  | cons unit units ih =>
    rw [List.forall_mem_cons] at h
    rw [settleAll, List.foldl_cons, ← settleAll, ih h.2, at?_settle_of_apart _ _ h.1]

/-- Each unit is rewritten by its own outcome. -/
theorem at?_settleAll (hapart : units.Pairwise fun a b => Json.Apart a.1 b.1) {unit : Path × ℕ}
    (hmem : unit ∈ units) (s : Rewriting) :
  (settleAll outcome units s).value.at? unit.1
    = (s.value.at? unit.1).map (outcome unit).unit
  := by
  induction units generalizing s with
  | nil => cases hmem
  | cons first units ih =>
    rw [List.pairwise_cons] at hapart
    rw [settleAll, List.foldl_cons, ← settleAll]
    obtain rfl | hmem := List.mem_cons.mp hmem
    · have hrest : ∀ later ∈ units, Json.Apart later.1 unit.1 := by
        intro later hlater
        exact (hapart.1 later hlater).symm
      rw [at?_settleAll_of_apart hrest, at?_settle]
    · rw [ih hapart.2 hmem, at?_settle_of_apart _ _ (hapart.1 unit hmem)]

/-- The identities of the units that are condensed. -/
theorem condensedIds_settleAll (s : Rewriting) :
  (settleAll outcome units s).condensedIds
    = s.condensedIds ++ units.filterMap fun unit => (outcome unit).id?
  := by
  induction units generalizing s with
  | nil => exact (List.append_nil _).symm
  | cons unit units ih =>
    rw [settleAll, List.foldl_cons, ← settleAll, ih, List.filterMap_cons]
    cases outcome unit with
    | condensed id saved unit => simp [Rewriting.settle, Outcome.id?]
    | _ => rfl

theorem condensed_settleAll (s : Rewriting) :
  (settleAll outcome units s).condensed + s.condensedIds.length
    = (settleAll outcome units s).condensedIds.length + s.condensed
  := by
  induction units generalizing s with
  | nil => apply Nat.add_comm
  | cons unit units ih =>
    have hrest := ih (s.settle unit.1 (outcome unit))
    rw [settleAll, List.foldl_cons, ← settleAll]
    cases houtcome : outcome unit with
    | condensed id saved unit =>
      rw [houtcome] at hrest
      simp only [Rewriting.settle, List.length_append, List.length_singleton] at hrest ⊢
      omega
    | _ =>
      rw [houtcome] at hrest
      exact hrest

theorem savedBytes_settleAll (s : Rewriting) :
  (settleAll outcome units s).savedBytes
    = s.savedBytes + (units.map fun unit => (outcome unit).saved).sum
  := by
  induction units generalizing s with
  | nil => rfl
  | cons unit units ih =>
    rw [settleAll, List.foldl_cons, ← settleAll, ih, List.map_cons, List.sum_cons,
      ← Nat.add_assoc]
    cases outcome unit with
    | _ => rfl

end SettleAll

/-! ### The pass -/

section Pass

variable (calls : String → Option CondenseKind) (policy : ContextHygiene) (tag : CondenseTag)
  (total : ℕ)

/-- The outcome of the unit at a place in a value. -/
def outcomeAt (value : Value) (unit : Path × ℕ) : Outcome :=
  match value.at? unit.1 with
  | some v => considerUnit calls policy tag total unit.2 v
  | none => .passed

theorem visitUnit_eq_settle (s : Rewriting) (unit : Path × ℕ) :
  visitUnit policy tag calls total s unit
    = s.settle unit.1 (outcomeAt calls policy tag total s.value unit)
  := by
  rw [visitUnit, outcomeAt]
  cases s.value.at? unit.1 with
  | none => rfl
  | some v => rfl

/-- Every unit is considered as it was at the start. -/
theorem foldl_visitUnit {value : Value} {units : List (Path × ℕ)}
    (hapart : units.Pairwise fun a b => Json.Apart a.1 b.1) (s : Rewriting)
    (hsame : ∀ unit ∈ units, s.value.at? unit.1 = value.at? unit.1) :
  units.foldl (visitUnit policy tag calls total) s
    = settleAll (outcomeAt calls policy tag total value) units s
  := by
  induction units generalizing s with
  | nil => rfl
  | cons unit units ih =>
    rw [List.pairwise_cons] at hapart
    rw [List.forall_mem_cons] at hsame
    have hfirst :
        visitUnit policy tag calls total s unit
          = s.settle unit.1 (outcomeAt calls policy tag total value unit) := by
      rw [visitUnit_eq_settle, outcomeAt, outcomeAt, hsame.1]
    rw [List.foldl_cons, hfirst, settleAll, List.foldl_cons, ← settleAll]
    apply ih hapart.2
    intro later hlater
    rw [at?_settle_of_apart _ _ (hapart.1 later hlater), hsame.2 later hlater]

end Pass

/-! ### The plan -/

section Plan

variable (serde : Serde) (policy : ContextHygiene) (tag : CondenseTag)

/-- The body as the plan leaves it. -/
def planTree (body : Value) : Value :=
  match unitPlaces body with
  | some places => (rewriteUnits serde policy tag body places).value
  | none => body

/-- The outcome of a unit in the plan of a body. -/
def planOutcome (body : Value) (places : List Path) (unit : Path × ℕ) : Outcome :=
  outcomeAt (toolCalls serde body) policy tag places.length body unit

theorem pairwise_units {body : Value} {places : List Path} (h : unitPlaces body = some places) :
  places.zipIdx.Pairwise fun a b => Json.Apart a.1 b.1
  := by
  have hpairwise := pairwise_unitPlaces h
  rw [← List.zipIdx_map_fst 0 places, List.pairwise_map] at hpairwise
  exact hpairwise

variable {serde policy tag} {body : Value} {places : List Path}

/-- A unit that is condensed is there. -/
theorem exists_unit_of_condensed {unit : Path × ℕ} {id : String} {saved : ℕ} {new : Value}
    (h : planOutcome serde policy tag body places unit = .condensed id saved new) :
  ∃ value, body.at? unit.1 = some value
    ∧ considerUnit (toolCalls serde body) policy tag places.length unit.2 value
      = .condensed id saved new
  := by
  rw [planOutcome, outcomeAt] at h
  cases hread : body.at? unit.1 with
  | none =>
    rw [hread] at h
    cases h
  | some value =>
    rw [hread] at h
    exact ⟨value, rfl, h⟩

theorem rewriteUnits_eq (h : unitPlaces body = some places) :
  rewriteUnits serde policy tag body places
    = settleAll (planOutcome serde policy tag body places) places.zipIdx (.start body)
  := by
  apply foldl_visitUnit _ _ _ _ (pairwise_units h)
  intro unit _
  rfl

/-- Every unit of the body is rewritten by its outcome. -/
theorem at?_planTree (h : unitPlaces body = some places) {unit : Path × ℕ}
    (hmem : unit ∈ places.zipIdx) :
  (planTree serde policy tag body).at? unit.1
    = (body.at? unit.1).map (planOutcome serde policy tag body places unit).unit
  := by
  rw [planTree, h]
  dsimp only
  rw [rewriteUnits_eq h, at?_settleAll (pairwise_units h) hmem]
  rfl

/-- The identities of the units that are condensed, in order. -/
theorem condensedIds_rewriteUnits (h : unitPlaces body = some places) :
  (rewriteUnits serde policy tag body places).condensedIds
    = places.zipIdx.filterMap fun unit => (planOutcome serde policy tag body places unit).id?
  := by
  rw [rewriteUnits_eq h, condensedIds_settleAll]
  apply List.nil_append

theorem condensed_rewriteUnits (h : unitPlaces body = some places) :
  (rewriteUnits serde policy tag body places).condensed
    = (rewriteUnits serde policy tag body places).condensedIds.length
  := by
  rw [rewriteUnits_eq h]
  exact condensed_settleAll (.start body)

theorem savedBytes_rewriteUnits (h : unitPlaces body = some places) :
  (rewriteUnits serde policy tag body places).savedBytes
    = (places.zipIdx.map fun unit =>
        (planOutcome serde policy tag body places unit).saved).sum
  := by
  rw [rewriteUnits_eq h, savedBytes_settleAll]
  apply Nat.zero_add

end Plan

end Lazybox.Compaction
