import Lazybox.Condense.Summarizer
import Mathlib.Data.List.Nodup

/-!
# Summaries are stable

A gate lets one call of a key in at a time.  So a key is fetched once, unless a caller was dropped
while its write was under way and another looks for the summary before the write lands.  Otherwise
what was once returned for a key stays in the store, and is what every later call returns.
-/

namespace Lazybox.Condense

variable {cacheKvKey : Request → String}

namespace Entries

@[simp] theorem get_set_self (entries : Entries) (key : String) (value : CachedSummary) :
  (entries.set key value).get key = some value
  := by
  rw [get, set, Keyed.lookup_cons, if_pos rfl]
  rfl

theorem get_set (entries : Entries) {key key' : String} (value : CachedSummary) (h : key' ≠ key) :
  (entries.set key value).get key' = entries.get key'
  := by
  rw [get, set, Keyed.lookup_cons, if_neg (Ne.symm h), Keyed.lookup_erase, if_neg h]
  rfl

end Entries

namespace Call

section Gates

variable (cacheKvKey)

/-- The key and the gate of a call that has one. -/
def gate : Call → Option (String × ℕ)
  | .waiting r g | .checking r g | .fetching r g | .writing r g _ | .pruning r g _ =>
      some (cacheKvKey r, g)
  | _ => none

/-- The key and the gate of a call that holds one. -/
def inside : Call → Option (String × ℕ)
  | .checking r g | .fetching r g | .writing r g _ | .pruning r g _ => some (cacheKvKey r, g)
  | _ => none

/-- The key whose summary the call found missing and did not write yet. -/
def missed : Call → Option String
  | .fetching r _ | .writing r _ _ => some (cacheKvKey r)
  | _ => none

/-- The summary that the call found or wrote. -/
def found : Call → Option (String × CachedSummary)
  | .pruning r _ value | .releasing r (some value) => some (cacheKvKey r, value)
  | _ => none

end Gates

/-- What a call looks for under its gate. -/
def checked : Call → Option Request
  | .checking r _ => some r
  | _ => none

theorem gate_of_inside {call : Call} {at' : String × ℕ} (h : call.inside cacheKvKey = some at') :
  call.gate cacheKvKey = some at'
  := by
  cases call <;> first | exact h | cases h

theorem inside_of_missed {call : Call} {key : String} (h : call.missed cacheKvKey = some key) :
  ∃ g, call.inside cacheKvKey = some (key, g)
  := by
  cases call with
  | fetching r g =>
    use g
    rw [← Option.some.inj h]
    rfl
  | writing r g value =>
    use g
    rw [← Option.some.inj h]
    rfl
  | _ => cases h

end Call

namespace Summarizer

theorem calls_setCall (s : Summarizer) {i : ℕ} {call : Call} {P : ℕ → Call → Prop}
    (hi : P i call) (other : ∀ j, j ≠ i → P j (s.calls j)) :
  ∀ j, P j ((s.setCall i call).calls j)
  := (Function.forall_update_iff s.calls P).mpr ⟨hi, other⟩

theorem setCall_setCall (s : Summarizer) (i : ℕ) (call call' : Call) :
  (s.setCall i call).setCall i call' = s.setCall i call'
  := by
  simp only [setCall, Function.update_idem]

/-! ### Gates -/

section

variable (cacheKvKey)

/-- The gate of a call is the one in the map. -/
def Has (inflight : String → Option ℕ) (gates : ℕ → Gate) (i : ℕ) (call : Call) : Prop :=
  ∀ key g, call.gate cacheKvKey = some (key, g) → inflight key = some g ∧ i ∈ (gates g).clones

/-- A call that is inside a gate holds it. -/
def Holds (gates : ℕ → Gate) (i : ℕ) (call : Call) : Prop :=
  ∀ key g, call.inside cacheKvKey = some (key, g) → (gates g).holder = some i

structure Gated (s : Summarizer) : Prop where
  has : ∀ i, Has cacheKvKey s.inflight s.gates i (s.calls i)
  holds : ∀ i, Holds cacheKvKey s.gates i (s.calls i)

end

section Gated

variable {s : Summarizer} (hs : Gated cacheKvKey s)
include hs

variable {i : ℕ}

/-- There is one call inside the gate of a key. -/
theorem Gated.alone {j : ℕ} {key : String} {g g' : ℕ}
    (hi : (s.calls i).inside cacheKvKey = some (key, g))
    (hj : (s.calls j).inside cacheKvKey = some (key, g')) :
  i = j
  := by
  have hig := (hs.has i key g (Call.gate_of_inside hi)).1
  have hjg := (hs.has j key g' (Call.gate_of_inside hj)).1
  obtain rfl := Option.some.inj (hig.symm.trans hjg)
  apply Option.some.inj ((hs.holds i key g hi).symm.trans (hs.holds j key g hj))

theorem Gated.not_missed {j : ℕ} {key : String} {g : ℕ}
    (hi : (s.calls i).inside cacheKvKey = some (key, g)) (hji : j ≠ i) :
  (s.calls j).missed cacheKvKey ≠ some key
  := by
  intro hj
  obtain ⟨g', hj⟩ := Call.inside_of_missed hj
  apply hji (hs.alone hj hi)

/-- A call goes on where it is. -/
theorem Gated.setCall {call : Call} (gate : call.gate cacheKvKey = (s.calls i).gate cacheKvKey)
    (inside : call.inside cacheKvKey = (s.calls i).inside cacheKvKey) :
  Gated cacheKvKey (s.setCall i call)
  := by
  constructor
  · apply calls_setCall
    · intro key g hgate
      apply hs.has i key g (gate.symm.trans hgate)
    · intro j _
      apply hs.has j
  · apply calls_setCall
    · intro key g hinside
      apply hs.holds i key g (inside.symm.trans hinside)
    · intro j _
      apply hs.holds j

/-- A call without a gate takes the one of its key. -/
theorem Gated.openGate {r : Request} :
  Gated cacheKvKey ((s.gate i (cacheKvKey r)).1.setCall i
    (.waiting r (s.gate i (cacheKvKey r)).2))
  := by
  have hclones : ∀ g, ∀ j ∈ (s.gates g).clones,
      j ∈ ((s.gate i (cacheKvKey r)).1.gates g).clones := by
    intro g j hj
    change j ∈ (Function.update s.gates _ _ g).clones
    rw [Function.update_apply]
    split
    · next hg =>
        rw [hg] at hj
        apply List.mem_cons_of_mem _ hj
    · apply hj
  have hholder : ∀ g, ((s.gate i (cacheKvKey r)).1.gates g).holder = (s.gates g).holder := by
    intro g
    change (Function.update s.gates _ _ g).holder = _
    rw [Function.update_apply]
    split
    · next hg => rw [hg]
    · rfl
  have hinflight : ∀ key g, s.inflight key = some g →
      (s.gate i (cacheKvKey r)).1.inflight key = some g := by
    intro key g hkey
    change Function.update s.inflight _ _ key = some g
    rw [Function.update_apply]
    split
    · next hsame => rw [← hsame, hkey, Option.getD_some]
    · apply hkey
  constructor
  · apply calls_setCall
    · rintro key g ⟨⟩
      constructor
      · apply Function.update_self
      · change i ∈ (Function.update s.gates (s.gate i (cacheKvKey r)).2 _ _).clones
        rw [Function.update_self]
        apply List.mem_cons_self
    · intro j _ key g hj
      obtain ⟨hkey, hclone⟩ := hs.has j key g hj
      exact ⟨hinflight key g hkey, hclones g j hclone⟩
  · apply calls_setCall
    · nofun
    · intro j _ key g hj
      apply (hholder g).trans (hs.holds j key g hj)

/-- A call that waits for a gate gets it. -/
theorem Gated.lock {g : ℕ} {r : Request} (call : s.calls i = .waiting r g)
    (free : (s.gates g).holder = none) :
  Gated cacheKvKey ((s.setGate g { s.gates g with holder := some i }).setCall i (.checking r g))
  := by
  have hclones : ∀ g', ((s.setGate g { s.gates g with holder := some i }).gates g').clones
      = (s.gates g').clones := by
    intro g'
    change (Function.update s.gates _ _ g').clones = _
    rw [Function.update_apply]
    split
    · next hg => rw [hg]
    · rfl
  constructor
  · apply calls_setCall
    · rintro key _ ⟨⟩
      change s.inflight _ = _ ∧ i ∈ ((s.setGate g _).gates g).clones
      rw [hclones]
      apply hs.has i
      rw [call]
      rfl
    · intro j _ key g' hj
      change s.inflight _ = _ ∧ j ∈ ((s.setGate g _).gates g').clones
      rw [hclones]
      apply hs.has j key g' hj
  · apply calls_setCall
    · rintro key _ ⟨⟩
      change (Function.update s.gates _ _ _).holder = _
      rw [Function.update_self]
    · intro j _ key g' hj
      have hholder := hs.holds j key g' hj
      change (Function.update s.gates _ _ _).holder = _
      rw [Function.update_of_ne]
      · apply hholder
      · rintro rfl
        cases free.symm.trans hholder

/-- A call lets go of its gate. -/
theorem Gated.leave {g : ℕ} {call : Call} (nothing : call.gate cacheKvKey = none) :
  Gated cacheKvKey ((s.leave i g).setCall i call)
  := by
  have hgates : ∀ j g', j ≠ i →
      (j ∈ (s.gates g').clones → j ∈ ((s.leave i g).gates g').clones)
        ∧ ((s.gates g').holder = some j → ((s.leave i g).gates g').holder = some j) := by
    intro j g' hji
    change (_ → j ∈ (Function.update s.gates _ _ g').clones)
      ∧ (_ → (Function.update s.gates _ _ g').holder = _)
    rw [Function.update_apply]
    split
    · next hg =>
        rw [hg]
        constructor
        · intro hj
          rw [List.mem_filter]
          exact ⟨hj, by simpa using hji⟩
        · intro hj
          change (if (s.gates g).holder = some i then none else _) = some j
          rw [hj, if_neg]
          simpa using hji
    · exact ⟨id, id⟩
  constructor
  · apply calls_setCall
    · intro key g' hgate
      cases nothing.symm.trans hgate
    · intro j hji key g' hj
      obtain ⟨hkey, hclone⟩ := hs.has j key g' hj
      exact ⟨hkey, (hgates j g' hji).1 hclone⟩
  · apply calls_setCall
    · intro key g' hinside
      cases nothing.symm.trans (Call.gate_of_inside hinside)
    · intro j hji key g' hj
      apply (hgates j g' hji).2 (hs.holds j key g' hj)

/-- Only a gate that nobody has is taken off the map. -/
theorem Gated.releaseGate (key : String) :
  Gated cacheKvKey (s.releaseGate key)
  := by
  rw [Summarizer.releaseGate]
  split
  · next g hg =>
      split
      · next hnobody =>
          constructor
          · intro j key' g' hj
            obtain ⟨hkey, hclone⟩ := hs.has j key' g' hj
            refine ⟨?_, hclone⟩
            apply (Function.update_of_ne _ _ _).trans hkey
            rintro rfl
            obtain rfl := Option.some.inj (hg.symm.trans hkey)
            rw [hnobody] at hclone
            cases hclone
          · apply hs.holds
      · apply hs
  · apply hs

end Gated

/-! ### Summaries -/

section

variable (cacheKvKey)

/-- A summary that was missed is not in the store, and no write of it is still to land. -/
def Missed (entries : Entries) (abandoned : List (String × CachedSummary)) (call : Call) : Prop :=
  ∀ key, call.missed cacheKvKey = some key →
    entries.get key = none ∧ ∀ w ∈ abandoned, w.1 ≠ key

/-- A summary that was found is in the store. -/
def Found (entries : Entries) (call : Call) : Prop :=
  ∀ key value, call.found cacheKvKey = some (key, value) → entries.get key = some value

/-- What any call found, wrote or returned is in the store. -/
structure Agreed (s : Summarizer) (os : List Obs) : Prop where
  missed : ∀ i, Missed cacheKvKey s.entries s.abandoned (s.calls i)
  found : ∀ i, Found cacheKvKey s.entries (s.calls i)
  pending : ∀ w ∈ s.abandoned, s.entries.get w.1 = none
  distinct : (s.abandoned.map Prod.fst).Nodup
  told : ∀ r value, .returned r (some value) ∈ os → s.entries.get (cacheKvKey r) = some value

end

section Agreed

variable {s : Summarizer} {os : List Obs} (hs : Agreed cacheKvKey s os)
include hs

theorem Agreed.nothing :
  Agreed cacheKvKey s (os ++ [])
  := by
  rw [List.append_nil]
  apply hs

theorem Agreed.setCall {i : ℕ} {call : Call} (missed : Missed cacheKvKey s.entries s.abandoned call)
    (found : Found cacheKvKey s.entries call) :
  Agreed cacheKvKey (s.setCall i call) os
  := by
  constructor
  · apply calls_setCall (P := fun _ => Missed cacheKvKey s.entries s.abandoned)
    · apply missed
    · intro j _
      apply hs.missed j
  · apply calls_setCall (P := fun _ => Found cacheKvKey s.entries)
    · apply found
    · intro j _
      apply hs.found j
  · apply hs.pending
  · apply hs.distinct
  · apply hs.told

/-- A call goes on without a summary. -/
theorem Agreed.setCall_without {i : ℕ} {call : Call} (missed : call.missed cacheKvKey = none)
    (found : call.found cacheKvKey = none) :
  Agreed cacheKvKey (s.setCall i call) os
  := by
  apply hs.setCall
  · intro key hkey
    cases missed.symm.trans hkey
  · intro key value hkey
    cases found.symm.trans hkey

/-- Only the entries, the calls and the writes that are to land matter. -/
theorem Agreed.congr {s' : Summarizer} (entries : s'.entries = s.entries)
    (calls : s'.calls = s.calls) (abandoned : s'.abandoned = s.abandoned) :
  Agreed cacheKvKey s' os
  := by
  obtain ⟨missed, found, pending, distinct, told⟩ := hs
  constructor
  · rw [entries, calls, abandoned]
    apply missed
  · rw [entries, calls]
    apply found
  · rw [entries, abandoned]
    apply pending
  · rw [abandoned]
    apply distinct
  · rw [entries]
    apply told

/-- A summary is returned that is in the store, or none. -/
theorem Agreed.returned {r : Request} {result : Option CachedSummary}
    (there : ∀ value, result = some value → s.entries.get (cacheKvKey r) = some value) :
  Agreed cacheKvKey s (os ++ [.returned r result])
  := by
  obtain ⟨missed, found, pending, distinct, told⟩ := hs
  constructor <;> try assumption
  intro r' value hmem
  rw [List.mem_append, List.mem_singleton] at hmem
  obtain hmem | hlast := hmem
  · apply told r' value hmem
  · cases hlast
    apply there value rfl

/-- A summary that is not in the store, and which no other call missed, is put there. -/
theorem Agreed.land {key : String} {value : CachedSummary}
    {abandoned : List (String × CachedSummary)} (absent : s.entries.get key = none)
    (missed : ∀ i, (s.calls i).missed cacheKvKey ≠ some key)
    (sub : abandoned.Sublist s.abandoned) (landed : ∀ w ∈ abandoned, w.1 ≠ key) :
  Agreed cacheKvKey { s with entries := s.entries.set key value, abandoned := abandoned } os
  := by
  have hkept : ∀ key' value', s.entries.get key' = some value' →
      (s.entries.set key value).get key' = some value' := by
    intro key' value' hkey
    rw [Entries.get_set, hkey]
    rintro rfl
    cases absent.symm.trans hkey
  constructor
  · intro i key' hkey
    obtain ⟨hnone, hother⟩ := hs.missed i key' hkey
    constructor
    · apply (Entries.get_set _ _ _).trans hnone
      rintro rfl
      apply missed i hkey
    · intro w hw
      apply hother w (sub.subset hw)
  · intro i key' value' hkey
    apply hkept key' value' (hs.found i key' value' hkey)
  · intro w hw
    apply (Entries.get_set _ _ (landed w hw)).trans (hs.pending w (sub.subset hw))
  · apply hs.distinct.sublist (sub.map _)
  · intro r value' hmem
    apply hkept _ value' (hs.told r value' hmem)

end Agreed

/-- The write of a caller that is dropped is still to land. -/
theorem Agreed.abandon {s : Summarizer} {os : List Obs} (hs : Agreed cacheKvKey s os)
    (gated : Gated cacheKvKey s) {i g : ℕ} {r : Request} {value : CachedSummary}
    (call : s.calls i = .writing r g value) :
  Agreed cacheKvKey { s.setCall i .dropped with
    abandoned := s.abandoned ++ [(cacheKvKey r, value)] } os
  := by
  have hdropped : Agreed cacheKvKey (s.setCall i .dropped) os := hs.setCall_without rfl rfl
  obtain ⟨hnone, hother⟩ := hs.missed i (cacheKvKey r) (by rw [call]; rfl)
  constructor
  · apply calls_setCall
      (P := fun _ => Missed cacheKvKey s.entries (s.abandoned ++ [(cacheKvKey r, value)]))
    · nofun
    · intro j hji key hkey
      obtain ⟨habsent, hpending⟩ := hs.missed j key hkey
      refine ⟨habsent, ?_⟩
      intro w hw
      rw [List.mem_append, List.mem_singleton] at hw
      obtain hw | rfl := hw
      · apply hpending w hw
      · rintro rfl
        apply gated.not_missed (i := i) (g := g) _ hji hkey
        rw [call]
        rfl
  · apply hdropped.found
  · intro w hw
    rw [List.mem_append, List.mem_singleton] at hw
    obtain hw | rfl := hw
    · apply hs.pending w hw
    · apply hnone
  · rw [List.map_append, List.map_singleton, List.nodup_append_comm]
    apply List.Nodup.cons _ hs.distinct
    intro hmem
    obtain ⟨w, hw, hsame⟩ := List.mem_map.mp hmem
    apply hother w hw hsame
  · apply hs.told

/-! ### The condition -/

section

variable (cacheKvKey)

/-- A call that misses a summary under its gate does so when no write of it by a caller that was
dropped is still to land. -/
def Careful (s : Summarizer) : Act → Prop
  | .check i =>
      ∀ r ∈ (s.calls i).checked, s.entries.get (cacheKvKey r) = none →
        ∀ w ∈ s.abandoned, w.1 ≠ cacheKvKey r
  | _ => True

instance (s : Summarizer) : DecidablePred (s.Careful cacheKvKey) := by
  intro a
  cases a <;> unfold Careful <;> infer_instance

/-- What holds of a summarizer and of what was observed. -/
structure Sound (s : Summarizer) (os : List Obs) : Prop where
  gated : Gated cacheKvKey s
  agreed : Agreed cacheKvKey s os

end

theorem Gated.congr {s s' : Summarizer} (hs : Gated cacheKvKey s)
    (inflight : s'.inflight = s.inflight) (gates : s'.gates = s.gates)
    (calls : s'.calls = s.calls) :
  Gated cacheKvKey s'
  := by
  obtain ⟨has, holds⟩ := hs
  constructor
  · rw [inflight, gates, calls]
    apply has
  · rw [gates, calls]
    apply holds

section Steps

variable {s : Summarizer} {os : List Obs} (hs : Sound cacheKvKey s os)
include hs

/-- What holds after a step. -/
def Kept (cacheKvKey : Request → String) (s : Summarizer) (os : List Obs) (a : Act) : Prop :=
  Sound cacheKvKey (s.step cacheKvKey a).1 (os ++ (s.step cacheKvKey a).2)

omit hs in
theorem Sound.quiet {s : Summarizer} (gated : Gated cacheKvKey s)
    (agreed : Agreed cacheKvKey s os) :
  Sound cacheKvKey s (os ++ [])
  := ⟨gated, agreed.nothing⟩

theorem Sound.same :
  Sound cacheKvKey s (os ++ [])
  := Sound.quiet hs.gated hs.agreed

variable (i : ℕ)

theorem Sound.kept_condense (r : Request) :
  Kept cacheKvKey s os (.condense i r)
  := by
  simp only [Kept, step]
  split
  · next call =>
      apply Sound.quiet
      · apply hs.gated.setCall
        · rw [call]
          rfl
        · rw [call]
          rfl
      · apply hs.agreed.setCall_without rfl rfl
  · apply hs.same

theorem Sound.kept_read :
  Kept cacheKvKey s os (.read i)
  := by
  simp only [Kept, step]
  split
  · next r call =>
      have hgated : ∀ next : Call, next.gate cacheKvKey = none →
          Gated cacheKvKey (s.setCall i next) := by
        intro next hnext
        apply hs.gated.setCall
        · rw [call, hnext]
          rfl
        · rw [call]
          cases next <;> first | rfl | cases hnext
      split
      · next hit hhit =>
          constructor
          · apply hgated
            rfl
          · apply (hs.agreed.setCall_without rfl rfl).returned
            intro value hvalue
            rw [← hvalue]
            apply hhit
      · apply Sound.quiet
        · apply hgated
          rfl
        · apply hs.agreed.setCall_without rfl rfl
  · apply hs.same

theorem Sound.kept_openGate :
  Kept cacheKvKey s os (.openGate i)
  := by
  simp only [Kept, step]
  split
  · next r call =>
      apply Sound.quiet
      · apply hs.gated.openGate
      · apply Agreed.setCall_without _ rfl rfl
        exact Agreed.congr hs.agreed rfl rfl rfl
  · apply hs.same

theorem Sound.kept_lock :
  Kept cacheKvKey s os (.lock i)
  := by
  simp only [Kept, step]
  split
  · next r g call =>
      split
      · next free =>
          apply Sound.quiet
          · apply hs.gated.lock call free
          · apply Agreed.setCall_without _ rfl rfl
            exact Agreed.congr hs.agreed rfl rfl rfl
      · apply hs.same
  · apply hs.same

theorem Sound.kept_check {i : ℕ} (careful : s.Careful cacheKvKey (.check i)) :
  Kept cacheKvKey s os (.check i)
  := by
  simp only [Kept, step]
  split
  · next r g call =>
      split
      · next hit hhit =>
          apply Sound.quiet
          · apply hs.gated.leave
            rfl
          · apply Agreed.setCall (s := s.leave i g)
            · exact Agreed.congr hs.agreed rfl rfl rfl
            · nofun
            · rintro key value ⟨⟩
              apply hhit
      · next hmiss =>
          apply Sound.quiet
          · apply hs.gated.setCall
            · rw [call]
              rfl
            · rw [call]
              rfl
          · apply hs.agreed.setCall
            · rintro key ⟨⟩
              refine ⟨hmiss, ?_⟩
              apply careful r _ hmiss
              rw [call]
              rfl
            · nofun
  · apply hs.same

theorem Sound.kept_fetch (answer : Option String) (now : Instant) :
  Kept cacheKvKey s os (.fetch i answer now)
  := by
  simp only [Kept, step]
  split
  · next r g call =>
      split
      · apply Sound.quiet
        · apply hs.gated.setCall
          · rw [call]
            rfl
          · rw [call]
            rfl
        · apply hs.agreed.setCall
          · rintro key ⟨⟩
            apply hs.agreed.missed i
            rw [call]
            rfl
          · nofun
      · apply Sound.quiet
        · apply hs.gated.leave
          rfl
        · apply Agreed.setCall_without (s := s.leave i g) _ rfl rfl
          exact Agreed.congr hs.agreed rfl rfl rfl
  · apply hs.same

theorem Sound.kept_write :
  Kept cacheKvKey s os (.write i)
  := by
  simp only [Kept, step]
  split
  · next r g value call =>
      have hinside : (s.calls i).inside cacheKvKey = some (cacheKvKey r, g) := by
        rw [call]
        rfl
      obtain ⟨hnone, hother⟩ := hs.agreed.missed i (cacheKvKey r) (by rw [call]; rfl)
      apply Sound.quiet
      · apply Gated.setCall
        · exact Gated.congr hs.gated rfl rfl rfl
        · rw [call]
          rfl
        · rw [call]
          rfl
      · -- the call no longer misses the summary that lands
        have hothers : ∀ j, ((s.setCall i .dropped).calls j).missed cacheKvKey
            ≠ some (cacheKvKey r) := by
          apply calls_setCall (P := fun _ call => call.missed cacheKvKey ≠ some (cacheKvKey r))
          · nofun
          · intro j hji
            apply hs.gated.not_missed hinside hji
        have hdropped : Agreed cacheKvKey (s.setCall i .dropped) os :=
          hs.agreed.setCall_without rfl rfl
        have hlanded : Agreed cacheKvKey
            { s.setCall i .dropped with entries := s.entries.set (cacheKvKey r) value } os :=
          hdropped.land hnone hothers (List.Sublist.refl _) hother
        have hpruning := setCall_setCall { s with entries := s.entries.set (cacheKvKey r) value }
          i .dropped (.pruning r g value)
        rw [← hpruning]
        apply Agreed.setCall hlanded
        · nofun
        · rintro key value' ⟨⟩
          apply Entries.get_set_self
  · apply hs.same

theorem Sound.kept_prune {i : ℕ} (few : s.entries.length < cacheMaxEntries) :
  Kept cacheKvKey s os (.prune i)
  := by
  simp only [Kept, step]
  split
  · next r g value call =>
      have hentries : s.afterWrite.entries = s.entries := by
        rw [afterWrite]
        split
        · rw [Entries.prune, if_pos few.le]
        · rfl
      apply Sound.quiet
      · apply Gated.leave
        · exact Gated.congr hs.gated rfl rfl rfl
        · rfl
      · apply Agreed.setCall (s := s.afterWrite.leave i g)
        · exact Agreed.congr hs.agreed hentries rfl rfl
        · nofun
        · rintro key value' ⟨⟩
          apply Eq.trans (congrArg (Entries.get · (cacheKvKey r)) hentries)
          apply hs.agreed.found i
          rw [call]
          rfl
  · apply hs.same

theorem Sound.kept_release :
  Kept cacheKvKey s os (.release i)
  := by
  simp only [Kept, step]
  split
  · next r result call =>
      have hsame : (s.releaseGate (cacheKvKey r)).entries = s.entries
          ∧ (s.releaseGate (cacheKvKey r)).calls = s.calls
          ∧ (s.releaseGate (cacheKvKey r)).abandoned = s.abandoned := by
        rw [Summarizer.releaseGate]
        split
        · split
          · exact ⟨rfl, rfl, rfl⟩
          · exact ⟨rfl, rfl, rfl⟩
        · exact ⟨rfl, rfl, rfl⟩
      constructor
      · apply (hs.gated.releaseGate _).setCall
        · rw [hsame.2.1, call]
          rfl
        · rw [hsame.2.1, call]
          rfl
      · apply Agreed.returned
        · apply Agreed.setCall_without _ rfl rfl
          exact Agreed.congr hs.agreed hsame.1 hsame.2.1 hsame.2.2
        · rintro value rfl
          apply Eq.trans (congrArg (Entries.get · (cacheKvKey r)) hsame.1)
          apply hs.agreed.found i
          rw [call]
          rfl
  · apply hs.same

theorem Sound.kept_drop :
  Kept cacheKvKey s os (.drop i)
  := by
  have hleave : ∀ g, Sound cacheKvKey ((s.leave i g).setCall i .dropped) (os ++ []) := by
    intro g
    apply Sound.quiet
    · apply hs.gated.leave
      rfl
    · apply Agreed.setCall_without (s := s.leave i g) _ rfl rfl
      exact Agreed.congr hs.agreed rfl rfl rfl
  have hdropped : (s.calls i).gate cacheKvKey = none →
      Sound cacheKvKey (s.setCall i .dropped) (os ++ []) := by
    intro hgate
    apply Sound.quiet
    · apply hs.gated.setCall
      · rw [hgate]
        rfl
      · generalize s.calls i = call at hgate
        cases call <;> first | rfl | cases hgate
    · apply hs.agreed.setCall_without rfl rfl
  simp only [Kept, step]
  split
  · apply hs.same
  · apply hs.same
  · apply hs.same
  · next call =>
      apply hdropped
      rw [call]
      rfl
  · next call =>
      apply hdropped
      rw [call]
      rfl
  · next call =>
      apply hdropped
      rw [call]
      rfl
  · apply hleave
  · apply hleave
  · apply hleave
  · apply hleave
  · next r g value call =>
      apply Sound.quiet
      · have hgated : Gated cacheKvKey ((s.leave i g).setCall i .dropped) := by
          apply hs.gated.leave
          rfl
        exact Gated.congr hgated rfl rfl rfl
      · exact Agreed.congr (hs.agreed.abandon hs.gated call) rfl rfl rfl

theorem Sound.kept_land (n : ℕ) :
  Kept cacheKvKey s os (.land n)
  := by
  simp only [Kept, step]
  split
  · next key value hwrite =>
      have hmem : (key, value) ∈ s.abandoned := List.mem_of_getElem? hwrite
      apply Sound.quiet
      · exact Gated.congr hs.gated rfl rfl rfl
      · apply hs.agreed.land
        · apply hs.agreed.pending _ hmem
        · intro i hi
          apply (hs.agreed.missed i key hi).2 _ hmem rfl
        · apply List.eraseIdx_sublist
        · intro w hw
          apply Keyed.key_ne_of_mem_eraseIdx hs.agreed.distinct hwrite hw
  · apply hs.same

/-- With few entries, a careful step keeps what holds of the summarizer. -/
theorem Sound.kept {a : Act} (few : s.entries.length < cacheMaxEntries)
    (careful : s.Careful cacheKvKey a) :
  Kept cacheKvKey s os a
  := by
  cases a with
  | condense i r => apply hs.kept_condense
  | read i => apply hs.kept_read
  | openGate i => apply hs.kept_openGate
  | lock i => apply hs.kept_lock
  | check i => apply hs.kept_check careful
  | fetch i answer now => apply hs.kept_fetch
  | write i => apply hs.kept_write
  | prune i => apply hs.kept_prune few
  | release i => apply hs.kept_release
  | drop i => apply hs.kept_drop
  | land n => apply hs.kept_land

end Steps

theorem sound_new (entries : Entries) :
  Sound cacheKvKey (new entries) []
  := by
  constructor
  · constructor
    · rintro _ _ _ ⟨⟩
    · rintro _ _ _ ⟨⟩
  · constructor
    · rintro _ _ ⟨⟩
    · rintro _ _ _ ⟨⟩
    · nofun
    · apply List.nodup_nil
    · nofun

/-- The steps of a run with few entries at all times, in which no call misses a summary whose
write by a caller that was dropped is still to land. -/
def Orderly (cacheKvKey : Request → String) (s : Summarizer) (a : Act) : Prop :=
  s.entries.length < cacheMaxEntries ∧ s.Careful cacheKvKey a

instance (s : Summarizer) : DecidablePred (s.Orderly cacheKvKey) := fun a =>
  inferInstanceAs (Decidable (s.entries.length < cacheMaxEntries ∧ s.Careful cacheKvKey a))

/-- What is returned for a request is the same each time. -/
def Stable (os : List Obs) : Prop :=
  ∀ r value value', .returned r (some value) ∈ os → .returned r (some value') ∈ os →
    value.summary = value'.summary

theorem stable_of_orderly {entries : Entries} {as : List Act}
    (h : (machine cacheKvKey).Along (Orderly cacheKvKey) (new entries) as) :
  Stable ((machine cacheKvKey).trace (new entries) as)
  := by
  have hs := (machine cacheKvKey).invariant (I := Sound cacheKvKey) (sound_new entries)
    (fun _ _ _ orderly hs => hs.kept orderly.1 orderly.2) h
  intro r value value' hvalue hvalue'
  have hget := hs.agreed.told r value hvalue
  rw [hs.agreed.told r value' hvalue'] at hget
  rw [Option.some.inj hget]

/-! ### Two runs

A caller is dropped while its summary is being written, and another asks for the same. -/

/-- A key that tells requests of different inputs apart. -/
def keyOfSent (r : Request) : String := "condense:" ++ r.sent

def readMain : Request where
  sent := "fn main() {}"
  kind := .fileRead "src/main.rs"
  model := "haiku"

/-- The call finds nothing and asks the model. -/
def ask (i : ℕ) (answer : String) : List Act :=
  [.openGate i, .lock i, .check i, .fetch i (some answer) 0]

def finish (i : ℕ) : List Act :=
  [.write i, .prune i, .release i]

/-- The first write lands after the second call looked for the summary. -/
def lateRun : List Act :=
  [.condense 0 readMain, .read 0] ++ ask 0 "An empty program." ++ [.drop 0]
    ++ [.condense 1 readMain, .read 1] ++ ask 1 "A main function." ++ finish 1
    ++ [.land 0, .condense 2 readMain, .read 2]

/-- The first write lands before the second call looks for the summary again. -/
def promptRun : List Act :=
  [.condense 0 readMain, .read 0] ++ ask 0 "An empty program." ++ [.drop 0]
    ++ [.condense 1 readMain, .read 1, .openGate 1, .lock 1, .land 0, .check 1, .release 1]
    ++ [.condense 2 readMain, .read 2]

theorem stable_promptRun :
  (machine keyOfSent).Along (Orderly keyOfSent) (new []) promptRun
    ∧ Stable ((machine keyOfSent).trace (new []) promptRun)
  := by
  have orderly : (machine keyOfSent).Along (Orderly keyOfSent) (new []) promptRun := by
    decide +kernel
  exact ⟨orderly, stable_of_orderly orderly⟩

/-- A later call is answered with another summary. -/
theorem late_write_changes :
  ¬Stable ((machine keyOfSent).trace (new []) lateRun)
  := by
  have htrace : (machine keyOfSent).trace (new []) lateRun
      = [.returned readMain (some ⟨"A main function.", "haiku", 0⟩),
        .returned readMain (some ⟨"An empty program.", "haiku", 0⟩)] := by
    decide +kernel
  rw [htrace]
  intro h
  have hsame : "A main function." = "An empty program." :=
    h readMain ⟨_, "haiku", 0⟩ ⟨_, "haiku", 0⟩ (by simp) (by simp)
  revert hsame
  decide

end Summarizer

end Lazybox.Condense
