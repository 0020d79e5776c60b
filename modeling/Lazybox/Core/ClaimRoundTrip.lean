import Lazybox.Core.ClaimLines

/-!
# What is read back of a note

The texts of a claim that others chose, its workspace, its agent and the model, are written as they
are, so that a line feed in one of them starts a line of its own.  What that line says is read as a
field.  The device and the session are read back unless such a line names another one, and that
the claim is not released is read back unless one of them says when it was.  The times are written
last, and are always read back.
-/

namespace Lazybox.WorkingClaim

open WorkingClaimNote

/-! ### A rendered note -/

/-- What is assumed of the stamps: one is read back, and none breaks its line. -/
structure Stamps.Lawful {T : Type} (S : Stamps T) : Prop where
  parse_rfc3339 : ∀ t, S.parseStamp (S.rfc3339 t) = some t
  rfc3339_plain : ∀ t, Plain (S.rfc3339 t)
  stamp_oneLine : ∀ t, '\n' ∉ S.stamp t

namespace WorkingClaimNote

variable {T : Type} (S : Stamps T) (n : WorkingClaimNote T)

/-- What the lines say which the texts that others chose start. -/
def laterReadings : List (Key × Text) :=
  (n.workspace.toList ++ n.agent.toList ++ n.model.toList).flatMap WorkingClaim.laterReadings

/-- The fields of texts that others chose. -/
def chosen : List (Key × Text) :=
  (n.workspace.map fun workspace => (.workspace, workspace)).toList
    ++ (n.agent.map fun agent => (.agent, agent)).toList
    ++ (n.model.map fun model => (.model, model)).toList

/-- The fields of times. -/
def times : List (Key × Text) :=
  [(.started, S.rfc3339 n.startedAt), (.heartbeat, S.rfc3339 n.heartbeatAt),
      (.expires, S.rfc3339 n.expiresAt)]
    ++ (n.releasedAt.map fun released => (.released, S.rfc3339 released)).toList

theorem fields_eq :
  n.fields S = (.device, n.device) :: (.session, n.session) :: (n.chosen ++ n.times S)
  := by
  simp [fields, chosen, times]

/-- A field that is no chosen one is said by the chosen ones on their later lines only. -/
theorem lastValue_chosen {key : Key} (h : key ≠ .workspace ∧ key ≠ .agent ∧ key ≠ .model) :
  lastValue key (n.chosen.flatMap fun field => readings (fieldText field))
    = lastValue key n.laterReadings
  := by
  have hone : ∀ (key' : Key) (t : Option Text), key ≠ key' →
      lastValue key ((t.map fun s => (key', s)).toList.flatMap
        fun field => readings (fieldText field))
        = lastValue key (t.toList.flatMap WorkingClaim.laterReadings) := by
    intro key' t hkey
    cases t with
    | none => rfl
    | some s =>
      simp only [Option.map_some, Option.toList_some, List.flatMap_singleton]
      apply lastValue_field (Ne.symm hkey)
  rw [chosen, laterReadings, List.flatMap_append, List.flatMap_append, List.flatMap_append,
    List.flatMap_append, lastValue_append, lastValue_append, lastValue_append, lastValue_append,
    hone .workspace _ h.1, hone .agent _ h.2.1, hone .model _ h.2.2]

variable {S} in
theorem readings_times (lawful : S.Lawful) :
  (n.times S).flatMap (fun field => readings (fieldText field)) = n.times S
  := by
  have hone : ∀ field ∈ n.times S, readings (fieldText field) = [field] := by
    intro field hfield
    have hvalue : ∃ t, field.2 = S.rfc3339 t := by
      simp only [times, List.mem_append, List.mem_cons, List.not_mem_nil, or_false,
        Option.mem_toList, Option.map_eq_some_iff] at hfield
      obtain (rfl | rfl | rfl) | ⟨t, -, rfl⟩ := hfield
      · use n.startedAt
      · use n.heartbeatAt
      · use n.expiresAt
      · use t
    obtain ⟨t, ht⟩ := hvalue
    apply readings_plain
    rw [ht]
    apply lawful.rfc3339_plain
  rw [List.flatMap_congr hone]
  simp

theorem readings_render :
  readings (n.render S)
    = readings (n.headline S) ++ (n.fields S).flatMap fun field => readings (fieldText field)
  := by
  have hmarker : readings workingClaimCommentMarker.toList = [] := by
    rw [workingClaimCommentMarker, String.toList_ofList]
    decide +kernel
  have hempty : readings [] = [] := by decide +kernel
  have hopen : readings "<details><summary>claim detail</summary>".toList = [] := by
    rw [String.toList_ofList]
    decide +kernel
  have hfence : readings "```".toList = [] := by decide +kernel
  have hclose : readings "</details>".toList = [] := by
    rw [String.toList_ofList]
    decide +kernel
  rw [render, readings_unlines]
  simp only [List.flatMap_append, List.flatMap_cons, List.flatMap_nil, hmarker, hempty, hopen,
    hfence, hclose, List.nil_append, List.append_nil, List.flatMap_map]

theorem parse_render :
  parse S (n.render S) = ((readings (n.render S)).foldl (Found.assign S) .nothing).note
  := by
  have hmarker : ∃ rest, workingClaimCommentMarker.toList = '<' :: rest := by
    rw [workingClaimCommentMarker, String.toList_ofList]
    exact ⟨_, rfl⟩
  have hrender : ∃ rest, n.render S = workingClaimCommentMarker.toList ++ rest := by
    rw [render, unlines, List.append_assoc, List.cons_append, List.flatMap_cons,
      List.append_assoc]
    exact ⟨_, rfl⟩
  have hprefix : workingClaimCommentMarker.toList <+: (n.render S).dropWhile isWhiteSpace := by
    obtain ⟨tail, htail⟩ := hmarker
    obtain ⟨rest, hrest⟩ := hrender
    rw [hrest, htail, List.cons_append, dropWhile_of_head (by rfl), ← List.cons_append]
    apply List.prefix_append
  rw [parse, if_pos hprefix, ← filterMap_lines, List.foldl_filterMap]
  congr 2
  funext f line
  rw [Found.readInto]
  cases readLine line with
  | none => rfl
  | some field => rfl

/-- What is found last of a field in a rendered note. -/
theorem lastValue_render {S : Stamps T} (lawful : S.Lawful) (key : Key)
    (h : key ≠ .workspace ∧ key ≠ .agent ∧ key ≠ .model) :
  lastValue key (readings (n.render S))
    = ((lastValue key (n.times S)).or (lastValue key n.laterReadings)).or
      (lastValue key (readings (n.headline S) ++ readings (fieldText (.device, n.device))
        ++ readings (fieldText (.session, n.session))))
  := by
  rw [n.readings_render, fields_eq, List.flatMap_cons, List.flatMap_cons, List.flatMap_append,
    n.readings_times lawful, ← List.append_assoc, ← List.append_assoc, ← List.append_assoc,
    lastValue_append, lastValue_append, n.lastValue_chosen h, Option.or_assoc]

/-- The times are read back as they are. -/
theorem lastValue_times {S : Stamps T} (lawful : S.Lawful) :
  (lastValue .started (n.times S)).bind S.parseStamp = some n.startedAt
    ∧ (lastValue .heartbeat (n.times S)).bind S.parseStamp = some n.heartbeatAt
    ∧ (lastValue .expires (n.times S)).bind S.parseStamp = some n.expiresAt
    ∧ (lastValue .released (n.times S)).bind S.parseStamp = n.releasedAt
  := by
  cases hreleased : n.releasedAt with
  | none =>
    simp [times, hreleased, lastValue, lawful.parse_rfc3339]
  | some t =>
    simp [times, hreleased, lastValue, lawful.parse_rfc3339]

/-! ### The claim survives -/

/-- The claim that a note states is the one that is read of it. -/
def Survives (S : Stamps T) (n : WorkingClaimNote T) : Prop :=
  ∃ note, parse S (n.render S) = some note ∧ note.device = n.device ∧ note.session = n.session
    ∧ note.startedAt = n.startedAt ∧ note.heartbeatAt = n.heartbeatAt
    ∧ note.expiresAt = n.expiresAt ∧ note.releasedAt = n.releasedAt

/-- The device and the session are plain, and no line that a chosen text starts is read as a field
that says otherwise. -/
structure Unforged (S : Stamps T) (n : WorkingClaimNote T) : Prop where
  device_plain : Plain n.device
  session_plain : Plain n.session
  device : ∀ value, lastValue .device n.laterReadings = some value → value = n.device
  session : ∀ value, lastValue .session n.laterReadings = some value → value = n.session
  released : n.releasedAt = none →
    (lastValue .released (readings (n.headline S) ++ n.laterReadings)).bind S.parseStamp = none

section Survival

variable {S : Stamps T} {n} (lawful : S.Lawful)
include lawful

/-- What the text of a note is read as, given what is found of its device and its session. -/
theorem parse_render_eq :
  parse S (n.render S)
    = (lastValue .device (readings (n.render S))).bind fun device =>
        (lastValue .session (readings (n.render S))).bind fun session =>
        some {
          device := device
          session := session
          workspace := lastValue .workspace (readings (n.render S))
          agent := lastValue .agent (readings (n.render S))
          model := lastValue .model (readings (n.render S))
          startedAt := n.startedAt
          heartbeatAt := n.heartbeatAt
          expiresAt := n.expiresAt
          releasedAt := (lastValue .released (readings (n.render S))).bind S.parseStamp }
  := by
  have hlast : ∀ (x y z : Option Text) (t : T), x.bind S.parseStamp = some t →
      ((x.or y).or z).bind S.parseStamp = some t := by
    intro x y z t h
    cases x with
    | none => cases h
    | some s => rwa [Option.some_or, Option.some_or]
  obtain ⟨hstarted, hheartbeat, hexpires, -⟩ := n.lastValue_times lawful
  rw [parse_render, note_foldl, n.lastValue_render lawful .started (by decide),
    hlast _ _ _ _ hstarted, n.lastValue_render lawful .heartbeat (by decide),
    hlast _ _ _ _ hheartbeat, n.lastValue_render lawful .expires (by decide),
    hlast _ _ _ _ hexpires]
  simp only [Option.bind_some]
  rfl

theorem survives_iff_found :
  n.Survives S
    ↔ lastValue .device (readings (n.render S)) = some n.device
      ∧ lastValue .session (readings (n.render S)) = some n.session
      ∧ (lastValue .released (readings (n.render S))).bind S.parseStamp = n.releasedAt
  := by
  rw [Survives, parse_render_eq lawful]
  constructor
  · rintro ⟨note, hnote, hdevice, hsession, -, -, -, hreleased⟩
    obtain ⟨device, hd, hnote⟩ := Option.bind_eq_some_iff.mp hnote
    obtain ⟨session, hs, hnote⟩ := Option.bind_eq_some_iff.mp hnote
    cases hnote
    rw [hd, hs]
    exact ⟨congrArg some hdevice, congrArg some hsession, hreleased⟩
  · rintro ⟨hdevice, hsession, hreleased⟩
    rw [hdevice, hsession, hreleased]
    exact ⟨_, rfl, rfl, rfl, rfl, rfl, rfl, rfl⟩

omit lawful in
theorem lastValue_times_of_untimed {key : Key} (h : key = .device ∨ key = .session) :
  lastValue key (n.times S) = none
  := by
  cases hreleased : n.releasedAt with
  | none => obtain rfl | rfl := h <;> simp [times, hreleased, lastValue]
  | some t => obtain rfl | rfl := h <;> simp [times, hreleased, lastValue]

omit lawful in
theorem lastValue_times_of_unreleased (h : n.releasedAt = none) :
  lastValue .released (n.times S) = none
  := by
  simp [times, h, lastValue]

/-- The device that is found is the one a later line names last, or the one of the note. -/
theorem lastValue_device (device : Plain n.device) (session : Plain n.session) :
  lastValue .device (readings (n.render S))
    = (lastValue .device n.laterReadings).or (some n.device)
  := by
  rw [n.lastValue_render lawful _ (by decide), lastValue_times_of_untimed (.inl rfl),
    Option.none_or, readings_plain device, readings_plain session, lastValue_append,
    lastValue_append, lastValue_singleton, lastValue_singleton]
  rfl

theorem lastValue_session (device : Plain n.device) (session : Plain n.session) :
  lastValue .session (readings (n.render S))
    = (lastValue .session n.laterReadings).or (some n.session)
  := by
  rw [n.lastValue_render lawful _ (by decide), lastValue_times_of_untimed (.inr rfl),
    Option.none_or, readings_plain device, readings_plain session, lastValue_append,
    lastValue_append, lastValue_singleton, lastValue_singleton]
  rfl

theorem lastValue_released (device : Plain n.device) (session : Plain n.session)
    (unreleased : n.releasedAt = none) :
  lastValue .released (readings (n.render S))
    = lastValue .released (readings (n.headline S) ++ n.laterReadings)
  := by
  rw [n.lastValue_render lawful _ (by decide), lastValue_times_of_unreleased unreleased,
    Option.none_or, readings_plain device, readings_plain session, lastValue_append,
    lastValue_append, lastValue_singleton, lastValue_singleton, lastValue_append]
  rfl

theorem released_of_some {t : T} (h : n.releasedAt = some t) :
  (lastValue .released (readings (n.render S))).bind S.parseStamp = some t
  := by
  obtain ⟨-, -, -, hreleased⟩ := n.lastValue_times lawful
  rw [n.lastValue_render lawful _ (by decide)]
  cases hfound : lastValue .released (n.times S) with
  | none =>
    rw [hfound, h] at hreleased
    cases hreleased
  | some value =>
    rw [hfound, h] at hreleased
    rwa [Option.some_or, Option.some_or]

omit lawful in
theorem or_some_eq_some_iff {x : Option Text} {v : Text} :
  x.or (some v) = some v ↔ ∀ value, x = some value → value = v
  := by
  cases x with
  | none => simp
  | some value => simp

theorem survives_iff_unforged :
  n.Survives S ↔ n.Unforged S
  := by
  rw [survives_iff_found lawful]
  constructor
  · rintro ⟨hdevice, hsession, hreleased⟩
    have device : Plain n.device := plain_of_mem_readings (exists_of_lastValue hdevice)
    have session : Plain n.session := plain_of_mem_readings (exists_of_lastValue hsession)
    rw [lastValue_device lawful device session, or_some_eq_some_iff] at hdevice
    rw [lastValue_session lawful device session, or_some_eq_some_iff] at hsession
    refine ⟨device, session, hdevice, hsession, ?_⟩
    intro unreleased
    rwa [lastValue_released lawful device session unreleased, unreleased] at hreleased
  · rintro ⟨device, session, hdevice, hsession, hreleased⟩
    rw [lastValue_device lawful device session, or_some_eq_some_iff,
      lastValue_session lawful device session, or_some_eq_some_iff]
    refine ⟨hdevice, hsession, ?_⟩
    cases hcase : n.releasedAt with
    | none =>
      rw [lastValue_released lawful device session hcase]
      apply hreleased hcase
    | some t => apply released_of_some lawful hcase

end Survival

/-! ### Plain texts -/

/-- The texts of a note are plain. -/
structure AllPlain (n : WorkingClaimNote T) : Prop where
  device : Plain n.device
  session : Plain n.session
  workspace : ∀ t ∈ n.workspace, Plain t
  agent : ∀ t ∈ n.agent, Plain t
  model : ∀ t ∈ n.model, Plain t

section Whole

variable {S : Stamps T} {n} (lawful : S.Lawful)

theorem who_oneLine (plain : n.AllPlain) :
  '\n' ∉ n.who
  := by
  rw [who]
  split
  · next agent model hagent hmodel =>
      have h := (plain.agent agent hagent).oneLine
      have h' := (plain.model model hmodel).oneLine
      simp [h, h']
  · next agent hagent _ =>
      have h := (plain.agent agent hagent).oneLine
      simp [h]
  · decide

include lawful in
theorem headline_oneLine (plain : n.AllPlain) :
  '\n' ∉ n.headline S
  := by
  have hwho := who_oneLine plain
  rw [headline]
  split
  · simp only [List.mem_append, not_or]
    and_intros
    all_goals first
      | rw [String.toList_ofList]; decide +kernel
      | exact hwho
      | apply lawful.stamp_oneLine
      | decide +kernel
  · simp only [String.toList_append, List.mem_append, not_or]
    and_intros
    all_goals first
      | rw [String.toList_ofList]; decide +kernel
      | exact hwho
      | apply lawful.stamp_oneLine

theorem exists_append_eq_cons {c : Char} {s : Text} (h : s.head? = some c) (t : Text) :
  ∃ rest, s ++ t = c :: rest
  := by
  obtain ⟨tail, rfl⟩ := List.head?_eq_some_iff.mp h
  exact ⟨tail ++ t, rfl⟩

theorem readLine_star (s : Text) :
  readLine ('*' :: s) = none
  := by
  have htrim : trim ('*' :: s) = '*' :: trimEnd s := by
    rw [trim_eq, dropWhile_of_head (by rfl)]
    apply trimEnd_append_of_last (by rfl) []
  have hprefix : ¬ fieldPrefix.toList <+: '*' :: trimEnd s := by
    have hhead : fieldPrefix.toList = 'L' :: fieldPrefix.toList.tail := by decide
    rw [hhead, List.cons_prefix_cons]
    rintro ⟨h, -⟩
    cases h
  rw [readLine, htrim, stripPrefix, if_neg hprefix]
  rfl

include lawful in
/-- On one line, the sentence says nothing of a field. -/
theorem readings_headline (plain : n.AllPlain) :
  readings (n.headline S) = []
  := by
  have hstar : ∃ rest, n.headline S = '*' :: rest := by
    rw [headline]
    simp only [List.append_assoc]
    split
    · apply exists_append_eq_cons
      rw [String.toList_ofList]
      rfl
    · apply exists_append_eq_cons
      rw [String.toList_ofList]
      rfl
  have hline := splitLines_of_notMem (headline_oneLine lawful plain)
  obtain ⟨rest, hrest⟩ := hstar
  rw [readings, hline, hrest, List.filterMap_cons_none (readLine_star rest)]
  rfl

include lawful in
theorem readings_render_of_plain (plain : n.AllPlain) :
  readings (n.render S) = n.fields S
  := by
  have hchosen : ∀ field ∈ n.chosen, readings (fieldText field) = [field] := by
    intro field hfield
    apply readings_plain
    simp only [chosen, List.mem_append, Option.mem_toList, Option.map_eq_some_iff] at hfield
    obtain (⟨t, ht, rfl⟩ | ⟨t, ht, rfl⟩) | ⟨t, ht, rfl⟩ := hfield
    · apply plain.workspace t ht
    · apply plain.agent t ht
    · apply plain.model t ht
  rw [readings_render, readings_headline lawful plain, fields_eq, List.flatMap_cons,
    List.flatMap_cons, List.flatMap_append, n.readings_times lawful, readings_plain plain.device,
    readings_plain plain.session, List.flatMap_congr hchosen]
  simp

include lawful in
/-- A note of plain texts is read back as it is. -/
theorem parse_render_of_plain (plain : n.AllPlain) :
  parse S (n.render S) = some n
  := by
  rw [parse_render, readings_render_of_plain lawful plain]
  -- each optional field is there or not, and sets its own component
  obtain ⟨_, _, workspace, agent, model, _, _, _, releasedAt⟩ := n
  cases workspace <;> cases agent <;> cases model <;> cases releasedAt <;>
    simp [fields, Found.assign, Found.note, Found.nothing, lawful.parse_rfc3339]

end Whole

/-- The claim a note states survives its text exactly when no later line of a chosen text forges a
field of it, and a note of plain texts is read back whole. -/
theorem render_survives {S : Stamps T} (lawful : S.Lawful) (n : WorkingClaimNote T) :
  (n.Survives S ↔ n.Unforged S) ∧ (n.AllPlain → parse S (n.render S) = some n)
  := by
  constructor
  · apply survives_iff_unforged lawful
  · apply parse_render_of_plain lawful

/-! ### A day of stamps -/

def twoDigits (k : ℕ) : Text :=
  [Char.ofNat ('0'.toNat + k / 10), Char.ofNat ('0'.toNat + k % 10)]

/-- The hours of the third of October 2026. -/
def hours : Stamps (Fin 24) where
  stamp := fun hour => "2026-10-03 ".toList ++ twoDigits hour ++ ":00 UTC".toList
  rfc3339 := fun hour => "2026-10-03T".toList ++ twoDigits hour ++ ":00:00Z".toList
  parseStamp := fun s => (List.finRange 24).find? fun hour =>
    s = "2026-10-03T".toList ++ twoDigits hour ++ ":00:00Z".toList

/-- The hour of a stamp is found again. -/
theorem find?_stamped (before after : Text) (hour : Fin 24) :
  (List.finRange 24).find? (fun other : Fin 24 =>
    before ++ twoDigits hour ++ after = before ++ twoDigits other ++ after) = some hour
  := by
  simp only [List.append_left_inj, List.append_right_inj]
  revert hour
  decide +kernel

theorem hours_lawful : hours.Lawful where
  parse_rfc3339 := find?_stamped "2026-10-03T".toList ":00:00Z".toList
  rfc3339_plain := by decide +kernel
  stamp_oneLine := by decide +kernel

/-- A claim on a workspace, by an agent. -/
def held : WorkingClaimNote (Fin 24) where
  device := "effacd542b611010656e".toList
  session := "4c46621014".toList
  workspace := some "github-acme-widget-1922".toList
  agent := some "claude".toList
  model := some "Opus 5".toList
  startedAt := 13
  heartbeatAt := 14
  expiresAt := 15
  releasedAt := none

/-- A claim whose model is reported on two lines, of which the second names another device. -/
def forged : WorkingClaimNote (Fin 24) :=
  { held with model := some "Opus 5\nLazybox-Claim-Device: 00000000000000000000".toList }

/-- The other device is read as the holder of the claim. -/
theorem forged_device :
  ¬ forged.Survives hours
  := by
  rw [survives_iff_unforged hours_lawful]
  intro unforged
  have hother : lastValue .device forged.laterReadings
      = some "00000000000000000000".toList := by
    decide +kernel
  have hne : "00000000000000000000".toList ≠ forged.device := by decide +kernel
  exact hne (unforged.device _ hother)

theorem held_survives :
  (held.Survives hours ↔ held.Unforged hours)
    ∧ (held.AllPlain → parse hours (held.render hours) = some held)
  := render_survives hours_lawful held

end WorkingClaimNote

end Lazybox.WorkingClaim
