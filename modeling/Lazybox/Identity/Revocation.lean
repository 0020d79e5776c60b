import Lazybox.Identity.Records

/-!
# What the registry keeps

As long as every rename puts in place what the call wrote itself, and that covers the registry as
it is then, no revocation and no device is lost.  The keystore follows the registry when a secret
that was stored is not left behind: the load of a mint and the deletions of secrets succeed, and
a secret that could not be stored is not there.
-/

namespace Lazybox.Identity

variable {sha256 : List UInt8 → List UInt8}

/-! ### Calls -/

namespace Call

/-- The device that is not recorded yet. -/
def mintId : Call → Option String
  | .storing c | .loading (.mint c) | .writing (.mint c) _ | .renaming (.mint c) _ => some c.id
  | _ => none

/-- What is to be written. -/
def written : Call → Option (Job × List DeviceRecord)
  | .writing job records | .renaming job records => some (job, records)
  | _ => none

/-- The records that are to be put in place. -/
def renamed : Call → Option (List DeviceRecord)
  | .renaming _ records => some records
  | _ => none

/-- The device that is recorded as revoked, and whose secret is to be deleted. -/
def purged : Call → Option String
  | .purging id => some id
  | _ => none

/-- The device whose secret the call answers for. -/
def secretId : Call → Option String
  | .loading (.mint c) | .writing (.mint c) _ | .renaming (.mint c) _ => some c.id
  | .purging id | .rollingBack id => some id
  | _ => none

/-- The call did not return. -/
def inFlight : Call → Bool
  | .unknown | .minted _ | .revoked _ _ | .failed => false
  | _ => true

theorem nothing_of_returned {call : Call} (h : call.inFlight = false) :
  call.mintId = none ∧ call.written = none ∧ call.purged = none ∧ call.secretId = none
  := by
  cases call <;> first | exact ⟨rfl, rfl, rfl, rfl⟩ | cases h

end Call

namespace Registry

@[simp] theorem calls_setCall_self (s : Registry) (i : ℕ) (call : Call) :
  (s.setCall i call).calls i = call
  := Function.update_self ..

theorem calls_setCall (s : Registry) {i j : ℕ} (call : Call) (h : j ≠ i) :
  (s.setCall i call).calls j = s.calls j
  := Function.update_of_ne h ..

@[simp] theorem keystore_setSecret_self (s : Registry) (id : String) (secret : Option String) :
  (s.setSecret id secret).keystore id = secret
  := Function.update_self ..

theorem keystore_setSecret (s : Registry) {id id' : String} (secret : Option String)
    (h : id' ≠ id) :
  (s.setSecret id secret).keystore id' = s.keystore id'
  := Function.update_of_ne h ..

/-! ### The condition -/

/-- A rename puts in place what its call wrote, and that covers the registry; no secret is left
behind. -/
def Careful (s : Registry) : Act → Prop
  | .storeSecret _ ok left => ok = false → left = none
  | .load i _ ok => (s.calls i).mintId ≠ none → ok = true
  | .rename i ok =>
      ok = true → ∀ records ∈ (s.calls i).renamed, ∀ content ∈ s.tmp,
        content = some records ∧ Covers records (s.file.getD [])
  | .purge _ ok | .rollBack _ ok => ok = true
  | _ => True

instance (s : Registry) : DecidablePred s.Careful := by
  intro a
  cases a <;> unfold Careful <;> infer_instance

/-- What an answer to a token says: a device that was revoked is kept out, and one that was
paired and not revoked is let in. -/
def Faithful (before : List Obs) : Obs → Prop
  | .authenticated token ok answer =>
      ∀ c : Credential, token = c.token →
        (.revoked c.id true ∈ before → ∀ principal, answer ≠ some (some principal))
          ∧ (.minted c ∈ before → .marked c.id ∉ before → ok = true →
              answer = some (some (devicePrincipalId c.id)))
  | _ => True

/-- A device that is to be recorded is not known to another call. -/
structure Free (s : Registry) (current : List DeviceRecord) (i : ℕ) (id : String) : Prop where
  drawn : id ∈ s.drawn
  fresh : id ∉ current.map (·.id)
  alone : ∀ j, j ≠ i → (s.calls j).mintId ≠ some id

/-- What holds of a registry, of what was observed and of the records in the file. -/
structure Sound (sha256 : List UInt8 → List UInt8) (s : Registry) (os : List Obs)
    (current : List DeviceRecord) : Prop where
  file : s.file = some current
  nodup : (current.map (·.id)).Nodup
  known : ∀ r ∈ current, r.id ∈ s.drawn
  marked : ∀ id, .marked id ∈ os ↔ ∃ r ∈ current, r.id = id ∧ r.isRevoked
  revoked : ∀ id, .revoked id true ∈ os → .marked id ∈ os
  minted : ∀ c, .minted c ∈ os → ∃ r ∈ current, r.device = c.record sha256
  pending : ∀ i id, (s.calls i).mintId = some id → s.Free current i id
  writes : ∀ i job records, (s.calls i).written = some (job, records) →
    Write sha256 current job records
  purging : ∀ i id, (s.calls i).purged = some id → .marked id ∈ os
  secrets : ∀ id secret, s.keystore id = some secret →
    (∃ r ∈ current, r.id = id ∧ r.isRevoked = false) ∨ ∃ i, (s.calls i).secretId = some id
  faithful : AtEach Faithful os

/-! ### A job that is saved -/

theorem marked_mem_saved {job : Job} {id : String} :
  .marked id ∈ (saved job).2 ↔ job = .revoke id
  := by
  cases job with
  | mint c => simp [saved]
  | revoke id' => simp [saved, eq_comm]

theorem minted_mem_saved {job : Job} {c : Credential} :
  .minted c ∈ (saved job).2 ↔ job = .mint c
  := by
  cases job with
  | mint c' => simp [saved, eq_comm]
  | revoke id' => simp [saved]

theorem revoked_not_mem_saved (job : Job) (id : String) :
  .revoked id true ∉ (saved job).2
  := by
  cases job with
  | mint c => simp [saved]
  | revoke id' => simp [saved]

theorem mintId_saved (job : Job) :
  (saved job).1.mintId = none
  := by
  cases job with
  | mint c => rfl
  | revoke id => rfl

theorem written_saved (job : Job) :
  (saved job).1.written = none
  := by
  cases job with
  | mint c => rfl
  | revoke id => rfl

theorem purged_saved {job : Job} {id : String} :
  (saved job).1.purged = some id ↔ job = .revoke id
  := by
  cases job with
  | mint c => simp [saved, Call.purged]
  | revoke id' => simp [saved, Call.purged]

/-! ### What the parts of a step keep -/

section Parts

variable {s : Registry} {os : List Obs} {current : List DeviceRecord}
  (hs : Sound sha256 s os current)
include hs

/-- A call goes on without an effect on the registry. -/
theorem Sound.setCall {i : ℕ} {call : Call}
    (pending : ∀ id, call.mintId = some id → s.Free current i id)
    (writes : ∀ job records, call.written = some (job, records) →
      Write sha256 current job records)
    (purging : ∀ id, call.purged = some id → .marked id ∈ os)
    (secrets : ∀ id, (s.calls i).secretId = some id →
      s.keystore id = none ∨ call.secretId = some id) :
  Sound sha256 (s.setCall i call) os current
  := by
  constructor
  · apply hs.file
  · apply hs.nodup
  · apply hs.known
  · apply hs.marked
  · apply hs.revoked
  · apply hs.minted
  · intro j id hj
    have hfree : s.Free current j id := by
      by_cases hji : j = i
      · subst hji
        rw [calls_setCall_self] at hj
        apply pending id hj
      · rw [calls_setCall s call hji] at hj
        apply hs.pending j id hj
    refine ⟨hfree.drawn, hfree.fresh, ?_⟩
    intro k hkj
    by_cases hki : k = i
    · subst hki
      rw [calls_setCall_self]
      intro hk
      rw [calls_setCall s call hkj.symm] at hj
      apply (pending id hk).alone j hkj.symm hj
    · rw [calls_setCall s call hki]
      apply hfree.alone k hkj
  · intro j job records hj
    by_cases hji : j = i
    · subst hji
      rw [calls_setCall_self] at hj
      apply writes job records hj
    · rw [calls_setCall s call hji] at hj
      apply hs.writes j job records hj
  · intro j id hj
    by_cases hji : j = i
    · subst hji
      rw [calls_setCall_self] at hj
      apply purging id hj
    · rw [calls_setCall s call hji] at hj
      apply hs.purging j id hj
  · intro id secret hid
    obtain live | ⟨j, hj⟩ := hs.secrets id secret hid
    · left
      apply live
    · by_cases hji : j = i
      · subst hji
        obtain hnone | hcall := secrets id hj
        · cases hnone.symm.trans hid
        · right
          use j
          rw [calls_setCall_self, hcall]
      · right
        use j
        rw [calls_setCall s call hji, hj]
  · apply hs.faithful

/-- A call returns that answers for no secret. -/
theorem Sound.returns {i : ℕ} {call : Call} (returned : call.inFlight = false)
    (secrets : ∀ id, (s.calls i).secretId = some id → s.keystore id = none) :
  Sound sha256 (s.setCall i call) os current
  := by
  obtain ⟨hmint, hwritten, hpurged, -⟩ := Call.nothing_of_returned returned
  apply hs.setCall
  · intro id hid
    cases hmint.symm.trans hid
  · intro job records hjob
    cases hwritten.symm.trans hjob
  · intro id hid
    cases hpurged.symm.trans hid
  · intro id hid
    left
    apply secrets id hid

/-- A secret is stored for which a call answers, or is deleted. -/
theorem Sound.setSecret {id : String} {secret : Option String}
    (answered : ∀ value, secret = some value → ∃ i, (s.calls i).secretId = some id) :
  Sound sha256 (s.setSecret id secret) os current
  := by
  constructor
  · apply hs.file
  · apply hs.nodup
  · apply hs.known
  · apply hs.marked
  · apply hs.revoked
  · apply hs.minted
  · intro i id' hi
    obtain ⟨drawn, fresh, alone⟩ := hs.pending i id' hi
    exact ⟨drawn, fresh, alone⟩
  · apply hs.writes
  · apply hs.purging
  · intro id' value hid'
    by_cases h : id' = id
    · subst h
      rw [keystore_setSecret_self] at hid'
      right
      apply answered value hid'
    · rw [keystore_setSecret s secret h] at hid'
      apply hs.secrets id' value hid'
  · apply hs.faithful

/-- Something is observed that the records bear out. -/
theorem Sound.observe {o : Obs} (marked : ∀ id, o ≠ .marked id) (minted : ∀ c, o ≠ .minted c)
    (revoked : ∀ id, o = .revoked id true → .marked id ∈ os) (faithful : Faithful os o) :
  Sound sha256 s (os ++ [o]) current
  := by
  have hold : ∀ o' : Obs, o ≠ o' → (o' ∈ os ++ [o] ↔ o' ∈ os) := by
    intro o' ho
    rw [List.mem_append, List.mem_singleton, or_iff_left ho.symm]
  constructor
  · apply hs.file
  · apply hs.nodup
  · apply hs.known
  · intro id
    rw [hold _ (marked id)]
    apply hs.marked
  · intro id hid
    rw [hold _ (marked id)]
    rw [List.mem_append, List.mem_singleton] at hid
    obtain hid | hid := hid
    · apply hs.revoked id hid
    · apply revoked id hid.symm
  · intro c hc
    rw [hold _ (minted c)] at hc
    apply hs.minted c hc
  · apply hs.pending
  · apply hs.writes
  · intro i id hi
    rw [hold _ (marked id)]
    apply hs.purging i id hi
  · apply hs.secrets
  · rw [atEach_concat]
    exact ⟨hs.faithful, faithful⟩

/-- The temporary file does not matter. -/
theorem Sound.setTmp (tmp : Option Content) :
  Sound sha256 { s with tmp := tmp } os current
  := by
  obtain ⟨file, nodup, known, marked, revoked, minted, pending, writes, purging, secrets,
    faithful⟩ := hs
  constructor <;> try assumption
  intro i id hi
  obtain ⟨drawn, fresh, alone⟩ := pending i id hi
  exact ⟨drawn, fresh, alone⟩

/-- An id is drawn. -/
theorem Sound.draw (id : String) :
  Sound sha256 { s with drawn := id :: s.drawn } os current
  := by
  obtain ⟨file, nodup, known, marked, revoked, minted, pending, writes, purging, secrets,
    faithful⟩ := hs
  constructor <;> try assumption
  · intro r hr
    apply List.mem_cons_of_mem _ (known r hr)
  · intro i id hi
    obtain ⟨drawn, fresh, alone⟩ := pending i id hi
    exact ⟨List.mem_cons_of_mem _ drawn, fresh, alone⟩

section Rename

variable {i : ℕ} {job : Job} {records : List DeviceRecord}
  (call : s.calls i = .renaming job records)
include call

theorem Sound.write_renaming :
  Write sha256 current job records
  := by
  apply hs.writes i
  rw [call]
  rfl

/-- The id of a record is that of the job's device or of a record there was. -/
theorem Sound.ids_renaming :
  ∀ r ∈ records, (s.calls i).mintId = some r.id ∨ r.id ∈ current.map (·.id)
  := by
  intro r hr
  obtain ⟨c, rfl, rfl⟩ | ⟨r₀, hr₀, hdevice, -⟩ := (hs.write_renaming call).stems r hr
  · left
    rw [call]
    rfl
  · right
    rw [← DeviceRecord.id_eq hdevice]
    apply List.mem_map_of_mem hr₀

/-- A device is still not known to another call once the job is saved. -/
theorem Sound.free_renaming {j : ℕ} (hji : j ≠ i) {id : String}
    (hj : (s.calls j).mintId = some id) :
  (s.setCall i (saved job).1).Free records j id
  := by
  obtain ⟨drawn, fresh, alone⟩ := hs.pending j id hj
  refine ⟨drawn, ?_, ?_⟩
  · intro hmem
    obtain ⟨r, hr, rfl⟩ := List.mem_map.mp hmem
    obtain hmint | hmem := hs.ids_renaming call r hr
    · apply alone i (Ne.symm hji) hmint
    · apply fresh hmem
  · intro k hkj
    by_cases hki : k = i
    · subst hki
      rw [calls_setCall_self, mintId_saved]
      exact (Option.some_ne_none id).symm
    · rw [calls_setCall s _ hki]
      apply alone k hkj

variable (covers : Covers records current)
include covers

theorem Sound.marked_renaming (id : String) :
  .marked id ∈ os ++ (saved job).2 ↔ ∃ r ∈ records, r.id = id ∧ r.isRevoked
  := by
  have write := hs.write_renaming call
  rw [List.mem_append, marked_mem_saved, hs.marked]
  constructor
  · rintro (⟨r, hr, hid, hrevoked⟩ | rfl)
    · obtain ⟨r', hr', hdevice, hkept⟩ := covers r hr
      use r', hr', (DeviceRecord.id_eq hdevice).trans hid, hkept hrevoked
    · apply write.effect
  · rintro ⟨r, hr, rfl, hrevoked⟩
    obtain ⟨c, -, rfl⟩ | ⟨r₀, hr₀, hdevice, hstems⟩ := write.stems r hr
    · cases hrevoked
    · apply (hstems hrevoked).imp_left
      intro hrevoked₀
      use r₀, hr₀, DeviceRecord.id_eq hdevice

/-- A record which is revoked by the job leaves its secret to the job. -/
theorem Sound.secret_renaming {r : DeviceRecord} (hr : r ∈ current) (hlive : r.isRevoked = false) :
  (∃ r' ∈ records, r'.id = r.id ∧ r'.isRevoked = false)
    ∨ (saved job).1.secretId = some r.id
  := by
  obtain ⟨r', hr', hdevice, -⟩ := covers r hr
  have hid' := DeviceRecord.id_eq hdevice
  cases hrevoked : r'.isRevoked with
  | false =>
    left
    use r', hr', hid'
  | true =>
    right
    obtain ⟨c, -, rfl⟩ | ⟨r₀, hr₀, hdevice₀, hstems⟩ := (hs.write_renaming call).stems r' hr'
    · cases hrevoked
    · have hr₀r : r₀ = r := by
        apply eq_of_id hs.nodup hr₀ hr
        rw [DeviceRecord.id_eq hdevice₀, hid']
      obtain hrevoked₀ | rfl := hstems hrevoked
      · rw [hr₀r, hlive] at hrevoked₀
        cases hrevoked₀
      · rw [hid']
        rfl

/-- What covers the registry is put in place. -/
theorem Sound.rename :
  Sound sha256 { s.setCall i (saved job).1 with file := some records, tmp := none }
    (os ++ (saved job).2) records
  := by
  have write := hs.write_renaming call
  have hother : ∀ j, j ≠ i → (s.setCall i (saved job).1).calls j = s.calls j :=
    fun j hji => calls_setCall s _ hji
  have hself : (s.setCall i (saved job).1).calls i = (saved job).1 := calls_setCall_self s i _
  constructor
  · rfl
  · apply write.nodup
  · intro r hr
    obtain hmint | hmem := hs.ids_renaming call r hr
    · apply (hs.pending i r.id hmint).drawn
    · obtain ⟨r₀, hr₀, hid⟩ := List.mem_map.mp hmem
      rw [← hid]
      apply hs.known r₀ hr₀
  · apply hs.marked_renaming call covers
  · intro id hid
    rw [List.mem_append] at hid ⊢
    left
    apply hs.revoked id (hid.resolve_right (revoked_not_mem_saved job id))
  · intro c hc
    rw [List.mem_append, minted_mem_saved] at hc
    obtain hc | rfl := hc
    · obtain ⟨r, hr, hdevice⟩ := hs.minted c hc
      obtain ⟨r', hr', hdevice', -⟩ := covers r hr
      use r', hr', hdevice'.trans hdevice
    · use c.record sha256, write.effect
      rfl
  · intro j id hj
    change ((s.setCall i (saved job).1).calls j).mintId = some id at hj
    by_cases hji : j = i
    · subst hji
      rw [hself, mintId_saved] at hj
      cases hj
    · rw [hother j hji] at hj
      obtain ⟨drawn, fresh, alone⟩ := hs.free_renaming call hji hj
      exact ⟨drawn, fresh, alone⟩
  · intro j job' records' hj
    change ((s.setCall i (saved job).1).calls j).written = _ at hj
    by_cases hji : j = i
    · subst hji
      rw [hself, written_saved] at hj
      cases hj
    · rw [hother j hji] at hj
      apply (hs.writes j job' records' hj).mono covers
  · intro j id hj
    change ((s.setCall i (saved job).1).calls j).purged = some id at hj
    rw [List.mem_append, marked_mem_saved]
    by_cases hji : j = i
    · subst hji
      rw [hself, purged_saved] at hj
      right
      apply hj
    · rw [hother j hji] at hj
      left
      apply hs.purging j id hj
  · intro id secret hid
    obtain ⟨r, hr, rfl, hlive⟩ | ⟨j, hj⟩ := hs.secrets id secret hid
    · apply (hs.secret_renaming call covers hr hlive).imp_right
      intro hsecret
      use i
      change ((s.setCall i (saved job).1).calls i).secretId = some r.id
      rw [hself, hsecret]
    · by_cases hji : j = i
      · subst hji
        rw [call] at hj
        cases job with
        | mint c =>
          left
          use c.record sha256, write.effect
          exact ⟨Option.some.inj hj, rfl⟩
        | revoke id' => cases hj
      · right
        use j
        change ((s.setCall i (saved job).1).calls j).secretId = some id
        rw [hother j hji, hj]
  · apply atEach_append hs.faithful
    intro o ho before
    cases job with
    | mint c =>
      obtain rfl := List.mem_singleton.mp ho
      trivial
    | revoke id =>
      obtain rfl := List.mem_singleton.mp ho
      trivial

end Rename

/-- An answer to a token is borne out by the records. -/
theorem Sound.faithful_authenticate (token : String) (ok : Bool) :
  Faithful os (.authenticated token ok
    (Identity.authenticate sha256 (if ok then s.file else none) token))
  := by
  rintro c rfl
  rw [hs.file]
  constructor
  · intro hrevoked principal
    obtain ⟨r, hr, hid, hr'⟩ := (hs.marked c.id).mp (hs.revoked c.id hrevoked)
    cases ok with
    | false =>
      rw [if_neg Bool.false_ne_true, Identity.authenticate, splitOnce_token]
      intro h
      cases h
    | true =>
      rw [if_pos rfl, authenticate_token, ← hid, findLive_revoked hs.nodup hr hr']
      simp
  · rintro hminted hmarked rfl
    obtain ⟨r, hr, hdevice⟩ := hs.minted c hminted
    have hid := congrArg DeviceRecord.id hdevice
    have hsalt := congrArg DeviceRecord.salt hdevice
    have hhash := congrArg DeviceRecord.tokenHash hdevice
    have hprincipal := congrArg DeviceRecord.principalId hdevice
    change r.id = c.id at hid
    change r.salt = hexEncode c.saltBytes at hsalt
    change r.tokenHash = hashSecret sha256 (hexEncode c.saltBytes) c.secret at hhash
    change r.principalId = devicePrincipalId c.id at hprincipal
    have hlive : r.isRevoked = false := by
      rw [Bool.eq_false_iff]
      intro hrevoked
      apply hmarked
      rw [hs.marked]
      use r, hr, hid
    rw [if_pos rfl, authenticate_token, ← hid, findLive_live hs.nodup hr hlive,
      Option.bind_some, hsalt, hhash, if_pos rfl, hprincipal, hid]

end Parts

/-! ### The runs -/

theorem sound_new :
  Sound sha256 new [] []
  := by
  constructor <;> simp [new, Call.mintId, Call.written, Call.purged, atEach_nil]

/-- What a step leaves, and what was observed by then, holds of some records. -/
def Kept (sha256 : List UInt8 → List UInt8) (s : Registry) (os : List Obs) (a : Act) : Prop :=
  ∃ current, Sound sha256 (step sha256 s a).1 (os ++ (step sha256 s a).2) current

section Steps

variable {s : Registry} {os : List Obs} {current : List DeviceRecord}
  (hs : Sound sha256 s os current)
include hs

theorem Sound.quiet :
  Sound sha256 s (os ++ []) current
  := by
  rw [List.append_nil]
  apply hs

theorem Sound.kept_mint (i : ℕ) (c : Credential) :
  Kept sha256 s os (.mint i c)
  := by
  use current
  simp only [step]
  split
  · next hcall =>
      apply Sound.quiet
      have hfresh : c.id ∉ current.map (·.id) := by
        intro hmem
        obtain ⟨r, hr, hid⟩ := List.mem_map.mp hmem
        apply hcall.2
        rw [← hid]
        apply hs.known r hr
      apply (hs.draw c.id).setCall
      · rintro id ⟨⟩
        refine ⟨List.mem_cons_self, hfresh, ?_⟩
        intro j _ hj
        apply hcall.2 (hs.pending j c.id hj).drawn
      · nofun
      · nofun
      · intro id hsecret
        change (s.calls i).secretId = some id at hsecret
        rw [hcall.1] at hsecret
        cases hsecret
  · apply hs.quiet

theorem Sound.kept_revoke (i : ℕ) (id : String) :
  Kept sha256 s os (.revoke i id)
  := by
  use current
  simp only [step]
  split
  · next hcall =>
      apply Sound.quiet
      apply hs.setCall
      · nofun
      · nofun
      · nofun
      · intro id' hsecret
        rw [hcall] at hsecret
        cases hsecret
  · apply hs.quiet

variable {ok : Bool} {i : ℕ}

theorem Sound.kept_storeSecret {left : Option String}
    (careful : s.Careful (.storeSecret i ok left)) :
  Kept sha256 s os (.storeSecret i ok left)
  := by
  use current
  simp only [step]
  split
  · next c hcall =>
      split
      · apply Sound.quiet
        apply Sound.setSecret (s := s.setCall i (.loading (.mint c)))
        · apply hs.setCall
          · rintro id ⟨⟩
            apply hs.pending i
            rw [hcall]
            rfl
          · nofun
          · nofun
          · intro id hsecret
            rw [hcall] at hsecret
            cases hsecret
        · intro value _
          use i
          rw [calls_setCall_self]
          rfl
      · next hok =>
          apply Sound.quiet
          apply Sound.setSecret (s := s.setCall i .failed)
          · apply hs.returns rfl
            intro id hsecret
            rw [hcall] at hsecret
            cases hsecret
          · intro value hvalue
            rw [careful (Bool.eq_false_iff.mpr hok)] at hvalue
            cases hvalue
  · apply hs.quiet

theorem Sound.kept_load {now : Instant} (careful : s.Careful (.load i now ok)) :
  Kept sha256 s os (.load i now ok)
  := by
  use current
  simp only [step]
  split
  · next c records hcall hread =>
      have hpending : s.Free current i c.id := by
        apply hs.pending i
        rw [hcall]
        rfl
      have hrecords : records = current := by
        rw [hs.file] at hread
        split at hread
        · apply (Option.some.inj hread).symm
        · cases hread
      subst hrecords
      apply Sound.quiet
      apply hs.setCall
      · rintro id ⟨⟩
        apply hpending
      · rintro job written ⟨⟩
        apply Write.mint hs.nodup hpending.fresh
      · nofun
      · intro id hsecret
        right
        rw [hcall] at hsecret
        apply hsecret
  · next id records hcall hread =>
      have hrecords : records = current := by
        rw [hs.file] at hread
        split at hread
        · apply (Option.some.inj hread).symm
        · cases hread
      subst hrecords
      have hnone : ∀ id, (s.calls i).secretId ≠ some id := by
        intro id hsecret
        rw [hcall] at hsecret
        cases hsecret
      split
      · next r hlive =>
          apply Sound.quiet
          apply hs.setCall
          · nofun
          · rintro job written ⟨⟩
            apply Write.revoke hs.nodup hlive
          · nofun
          · intro id hsecret
            cases hnone id hsecret
      · apply Sound.observe
        · apply hs.returns rfl
          intro id hsecret
          cases hnone id hsecret
        · nofun
        · nofun
        · nofun
        · trivial
  · next job hcall hread =>
      apply Sound.quiet
      apply hs.returns rfl
      intro id hsecret
      rw [hcall] at hsecret
      cases job with
      | mint c =>
        have hok : ok = true := by
          apply careful
          rw [hcall]
          apply Option.some_ne_none
        rw [hok, if_pos rfl, hs.file] at hread
        cases hread
      | revoke id' => cases hsecret
  · apply hs.quiet

/-- A job that could not be written. -/
theorem Sound.unsaved {job : Job} (call : (s.calls i).secretId = (unsaved job).secretId) :
  Sound sha256 (s.setCall i (Registry.unsaved job)) os current
  := by
  cases job with
  | mint c =>
    apply hs.setCall
    · nofun
    · nofun
    · nofun
    · intro id hsecret
      right
      rw [← call, hsecret]
  | revoke id =>
    apply hs.returns rfl
    intro id' hsecret
    rw [call] at hsecret
    cases hsecret

theorem Sound.kept_writeTmp (i : ℕ) (ok : Bool) (left : Option Content) :
  Kept sha256 s os (.writeTmp i ok left)
  := by
  use current
  simp only [step]
  split
  · next job records hcall =>
      split
      · apply Sound.quiet
        apply Sound.setTmp (s := s.setCall i (.renaming job records))
        apply hs.setCall
        · intro id hid
          apply hs.pending i
          rw [hcall, ← hid]
          cases job with
          | mint c => rfl
          | revoke id' => rfl
        · rintro job' written ⟨⟩
          apply hs.writes i
          rw [hcall]
          rfl
        · nofun
        · intro id hsecret
          right
          rw [hcall] at hsecret
          rw [← hsecret]
          cases job with
          | mint c => rfl
          | revoke id' => rfl
      · apply Sound.quiet
        apply Sound.setTmp (s := s.setCall i (Registry.unsaved job))
        apply hs.unsaved
        rw [hcall]
        cases job with
        | mint c => rfl
        | revoke id => rfl
  · apply hs.quiet

theorem Sound.kept_rename (careful : s.Careful (.rename i ok)) :
  Kept sha256 s os (.rename i ok)
  := by
  simp only [Kept, step]
  split
  · next job records content hcall htmp =>
      have hput : content = some records ∧ Covers records (s.file.getD []) := by
        split at htmp
        · next hok =>
            apply careful hok
            · rw [hcall]
              rfl
            · apply htmp
        · cases htmp
      obtain ⟨rfl, covers⟩ := hput
      rw [hs.file, Option.getD_some] at covers
      use records
      apply hs.rename hcall covers
  · next job records hcall htmp =>
      use current
      apply Sound.quiet
      apply hs.unsaved
      rw [hcall]
      cases job with
      | mint c => rfl
      | revoke id => rfl
  · use current
    apply hs.quiet

theorem Sound.kept_purge (careful : s.Careful (.purge i ok)) :
  Kept sha256 s os (.purge i ok)
  := by
  use current
  simp only [step]
  split
  · next id hcall =>
      have hmarked : .marked id ∈ os := by
        apply hs.purging i
        rw [hcall]
        rfl
      have hpurged : Sound sha256 (s.setSecret id none) os current := by
        apply hs.setSecret
        nofun
      have hok : ok = true := careful
      rw [if_pos hok]
      apply Sound.observe
      · apply hpurged.returns rfl
        intro id' hsecret
        change (s.calls i).secretId = some id' at hsecret
        rw [hcall] at hsecret
        obtain rfl := Option.some.inj hsecret
        apply keystore_setSecret_self
      · nofun
      · nofun
      · rintro id' ⟨⟩
        apply hmarked
      · trivial
  · apply hs.quiet

theorem Sound.kept_rollBack (careful : s.Careful (.rollBack i ok)) :
  Kept sha256 s os (.rollBack i ok)
  := by
  use current
  simp only [step]
  split
  · next id hcall =>
      have hdeleted : Sound sha256 (s.setSecret id none) os current := by
        apply hs.setSecret
        nofun
      have hok : ok = true := careful
      rw [if_pos hok]
      apply Sound.quiet
      apply hdeleted.returns rfl
      intro id' hsecret
      change (s.calls i).secretId = some id' at hsecret
      rw [hcall] at hsecret
      obtain rfl := Option.some.inj hsecret
      apply keystore_setSecret_self
  · apply hs.quiet

theorem Sound.kept_authenticate (token : String) (ok : Bool) :
  Kept sha256 s os (.authenticate token ok)
  := by
  use current
  apply hs.observe
  · nofun
  · nofun
  · nofun
  · apply hs.faithful_authenticate

/-- A careful step keeps what holds of the registry. -/
theorem Sound.kept {a : Act} (careful : s.Careful a) :
  Kept sha256 s os a
  := by
  cases a with
  | mint i c => apply hs.kept_mint
  | revoke i id => apply hs.kept_revoke
  | storeSecret i ok left => apply hs.kept_storeSecret careful
  | load i now ok => apply hs.kept_load careful
  | writeTmp i ok left => apply hs.kept_writeTmp
  | rename i ok => apply hs.kept_rename careful
  | purge i ok => apply hs.kept_purge careful
  | rollBack i ok => apply hs.kept_rollBack careful
  | authenticate token ok => apply hs.kept_authenticate

end Steps

theorem sound_of_careful {as : List Act} (h : (machine sha256).Along Careful new as) :
  ∃ current, Sound sha256 ((machine sha256).final new as) ((machine sha256).trace new as) current
  := by
  apply (machine sha256).invariant (I := fun s os => ∃ current, Sound sha256 s os current)
    ⟨[], sound_new⟩ _ h
  rintro s os a careful ⟨current, hs⟩
  apply hs.kept careful

/-- What a registry is for, along a run: answers to tokens are faithful, and when every call
returned there is a secret only for a recorded device that is not revoked. -/
structure Keeps (sha256 : List UInt8 → List UInt8) (as : List Act) : Prop where
  faithful : AtEach Faithful ((machine sha256).trace new as)
  secrets : (∀ i, (((machine sha256).final new as).calls i).inFlight = false) →
    ∀ id secret, ((machine sha256).final new as).keystore id = some secret →
      ∃ records, ((machine sha256).final new as).file = some records
        ∧ ∃ r ∈ records, r.id = id ∧ r.isRevoked = false

theorem keeps_of_careful {as : List Act} (h : (machine sha256).Along Careful new as) :
  Keeps sha256 as
  := by
  obtain ⟨current, hs⟩ := sound_of_careful h
  constructor
  · apply hs.faithful
  · intro returned id secret hid
    use current, hs.file
    obtain live | ⟨i, hi⟩ := hs.secrets id secret hid
    · apply live
    · rw [(Call.nothing_of_returned (returned i)).2.2.2] at hi
      cases hi

/-! ### Two runs

A device is paired, and while a second one is being paired the first is revoked. -/

def phone : Credential where
  name := "iPhone"
  idBytes := [10]
  secretBytes := [1]
  saltBytes := [2]
  now := 0

def laptop : Credential where
  name := "Laptop"
  idBytes := [11]
  secretBytes := [3]
  saltBytes := [4]
  now := 1

/-- The call pairs the first device. -/
def pairPhone : List Act :=
  [.mint 0 phone, .storeSecret 0 true none, .load 0 0 true, .writeTmp 0 true none,
    .rename 0 true]

/-- The call revokes the first device. -/
def revokePhone : List Act :=
  [.revoke 1 phone.id, .load 1 2 true, .writeTmp 1 true none, .rename 1 true, .purge 1 true]

/-- The registry is read for the second device before the first is revoked. -/
def staleRun : List Act :=
  pairPhone ++ [.mint 2 laptop, .storeSecret 2 true none, .load 2 1 true] ++ revokePhone
    ++ [.writeTmp 2 true none, .rename 2 true, .authenticate phone.token true]

/-- The registry is read for the second device once the first is revoked. -/
def freshRun : List Act :=
  pairPhone ++ [.mint 2 laptop, .storeSecret 2 true none] ++ revokePhone
    ++ [.load 2 1 true, .writeTmp 2 true none, .rename 2 true, .authenticate phone.token true]

theorem keeps_freshRun :
  (machine id).Along Careful new freshRun ∧ Keeps id freshRun
  := by
  have careful : (machine id).Along Careful new freshRun := by
    decide +kernel
  exact ⟨careful, keeps_of_careful careful⟩

/-- The device that was revoked is let in again. -/
theorem stale_mint_unrevokes :
  ¬Keeps id staleRun
  := by
  intro h
  have htrace : (machine id).trace new staleRun
      = [.minted phone, .marked phone.id, .revoked phone.id true, .minted laptop]
        ++ .authenticated phone.token true (some (some (devicePrincipalId phone.id))) :: [] := by
    decide +kernel
  obtain ⟨out, -⟩ := h.faithful _ _ _ htrace phone rfl
  apply out (by simp) _ rfl

end Registry

end Lazybox.Identity
