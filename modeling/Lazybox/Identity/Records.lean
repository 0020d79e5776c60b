import Lazybox.Identity.Device
import Mathlib.Data.List.Nodup

/-!
# The records of devices

A token is answered by the record of its device.  A job writes records that stem from those of
the registry.  Records cover those of a registry when each of these is among them, and revoked if
it was.
-/

namespace Lazybox.Identity

open WorkingClaim (splitOnce_append)

/-! ### Tokens -/

theorem constantTimeEq_iff {a b : List UInt8} :
  constantTimeEq a b = true ↔ a = b
  := by
  have hfold : ∀ (a b : List UInt8) (acc : UInt8), a.length = b.length →
      ((a.zip b).foldl (fun acc p => acc ||| (p.1 ^^^ p.2)) acc = 0 ↔ acc = 0 ∧ a = b) := by
    intro a
    induction a with
    | nil =>
      intro b acc hlength
      rw [List.length_eq_zero_iff.mp hlength.symm]
      simp
    | cons x a ih =>
      intro b acc hlength
      cases b with
      | nil => cases hlength
      | cons y b =>
        rw [List.zip_cons_cons, List.foldl_cons, ih b _ (Nat.succ.inj hlength),
          UInt8.or_eq_zero_iff, UInt8.xor_eq_zero_iff, List.cons.injEq, and_assoc]
  rw [constantTimeEq]
  split
  · next hlength =>
      constructor
      · intro h
        cases h
      · rintro rfl
        exact absurd rfl hlength
  · next hlength =>
      rw [decide_eq_true_eq]
      apply (hfold a b 0 (not_not.mp hlength)).trans
      simp

theorem dot_notMem_hexEncode (bytes : List UInt8) :
  '.' ∉ (hexEncode bytes).toList
  := by
  have hdigits : ∀ n < 16, hexDigits.getD n '0' ≠ '.' := by
    decide +kernel
  rw [hexEncode, String.toList_ofList, List.mem_flatMap]
  rintro ⟨b, -, hb⟩
  rw [List.mem_cons, List.mem_singleton] at hb
  have hbyte := b.toNat_lt
  rcases hb with hb | hb
  · apply hdigits _ _ hb.symm
    omega
  · apply hdigits _ _ hb.symm
    omega

/-- The parts of a token are found again. -/
theorem splitOnce_token (c : Credential) :
  splitOnce '.' c.token.toList = some (c.id.toList, c.secret.toList)
  := by
  have htoken : c.token.toList = c.id.toList ++ '.' :: c.secret.toList := by
    simp [Credential.token]
  rw [htoken]
  apply splitOnce_append
  apply dot_notMem_hexEncode

section Registry

variable {sha256 : List UInt8 → List UInt8}

/-- The token of a device is answered by its record, and by no other. -/
theorem authenticate_token (c : Credential) (records : List DeviceRecord) :
  authenticate sha256 (some records) c.token
    = some ((findLive records c.id).bind fun record =>
        if hashSecret sha256 record.salt c.secret = record.tokenHash then
          some record.principalId else none)
  := by
  rw [authenticate, splitOnce_token]
  simp only [String.ofList_toList, constantTimeEq_iff, asBytes_injective.eq_iff]
  cases findLive records c.id with
  | none => rfl
  | some record => rfl

/-! ### Records -/

/-- What stays of a record when the device is revoked. -/
def DeviceRecord.device (r : DeviceRecord) : DeviceRecord := { r with revokedAt := none }

variable {r : DeviceRecord}

theorem DeviceRecord.id_eq {r' : DeviceRecord} (h : r.device = r'.device) :
  r.id = r'.id
  := by
  have hid := congrArg DeviceRecord.id h
  apply hid

variable {records : List DeviceRecord}

theorem exists_findLive (h : r ∈ records) (hr : r.isRevoked = false) :
  ∃ live, findLive records r.id = some live
  := by
  rw [← Option.isSome_iff_exists, findLive, List.find?_isSome]
  use r, h
  simp [hr]

variable {id : String}

theorem findLive_spec (h : findLive records id = some r) :
  r ∈ records ∧ r.id = id ∧ r.isRevoked = false
  := by
  have hr := List.find?_some h
  rw [Bool.and_eq_true, decide_eq_true_eq, Bool.not_eq_true'] at hr
  exact ⟨List.mem_of_find?_eq_some h, hr.1, hr.2⟩

section Distinct

variable {records : List DeviceRecord} (distinct : (records.map (·.id)).Nodup)
include distinct

theorem eq_of_id {r r' : DeviceRecord} (h : r ∈ records) (h' : r' ∈ records) (hid : r.id = r'.id) :
  r = r'
  := List.inj_on_of_nodup_map distinct h h' hid

theorem findLive_live {r : DeviceRecord} (h : r ∈ records) (hr : r.isRevoked = false) :
  findLive records r.id = some r
  := by
  obtain ⟨live, hlive⟩ := exists_findLive h hr
  obtain ⟨hmem, hid, -⟩ := findLive_spec hlive
  rw [hlive, eq_of_id distinct hmem h hid]

theorem findLive_revoked {r : DeviceRecord} (h : r ∈ records) (hr : r.isRevoked = true) :
  findLive records r.id = none
  := by
  rw [Option.eq_none_iff_forall_ne_some]
  intro live hlive
  obtain ⟨hmem, hid, hrevoked⟩ := findLive_spec hlive
  rw [eq_of_id distinct hmem h hid, hr] at hrevoked
  cases hrevoked

end Distinct

/-- Each record is still there, and revoked if it was. -/
def Covers (records current : List DeviceRecord) : Prop :=
  ∀ r ∈ current, ∃ r' ∈ records, r'.device = r.device ∧ (r.isRevoked → r'.isRevoked)

instance (records current : List DeviceRecord) : Decidable (Covers records current) :=
  inferInstanceAs (Decidable (∀ r ∈ current, _))

/-- What a job does to the records. -/
def Job.Effect (sha256 : List UInt8 → List UInt8) (records : List DeviceRecord) : Job → Prop
  | .mint c => c.record sha256 ∈ records
  | .revoke id => ∃ r ∈ records, r.id = id ∧ r.isRevoked

/-- Records which a job may write: besides what it does they are those of the registry, maybe
without what was added to them meanwhile. -/
structure Write (sha256 : List UInt8 → List UInt8) (current : List DeviceRecord) (job : Job)
    (records : List DeviceRecord) : Prop where
  nodup : (records.map (·.id)).Nodup
  effect : job.Effect sha256 records
  stems : ∀ r ∈ records, (∃ c, job = .mint c ∧ r = c.record sha256)
    ∨ ∃ r₀ ∈ current, r₀.device = r.device ∧ (r.isRevoked → r₀.isRevoked ∨ job = .revoke r.id)

variable {current : List DeviceRecord}

/-- A job may write what it was to write also when records are added and marked meanwhile. -/
theorem Write.mono {current' : List DeviceRecord} {job : Job}
    (h : Write sha256 current job records) (covers : Covers current' current) :
  Write sha256 current' job records
  := by
  constructor
  · apply h.nodup
  · apply h.effect
  · intro r hr
    obtain minted | ⟨r₀, hr₀, hdevice, hrevoked⟩ := h.stems r hr
    · left
      apply minted
    · right
      obtain ⟨r₁, hr₁, hdevice', hkept⟩ := covers r₀ hr₀
      use r₁, hr₁, hdevice'.trans hdevice
      intro hr
      apply (hrevoked hr).imp_left hkept

/-- The records with a new device. -/
theorem Write.mint {c : Credential} (distinct : (current.map (·.id)).Nodup)
    (fresh : c.id ∉ current.map (·.id)) :
  Write sha256 current (.mint c) (current ++ [c.record sha256])
  := by
  constructor
  · rw [List.map_append, List.map_singleton, List.nodup_append_comm]
    apply List.Nodup.cons fresh distinct
  · apply List.mem_append_right _ List.mem_cons_self
  · intro r hr
    rw [List.mem_append, List.mem_singleton] at hr
    rcases hr with hr | hr
    · right
      use r, hr, rfl
      apply Or.inl
    · left
      use c

theorem map_id_markRevoked (id : String) (now : Instant) (records : List DeviceRecord) :
  (markRevoked id now records).map (·.id) = records.map (·.id)
  := by
  induction records with
  | nil => rfl
  | cons r rest ih =>
    rw [markRevoked]
    split
    · rfl
    · rw [List.map_cons, List.map_cons, ih]

theorem stems_of_mem_markRevoked {now : Instant} (h : r ∈ markRevoked id now records) :
  ∃ r₀ ∈ records, r₀.device = r.device ∧ (r.isRevoked → r₀.isRevoked ∨ id = r.id)
  := by
  induction records with
  | nil => cases h
  | cons r₁ rest ih =>
    rw [markRevoked] at h
    split at h
    · next hlive =>
        obtain rfl | hr := List.mem_cons.mp h
        · use r₁, List.mem_cons_self, rfl
          intro _
          right
          simp only [Bool.and_eq_true, decide_eq_true_eq] at hlive
          apply hlive.1.symm
        · use r, List.mem_cons_of_mem _ hr, rfl
          apply Or.inl
    · obtain rfl | hr := List.mem_cons.mp h
      · use r, List.mem_cons_self, rfl
        apply Or.inl
      · obtain ⟨r₀, hr₀, hstems⟩ := ih hr
        use r₀, List.mem_cons_of_mem _ hr₀

theorem exists_mem_markRevoked {now : Instant} (h : findLive records id = some r) :
  ∃ r' ∈ markRevoked id now records, r'.id = id ∧ r'.isRevoked
  := by
  induction records with
  | nil => cases h
  | cons r₁ rest ih =>
    rw [markRevoked]
    rw [findLive, List.find?_cons] at h
    split
    · next hlive =>
        refine ⟨_, List.mem_cons_self, ?_, rfl⟩
        simp only [Bool.and_eq_true, decide_eq_true_eq] at hlive
        apply hlive.1
    · next hdead =>
        rw [Bool.eq_false_iff.mpr hdead] at h
        obtain ⟨r', hr', hrevoked⟩ := ih h
        use r', List.mem_cons_of_mem _ hr'

/-- The records with a device revoked. -/
theorem Write.revoke (distinct : (current.map (·.id)).Nodup) (live : findLive current id = some r)
    (now : Instant) :
  Write sha256 current (.revoke id) (markRevoked id now current)
  := by
  constructor
  · rw [map_id_markRevoked]
    apply distinct
  · apply exists_mem_markRevoked live
  · intro r hr
    right
    obtain ⟨r₀, hr₀, hdevice, hrevoked⟩ := stems_of_mem_markRevoked hr
    use r₀, hr₀, hdevice
    intro hr
    apply (hrevoked hr).imp_right
    rintro rfl
    rfl

end Registry

end Lazybox.Identity
