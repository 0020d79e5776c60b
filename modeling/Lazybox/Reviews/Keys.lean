import Lazybox.Core.ClaimLines
import Lazybox.Cost.Meter
import Lazybox.Reviews.Store
import Mathlib.Data.String.Basic

/-!
# Keys of reviews

The key of a workspace is written injectively and without a colon, so the rows of two workspaces
are never under one prefix, and nor are reports and results.  Numbers of at most twelve digits are
written in as many, and keys are in the order of their numbers.
-/

namespace Lazybox.Reviews

open Store

/-! ### Workspace keys -/

theorem hexUpper_ne {c : Char} (h : c ∉ hexUpper) {n : ℕ} (hn : n < 16) :
  hexUpper.getD n '0' ≠ c
  := by
  have hall : ∀ n < 16, hexUpper.getD n '0' ∈ hexUpper := by
    decide +kernel
  rintro rfl
  apply h (hall n hn)

theorem hexUpper_injective {m n : ℕ} (hm : m < 16) (hn : n < 16)
    (h : hexUpper.getD m '0' = hexUpper.getD n '0') :
  m = n
  := by
  have hall : ∀ m < 16, ∀ n < 16, hexUpper.getD m '0' = hexUpper.getD n '0' → m = n := by
    decide +kernel
  apply hall m hm n hn h

theorem toNat_byte (b : UInt8) :
  (Char.ofNat b.toNat).toNat = b.toNat
  := by
  apply PrefixRange.toNat_ofNat
  left
  have := b.toNat_lt
  omega

theorem prefixCode_encodeByte :
  PrefixCode encodeByte
  := by
  constructor
  · intro b
    rw [encodeByte]
    split
    · apply List.cons_ne_nil
    · apply List.cons_ne_nil
  · intro a b h
    have ha := a.toNat_lt
    have hb := b.toNat_lt
    rw [encodeByte, encodeByte] at h
    split at h
    · next halnum =>
        split at h
        · obtain ⟨hchar, -⟩ := List.cons_prefix_cons.mp h
          have hnat := congrArg Char.toNat hchar
          rw [toNat_byte, toNat_byte] at hnat
          apply UInt8.toNat_inj.mp hnat
        · obtain ⟨hchar, -⟩ := List.cons_prefix_cons.mp h
          rw [hchar] at halnum
          cases halnum
    · split at h
      · obtain ⟨-, hrest⟩ := List.cons_prefix_cons.mp h
        cases List.prefix_nil.mp hrest
      · obtain ⟨-, hrest⟩ := List.cons_prefix_cons.mp h
        obtain ⟨hhigh, hrest⟩ := List.cons_prefix_cons.mp hrest
        obtain ⟨hlow, -⟩ := List.cons_prefix_cons.mp hrest
        apply UInt8.toNat_inj.mp
        have hdiv := hexUpper_injective (by omega) (by omega) hhigh
        have hmod := hexUpper_injective (by omega) (by omega) hlow
        omega

theorem encodeKey_injective :
  Function.Injective encodeKey
  := by
  intro s t h
  apply asBytes_injective
  apply prefixCode_encodeByte.flatMap_injective
  apply String.ofList_injective h

theorem colon_notMem_encodeKey (key : String) :
  ':' ∉ (encodeKey key).toList
  := by
  rw [encodeKey, String.toList_ofList, List.mem_flatMap]
  rintro ⟨b, -, hb⟩
  have hlt := b.toNat_lt
  rw [encodeByte] at hb
  split at hb
  · next halnum =>
      rw [← List.mem_singleton.mp hb] at halnum
      cases halnum
  · have hcolon : ':' ∉ hexUpper := by
      decide +kernel
    simp only [List.mem_cons, List.not_mem_nil, or_false] at hb
    obtain hb | hb | hb := hb
    · cases hb
    · apply hexUpper_ne hcolon (by omega) hb.symm
    · apply hexUpper_ne hcolon (by omega) hb.symm

/-! ### Prefixes -/

/-- The key starts with the prefix of a workspace. -/
def Under (space : Space) (workspace key : String) : Prop :=
  (space.prefixOf workspace).toList <+: key.toList

theorem toList_prefixOf (space : Space) (workspace : String) :
  (space.prefixOf workspace).toList
    = space.kvPrefix.toList ++ ((encodeKey workspace).toList ++ [':'])
  := by
  rw [Space.prefixOf, String.toList_append, String.toList_append, List.append_assoc]
  rfl

theorem space_eq {space space' : Space} {key : String}
    (h : space.kvPrefix.toList <+: key.toList) (h' : space'.kvPrefix.toList <+: key.toList) :
  space = space'
  := by
  have hdiffer : ¬ (Space.report.kvPrefix.toList <+: Space.result.kvPrefix.toList)
      ∧ ¬ (Space.result.kvPrefix.toList <+: Space.report.kvPrefix.toList) := by
    decide +kernel
  have hcomparable := List.prefix_or_prefix_of_prefix h h'
  cases space with
  | report =>
    cases space' with
    | report => rfl
    | result => cases hcomparable.elim hdiffer.1 hdiffer.2
  | result =>
    cases space' with
    | report => cases hcomparable.elim hdiffer.2 hdiffer.1
    | result => rfl

/-- A key is under the prefix of one workspace only, and of reports or of results. -/
theorem under_unique {space space' : Space} {workspace workspace' key : String}
    (h : Under space workspace key) (h' : Under space' workspace' key) :
  space = space' ∧ workspace = workspace'
  := by
  rw [Under, toList_prefixOf] at h h'
  have hspace := space_eq ((List.prefix_append _ _).trans h) ((List.prefix_append _ _).trans h')
  subst hspace
  constructor
  · rfl
  · obtain ⟨rest, hrest⟩ := h
    obtain ⟨rest', hrest'⟩ := h'
    have hboth := hrest.trans hrest'.symm
    simp only [List.append_assoc, List.singleton_append] at hboth
    have hsame := congrArg (splitOnce ':') (List.append_cancel_left hboth)
    rw [WorkingClaim.splitOnce_append (colon_notMem_encodeKey workspace),
      WorkingClaim.splitOnce_append (colon_notMem_encodeKey workspace')] at hsame
    apply encodeKey_injective
    apply String.toList_injective
    simp only [Option.some.injEq, Prod.mk.injEq] at hsame
    apply hsame.1

theorem under_rowKey (space : Space) (workspace : String) (seq : ℕ) :
  Under space workspace (rowKey (space.prefixOf workspace) seq)
  := by
  rw [Under, rowKey, String.toList_append]
  apply List.prefix_append

/-! ### Numbers -/

theorem padded_eq (seq : ℕ) :
  padded seq = List.replicate (seqWidth - (Nat.toDigits 10 seq).length) '0' ++ Nat.toDigits 10 seq
  := by
  rw [padded, toList_toString]
  rfl

variable {seq : ℕ}

theorem isDigit_of_mem_padded {c : Char} (h : c ∈ padded seq) :
  c.isDigit
  := by
  rw [padded_eq, List.mem_append] at h
  obtain hzero | hdigit := h
  · rw [List.eq_of_mem_replicate hzero]
    rfl
  · apply Nat.isDigit_of_mem_toDigits (b := 10) (n := seq) (by omega) (by omega) hdigit

theorem digitsValue_padded (seq : ℕ) :
  digitsValue (padded seq) = seq
  := by
  have hzeros : ∀ n, (List.replicate n '0').foldl
      (fun n c => 10 * n + (c.toNat - '0'.toNat)) 0 = 0 := by
    intro n
    induction n with
    | zero => rfl
    | succ n ih => rw [List.replicate_succ, List.foldl_cons, Nat.sub_self, ih]
  rw [padded_eq, digitsValue, List.foldl_append, hzeros, ← Nat.ofDigitChars_eq_foldl,
    Nat.ofDigitChars_ten_toDigits]

theorem padded_injective :
  Function.Injective padded
  := by
  intro m n h
  rw [← digitsValue_padded m, h, digitsValue_padded]

theorem padded_ne_nil (seq : ℕ) :
  padded seq ≠ []
  := by
  rw [padded_eq]
  apply List.append_ne_nil_of_right_ne_nil
  apply Nat.toDigits_ne_nil

theorem parseU64_padded (h : seq < 18446744073709551616) :
  parseU64 (padded seq) = some seq
  := by
  have hdigits : ∀ c ∈ padded seq, c.isDigit := fun c => isDigit_of_mem_padded
  rw [parseU64_of_isDigit (padded_ne_nil seq) hdigits, digitsValue_padded, if_pos h]

theorem length_padded (h : seq < 10 ^ seqWidth) :
  (padded seq).length = seqWidth
  := by
  have hlength := Nat.toDigits_length 10 seq seqWidth (by decide) h
  rw [padded_eq, List.length_append, List.length_replicate]
  omega

theorem colon_notMem_padded (seq : ℕ) :
  ':' ∉ padded seq
  := by
  intro h
  cases isDigit_of_mem_padded h

theorem lastSegment_rowKey (space : Space) (workspace : String) (seq : ℕ) :
  lastSegment (rowKey (space.prefixOf workspace) seq) = padded seq
  := by
  rw [lastSegment, rowKey, String.toList_append, toList_prefixOf, String.toList_ofList,
    ← List.append_assoc, List.append_assoc _ [':'], List.singleton_append, List.reverse_append,
    List.reverse_cons, List.append_assoc, List.takeWhile_append_of_pos]
  · simp
  · intro c hc
    rw [List.mem_reverse] at hc
    rw [decide_eq_true_eq]
    rintro rfl
    apply colon_notMem_padded seq hc

theorem seqOf_artifactId {c : Char} (h : seq < 18446744073709551616) :
  seqOf (artifactId c seq) c = some seq
  := by
  rw [seqOf, artifactId, String.toList_ofList]
  simp only [if_true]
  apply parseU64_toString
  omega

theorem rowKey_injective (keyPrefix : String) :
  Function.Injective (rowKey keyPrefix)
  := by
  intro m n h
  have hlist := congrArg String.toList h
  rw [rowKey, rowKey, String.toList_append, String.toList_append, String.toList_ofList,
    String.toList_ofList] at hlist
  apply padded_injective (List.append_cancel_left hlist)

/-! ### The order of keys -/

/-- The number that digits denote after those that denote `n`. -/
def valueFrom (n : ℕ) (s : List Char) : ℕ :=
  s.foldl (fun n c => 10 * n + (c.toNat - '0'.toNat)) n

theorem valueFrom_cons (n : ℕ) (c : Char) (s : List Char) :
  valueFrom n (c :: s) = valueFrom (10 * n + (c.toNat - '0'.toNat)) s
  := by
  rw [valueFrom, List.foldl_cons, valueFrom]

theorem digit_lt {c : Char} (h : c.isDigit) :
  '0'.toNat ≤ c.toNat ∧ c.toNat - '0'.toNat < 10
  := by
  rw [Char.isDigit_iff_toNat] at h
  have hzero : '0'.toNat = 48 := rfl
  have hnine : '9'.toNat = 57 := rfl
  omega

theorem valueFrom_bounds (n : ℕ) {s : List Char} (digits : ∀ c ∈ s, c.isDigit) :
  n * 10 ^ s.length ≤ valueFrom n s ∧ valueFrom n s < (n + 1) * 10 ^ s.length
  := by
  induction s generalizing n with
  | nil => simp [valueFrom]
  | cons c s ih =>
    have hdigit := digit_lt (digits c List.mem_cons_self)
    obtain ⟨hlower, hupper⟩ := ih (10 * n + (c.toNat - '0'.toNat))
      fun d hd => digits d (List.mem_cons_of_mem _ hd)
    rw [valueFrom_cons, List.length_cons, pow_succ]
    constructor
    · calc n * (10 ^ s.length * 10) = 10 * n * 10 ^ s.length := by ring
        _ ≤ (10 * n + (c.toNat - '0'.toNat)) * 10 ^ s.length := by
          apply Nat.mul_le_mul_right
          omega
        _ ≤ _ := hlower
    · calc _ < (10 * n + (c.toNat - '0'.toNat) + 1) * 10 ^ s.length := hupper
        _ ≤ (10 * n + 10) * 10 ^ s.length := by
          apply Nat.mul_le_mul_right
          omega
        _ = (n + 1) * (10 ^ s.length * 10) := by ring

/-- Of two numbers with as many digits, the text of the smaller is the smaller. -/
theorem lt_of_valueFrom_lt {n : ℕ} {s t : List Char} (digits : ∀ c ∈ s, c.isDigit)
    (digits' : ∀ c ∈ t, c.isDigit) (length : s.length = t.length)
    (h : valueFrom n s < valueFrom n t) :
  s < t
  := by
  induction s generalizing n t with
  | nil =>
    rw [List.length_eq_zero_iff.mp length.symm] at h
    cases lt_irrefl _ h
  | cons c s ih =>
    cases t with
    | nil => cases length
    | cons d t =>
      have hs : ∀ c ∈ s, c.isDigit := fun c hc => digits c (List.mem_cons_of_mem _ hc)
      have ht : ∀ c ∈ t, c.isDigit := fun c hc => digits' c (List.mem_cons_of_mem _ hc)
      have hlength : s.length = t.length := Nat.succ.inj length
      rw [valueFrom_cons, valueFrom_cons] at h
      rw [List.cons_lt_cons_iff]
      rcases lt_trichotomy c d with hcd | rfl | hcd
      · left
        apply hcd
      · right
        exact ⟨rfl, ih hs ht hlength h⟩
      · exfalso
        have hd := digit_lt (digits' d List.mem_cons_self)
        have hnat : d.toNat < c.toNat := hcd
        have hupper := (valueFrom_bounds (10 * n + (d.toNat - '0'.toNat)) ht).2
        have hlower := (valueFrom_bounds (10 * n + (c.toNat - '0'.toNat)) hs).1
        have hstep : (10 * n + (d.toNat - '0'.toNat) + 1) * 10 ^ t.length
            ≤ (10 * n + (c.toNat - '0'.toNat)) * 10 ^ s.length := by
          rw [hlength]
          apply Nat.mul_le_mul_right
          omega
        apply absurd h (not_lt.mpr _)
        apply (hupper.le.trans hstep).trans hlower

/-- Keys are in the order of their numbers. -/
theorem below_rowKey (keyPrefix : String) {m n : ℕ} (h : m < n) (few : n < 10 ^ seqWidth) :
  below (rowKey keyPrefix m) (rowKey keyPrefix n)
  := by
  rw [below_iff, rowKey, rowKey, String.toList_append, String.toList_append,
    String.toList_ofList, String.toList_ofList]
  apply List.append_left_lt
  apply lt_of_valueFrom_lt (n := 0)
  · intro c hc
    apply isDigit_of_mem_padded hc
  · intro c hc
    apply isDigit_of_mem_padded hc
  · rw [length_padded (h.trans few), length_padded few]
  · change digitsValue (padded m) < digitsValue (padded n)
    rw [digitsValue_padded, digitsValue_padded]
    apply h

/-- A number of thirteen digits comes before those of twelve. -/
example : below (rowKey "" (10 ^ seqWidth)) (rowKey "" (10 ^ seqWidth - 1)) := by
  decide +kernel

/-! ### Listings -/

theorem notBelow_iff (a b : String) :
  (!below b a) = true ↔ a.toList ≤ b.toList
  := by
  rw [Bool.not_eq_true', Bool.eq_false_iff, ne_eq, below_iff, not_lt]

theorem pairwise_orderByKey (rows : List (String × String)) :
  (orderByKey rows).Pairwise fun a b => a.1.toList ≤ b.1.toList
  := by
  have htrans : ∀ a b c : String × String,
      (!below b.1 a.1) = true → (!below c.1 b.1) = true → (!below c.1 a.1) = true := by
    intro a b c hab hbc
    rw [notBelow_iff] at hab hbc ⊢
    apply le_trans hab hbc
  have htotal : ∀ a b : String × String, ((!below b.1 a.1) || !below a.1 b.1) = true := by
    intro a b
    rw [Bool.or_eq_true, notBelow_iff, notBelow_iff]
    apply le_total
  have hpairwise := List.pairwise_mergeSort htrans htotal rows
  apply hpairwise.imp
  intro a b hab
  rwa [notBelow_iff] at hab

/-- Keys that ascend are in order already. -/
theorem sortKeys_eq {keys : List String} (h : keys.Pairwise fun a b => below a b) :
  sortKeys keys = keys
  := by
  apply List.mergeSort_of_pairwise
  apply h.imp
  intro a b hab
  rw [notBelow_iff]
  rw [below_iff] at hab
  apply le_of_lt hab

/-- A listing is any list of the rows under the prefix whose keys ascend. -/
theorem listKvPrefix_eq {t : Table} {keyPrefix : String} {entries : List (String × String)}
    (ascending : entries.Pairwise fun a b => below a.1 b.1)
    (mem : ∀ key value, (key, value) ∈ entries
      ↔ keyPrefix.toList <+: key.toList ∧ t.select key = some value) :
  Sqlite.listKvPrefix t keyPrefix = entries
  := by
  have hsame : ∀ row, row ∈ Sqlite.listKvPrefix t keyPrefix ↔ row ∈ entries := by
    rintro ⟨key, value⟩
    rw [mem_listKvPrefix, mem]
  have hlisted : ∃ rows, rows.Nodup ∧ Sqlite.listKvPrefix t keyPrefix = orderByKey rows := by
    have hrows : t.rows.Nodup := List.Nodup.of_map _ t.distinct
    unfold Sqlite.listKvPrefix
    split
    · exact ⟨_, hrows.filter _, rfl⟩
    · exact ⟨_, hrows.filter _, rfl⟩
  obtain ⟨rows, hrows, hlist⟩ := hlisted
  have hentries : entries.Nodup := by
    apply ascending.imp
    rintro a b hab rfl
    rw [below_iff] at hab
    apply lt_irrefl _ hab
  have hperm : (Sqlite.listKvPrefix t keyPrefix).Perm entries := by
    rw [List.perm_ext_iff_of_nodup _ hentries]
    · apply hsame
    · rw [hlist]
      apply (List.mergeSort_perm rows _).nodup_iff.mpr hrows
  have hantisymm : ∀ a b, a ∈ Sqlite.listKvPrefix t keyPrefix → b ∈ entries →
      a.1.toList ≤ b.1.toList → b.1.toList ≤ a.1.toList → a = b := by
    intro a b ha hb hab hba
    have hkey : a.1 = b.1 := String.toList_injective (le_antisymm hab hba)
    obtain ⟨key, value⟩ := a
    obtain ⟨key', value'⟩ := b
    obtain rfl : key = key' := hkey
    have hvalue := ((mem_listKvPrefix _ _ _ _).mp ha).2
    rw [((mem _ _).mp hb).2, Option.some.injEq] at hvalue
    rw [hvalue]
  apply hperm.eq_of_pairwise hantisymm
  · rw [hlist]
    apply pairwise_orderByKey
  · apply ascending.imp
    intro a b hab
    rw [below_iff] at hab
    apply le_of_lt hab

end Lazybox.Reviews
