import Mathlib.Data.List.Induction
import Mathlib.Data.Option.Basic

/-!
# Strings of a JSON text

What stands between the quotes of a string is a sequence of characters: a character in UTF-8 that
is neither a quote, a backslash nor a control character; an escape of two bytes; an escape of four
hexadecimal digits; or a pair of such escapes that are surrogates of one character.  A surrogate
alone is not a character.

`Scan` reads such a sequence byte by byte, and `decode` is the text of a whole one.  No character
takes more than twelve bytes, so within twelve bytes of any point of a string there is a place
between two characters, where the string can be cut into two strings.
-/

namespace Json

/-- Where a scan stands: between two characters, or within one. -/
inductive Scan where
  | boundary
  /-- After a backslash. -/
  | escape
  /-- After `\u` and some digits. -/
  | hex (digits : Fin 4) (value : ℕ)
  /-- After a high surrogate. -/
  | high (value : ℕ)
  /-- After a high surrogate and a backslash. -/
  | highEscape (value : ℕ)
  /-- After a high surrogate, `\u` and some digits. -/
  | lowHex (first : ℕ) (digits : Fin 4) (value : ℕ)
  /-- Within a character in UTF-8: how many bytes follow the next one, and its range. -/
  | utf8 (later : Fin 3) (lo hi : UInt8) (value : ℕ)
deriving DecidableEq, Repr

/-- The value of a hexadecimal digit. -/
def hexDigit (byte : UInt8) : Option ℕ :=
  if 0x30 ≤ byte ∧ byte ≤ 0x39 then some (byte.toNat - 0x30)
  else if 0x61 ≤ byte ∧ byte ≤ 0x66 then some (byte.toNat - 0x61 + 10)
  else if 0x41 ≤ byte ∧ byte ≤ 0x46 then some (byte.toNat - 0x41 + 10)
  else none

/-- The character that a backslash and this byte stand for. -/
def simpleEscape (byte : UInt8) : Option Char :=
  if byte = 0x22 then some '"'
  else if byte = 0x5C then some '\\'
  else if byte = 0x2F then some '/'
  else if byte = 0x62 then some '\x08'
  else if byte = 0x66 then some '\x0c'
  else if byte = 0x6E then some '\n'
  else if byte = 0x72 then some '\r'
  else if byte = 0x74 then some '\t'
  else none

namespace Scan

/-- The first byte of a character in UTF-8, if it takes more than one. -/
def lead (byte : UInt8) : Option Scan :=
  if 0xC2 ≤ byte ∧ byte ≤ 0xDF then some (utf8 0 0x80 0xBF (byte.toNat - 0xC0))
  else if byte = 0xE0 then some (utf8 1 0xA0 0xBF 0)
  else if byte = 0xED then some (utf8 1 0x80 0x9F 0xD)
  else if 0xE1 ≤ byte ∧ byte ≤ 0xEF then some (utf8 1 0x80 0xBF (byte.toNat - 0xE0))
  else if byte = 0xF0 then some (utf8 2 0x90 0xBF 0)
  else if 0xF1 ≤ byte ∧ byte ≤ 0xF3 then some (utf8 2 0x80 0xBF (byte.toNat - 0xF0))
  else if byte = 0xF4 then some (utf8 2 0x80 0x8F 4)
  else none

/-- What four digits of an escape come to. -/
def unicode (value : ℕ) : Option (Scan × List Char) :=
  if 0xD800 ≤ value ∧ value ≤ 0xDBFF then some (high value, [])
  else if 0xDC00 ≤ value ∧ value ≤ 0xDFFF then none
  else some (boundary, [Char.ofNat value])

/-- What the four digits of a second escape come to. -/
def surrogates (first value : ℕ) : Option (Scan × List Char) :=
  if 0xDC00 ≤ value ∧ value ≤ 0xDFFF then
    some (boundary, [Char.ofNat (0x10000 + (first - 0xD800) * 0x400 + (value - 0xDC00))])
  else
    none

/-- One byte of a string: where the scan then stands, and the character that is complete with it,
or `none` if no string goes on like this. -/
def step : Scan → UInt8 → Option (Scan × List Char)
  | boundary, byte =>
      if byte = 0x22 ∨ byte < 0x20 then none
      else if byte = 0x5C then some (escape, [])
      else if byte < 0x80 then some (boundary, [Char.ofNat byte.toNat])
      else (lead byte).map fun scan => (scan, [])
  | escape, byte =>
      if byte = 0x75 then some (hex 0 0, [])
      else (simpleEscape byte).map fun char => (boundary, [char])
  | hex digits value, byte =>
      (hexDigit byte).bind fun digit =>
        if h : digits.val < 3 then some (hex ⟨digits.val + 1, by omega⟩ (value * 16 + digit), [])
        else unicode (value * 16 + digit)
  | high value, byte => if byte = 0x5C then some (highEscape value, []) else none
  | highEscape value, byte => if byte = 0x75 then some (lowHex value 0 0, []) else none
  | lowHex first digits value, byte =>
      (hexDigit byte).bind fun digit =>
        if h : digits.val < 3 then
          some (lowHex first ⟨digits.val + 1, by omega⟩ (value * 16 + digit), [])
        else
          surrogates first (value * 16 + digit)
  | utf8 later lo hi value, byte =>
      if 0x80 ≤ byte ∧ byte ≤ 0xBF ∧ lo ≤ byte ∧ byte ≤ hi then
        let value := value * 0x40 + (byte.toNat - 0x80)
        if h : 0 < later.val then some (utf8 ⟨later.val - 1, by omega⟩ 0x80 0xBF value, [])
        else some (boundary, [Char.ofNat value])
      else
        none

/-- A run of bytes: where the scan then stands, and the characters that are complete. -/
def run (scan : Scan) : List UInt8 → Option (Scan × List Char)
  | [] => some (scan, [])
  | byte :: bytes =>
      (step scan byte).bind fun r => (run r.1 bytes).map fun r' => (r'.1, r.2 ++ r'.2)

/-- The next byte stands for itself because of a backslash before it. -/
def escapes : Scan → Bool
  | escape | highEscape _ => true
  | _ => false

/-- A bound on the bytes since the last place between two characters. -/
def rank : Scan → ℕ
  | boundary => 0
  | escape => 1
  | hex digits _ => 2 + digits.val
  | high _ => 6
  | highEscape _ => 7
  | lowHex _ digits _ => 8 + digits.val
  | utf8 later _ _ _ => 3 - later.val

end Scan

/-- The text of what stands between the quotes of a string. -/
def decode (body : List UInt8) : Option String :=
  match Scan.boundary.run body with
  | some (.boundary, chars) => some (String.ofList chars)
  | _ => none

example :
    decode [0x61, 0x5C, 0x75, 0x44, 0x38, 0x33, 0x44, 0x5C, 0x75, 0x44, 0x45, 0x30, 0x30]
      = some "a😀" := by
  decide +kernel

/-! ### One byte -/

namespace Scan

theorem rank_le (scan : Scan) : scan.rank ≤ 11 := by
  cases scan <;> simp only [rank] <;> omega

/-- What a byte can do: it completes a character, or it brings the scan further into one.  A
backslash that does not stand for itself makes the next byte stand for itself, and a quote must
stand for itself. -/
structure Stepped (scan : Scan) (byte : UInt8) (scan' : Scan) (chars : List Char) : Prop where
  escapes : scan'.escapes = (decide (byte = 0x5C) && !scan.escapes)
  quote : byte = 0x22 → scan.escapes = true
  progress : scan' = boundary ∧ chars.length = 1 ∨ scan.rank < scan'.rank ∧ chars = []

variable {scan : Scan} {byte : UInt8}

theorem lead_eq_some (h : lead byte = some scan) :
  ∃ later lo hi value, scan = utf8 later lo hi value
  := by
  rw [lead] at h
  repeat' split at h
  all_goals
    cases h
    try exact ⟨_, _, _, _, rfl⟩

variable {chars : List Char}

theorem stepped_boundary (h : step boundary byte = some (scan, chars)) :
  Stepped boundary byte scan chars
  := by
  rw [step] at h
  split at h
  · cases h
  · next hplain =>
      rw [not_or] at hplain
      have hquote : byte = 0x22 → boundary.escapes = true := by
        intro hbyte
        exact absurd hbyte hplain.1
      split at h
      · next hescape =>
          cases h
          exact ⟨by simp [hescape, escapes], hquote, .inr ⟨by decide, rfl⟩⟩
      · next hescape =>
          split at h
          · cases h
            exact ⟨by simp [hescape, escapes], hquote, .inl ⟨rfl, rfl⟩⟩
          · obtain ⟨scan', hlead, heq⟩ := Option.map_eq_some_iff.mp h
            cases heq
            obtain ⟨later, lo, hi, value, rfl⟩ := lead_eq_some hlead
            refine ⟨by simp [hescape, escapes], hquote, .inr ⟨?_, rfl⟩⟩
            simp only [rank]
            omega

theorem stepped_escape (h : step escape byte = some (scan, chars)) :
  Stepped escape byte scan chars
  := by
  rw [step] at h
  split at h
  · cases h
    exact ⟨by simp [escapes], fun _ => rfl, .inr ⟨by decide, rfl⟩⟩
  · obtain ⟨char, -, heq⟩ := Option.map_eq_some_iff.mp h
    cases heq
    exact ⟨by simp [escapes], fun _ => rfl, .inl ⟨rfl, rfl⟩⟩

/-- A hexadecimal digit is neither a quote nor a backslash. -/
theorem hexDigit_eq_some {digit : ℕ} (h : hexDigit byte = some digit) :
  byte ≠ 0x22 ∧ byte ≠ 0x5C
  := by
  constructor
  · rintro rfl
    cases h
  · rintro rfl
    cases h

theorem stepped_hex
    {digits : Fin 4} {value : ℕ} (h : step (hex digits value) byte = some (scan, chars)) :
  Stepped (hex digits value) byte scan chars
  := by
  rw [step] at h
  obtain ⟨digit, hdigit, h⟩ := Option.bind_eq_some_iff.mp h
  obtain ⟨hquote, hescape⟩ := hexDigit_eq_some hdigit
  have hrank : (hex digits value).rank ≤ 5 := by
    simp only [rank]
    omega
  split at h
  · cases h
    refine ⟨by simp [hescape, escapes], fun hbyte => absurd hbyte hquote, .inr ⟨?_, rfl⟩⟩
    simp only [rank]
    omega
  · rw [unicode] at h
    split at h
    · cases h
      refine ⟨by simp [hescape, escapes], fun hbyte => absurd hbyte hquote, .inr ⟨?_, rfl⟩⟩
      simp only [rank] at hrank ⊢
      omega
    · split at h
      · cases h
      · cases h
        exact ⟨by simp [hescape, escapes], fun hbyte => absurd hbyte hquote, .inl ⟨rfl, rfl⟩⟩

theorem stepped_lowHex {first : ℕ} {digits : Fin 4} {value : ℕ}
    (h : step (lowHex first digits value) byte = some (scan, chars)) :
  Stepped (lowHex first digits value) byte scan chars
  := by
  rw [step] at h
  obtain ⟨digit, hdigit, h⟩ := Option.bind_eq_some_iff.mp h
  obtain ⟨hquote, hescape⟩ := hexDigit_eq_some hdigit
  split at h
  · cases h
    refine ⟨by simp [hescape, escapes], fun hbyte => absurd hbyte hquote, .inr ⟨?_, rfl⟩⟩
    simp only [rank]
    omega
  · rw [surrogates] at h
    split at h
    · cases h
      exact ⟨by simp [hescape, escapes], fun hbyte => absurd hbyte hquote, .inl ⟨rfl, rfl⟩⟩
    · cases h

theorem stepped_utf8 {later : Fin 3} {lo hi : UInt8} {value : ℕ}
    (h : step (utf8 later lo hi value) byte = some (scan, chars)) :
  Stepped (utf8 later lo hi value) byte scan chars
  := by
  rw [step] at h
  split at h
  · next hcontinues =>
      have hquote : byte ≠ 0x22 := by
        rintro rfl
        exact absurd hcontinues.1 (by decide)
      have hescape : byte ≠ 0x5C := by
        rintro rfl
        exact absurd hcontinues.1 (by decide)
      dsimp only at h
      split at h
      · cases h
        refine ⟨by simp [hescape, escapes], fun hbyte => absurd hbyte hquote, .inr ⟨?_, rfl⟩⟩
        simp only [rank]
        omega
      · cases h
        exact ⟨by simp [hescape, escapes], fun hbyte => absurd hbyte hquote, .inl ⟨rfl, rfl⟩⟩
  · cases h

theorem step_stepped {scan' : Scan} (h : step scan byte = some (scan', chars)) :
  Stepped scan byte scan' chars
  := by
  cases scan with
  | boundary => apply stepped_boundary h
  | escape => apply stepped_escape h
  | hex digits value => apply stepped_hex h
  | high value =>
    rw [step] at h
    split at h
    · next hescape =>
        cases h
        refine ⟨by simp [hescape, escapes], ?_, .inr ⟨by simp [rank], rfl⟩⟩
        rintro rfl
        cases hescape
    · cases h
  | highEscape value =>
    rw [step] at h
    split at h
    · cases h
      exact ⟨by simp [escapes], fun _ => rfl, .inr ⟨by simp [rank], rfl⟩⟩
    · cases h
  | lowHex first digits value => apply stepped_lowHex h
  | utf8 later lo hi value => apply stepped_utf8 h

/-! ### Runs of bytes -/

theorem run_append (scan : Scan) (bytes bytes' : List UInt8) :
  run scan (bytes ++ bytes')
    = (run scan bytes).bind fun r => (run r.1 bytes').map fun r' => (r'.1, r.2 ++ r'.2)
  := by
  induction bytes generalizing scan with
  | nil =>
    rw [List.nil_append, run, Option.bind_some]
    exact Option.map_id'.symm
  | cons byte bytes ih =>
    rw [List.cons_append, run, run]
    cases step scan byte with
    | none => rfl
    | some r =>
      rw [Option.bind_some, Option.bind_some, ih]
      cases run r.1 bytes with
      | none => rfl
      | some r' =>
        simp only [Option.bind_some, Option.map_some, Option.map_map]
        congr 1
        funext r''
        simp

theorem run_concat (scan : Scan) (bytes : List UInt8) (byte : UInt8) :
  run scan (bytes ++ [byte])
    = (run scan bytes).bind fun r => (step r.1 byte).map fun r' => (r'.1, r.2 ++ r'.2)
  := by
  rw [run_append]
  congr 1
  funext r
  cases h : step r.1 byte <;> simp [run, h]

/-- Whether the byte after these stands for itself. -/
def escaped (bytes : List UInt8) : Bool :=
  bytes.foldl (fun escaped byte => decide (byte = 0x5C) && !escaped) false

theorem escaped_concat (bytes : List UInt8) (byte : UInt8) :
  escaped (bytes ++ [byte]) = (decide (byte = 0x5C) && !escaped bytes)
  := by
  rw [escaped, List.foldl_append]
  rfl

/-- A scan knows whether the next byte stands for itself. -/
theorem escapes_run {bytes : List UInt8} (h : boundary.run bytes = some (scan, chars)) :
  scan.escapes = escaped bytes
  := by
  induction bytes using List.reverseRecOn generalizing scan chars with
  | nil =>
    cases h
    rfl
  | append_singleton bytes byte ih =>
    rw [run_concat] at h
    obtain ⟨r, hr, h⟩ := Option.bind_eq_some_iff.mp h
    obtain ⟨r', hr', heq⟩ := Option.map_eq_some_iff.mp h
    cases heq
    rw [escaped_concat, ← ih hr]
    apply (step_stepped hr').escapes

/-- Twelve bytes at most make a character. -/
theorem length_le_of_run
    {scan' : Scan} {bytes : List UInt8} (h : scan.run bytes = some (scan', chars)) :
  bytes.length + scan.rank ≤ 12 * chars.length + scan'.rank
  := by
  induction bytes generalizing scan chars with
  | nil =>
    cases h
    simp
  | cons byte bytes ih =>
    rw [run] at h
    obtain ⟨r, hr, h⟩ := Option.bind_eq_some_iff.mp h
    obtain ⟨r', hr', heq⟩ := Option.map_eq_some_iff.mp h
    cases heq
    have hlater := ih hr'
    rw [List.length_cons, List.length_append]
    obtain ⟨hboundary, hchars⟩ | ⟨hrank, hchars⟩ := (step_stepped hr).progress
    · have := scan.rank_le
      have hzero : r.1.rank = 0 := by rw [hboundary]; rfl
      omega
    · omega

end Scan

/-! ### Whole strings and their parts -/

variable {body : List UInt8}

theorem decode_eq_some_iff {text : String} :
  decode body = some text
    ↔ ∃ chars, Scan.boundary.run body = some (.boundary, chars) ∧ String.ofList chars = text
  := by
  rw [decode]
  split
  · next chars h =>
      rw [h]
      simp
  · next h =>
      constructor
      · intro hnone
        cases hnone
      · rintro ⟨chars, hrun, -⟩
        exact absurd hrun (h chars)

theorem decode_isSome_iff :
  (decode body).isSome ↔ ∃ chars, Scan.boundary.run body = some (.boundary, chars)
  := by
  rw [Option.isSome_iff_exists]
  constructor
  · rintro ⟨text, h⟩
    obtain ⟨chars, hrun, -⟩ := decode_eq_some_iff.mp h
    exact ⟨chars, hrun⟩
  · rintro ⟨chars, hrun⟩
    exact ⟨_, decode_eq_some_iff.mpr ⟨chars, hrun, rfl⟩⟩

/-- A string may be cut wherever its first part is a string. -/
theorem decode_append_isSome {body' : List UInt8} (h : (decode body).isSome) :
  (decode (body ++ body')).isSome ↔ (decode body').isSome
  := by
  obtain ⟨chars, hrun⟩ := decode_isSome_iff.mp h
  rw [decode_isSome_iff, decode_isSome_iff, Scan.run_append, hrun, Option.bind_some]
  constructor
  · rintro ⟨chars', h'⟩
    obtain ⟨r, hr, heq⟩ := Option.map_eq_some_iff.mp h'
    obtain ⟨scan, chars''⟩ := r
    cases heq
    exact ⟨chars'', hr⟩
  · rintro ⟨chars', hrun'⟩
    rw [hrun']
    exact ⟨chars ++ chars', rfl⟩

/-- A text has at least a twelfth of the bytes that spell it. -/
theorem length_le_of_decode {text : String} (h : decode body = some text) :
  body.length ≤ 12 * text.length
  := by
  obtain ⟨chars, hrun, rfl⟩ := decode_eq_some_iff.mp h
  have hle := Scan.length_le_of_run hrun
  simpa [Scan.rank] using hle

end Json
