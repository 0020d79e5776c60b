import Lazybox.Proxy.UsageNumber
import Lazybox.Proxy.UsageNesting

/-!
# The tokens of a response

Within a token, the parser knows the containers that are open and what was read of the token.  Here
the bytes of one token are followed from the state before it to the state after it, which is that of
`UsageJson.tokenStep`.

A string is read in segments.  A segment ends at the first place between two characters where it is
long enough, which is never more than twelve bytes too late.
-/

namespace Lazybox

open Json

namespace UsageJson

variable {ν : Type} (serde : SerdeJson ν)

/-- The same state with another token pending. -/
def withToken
    (s : UsageJson ν) (token : List UInt8) (number : Option Number) (oversized : Bool) :
    UsageJson ν :=
  { s with token := token, number := number, oversizedNumber := oversized }

/-- A value does not depend on the token that spells it. -/
theorem value_withToken (s : UsageJson ν) (token : List UInt8) (number : Option Number)
    (oversized : Bool) (value : Value ν) :
  (s.withToken token number oversized).value value
    = (s.value value).withToken token number oversized
  := by
  obtain ⟨stack, _, _, _, _, _, _, _, root⟩ := s
  cases stack with
  | nil => cases root <;> rfl
  | cons frame frames =>
    obtain ⟨_, expect, _, _, _⟩ := frame
    cases expect <;> rfl

theorem scalar_withToken (s : UsageJson ν) (token : List UInt8) (number : Option Number)
    (oversized : Bool) (value : Value ν) :
  (s.withToken token number oversized).scalar value
    = (s.scalar value).withToken token number oversized
  := by
  have hvalue := value_withToken s token number oversized value
  obtain ⟨stack, _, _, _, segmented, _, _, _, _⟩ := s
  cases stack with
  | nil => exact hvalue
  | cons frame frames =>
    obtain ⟨_, expect, _, _, _⟩ := frame
    cases expect with
    | keyOrEnd => cases value <;> cases segmented <;> rfl
    | key => cases value <;> cases segmented <;> rfl
    | _ => exact hvalue

/-! ### Segments of a string -/

/-- What was read of a string: whole segments that were checked, and a segment that is not
complete. -/
structure Cut (done tail : List UInt8) : Prop where
  whole : (decode done).isSome
  long : done = [] ∨ STRING_SEGMENT ≤ done.length + 1
  short : ∀ scan chars, Scan.boundary.run tail = some (scan, chars) →
    tail.length + 1 < STRING_SEGMENT + scan.rank

theorem run_done {done : List UInt8} (h : (decode done).isSome) (tail : List UInt8) :
  Scan.boundary.run (done ++ tail) = none ↔ Scan.boundary.run tail = none
  := by
  obtain ⟨chars, hrun⟩ := decode_isSome_iff.mp h
  rw [Scan.run_append, hrun, Option.bind_some, Option.map_eq_none_iff]

variable {body : List UInt8}

/-- After a whole string the next byte does not stand for itself. -/
theorem escaped_of_decode (h : (decode body).isSome) :
  Scan.escaped body = false
  := by
  obtain ⟨chars, hrun⟩ := decode_isSome_iff.mp h
  exact (Scan.escapes_run hrun).symm

namespace Cut

variable {done tail : List UInt8}

theorem nil : Cut [] [] where
  whole := rfl
  long := .inl rfl
  short := by
    intro scan chars h
    cases h
    decide

/-- A segment that is not ended here was not long enough, or is within a character. -/
theorem extend (h : Cut done tail) (byte : UInt8)
    (hkeep : (decode (tail ++ [byte])).isSome → tail.length + 2 < STRING_SEGMENT) :
  Cut done (tail ++ [byte])
  where
  whole := h.whole
  long := h.long
  short := by
    intro scan chars hrun
    have hrun' := hrun
    rw [Scan.run_concat] at hrun'
    obtain ⟨r, hr, hstep⟩ := Option.bind_eq_some_iff.mp hrun'
    obtain ⟨r', hr', heq⟩ := Option.map_eq_some_iff.mp hstep
    cases heq
    have hshort := h.short r.1 r.2 hr
    rw [List.length_append, List.length_singleton]
    obtain ⟨hboundary, -⟩ | ⟨hrank, -⟩ := (Scan.step_stepped hr').progress
    · rw [hboundary] at hrun
      have := hkeep (decode_isSome_iff.mpr ⟨_, hrun⟩)
      omega
    · omega

/-- A segment that is ended here is long enough. -/
theorem full (h : Cut done tail) (byte : UInt8) (hlong : STRING_SEGMENT ≤ tail.length + 2)
    (hwhole : (decode (tail ++ [byte])).isSome) :
  Cut (done ++ (tail ++ [byte])) []
  where
  whole := (decode_append_isSome h.whole).mpr hwhole
  long := by
    right
    rw [List.length_append, List.length_append, List.length_singleton]
    omega
  short := nil.short

/-- A segment that is too long is no part of a string. -/
theorem run_eq_none
    (h : Cut done tail) (byte : UInt8) (hlong : STRING_SEGMENT + 12 < tail.length + 2) :
  Scan.boundary.run (done ++ tail ++ [byte]) = none
  := by
  rw [List.append_assoc, run_done h.whole, Scan.run_concat]
  cases hrun : Scan.boundary.run tail with
  | none => rfl
  | some r =>
    have hshort := h.short r.1 r.2 hrun
    have hrank := r.1.rank_le
    omega

/-- A string that is too long was cut. -/
theorem overlong_eq (h : Cut done tail) (body : StringBody) (hbody : body.val = done ++ tail) :
  overlong body = !done.isEmpty
  := by
  rw [overlong, hbody]
  obtain rfl | hlong := h.long
  · have hwhole := body.property
    rw [hbody] at hwhole
    obtain ⟨chars, hrun⟩ := decode_isSome_iff.mp hwhole
    have hshort : tail.length + 1 < STRING_SEGMENT := h.short _ _ hrun
    simpa using hshort
  · cases done with
    | nil => exact absurd hlong (by decide)
    | cons byte done =>
      rw [List.isEmpty_cons, Bool.not_false, decide_eq_true_iff, List.length_append]
      omega

end Cut

/-! ### Strings -/

variable {stack : List (Frame ν)} {root : Option (Value ν)}

/-- The parser is within a string, of which it read the bytes. -/
inductive InString (stack : List (Frame ν)) (root : Option (Value ν)) :
    List UInt8 → UsageJson ν → Prop where
  | cut {done tail : List UInt8} (cut : Cut done tail) :
      InString stack root (done ++ tail)
        { between stack root with
          token := 0x22 :: tail
          string := true
          escaped := Scan.escaped (done ++ tail)
          segmented := !done.isEmpty }

theorem InString.open :
  InString stack root [] ((between stack root).push serde 0x22)
  := .cut Cut.nil

variable {byte : UInt8} {s : UsageJson ν}

/-- A byte that does not end the string goes on with it, unless no string goes on like this. -/
theorem InString.push (hserde : serde.Decides) (h : InString stack root body s)
    (hopen : ¬ (byte = 0x22 ∧ Scan.escaped body = false)) :
  InString stack root (body ++ [byte]) (s.push serde byte)
    ∨ Scan.boundary.run (body ++ [byte]) = none ∧ (s.push serde byte).invalid = true
  := by
  obtain @⟨done, tail, cut⟩ := h
  have hescaped := Scan.escaped_concat (done ++ tail) byte
  have hdecode := hserde.string_string (tail ++ [byte])
  have hlength : (0x22 :: tail ++ [byte]).length = tail.length + 2 := by simp
  have happend : done ++ tail ++ [byte] = done ++ (tail ++ [byte]) := List.append_assoc _ _ _
  have hkept : Cut done (tail ++ [byte]) → InString stack root (done ++ tail ++ [byte])
      { between stack root with
        token := 0x22 :: tail ++ [byte]
        string := true
        escaped := Scan.escaped (done ++ tail ++ [byte])
        segmented := !done.isEmpty } := by
    intro hcut
    rw [happend]
    exact .cut hcut
  change InString stack root _ (UsageJson.pushString serde _ byte)
    ∨ _ ∧ (UsageJson.pushString serde _ byte).invalid = true
  simp only [pushString]
  rw [if_neg hopen, ← hescaped]
  split
  · next hlong =>
      rw [hlength] at hlong
      split
      · next hvalid =>
          left
          have hcut := cut.full byte hlong.1 (by rwa [← hdecode])
          have hwhole : done ++ tail ++ [byte] = done ++ (tail ++ [byte]) ++ [] := by simp
          have hsegmented : (done ++ (tail ++ [byte])).isEmpty = false := by simp
          have hstate := @InString.cut ν stack root _ _ hcut
          rw [hsegmented] at hstate
          rw [hwhole]
          exact hstate
      · next hinvalid =>
          split
          · next hfault =>
              right
              rw [hlength] at hfault
              exact ⟨cut.run_eq_none byte hfault, rfl⟩
          · left
            apply hkept
            apply cut.extend byte
            intro hwhole
            exact absurd (by rwa [← hdecode] at hwhole) hinvalid
  · next hshort =>
      left
      apply hkept
      apply cut.extend byte
      intro hwhole
      have hboundary := escaped_of_decode ((decode_append_isSome cut.whole).mpr hwhole)
      rw [← happend] at hboundary
      by_contra hlong
      exact hshort ⟨by rw [hlength]; omega, hboundary⟩

/-- The state once the token of a string is cleared. -/
def cleared (s : UsageJson ν) : UsageJson ν := { s with token := [], segmented := false }

theorem cleared_eq (h : s.token = []) :
  s.cleared = { s with segmented := false }
  := by
  rw [cleared, ← h]

/-- A quote that does not stand for itself: the segment is decoded. -/
theorem pushString_quote (s : UsageJson ν) (h : s.escaped = false) :
  s.pushString serde 0x22
    = match serde.fromSliceValue (s.token ++ [0x22]) with
      | some value =>
          (({ s with token := s.token ++ [0x22], string := false }).scalar
            (if s.segmented then .null else value)).cleared
      | none => ({ s with string := false, invalid := true }).cleared
  := by
  rw [pushString, if_pos ⟨rfl, h⟩]
  dsimp only
  cases serde.fromSliceValue (s.token ++ [0x22]) <;> rfl

/-- A quote that ends no string is a fault. -/
theorem InString.close_invalid (hserde : serde.Decides) (h : InString stack root body s)
    (hescaped : Scan.escaped body = false) (hbody : ¬ (decode body).isSome) :
  (s.push serde 0x22).invalid = true
  := by
  obtain @⟨done, tail, cut⟩ := h
  rw [decode_append_isSome cut.whole, Option.not_isSome_iff_eq_none] at hbody
  have hdecode : serde.fromSliceValue (0x22 :: tail ++ [0x22]) = none := by
    have hvalue := hserde.value_string tail
    rwa [hbody] at hvalue
  change (UsageJson.pushString serde _ 0x22).invalid = true
  rw [pushString_quote serde _ hescaped]
  dsimp only
  rw [hdecode]
  rfl

/-- A quote that ends a string. -/
theorem InString.close
    (hserde : serde.Decides) (body : StringBody) (h : InString stack root body.val s) :
  s.push serde 0x22 = (between stack root).tokenStep serde (.string body)
  := by
  have hescaped := escaped_of_decode body.property
  have hdecoded := body.decode_val
  generalize hbody : body.val = bytes at h hescaped hdecoded
  obtain @⟨done, tail, cut⟩ := h
  have hoverlong := cut.overlong_eq body hbody
  obtain ⟨text, htext⟩ := Option.isSome_iff_exists.mp
    ((decode_append_isSome cut.whole).mp (Option.isSome_iff_exists.mpr ⟨_, hdecoded⟩))
  have hdecode : serde.fromSliceValue (0x22 :: tail ++ [0x22]) = some (.string text) := by
    have hvalue := hserde.value_string tail
    rwa [htext] at hvalue
  -- a string that was never cut is its own last segment
  have hvalue : (if !done.isEmpty then .null else .string text : Value ν) = stringValue body := by
    rw [stringValue, hoverlong]
    cases done with
    | nil =>
      rw [List.nil_append, htext] at hdecoded
      rw [Option.some.inj hdecoded]
    | cons byte done => rfl
  let s' : UsageJson ν := { between stack root with segmented := !done.isEmpty }
  let token : List UInt8 := 0x22 :: tail ++ [0x22]
  have hscalar := fun token => scalar_withToken s' token none false (stringValue body)
  change UsageJson.pushString serde _ 0x22 = _
  rw [pushString_quote serde _ hescaped]
  dsimp only
  rw [hdecode, tokenStep, hoverlong, hescaped]
  dsimp only
  rw [hvalue]
  calc
    _ = ((s'.withToken token none false).scalar (stringValue body)).cleared := rfl
    _ = ((s'.withToken [] none false).scalar (stringValue body)).cleared := by
        rw [hscalar, hscalar]
        rfl
    _ = _ := cleared_eq (congrArg UsageJson.token (hscalar []))

/-- The bytes of a string, or of the beginning of one, are all read. -/
theorem InString.foldl
    (hserde : serde.Decides) (body : List UInt8) (h : Scan.boundary.run body ≠ none) :
  InString stack root body
    (body.foldl (UsageJson.push serde) ((between stack root).push serde 0x22))
  := by
  induction body using List.reverseRecOn with
  | nil => exact .open serde
  | append_singleton body byte ih =>
    rw [Option.ne_none_iff_exists'] at h
    obtain ⟨r', hr'⟩ := h
    have hrun := hr'
    rw [Scan.run_concat] at hrun
    obtain ⟨r, hr, hstep⟩ := Option.bind_eq_some_iff.mp hrun
    obtain ⟨_, hstep, -⟩ := Option.map_eq_some_iff.mp hstep
    have hopen : ¬ (byte = 0x22 ∧ Scan.escaped body = false) := by
      rintro ⟨hbyte, hescaped⟩
      rw [← Scan.escapes_run hr, (Scan.step_stepped hstep).quote hbyte] at hescaped
      cases hescaped
    rw [List.foldl_append]
    obtain h | ⟨hdead, -⟩ := (ih (by rw [hr]; simp)).push serde hserde hopen
    · exact h
    · rw [hdead] at hr'
      cases hr'

/-- The bytes of a string make the step of its token. -/
theorem foldl_string (hserde : serde.Decides) (body : StringBody) :
  (quoted body.val).foldl (push serde) (between stack root)
    = (between stack root).tokenStep serde (.string body)
  := by
  obtain ⟨chars, hrun⟩ := decode_isSome_iff.mp body.property
  rw [quoted, List.foldl_cons, List.foldl_append]
  apply InString.close serde hserde body
  apply InString.foldl serde hserde
  rw [hrun]
  simp

/-! ### Numbers and literals -/

/-- The parser is within a number or a literal, of which it read the bytes. -/
inductive Pending (stack : List (Frame ν)) (root : Option (Value ν)) :
    List UInt8 → UsageJson ν → Prop where
  | number {first : UInt8} {rest : List UInt8} {number : Number}
      (digit : first = 0x2D ∨ Number.isDigit first = true)
      (run : rest.foldlM Number.next (Number.start first) = some number) :
      Pending stack root (first :: rest)
        ((between stack root).withToken ((first :: rest).take 128) (some number)
          (128 < (first :: rest).length))
  | literal {first : UInt8} {rest : List UInt8}
      (letter : first = 0x74 ∨ first = 0x66 ∨ first = 0x6E)
      (plain : ∀ byte ∈ rest, terminates byte = false) (short : (first :: rest).length ≤ 128) :
      Pending stack root (first :: rest) ((between stack root).withToken (first :: rest) none false)

/-- A sign or a digit begins a number. -/
theorem pushBetween_digit (s : UsageJson ν) (h : byte = 0x2D ∨ Number.isDigit byte = true) :
  s.pushBetween byte
    = { s with number := some (Number.start byte), token := s.token ++ [byte] }
  := by
  have hall : ∀ other ∈ [0x20, 0x09, 0x0D, 0x0A, 0x22, 0x7B, 0x5B, 0x7D, 0x5D, 0x3A, 0x2C],
      ¬ (other = 0x2D ∨ Number.isDigit other = true) := by
    simp [Number.isDigit]
  have hother : ∀ other ∈ [0x20, 0x09, 0x0D, 0x0A, 0x22, 0x7B, 0x5B, 0x7D, 0x5D, 0x3A, 0x2C],
      byte ≠ other := by
    rintro _ hother rfl
    exact hall byte hother h
  simp only [List.forall_mem_cons] at hother
  simp [pushBetween, hother, h, Number.start]

/-- What begins a literal begins no number. -/
theorem not_digit_of_letter (h : byte = 0x74 ∨ byte = 0x66 ∨ byte = 0x6E) :
  ¬ (byte = 0x2D ∨ Number.isDigit byte = true)
  := by
  obtain rfl | rfl | rfl := h <;> decide

variable {first : UInt8}

theorem Pending.open_number (h : first = 0x2D ∨ Number.isDigit first = true) :
  Pending stack root [first] ((between stack root).push serde first)
  := by
  have hnumber : Pending stack root [first] _ := .number h rfl
  change Pending stack root [first] ((between stack root).pushBetween first)
  rw [pushBetween_digit _ h]
  exact hnumber

theorem Pending.open_literal (h : first = 0x74 ∨ first = 0x66 ∨ first = 0x6E) :
  Pending stack root [first] ((between stack root).push serde first)
  := by
  have hliteral : Pending stack root [first] _ := .literal h (by simp) (by simp)
  obtain rfl | rfl | rfl := h <;> exact hliteral

variable {number : Number}

variable {number' : Number}

/-- What a number goes on with does not end it. -/
theorem terminates_of_next (h : number.next byte = some number') :
  terminates byte = false
  := by
  rw [← Bool.not_eq_true]
  intro hterminates
  simp only [terminates, Bool.or_eq_true, decide_eq_true_iff] at hterminates
  rcases hterminates with ((((((rfl | rfl) | rfl) | rfl) | rfl) | rfl) | rfl) | rfl <;>
    cases number <;> cases h

variable {text : List UInt8}

/-- Within a number or a literal, a byte ends it or goes on with it. -/
theorem Pending.push_eq (h : Pending stack root text s) (byte : UInt8) :
  s.push serde byte
    = if terminates byte then (s.completeToken serde).pushBetween byte else s.extendToken byte
  := by
  cases h with
  | number digit run =>
    rw [push]
    simp [withToken, between, default]
  | literal letter plain short =>
    rw [push]
    simp [withToken, between, default]

variable {rest : List UInt8}

/-- What is kept of a number that goes on: its first bytes, and whether there are more. -/
theorem extendToken_number (digit : first = 0x2D ∨ Number.isDigit first = true)
    (run : rest.foldlM Number.next (Number.start first) = some number)
    (hnext : number.next byte = some number') :
  Pending stack root (first :: rest ++ [byte])
    (((between stack root).withToken ((first :: rest).take 128) (some number)
      (128 < (first :: rest).length)).extendToken byte)
  := by
  have hrun : (rest ++ [byte]).foldlM Number.next (Number.start first) = some number' := by
    rw [List.foldlM_append, run]
    simpa using hnext
  have hnumber := @Pending.number ν stack root first (rest ++ [byte]) number' digit hrun
  rw [← List.cons_append] at hnumber
  have hlength : ((first :: rest).take 128).length = min 128 (first :: rest).length :=
    List.length_take
  rw [extendToken]
  simp only [withToken, hnext]
  by_cases hshort : (first :: rest).length < 128
  · rw [if_pos (by omega), List.take_of_length_le (by omega)]
    rw [List.take_of_length_le (by rw [List.length_append, List.length_singleton]; omega)]
      at hnumber
    have hsize : decide (128 < (first :: rest).length)
        = decide (128 < (first :: rest ++ [byte]).length) := by
      rw [decide_eq_decide, List.length_append, List.length_singleton]
      omega
    rw [hsize]
    exact hnumber
  · rw [if_neg (by omega)]
    rw [List.take_append_of_le_length (by omega)] at hnumber
    have hsize : decide (128 < (first :: rest ++ [byte]).length) = true := by
      rw [decide_eq_true_iff, List.length_append, List.length_singleton]
      omega
    rw [hsize] at hnumber
    exact hnumber

theorem extendToken_of_none (s : UsageJson ν) (h : s.number = none) (byte : UInt8) :
  s.extendToken byte
    = if s.token.length < 128 then { s with token := s.token ++ [byte] }
      else { s with invalid := true }
  := by
  obtain ⟨_, _, _, _, _, number, _, _, _⟩ := s
  cases h
  rfl

theorem extendToken_literal (letter : first = 0x74 ∨ first = 0x66 ∨ first = 0x6E)
    (plain : ∀ byte ∈ rest, terminates byte = false) (hbyte : terminates byte = false)
    (hshort : (first :: rest).length < 128) :
  Pending stack root (first :: rest ++ [byte])
    (((between stack root).withToken (first :: rest) none false).extendToken byte)
  := by
  have hplain : ∀ byte' ∈ rest ++ [byte], terminates byte' = false := by
    simp only [List.forall_mem_append, List.forall_mem_singleton]
    exact ⟨plain, hbyte⟩
  have hlength : (first :: (rest ++ [byte])).length ≤ 128 := by
    rw [← List.cons_append, List.length_append, List.length_singleton]
    omega
  have hliteral := @Pending.literal ν stack root first (rest ++ [byte]) letter hplain hlength
  rw [extendToken_of_none _ rfl]
  change Pending stack root _ (if (first :: rest).length < 128 then _ else _)
  rw [if_pos hshort]
  exact hliteral

/-- A byte that does not end a number or a literal goes on with it, or is a fault. -/
theorem Pending.push (h : Pending stack root text s) (hbyte : terminates byte = false) :
  Pending stack root (text ++ [byte]) (s.push serde byte) ∨ (s.push serde byte).invalid = true
  := by
  rw [h.push_eq, hbyte, if_neg (by simp)]
  cases h with
  | @number first rest number digit run =>
    cases hnext : number.next byte with
    | some number' => exact .inl (extendToken_number digit run hnext)
    | none =>
      right
      rw [extendToken]
      simp only [withToken, hnext]
      split <;> rfl
  | @literal first rest letter plain short =>
    by_cases hshort : (first :: rest).length < 128
    · exact .inl (extendToken_literal letter plain hbyte hshort)
    · right
      rw [extendToken_of_none _ rfl]
      change UsageJson.invalid (if (first :: rest).length < 128 then _ else _) = true
      rw [if_neg hshort]

/-- A byte that goes on with a number is read. -/
theorem Pending.push_number (h : Pending stack root (first :: rest) s)
    (digit : first = 0x2D ∨ Number.isDigit first = true)
    (hrun : rest.foldlM Number.next (Number.start first) = some number)
    (hnext : number.next byte = some number') :
  Pending stack root (first :: rest ++ [byte]) (s.push serde byte)
  := by
  rw [h.push_eq, terminates_of_next hnext, if_neg (by simp)]
  cases h with
  | number digit run =>
    rw [run] at hrun
    cases hrun
    exact extendToken_number digit run hnext
  | literal letter plain short =>
    exact absurd digit (not_digit_of_letter letter)

/-- The bytes of a number are all read. -/
theorem Pending.foldl_number (text : NumberText) :
  Pending stack root text.val (text.val.foldl (UsageJson.push serde) (between stack root))
  := by
  obtain ⟨first, rest, htext, digit, haccepts⟩ := (Number.isNumber_iff text.val).mp text.property
  rw [Number.accepts, Option.any_eq_true] at haccepts
  obtain ⟨number, hrun, -⟩ := haccepts
  rw [htext]
  clear htext
  induction rest using List.reverseRecOn generalizing number with
  | nil => exact .open_number serde digit
  | append_singleton rest byte ih =>
    rw [List.foldlM_append] at hrun
    obtain ⟨number', hrun', hnext⟩ := Option.bind_eq_some_iff.mp hrun
    rw [← List.cons_append, List.foldl_append]
    exact (ih number' hrun').push_number serde digit hrun' (by simpa using hnext)

theorem Pending.push_literal (h : Pending stack root (first :: rest) s)
    (letter : first = 0x74 ∨ first = 0x66 ∨ first = 0x6E) (hbyte : terminates byte = false)
    (hshort : (first :: rest).length < 128) :
  Pending stack root (first :: rest ++ [byte]) (s.push serde byte)
  := by
  rw [h.push_eq, hbyte, if_neg (by simp)]
  cases h with
  | number digit run =>
    exact absurd digit (not_digit_of_letter letter)
  | literal letter plain short => exact extendToken_literal letter plain hbyte hshort

theorem literal_eq_cons (value : Literal) :
  ∃ first rest, value.spelling = first :: rest ∧ (first = 0x74 ∨ first = 0x66 ∨ first = 0x6E)
    ∧ (∀ byte ∈ rest, terminates byte = false) ∧ rest.length < 128
  := by
  cases value with
  | null => exact ⟨_, _, rfl, by decide, by simp [terminates], by decide⟩
  | bool value => cases value <;> exact ⟨_, _, rfl, by decide, by simp [terminates], by decide⟩

/-- The bytes of a literal are all read. -/
theorem Pending.foldl_literal (value : Literal) :
  Pending stack root value.spelling
    (value.spelling.foldl (UsageJson.push serde) (between stack root))
  := by
  obtain ⟨first, rest, hspelling, letter, plain, short⟩ := literal_eq_cons value
  rw [hspelling]
  clear hspelling
  induction rest using List.reverseRecOn with
  | nil => exact .open_literal serde letter
  | append_singleton rest byte ih =>
    rw [List.forall_mem_append, List.forall_mem_singleton] at plain
    rw [List.length_append, List.length_singleton] at short
    rw [← List.cons_append, List.foldl_append]
    exact (ih plain.1 (by omega)).push_literal serde letter plain.2 short

/-- A scalar that is complete, with its token cleared. -/
theorem scalar_cleared (token : List UInt8) (number : Option Number) (oversized : Bool)
    (value : Value ν) :
  (((between stack root).withToken token number oversized).scalar value).withToken [] none false
    = (between stack root).scalar value
  := by
  rw [scalar_withToken]
  exact (scalar_withToken (between stack root) [] none false value).symm

theorem completeToken_number (token : List UInt8) (h : number.complete = true) (oversized : Bool) :
  ((between stack root).withToken token (some number) oversized).completeToken serde
    = (between stack root).scalar
        (if oversized then .null else (serde.fromSliceValue token).getD .null)
  := by
  rw [← scalar_cleared token (some number) oversized, completeToken]
  simp only [withToken, Option.any_some, h]
  cases oversized with
  | true => rfl
  | false => cases serde.fromSliceValue token <;> rfl

theorem completeToken_incomplete
    (token : List UInt8) (h : number.complete = false) (oversized : Bool) :
  (((between stack root).withToken token (some number) oversized).completeToken serde).invalid
    = true
  := by
  rw [completeToken]
  simp only [withToken, Option.any_some, h]
  rfl

theorem completeToken_literal
    {token : List UInt8} {value : Value ν} (h : serde.fromSliceValue token = some value) :
  ((between stack root).withToken token none false).completeToken serde
    = (between stack root).scalar value
  := by
  rw [← scalar_cleared token none false, completeToken]
  simp only [withToken, h]
  rfl

theorem completeToken_fault {token : List UInt8} (h : serde.fromSliceValue token = none) :
  (((between stack root).withToken token none false).completeToken serde).invalid = true
  := by
  rw [completeToken]
  simp only [withToken, h]
  rfl

/-- A number ends as its token. -/
theorem Pending.complete_number (text : NumberText) (h : Pending stack root text.val s) :
  s.completeToken serde = (between stack root).tokenStep serde (.number text)
  := by
  have hnumber := (Number.isNumber_iff text.val).mp text.property
  rw [tokenStep, numberValue]
  generalize text.val = bytes at h hnumber
  obtain ⟨first, rest, rfl, hdigit, haccepts⟩ := hnumber
  cases h with
  | number digit run =>
    rw [Number.accepts, run] at haccepts
    rw [completeToken_number serde _ haccepts]
    by_cases hlong : 128 < (first :: rest).length
    · simp only [hlong, decide_true, if_true]
    · rw [List.take_of_length_le (by omega)]
      simp only [hlong, decide_false, if_false]
      rfl
  | literal letter plain short =>
    exact absurd hdigit (not_digit_of_letter letter)

/-- A literal ends as its token. -/
theorem Pending.complete_literal
    (hserde : serde.Decides) (value : Literal) (h : Pending stack root value.spelling s) :
  s.completeToken serde = (between stack root).tokenStep serde (.literal value)
  := by
  have hvalue : serde.fromSliceValue value.spelling = some (literalValue value) := by
    cases value with
    | null => exact hserde.value_null
    | bool value => exact hserde.value_bool value
  obtain ⟨first, rest, hspelling, letter, -, -⟩ := literal_eq_cons value
  rw [hspelling] at h hvalue
  rw [tokenStep]
  cases h with
  | number digit run => exact absurd digit (not_digit_of_letter letter)
  | literal letter plain short => exact completeToken_literal serde hvalue

/-- Whatever is complete without a fault is a number or a literal. -/
theorem Pending.complete (hserde : serde.Decides) (h : Pending stack root text s)
    (hvalid : (s.completeToken serde).invalid = false) :
  ∃ token : Token, token.spelling = text
    ∧ s.completeToken serde = (between stack root).tokenStep serde token
  := by
  have hpending := h
  cases h with
  | @number first rest number digit run =>
    cases hcomplete : number.complete with
    | false =>
      rw [completeToken_incomplete serde _ hcomplete] at hvalid
      cases hvalid
    | true =>
      have haccepts : (Number.start first).accepts rest = true := by
        rw [Number.accepts, run]
        exact hcomplete
      have hnumber : IsNumber (first :: rest) :=
        (Number.isNumber_iff _).mpr ⟨first, rest, rfl, digit, haccepts⟩
      exact ⟨.number ⟨first :: rest, hnumber⟩, rfl,
        hpending.complete_number serde ⟨first :: rest, hnumber⟩⟩
  | @literal first rest letter plain short =>
    cases hvalue : serde.fromSliceValue (first :: rest) with
    | none =>
      rw [completeToken_fault serde hvalue] at hvalid
      cases hvalid
    | some value =>
      have hspace : ∀ byte ∈ rest, isWhitespace byte = false := by
        intro byte hbyte
        have hplain := plain byte hbyte
        simp only [terminates, Bool.or_eq_false_iff] at hplain
        simp only [isWhitespace, hplain, Bool.or_self]
      obtain ⟨literal, hspelling⟩ := hserde.value_literal first rest value letter hspace hvalue
      rw [hspelling] at hpending
      have hcomplete := hpending.complete_literal serde hserde
      rw [← hspelling] at hcomplete
      exact ⟨.literal literal, hspelling.symm, hcomplete⟩

end UsageJson

end Lazybox
