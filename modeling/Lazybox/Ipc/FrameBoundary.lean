import Lazybox.Ipc.Socket

/-!
# Where a stream of frames ends

A stream of frames may end between two frames, within a header or within a payload.  The reader
takes an end within a payload for an error, also when it throws that payload away, and the end
between two frames for the end of the connection.  An end within a header it takes for the end of
the connection as well.
-/

namespace Lazybox

/-- The loop of the reader stops at this error. -/
def FrameError.Stops {ε δ : Type} : FrameError ε δ → Prop
  | .oversizedSkipped _ _ => False
  | _ => True

namespace Socket

variable {M ε δ : Type} (codec : Codec M ε δ)

/-- The length of the first frame of a stream, its header included. -/
def frameLength (stream : List UInt8) : ℕ := 4 + fromBeBytes (stream.take 4)

def firstPayload (stream : List UInt8) : List UInt8 :=
  (stream.drop 4).take (fromBeBytes (stream.take 4))

/-- The stream ends within its first frame. -/
def Truncated (stream : List UInt8) : Prop :=
  stream ≠ [] ∧ stream.length < frameLength stream

/-- The payloads of the frames of a stream by their lengths, and the bytes that follow the last
whole frame. -/
def cutFrames (stream : List UInt8) : List (List UInt8) × List UInt8 :=
  if _h : frameLength stream ≤ stream.length then
    let later := cutFrames (stream.drop (frameLength stream))
    (firstPayload stream :: later.1, later.2)
  else
    ([], stream)
termination_by stream.length
decreasing_by
  rw [List.length_drop]
  unfold frameLength at _h ⊢
  omega

/-- The reader goes on after a frame with this payload. -/
def passes (maxFrameBytes : ℕ) (payload : List UInt8) : Bool :=
  if maxFrameBytes < payload.length then
    payload.length ≤ MAX_FRAME_BYTES
  else
    match codec.decode payload with
    | .error _ => false
    | .ok (_, consumed) => consumed == payload.length

/-- What ends the loop of the reader: an error, or nothing at what it takes for a clean end. -/
def readerEnd (src : Source UInt8) (maxFrameBytes : ℕ) : Option (FrameError ε δ) :=
  match _h : readFrameLimited codec src maxFrameBytes with
  | (.ok (some _), rest) => readerEnd rest maxFrameBytes
  | (.ok none, _) => none
  | (.error (.oversizedSkipped _ _), rest) => readerEnd rest maxFrameBytes
  | (.error e, _) => some e
termination_by src.stream.length
decreasing_by
  · apply readFrameLimited_length_lt codec _ _h
    simp
  · apply readFrameLimited_length_lt codec _ _h
    simp

/-! ### One frame -/

variable {src : Source UInt8}

/-- Discarding more than there is fails, however the stream is read. -/
theorem discardExact_of_lt {remaining : ℕ} (h : src.stream.length < remaining) :
  discardExact src remaining = (.error .io : Except (FrameError ε δ) _)
  := by
  induction remaining using Nat.strongRecOn generalizing src with
  | ind remaining ih =>
    have happend := congrArg List.length (src.read_append (min remaining 8192))
    rw [List.length_append] at happend
    rw [discardExact, if_neg (by omega)]
    split
    · apply ih _ (by omega)
      omega
    · rfl

theorem readFrameLimited_of_lt (h : src.stream.length < 4) (maxFrameBytes : ℕ) :
  readFrameLimited codec src maxFrameBytes = (.ok none, .exhausted)
  := by
  rw [readFrameLimited, src.readExact_of_lt h]

/-- An end within a payload is an error, whether the payload is kept or thrown away. -/
theorem readFrameLimited_truncated (hheader : 4 ≤ src.stream.length) (h : Truncated src.stream)
    (maxFrameBytes : ℕ) :
  ∃ e rest, readFrameLimited codec src maxFrameBytes = (.error e, rest) ∧ e.Stops
  := by
  obtain ⟨rest, hread, hrest⟩ := src.readExact_of_le hheader
  have hshort : rest.stream.length < fromBeBytes (src.stream.take 4) := by
    have hlen := h.2
    rw [frameLength] at hlen
    rw [hrest, List.length_drop]
    omega
  rw [readFrameLimited, hread]
  dsimp only
  split
  · split
    · exact ⟨_, _, rfl, trivial⟩
    · rw [discardExact_of_lt hshort]
      exact ⟨_, _, rfl, trivial⟩
  · rw [rest.readExact_of_lt hshort]
    exact ⟨_, _, rfl, trivial⟩

/-- A whole frame is left behind, or the reader stops at it. -/
theorem readFrameLimited_whole (h : frameLength src.stream ≤ src.stream.length)
    (maxFrameBytes : ℕ) :
  if passes codec maxFrameBytes (firstPayload src.stream) then
    ∃ result rest, readFrameLimited codec src maxFrameBytes = (result, rest)
      ∧ rest.stream = src.stream.drop (frameLength src.stream)
      ∧ ((∃ msg, result = .ok (some msg)) ∨ ∃ len max, result = .error (.oversizedSkipped len max))
  else
    ∃ e rest, readFrameLimited codec src maxFrameBytes = (.error e, rest) ∧ e.Stops
  := by
  have hheader : 4 ≤ src.stream.length := (Nat.le_add_right 4 _).trans h
  obtain ⟨src', hread, hsrc'⟩ := src.readExact_of_le hheader
  have hpayload : (firstPayload src.stream).length = fromBeBytes (src.stream.take 4) := by
    rw [frameLength] at h
    rw [firstPayload, List.length_take_of_le]
    rw [List.length_drop]
    omega
  have hsplit : src'.stream
      = firstPayload src.stream ++ src.stream.drop (frameLength src.stream) := by
    rw [hsrc', frameLength, ← List.drop_drop, firstPayload, List.take_append_drop]
  rw [readFrameLimited, hread]
  dsimp only
  rw [← hpayload, passes]
  by_cases hlimit : maxFrameBytes < (firstPayload src.stream).length
  · rw [if_pos hlimit, if_pos hlimit]
    by_cases hmax : MAX_FRAME_BYTES < (firstPayload src.stream).length
    · rw [if_pos hmax, if_neg (by simpa using hmax)]
      exact ⟨_, _, rfl, trivial⟩
    · obtain ⟨rest, hdiscard, hrest⟩ := discardExact_append (ε := ε) (δ := δ) hsplit
      rw [if_neg hmax, if_pos (by simpa using hmax), hdiscard]
      exact ⟨_, _, rfl, hrest, .inr ⟨_, _, rfl⟩⟩
  · obtain ⟨rest, hbody, hrest⟩ := Source.readExact_append hsplit
    rw [if_neg hlimit, if_neg hlimit, hbody]
    dsimp only
    cases hdecode : codec.decode (firstPayload src.stream) with
    | error e =>
      rw [if_neg (by simp)]
      exact ⟨_, _, rfl, trivial⟩
    | ok decoded =>
      obtain ⟨msg, consumed⟩ := decoded
      dsimp only
      by_cases hconsumed : consumed = (firstPayload src.stream).length
      · rw [if_pos (by simpa using hconsumed), if_neg (by simpa using hconsumed)]
        exact ⟨_, _, rfl, hrest, .inl ⟨_, rfl⟩⟩
      · rw [if_neg (by simpa using hconsumed), if_pos hconsumed]
        exact ⟨_, _, rfl, trivial⟩

/-! ### The loop of the reader -/

variable {maxFrameBytes : ℕ} {rest : Source UInt8}

theorem readerEnd_rest
    {result : Except (FrameError ε δ) (Option M)}
    (h : readFrameLimited codec src maxFrameBytes = (result, rest))
    (hresult : (∃ msg, result = .ok (some msg))
      ∨ ∃ len max, result = .error (.oversizedSkipped len max)) :
  readerEnd codec src maxFrameBytes = readerEnd codec rest maxFrameBytes
  := by
  rw [readerEnd]
  obtain ⟨msg, rfl⟩ | ⟨len, max, rfl⟩ := hresult
  · split
    · next hframe =>
        cases h.symm.trans hframe
        rfl
    · next hframe => cases h.symm.trans hframe
    · next hframe => cases h.symm.trans hframe
    · next hframe => cases h.symm.trans hframe
  · split
    · next hframe => cases h.symm.trans hframe
    · next hframe => cases h.symm.trans hframe
    · next hframe =>
        cases h.symm.trans hframe
        rfl
    · next hother hframe =>
        cases h.symm.trans hframe
        exact absurd rfl (hother _ _)

theorem readerEnd_stops {e : FrameError ε δ}
    (h : readFrameLimited codec src maxFrameBytes = (.error e, rest)) (he : e.Stops) :
  readerEnd codec src maxFrameBytes = some e
  := by
  rw [readerEnd]
  split
  · next hframe => cases h.symm.trans hframe
  · next hframe => cases h.symm.trans hframe
  · next hframe =>
      cases h.symm.trans hframe
      cases he
  · next hframe =>
      cases h.symm.trans hframe
      rfl

theorem readerEnd_none (h : readFrameLimited codec src maxFrameBytes = (.ok none, rest)) :
  readerEnd codec src maxFrameBytes = none
  := by
  rw [readerEnd]
  split
  · next hframe => cases h.symm.trans hframe
  · rfl
  · next hframe => cases h.symm.trans hframe
  · next hframe => cases h.symm.trans hframe

/-- The loop ends as at a clean end when no frame stops it and fewer bytes than a header follow the
last one. -/
theorem readerEnd_eq_none_iff (src : Source UInt8) (maxFrameBytes : ℕ) :
  readerEnd codec src maxFrameBytes = none
    ↔ (∀ payload ∈ (cutFrames src.stream).1, passes codec maxFrameBytes payload = true)
      ∧ (cutFrames src.stream).2.length < 4
  := by
  induction hn : src.stream.length using Nat.strongRecOn generalizing src with
  | ind n ih =>
    rw [cutFrames]
    by_cases hwhole : frameLength src.stream ≤ src.stream.length
    · have hread := readFrameLimited_whole codec hwhole maxFrameBytes
      rw [dif_pos hwhole]
      cases hpasses : passes codec maxFrameBytes (firstPayload src.stream) with
      | true =>
        rw [hpasses, if_pos rfl] at hread
        obtain ⟨result, rest, hframe, hrest, hresult⟩ := hread
        have hshorter : rest.stream.length < n := by
          rw [hrest, List.length_drop]
          unfold frameLength at hwhole ⊢
          omega
        rw [readerEnd_rest codec hframe hresult, ih _ hshorter rest rfl, hrest,
          List.forall_mem_cons, hpasses]
        simp
      | false =>
        rw [hpasses, if_neg Bool.false_ne_true] at hread
        obtain ⟨e, rest, hframe, he⟩ := hread
        rw [readerEnd_stops codec hframe he, List.forall_mem_cons, hpasses]
        simp
    · rw [dif_neg hwhole]
      obtain hheader | hheader := Nat.lt_or_ge src.stream.length 4
      · rw [readerEnd_none codec (readFrameLimited_of_lt codec hheader maxFrameBytes)]
        simpa using hheader
      · have htruncated : Truncated src.stream := by
          refine ⟨?_, Nat.lt_of_not_le hwhole⟩
          rw [← List.length_pos_iff]
          omega
        obtain ⟨e, rest, hframe, he⟩ :=
          readFrameLimited_truncated codec hheader htruncated maxFrameBytes
        rw [readerEnd_stops codec hframe he]
        simpa using hheader

/-- A call that starts where a stream ends, or with a header before it, tells an end between frames
from one within a frame. -/
theorem readFrameLimited_end (h : src.stream = [] ∨ 4 ≤ src.stream.length) (maxFrameBytes : ℕ) :
  ((readFrameLimited codec src maxFrameBytes).1 = .ok none → src.stream = [])
    ∧ (Truncated src.stream → ∃ e, (readFrameLimited codec src maxFrameBytes).1 = .error e)
  := by
  obtain hnil | hheader := h
  · exact ⟨fun _ => hnil, fun htruncated => absurd hnil htruncated.1⟩
  · obtain hwhole | hshort := le_or_gt (frameLength src.stream) src.stream.length
    · refine ⟨fun hnone => ?_, fun htruncated => absurd hwhole (Nat.not_le.mpr htruncated.2)⟩
      have hread := readFrameLimited_whole codec hwhole maxFrameBytes
      split at hread
      · obtain ⟨result, rest, hframe, -, hresult⟩ := hread
        obtain ⟨msg, rfl⟩ | ⟨len, max, rfl⟩ := hresult
        · rw [hframe] at hnone
          cases hnone
        · rw [hframe] at hnone
          cases hnone
      · obtain ⟨e, rest, hframe, -⟩ := hread
        rw [hframe] at hnone
        cases hnone
    · have htruncated : Truncated src.stream := by
        refine ⟨?_, hshort⟩
        rw [← List.length_pos_iff]
        omega
      obtain ⟨e, rest, hframe, -⟩ :=
        readFrameLimited_truncated codec hheader htruncated maxFrameBytes
      rw [hframe]
      exact ⟨nofun, fun _ => ⟨e, rfl⟩⟩

/-- Whatever the reads.  One call: it takes only the end of the stream for a clean end, and fails
at a stream that ends within a frame, exactly when the stream does not end within the header.  The
loop: it takes only a whole number of frames for a clean end exactly when a frame stops it or the
stream does not end within a header. -/
theorem truncation_is_error_iff (src : Source UInt8) (maxFrameBytes : ℕ) :
  (((readFrameLimited codec src maxFrameBytes).1 = .ok none → src.stream = [])
        ∧ (Truncated src.stream → ∃ e, (readFrameLimited codec src maxFrameBytes).1 = .error e)
      ↔ ¬ (1 ≤ src.stream.length ∧ src.stream.length ≤ 3))
    ∧ ((readerEnd codec src maxFrameBytes = none → (cutFrames src.stream).2 = [])
      ↔ (∃ payload ∈ (cutFrames src.stream).1, passes codec maxFrameBytes payload = false)
        ∨ ¬ (1 ≤ (cutFrames src.stream).2.length ∧ (cutFrames src.stream).2.length ≤ 3))
  := by
  constructor
  · constructor
    · rintro ⟨hnone, -⟩ ⟨hpos, hlt⟩
      rw [readFrameLimited_of_lt codec (by omega) maxFrameBytes] at hnone
      rw [hnone rfl] at hpos
      cases hpos
    · intro hlength
      apply readFrameLimited_end
      rw [← List.length_eq_zero_iff]
      omega
  · rw [readerEnd_eq_none_iff, ← List.length_eq_zero_iff]
    constructor
    · intro hclean
      by_cases hpass : ∀ payload ∈ (cutFrames src.stream).1,
          passes codec maxFrameBytes payload = true
      · right
        rintro ⟨hpos, hlt⟩
        have := hclean ⟨hpass, by omega⟩
        omega
      · left
        push Not at hpass
        simpa using hpass
    · rintro (⟨payload, hmem, hstops⟩ | hlength) ⟨hpass, hlt⟩
      · rw [hpass payload hmem] at hstops
        cases hstops
      · omega

/-- One frame and two bytes of the next header: the call after the frame takes the two bytes for a
clean end, and so does the loop. -/
theorem truncation_is_error_header :
  let src : Source UInt8 := ⟨[[0], [0, 0, 1, 7, 0], [0]], by decide⟩
  let cut : Source UInt8 := ⟨[[0], [0]], by decide⟩
  (readFrameLimited plainCodec cut 16).1 = .ok none
    ∧ Truncated cut.stream
    ∧ cutFrames src.stream = ([[7]], cut.stream)
    ∧ readerEnd plainCodec src 16 = none
  := by
  intro src cut
  have hcut : cutFrames src.stream = ([[7]], cut.stream) := by
    rw [cutFrames, dif_pos (by decide), cutFrames, dif_neg (by decide)]
    rfl
  refine ⟨?_, ?_, hcut, ?_⟩
  · rw [readFrameLimited_of_lt plainCodec (by decide)]
  · exact ⟨by decide, by decide⟩
  · rw [readerEnd_eq_none_iff, hcut]
    exact ⟨by decide, by decide⟩

end Socket

end Lazybox
