import Lazybox.Pty.SizeSpans

/-!
# The scrollback on disk

`ScrollbackLog` appends the output of a terminal to a file, and rewrites the file down to its end
when it has grown too long: the end is read, written to another file, and that file is renamed over
the first, after which the handle is opened again.  Every step may fail.  A read that fails reads
nothing, and a handle that is not opened again stays on the file that was replaced.

The file at the path and the file the handle is on are modelled by their contents.
-/

namespace Lazybox.Scrollback

open ReplayRing (NEWLINE replayTail)

/-- What is kept of a stream on disk. -/
def SCROLLBACK_PERSIST_BYTES : ℕ := REPLAY_RING_BYTES

/-- The length past which the file is compacted. -/
def SCROLLBACK_COMPACT_BYTES : ℕ := SCROLLBACK_PERSIST_BYTES * 2

/-! ### The log -/

/-- The file a handle is on: the one at the path, or one that was replaced, with its content. -/
inductive Handle where
  | linked
  | unlinked (content : List UInt8)
deriving DecidableEq, Repr

/-- The log, with the content of the file at its path. -/
structure ScrollbackLog where
  named : List UInt8
  file : Handle
  len : ℕ
deriving DecidableEq, Repr

/-- The steps of a compaction that fail. -/
structure CompactFaults where
  openFails : Bool
  sizeFails : Bool
  seekFails : Bool
  readFails : Bool
  writeFails : Bool
  renameFails : Bool
  reopenFails : Bool
deriving DecidableEq, Repr

/-- The end of the file, from a line boundary on when the file is longer.  Nothing is read when a
step fails. -/
def readScrollbackTail (faults : CompactFaults) (content : List UInt8) (max : ℕ) : List UInt8 :=
  if faults.openFails then []
  else if faults.sizeFails then []
  else
    let start := content.length - max
    if 0 < start && faults.seekFails then []
    else if faults.readFails then []
    else
      let buf := content.drop start
      if 0 < start then
        match buf.findIdx? (· == NEWLINE) with
        | some nl => buf.drop (nl + 1)
        | none => buf
      else buf

namespace ScrollbackLog

/-- The log on a file that has a content, whose size may not be told. -/
def opened (content : List UInt8) (sized : Bool) : ScrollbackLog where
  named := content
  file := .linked
  len := if sized then content.length else 0

/-- Bytes written through the handle. -/
def write (log : ScrollbackLog) (bytes : List UInt8) : ScrollbackLog :=
  match log.file with
  | .linked => { log with named := log.named ++ bytes }
  | .unlinked content => { log with file := .unlinked (content ++ bytes) }

/-- The content of the file the handle is on. -/
def handleContent (log : ScrollbackLog) : List UInt8 :=
  match log.file with
  | .linked => log.named
  | .unlinked content => content

def compact (faults : CompactFaults) (log : ScrollbackLog) : ScrollbackLog :=
  let tail := readScrollbackTail faults log.named SCROLLBACK_PERSIST_BYTES
  if faults.writeFails then log
  else if faults.renameFails then log
  else if faults.reopenFails then
    { log with named := tail, file := .unlinked log.handleContent }
  else ⟨tail, .linked, tail.length⟩

/-- One append: the bytes, after how many of them the write fails if it does, and what fails of a
compaction. -/
structure Append where
  bytes : List UInt8
  writeError : Option ℕ
  faults : CompactFaults

/-- The bytes that get written. -/
def Append.written (op : Append) : List UInt8 :=
  match op.writeError with
  | some n => op.bytes.take n
  | none => op.bytes

def append (log : ScrollbackLog) (op : Append) : ScrollbackLog :=
  match op.writeError with
  | some _ => log.write op.written
  | none =>
      let log := log.write op.written
      let log := { log with len := log.len + op.bytes.length }
      if SCROLLBACK_COMPACT_BYTES < log.len then log.compact op.faults else log

end ScrollbackLog

open ScrollbackLog (Append)

/-- The log beside the stream that was appended to it, what the file began with included. -/
def recorder : Machine (ScrollbackLog × List UInt8) Append Empty where
  step s op := ((s.1.append op, s.2 ++ op.written), [])

/-! ### What is kept -/

/-- The file at the path is an end of the stream, and has its trimmed end. -/
def Persisted (s : ScrollbackLog × List UInt8) : Prop :=
  replayTail SCROLLBACK_PERSIST_BYTES s.2 <:+ s.1.named ∧ s.1.named <:+ s.2

/-- The log as it is opened, beside what the file has. -/
def start (content : List UInt8) (sized : Bool) : ScrollbackLog × List UInt8 :=
  (.opened content sized, content)

/-- After each append without a write error the file has the end of the stream. -/
def NeverLoses (content : List UInt8) (sized : Bool) (ops : List Append) : Prop :=
  ∀ before op after, ops = before ++ op :: after → op.writeError = none →
    Persisted (recorder.final (start content sized) (before ++ [op]))

/-- The read of a compaction fails. -/
def CompactFaults.failsRead (faults : CompactFaults) (content : List UInt8) (max : ℕ) : Bool :=
  faults.openFails || faults.sizeFails || (0 < content.length - max && faults.seekFails)
    || faults.readFails

/-- An append loses nothing: what is written goes to the file at the path, and a compaction that
replaces the file has read its end, unless there is none. -/
def Safe (s : ScrollbackLog × List UInt8) (op : Append) : Prop :=
  (s.1.file = .linked ∨ op.written = [])
    ∧ (op.writeError = none → SCROLLBACK_COMPACT_BYTES < s.1.len + op.bytes.length →
      op.faults.writeFails = false → op.faults.renameFails = false →
        op.faults.failsRead (s.1.named ++ op.written) SCROLLBACK_PERSIST_BYTES = true →
          replayTail SCROLLBACK_PERSIST_BYTES (s.1.named ++ op.written) = [])

/-! ### Trimmed ends -/

variable {stream : List UInt8}

variable {cap : ℕ}

theorem replayTail_of_le (h : stream.length ≤ cap) :
  replayTail cap stream = stream
  := if_pos h

variable {kept : List UInt8}

/-- The trimmed end of a long end of a stream is that of the stream. -/
theorem replayTail_of_suffix (hsuffix : kept <:+ stream) (hlong : cap < kept.length) :
  replayTail cap kept = replayTail cap stream
  := by
  obtain ⟨before, rfl⟩ := hsuffix
  have hstream : ¬ (before ++ kept).length ≤ cap := by
    rw [List.length_append]
    omega
  rw [replayTail, if_neg (Nat.not_le.mpr hlong), replayTail, if_neg hstream,
    Circular.rtake_append_of_le hlong.le]

variable {faults : CompactFaults}

/-- The end that is read without failing is the trimmed end. -/
theorem readScrollbackTail_eq
    {content : List UInt8} {max : ℕ} (h : faults.failsRead content max = false) :
  readScrollbackTail faults content max = replayTail max content
  := by
  rw [CompactFaults.failsRead, Bool.or_eq_false_iff, Bool.or_eq_false_iff,
    Bool.or_eq_false_iff] at h
  obtain ⟨⟨⟨hopen, hsize⟩, hseek⟩, hread⟩ := h
  rw [readScrollbackTail, hopen, hsize, if_neg Bool.false_ne_true,
    if_neg Bool.false_ne_true]
  dsimp only
  rw [hseek, hread, if_neg Bool.false_ne_true, if_neg Bool.false_ne_true, replayTail]
  by_cases hfit : content.length ≤ max
  · rw [if_neg (by omega), if_pos hfit, Nat.sub_eq_zero_of_le hfit, List.drop_zero]
  · rw [if_pos (by omega), if_neg hfit]
    rfl

theorem readScrollbackTail_of_fails
    {content : List UInt8} {max : ℕ} (h : faults.failsRead content max = true) :
  readScrollbackTail faults content max = []
  := by
  rw [CompactFaults.failsRead, Bool.or_eq_true_iff, Bool.or_eq_true_iff, Bool.or_eq_true_iff] at h
  rw [readScrollbackTail]
  dsimp only
  split
  · rfl
  · split
    · rfl
    · split
      · rfl
      · rcases h with ((h | h) | h) | h
        · contradiction
        · contradiction
        · contradiction
        · rw [if_pos h]

/-! ### Growing streams -/

theorem length_replayTail_le (cap : ℕ) (stream : List UInt8) :
  (replayTail cap stream).length ≤ cap
  := by
  have hwindow := Circular.length_rtake stream cap
  rw [replayTail]
  split
  · assumption
  · split
    · rw [List.length_drop]
      omega
    · omega

/-- The first line boundary of a window that moves on is not further from its end than it was. -/
theorem length_replayTail_append (cap : ℕ) (stream bytes : List UInt8) :
  (replayTail cap (stream ++ bytes)).length ≤ (replayTail cap stream).length + bytes.length
  := by
  have hle := (ReplayRing.replayTail_suffix cap (stream ++ bytes)).length_le
  rw [List.length_append] at hle
  by_cases hfit : stream.length ≤ cap
  · rw [replayTail_of_le hfit]
    exact hle
  · have hfit' : ¬ (stream ++ bytes).length ≤ cap := by
      rw [List.length_append]
      omega
    have hwindow := Circular.length_rtake stream cap
    have hwindow' := Circular.length_rtake (stream ++ bytes) cap
    rw [List.length_append] at hwindow'
    have hshort := length_replayTail_le cap (stream ++ bytes)
    cases hcut : (stream.rtake cap).findIdx? (· == NEWLINE) with
    | none =>
      have htail : replayTail cap stream = stream.rtake cap := by
        rw [replayTail, if_neg hfit, hcut]
      rw [htail]
      omega
    | some rel =>
      obtain ⟨hrel, hnewline, hfirst⟩ := List.findIdx?_eq_some_iff_getElem.mp hcut
      have htail : replayTail cap stream = (stream.rtake cap).drop (rel + 1) := by
        rw [replayTail, if_neg hfit, hcut]
      rw [htail, List.length_drop]
      by_cases hpassed : rel < bytes.length
      · omega
      · -- the boundary is still in the window, and is still the first one
        have hmoved : (stream ++ bytes).rtake cap
            = (stream.rtake cap ++ bytes).drop bytes.length := by
          rw [← Circular.rtake_rtake_append, List.rtake, List.length_append]
          congr 1
          omega
        have hcut' :
            ((stream ++ bytes).rtake cap).findIdx? (· == NEWLINE)
              = some (rel - bytes.length) := by
          rw [hmoved, List.findIdx?_eq_some_iff_getElem]
          have hin : rel - bytes.length
              < ((stream.rtake cap ++ bytes).drop bytes.length).length := by
            rw [List.length_drop, List.length_append]
            omega
          refine ⟨hin, ?_, ?_⟩
          · rw [List.getElem_drop, List.getElem_append_left (by omega)]
            have hindex : bytes.length + (rel - bytes.length) = rel := by omega
            simp only [hindex]
            exact hnewline
          · intro j hj
            rw [List.getElem_drop, List.getElem_append_left (by omega)]
            apply hfirst
            omega
        rw [replayTail, if_neg hfit', hcut']
        dsimp only
        rw [List.length_drop]
        omega

/-- What is kept of a stream is kept of it as it grows. -/
theorem replayTail_append_suffix
    (htail : replayTail cap stream <:+ kept) (hkept : kept <:+ stream) (bytes : List UInt8) :
  replayTail cap (stream ++ bytes) <:+ kept ++ bytes
  := by
  apply List.suffix_of_suffix_length_le (ReplayRing.replayTail_suffix _ _)
  · exact List.suffix_append_self_iff.mpr hkept
  · have hgrown := length_replayTail_append cap stream bytes
    have hle := htail.length_le
    rw [List.length_append]
    omega

/-- What is kept of a stream is kept of it in the trimmed end of what is kept. -/
theorem replayTail_replayTail_suffix
    (htail : replayTail cap stream <:+ kept) (hkept : kept <:+ stream) :
  replayTail cap stream <:+ replayTail cap kept
  := by
  by_cases hfit : kept.length ≤ cap
  · rw [replayTail_of_le hfit]
    exact htail
  · use []
    rw [replayTail_of_suffix hkept (Nat.not_le.mp hfit), List.nil_append]

/-! ### Steps -/

@[simp]
theorem len_write (log : ScrollbackLog) (bytes : List UInt8) :
  (log.write bytes).len = log.len
  := by
  rw [ScrollbackLog.write]
  cases log.file with
  | _ => rfl

variable {log : ScrollbackLog}

theorem named_write {bytes : List UInt8} (h : log.file = .linked ∨ bytes = []) :
  (log.write bytes).named = log.named ++ bytes
  := by
  rw [ScrollbackLog.write]
  cases hfile : log.file with
  | linked => rfl
  | unlinked content =>
    rw [hfile] at h
    obtain h | rfl := h
    · cases h
    · exact (List.append_nil _).symm

/-- A compaction that replaces the file replaces it by what it has read. -/
theorem named_compact_of_replaces
    (hwrite : faults.writeFails = false) (hrename : faults.renameFails = false) :
  (log.compact faults).named = readScrollbackTail faults log.named SCROLLBACK_PERSIST_BYTES
  := by
  rw [ScrollbackLog.compact, hwrite, hrename, if_neg Bool.false_ne_true,
    if_neg Bool.false_ne_true]
  split
  · rfl
  · rfl

theorem named_compact
    (log : ScrollbackLog) (faults : CompactFaults)
    (h : faults.writeFails = false → faults.renameFails = false →
      faults.failsRead log.named SCROLLBACK_PERSIST_BYTES = true →
        replayTail SCROLLBACK_PERSIST_BYTES log.named = []) :
  (log.compact faults).named = log.named
    ∨ (log.compact faults).named = replayTail SCROLLBACK_PERSIST_BYTES log.named
  := by
  cases hwrite : faults.writeFails with
  | true =>
    left
    rw [ScrollbackLog.compact, hwrite, if_pos rfl]
  | false =>
    cases hrename : faults.renameFails with
    | true =>
      left
      rw [ScrollbackLog.compact, hwrite, hrename, if_neg Bool.false_ne_true, if_pos rfl]
    | false =>
      right
      rw [named_compact_of_replaces hwrite hrename]
      cases hfails : faults.failsRead log.named SCROLLBACK_PERSIST_BYTES with
      | false => exact readScrollbackTail_eq hfails
      | true => rw [readScrollbackTail_of_fails hfails, h hwrite hrename hfails]

/-- A safe append keeps the end of the stream. -/
theorem persisted_next {s : ScrollbackLog × List UInt8} {op : Append} (hsafe : Safe s op)
    (h : Persisted s) :
  Persisted (recorder.next s op)
  := by
  obtain ⟨log, stream⟩ := s
  obtain ⟨hlinked, hread⟩ := hsafe
  have hnamed := named_write hlinked
  have hwritten :
      replayTail SCROLLBACK_PERSIST_BYTES (stream ++ op.written) <:+ log.named ++ op.written
        ∧ log.named ++ op.written <:+ stream ++ op.written :=
    ⟨replayTail_append_suffix h.1 h.2 op.written, List.suffix_append_self_iff.mpr h.2⟩
  have hnext : recorder.next (log, stream) op = (log.append op, stream ++ op.written) := rfl
  rw [hnext, Persisted, ScrollbackLog.append]
  cases herror : op.writeError with
  | some n =>
    dsimp only
    rw [hnamed]
    exact hwritten
  | none =>
    dsimp only
    rw [len_write]
    split
    · next hlong =>
        have hread' := hread herror hlong
        rw [← hnamed] at hread'
        rcases named_compact
            { log.write op.written with len := log.len + op.bytes.length } op.faults hread'
          with hsame | htail
        · rw [hsame, hnamed]
          exact hwritten
        · rw [htail, hnamed]
          exact ⟨replayTail_replayTail_suffix hwritten.1 hwritten.2,
            (ReplayRing.replayTail_suffix _ _).trans hwritten.2⟩
    · rw [hnamed]
      exact hwritten

theorem persisted_start (content : List UInt8) (sized : Bool) :
  Persisted (start content sized)
  := ⟨ReplayRing.replayTail_suffix _ _, List.suffix_refl _⟩

def noFaults : CompactFaults := ⟨false, false, false, false, false, false, false⟩

/-! ### Losing the end -/

/-- A text without a line boundary, one byte longer than the file may be. -/
def longLine : List UInt8 := List.replicate (SCROLLBACK_COMPACT_BYTES + 1) 120

theorem length_longLine :
  longLine.length = SCROLLBACK_COMPACT_BYTES + 1
  := List.length_replicate

theorem replayTail_longLine :
  replayTail SCROLLBACK_PERSIST_BYTES longLine = List.replicate SCROLLBACK_PERSIST_BYTES 120
  := by
  have hwindow :
      longLine.rtake SCROLLBACK_PERSIST_BYTES = List.replicate SCROLLBACK_PERSIST_BYTES 120 := by
    have hcount :
        SCROLLBACK_COMPACT_BYTES + 1
            - (SCROLLBACK_COMPACT_BYTES + 1 - SCROLLBACK_PERSIST_BYTES)
          = SCROLLBACK_PERSIST_BYTES := by
      rw [SCROLLBACK_COMPACT_BYTES]
      omega
    rw [List.rtake, length_longLine, longLine, List.drop_replicate, hcount]
  have hnone :
      (List.replicate SCROLLBACK_PERSIST_BYTES (120 : UInt8)).findIdx? (· == NEWLINE) = none := by
    rw [List.findIdx?_eq_none_iff]
    intro byte hbyte
    rw [(List.mem_replicate.mp hbyte).2]
    rfl
  have hlong : ¬ longLine.length ≤ SCROLLBACK_PERSIST_BYTES := by
    rw [length_longLine, SCROLLBACK_COMPACT_BYTES]
    omega
  rw [replayTail, if_neg hlong, hwindow, hnone]

/-- An append that is written in full to a file that is too long then compacts it. -/
theorem append_of_long
    {bytes : List UInt8} (hlong : SCROLLBACK_COMPACT_BYTES < log.len + bytes.length) :
  log.append ⟨bytes, none, faults⟩
    = ScrollbackLog.compact faults
        { log.write bytes with len := log.len + bytes.length }
  := by
  rw [← len_write log bytes] at hlong ⊢
  exact if_pos hlong

theorem failsRead_of_readFails (h : faults.readFails = true) (content : List UInt8) (max : ℕ) :
  faults.failsRead content max = true
  := by
  rw [CompactFaults.failsRead, h, Bool.or_true]

theorem failsRead_of_not (hopen : faults.openFails = false) (hsize : faults.sizeFails = false)
    (hseek : faults.seekFails = false) (hread : faults.readFails = false) (content : List UInt8)
    (max : ℕ) :
  faults.failsRead content max = false
  := by
  rw [CompactFaults.failsRead, hopen, hsize, hseek, hread, Bool.and_false]
  rfl

section Losing

variable {line : List UInt8} (hlong : SCROLLBACK_COMPACT_BYTES < line.length)
include hlong

/-- The first append to an empty file, of a text that is too long, then compacts it. -/
theorem append_opened (faults : CompactFaults) :
  (ScrollbackLog.opened [] true).append ⟨line, none, faults⟩
    = ScrollbackLog.compact faults ⟨line, .linked, line.length⟩
  := by
  have hlong' : SCROLLBACK_COMPACT_BYTES < (ScrollbackLog.opened [] true).len + line.length :=
    hlong.trans_le (Nat.le_add_left _ _)
  have hlen : (ScrollbackLog.opened [] true).len + line.length = line.length := Nat.zero_add _
  rw [append_of_long hlong', hlen]
  rfl

/-- A compaction that reads in vain empties the file. -/
theorem not_neverLoses_readFails (htail : replayTail SCROLLBACK_PERSIST_BYTES line ≠ []) :
  ¬ NeverLoses [] true [⟨line, none, { noFaults with readFails := true }⟩]
  := by
  intro h
  have hkept := (h [] _ [] rfl rfl).1
  have hfinal :
      recorder.final (start [] true) [⟨line, none, { noFaults with readFails := true }⟩]
        = ((ScrollbackLog.opened [] true).append
            ⟨line, none, { noFaults with readFails := true }⟩, line) := rfl
  have hread :
      readScrollbackTail { noFaults with readFails := true } line SCROLLBACK_PERSIST_BYTES = [] :=
    readScrollbackTail_of_fails (failsRead_of_readFails rfl _ _)
  rw [List.nil_append, hfinal, append_opened hlong, named_compact_of_replaces rfl rfl, hread,
    List.suffix_nil] at hkept
  exact htail hkept

/-- A handle that is left on the file that was replaced writes where nobody reads. -/
theorem not_neverLoses_reopenFails
    (htail : (replayTail SCROLLBACK_PERSIST_BYTES line).getLast? = some 120) :
  ¬ NeverLoses [] true
    [⟨line, none, { noFaults with reopenFails := true }⟩, ⟨[121], none, noFaults⟩]
  := by
  intro h
  have hfirst :
      (ScrollbackLog.opened [] true).append ⟨line, none, { noFaults with reopenFails := true }⟩
        = ⟨replayTail SCROLLBACK_PERSIST_BYTES line, .unlinked line, line.length⟩ := by
    have hread :
        readScrollbackTail { noFaults with reopenFails := true } line SCROLLBACK_PERSIST_BYTES
          = replayTail SCROLLBACK_PERSIST_BYTES line :=
      readScrollbackTail_eq (failsRead_of_not rfl rfl rfl rfl _ _)
    rw [append_opened hlong, ← hread]
    rfl
  have hkept := (h [_] _ [] rfl rfl).2
  have hfinal :
      recorder.final (start [] true)
          [⟨line, none, { noFaults with reopenFails := true }⟩, ⟨[121], none, noFaults⟩]
        = (((ScrollbackLog.opened [] true).append
            ⟨line, none, { noFaults with reopenFails := true }⟩).append
              ⟨[121], none, noFaults⟩, line ++ [121]) := rfl
  -- the second compaction reads the file at the path, which the second append did not reach
  have hread :
      readScrollbackTail noFaults (replayTail SCROLLBACK_PERSIST_BYTES line)
          SCROLLBACK_PERSIST_BYTES
        = replayTail SCROLLBACK_PERSIST_BYTES line := by
    rw [readScrollbackTail_eq (failsRead_of_not rfl rfl rfl rfl _ _)]
    exact replayTail_of_le (length_replayTail_le _ _)
  rw [List.singleton_append, hfinal, hfirst, append_of_long (Nat.lt_add_right _ hlong),
    named_compact_of_replaces rfl rfl] at hkept
  have hkept : replayTail SCROLLBACK_PERSIST_BYTES line <:+ line ++ [121] := hread ▸ hkept
  obtain ⟨before, heq⟩ := hkept
  have hlast := congrArg List.getLast? heq
  rw [List.getLast?_append, htail, List.getLast?_concat, Option.some_or] at hlast
  exact absurd (Option.some.inj hlast) (by decide)

end Losing

end Lazybox.Scrollback
