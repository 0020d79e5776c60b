import Lazybox.Ipc.Reconnect

/-!
# A connection established again starts clean

On a connection that was established again the first frame should ask for a snapshot, and no
command the caller had sent by then should be written.  The supervisor throws away what it finds
queued, but only in its own channel: what is still in the channel of the caller or with the
chunker comes after what it counted, and is written.

`Flushed` says that nothing of that kind is left when the supervisor counts.  Along runs of such
steps every connection starts clean.
-/

namespace Lazybox

namespace Session

variable {π : Type}

/-- No frame was written on a connection. -/
def Silent (conn : ℕ) (os : List (Obs π)) : Prop :=
  ∀ source command, Obs.frame conn source command ∉ os

/-- On a connection that was established again the first frame asks for a snapshot, and every
command written was sent later. -/
def StartsClean (before : List (Obs π)) : Obs π → Prop
  | .frame conn source command =>
      ∀ sent, .established conn sent ∈ before →
        (Silent conn before → source = none ∧ command = .subscribe) ∧ ∀ i ∈ source, sent ≤ i
  | .state _ | .established _ _ => True

/-- When the supervisor counts, no command that was sent before the connection was established is
left with the caller's channel or with the chunker. -/
def Flushed (s : Session π) : Act π → Prop
  | .count => s.phase = .established → ∀ x ∈ s.chunks ++ s.commands, s.mark ≤ x.index
  | .send _ | .drop | .take | .push | .discard | .elapse | .redialed _ | .drain | .subscribe _
  | .readerEnds | .serve _ => True

instance (s : Session π) : (a : Act π) → Decidable (s.Flushed a)
  | .count => inferInstanceAs (Decidable
      (s.phase = .established → ∀ x ∈ s.chunks ++ s.commands, s.mark ≤ x.index))
  | .send _ | .drop | .take | .push | .discard | .elapse | .redialed _ | .drain | .subscribe _
  | .readerEnds | .serve _ => inferInstanceAs (Decidable True)

/-! ### What is on its way -/

/-- The part of its channel the supervisor will write from, if it will. -/
def ahead (s : Session π) : Option (List (Numbered π)) :=
  match s.phase with
  | .serving | .subscribing => some s.wire
  | .draining left => some (s.wire.drop left)
  | .backoff | .redialing | .established | .stopped => none

/-- A command on its way that the supervisor will write. -/
def Upcoming (s : Session π) (x : Numbered π) : Prop :=
  ∃ queue ∈ s.ahead, x ∈ queue ∨ x ∈ s.chunks ∨ x ∈ s.commands

/-- The commands that will be written were sent since the connection was established. -/
structure Fresh (s : Session π) : Prop where
  mark_le : s.mark ≤ s.sent
  fresh : ∀ x, s.Upcoming x → s.mark ≤ x.index

theorem fresh_new (build : String) :
  Fresh (new build : Session π)
  where
  mark_le := le_refl 0
  fresh := fun _ _ => Nat.zero_le _

variable {s : Session π}

/-- What will be written stays fresh when all of it will be written anyway, in whatever chunks, or
is sent only now. -/
theorem Fresh.mono
    {t : Session π} (hs : Fresh s) (hmark : t.mark = s.mark) (hsent : s.sent ≤ t.sent)
    (h : ∀ x, t.Upcoming x → (∃ y, s.Upcoming y ∧ y.index = x.index) ∨ x.index = s.sent) :
  Fresh t
  where
  mark_le := by
    rw [hmark]
    apply le_trans hs.mark_le hsent
  fresh := by
    intro x hx
    rw [hmark]
    rcases h x hx with ⟨y, hy, hyx⟩ | hnew
    · rw [← hyx]
      apply hs.fresh y hy
    · rw [hnew]
      apply hs.mark_le

/-- A supervisor that will write nothing. -/
theorem fresh_of_ahead_none (hmark : s.mark ≤ s.sent) (h : s.ahead = none) :
  Fresh s
  where
  mark_le := hmark
  fresh := by
    rintro x ⟨queue, hqueue, -⟩
    simp [h] at hqueue

theorem fresh_send (command : Command π) (hs : Fresh s) :
  Fresh (s.send command)
  := by
  unfold send
  split
  · apply hs
  · apply Fresh.mono hs
    · rfl
    · apply Nat.le_succ
    · rintro x ⟨queue, hqueue, hx⟩
      rcases hx with hx | hx | hx
      · exact .inl ⟨x, ⟨queue, hqueue, .inl hx⟩, rfl⟩
      · exact .inl ⟨x, ⟨queue, hqueue, .inr (.inl hx)⟩, rfl⟩
      · rcases List.mem_append.mp hx with hx | hx
        · exact .inl ⟨x, ⟨queue, hqueue, .inr (.inr hx)⟩, rfl⟩
        · right
          rw [List.mem_singleton.mp hx]

theorem fresh_take (hs : Fresh s) :
  Fresh s.take
  := by
  unfold take
  split
  · apply hs
  · split
    · rename_i next rest hcommands
      apply Fresh.mono hs
      · rfl
      · apply le_refl
      · rintro x ⟨queue, hqueue, hx⟩
        left
        rcases hx with hx | hx | hx
        · exact ⟨x, ⟨queue, hqueue, .inl hx⟩, rfl⟩
        · obtain ⟨chunk, -, rfl⟩ := List.mem_map.mp hx
          exact ⟨next, ⟨queue, hqueue, .inr (.inr (by simp [hcommands]))⟩, rfl⟩
        · exact ⟨x, ⟨queue, hqueue, .inr (.inr (by simp [hcommands, hx]))⟩, rfl⟩
    · split
      · obtain ⟨mark_le, fresh⟩ := hs
        constructor <;> assumption
      · apply hs

/-- What comes behind a queue comes behind the part of it that is written. -/
theorem mem_ahead_push {t : Session π} {chunk : Numbered π} {queue : List (Numbered π)}
    (hqueue : queue ∈ t.ahead) (hphase : t.phase = s.phase) (hwire : t.wire = s.wire ++ [chunk]) :
  ∃ queue' ∈ s.ahead, ∀ x ∈ queue, x ∈ queue' ∨ x = chunk
  := by
  unfold ahead at hqueue ⊢
  rw [hphase, hwire] at hqueue
  split at hqueue
  · obtain rfl := Option.mem_some_iff.mp hqueue
    exact ⟨s.wire, rfl, by simp⟩
  · obtain rfl := Option.mem_some_iff.mp hqueue
    exact ⟨s.wire, rfl, by simp⟩
  · rename_i left _
    obtain rfl := Option.mem_some_iff.mp hqueue
    use s.wire.drop left, rfl
    intro x hx
    rw [List.drop_append] at hx
    rcases List.mem_append.mp hx with hx | hx
    · exact .inl hx
    · exact .inr (List.mem_singleton.mp (List.mem_of_mem_drop hx))
  all_goals simp at hqueue

theorem fresh_push (hs : Fresh s) :
  Fresh s.push
  := by
  unfold push
  split
  · apply hs
  · rename_i chunk rest hchunks
    split_ifs with hstopped hroom
    · apply fresh_of_ahead_none
      · apply hs.mark_le
      · simp [ahead, hstopped]
    · apply Fresh.mono hs
      · rfl
      · apply le_refl
      · rintro x ⟨queue, hqueue, hx⟩
        left
        use x
        constructor
        · obtain ⟨queue', hqueue', hmem⟩ := mem_ahead_push (s := s) hqueue rfl rfl
          use queue', hqueue'
          rcases hx with hx | hx | hx
          · rcases hmem x hx with hx | rfl
            · exact .inl hx
            · exact .inr (.inl (by simp [hchunks]))
          · exact .inr (.inl (by simp [hchunks, hx]))
          · exact .inr (.inr hx)
        · rfl
    · apply hs

/-- The supervisor counts what is queued: it will throw all of that away. -/
theorem fresh_count (hs : Fresh s) (hphase : s.phase = .established) (h : s.Flushed .count) :
  Fresh { s with phase := .draining s.wire.length }
  where
  mark_le := hs.mark_le
  fresh := by
    rintro x ⟨queue, hqueue, hx⟩
    have hqueue : queue = [] := by simpa [ahead] using hqueue.symm
    rcases hx with hx | hx
    · simp [hqueue] at hx
    · apply h hphase x
      apply List.mem_append.mpr hx

theorem fresh_drain {left : ℕ} (hs : Fresh s) (hphase : s.phase = .draining left) :
  Fresh (s.drain left)
  := by
  have hahead : s.ahead = some (s.wire.drop left) := by simp [ahead, hphase]
  have hfresh : ∀ x, x ∈ s.wire.drop left ∨ x ∈ s.chunks ∨ x ∈ s.commands → s.mark ≤ x.index := by
    intro x hx
    apply hs.fresh
    exact ⟨_, hahead, hx⟩
  cases left with
  | zero =>
    constructor
    · apply hs.mark_le
    · rintro x ⟨queue, hqueue, hx⟩
      obtain rfl := Option.mem_some_iff.mp hqueue
      apply hfresh x hx
  | succ left =>
    cases hwire : s.wire with
    | nil =>
      simp only [drain, hwire]
      constructor
      · apply hs.mark_le
      · rintro x ⟨queue, hqueue, hx⟩
        obtain rfl := Option.mem_some_iff.mp hqueue
        apply hfresh x
        simpa [hwire] using hx
    | cons first rest =>
      simp only [drain, hwire]
      constructor
      · apply hs.mark_le
      · rintro x ⟨queue, hqueue, hx⟩
        obtain rfl := Option.mem_some_iff.mp hqueue
        apply hfresh x
        simpa [hwire] using hx

theorem fresh_subscribe (written : Bool) (hs : Fresh s) (hphase : s.phase = .subscribing) :
  Fresh (s.subscribe written).1
  := by
  unfold subscribe
  split
  · constructor
    · apply hs.mark_le
    · rintro x ⟨queue, hqueue, hx⟩
      apply hs.fresh
      exact ⟨queue, by simpa [ahead, hphase] using hqueue, hx⟩
  · apply fresh_of_ahead_none
    · apply hs.mark_le
    · rfl

theorem fresh_serve (written : Bool) (hs : Fresh s) (hphase : s.phase = .serving) :
  Fresh (s.serve written).1
  := by
  unfold serve
  split
  · split
    · apply fresh_of_ahead_none
      · apply hs.mark_le
      · rfl
    · apply hs
  · rename_i next rest hwire
    dsimp only
    split
    · constructor
      · apply hs.mark_le
      · rintro x ⟨queue, hqueue, hx⟩
        have hqueue : queue = rest := by simpa [ahead, hphase] using hqueue.symm
        apply hs.fresh
        use s.wire
        constructor
        · simp [ahead, hphase]
        · rw [hwire, ← hqueue]
          exact hx.imp_left (List.mem_cons_of_mem next)
    · apply fresh_of_ahead_none
      · apply hs.mark_le
      · rfl

theorem fresh_redialed (outcome : Redialed) (hs : Fresh s) :
  Fresh (s.redialed outcome).1
  := by
  cases outcome with
  | connected build =>
    apply fresh_of_ahead_none
    · apply le_refl
    · rfl
  | retryable =>
    apply fresh_of_ahead_none
    · apply hs.mark_le
    · rfl
  | fatal message =>
    apply fresh_of_ahead_none
    · apply hs.mark_le
    · rfl

/-- What will be written stays fresh, if nothing stale is left elsewhere whenever the supervisor
counts. -/
theorem fresh_step {a : Act π} (h : s.Flushed a) (hs : Fresh s) :
  Fresh (s.step a).1
  := by
  cases a with
  | send command => apply fresh_send command hs
  | drop => exact ⟨hs.mark_le, hs.fresh⟩
  | take => apply fresh_take hs
  | push => apply fresh_push hs
  | discard =>
    simp only [step]
    split
    · rename_i hphase
      unfold discard
      split
      · apply fresh_of_ahead_none
        · apply hs.mark_le
        · simp [ahead, hphase]
      · split
        · apply fresh_of_ahead_none
          · apply hs.mark_le
          · rfl
        · apply hs
    · apply hs
  | elapse =>
    simp only [step]
    split
    · apply fresh_of_ahead_none
      · apply hs.mark_le
      · rfl
    · apply hs
  | redialed outcome =>
    simp only [step]
    split
    · apply fresh_redialed outcome hs
    · apply hs
  | count =>
    simp only [step]
    split
    · rename_i hphase
      apply fresh_count hs hphase h
    · apply hs
  | drain =>
    simp only [step]
    split
    · rename_i hphase
      apply fresh_drain hs hphase
    · apply hs
  | subscribe written =>
    simp only [step]
    split
    · rename_i hphase
      apply fresh_subscribe written hs hphase
    · apply hs
  | readerEnds =>
    simp only [step]
    split
    · split
      · apply fresh_of_ahead_none
        · apply hs.mark_le
        · rfl
      · apply fresh_of_ahead_none
        · apply hs.mark_le
        · rfl
    · apply hs
  | serve written =>
    simp only [step]
    split
    · rename_i hphase
      apply fresh_serve written hs hphase
    · apply hs

/-! ### What was seen -/

end Session

/-- The supervisor has a new connection and has not yet written on it. -/
def Phase.greeting : Phase → Bool
  | .established | .draining _ | .subscribing => true
  | .serving | .backoff | .redialing | .stopped => false

namespace Session

/-- What was seen on the connection there is, and that all connections before it started
clean. -/
structure Seen (s : Session π) (os : List (Obs π)) : Prop where
  frame_le : ∀ conn source command, .frame conn source command ∈ os → conn ≤ s.conn
  established_le : ∀ conn sent, .established conn sent ∈ os → conn ≤ s.conn
  marked : ∀ sent, .established s.conn sent ∈ os → sent = s.mark
  silent : s.phase.greeting → Silent s.conn os
  spoken : s.phase = .serving → ∀ sent, .established s.conn sent ∈ os → ¬ Silent s.conn os
  clean : AtEach StartsClean os

theorem seen_new (build : String) :
  Seen (new build : Session π) []
  where
  frame_le := by simp
  established_le := by simp
  marked := by simp
  silent := by simp [Silent]
  spoken := by simp
  clean := atEach_nil _

variable {os : List (Obs π)} {s : Session π}

/-- The supervisor goes on without writing. -/
theorem Seen.of_phase {t : Session π} (hs : Seen s os) (hconn : t.conn = s.conn)
    (hmark : t.mark = s.mark) (hgreeting : t.phase.greeting → s.phase.greeting)
    (hserving : t.phase = .serving → s.phase = .serving) :
  Seen t os
  where
  frame_le := by
    rw [hconn]
    apply hs.frame_le
  established_le := by
    rw [hconn]
    apply hs.established_le
  marked := by
    rw [hconn, hmark]
    apply hs.marked
  silent := by
    rw [hconn]
    exact fun h => hs.silent (hgreeting h)
  spoken := by
    rw [hconn]
    exact fun h => hs.spoken (hserving h)
  clean := hs.clean

/-- The state of the connection is told. -/
theorem Seen.state (state : ConnectionState) (hs : Seen s os) :
  Seen s (os ++ [.state state])
  where
  frame_le := by simpa using hs.frame_le
  established_le := by simpa using hs.established_le
  marked := by simpa using hs.marked
  silent := by simpa [Silent] using hs.silent
  spoken := by simpa [Silent] using hs.spoken
  clean := by
    rw [atEach_concat]
    exact ⟨hs.clean, trivial⟩

/-- A connection is established again. -/
theorem seen_established (build : String) (hs : Seen s os) :
  Seen { s with phase := .established, conn := s.conn + 1, mark := s.sent, daemonBuild := build }
    (os ++ [.established (s.conn + 1) s.sent])
  := by
  have hfresh : ∀ sent, Obs.established (s.conn + 1) sent ∉ os := by
    intro sent hmem
    have hle := hs.established_le _ _ hmem
    omega
  constructor
  case frame_le =>
    intro conn source command hmem
    have hmem : Obs.frame conn source command ∈ os := by simpa using hmem
    apply le_trans (hs.frame_le conn source command hmem) (Nat.le_succ _)
  case established_le =>
    intro conn sent hmem
    rcases List.mem_append.mp hmem with hmem | hmem
    · apply le_trans (hs.established_le conn sent hmem) (Nat.le_succ _)
    · simp only [List.mem_singleton, Obs.established.injEq] at hmem
      apply le_of_eq hmem.1
  case marked =>
    intro sent hmem
    rcases List.mem_append.mp hmem with hmem | hmem
    · exact absurd hmem (hfresh sent)
    · simp only [List.mem_singleton, Obs.established.injEq] at hmem
      exact hmem.2
  case silent =>
    intro _ source command hmem
    have hmem : Obs.frame (s.conn + 1) source command ∈ os := by simpa using hmem
    have hle := hs.frame_le _ _ _ hmem
    omega
  case spoken => simp
  case clean =>
    rw [atEach_concat]
    exact ⟨hs.clean, trivial⟩

/-- A frame is written on the connection there is. -/
theorem Seen.frame {t : Session π} {source : Option ℕ} {command : Command π} (hs : Seen s os)
    (hclean : StartsClean os (.frame s.conn source command)) (hconn : t.conn = s.conn)
    (hmark : t.mark = s.mark) (hgreeting : t.phase.greeting = false) :
  Seen t (os ++ [.frame s.conn source command])
  := by
  have hframe : ¬ Silent s.conn (os ++ [.frame s.conn source command]) := by
    intro hsilent
    apply hsilent source command
    simp
  constructor
  case frame_le =>
    intro conn source' command' hmem
    rw [hconn]
    rcases List.mem_append.mp hmem with hmem | hmem
    · apply hs.frame_le conn source' command' hmem
    · simp only [List.mem_singleton, Obs.frame.injEq] at hmem
      apply le_of_eq hmem.1
  case established_le =>
    rw [hconn]
    simpa using hs.established_le
  case marked =>
    rw [hconn, hmark]
    simpa using hs.marked
  case silent => simp [hgreeting]
  case spoken =>
    rw [hconn]
    exact fun _ _ _ => hframe
  case clean =>
    rw [atEach_concat]
    exact ⟨hs.clean, hclean⟩

/-- The caller and the chunker leave the supervisor where it is. -/
theorem seen_send (command : Command π) (hs : Seen s os) :
  Seen (s.send command) os
  := by
  unfold send
  split
  · apply hs
  · exact Seen.of_phase hs rfl rfl id id

theorem seen_take (hs : Seen s os) :
  Seen s.take os
  := by
  unfold take
  split
  · apply hs
  · split
    · exact Seen.of_phase hs rfl rfl id id
    · split
      · exact Seen.of_phase hs rfl rfl id id
      · apply hs

theorem seen_push (hs : Seen s os) :
  Seen s.push os
  := by
  unfold push
  split
  · apply hs
  · split_ifs
    · exact Seen.of_phase hs rfl rfl id id
    · exact Seen.of_phase hs rfl rfl id id
    · apply hs

theorem seen_discard (hs : Seen s os) :
  Seen s.discard os
  := by
  unfold discard
  split
  · exact Seen.of_phase hs rfl rfl id id
  · split
    · refine Seen.of_phase hs rfl rfl ?_ ?_ <;> simp [Phase.greeting]
    · apply hs

theorem seen_drain {left : ℕ} (hs : Seen s os) (hphase : s.phase = .draining left) :
  Seen (s.drain left) os
  := by
  have hgreeting : s.phase.greeting = true := by rw [hphase]; rfl
  cases left with
  | zero => refine Seen.of_phase hs rfl rfl ?_ ?_ <;> simp [drain, hgreeting]
  | succ left =>
    simp only [drain]
    split
    · refine Seen.of_phase hs rfl rfl ?_ ?_ <;> simp [hgreeting]
    · refine Seen.of_phase hs rfl rfl ?_ ?_ <;> simp [hgreeting]

theorem seen_dropped (hs : Seen s os) :
  Seen s.dropped.1 (os ++ s.dropped.2)
  := by
  apply Seen.state
  refine Seen.of_phase hs rfl rfl ?_ ?_ <;> simp [dropped, Phase.greeting]

theorem seen_redialed (outcome : Redialed) (hs : Seen s os) :
  Seen (s.redialed outcome).1 (os ++ (s.redialed outcome).2)
  := by
  cases outcome with
  | connected build =>
    have hstate := hs.state ⟨.connected, build⟩
    simpa [redialed] using seen_established build hstate
  | retryable =>
    simp only [redialed, List.append_nil]
    refine Seen.of_phase hs rfl rfl ?_ ?_ <;> simp [Phase.greeting]
  | fatal message =>
    apply Seen.state
    refine Seen.of_phase hs rfl rfl ?_ ?_ <;> simp [redialed, Phase.greeting]

/-- The first frame of a connection that was established again. -/
theorem seen_subscribe (written : Bool) (hs : Seen s os) :
  Seen (s.subscribe written).1 (os ++ (s.subscribe written).2)
  := by
  have hclean : StartsClean os (.frame s.conn none .subscribe) := by
    intro sent _
    simp
  unfold subscribe
  split
  · exact hs.frame hclean rfl rfl rfl
  · have hframe : Seen s.dropped.1 (os ++ [.frame s.conn none .subscribe]) :=
      hs.frame hclean rfl rfl rfl
    have hstate := hframe.state ⟨.reconnecting, s.daemonBuild⟩
    simpa [dropped] using hstate

/-- A command is written: the connection was greeted before, and the command is fresh. -/
theorem seen_serve
    (written : Bool) (hfresh : Fresh s) (hs : Seen s os) (hphase : s.phase = .serving) :
  Seen (s.serve written).1 (os ++ (s.serve written).2)
  := by
  unfold serve
  split
  · split
    · rw [List.append_nil]
      refine Seen.of_phase hs rfl rfl ?_ ?_ <;> simp [Phase.greeting]
    · rw [List.append_nil]
      apply hs
  · rename_i next rest hwire
    have hclean : StartsClean os (.frame s.conn (some next.index) next.command) := by
      intro sent hsent
      constructor
      · intro hsilent
        exact absurd hsilent (hs.spoken hphase sent hsent)
      · intro i hi
        obtain rfl := Option.mem_some_iff.mp hi
        rw [hs.marked sent hsent]
        apply hfresh.fresh
        exact ⟨s.wire, by simp [ahead, hphase], .inl (by simp [hwire])⟩
    dsimp only
    split
    · refine hs.frame hclean rfl rfl ?_
      simp [hphase, Phase.greeting]
    · have hframe : Seen (dropped { s with wire := rest }).1
          (os ++ [.frame s.conn (some next.index) next.command]) :=
        hs.frame hclean rfl rfl rfl
      have hstate := hframe.state ⟨.reconnecting, s.daemonBuild⟩
      simpa [dropped] using hstate

theorem seen_step (a : Act π) (hfresh : Fresh s) (hs : Seen s os) :
  Seen (s.step a).1 (os ++ (s.step a).2)
  := by
  have hnil : Seen s (os ++ []) := by rwa [List.append_nil]
  cases a with
  | send command => simpa [step] using seen_send command hs
  | drop =>
    simp only [step, List.append_nil]
    exact Seen.of_phase hs rfl rfl id id
  | take => simpa [step] using seen_take hs
  | push => simpa [step] using seen_push hs
  | discard =>
    simp only [step]
    split
    · simpa using seen_discard hs
    · apply hnil
  | elapse =>
    simp only [step]
    split
    · rw [List.append_nil]
      refine Seen.of_phase hs rfl rfl ?_ ?_ <;> simp [Phase.greeting]
    · apply hnil
  | redialed outcome =>
    simp only [step]
    split
    · apply seen_redialed outcome hs
    · apply hnil
  | count =>
    simp only [step]
    split
    · rename_i hphase
      rw [List.append_nil]
      refine Seen.of_phase hs rfl rfl ?_ ?_ <;> simp [hphase, Phase.greeting]
    · apply hnil
  | drain =>
    simp only [step]
    split
    · rename_i hphase
      simpa using seen_drain hs hphase
    · apply hnil
  | subscribe written =>
    simp only [step]
    split
    · apply seen_subscribe written hs
    · apply hnil
  | readerEnds =>
    simp only [step]
    split
    · split
      · rw [List.append_nil]
        refine Seen.of_phase hs rfl rfl ?_ ?_ <;> simp [Phase.greeting]
      · apply seen_dropped hs
    · apply hnil
  | serve written =>
    simp only [step]
    split
    · rename_i hphase
      apply seen_serve written hfresh hs hphase
    · apply hnil

/-- In every run in which nothing stale is left with the caller's channel or the chunker when the
supervisor counts its queue, every connection established again starts clean. -/
theorem reconnection_starts_clean
    (build : String) {as : List (Act π)} (h : machine.Along Flushed (new build) as) :
  AtEach StartsClean (machine.trace (new build) as)
  := by
  have hinvariant : Fresh (machine.final (new build) as)
      ∧ Seen (machine.final (new build) as) (machine.trace (new build) as) := by
    apply machine.invariant (I := fun s os => Fresh s ∧ Seen s os) _ _ h
    · exact ⟨fresh_new build, seen_new build⟩
    · rintro s os a ha ⟨hfresh, hseen⟩
      exact ⟨fresh_step ha hfresh, seen_step a hfresh hseen⟩
  exact hinvariant.2.clean

/-- A command that reached the supervisor's channel while it was redialing is thrown away, and one
that is sent later is written after the request for a snapshot. -/
theorem starts_clean_after_redial :
  let as := [.readerEnds, .elapse, .send (.other ()), .take, .push, .redialed (.connected "2"),
    .count, .drain, .drain, .subscribe true, .send .subscribe, .take, .push, .serve true]
  machine.Along Flushed (new "1" : Session Unit) as
    ∧ machine.trace (new "1" : Session Unit) as
      = [.state ⟨.reconnecting, "1"⟩, .state ⟨.connected, "2"⟩, .established 1 1,
        .frame 1 none .subscribe, .frame 1 (some 1) .subscribe]
    ∧ AtEach StartsClean (machine.trace (new "1" : Session Unit) as)
  := by
  have hflushed : machine.Along Flushed (new "1" : Session Unit)
      [.readerEnds, .elapse, .send (.other ()), .take, .push, .redialed (.connected "2"),
        .count, .drain, .drain, .subscribe true, .send .subscribe, .take, .push, .serve true] := by
    decide
  exact ⟨hflushed, by decide, reconnection_starts_clean "1" hflushed⟩

/-- A command that was sent while the supervisor was redialing, and which the chunker passes on
only after the supervisor has counted, is written on the new connection. -/
theorem stale_command_written :
  let as := [.readerEnds, .elapse, .send (.other ()), .redialed (.connected "2"), .count, .drain,
    .subscribe true, .take, .push, .serve true]
  machine.trace (new "1" : Session Unit) as
      = [.state ⟨.reconnecting, "1"⟩, .state ⟨.connected, "2"⟩, .established 1 1,
        .frame 1 none .subscribe, .frame 1 (some 0) (.other ())]
    ∧ ¬ AtEach StartsClean (machine.trace (new "1" : Session Unit) as)
  := by
  have htrace : machine.trace (new "1" : Session Unit)
      [.readerEnds, .elapse, .send (.other ()), .redialed (.connected "2"), .count, .drain,
        .subscribe true, .take, .push, .serve true]
      = [.state ⟨.reconnecting, "1"⟩, .state ⟨.connected, "2"⟩, .established 1 1,
        .frame 1 none .subscribe, .frame 1 (some 0) (.other ())] := by decide
  constructor
  · exact htrace
  · rw [htrace]
    intro h
    have hlast := h [.state ⟨.reconnecting, "1"⟩, .state ⟨.connected, "2"⟩, .established 1 1,
      .frame 1 none .subscribe] (.frame 1 (some 0) (.other ())) [] rfl
    have hle := (hlast 1 (by simp)).2 0 rfl
    exact absurd hle (by decide)

end Session

end Lazybox
