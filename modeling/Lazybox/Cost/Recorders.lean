import Lazybox.Cost.Meter
import Lazybox.Library.Run

/-!
# The recorders of a merge's cost

The cost of a merged pull request is published once: in the merge commit, or in a comment on the
pull request.  What the workspace has not reported is measured, published, and then its watermark
is advanced by the figure.  Each of the three is a step of its own, and several recorders run for
one merge: the one of the merge call, one that waits out the settle window after the merge is
observed, and the sweep of the poll tick over the merges that still owe a record.

The machine follows the recorders of one workspace.  What a recorder read when it measured is kept
with it as `seen`.  The answers of the provider, and whether the workspace could be loaded, are
part of the actions.
-/

namespace Lazybox.Cost

/-! ### Trailers -/

structure CostTrailer where
  micros : Option ℕ
  tokens : Option ℕ
deriving DecidableEq, Repr

namespace CostTrailer

/-- Whether the trailer has a value to render. -/
def hasValue (cost : CostTrailer) : Bool := cost.micros.isSome || cost.tokens.isSome

end CostTrailer

/-- What a pull request took.  Of the agents, the effort and the time, only whether one of them
has a value is kept. -/
structure PrTrailers where
  cost : Option CostTrailer
  others : Bool
deriving DecidableEq, Repr

namespace PrTrailers

def isEmpty (trailers : PrTrailers) : Bool :=
  !(trailers.cost.any CostTrailer.hasValue || trailers.others)

/-- The dollar figure of the trailers. -/
def micros (trailers : PrTrailers) : Option ℕ := trailers.cost.bind CostTrailer.micros

end PrTrailers

/-- What is filled in of a measured figure.  A figure of nothing renders no cost line. -/
def measured (costMicros : ℕ) (others : Bool) : PrTrailers where
  cost := if 0 < costMicros then some ⟨some costMicros, none⟩ else none
  others := others

def measure (store : Kv) (key : String) (others : Bool) : PrTrailers :=
  measured (unreportedSessionCost store key) others

inductive TrailerMode where
  | full
  | shape
  | off
deriving DecidableEq, Repr

namespace TrailerMode

/-- The trailers reduced to what the mode permits, if that leaves something worth writing. -/
def apply (mode : TrailerMode) (trailers : PrTrailers) : Option PrTrailers :=
  let permitted (out : PrTrailers) :=
    let out := { out with cost := out.cost.filter CostTrailer.hasValue }
    if out.isEmpty then none else some out
  match mode with
  | off => none
  | full => permitted trailers
  | shape =>
      permitted { trailers with cost := trailers.cost.map fun cost => { cost with micros := none } }

end TrailerMode

inductive TrailerOutcome where
  /-- Nothing was measurable, or the policy of the repository withheld it. -/
  | nothing
  | inCommit
  | inComment
  /-- Measured and permitted, but lost. -/
  | dropped (reason : String)
deriving DecidableEq, Repr

namespace TrailerOutcome

def isRecorded : TrailerOutcome → Bool
  | inCommit | inComment => true
  | nothing | dropped _ => false

end TrailerOutcome

/-! ### The provider -/

/-- The answer to writing the sticky comment of a pull request. -/
def writeStickyTrailerComment (written : Except String Unit) : TrailerOutcome :=
  match written with
  | .ok () => .inComment
  | .error reason => .dropped reason

/-- What the provider finds when it records the trailers of a merge it did not make. -/
structure RecordAnswer where
  hasPr : Bool
  nodeId : Option String
  mode : Except String TrailerMode
  comment : Except String Unit

def recordMergedTrailers (answer : RecordAnswer) (trailers : PrTrailers) : TrailerOutcome :=
  if answer.hasPr = false then .nothing
  else
    match answer.nodeId with
    | none => .dropped "the merged PR has no node id yet"
    | some _ =>
        match answer.mode with
        | .error error => .dropped s!"the repo's visibility could not be read ({error})"
        | .ok mode =>
            match mode.apply trailers with
            | some _ => writeStickyTrailerComment answer.comment
            | none => .nothing

/-- What a merge call finds: it fails, the queue takes the pull request, it was merged already,
or the provider merges it. -/
inductive MergeAnswer where
  | failed
  | queued
  | reconciled
  | merged (mode : TrailerMode) (rebase : Bool) (body comment : Except String Unit)

/-- The trailers of a merge commit.  A rebase writes no commit of its own, so they go into a
comment. -/
def mergeTrailers
    (mode : TrailerMode) (rebase : Bool) (body comment : Except String Unit)
    (trailers : PrTrailers) : TrailerOutcome :=
  match mode.apply trailers with
  | none => .nothing
  | some _ =>
      if rebase then writeStickyTrailerComment comment
      else
        match body with
        | .ok () => .inCommit
        | .error error =>
            .dropped (s!"the default commit body could not be resolved ({error}), "
              ++ "so the merge kept its full commit log instead")

/-- The figure an outcome has published. -/
def publishedMicros (mode : TrailerMode) (trailers : PrTrailers) (outcome : TrailerOutcome) : ℕ :=
  if outcome.isRecorded then ((mode.apply trailers).bind PrTrailers.micros).getD 0 else 0

/-! ### What a recorder makes of an answer -/

/-- Close the slice by exactly the figure the trailers carried. -/
def markReported (store : Kv) (key : String) (trailers : PrTrailers) : Kv :=
  match trailers.micros with
  | none => store
  | some reported => markSessionCostReported store key reported

def externalMergeHasUnreportedCost (trailers : PrTrailers) : Bool :=
  trailers.micros.any (0 < ·)

/-- What follows the answer of the provider: the slice is marked, the intent is cleared, or
nothing more is done. -/
inductive Verdict where
  | marks
  | clears
  | ends
deriving DecidableEq, Repr

/-- A lost record leaves the watermark alone, a withheld one settles it. -/
def recordVerdict (outcome : TrailerOutcome) : Verdict :=
  match outcome with
  | .inCommit | .inComment | .nothing => .marks
  | .dropped _ => .clears

def mergeVerdict (answer : MergeAnswer) (trailers : PrTrailers) : Verdict :=
  match answer with
  | .failed | .queued | .reconciled => .ends
  | .merged mode rebase body comment =>
      match mergeTrailers mode rebase body comment trailers with
      | .dropped _ => .ends
      | .inCommit | .inComment | .nothing => .marks

/-! ### The recorders of one workspace -/

inductive RecorderKind where
  /-- It rides the merge call of the daemon. -/
  | merge
  /-- It records a merge the daemon did not make. -/
  | external
deriving DecidableEq, Repr

inductive RecorderPhase where
  /-- The settle window is waited out. -/
  | sleeping (wakesAt : ℕ)
  /-- The figure was measured, and is being published. -/
  | measured (trailers : PrTrailers) (seen : Slice)
  /-- The provider has answered, and the slice is to be marked. -/
  | settled (trailers : PrTrailers) (seen : Slice)
  /-- The slice is marked, and the intent is to be cleared. -/
  | marked
deriving DecidableEq, Repr

structure Recorder where
  kind : RecorderKind
  phase : RecorderPhase
deriving DecidableEq, Repr

/-- In milliseconds. -/
def externalMergeSettle : ℕ := 60000

def pendingMergeCostPrefix : String := "pending-merge-cost:"

/-- A signed number of 64 bits. -/
def parseI64 (s : List Char) : Option ℤ :=
  if s.head? = some '-' then
    if s.tail.head? = some '+' then none
    else ((parseU64 s.tail).filter (· ≤ 9223372036854775808)).map fun n => -(n : ℤ)
  else ((parseU64 s).filter (· ≤ 9223372036854775807)).map fun n => (n : ℤ)

/-- The daemon, as far as the recorders of the workspace `key` go. -/
structure MergeCosts where
  store : Kv
  now : ℕ
  recorder : ℕ → Option Recorder

namespace MergeCosts

def start : MergeCosts := ⟨fun _ => none, 0, fun _ => none⟩

variable (key : String)

def noteMergeOwesCost (s : MergeCosts) : MergeCosts :=
  { s with store := s.store.setKv (pendingMergeCostPrefix ++ key) (toString s.now) }

def clearMergeCostIntent (s : MergeCosts) : MergeCosts :=
  { s with store := s.store.deleteKv (pendingMergeCostPrefix ++ key) }

def setPhase (s : MergeCosts) (id : ℕ) (kind : RecorderKind) (phase : RecorderPhase) :
    MergeCosts :=
  { s with recorder := Function.update s.recorder id (some ⟨kind, phase⟩) }

def finish (s : MergeCosts) (id : ℕ) : MergeCosts :=
  { s with recorder := Function.update s.recorder id none }

/-- The first step of `record_pending_merge_cost`: the workspace is loaded and measured. -/
def recordPendingMergeCost (s : MergeCosts) (id : ℕ) (loaded others : Bool) : MergeCosts :=
  if loaded = false then (s.clearMergeCostIntent key).finish id
  else
    let trailers := measure s.store key others
    if externalMergeHasUnreportedCost trailers then
      s.setPhase id .external (.measured trailers (slices s.store key))
    else (s.clearMergeCostIntent key).finish id

/-- Whether the sweep takes the workspace up: it owes a record, and its settle window has
passed. -/
def sweeps (s : MergeCosts) : Bool :=
  match s.store.getKv (pendingMergeCostPrefix ++ key) with
  | none => false
  | some observed =>
      !(parseI64 observed.toList).any ((s.now : ℤ) - externalMergeSettle < ·)

/-- A recorder goes on as the verdict on its answer says. -/
def follow
    (s : MergeCosts) (id : ℕ) (kind : RecorderKind) (trailers : PrTrailers) (seen : Slice) :
    Verdict → MergeCosts
  | .marks => s.setPhase id kind (.settled trailers seen)
  | .clears => (s.clearMergeCostIntent key).finish id
  | .ends => s.finish id

end MergeCosts

inductive RecordAct where
  | spend (deltaMicros : ℕ)
  | pass (ms : ℕ)
  /-- A poll observes the merge: the intent is noted and a recorder is spawned. -/
  | observeMerged (id : ℕ)
  | wake (id : ℕ) (loaded others : Bool)
  | sweep (id : ℕ) (loaded others : Bool)
  /-- A merge call measures before it merges. -/
  | startMerge (id : ℕ) (others : Bool)
  | answerMerge (id : ℕ) (answer : MergeAnswer)
  /-- The provider could not be built, or it answers. -/
  | answerRecord (id : ℕ) (answer : Option RecordAnswer)
  | mark (id : ℕ)
  | clear (id : ℕ)

inductive RecordObs where
  | added (micros : ℕ)
  /-- An answer that settles a slice, with the figure it published of it. -/
  | settles (seen : Slice) (publishedMicros : ℕ)
deriving DecidableEq, Repr

namespace MergeCosts

variable (key : String)

/-- The step of a recorder that is `measured`, when a merge call is answered. -/
def answeredMerge
    (s : MergeCosts) (id : ℕ) (trailers : PrTrailers) (seen : Slice) (answer : MergeAnswer) :
    MergeCosts × List RecordObs :=
  let s' := s.follow key id .merge trailers seen (mergeVerdict answer trailers)
  match answer with
  | .failed | .queued | .reconciled => (s', [])
  | .merged mode rebase body comment =>
      let outcome := mergeTrailers mode rebase body comment trailers
      match mergeVerdict answer trailers with
      | .marks => (s', [.settles seen (publishedMicros mode trailers outcome)])
      | .clears | .ends => (s', [])

/-- The step of a recorder that is `measured`, when its record is answered. -/
def answeredRecord
    (s : MergeCosts) (id : ℕ) (trailers : PrTrailers) (seen : Slice) :
    Option RecordAnswer → MergeCosts × List RecordObs
  | none => (s.finish id, [])
  | some answer =>
      let outcome := recordMergedTrailers answer trailers
      let s' := s.follow key id .external trailers seen (recordVerdict outcome)
      match recordVerdict outcome, answer.mode with
      | .marks, .ok mode => (s', [.settles seen (publishedMicros mode trailers outcome)])
      | .marks, .error _ => (s', [.settles seen 0])
      | .clears, _ | .ends, _ => (s', [])

def machine : Machine MergeCosts RecordAct RecordObs where
  step s
    | .spend delta => ({ s with store := addSessionCost s.store key delta }, [.added delta])
    | .pass ms => ({ s with now := s.now + ms }, [])
    | .observeMerged id =>
        match s.recorder id with
        | none =>
            ((s.noteMergeOwesCost key).setPhase id .external
              (.sleeping (s.now + externalMergeSettle)), [])
        | some _ => (s, [])
    | .wake id loaded others =>
        match s.recorder id with
        | some ⟨_, .sleeping wakesAt⟩ =>
            if wakesAt ≤ s.now then (s.recordPendingMergeCost key id loaded others, []) else (s, [])
        | _ => (s, [])
    | .sweep id loaded others =>
        match s.recorder id with
        | none =>
            if s.sweeps key then (s.recordPendingMergeCost key id loaded others, []) else (s, [])
        | some _ => (s, [])
    | .startMerge id others =>
        match s.recorder id with
        | none =>
            (s.setPhase id .merge (.measured (measure s.store key others) (slices s.store key)), [])
        | some _ => (s, [])
    | .answerMerge id answer =>
        match s.recorder id with
        | some ⟨.merge, .measured trailers seen⟩ => s.answeredMerge key id trailers seen answer
        | _ => (s, [])
    | .answerRecord id answer =>
        match s.recorder id with
        | some ⟨.external, .measured trailers seen⟩ => s.answeredRecord key id trailers seen answer
        | _ => (s, [])
    | .mark id =>
        match s.recorder id with
        | some ⟨.merge, .settled trailers _⟩ =>
            ({ s with store := markReported s.store key trailers }.finish id, [])
        | some ⟨.external, .settled trailers _⟩ =>
            ({ s with store := markReported s.store key trailers }.setPhase id .external .marked,
              [])
        | _ => (s, [])
    | .clear id =>
        match s.recorder id with
        | some ⟨_, .marked⟩ => ((s.clearMergeCostIntent key).finish id, [])
        | _ => (s, [])

end MergeCosts

end Lazybox.Cost
