import Lazybox.Core.MergePolicy
import Lazybox.Core.ProviderOps
import Lazybox.Library.Keyed
import Lazybox.Library.Run

/-!
# Condensing

A summarizer answers a request from the store, or from a cheap model, whose answer it stores.  The
requests of one key go through a gate, which is kept in a map while somebody has it.

A call goes on step by step, any number of them at a time, and may be dropped wherever it waits.  A
write of the store runs apart, so one that began lands even if its caller was dropped.  The key of
a request is a parameter, and the answers of the model and the times are part of the action.
-/

namespace Lazybox.Condense

inductive CondenseKind where
  | fileRead (path : String)
  | commandOutput (command : String)
  | diff
deriving DecidableEq, Repr

/-- What a summary is of: the input as it is sent, its kind, and the model. -/
structure Request where
  sent : String
  kind : CondenseKind
  model : String
deriving DecidableEq, Repr

structure CachedSummary where
  summary : String
  model : String
  writtenAt : Instant
deriving DecidableEq, Repr

def cacheMaxEntries : ℕ := 4096

def pruneEveryWrites : ℕ := 128

/-- What the store has under each key; nothing where it cannot be parsed. -/
abbrev Entries := List (String × Option CachedSummary)

namespace Entries

def get (entries : Entries) (key : String) : Option CachedSummary :=
  (Keyed.lookup Prod.fst key entries).bind Prod.snd

def set (entries : Entries) (key : String) (value : CachedSummary) : Entries :=
  (key, some value) :: Keyed.erase Prod.fst key entries

/-- Whether an entry is as old as another; those that cannot be parsed are the oldest. -/
def asOld (a b : String × Option CachedSummary) : Bool :=
  match a.2, b.2 with
  | none, _ => true
  | some _, none => false
  | some v, some w => v.writtenAt ≤ w.writtenAt

/-- Drop the oldest entries beyond the bound. -/
def prune (entries : Entries) : Entries :=
  if entries.length ≤ cacheMaxEntries then entries
  else (entries.mergeSort asOld).drop (entries.length - cacheMaxEntries)

end Entries

/-! ### Calls -/

/-- Where a call is. -/
inductive Call where
  | unknown
  /-- It is to read the store. -/
  | reading (r : Request)
  /-- It is to take the gate of its key from the map. -/
  | opening (r : Request)
  | waiting (r : Request) (gate : ℕ)
  /-- It holds the gate, and is to read the store. -/
  | checking (r : Request) (gate : ℕ)
  | fetching (r : Request) (gate : ℕ)
  /-- Its write has begun. -/
  | writing (r : Request) (gate : ℕ) (value : CachedSummary)
  | pruning (r : Request) (gate : ℕ) (value : CachedSummary)
  /-- It let go of the gate, which is to be taken off the map. -/
  | releasing (r : Request) (result : Option CachedSummary)
  | returned
  | dropped
deriving DecidableEq

structure Gate where
  holder : Option ℕ
  /-- The calls that have it. -/
  clones : List ℕ

structure Summarizer where
  entries : Entries
  /-- The writes since the start. -/
  writes : ℕ
  inflight : String → Option ℕ
  gates : ℕ → Gate
  /-- The gates that were made. -/
  made : ℕ
  calls : ℕ → Call
  /-- The writes of dropped callers that are still to land. -/
  abandoned : List (String × CachedSummary)

inductive Act where
  | condense (i : ℕ) (r : Request)
  | read (i : ℕ)
  | openGate (i : ℕ)
  | lock (i : ℕ)
  | check (i : ℕ)
  /-- The model answers, or the call of it fails. -/
  | fetch (i : ℕ) (answer : Option String) (now : Instant)
  | write (i : ℕ)
  | prune (i : ℕ)
  | release (i : ℕ)
  | drop (i : ℕ)
  | land (n : ℕ)

inductive Obs where
  /-- A call returned a summary, or an error. -/
  | returned (r : Request) (result : Option CachedSummary)
deriving DecidableEq

section Steps

variable (cacheKvKey : Request → String)

namespace Summarizer

variable (s : Summarizer)

def new (entries : Entries) : Summarizer where
  entries := entries
  writes := 0
  inflight := fun _ => none
  gates := fun _ => ⟨none, []⟩
  made := 0
  calls := fun _ => .unknown
  abandoned := []

def setCall (i : ℕ) (call : Call) : Summarizer :=
  { s with calls := Function.update s.calls i call }

def setGate (g : ℕ) (gate : Gate) : Summarizer :=
  { s with gates := Function.update s.gates g gate }

/-- A call takes the gate of a key. -/
def gate (i : ℕ) (key : String) : Summarizer × ℕ :=
  let g := (s.inflight key).getD s.made
  ({ s.setGate g { s.gates g with clones := i :: (s.gates g).clones } with
      inflight := Function.update s.inflight key (some g)
      made := if (s.inflight key).isSome then s.made else s.made + 1 }, g)

/-- A call lets go of a gate. -/
def leave (i g : ℕ) : Summarizer :=
  s.setGate g
    { holder := if (s.gates g).holder = some i then none else (s.gates g).holder
      clones := (s.gates g).clones.filter (· ≠ i) }

/-- A gate that nobody has is taken off the map. -/
def releaseGate (key : String) : Summarizer :=
  match s.inflight key with
  | some g =>
      if (s.gates g).clones = [] then
        { s with inflight := Function.update s.inflight key none }
      else s
  | none => s

/-- The rest of a write: every so often old entries are dropped. -/
def afterWrite : Summarizer :=
  { s with
    writes := s.writes + 1
    entries := if s.writes % pruneEveryWrites = 0 then s.entries.prune else s.entries }

def step : Act → Summarizer × List Obs
  | .condense i r =>
      match s.calls i with
      | .unknown => (s.setCall i (.reading r), [])
      | _ => (s, [])
  | .read i =>
      match s.calls i with
      | .reading r =>
          match s.entries.get (cacheKvKey r) with
          | some hit => (s.setCall i .returned, [.returned r (some hit)])
          | none => (s.setCall i (.opening r), [])
      | _ => (s, [])
  | .openGate i =>
      match s.calls i with
      | .opening r =>
          let (s, g) := s.gate i (cacheKvKey r)
          (s.setCall i (.waiting r g), [])
      | _ => (s, [])
  | .lock i =>
      match s.calls i with
      | .waiting r g =>
          if (s.gates g).holder = none then
            ((s.setGate g { s.gates g with holder := some i }).setCall i (.checking r g), [])
          else (s, [])
      | _ => (s, [])
  | .check i =>
      match s.calls i with
      | .checking r g =>
          match s.entries.get (cacheKvKey r) with
          | some hit => ((s.leave i g).setCall i (.releasing r (some hit)), [])
          | none => (s.setCall i (.fetching r g), [])
      | _ => (s, [])
  | .fetch i answer now =>
      match s.calls i with
      | .fetching r g =>
          match (answer.map fun text => trim text.toList).filter (· ≠ []) with
          | some summary =>
              (s.setCall i (.writing r g ⟨String.ofList summary, r.model, now⟩), [])
          | none => ((s.leave i g).setCall i (.releasing r none), [])
      | _ => (s, [])
  | .write i =>
      match s.calls i with
      | .writing r g value =>
          (({ s with entries := s.entries.set (cacheKvKey r) value } : Summarizer).setCall i
            (.pruning r g value), [])
      | _ => (s, [])
  | .prune i =>
      match s.calls i with
      | .pruning r g value =>
          ((s.afterWrite.leave i g).setCall i (.releasing r (some value)), [])
      | _ => (s, [])
  | .release i =>
      match s.calls i with
      | .releasing r result =>
          ((s.releaseGate (cacheKvKey r)).setCall i .returned, [.returned r result])
      | _ => (s, [])
  | .drop i =>
      match s.calls i with
      | .unknown | .returned | .dropped => (s, [])
      | .reading _ | .opening _ | .releasing _ _ => (s.setCall i .dropped, [])
      | .waiting _ g | .checking _ g | .fetching _ g | .pruning _ g _ =>
          ((s.leave i g).setCall i .dropped, [])
      | .writing r g value =>
          ({ (s.leave i g).setCall i .dropped with
              abandoned := s.abandoned ++ [(cacheKvKey r, value)] }, [])
  | .land n =>
      match s.abandoned[n]? with
      | some (key, value) =>
          ({ s with
              entries := s.entries.set key value
              abandoned := s.abandoned.eraseIdx n }, [])
      | none => (s, [])

/-- The runs of a summarizer. -/
def machine : Machine Summarizer Act Obs := ⟨step cacheKvKey⟩

end Summarizer

end Steps

end Lazybox.Condense
