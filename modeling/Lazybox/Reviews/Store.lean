import Lazybox.Core.MergePolicy
import Lazybox.Library.Bytes
import Lazybox.Store.Sqlite

/-!
# The store of reviews

The reports of reviews, and the results of fixers, are rows of the store, each under the key of its
workspace and its number.  A number is one past the highest there is, and the oldest rows of a
workspace are deleted as new ones are written.

A submission takes a number, reads which rows to delete, and writes.  These are steps of its own,
and its caller holds a lock from before the first to after the last.  What a row holds of an
artifact is its JSON, which is a parameter.
-/

namespace Lazybox.Reviews

open Store

/-- What is kept: the reports and, apart from them, the results. -/
inductive Space where
  | report
  | result
deriving DecidableEq, Repr

/-- A report or a result, with what else it says. -/
structure Artifact where
  id : String
  workspace : String
  content : String
deriving DecidableEq, Repr

namespace Space

/-- `REVIEW_KV_PREFIX` and `RESULT_KV_PREFIX` -/
def kvPrefix : Space → String
  | report => "lazybox:review:"
  | result => "lazybox:review-result:"

def prefixChar : Space → Char
  | report => 'r'
  | result => 'x'

/-- `REPORTS_PER_WORKSPACE` and `RESULTS_PER_WORKSPACE` -/
def perWorkspace : Space → ℕ
  | report => 20
  | result => 20

end Space

def seqWidth : ℕ := 12

/-! ### Keys -/

def hexUpper : List Char := "0123456789ABCDEF".toList

def encodeByte (b : UInt8) : List Char :=
  let c := Char.ofNat b.toNat
  if c.isAlphanum then [c]
  else ['_', hexUpper.getD (b.toNat / 16) '0', hexUpper.getD (b.toNat % 16) '0']

def encodeKey (key : String) : String := String.ofList ((asBytes key).flatMap encodeByte)

/-- `report_prefix` and `result_prefix` -/
def Space.prefixOf (space : Space) (workspace : String) : String :=
  space.kvPrefix ++ encodeKey workspace ++ ":"

def reportPrefix : String → String := Space.report.prefixOf

def resultPrefix : String → String := Space.result.prefixOf

/-- A number with zeros before it. -/
def padded (seq : ℕ) : List Char := (toString seq).toList.leftpad seqWidth '0'

def rowKey (keyPrefix : String) (seq : ℕ) : String := keyPrefix ++ String.ofList (padded seq)

def artifactId (prefixChar : Char) (seq : ℕ) : String :=
  String.ofList (prefixChar :: (toString seq).toList)

def seqOf (id : String) (prefixChar : Char) : Option ℕ :=
  match id.toList with
  | [] => none
  | c :: digits => if c = prefixChar then parseU64 digits else none

/-- The part of a key after its last colon. -/
def lastSegment (key : String) : List Char :=
  (key.toList.reverse.takeWhile (· ≠ ':')).reverse

/-! ### The operations -/

def nextSeq (t : Table) (keyPrefix : String) : ℕ :=
  let seqs := (Sqlite.listKvPrefix t keyPrefix).filterMap fun row => parseU64 (lastSegment row.1)
  match seqs.max? with
  | none => 1
  | some max => max + 1

def sortKeys (keys : List String) : List String := keys.mergeSort fun a b => !below b a

/-- The keys to delete so that one more row makes at most `cap`. -/
def pruneKeys (t : Table) (keyPrefix : String) (cap : ℕ) : List String :=
  let keys := sortKeys ((Sqlite.listKvPrefix t keyPrefix).map Prod.fst)
  keys.take (keys.length + 1 - cap)

/-- `next_report_id` and `next_result_id` -/
def Space.nextId (space : Space) (t : Table) (workspace : String) : String :=
  artifactId space.prefixChar (nextSeq t (space.prefixOf workspace))

def nextReportId : Table → String → String := Space.report.nextId

def nextResultId : Table → String → String := Space.result.nextId

section Save

variable (toJson : Artifact → String)

/-- The batch that writes a row and deletes some. -/
def mutations (key value : String) (pruned : List String) : List StoreMutation :=
  .setKv key value :: pruned.map .deleteKv

/-- The writing of an artifact, with the rows to delete. -/
def Space.write (space : Space) (t : Table) (a : Artifact) (pruned : List String) :
    Table × Except StoreError Unit :=
  match seqOf a.id space.prefixChar with
  | none =>
      (t, .error (.backend
        (match space with
        | report => "review id " ++ a.id.quote ++ " is not an `r<seq>` id"
        | result => "result id " ++ a.id.quote ++ " is not an `x<seq>` id")))
  | some seq =>
      Sqlite.applyBatch t
        (mutations (rowKey (space.prefixOf a.workspace) seq) (toJson a) pruned)

/-- `save_report` and `save_result` -/
def Space.save (space : Space) (t : Table) (a : Artifact) : Table × Except StoreError Unit :=
  space.write toJson t a (pruneKeys t (space.prefixOf a.workspace) space.perWorkspace)

def saveReport : Table → Artifact → Table × Except StoreError Unit := Space.report.save toJson

def saveResult : Table → Artifact → Table × Except StoreError Unit := Space.result.save toJson

/-! ### Submissions -/

/-- Where a submission is. -/
inductive Call where
  | unknown
  | locked (space : Space) (workspace : String)
  /-- Its id is taken. -/
  | allocated (space : Space) (workspace : String) (id : String)
  /-- The rows to delete are read. -/
  | pruned (space : Space) (a : Artifact) (keys : List String)
  | ended
deriving DecidableEq

structure Server where
  store : Table
  /-- The submission that holds the lock. -/
  reviewsWrite : Option ℕ
  calls : ℕ → Call

inductive Act where
  | lock (i : ℕ) (space : Space) (workspace : String)
  | allocate (i : ℕ) (ok : Bool)
  | prune (i : ℕ) (content : String) (ok : Bool)
  | write (i : ℕ) (ok : Bool)
  /-- A submission is given up before it reads what to delete. -/
  | abandon (i : ℕ)

inductive Obs where
  | saved (space : Space) (a : Artifact)
deriving DecidableEq

namespace Server

variable (s : Server)

def setCall (i : ℕ) (call : Call) : Server :=
  { s with calls := Function.update s.calls i call }

/-- A submission ends and lets go of the lock. -/
def finish (i : ℕ) : Server :=
  { s.setCall i .ended with
    reviewsWrite := if s.reviewsWrite = some i then none else s.reviewsWrite }

/-- The steps.  The lock is asked for when submissions are `guarded`, as they are by their
callers. -/
def step (guarded : Bool) : Act → Server × List Obs
  | .lock i space workspace =>
      if s.calls i = .unknown ∧ (guarded = true → s.reviewsWrite = none) then
        ({ s.setCall i (.locked space workspace) with reviewsWrite := some i }, [])
      else (s, [])
  | .allocate i ok =>
      match s.calls i with
      | .locked space workspace =>
          if ok then (s.setCall i (.allocated space workspace (space.nextId s.store workspace)), [])
          else (s.finish i, [])
      | _ => (s, [])
  | .prune i content ok =>
      match s.calls i with
      | .allocated space workspace id =>
          if ok then
            (s.setCall i (.pruned space ⟨id, workspace, content⟩
              (pruneKeys s.store (space.prefixOf workspace) space.perWorkspace)), [])
          else (s.finish i, [])
      | _ => (s, [])
  | .write i ok =>
      match s.calls i with
      | .pruned space a keys =>
          if ok then
            match space.write toJson s.store a keys with
            | (t, .ok ()) => ({ s.finish i with store := t }, [.saved space a])
            | (t, .error _) => ({ s.finish i with store := t }, [])
          else (s.finish i, [])
      | _ => (s, [])
  | .abandon i =>
      match s.calls i with
      | .locked _ _ | .allocated _ _ _ => (s.finish i, [])
      | _ => (s, [])

/-- The runs of submissions. -/
def machine (guarded : Bool) : Machine Server Act Obs := ⟨fun s => s.step toJson guarded⟩

end Server

end Save

end Lazybox.Reviews
