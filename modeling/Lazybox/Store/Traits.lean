import Lazybox.Core.ProviderOps
import Lazybox.Library.Run

/-!
# Stores

A store keeps values under keys.  Records of workspaces and projects are kept under keys of their
own.  A backend gives the operations on keys, the batches and the listings; reading, saving and
deleting a record are made of these.

`Rows` is what a store is for: the value under each key.  A backend is lawful when its operations,
but for the listings of records, are those on rows.
-/

universe u

namespace Lazybox.Store

inductive StoreError where
  | backend (message : String)
  | notFound (message : String)
  | unsupported (operation : String)
deriving DecidableEq, Repr

/-- What records are of. -/
inductive Kind where
  | workspace
  | project
deriving DecidableEq, Repr

namespace Kind

def label : Kind → String
  | workspace => "workspace"
  | project => "project"

/-- The prefix of the keys of the records. -/
def keyPrefix (kind : Kind) : String := kind.label ++ ":"

def key (kind : Kind) (key : String) : String := kind.keyPrefix ++ key

end Kind

structure Record where
  key : String
  createdAt : Instant
  json : Option String
deriving DecidableEq, Repr

/-- The payload a write must persist: neither absent nor empty. -/
def Record.requireJson (kind : Kind) (r : Record) : Except StoreError String :=
  let refused := .error (.backend
    (kind.label ++ " " ++ r.key ++ ": refusing to persist an empty JSON payload"))
  match r.json with
  | some json => if json ≠ "" then .ok json else refused
  | none => refused

/-- One mutation of a batch. -/
inductive StoreMutation where
  | setKv (key value : String)
  | deleteKv (key : String)
  | save (kind : Kind) (record : Record)
  | delete (kind : Kind) (key : String)

/-- The operations a backend implements. -/
structure Backend (σ : Type u) where
  applyBatch : σ → List StoreMutation → σ × Except StoreError Unit
  getKv : σ → String → Option String
  setKv : σ → String → String → σ
  setKvIfAbsent : σ → String → String → σ × String
  deleteKv : σ → String → σ
  listKvPrefix : σ → String → List (String × String)
  listRecords : Kind → σ → List Record

inductive StoreOp where
  | getKv (key : String)
  | setKv (key value : String)
  | setKvIfAbsent (key value : String)
  | deleteKv (key : String)
  | listKvPrefix (keyPrefix : String)
  | applyBatch (mutations : List StoreMutation)
  | save (kind : Kind) (record : Record)
  | get (kind : Kind) (key : String)
  | delete (kind : Kind) (key : String)
  | list (kind : Kind)

inductive StoreResult where
  | done (result : Except StoreError Unit)
  | value (value : Option String)
  | stored (value : String)
  | rows (rows : List (String × String))
  | record (record : Option Record)
  | records (records : List Record)

/-- Two results are the same, listings compared as sets. -/
def StoreResult.Same : StoreResult → StoreResult → Prop
  | rows l, rows l' => ∀ row, row ∈ l ↔ row ∈ l'
  | records l, records l' => ∀ r, r ∈ l ↔ r ∈ l'
  | a, b => a = b

namespace Backend

variable {σ : Type u} (B : Backend σ) (createdAtOrOldest : String → Instant)

/-- The record under a key, where an empty payload is as good as none. -/
def getRecord (s : σ) (kind : Kind) (key : String) : Option Record :=
  match B.getKv s (kind.key key) with
  | none => none
  | some json => if json = "" then none else some ⟨key, createdAtOrOldest json, some json⟩

def saveRecord (s : σ) (kind : Kind) (r : Record) : σ × Except StoreError Unit :=
  match r.requireJson kind with
  | .error e => (s, .error e)
  | .ok json => (B.setKv s (kind.key r.key) json, .ok ())

def deleteRecord (s : σ) (kind : Kind) (key : String) : σ := B.deleteKv s (kind.key key)

def step (s : σ) : StoreOp → σ × StoreResult
  | .getKv key => (s, .value (B.getKv s key))
  | .setKv key value => (B.setKv s key value, .done (.ok ()))
  | .setKvIfAbsent key value =>
      ((B.setKvIfAbsent s key value).1, .stored (B.setKvIfAbsent s key value).2)
  | .deleteKv key => (B.deleteKv s key, .done (.ok ()))
  | .listKvPrefix keyPrefix => (s, .rows (B.listKvPrefix s keyPrefix))
  | .applyBatch mutations =>
      ((B.applyBatch s mutations).1, .done (B.applyBatch s mutations).2)
  | .save kind record => ((B.saveRecord s kind record).1, .done (B.saveRecord s kind record).2)
  | .get kind key => (s, .record (B.getRecord createdAtOrOldest s kind key))
  | .delete kind key => (B.deleteRecord s kind key, .done (.ok ()))
  | .list kind => (s, .records (B.listRecords kind s))

/-- A backend at work: each operation gives its result. -/
def machine : Machine σ StoreOp StoreResult :=
  ⟨fun s op => ((B.step createdAtOrOldest s op).1, [(B.step createdAtOrOldest s op).2])⟩

end Backend

/-! ### What a store is for -/

/-- The value under each key. -/
abbrev Rows := String → Option String

namespace Rows

def set (rows : Rows) (key value : String) : Rows := Function.update rows key (some value)

def delete (rows : Rows) (key : String) : Rows := Function.update rows key none

def mutate (rows : Rows) : StoreMutation → Except StoreError Rows
  | .setKv key value => .ok (rows.set key value)
  | .deleteKv key => .ok (rows.delete key)
  | .save kind record =>
      (record.requireJson kind).map fun json => rows.set (kind.key record.key) json
  | .delete kind key => .ok (rows.delete (kind.key key))

/-- All of the mutations, or the first refusal. -/
def mutateAll (rows : Rows) (mutations : List StoreMutation) : Except StoreError Rows :=
  mutations.foldlM mutate rows

end Rows

/-- The operations of the backend on keys are those on rows, and a batch makes all of its
mutations or none. -/
structure Backend.Lawful {σ : Type u} (B : Backend σ) : Prop where
  set : ∀ s key value, B.getKv (B.setKv s key value) = Rows.set (B.getKv s) key value
  delete : ∀ s key, B.getKv (B.deleteKv s key) = Rows.delete (B.getKv s) key
  setIfAbsent : ∀ s key value,
    B.getKv (B.setKvIfAbsent s key value).1
      = Rows.set (B.getKv s) key ((B.getKv s key).getD value)
  stored : ∀ s key value, (B.setKvIfAbsent s key value).2 = (B.getKv s key).getD value
  list : ∀ s keyPrefix key value, (key, value) ∈ B.listKvPrefix s keyPrefix
    ↔ keyPrefix.toList <+: key.toList ∧ B.getKv s key = some value
  batch : ∀ s mutations rows, Rows.mutateAll (B.getKv s) mutations = .ok rows →
    B.getKv (B.applyBatch s mutations).1 = rows ∧ (B.applyBatch s mutations).2 = .ok ()
  refused : ∀ s mutations e, Rows.mutateAll (B.getKv s) mutations = .error e →
    B.applyBatch s mutations = (s, .error e)

/-- Make a batch of what it leads to, or refuse it and change nothing. -/
def commit {σ : Type u} (s : σ) : Except StoreError σ → σ × Except StoreError Unit
  | .ok s' => (s', .ok ())
  | .error e => (s, .error e)

section Commit

variable {σ : Type u} {getKv : σ → Rows} {s : σ} {x : Except StoreError σ}

theorem commit_eq_ok {rows : Rows} (h : x.map getKv = .ok rows) :
  getKv (commit s x).1 = rows ∧ (commit s x).2 = .ok ()
  := by
  cases x with
  | error e => cases h
  | ok s' =>
    cases h
    exact ⟨rfl, rfl⟩

theorem commit_eq_error {e : StoreError} (h : x.map getKv = .error e) :
  commit s x = (s, .error e)
  := by
  cases x with
  | error e' =>
    cases h
    rfl
  | ok s' => cases h

end Commit

/-- A batch that fails leaves the store unchanged. -/
theorem Backend.Lawful.unchanged
    {σ : Type u} {B : Backend σ} (lawful : B.Lawful) {s : σ} {mutations : List StoreMutation}
    {e : StoreError} (h : (B.applyBatch s mutations).2 = .error e) :
  (B.applyBatch s mutations).1 = s
  := by
  cases hrows : Rows.mutateAll (B.getKv s) mutations with
  | ok rows =>
    rw [(lawful.batch s mutations rows hrows).2] at h
    cases h
  | error e' => rw [lawful.refused s mutations e' hrows]

end Lazybox.Store
