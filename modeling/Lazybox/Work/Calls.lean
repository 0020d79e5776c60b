import Lazybox.Library.Run
import Lazybox.Work.Store

/-!
# The work calls

`create` and `update` read the store, make or move one task, and have it written in a later step,
as the operations that move several tasks do.  Between its reading and its writing an operation
holds its own copies: the batch it has pending.  Any other step may come in between, and the
writing itself may fail, and then nothing is written.
-/

namespace Lazybox.Work

structure Plan where
  id : PlanId
  title : String
deriving DecidableEq, Repr

inductive WorkError where
  | badRequest (message : String)
  | unavailable (message : String)
deriving DecidableEq, Repr

/-! ### Reading what a caller wrote -/

/-- White space, as Unicode has it. -/
def isWhitespace (c : Char) : Bool :=
  let n := c.toNat
  (9 ≤ n && n ≤ 13) || (0x2000 ≤ n && n ≤ 0x200A)
    || [0x20, 0x85, 0xA0, 0x1680, 0x2028, 0x2029, 0x202F, 0x205F, 0x3000].contains n

def trim (s : String) : String :=
  String.ofList
    ((s.toList.dropWhile isWhitespace).reverse.dropWhile isWhitespace).reverse

/-- The name of a lifecycle, trimmed and in lower case. -/
def lifecycleName (name : String) : String :=
  String.ofList ((trim name).toList.map Char.toLower)

/-- Whether a name asks for a completion. -/
def isCompletion (name : String) : Bool :=
  ["completed", "complete", "done"].contains (lifecycleName name)

/-- The lifecycle asked for, which is not a completion. -/
def parseLifecycle (name : String) (detail : Option String) : Except WorkError Lifecycle :=
  let detail := trim (detail.getD "")
  match lifecycleName name with
  | "pending" => .ok .pending
  | "underway" | "working" | "in-progress" => .ok .underway
  | "awaiting-answer" | "awaiting_answer" | "input-required" =>
      if detail = "" then
        .error (.badRequest "awaiting-answer needs `detail`: the question you are waiting on")
      else .ok (.awaitingAnswer detail)
  | "held" | "blocked" =>
      if detail = "" then .error (.badRequest "held needs `detail`: what is blocking it")
      else .ok (.held detail)
  | "failed" => .ok (.failed (if detail = "" then "no reason given" else detail))
  | "canceled" | "cancelled" => .ok .canceled
  | "completed" | "complete" | "done" =>
      .error (.badRequest
        "a completion needs a `summary` — pass one with lifecycle=\"completed\"")
  | other =>
      .error (.badRequest ("unknown lifecycle " ++ other.quote
        ++ " — one of: underway, awaiting-answer, held, completed, failed, canceled"))

/-- The party of a caller: its workspace. -/
def party (key : String) : Party := .agent key none

/-! ### Create -/

/-- What a caller asks to create.  The ids and the links are those its texts name. -/
structure CreateArgs where
  requester : String
  title : String
  brief : String
  owner : Option String
  plan : Option PlanId
  parent : Option WorkId
  links : List Link

def maxBriefBytes : ℕ := 4000

/-- Add a link that is not there yet. -/
def addLink (links : List Link) (link : Link) : List Link :=
  if links.contains link then links else links ++ [link]

/-- The plan and the parent of a new task: those named, which must be there, and the plan of the
parent when no plan is named. -/
def nested (plans : List Plan) (s : WorkStore) (args : CreateArgs) :
    Except WorkError (Option PlanId × Option WorkId) :=
  match args.plan with
  | some plan =>
      if plans.any fun p => p.id = plan then
        match args.parent with
        | none => .ok (some plan, none)
        | some parent =>
            match s.loadTask parent with
            | none => .error (.badRequest ("no work " ++ toString parent.uuid ++ " to nest under"))
            | some _ => .ok (some plan, some parent)
      else
        .error (.badRequest ("no plan " ++ toString plan.uuid
          ++ " — call work_status to list the plans that exist"))
  | none =>
      match args.parent with
      | none => .ok (none, none)
      | some parent =>
          match s.loadTask parent with
          | none => .error (.badRequest ("no work " ++ toString parent.uuid ++ " to nest under"))
          | some found => .ok (found.plan, some parent)

/-- The task a create makes. -/
def create (plans : List Plan) (s : WorkStore) (id : WorkId) (args : CreateArgs) (now : Instant) :
    Except WorkError Task :=
  let title := trim args.title
  if title = "" then .error (.badRequest "work needs a title")
  else if args.brief.utf8ByteSize > maxBriefBytes then
    .error (.badRequest ("brief exceeds " ++ toString maxBriefBytes
      ++ " bytes — a brief is objective, done-criteria, boundaries and output shape, "
      ++ "not a transcript"))
  else do
    let (plan, parent) ← nested plans s args
    let links := args.links.foldl addLink []
    .ok { Task.new id title (party args.requester) now with
          brief := trim args.brief
          plan := plan
          parent := parent
          owner := args.owner.map party
          links := (args.owner.map Link.workspace).elim links (addLink links) }

/-! ### Update -/

structure UpdateArgs where
  by' : String
  id : WorkId
  lifecycle : String
  detail : Option String
  summary : Option String
  artifacts : List String

/-- The move an update asks of the task it loaded. -/
def move (args : UpdateArgs) (now : Instant) (t : Task) : Except WorkError Task :=
  let refused (moved : Except TransitionRefused Task) : Except WorkError Task :=
    moved.mapError fun refused => .badRequest refused.message
  if isCompletion args.lifecycle then
    match (args.summary.map trim).filter fun s => s ≠ "" with
    | none =>
        .error (.badRequest
          ("a completion needs a `summary` — it is what the requester reads instead of "
            ++ "your scrollback"))
    | some summary =>
        let artifacts := args.artifacts.map fun name => ⟨trim name, args.by'⟩
        refused (t.complete ⟨summary, artifacts⟩ (party args.by') now)
  else do
    let target ← parseLifecycle args.lifecycle args.detail
    refused (t.transition target (party args.by') now)

/-- The task an update makes of the one stored. -/
def update (s : WorkStore) (args : UpdateArgs) (now : Instant) : Except WorkError Task :=
  match s.loadTask args.id with
  | none => .error (.badRequest ("no work " ++ toString args.id.uuid))
  | some t => move args now t

/-! ### The operations, step by step -/

/-- The store, the ids not minted yet, and what the operations in flight have still to write. -/
structure Server where
  store : WorkStore
  plans : List Plan
  next : ℕ
  pending : List Batch

inductive Act where
  | savePlan (plan : Plan)
  | create (args : CreateArgs) (now : Instant)
  | update (args : UpdateArgs) (now : Instant)
  | completeLinkedTo (link : Link) (by' : Party) (now : Instant)
  | failUnderwayForExit (workspace : String) (by' : Party) (now : Instant)
  | sweepStranded (now grace : Instant) (hasLiveAgent : String → Bool)
  /-- An operation in flight writes its tasks. -/
  | save (i : ℕ)
  /-- The writing of an operation in flight fails. -/
  | fail (i : ℕ)
  | deleteTask (id : WorkId)

def single (t : Task) : Batch := ⟨[t], List.nodup_singleton _⟩

namespace Server

def empty : Server := ⟨.empty, [], 0, []⟩

/-- An operation has read the store, and has its tasks to write. -/
def start (w : Server) (batch : Batch) : Server := { w with pending := w.pending ++ [batch] }

/-- An operation is over. -/
def finish (w : Server) (i : ℕ) : Server := { w with pending := w.pending.eraseIdx i }

/-- A create reads the plans, which are never deleted, and the parent.  The id it mints is fresh,
and nobody has it before the row is written. -/
def createStep (w : Server) (args : CreateArgs) (now : Instant) : Server × List WorkError :=
  match Work.create w.plans w.store ⟨w.next⟩ args now with
  | .error error => (w, [error])
  | .ok t => ({ w with next := w.next + 1 }.start (single t), [])

def updateStep (w : Server) (args : UpdateArgs) (now : Instant) : Server × List WorkError :=
  match Work.update w.store args now with
  | .error error => (w, [error])
  | .ok t => (w.start (single t), [])

def saveStep (w : Server) (i : ℕ) : Server :=
  match w.pending[i]? with
  | none => w
  | some batch => { w with store := w.store.saveTasks batch.tasks }.finish i

def step (w : Server) : Act → Server × List WorkError
  | .savePlan plan => ({ w with plans := plan :: Keyed.erase Plan.id plan.id w.plans }, [])
  | .create args now => w.createStep args now
  | .update args now => w.updateStep args now
  | .completeLinkedTo link by' now => (w.start (w.store.completeLinkedTo link by' now), [])
  | .failUnderwayForExit workspace by' now =>
      (w.start (w.store.failUnderwayForExit workspace by' now), [])
  | .sweepStranded now grace hasLiveAgent =>
      (w.start (w.store.sweepStranded now grace hasLiveAgent), [])
  | .save i => (w.saveStep i, [])
  | .fail i => (w.finish i, [])
  | .deleteTask id => ({ w with store := w.store.deleteTask id }, [])

/-- The task store at work. -/
def machine : Machine Server Act WorkError := ⟨step⟩

end Server

/-! ### What a step does -/

/-- What a create makes: a pending task under a stored parent, if under one, on the plan of the
parent when it names no plan. -/
structure Created (s : WorkStore) (args : CreateArgs) (id : WorkId) (t : Task) : Prop where
  id : t.id = id
  lifecycle : t.lifecycle = .pending
  parent : t.parent = args.parent
  plan : ∀ plan, args.plan = some plan → t.plan = some plan
  under : ∀ p, args.parent = some p →
    ∃ found, s.loadTask p = some found ∧ (args.plan = none → t.plan = found.plan)

variable {s : WorkStore}

theorem nested_eq_ok {plans : List Plan} {args : CreateArgs} {plan : Option PlanId}
    {parent : Option WorkId} (h : nested plans s args = .ok (plan, parent)) :
  parent = args.parent ∧ (∀ p, args.plan = some p → plan = some p)
    ∧ ∀ p, args.parent = some p →
      ∃ found, s.loadTask p = some found ∧ (args.plan = none → plan = found.plan)
  := by
  unfold nested at h
  cases hplan : args.plan with
  | none =>
    cases hparent : args.parent with
    | none =>
      rw [hplan, hparent] at h
      cases h
      simp
    | some p =>
      rw [hplan, hparent] at h
      dsimp only at h
      cases hfound : s.loadTask p with
      | none =>
        rw [hfound] at h
        cases h
      | some found =>
        rw [hfound] at h
        cases h
        simp [hfound]
  | some p =>
    rw [hplan] at h
    dsimp only at h
    split at h
    · cases hparent : args.parent with
      | none =>
        rw [hparent] at h
        cases h
        simp
      | some q =>
        rw [hparent] at h
        dsimp only at h
        cases hfound : s.loadTask q with
        | none =>
          rw [hfound] at h
          cases h
        | some found =>
          rw [hfound] at h
          cases h
          simp [hfound]
    · cases h

theorem create_eq_ok {plans : List Plan} {id : WorkId} {args : CreateArgs} {now : Instant}
    {t : Task} (h : create plans s id args now = .ok t) :
  Created s args id t
  := by
  unfold create at h
  dsimp only at h
  split at h
  · cases h
  · split at h
    · cases h
    · cases hnested : nested plans s args with
      | error error =>
        rw [hnested] at h
        cases h
      | ok found =>
        rw [hnested] at h
        cases h
        obtain ⟨hparent, hplan, hunder⟩ := nested_eq_ok hnested
        exact ⟨rfl, rfl, hparent, hplan, hunder⟩

theorem mapError_eq_ok
    {ε ε' α : Type} {f : ε → ε'} {x : Except ε α} {a : α} (h : x.mapError f = .ok a) :
  x = .ok a
  := by
  cases x with
  | error e => cases h
  | ok b =>
    cases h
    rfl

theorem move_eq_ok
    {args : UpdateArgs} {now : Instant} {t t' : Task} (h : move args now t = .ok t') :
  Moved t t'
  := by
  unfold move at h
  dsimp only at h
  split at h
  · split at h
    · cases h
    · apply (Task.complete_eq_ok (mapError_eq_ok h)).1
  · cases htarget : parseLifecycle args.lifecycle args.detail with
    | error error =>
      rw [htarget] at h
      cases h
    | ok target =>
      rw [htarget] at h
      apply (Task.transition_eq_ok (mapError_eq_ok h)).1

theorem update_eq_ok
    {args : UpdateArgs} {now : Instant} {t' : Task} (h : update s args now = .ok t') :
  ∃ t, s.loadTask args.id = some t ∧ Moved t t'
  := by
  unfold update at h
  cases hload : s.loadTask args.id with
  | none =>
    rw [hload] at h
    cases h
  | some t =>
    rw [hload] at h
    exact ⟨t, rfl, move_eq_ok h⟩

/-- Each task to write was moved from the one stored. -/
def Reads (s : WorkStore) (batch : Batch) : Prop :=
  ∀ t' ∈ batch.tasks, ∃ t, s.loadTask t'.id = some t ∧ Moved t t'

theorem reads_of_mem_changed {batch : Batch} {f : Task → Option Task} {tasks : List Task}
    (hbatch : batch.tasks = changed f tasks) (moves : ∀ t t', f t = some t' → Moved t t')
    (stored : tasks.Sublist s.allTasks) :
  Reads s batch
  := by
  intro t' ht'
  rw [hbatch, mem_changed moves (s.distinct_allTasks.sublist (stored.map _))] at ht'
  obtain ⟨t, ht, hmove⟩ := ht'
  have moved := moves t t' hmove
  use t
  constructor
  · rw [moved.same.id]
    apply WorkStore.mem_allTasks.mp (stored.subset ht)
  · apply moved

namespace WorkStore

theorem completeLinkedTo_reads (s : WorkStore) (link : Link) (by' : Party) (now : Instant) :
  Reads s (s.completeLinkedTo link by' now)
  := by
  apply reads_of_mem_changed rfl _ (List.Sublist.refl _)
  intro t t' h
  apply (completeLinked_eq_some h).1

theorem failUnderwayForExit_reads
    (s : WorkStore) (workspace : String) (by' : Party) (now : Instant) :
  Reads s (s.failUnderwayForExit workspace by' now)
  := by
  apply reads_of_mem_changed rfl _ List.filter_sublist
  intro t t' h
  apply (Task.failFromAgentExit_eq_some h).1

theorem sweepStranded_reads (s : WorkStore) (now grace : Instant) (hasLiveAgent : String → Bool) :
  Reads s (s.sweepStranded now grace hasLiveAgent)
  := by
  apply reads_of_mem_changed rfl _ (List.Sublist.refl _)
  intro t t' h
  split at h
  · apply (Task.failFromAgentExit_eq_some h).1
  · cases h

end WorkStore

namespace Server

/-- What a step can do. -/
inductive Does (w : Server) : Act → Server → Prop where
  /-- Nothing to the tasks. -/
  | idle {a : Act} (plans : List Plan) : Does w a { w with plans := plans }
  | created {args : CreateArgs} {now : Instant} {t : Task} (h : Created w.store args ⟨w.next⟩ t) :
      Does w (.create args now) ({ w with next := w.next + 1 }.start (single t))
  | reads {a : Act} {batch : Batch} (h : Reads w.store batch) : Does w a (w.start batch)
  | saves {i : ℕ} {batch : Batch} (h : w.pending[i]? = some batch) :
      Does w (.save i) ({ w with store := w.store.saveTasks batch.tasks }.finish i)
  | fails (i : ℕ) : Does w (.fail i) (w.finish i)
  | deletes (id : WorkId) : Does w (.deleteTask id) { w with store := w.store.deleteTask id }

theorem does (w : Server) (a : Act) :
  Does w a (machine.next w a)
  := by
  cases a with
  | savePlan plan => apply Does.idle
  | create args now =>
    change Does w _ (w.createStep args now).1
    unfold createStep
    cases hcreate : create w.plans w.store ⟨w.next⟩ args now with
    | error error => apply Does.idle w.plans
    | ok t => apply Does.created (create_eq_ok hcreate)
  | update args now =>
    change Does w _ (w.updateStep args now).1
    unfold updateStep
    cases hupdate : update w.store args now with
    | error error => apply Does.idle w.plans
    | ok t' =>
      obtain ⟨t, hload, moved⟩ := update_eq_ok hupdate
      apply Does.reads
      intro u hu
      rw [List.mem_singleton.mp hu]
      use t
      rw [moved.same.id, WorkStore.loadTask_id hload]
      exact ⟨hload, moved⟩
  | completeLinkedTo link by' now => apply Does.reads (w.store.completeLinkedTo_reads link by' now)
  | failUnderwayForExit workspace by' now =>
    apply Does.reads (w.store.failUnderwayForExit_reads workspace by' now)
  | sweepStranded now grace hasLiveAgent =>
    apply Does.reads (w.store.sweepStranded_reads now grace hasLiveAgent)
  | save i =>
    change Does w _ (w.saveStep i)
    unfold saveStep
    cases hpending : w.pending[i]? with
    | none => apply Does.idle w.plans
    | some batch => apply Does.saves hpending
  | fail i => apply Does.fails
  | deleteTask id => apply Does.deletes

end Server

/-! ### The ids -/

/-- The id of the task is minted, and the id of its parent was minted before. -/
structure MintedTask (next : ℕ) (t : Task) : Prop where
  id : t.id.uuid < next
  parent : ∀ p, t.parent = some p → p.uuid < t.id.uuid

theorem MintedTask.mono {next next' : ℕ} {t : Task} (h : MintedTask next t) (hle : next ≤ next') :
  MintedTask next' t
  := ⟨h.id.trans_le hle, h.parent⟩

theorem MintedTask.of_same {next : ℕ} {t t' : Task} (h : MintedTask next t) (same : SameWork t t') :
  MintedTask next t'
  := by
  constructor
  · rw [same.id]
    apply h.id
  · rw [same.id, same.parent]
    apply h.parent

namespace Server

/-- The task is stored, or an operation in flight has it to write. -/
def Holds (w : Server) (t : Task) : Prop :=
  t ∈ w.store.allTasks ∨ ∃ batch ∈ w.pending, t ∈ batch.tasks

/-- What is held after a step was held before, up to a move, or was just created. -/
theorem holds_next {w : Server} {a : Act} {t : Task} (h : (machine.next w a).Holds t) :
  (∃ u, w.Holds u ∧ SameWork u t)
    ∨ machine.next w a = { w with next := w.next + 1 }.start (single t)
      ∧ ∃ args, Created w.store args ⟨w.next⟩ t
  := by
  have hdoes := w.does a
  generalize machine.next w a = w' at hdoes h
  cases hdoes with
  | idle plans =>
    left
    exact ⟨t, h, .refl t⟩
  | @created args now u hcreated =>
    obtain hstored | ⟨b, hb, ht⟩ := h
    · left
      exact ⟨t, .inl hstored, .refl t⟩
    · obtain hold | hnew := List.mem_append.mp hb
      · left
        exact ⟨t, .inr ⟨b, hold, ht⟩, .refl t⟩
      · right
        rw [List.mem_singleton.mp hnew] at ht
        rw [List.mem_singleton.mp ht]
        exact ⟨rfl, args, hcreated⟩
  | @reads _ batch hreads =>
    left
    obtain hstored | ⟨b, hb, ht⟩ := h
    · exact ⟨t, .inl hstored, .refl t⟩
    · obtain hold | hnew := List.mem_append.mp hb
      · exact ⟨t, .inr ⟨b, hold, ht⟩, .refl t⟩
      · rw [List.mem_singleton.mp hnew] at ht
        obtain ⟨u, hload, moved⟩ := hreads t ht
        rw [moved.same.id] at hload
        exact ⟨u, .inl (WorkStore.mem_allTasks.mpr hload), moved.same⟩
  | @saves i batch hbatch =>
    left
    refine ⟨t, ?_, .refl t⟩
    obtain hstored | ⟨b, hb, ht⟩ := h
    · obtain hnew | ⟨hold, -⟩ := WorkStore.mem_allTasks_saveTasks.mp hstored
      · exact .inr ⟨batch, List.mem_of_getElem? hbatch, hnew⟩
      · exact .inl hold
    · exact .inr ⟨b, List.mem_of_mem_eraseIdx hb, ht⟩
  | fails i =>
    left
    refine ⟨t, ?_, .refl t⟩
    obtain hstored | ⟨b, hb, ht⟩ := h
    · exact .inl hstored
    · exact .inr ⟨b, List.mem_of_mem_eraseIdx hb, ht⟩
  | deletes id =>
    left
    refine ⟨t, ?_, .refl t⟩
    obtain hstored | hpending := h
    · exact .inl (WorkStore.mem_allTasks_deleteTask.mp hstored).1
    · exact .inr hpending

theorem next_le (w : Server) (a : Act) :
  w.next ≤ (machine.next w a).next
  := by
  have hdoes := w.does a
  generalize machine.next w a = w' at hdoes
  cases hdoes with
  | created h => apply Nat.le_succ
  | idle | reads | saves | fails | deletes => apply le_refl

end Server

/-- Every task held has a minted id, and its parent an older one. -/
def Minted (w : Server) : Prop := ∀ t, w.Holds t → MintedTask w.next t

namespace Minted

theorem empty : Minted .empty
  := by
  intro t h
  simp [Server.Holds, Server.empty, WorkStore.empty, WorkStore.allTasks] at h

variable {w : Server}

theorem next (h : Minted w) (a : Act) :
  Minted (Server.machine.next w a)
  := by
  intro t ht
  obtain ⟨u, hu, same⟩ | ⟨hnext, args, hcreated⟩ := Server.holds_next ht
  · apply ((h u hu).of_same same).mono (w.next_le a)
  · rw [hnext]
    constructor
    · rw [hcreated.id]
      apply Nat.lt_succ_self
    · intro p hp
      rw [hcreated.id]
      obtain ⟨found, hfound, -⟩ := hcreated.under p (hcreated.parent.symm.trans hp)
      have hid := WorkStore.loadTask_id hfound
      rw [← hid] at hfound ⊢
      apply (h found (.inl (WorkStore.mem_allTasks.mpr hfound))).id

/-- No task held has the id that is minted next. -/
theorem fresh (h : Minted w) {t : Task} (ht : w.Holds t) :
  t.id ≠ ⟨w.next⟩
  := by
  intro hid
  have := (h t ht).id
  rw [hid] at this
  apply lt_irrefl _ this

end Minted

end Lazybox.Work
