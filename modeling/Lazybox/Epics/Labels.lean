import Lazybox.Library.ClaimedWrites
import Lazybox.Library.Keyed
import Lazybox.Library.Run
import Lazybox.Epics.Resolve

/-!
# The status labels of members

The status of a member is shown on GitHub by a label of its task.  A pass compares the labels that
are desired with those that were last projected.  It claims each member whose label is to change:
the new label is remembered, and what was remembered before is kept to be put back.  Then it takes
its claims one after another, writes each label, and puts back what was remembered when the write
fails or is not answered in time.

Passes overlap.  The requests of a write reach GitHub at some time before it is answered, or some
of them do when it fails.  What is left of a write that was not answered in time may still reach
GitHub later.
-/

namespace Lazybox.Epics

open ClaimedWrites

/-! ### The desired labels -/

def statusLabelReady : String := "lazybox:ready"
def statusLabelBlocked : String := "lazybox:blocked"
def statusLabelDone : String := "lazybox:done"

def statusLabels : List String := [statusLabelReady, statusLabelBlocked, statusLabelDone]

/-- The label a status is shown by. -/
def statusProjectionLabel : EpicMemberStatus → Option String
  | .blocked | .reviewBlocked => some statusLabelBlocked
  | .done => some statusLabelDone
  | .ready | .claimed | .inProgress | .asking | .prOpen .. | .mergeable .. | .failed => none

/-- The labels of members. -/
abbrev Labels := List (WorkspaceKey × Option String)

namespace Labels

def get (labels : Labels) (key : WorkspaceKey) : Option (Option String) :=
  (Keyed.lookup Prod.fst key labels).map Prod.snd

def remove (labels : Labels) (key : WorkspaceKey) : Labels := Keyed.erase Prod.fst key labels

def insert (labels : Labels) (key : WorkspaceKey) (label : Option String) : Labels :=
  (key, label) :: labels.remove key

variable (labels : Labels) (key k : WorkspaceKey)

@[simp] theorem get_remove :
  (labels.remove key).get k = if k = key then none else labels.get k
  := by
  rw [get, remove, Keyed.lookup_erase]
  split
  all_goals rfl

@[simp] theorem get_insert (label : Option String) :
  (labels.insert key label).get k = if k = key then some label else labels.get k
  := by
  rw [insert, get, Keyed.lookup_cons]
  by_cases h : key = k
  · simp [h]
  · rw [if_neg h, if_neg (Ne.symm h), ← get, get_remove, if_neg (Ne.symm h)]

end Labels

def foldMember (publishStatusLabels : Bool) (into : Labels) (member : EpicMember) : Labels :=
  let entry := (into.get member.key).getD none
  let into := into.insert member.key entry
  if !publishStatusLabels then into
  else if entry = some statusLabelBlocked then into
  else match statusProjectionLabel member.status with
    | some next => into.insert member.key (some next)
    | none => into

/-- Each member of an epic gets an entry, and a label if the epic publishes its statuses. -/
def foldStatusLabels (publishStatusLabels : Bool) (snapshot : EpicSnapshot) (into : Labels) :
    Labels :=
  snapshot.members.foldl (foldMember publishStatusLabels) into

/-! ### Claiming members -/

/-- What a pass reads of the task a member is shown by. -/
structure PrimaryTask where
  id : TaskId
  repo : Option String
deriving DecidableEq, Repr

/-- A task of a GitHub repository. -/
abbrev GithubTask := TaskId × String

/-- Only a GitHub task can carry the label. -/
def githubTarget (primary : Option PrimaryTask) : Option GithubTask :=
  match primary with
  | some task => if task.id.source = "github" then task.repo.map (task.id, ·) else none
  | none => none

/-- The claim of a member, and the task its label is to be written on. -/
structure Target extends Claim (Option String) where
  key : WorkspaceKey
  task : GithubTask
  /-- The member is in no epic any more. -/
  departed : Bool
deriving DecidableEq, Repr

/-- What was remembered before the claim is remembered again. -/
def Target.rollBack (target : Target) (labels : Labels) : Labels :=
  match target.previous with
  | some previous => labels.insert target.key previous
  | none => labels.remove target.key

/-- A pass comes to a member. -/
def claimMember (desired : Labels) (primary : WorkspaceKey → Option PrimaryTask)
    (memory : Labels × List Target) (key : WorkspaceKey) : Labels × List Target :=
  let (labels, targets) := memory
  let departed := (desired.get key).isNone
  let want := (desired.get key).join
  if labels.get key = some want ∧ !departed then (labels, targets)
  else match githubTarget (primary key) with
  | none => (if departed then labels.remove key else labels.insert key want, targets)
  | some task =>
      if departed ∧ labels.get key = some none then (labels.remove key, targets)
      else
        (labels.insert key want,
          targets ++ [⟨⟨want, labels.get key, .issued⟩, key, task, departed⟩])

/-- The members a pass comes to: those that are desired, and those that are remembered. -/
def consideredKeys (desired labels : Labels) : List WorkspaceKey :=
  sortedKeys (desired.map Prod.fst ++ labels.map Prod.fst)

def claimMembers (desired : Labels) (primary : WorkspaceKey → Option PrimaryTask)
    (labels : Labels) : Labels × List Target :=
  (consideredKeys desired labels).foldl (claimMember desired primary) (labels, [])

/-! ### Writing labels -/

/-- The labels of a task after a write.  Labels that show no status are left alone. -/
def syncEpicStatusLabel (desired : Option String) (attached : List String) : List String :=
  let held := attached.filter fun name => name ∈ statusLabels
  let attached := match desired with
    | some label => if label ∈ held then attached else attached ++ [label]
    | none => attached
  attached.filter fun name => !(name ∈ held && some name ≠ desired)

inductive WriteOutcome where
  | synced
  | failed
  | timedOut
deriving DecidableEq, Repr

structure LabelPass where
  /-- The GitHub client was found, and the writes have begun. -/
  begun : Bool
  /-- The claims whose writes are not answered, the one that is written first. -/
  targets : List Target
deriving DecidableEq, Repr

/-- The daemon and the labels on GitHub. -/
structure Projection where
  /-- The labels remembered as the last projected. -/
  labels : Labels
  upstream : GithubTask → List String
  /-- The passes in the order they were started. -/
  passes : List LabelPass
  /-- The writes that were not answered in time. -/
  lost : List Target
  /-- The write of the member that was answered last failed. -/
  failedLast : WorkspaceKey → Bool

inductive LabelAct where
  /-- A pass claims the members whose labels change. -/
  | plan (desired : Labels) (primary : WorkspaceKey → Option PrimaryTask)
  | client (pass : ℕ) (available : Bool)
  /-- Some of the requests of a write reach GitHub, and leave these labels. -/
  | reach (pass : ℕ) (left : List String)
  /-- The last request of a write reaches GitHub. -/
  | land (pass : ℕ)
  | answer (pass : ℕ) (outcome : WriteOutcome)
  /-- What is left of a write that was not answered in time reaches GitHub. -/
  | stray (write : ℕ) (left : List String)

namespace Projection

variable (s : Projection)

def start (upstream : GithubTask → List String) : Projection :=
  ⟨[], upstream, [], [], fun _ => false⟩

/-- The claim a pass is writing, and those it has still to write. -/
def writing (pass : ℕ) : Option (Target × List Target) :=
  match s.passes[pass]? with
  | some ⟨true, target :: rest⟩ => some (target, rest)
  | _ => none

/-- A pass goes on with these claims. -/
def goesOn (pass : ℕ) (targets : List Target) : Projection :=
  { s with passes := s.passes.set pass ⟨true, targets⟩ }

def setUpstream (task : GithubTask) (labels : List String) : Projection :=
  { s with upstream := Function.update s.upstream task labels }

def plan (desired : Labels) (primary : WorkspaceKey → Option PrimaryTask) : Projection :=
  let (labels, targets) := claimMembers desired primary s.labels
  { s with labels, passes := s.passes ++ [⟨false, targets⟩] }

/-- Without a client, a pass undoes all its claims. -/
def client (pass : ℕ) (available : Bool) : Projection :=
  match s.passes[pass]? with
  | some ⟨false, targets⟩ =>
      if available then s.goesOn pass targets
      else
        { s.goesOn pass [] with
          labels := targets.foldl (fun labels target => target.rollBack labels) s.labels }
  | _ => s

def reach (pass : ℕ) (left : List String) : Projection :=
  match s.writing pass with
  | some (target, rest) =>
      if target.stage = .landed then s
      else (s.setUpstream target.task left).goesOn pass ({ target with stage := .partly } :: rest)
  | none => s

def land (pass : ℕ) : Projection :=
  match s.writing pass with
  | some (target, rest) =>
      if target.stage = .landed then s
      else
        (s.setUpstream target.task
          (syncEpicStatusLabel target.want (s.upstream target.task))).goesOn pass
          ({ target with stage := .landed } :: rest)
  | none => s

/-- A write succeeds only when its last request has reached GitHub. -/
def answer (pass : ℕ) (outcome : WriteOutcome) : Projection :=
  match s.writing pass with
  | some (target, rest) =>
      match outcome with
      | .synced =>
          if target.stage = .landed then
            { s.goesOn pass rest with
              labels := if target.departed then s.labels.remove target.key else s.labels
              failedLast := Function.update s.failedLast target.key false }
          else s
      | .failed | .timedOut =>
          { s.goesOn pass rest with
            labels := target.rollBack s.labels
            lost := if outcome = .timedOut then s.lost ++ [target] else s.lost
            failedLast := Function.update s.failedLast target.key true }
  | none => s

def stray (write : ℕ) (left : List String) : Projection :=
  match s.lost[write]? with
  | some target => s.setUpstream target.task left
  | none => s

def step : LabelAct → Projection
  | .plan desired primary => s.plan desired primary
  | .client pass available => s.client pass available
  | .reach pass left => s.reach pass left
  | .land pass => s.land pass
  | .answer pass outcome => s.answer pass outcome
  | .stray write left => s.stray write left

end Projection

def projectLabels : Machine Projection LabelAct Empty := ⟨fun s a => (s.step a, [])⟩

end Lazybox.Epics
