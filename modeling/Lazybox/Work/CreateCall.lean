import Lazybox.Core.TaskRef
import Lazybox.Work.Calls
import Lazybox.Library.MapM
import Mathlib.Data.List.MinMax

/-!
# Links as texts

A link is written as a reference to a record of a tracker, as the key of a workspace after `ws:`,
or as an address.  It is shown in a form that is read back as the same link.
-/

namespace Lazybox.Work

open WorkingClaim (Text stripPrefix)

/-- How a link is shown. -/
def linkLabel : Link → String
  | .workspace key => "ws:" ++ key
  | .tracker id => id.source ++ ":" ++ id.key
  | .url url => url

/-- A reference that begins with the name of its tracker. -/
def sourcePrefixed (raw : Text) : Option TaskId := do
  let (source, key) ← splitOnce ':' raw
  if key = [] then none
  else if String.ofList source ∈ [TaskRef.githubSource, TaskRef.linearSource] then
    some ⟨String.ofList source, String.ofList key⟩
  else none

def parseLink (raw : String) : Except WorkError Link :=
  let text := Lazybox.trim raw.toList
  match stripPrefix "ws:".toList text with
  | some [] => .error (.badRequest "`ws:` with no workspace key after it")
  | some key => .ok (.workspace (String.ofList key))
  | none =>
      match sourcePrefixed text with
      | some id => .ok (.tracker id)
      | none =>
          match TaskRef.parseTaskRef (String.ofList text) none with
          | some id => .ok (.tracker id)
          | none =>
              if "http://".toList <+: text ∨ "https://".toList <+: text then
                .ok (.url (String.ofList text))
              else
                .error (.badRequest ("cannot read " ++ (String.ofList text).quote
                  ++ " as a link — use `owner/repo#N` or an issue URL for a tracker record, "
                  ++ "`ws:<workspace key>` for a workspace, or an http(s) URL"))

variable {raw : String} {link : Link} {id : TaskId}

theorem eq_of_sourcePrefixed {text : Text} (h : sourcePrefixed text = some id) :
  text = id.source.toList ++ ':' :: id.key.toList
  := by
  obtain ⟨⟨source, key⟩, hsplit, h⟩ := Option.bind_eq_some_iff.mp h
  dsimp only at h
  split at h
  · cases h
  · split at h
    · cases h
      rw [String.toList_ofList, String.toList_ofList]
      apply (WorkingClaim.splitOnce_eq_some.mp hsplit).1
    · cases h

/-- A link that is shown as it was written is read back. -/
theorem parseLink_trim (h : parseLink raw = .ok link)
    (hlabel : (linkLabel link).toList = Lazybox.trim raw.toList) :
  parseLink (linkLabel link) = .ok link
  := by
  rw [← h, parseLink, hlabel, WorkingClaim.trim_trim]
  rfl

/-- The record of a tracker is read back. -/
theorem parseLink_tracker
    (hsource : id.source = TaskRef.githubSource ∨ id.source = TaskRef.linearSource)
    (hkey : ∃ init d, id.key.toList = init ++ [d] ∧ d.isDigit) :
  parseLink (linkLabel (.tracker id)) = .ok (.tracker id)
  := by
  obtain ⟨source, key⟩ := id
  obtain ⟨init, d, hkey, hd⟩ := hkey
  dsimp only at hsource hkey
  have hblank : isWhiteSpace d = false := by
    apply WorkingClaim.isWhiteSpace_of_isAlphanum
    rw [Char.isAlphanum, hd, Bool.or_true]
  have hne : key.toList ≠ [] := by
    rw [hkey]
    simp
  have hlabel : (linkLabel (.tracker ⟨source, key⟩)).toList = source.toList ++ ':' :: key.toList := by
    simp [linkLabel]
  have htrim : Lazybox.trim (source.toList ++ ':' :: key.toList)
      = source.toList ++ ':' :: key.toList := by
    rw [hkey]
    obtain rfl | rfl := hsource
    · apply WorkingClaim.trim_of_ends (c := 'g') rfl hblank ("ithub:".toList ++ init)
    · apply WorkingClaim.trim_of_ends (c := 'l') rfl hblank ("inear:".toList ++ init)
  have hcolon : ':' ∉ source.toList := by
    obtain rfl | rfl := hsource
    · decide
    · decide
  have hsplit : sourcePrefixed (source.toList ++ ':' :: key.toList) = some ⟨source, key⟩ := by
    rw [sourcePrefixed, WorkingClaim.splitOnce_append hcolon]
    dsimp only [Option.bind_eq_bind, Option.bind_some]
    rw [if_neg hne, String.ofList_toList, String.ofList_toList, if_pos]
    simpa using hsource
  have hstrip : stripPrefix "ws:".toList (source.toList ++ ':' :: key.toList) = none := by
    obtain rfl | rfl := hsource
    · rfl
    · rfl
  rw [parseLink, hlabel, htrim]
  simp only [hstrip, hsplit]

/-- A link is read back from the form it is shown in. -/
theorem parseLink_linkLabel (h : parseLink raw = .ok link) :
  parseLink (linkLabel link) = .ok link
  := by
  have hread := h
  rw [parseLink] at hread
  split at hread
  · cases hread
  · next key _ hstrip =>
      cases hread
      apply parseLink_trim h
      rw [WorkingClaim.stripPrefix_eq_some.mp hstrip, linkLabel, String.toList_append,
        String.toList_ofList (l := key)]
  · split at hread
    · next hsource =>
        cases hread
        apply parseLink_trim h
        rw [eq_of_sourcePrefixed hsource, linkLabel, String.toList_append, String.toList_append,
          List.append_assoc]
        rfl
    · split at hread
      · next hparse =>
          cases hread
          obtain ⟨hsource, hkey⟩ := TaskRef.exists_last_digit hparse
          apply parseLink_tracker hsource hkey
      · split at hread
        · cases hread
          apply parseLink_trim h
          rw [linkLabel, String.toList_ofList]
        · cases hread

theorem parseLink_linkLabel_number :
  parseLink (linkLabel (.tracker ⟨"github", "acme/widget#7"⟩))
    = .ok (.tracker ⟨"github", "acme/widget#7"⟩)
  := by
  have h : parseLink " <acme/widget.git#+7> " = .ok (.tracker ⟨"github", "acme/widget#7"⟩) := by
    rfl
  apply parseLink_linkLabel h

end Lazybox.Work

/-!
## A create call

What a caller wrote is checked first, against the store where it names rows of it, and the task is
saved then.  One check comes after that: a brief to deliver needs an owner.

The identities of rows, what goes wrong with the store, and what becomes of a brief that is
delivered are given (`Daemon`).
-/

namespace Lazybox.Work

/-! ### The daemon -/

/-- What became of a brief. -/
inductive WorkDelivery where
  | delivered (workspace : String)
  | queued (workspace : String)
  | refused (reason : String)
  | skipped (reason : String)
deriving DecidableEq, Repr

/-- The rows of the store that create reads or writes. -/
structure Stores where
  tasks : WorkStore
  plans : List Plan

/-- What is around a create: how the text of an identity is read and the identity of a new task,
what goes wrong with reading a plan, reading a task and saving a task, and how a brief is
delivered. -/
structure Daemon where
  parseUuid : String → Option ℕ
  newId : WorkStore → WorkId
  planFault : Option String
  parentFault : Option String
  saveFault : Option String
  deliverBrief : String → String → Task → WorkDelivery
  /-- A new identity is that of no row. -/
  newId_fresh : ∀ s, newId s ∉ s.rows.map Prod.fst

/-- What a caller asks to create, as it is written. -/
structure CreateRequest where
  requester : String
  title : String
  brief : String
  owner : Option String
  deliver : Bool
  plan : Option String
  parent : Option String
  links : List String
deriving DecidableEq, Repr

/-- The task that was created, and what became of its brief. -/
structure CreateReport where
  work : Task
  delivery : Option WorkDelivery

/-! ### Checks -/

/-- What the store answers, unless something goes wrong with it. -/
def answered {α : Type} (fault : Option String) (answer : α) : Except WorkError α :=
  match fault with
  | some error => .error (.unavailable error)
  | none => .ok answer

def parseWorkId (D : Daemon) (raw : String) : Except WorkError WorkId :=
  match D.parseUuid (trim raw) with
  | some uuid => .ok ⟨uuid⟩
  | none => .error (.badRequest (raw.quote ++ " is not a work id"))

def parsePlanId (D : Daemon) (raw : String) : Except WorkError PlanId :=
  match D.parseUuid (trim raw) with
  | some uuid => .ok ⟨uuid⟩
  | none => .error (.badRequest (raw.quote ++ " is not a plan id"))

def loadPlan (s : Stores) (id : PlanId) : Option Plan := s.plans.find? fun plan => plan.id = id

/-- The plan that is named, which must be there. -/
def namedPlan (D : Daemon) (s : Stores) : Option String → Except WorkError (Option PlanId)
  | none => .ok none
  | some raw => do
      let id ← parsePlanId D raw
      let found ← answered D.planFault (loadPlan s id)
      if found.isNone then
        .error (.badRequest ("no plan " ++ raw
          ++ " — call work_status to list the plans that exist"))
      else .ok (some id)

/-- The task to nest under that is named, which must be there. -/
def namedParent (D : Daemon) (s : Stores) :
    Option String → Except WorkError (Option (WorkId × Task))
  | none => .ok none
  | some raw => do
      let id ← parseWorkId D raw
      match ← answered D.parentFault (s.tasks.loadTask id) with
      | none => .error (.badRequest ("no work " ++ raw ++ " to nest under"))
      | some found => .ok (some (id, found))

/-- The links that are named, each once. -/
def namedLinks (links : List Link) : List String → Except WorkError (List Link)
  | [] => .ok links
  | raw :: raws => do
      let link ← parseLink raw
      namedLinks (addLink links link) raws

/-- The task that is to be saved. -/
def draft (D : Daemon) (s : Stores) (request : CreateRequest) (now : Instant) :
    Except WorkError Task :=
  let title := trim request.title
  if title = "" then .error (.badRequest "work needs a title")
  else if request.brief.utf8ByteSize > maxBriefBytes then
    .error (.badRequest ("brief exceeds " ++ toString maxBriefBytes
      ++ " bytes — a brief is objective, done-criteria, boundaries and output shape, "
      ++ "not a transcript"))
  else do
    let plan ← namedPlan D s request.plan
    let parent ← namedParent D s request.parent
    let links ← namedLinks [] request.links
    .ok { Task.new (D.newId s.tasks) title (party request.requester) now with
          brief := trim request.brief
          plan := plan.or (parent.bind fun (_, found) => found.plan)
          parent := parent.map Prod.fst
          owner := request.owner.map party
          links := (request.owner.map Link.workspace).elim links (addLink links) }

/-! ### Delivery and the call -/

/-- What becomes of the brief of a task that was saved. -/
def delivery (D : Daemon) (request : CreateRequest) (t : Task) :
    Except WorkError (Option WorkDelivery) :=
  match request.owner with
  | some owner =>
      if owner = request.requester then .ok (some (.skipped "the owner is the caller"))
      else if request.deliver then .ok (some (D.deliverBrief request.requester owner t))
      else .ok (some (.skipped "deliver=false"))
  | none =>
      if request.deliver then .error (.badRequest "deliver=true needs an `owner` to deliver to")
      else .ok none

/-- The answer to a create call, and the store after it. -/
def createCall (D : Daemon) (s : Stores) (request : CreateRequest) (now : Instant) :
    Except WorkError CreateReport × Stores :=
  match draft D s request now with
  | .error error => (.error error, s)
  | .ok t =>
      match D.saveFault with
      | some error => (.error (.unavailable error), s)
      | none =>
          ((delivery D request t).map fun delivery => ⟨t, delivery⟩,
            { s with tasks := s.tasks.saveTask t })

/-! ### What is refused -/

section Refusals

variable {D : Daemon} {s : Stores} {request : CreateRequest} {now : Instant} {t : Task}

/-- A request that passes every check made before the task is saved. -/
structure Admitted (D : Daemon) (s : Stores) (request : CreateRequest) : Prop where
  title : trim request.title ≠ ""
  brief : request.brief.utf8ByteSize ≤ maxBriefBytes
  plan : ∀ raw ∈ request.plan, D.planFault = none
    ∧ ∃ uuid, D.parseUuid (trim raw) = some uuid ∧ (loadPlan s ⟨uuid⟩).isSome
  parent : ∀ raw ∈ request.parent, D.parentFault = none
    ∧ ∃ uuid, D.parseUuid (trim raw) = some uuid ∧ (s.tasks.loadTask ⟨uuid⟩).isSome
  links : ∀ raw ∈ request.links, ∃ link, parseLink raw = .ok link

theorem namedPlan_ok_iff {plan : Option String} :
  (∃ id, namedPlan D s plan = .ok id)
    ↔ ∀ raw ∈ plan, D.planFault = none
        ∧ ∃ uuid, D.parseUuid (trim raw) = some uuid ∧ (loadPlan s ⟨uuid⟩).isSome
  := by
  cases plan with
  | none => simp [namedPlan]
  | some raw =>
    rw [namedPlan, parsePlanId]
    cases huuid : D.parseUuid (trim raw) with
    | none => simp [bind, Except.bind, huuid]
    | some uuid =>
      cases hfault : D.planFault with
      | some error => simp [answered, bind, Except.bind]
      | none =>
        cases hfound : loadPlan s ⟨uuid⟩ with
        | none => simp [answered, bind, Except.bind, huuid, hfound]
        | some plan => simp [answered, bind, Except.bind, huuid, hfound]

theorem namedParent_ok_iff {parent : Option String} :
  (∃ found, namedParent D s parent = .ok found)
    ↔ ∀ raw ∈ parent, D.parentFault = none
        ∧ ∃ uuid, D.parseUuid (trim raw) = some uuid ∧ (s.tasks.loadTask ⟨uuid⟩).isSome
  := by
  cases parent with
  | none => simp [namedParent]
  | some raw =>
    rw [namedParent, parseWorkId]
    cases huuid : D.parseUuid (trim raw) with
    | none => simp [bind, Except.bind, huuid]
    | some uuid =>
      cases hfault : D.parentFault with
      | some error => simp [answered, bind, Except.bind]
      | none =>
        cases hfound : s.tasks.loadTask ⟨uuid⟩ with
        | none => simp [answered, bind, Except.bind, huuid, hfound]
        | some found => simp [answered, bind, Except.bind, huuid, hfound]

theorem namedLinks_ok_iff {links : List Link} {raws : List String} :
  (∃ links', namedLinks links raws = .ok links') ↔ ∀ raw ∈ raws, ∃ link, parseLink raw = .ok link
  := by
  induction raws generalizing links with
  | nil => simp [namedLinks]
  | cons raw raws ih =>
    rw [namedLinks, List.forall_mem_cons]
    cases hlink : parseLink raw with
    | error error => simp [bind, Except.bind]
    | ok link =>
      have hrest := @ih (addLink links link)
      rw [← hrest]
      simp [bind, Except.bind]

/-- What is found for a task that is to be saved. -/
theorem of_draft (h : draft D s request now = .ok t) :
  trim request.title ≠ "" ∧ request.brief.utf8ByteSize ≤ maxBriefBytes
    ∧ ∃ plan parent links, namedPlan D s request.plan = .ok plan
      ∧ namedParent D s request.parent = .ok parent
      ∧ namedLinks [] request.links = .ok links
      ∧ t = { Task.new (D.newId s.tasks) (trim request.title) (party request.requester) now with
              brief := trim request.brief
              plan := plan.or (parent.bind fun found => found.2.plan)
              parent := parent.map Prod.fst
              owner := request.owner.map party
              links := (request.owner.map Link.workspace).elim links (addLink links) }
  := by
  rw [draft] at h
  dsimp only at h
  split at h
  · cases h
  · next htitle =>
      split at h
      · cases h
      · next hbrief =>
          obtain ⟨plan, hplan, h⟩ := MapM.of_bind_eq_ok h
          obtain ⟨parent, hparent, h⟩ := MapM.of_bind_eq_ok h
          obtain ⟨links, hlinks, h⟩ := MapM.of_bind_eq_ok h
          exact ⟨htitle, Nat.le_of_not_lt hbrief, plan, parent, links, hplan, hparent, hlinks,
            (Except.ok.inj h).symm⟩

theorem admitted_of_draft (h : draft D s request now = .ok t) :
  Admitted D s request
  := by
  obtain ⟨htitle, hbrief, plan, parent, links, hplan, hparent, hlinks, -⟩ := of_draft h
  exact ⟨htitle, hbrief, namedPlan_ok_iff.mp ⟨plan, hplan⟩, namedParent_ok_iff.mp ⟨parent, hparent⟩,
    namedLinks_ok_iff.mp ⟨links, hlinks⟩⟩

/-- There is a task to save for a request that is admitted. -/
theorem exists_draft (h : Admitted D s request) (now : Instant) :
  ∃ t, draft D s request now = .ok t
  := by
  obtain ⟨plan, hplan⟩ := namedPlan_ok_iff.mpr h.plan
  obtain ⟨parent, hparent⟩ := namedParent_ok_iff.mpr h.parent
  obtain ⟨links, hlinks⟩ := @namedLinks_ok_iff [] _ |>.mpr h.links
  rw [draft]
  dsimp only
  rw [if_neg h.title, if_neg h.brief.not_gt, hplan, hparent, hlinks]
  exact ⟨_, rfl⟩

/-- The one refusal that comes after the task is saved. -/
theorem exists_delivery_error_iff :
  (∃ error, delivery D request t = .error error) ↔ request.owner = none ∧ request.deliver = true
  := by
  rw [delivery]
  cases howner : request.owner with
  | none =>
    cases hdeliver : request.deliver with
    | false => simp
    | true => simp
  | some owner =>
    dsimp only
    split_ifs with hcaller hdeliver
    · simp
    · simp
    · simp

/-- A store in which a new task is saved is another store. -/
theorem saveTask_ne (fresh : t.id = D.newId s.tasks) :
  { s with tasks := s.tasks.saveTask t } ≠ s
  := by
  intro h
  have hload := congrArg (fun s : Stores => s.tasks.loadTask t.id) h
  dsimp only at hload
  have habsent : Keyed.lookup Prod.fst t.id s.tasks.rows = none := by
    rw [Keyed.lookup_eq_none]
    intro row hrow hid
    apply D.newId_fresh s.tasks
    rw [← fresh, ← hid]
    apply List.mem_map_of_mem hrow
  rw [WorkStore.loadTask_saveTask, if_pos rfl, WorkStore.loadTask, habsent] at hload
  cases hload

end Refusals

/-! ### A refused create -/

/-- A create that is refused leaves the store as it was, except where the one thing wrong with the
request is that there is nobody to deliver its brief to: its task is saved then. -/
theorem createCall_keeps_iff (D : Daemon) (s : Stores) (request : CreateRequest) (now : Instant) :
  ((∃ error, (createCall D s request now).1 = .error error) → (createCall D s request now).2 = s)
    ↔ ¬ (Admitted D s request ∧ D.saveFault = none
          ∧ request.owner = none ∧ request.deliver = true)
  := by
  cases hdraft : draft D s request now with
  | error error =>
      have hkept : (createCall D s request now).2 = s := by rw [createCall, hdraft]
      constructor
      · rintro - ⟨hadmitted, -⟩
        obtain ⟨t, ht⟩ := exists_draft hadmitted now
        rw [hdraft] at ht
        cases ht
      · intro _ _
        apply hkept
  | ok t =>
      have hadmitted := admitted_of_draft hdraft
      have hfresh : t.id = D.newId s.tasks := by
        obtain ⟨-, -, plan, parent, links, -, -, -, rfl⟩ := of_draft hdraft
        rfl
      cases hfault : D.saveFault with
      | some error =>
          have hkept : (createCall D s request now).2 = s := by rw [createCall, hdraft, hfault]
          constructor
          · rintro - ⟨-, hnone, -⟩
            cases hnone
          · intro _ _
            apply hkept
      | none =>
          have hsaved : (createCall D s request now).2
              = { s with tasks := s.tasks.saveTask t } := by rw [createCall, hdraft, hfault]
          have hrefused : (∃ error, (createCall D s request now).1 = .error error)
              ↔ request.owner = none ∧ request.deliver = true := by
            rw [← exists_delivery_error_iff (D := D) (t := t), createCall, hdraft, hfault]
            dsimp only
            cases hdelivery : delivery D request t with
            | error error => simp [Except.map]
            | ok delivery => simp [Except.map]
          rw [hrefused, hsaved]
          constructor
          · rintro hkept ⟨-, -, hundeliverable⟩
            exact saveTask_ne hfresh (hkept hundeliverable)
          · intro hnot hundeliverable
            exact absurd ⟨hadmitted, rfl, hundeliverable⟩ hnot

/-- A daemon with nothing wrong, which names rows one past all there are and reads no identity. -/
def counting : Daemon where
  parseUuid _ := none
  newId s := ⟨(s.rows.map fun row => row.1.uuid).foldr max 0 + 1⟩
  planFault := none
  parentFault := none
  saveFault := none
  deliverBrief _ owner _ := .delivered owner
  newId_fresh s := by
    intro h
    obtain ⟨row, hrow, hid⟩ := List.mem_map.mp h
    have hle : row.1.uuid ≤ (s.rows.map fun row => row.1.uuid).foldr max 0 :=
      List.le_max_of_le' 0 (List.mem_map_of_mem hrow) le_rfl
    rw [hid] at hle
    exact absurd hle (Nat.not_succ_le_self _)

/-- A brief to deliver, and nobody to deliver it to. -/
def undeliverable : CreateRequest where
  requester := "acme/app#1"
  title := "t"
  brief := ""
  owner := none
  deliver := true
  plan := none
  parent := none
  links := []

theorem createCall_undeliverable_saves :
  ¬ ∀ (D : Daemon) (s : Stores) (request : CreateRequest) (now : Instant),
    (∃ error, (createCall D s request now).1 = .error error) → (createCall D s request now).2 = s
  := by
  intro h
  have hkept := h counting ⟨.empty, []⟩ undeliverable 0 ⟨_, rfl⟩
  have hload := congrArg (fun s : Stores => (s.tasks.loadTask ⟨1⟩).isSome) hkept
  exact absurd hload (by decide)

end Lazybox.Work
