import Mathlib.Data.List.DropRight
import Lazybox.Core.MergePolicy

/-!
# The note of a working claim

A claim is stated in a comment: a sentence for whoever reads the thread, and the fields of the
claim, one on a line.  The reader goes through the lines of the comment and takes of each field the
last value it finds.

How times are written and read is given (`Stamps`): a stamp for the sentence, and one which is read
back.  A text is a list of characters.
-/

namespace Lazybox.WorkingClaim

abbrev Text := List Char

/-- A list is gone through, and not all that there is of its type. -/
scoped instance (priority := high) decidableBAll {α : Type} (p : α → Prop) [DecidablePred p]
    (l : List α) : Decidable (∀ a ∈ l, p a) :=
  List.decidableBAll p l

scoped instance (priority := high) lawfulBEqText : LawfulBEq Text := inferInstance

/-! ### Lines -/

/-- The pieces of a text between its line feeds. -/
def splitLines : Text → List Text
  | [] => [[]]
  | c :: s =>
      if c = '\n' then [] :: splitLines s
      else (c :: (splitLines s).headD []) :: (splitLines s).tail

/-- The lines of a text.  The carriage return before a line feed stays; whoever reads a line trims
it. -/
def lines (s : Text) : List Text :=
  if (splitLines s).getLast? = some [] then (splitLines s).dropLast else splitLines s

/-- Texts, each of them ended by a line feed. -/
def unlines (texts : List Text) : Text := texts.flatMap (· ++ ['\n'])

def stripPrefix (p s : Text) : Option Text := if p <+: s then some (s.drop p.length) else none

/-! ### Notes -/

def workingLabelName : String := "working"

def workingClaimCommentMarker : String := "<!-- lazybox:claim -->"

def fieldPrefix : String := "Lazybox-Claim-"

/-- A claim, as it is stated. -/
structure WorkingClaimNote (T : Type) where
  device : Text
  session : Text
  workspace : Option Text
  agent : Option Text
  model : Option Text
  startedAt : T
  heartbeatAt : T
  expiresAt : T
  releasedAt : Option T
deriving DecidableEq

/-- How times are written and read. -/
structure Stamps (T : Type) where
  /-- The stamp a human reads, to the minute. -/
  stamp : T → Text
  /-- The stamp a parser reads back, to the second. -/
  rfc3339 : T → Text
  parseStamp : Text → Option T

inductive Key where
  | device | session | workspace | agent | model | started | heartbeat | expires | released
deriving DecidableEq, Repr

namespace Key

def name : Key → String
  | device => "Device"
  | session => "Session"
  | workspace => "Workspace"
  | agent => "Agent"
  | model => "Model"
  | started => "Started"
  | heartbeat => "Heartbeat"
  | expires => "Expires"
  | released => "Released"

def all : List Key :=
  [device, session, workspace, agent, model, started, heartbeat, expires, released]

def ofName (name : Text) : Option Key := all.find? fun key => key.name.toList = name

end Key

/-! ### Writing -/

namespace WorkingClaimNote

variable {T : Type} (S : Stamps T) (n : WorkingClaimNote T)

/-- The note states a claim that is held at a time, and has not lapsed. -/
def isActiveAt [LT T] [DecidableLT T] (now : T) : Bool :=
  n.releasedAt.isNone && decide (now < n.expiresAt)

/-- Who holds the claim. -/
def who : Text :=
  match n.agent, n.model with
  | some agent, some model => "`".toList ++ agent ++ "` (".toList ++ model ++ ")".toList
  | some agent, none => "`".toList ++ agent ++ "`".toList
  | none, _ => "an agent".toList

/-- The human sentence. -/
def headline : Text :=
  match n.releasedAt with
  | some released =>
      "**lazybox has finished working on this.** ".toList ++ n.who ++ " held it from ".toList
        ++ S.stamp n.startedAt ++ " until ".toList ++ S.stamp released ++ ". The `".toList
        ++ workingLabelName.toList
        ++ "` label has been removed; this comment is the record.".toList
  | none =>
      "**A lazybox agent is working on this.** ".toList ++ n.who ++ " started at ".toList
        ++ S.stamp n.startedAt ++ ", last renewed the claim at ".toList
        ++ S.stamp n.heartbeatAt ++ ", and the claim lapses at ".toList
        ++ S.stamp n.expiresAt
        ++ (" unless it is renewed again. A claim is an assertion with an expiry, "
          ++ "not proof that a process is alive.").toList

def fields : List (Key × Text) :=
  [(.device, n.device), (.session, n.session)]
    ++ (n.workspace.map fun workspace => (.workspace, workspace)).toList
    ++ (n.agent.map fun agent => (.agent, agent)).toList
    ++ (n.model.map fun model => (.model, model)).toList
    ++ [(.started, S.rfc3339 n.startedAt), (.heartbeat, S.rfc3339 n.heartbeatAt),
      (.expires, S.rfc3339 n.expiresAt)]
    ++ (n.releasedAt.map fun released => (.released, S.rfc3339 released)).toList

/-- The text of a field up to its value. -/
def fieldHead (key : Key) : Text := fieldPrefix.toList ++ key.name.toList ++ ":".toList

def fieldText (field : Key × Text) : Text := fieldHead field.1 ++ " ".toList ++ field.2

def render : Text :=
  unlines ([workingClaimCommentMarker.toList, [], n.headline S, [],
      "<details><summary>claim detail</summary>".toList, [], "```".toList]
    ++ (n.fields S).map fieldText
    ++ ["```".toList, [], "</details>".toList])

end WorkingClaimNote

/-! ### Reading -/

/-- What a line says of a field. -/
def readLine (line : Text) : Option (Key × Text) := do
  let rest ← stripPrefix fieldPrefix.toList (trim line)
  let (key, value) ← splitOnce ':' rest
  if trim value = [] then none else (Key.ofName key).map (·, trim value)

/-- The fields that were found so far. -/
structure Found (T : Type) where
  device : Option Text
  session : Option Text
  workspace : Option Text
  agent : Option Text
  model : Option Text
  startedAt : Option T
  heartbeatAt : Option T
  expiresAt : Option T
  releasedAt : Option T

namespace Found

variable {T : Type} (S : Stamps T)

def nothing : Found T := ⟨none, none, none, none, none, none, none, none, none⟩

def assign (f : Found T) : Key × Text → Found T
  | (.device, value) => { f with device := some value }
  | (.session, value) => { f with session := some value }
  | (.workspace, value) => { f with workspace := some value }
  | (.agent, value) => { f with agent := some value }
  | (.model, value) => { f with model := some value }
  | (.started, value) => { f with startedAt := S.parseStamp value }
  | (.heartbeat, value) => { f with heartbeatAt := S.parseStamp value }
  | (.expires, value) => { f with expiresAt := S.parseStamp value }
  | (.released, value) => { f with releasedAt := S.parseStamp value }

def readInto (f : Found T) (line : Text) : Found T :=
  match readLine line with
  | some field => f.assign S field
  | none => f

def note (f : Found T) : Option (WorkingClaimNote T) := do
  let startedAt ← f.startedAt
  let device ← f.device
  let session ← f.session
  let expiresAt ← f.expiresAt
  return {
    device := device
    session := session
    workspace := f.workspace
    agent := f.agent
    model := f.model
    startedAt := startedAt
    heartbeatAt := f.heartbeatAt.getD startedAt
    expiresAt := expiresAt
    releasedAt := f.releasedAt }

end Found

def parse {T : Type} (S : Stamps T) (body : Text) : Option (WorkingClaimNote T) :=
  if workingClaimCommentMarker.toList <+: body.dropWhile isWhiteSpace then
    ((lines body).foldl (Found.readInto S) .nothing).note
  else none

end Lazybox.WorkingClaim
