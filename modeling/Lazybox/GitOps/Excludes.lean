import Lazybox.Core.ClaimLines
import Lazybox.Library.Run

/-!
# The excludes of a repository

The two paths lazybox writes in a worktree are hidden from git by lines of `info/exclude`, a file
which all worktrees of a repository share, and which its user writes in too.  A call reads the file,
appends the patterns which it does not have, and puts the result in the place of the file, in one
step.  Any number of calls may be under way, and each of their steps on the disk may fail.

A file that cannot be read, or is not a text, is taken for an empty one, and is replaced by the
patterns alone.
-/

namespace Lazybox.TaskCache

open WorkingClaim (Text lines unlines splitLines)
open scoped WorkingClaim

def TASK_FILE_RELATIVE_PATH : String := ".lazybox/task.json"

def ARTIFACT_SPOOL_RELATIVE_PATH : String := ".lazybox/artifacts"

def patterns : List Text :=
  [("/" ++ TASK_FILE_RELATIVE_PATH).toList, ("/" ++ ARTIFACT_SPOOL_RELATIVE_PATH ++ "/").toList]

def missing (existing : Text) : List Text :=
  patterns.filter fun pattern => !(lines existing).any fun line => trim line = pattern

/-- The text with a line feed at its end, if there is anything in it. -/
def ended (existing : Text) : Text :=
  if existing ≠ [] ∧ existing.getLast? ≠ some '\n' then existing ++ ['\n'] else existing

def body (existing : Text) : Text := ended existing ++ unlines (missing existing)

/-- What is read, unless the read fails: there may be no file, or it is not a text. -/
def readToString (fails : Bool) (exclude : Option ByteArray) : Option Text :=
  if fails then none else exclude.bind fun bytes => (String.fromUTF8? bytes).map String.toList

/-! ### Calls -/

/-- What a call returns; `outside` of a git checkout there is nothing to exclude from. -/
inductive Returned where
  | outside
  | ok
  | failed
deriving DecidableEq, Repr

/-- How far a call of `exclude_lazybox_paths` has come. -/
inductive Stage where
  | reading
  | creatingDir (body : Text)
  | writing (body : Text)
  | renaming (body : Text)
  | returned (result : Returned)
deriving DecidableEq, Repr

abbrev CallId := ℕ

/-- The file, if there is one, and the calls. -/
structure Disk where
  exclude : Option ByteArray
  calls : CallId → Option Stage

namespace Disk

def new (exclude : Option ByteArray) : Disk := ⟨exclude, fun _ => none⟩

def setCall (d : Disk) (c : CallId) (stage : Stage) : Disk :=
  { d with calls := Function.update d.calls c (some stage) }

end Disk

/-- A step of a call, and whether it fails.  The file beside the excludes which is written first has
a name of its own. -/
inductive Act where
  | start (c : CallId) (isCheckout : Bool)
  | read (c : CallId) (fails : Bool)
  | createDir (c : CallId) (fails : Bool)
  | write (c : CallId) (fails : Bool)
  | rename (c : CallId) (fails : Bool)
deriving DecidableEq, Repr

/-- What a call does once it has read. -/
def afterRead (existing : Text) : Stage :=
  if missing existing = [] then .returned .ok else .creatingDir (body existing)

def Disk.next (d : Disk) : Act → Disk
  | .start c isCheckout =>
      match d.calls c with
      | none => d.setCall c (if isCheckout then .reading else .returned .outside)
      | some _ => d
  | .read c fails =>
      match d.calls c with
      | some .reading => d.setCall c (afterRead ((readToString fails d.exclude).getD []))
      | _ => d
  | .createDir c fails =>
      match d.calls c with
      | some (.creatingDir body) =>
          d.setCall c (if fails then .returned .failed else .writing body)
      | _ => d
  | .write c fails =>
      match d.calls c with
      | some (.writing body) =>
          d.setCall c (if fails then .returned .failed else .renaming body)
      | _ => d
  | .rename c fails =>
      match d.calls c with
      | some (.renaming body) =>
          if fails then d.setCall c (.returned .failed)
          else { d.setCall c (.returned .ok) with exclude := some (String.ofList body).toByteArray }
      | _ => d

def excluding : Machine Disk Act Empty := ⟨fun d a => (d.next a, [])⟩

/-! ### What is kept -/

def bytes (exclude : Option ByteArray) : List UInt8 := (exclude.getD .empty).data.toList

/-- The text of the file, if it is one. -/
def textOf : Option ByteArray → Option Text
  | none => some []
  | some bytes => (String.fromUTF8? bytes).map String.toList

/-- How many lines of the file are a pattern. -/
def occurrences (pattern : Text) (exclude : Option ByteArray) : ℕ :=
  (lines ((textOf exclude).getD [])).countP fun line => trim line = pattern

/-- From one state to a later one the file only grows, no pattern comes twice, and once a call that
hides the paths has returned every pattern is there and nothing changes any more. -/
structure Kept (early late : Disk) : Prop where
  grows : bytes early.exclude <+: bytes late.exclude
  once : ∀ pattern ∈ patterns,
    occurrences pattern late.exclude ≤ max 1 (occurrences pattern early.exclude)
  hidden : ∀ c, early.calls c = some (.returned .ok) →
    (∀ pattern ∈ patterns, 0 < occurrences pattern early.exclude) ∧ late.exclude = early.exclude

def KeepsExcludes (exclude : Option ByteArray) (acts : List Act) : Prop :=
  ∀ before between after, acts = before ++ between ++ after →
    Kept (excluding.final (.new exclude) before)
      (excluding.final (.new exclude) (before ++ between))

/-- The text with the patterns hidden. -/
def hidden (existing : Text) : Text :=
  if missing existing = [] then existing else body existing

/-- A call reads the text of the file, or the file is of no more than the patterns. -/
def Legible (d : Disk) : Act → Prop
  | .read c fails => d.calls c = some .reading →
      ∃ existing, textOf d.exclude = some existing ∧ (fails = true → hidden existing = body [])
  | .start _ _ | .createDir _ _ | .write _ _ | .rename _ _ => True

/-! ### Lines -/

theorem getLast_splitLines_concat (s : Text) {c : Char} (h : c ≠ '\n') :
  (splitLines (s ++ [c])).getLast? ≠ some []
  := by
  induction s with
  | nil => simp [splitLines, h]
  | cons d s ih =>
    have hne := WorkingClaim.splitLines_ne_nil (s ++ [c])
    rw [List.cons_append, splitLines]
    split_ifs
    · rwa [List.getLast?_cons_of_ne_nil hne]
    · obtain ⟨line, rest, hlines⟩ := List.exists_cons_of_ne_nil hne
      rw [hlines] at ih ⊢
      cases rest with
      | nil => simp
      | cons next rest => simpa using ih

theorem lines_of_ended (s : Text) :
  lines (s ++ ['\n']) = splitLines s
  := by
  rw [lines, WorkingClaim.splitLines_append_newline]
  simp [splitLines]

/-- What is ended by a line feed has the lines it had. -/
theorem exists_ended (s : Text) :
  s = [] ∨ ∃ s', ended s = s' ++ ['\n'] ∧ lines s = splitLines s'
  := by
  obtain rfl | ⟨s', c, rfl⟩ := s.eq_nil_or_concat'
  · left
    rfl
  · right
    obtain rfl | hc := eq_or_ne c '\n'
    · use s'
      exact ⟨by simp [ended], lines_of_ended s'⟩
    · use s' ++ [c]
      constructor
      · simp [ended, hc]
      · rw [lines, if_neg (getLast_splitLines_concat s' hc)]

/-- Lines put after a text. -/
theorem lines_ended_append (s : Text) {ps : List Text} (h : ∀ p ∈ ps, '\n' ∉ p) :
  lines (ended s ++ unlines ps) = lines s ++ ps
  := by
  have hsplit : ps.flatMap splitLines = ps := by
    induction ps with
    | nil => rfl
    | cons p ps ih =>
      rw [List.forall_mem_cons] at h
      rw [List.flatMap_cons, WorkingClaim.splitLines_of_notMem h.1, ih h.2]
      rfl
  obtain rfl | ⟨s', hended, hlines⟩ := exists_ended s
  · rw [show ended [] = [] from rfl, List.nil_append, lines, WorkingClaim.splitLines_unlines,
      hsplit]
    simp [lines, splitLines]
  · rw [hended, hlines, List.append_assoc, List.singleton_append, lines,
      WorkingClaim.splitLines_append_newline, WorkingClaim.splitLines_unlines, hsplit,
      ← List.append_assoc]
    simp

/-! ### Hidden patterns -/

variable {pattern : Text}

theorem notMem_of_mem_patterns (h : pattern ∈ patterns) :
  '\n' ∉ pattern
  := by
  revert pattern
  decide +kernel

theorem trim_of_mem_patterns (h : pattern ∈ patterns) :
  trim pattern = pattern
  := by
  revert pattern
  decide +kernel

theorem lines_body (existing : Text) :
  lines (body existing) = lines existing ++ missing existing
  := by
  apply lines_ended_append
  intro pattern hpattern
  apply notMem_of_mem_patterns (List.mem_of_mem_filter hpattern)

theorem lines_hidden (existing : Text) :
  lines (hidden existing) = lines existing ++ missing existing
  := by
  rw [hidden]
  split_ifs with h
  · rw [h, List.append_nil]
  · apply lines_body

variable {existing : Text}

theorem mem_missing :
  pattern ∈ missing existing
    ↔ pattern ∈ patterns ∧ ∀ line ∈ lines existing, trim line ≠ pattern
  := by
  simp [missing]

theorem missing_hidden (existing : Text) :
  missing (hidden existing) = []
  := by
  rw [List.eq_nil_iff_forall_not_mem]
  intro pattern h
  rw [mem_missing, lines_hidden] at h
  obtain ⟨hpattern, hlines⟩ := h
  have hmissing : pattern ∈ missing existing := by
    rw [mem_missing]
    use hpattern
    intro line hline
    apply hlines line (List.mem_append_left _ hline)
  apply hlines pattern (List.mem_append_right _ hmissing) (trim_of_mem_patterns hpattern)

theorem hidden_of_missing (h : missing existing = []) :
  hidden existing = existing
  := by
  rw [hidden, if_pos h]

theorem prefix_hidden (existing : Text) :
  existing <+: hidden existing
  := by
  rw [hidden]
  split_ifs
  · apply List.prefix_rfl
  · rw [body, ended]
    split_ifs
    · rw [List.append_assoc]
      apply List.prefix_append
    · apply List.prefix_append

/-- How many lines of a text are a pattern. -/
def hits (pattern : Text) (texts : List Text) : ℕ := texts.countP fun line => trim line = pattern

/-- A pattern is appended once, and only when it was not there. -/
theorem hits_hidden_le (pattern existing : Text) :
  hits pattern (lines (hidden existing)) ≤ max 1 (hits pattern (lines existing))
  := by
  have hnew : hits pattern (missing existing) ≤ (missing existing).count pattern := by
    rw [hits, List.count]
    apply List.countP_mono_left
    intro line hline htrim
    have hself := trim_of_mem_patterns (List.mem_of_mem_filter hline)
    rw [decide_eq_true_eq, hself] at htrim
    simpa using htrim
  have hnodup : (missing existing).Nodup := List.Nodup.filter _ (by decide +kernel)
  rw [lines_hidden, hits, List.countP_append, ← hits, ← hits]
  by_cases hmissing : pattern ∈ missing existing
  · have hnone : hits pattern (lines existing) = 0 := by
      rw [mem_missing] at hmissing
      simpa [hits, List.countP_eq_zero] using hmissing.2
    have hone := List.nodup_iff_count_le_one.mp hnodup pattern
    omega
  · have hnone := List.count_eq_zero.mpr hmissing
    omega

theorem hits_pos (h : missing existing = []) (hp : pattern ∈ patterns) :
  0 < hits pattern (lines existing)
  := by
  rw [hits, List.countP_pos_iff]
  by_contra hnone
  have hmissing : pattern ∈ missing existing := by
    rw [mem_missing]
    simpa [hp] using hnone
  rw [h] at hmissing
  apply List.not_mem_nil hmissing

/-! ### Files -/

theorem textOf_written (t : Text) :
  textOf (some (String.ofList t).toByteArray) = some t
  := by
  rw [textOf, String.fromUTF8?, dif_pos (String.ofList t).isValidUTF8, Option.map_some,
    Option.some.injEq]
  exact String.toList_ofList

variable {exclude : Option ByteArray}

variable {t : Text}

theorem of_textOf (h : textOf exclude = some t) :
  exclude = some (String.ofList t).toByteArray ∨ (exclude = none ∧ t = [])
  := by
  cases exclude with
  | none =>
    right
    simpa [textOf, eq_comm] using h
  | some b =>
    left
    rw [textOf, String.fromUTF8?] at h
    split_ifs at h with hvalid
    · rw [Option.map_some, Option.some.injEq] at h
      rw [← h, String.ofList_toList]
      rfl
    · simp at h

theorem bytes_written (t : Text) :
  bytes (some (String.ofList t).toByteArray) = t.utf8Encode.data.toList
  := by
  rw [bytes, Option.getD_some, String.toByteArray_ofList]

theorem bytes_of_textOf (h : textOf exclude = some t) :
  bytes exclude = t.utf8Encode.data.toList
  := by
  obtain rfl | ⟨rfl, rfl⟩ := of_textOf h
  · apply bytes_written
  · rfl

theorem utf8Encode_prefix {s : Text} (h : s <+: t) :
  s.utf8Encode.data.toList <+: t.utf8Encode.data.toList
  := by
  obtain ⟨rest, rfl⟩ := h
  rw [List.utf8Encode_append, ByteArray.data_append, Array.toList_append]
  apply List.prefix_append

theorem occurrences_eq (h : textOf exclude = some t) (pattern : Text) :
  occurrences pattern exclude = hits pattern (lines t)
  := by
  rw [occurrences, h]
  rfl

/-! ### Steps -/

/-- What a call that is under way will write. -/
def Stage.body? : Stage → Option Text
  | .creatingDir body | .writing body | .renaming body => some body
  | .reading | .returned _ => none

/-- Whoever is about to write has the text of the file with the patterns hidden, and once a call
has hidden them they are there. -/
structure Sound (d : Disk) : Prop where
  writes : ∀ c stage body, d.calls c = some stage → stage.body? = some body →
    ∃ existing, textOf d.exclude = some existing ∧ body = hidden existing
  hidden : ∀ c, d.calls c = some (.returned .ok) →
    ∃ existing, textOf d.exclude = some existing ∧ missing existing = []

/-- The file stays, or the patterns are hidden in it. -/
def Hides (early late : Disk) : Prop :=
  late.exclude = early.exclude
    ∨ ∃ existing, textOf early.exclude = some existing
      ∧ late.exclude = some (String.ofList (hidden existing)).toByteArray

theorem hides_refl (d : Disk) :
  Hides d d
  := .inl rfl

theorem hides_trans (d e f : Disk) (h : Hides d e) (h' : Hides e f) :
  Hides d f
  := by
  obtain h | ⟨existing, htext, h⟩ := h
  · rwa [Hides, ← h]
  · right
    use existing, htext
    obtain h' | ⟨existing', htext', h'⟩ := h'
    · rw [h', h]
    · rw [h, textOf_written, Option.some.injEq] at htext'
      rw [h', ← htext', hidden_of_missing (missing_hidden existing)]

section Steps

variable {d : Disk}

theorem sound_new (exclude : Option ByteArray) :
  Sound (.new exclude)
  := by
  constructor
  · intro c stage body h
    simp [Disk.new] at h
  · intro c h
    simp [Disk.new] at h

@[simp]
theorem calls_setCall_self (d : Disk) (c : CallId) (stage : Stage) :
  (d.setCall c stage).calls c = some stage
  := Function.update_self c _ _

variable {c : CallId}

theorem calls_setCall_of_ne (d : Disk) {c' : CallId} (h : c' ≠ c) (stage : Stage) :
  (d.setCall c stage).calls c' = d.calls c'
  := Function.update_of_ne h _ _

@[simp]
theorem exclude_setCall (d : Disk) (c : CallId) (stage : Stage) :
  (d.setCall c stage).exclude = d.exclude
  := rfl

theorem Sound.setCall
    (sound : Sound d) (c : CallId) {stage : Stage}
    (writes : ∀ body, stage.body? = some body →
      ∃ existing, textOf d.exclude = some existing ∧ body = TaskCache.hidden existing)
    (hidden : stage = .returned .ok →
      ∃ existing, textOf d.exclude = some existing ∧ missing existing = []) :
  Sound (d.setCall c stage)
  := by
  constructor
  · intro c' stage' body h hbody
    obtain rfl | hne := eq_or_ne c' c
    · rw [calls_setCall_self, Option.some.injEq] at h
      subst h
      apply writes body hbody
    · rw [calls_setCall_of_ne d hne] at h
      apply sound.writes c' stage' body h hbody
  · intro c' h
    obtain rfl | hne := eq_or_ne c' c
    · rw [calls_setCall_self, Option.some.injEq] at h
      apply hidden h
    · rw [calls_setCall_of_ne d hne] at h
      apply sound.hidden c' h

/-- The file is replaced, which is what every other call is about to do. -/
theorem Sound.rename (sound : Sound d) {body : Text} (h : d.calls c = some (.renaming body)) :
  Sound { d.setCall c (.returned .ok) with exclude := some (String.ofList body).toByteArray }
  := by
  obtain ⟨existing, htext, rfl⟩ := sound.writes c _ body h rfl
  have hagain := hidden_of_missing (missing_hidden existing)
  constructor
  · intro c' stage' body' h' hbody'
    change (d.setCall c (.returned .ok)).calls c' = some stage' at h'
    use TaskCache.hidden existing, textOf_written _
    obtain rfl | hne := eq_or_ne c' c
    · rw [calls_setCall_self, Option.some.injEq] at h'
      subst h'
      simp [Stage.body?] at hbody'
    · rw [calls_setCall_of_ne d hne] at h'
      obtain ⟨existing', htext', rfl⟩ := sound.writes c' stage' body' h' hbody'
      rw [htext, Option.some.injEq] at htext'
      rw [hagain, htext']
  · intro _ _
    use TaskCache.hidden existing, textOf_written _
    apply missing_hidden

variable {existing : Text}

/-- What a call reads of a text. -/
theorem readToString_of_textOf {exclude : Option ByteArray} (h : textOf exclude = some existing)
    (fails : Bool) :
  (readToString fails exclude).getD [] = if fails then [] else existing
  := by
  cases fails with
  | true => rfl
  | false =>
    obtain rfl | ⟨rfl, rfl⟩ := of_textOf h
    · rw [textOf] at h
      simp only [readToString, Bool.false_eq_true, if_false, Option.bind_some, h,
        Option.getD_some]
    · rfl

theorem missing_nil :
  missing [] = patterns
  := by decide +kernel

theorem afterRead_nil :
  afterRead [] = .creatingDir (body [])
  := by
  rw [afterRead, if_neg]
  rw [missing_nil]
  apply List.cons_ne_nil

theorem Sound.read (sound : Sound d) {fails : Bool} (hcall : d.calls c = some .reading)
    (legible : Legible d (.read c fails)) :
  Sound (d.next (.read c fails))
  := by
  obtain ⟨existing, htext, hown⟩ := legible hcall
  rw [Disk.next, hcall]
  apply sound.setCall
  · intro body' hbody
    use existing, htext
    rw [readToString_of_textOf htext] at hbody
    cases fails with
    | true =>
      rw [if_pos rfl, afterRead_nil, Stage.body?, Option.some.injEq] at hbody
      rw [hown rfl, hbody]
    | false =>
      rw [if_neg Bool.false_ne_true, afterRead] at hbody
      rw [TaskCache.hidden]
      split_ifs at hbody ⊢
      · simp [Stage.body?] at hbody
      · simpa [Stage.body?, eq_comm] using hbody
  · intro hstage
    use existing, htext
    rw [readToString_of_textOf htext] at hstage
    cases fails with
    | true => simp [afterRead_nil] at hstage
    | false =>
      by_contra hmissing
      simp [afterRead, hmissing] at hstage

/-- A step on the way from the body to the file. -/
theorem Sound.carry (sound : Sound d) {stage stage' : Stage} (hcall : d.calls c = some stage)
    (hbody : ∀ body, stage'.body? = some body → stage.body? = some body)
    (hok : stage' ≠ .returned .ok) :
  Sound (d.setCall c stage')
  := by
  apply sound.setCall
  · intro body hstage
    apply sound.writes c stage body hcall (hbody body hstage)
  · intro h
    apply absurd h hok

theorem sound_next (sound : Sound d) {a : Act} (legible : Legible d a) :
  Sound (d.next a)
  := by
  cases a with
  | start c isCheckout =>
    cases hcall : d.calls c with
    | some stage => simpa [Disk.next, hcall] using sound
    | none =>
      rw [Disk.next, hcall]
      apply sound.setCall
      · intro body hbody
        cases isCheckout <;> simp [Stage.body?] at hbody
      · intro hok
        cases isCheckout <;> simp at hok
  | read c fails =>
    by_cases hcall : d.calls c = some .reading
    · apply sound.read hcall legible
    · rw [Disk.next]
      split
      · contradiction
      · apply sound
  | createDir c fails =>
    rw [Disk.next]
    split
    · next body hcall => cases fails <;> apply sound.carry hcall <;> simp [Stage.body?]
    · apply sound
  | write c fails =>
    rw [Disk.next]
    split
    · next body hcall => cases fails <;> apply sound.carry hcall <;> simp [Stage.body?]
    · apply sound
  | rename c fails =>
    rw [Disk.next]
    split
    · next body hcall =>
        cases fails with
        | true => apply sound.carry hcall <;> simp [Stage.body?]
        | false => apply sound.rename hcall
    · apply sound

/-- The file is only ever replaced by a rename. -/
theorem hides_next (sound : Sound d) (a : Act) :
  Hides d (d.next a)
  := by
  cases a with
  | start c isCheckout | read c fails | createDir c fails | write c fails =>
    left
    rw [Disk.next]
    split <;> rfl
  | rename c fails =>
    rw [Disk.next]
    split
    · next body hcall =>
        cases fails with
        | true =>
          left
          rfl
        | false =>
          right
          obtain ⟨existing, htext, rfl⟩ := sound.writes c _ body hcall rfl
          use existing, htext
          rfl
    · left
      rfl

theorem kept_of_hides {early late : Disk} (sound : Sound early) (h : Hides early late) :
  Kept early late
  := by
  obtain h | ⟨existing, htext, h⟩ := h
  · constructor
    · rw [h]
    · intro pattern _
      rw [h]
      apply le_max_right
    · intro c hc
      obtain ⟨existing, htext, hmissing⟩ := sound.hidden c hc
      use fun pattern hpattern => by
        rw [occurrences_eq htext]
        apply hits_pos hmissing hpattern
  · constructor
    · rw [h, bytes_of_textOf htext, bytes_written]
      apply utf8Encode_prefix (prefix_hidden existing)
    · intro pattern _
      rw [occurrences_eq htext, h, occurrences_eq (textOf_written _)]
      apply hits_hidden_le
    · intro c hc
      obtain ⟨existing', htext', hmissing⟩ := sound.hidden c hc
      obtain rfl : existing = existing' := by rwa [htext, Option.some.injEq] at htext'
      constructor
      · intro pattern hpattern
        rw [occurrences_eq htext]
        apply hits_pos hmissing hpattern
      · rw [h, hidden_of_missing hmissing]
        obtain hfile | ⟨-, rfl⟩ := of_textOf htext
        · exact hfile.symm
        · rw [missing_nil] at hmissing
          simp [patterns] at hmissing

/-! ### A misread file -/

/-- What a call in flight does from the body on. -/
def finishing (c : CallId) : List Act := [.createDir c false, .write c false, .rename c false]

theorem final_finishing {body : Text} (h : d.calls c = some (.creatingDir body)) :
  (excluding.final d (finishing c)).exclude = some (String.ofList body).toByteArray
    ∧ (excluding.final d (finishing c)).calls c = some (.returned .ok)
    ∧ ∀ c' ≠ c, (excluding.final d (finishing c)).calls c' = d.calls c'
  := by
  simp only [finishing, Machine.final, Machine.next, excluding, Disk.next, h, calls_setCall_self,
    Bool.false_eq_true, if_false, true_and]
  intro c' hne
  simp only [calls_setCall_of_ne _ hne]

/-- A call, none of whose steps fails. -/
def whole (c : CallId) : List Act := [.start c true, .read c false] ++ finishing c

theorem final_whole (hfree : d.calls c = none) (htext : textOf d.exclude = some existing) :
  textOf (excluding.final d (whole c)).exclude = some (hidden existing)
    ∧ (excluding.final d (whole c)).calls c = some (.returned .ok)
    ∧ ∀ c' ≠ c, (excluding.final d (whole c)).calls c' = d.calls c'
  := by
  have hread : excluding.final d [.start c true, .read c false]
      = (d.setCall c .reading).setCall c (afterRead existing) := by
    simp [Machine.final, Machine.next, excluding, Disk.next, hfree, readToString_of_textOf htext]
  have hothers (c') (hne : c' ≠ c) :
      ((d.setCall c .reading).setCall c (afterRead existing)).calls c' = d.calls c' := by
    rw [calls_setCall_of_ne _ hne, calls_setCall_of_ne _ hne]
  rw [whole, Machine.final_append, hread]
  by_cases hmissing : missing existing = []
  · have hstage : ((d.setCall c .reading).setCall c (afterRead existing)).calls c
        = some (.returned .ok) := by rw [calls_setCall_self, afterRead, if_pos hmissing]
    simp only [finishing, Machine.final, Machine.next, excluding, Disk.next, hstage,
      exclude_setCall, htext, hidden_of_missing hmissing, true_and]
    exact hothers
  · have hstage : ((d.setCall c .reading).setCall c (afterRead existing)).calls c
        = some (.creatingDir (body existing)) := by
      rw [calls_setCall_self, afterRead, if_neg hmissing]
    obtain ⟨hfile, hok, hrest⟩ := final_finishing hstage
    rw [hfile, textOf_written, hidden, if_neg hmissing]
    use rfl, hok
    intro c' hne
    rw [hrest c' hne, hothers c' hne]

theorem along_whole {k : CallId} (hfree : d.calls k = none)
    (htext : textOf d.exclude = some existing) :
  excluding.Along Legible d (whole k ++ finishing c)
  := by
  have hread : Legible (d.next (.start k true)) (.read k false) := by
    intro _
    use existing
    rw [Disk.next, hfree]
    exact ⟨htext, nofun⟩
  exact ⟨trivial, hread, trivial, trivial, trivial, trivial, trivial, trivial, trivial⟩

def Act.call : Act → CallId
  | start c _ | read c _ | createDir c _ | write c _ | rename c _ => c

/-- A step of one call leaves the others where they are. -/
theorem calls_next_of_ne {a : Act} (h : c ≠ a.call) :
  (d.next a).calls c = d.calls c
  := by
  cases a <;> rw [Disk.next] <;> split <;> try split
  all_goals first | rfl | apply calls_setCall_of_ne d h

/-- Some number is of no call yet. -/
theorem exists_free (exclude : Option ByteArray) (acts : List Act) :
  ∃ n, ∀ c, n ≤ c → (excluding.final (.new exclude) acts).calls c = none
  := by
  apply excluding.final_preserved (I := fun d => ∃ n, ∀ c, n ≤ c → d.calls c = none)
  · rintro d a ⟨n, hfree⟩
    use max n (a.call + 1)
    intro c hc
    rw [max_le_iff] at hc
    have hother : (d.next a).calls c = d.calls c := calls_next_of_ne (Nat.ne_of_gt hc.2)
    change (d.next a).calls c = none
    rw [hother, hfree c hc.1]
  · use 0
    intro c _
    rfl

/-- A call that reads no text, or fails to read one, goes on with the patterns alone. -/
theorem read_of_illegible {a : Act} (h : ¬Legible d a) :
  ∃ c, d.next a = d.setCall c (.creatingDir (body []))
    ∧ (∀ existing, textOf d.exclude = some existing → hidden existing ≠ body [])
  := by
  cases a with
  | start c isCheckout | createDir c fails | write c fails | rename c fails =>
    exact absurd trivial h
  | read c fails =>
    simp only [Legible, not_forall, not_exists, not_and] at h
    obtain ⟨hcall, hnone⟩ := h
    have hread : (readToString fails d.exclude).getD [] = [] := by
      cases htext : textOf d.exclude with
      | some existing =>
        obtain ⟨hfails, -⟩ := hnone existing htext
        rw [readToString_of_textOf htext, if_pos hfails]
      | none =>
        cases hfile : d.exclude with
        | none =>
          rw [hfile] at htext
          simp [textOf] at htext
        | some b =>
          rw [hfile, textOf] at htext
          cases fails <;> simp [readToString, htext]
    use c
    constructor
    · rw [Disk.next, hcall]
      simp only [hread, afterRead_nil]
    · intro existing htext
      obtain ⟨-, hne⟩ := hnone existing htext
      exact hne

end Steps

/-- Where each call reads the file, the excludes are kept. -/
theorem keepsExcludes_of_along {acts : List Act}
    (along : excluding.Along Legible (.new exclude) acts) :
  KeepsExcludes exclude acts
  := by
  have hides : excluding.Along (fun d a => Hides d (excluding.next d a)) (.new exclude) acts :=
    excluding.along_of_invariant (sound_new exclude) (fun _ _ ha sound => sound_next sound ha)
      (fun _ a _ sound => hides_next sound a) along
  rw [← excluding.along_iff_forall_later hides_refl hides_trans] at hides
  rintro before between after rfl
  have sound : Sound (excluding.final (.new exclude) before) := by
    rw [List.append_assoc, Machine.along_append] at along
    apply excluding.invariant (I := fun d _ => Sound d) (sound_new exclude) _ along.1
    intro d _ a legible sound
    apply sound_next sound legible
  apply kept_of_hides sound (hides before between after rfl)

theorem bytes_plain (h : ∀ c ∈ t, c.utf8Size = 1) :
  bytes (some (String.ofList t).toByteArray) = t.map fun c => c.val.toUInt8
  := by
  rw [bytes_written, List.utf8Encode, List.data_toByteArray, List.toList_toArray]
  induction t with
  | nil => rfl
  | cons c t ih =>
    rw [List.forall_mem_cons] at h
    rw [List.flatMap_cons, String.utf8EncodeChar_eq_singleton h.1, ih h.2]
    rfl

theorem bytes_injective {b b' : ByteArray} (h : bytes (some b) = bytes (some b')) :
  b = b'
  := by
  apply ByteArray.ext
  rw [← Array.toList_inj]
  apply h

/-- The patterns are plain, so that what they start with is a text. -/
theorem textOf_of_prefix
    (h : bytes exclude <+: bytes (some (String.ofList (body [])).toByteArray)) :
  ∃ existing, textOf exclude = some existing
  := by
  have hplain : ∀ c ∈ body [], c.utf8Size = 1 := by decide +kernel
  cases exclude with
  | none =>
    use []
    rfl
  | some b =>
    obtain ⟨n, htake⟩ : ∃ n, bytes (some b)
        = (bytes (some (String.ofList (body [])).toByteArray)).take n :=
      ⟨_, List.prefix_iff_eq_take.mp h⟩
    have hpart : ∀ c ∈ (body []).take n, c.utf8Size = 1 := fun c hc =>
      hplain c (List.mem_of_mem_take hc)
    rw [bytes_plain hplain, ← List.map_take, ← bytes_plain hpart] at htake
    use (body []).take n
    rw [bytes_injective htake, textOf_written]

/-- After a call that is not legible, the file is lost, or changes once the paths are hidden. -/
theorem not_keeps_of_illegible {before : List Act} {a : Act}
    (h : ¬Legible (excluding.final (.new exclude) before) a) :
  ∃ more, excluding.Along Legible (excluding.final (.new exclude) (before ++ [a])) more
    ∧ ¬KeepsExcludes exclude (before ++ [a] ++ more)
  := by
  obtain ⟨c, hnext, hnone⟩ := read_of_illegible h
  have hd : excluding.final (.new exclude) (before ++ [a])
      = (excluding.final (.new exclude) before).setCall c (.creatingDir (body [])) := by
    rw [Machine.final_append]
    exact hnext
  have hcall : (excluding.final (.new exclude) (before ++ [a])).calls c
      = some (.creatingDir (body [])) := by rw [hd, calls_setCall_self]
  cases htext : textOf (excluding.final (.new exclude) before).exclude with
  | none =>
    use finishing c
    constructor
    · exact ⟨trivial, trivial, trivial, trivial⟩
    · intro hkeeps
      have hkept := hkeeps (before ++ [a]) (finishing c) [] (List.append_nil _).symm
      obtain ⟨hfile, -⟩ := final_finishing hcall
      rw [Machine.final_append _ _ (before ++ [a])] at hkept
      have hgrows := hkept.grows
      rw [hfile] at hgrows
      obtain ⟨existing, hexisting⟩ := textOf_of_prefix hgrows
      rw [hd, exclude_setCall, htext] at hexisting
      contradiction
  | some existing =>
    obtain ⟨k, hfree⟩ := exists_free exclude (before ++ [a])
    have hk := hfree k le_rfl
    have hne : c ≠ k := by
      rintro rfl
      rw [hk] at hcall
      contradiction
    have htext' : textOf (excluding.final (.new exclude) (before ++ [a])).exclude
        = some existing := by rw [hd, exclude_setCall, htext]
    obtain ⟨hhidden, hok, hothers⟩ := final_whole hk htext'
    use whole k ++ finishing c
    constructor
    · apply along_whole hk htext'
    · intro hkeeps
      have hkept := hkeeps (before ++ [a] ++ whole k) (finishing c) []
        (by simp only [List.append_assoc, List.append_nil])
      rw [Machine.final_append _ _ (before ++ [a] ++ whole k),
        Machine.final_append _ _ (before ++ [a])] at hkept
      rw [← hothers c hne] at hcall
      obtain ⟨hfile, -⟩ := final_finishing hcall
      obtain ⟨-, hsame⟩ := hkept.hidden k hok
      rw [← hsame, hfile, textOf_written, Option.some.injEq] at hhidden
      apply hnone existing htext hhidden.symm

/-- The excludes are kept, whatever is done next that reads the file, exactly when each call has
read it. -/
theorem keeps_excludes_iff (exclude : Option ByteArray) (acts : List Act) :
  (∀ before after more, acts = before ++ after →
      excluding.Along Legible (excluding.final (.new exclude) before) more →
      KeepsExcludes exclude (before ++ more))
    ↔ excluding.Along Legible (.new exclude) acts
  := by
  constructor
  · intro h
    obtain along | ⟨before, a, after, rfl, -, ha⟩ := excluding.along_or_exists_first Legible _ acts
    · exact along
    · obtain ⟨more, hmore, hlost⟩ := not_keeps_of_illegible ha
      apply absurd (h (before ++ [a]) after more _ hmore) hlost
      rw [List.append_assoc, List.singleton_append]
  · rintro along before after more rfl hmore
    have hrun : excluding.Along Legible (.new exclude) (before ++ more) := by
      rw [Machine.along_append] at along ⊢
      exact ⟨along.1, hmore⟩
    apply keepsExcludes_of_along hrun

/-- A comment that is not in UTF-8. -/
def latinExcludes : ByteArray := ⟨#[0x23, 0xE9, 0x0A, 0x2A, 0x2E, 0x73, 0x77, 0x70, 0x0A]⟩

/-- A call, none of whose steps fails, replaces the file by the patterns. -/
theorem latin_excludes_lost :
  ¬∀ exclude acts, KeepsExcludes exclude acts
  := by
  intro h
  have hkept := h (some latinExcludes) (whole 0) [] (whole 0) [] (List.append_nil _).symm
  have hlost : ¬bytes (some latinExcludes)
      <+: bytes (excluding.final (.new (some latinExcludes)) (whole 0)).exclude := by
    decide +kernel
  apply hlost hkept.grows

end Lazybox.TaskCache
