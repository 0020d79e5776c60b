import Lazybox.Core.ClaimLines
import Lazybox.Core.ProviderOps
import Lazybox.Library.Run

/-!
# The budget of auto-fix

A repair is attempted when `check` lets it proceed, and recorded once its prompt was delivered.  One
record for each workspace and kind of failure has the attempts of a window, which the first of them
opens, the time of the last, and whether it was said that there are no more.  When the window is
over the whole record starts afresh.

The time of the last attempt is forgotten with it, so that an attempt which comes right after the
end of a window may come less than the cooldown after the last one.
-/

namespace Lazybox.AutoFix

inductive AutoFixKind where
  | ciFailure
  | mergeConflict
deriving DecidableEq, Repr

def AutoFixKind.storeKey : AutoFixKind → String
  | ciFailure => "ci"
  | mergeConflict => "conflict"

/-- The limits, in the units of the clock. -/
structure AutoFixSettings where
  maxAttempts : ℕ
  cooldown : ℕ
  window : ℕ
deriving DecidableEq, Repr

structure AttemptRecord where
  attempts : ℕ
  windowStart : Option Instant
  lastAttempt : Option Instant
  exhaustedNotified : Bool
deriving DecidableEq, Repr

def AttemptRecord.default : AttemptRecord := ⟨0, none, none, false⟩

inductive AttemptDecision where
  | proceed (attempt max : ℕ)
  | cooldown
  | exhausted (notify : Bool)
deriving DecidableEq, Repr

def AttemptDecision.proceeds : AttemptDecision → Bool
  | proceed _ _ => true
  | cooldown | exhausted _ => false

/-- A workspace and a kind of failure. -/
structure Key where
  session : String
  kind : AutoFixKind
deriving DecidableEq, Repr

def recordKey (k : Key) : String := "autofix:" ++ k.session ++ ":" ++ k.kind.storeKey

/-! ### The guard -/

/-- The records in the store, by their keys. -/
abbrev Kv := String → Option AttemptRecord

def load (kv : Kv) (key : String) : AttemptRecord := (kv key).getD .default

def persist (kv : Kv) (key : String) (record : AttemptRecord) : Kv :=
  Function.update kv key (some record)

section Limits

variable (settings : AutoFixSettings)

/-- No window was opened, or the one that was is over. -/
def expired (record : AttemptRecord) (now : Instant) : Bool :=
  match record.windowStart with
  | none => true
  | some start => settings.window ≤ now - start

/-- The record of the window that is open. -/
def current (record : AttemptRecord) (now : Instant) : AttemptRecord :=
  if expired settings record now then .default else record

def coolingDown (record : AttemptRecord) (now : Instant) : Bool :=
  match record.lastAttempt with
  | none => false
  | some last => now - last < settings.cooldown

def check (kv : Kv) (k : Key) (now : Instant) : AttemptDecision × Kv :=
  if settings.maxAttempts = 0 then (.exhausted false, kv)
  else
    let key := recordKey k
    let record := current settings (load kv key) now
    if settings.maxAttempts ≤ record.attempts then
      let notify := !record.exhaustedNotified
      (.exhausted notify,
        if notify then persist kv key { record with exhaustedNotified := true } else kv)
    else if coolingDown settings record now then (.cooldown, kv)
    else (.proceed (record.attempts + 1) settings.maxAttempts, kv)

def recordAttempt (kv : Kv) (k : Key) (now : Instant) : Kv :=
  let key := recordKey k
  let record := current settings (load kv key) now
  persist kv key { record with
    windowStart := some (record.windowStart.getD now)
    attempts := record.attempts + 1
    lastAttempt := some now }

end Limits

/-! ### Runs -/

/-- What is done for a workspace and a kind. -/
inductive Entry where
  | decided (now : Instant) (decision : AttemptDecision)
  | attempted (now : Instant)
deriving DecidableEq, Repr

inductive Act where
  | check (k : Key) (now : Instant)
  | recordAttempt (k : Key) (now : Instant)
deriving DecidableEq, Repr

def Act.key : Act → Key
  | check k _ | recordAttempt k _ => k

/-- The store, the time of the last call, the workspaces and kinds whose last check let an attempt
proceed that is not recorded yet, and what was done, the latest first. -/
structure Guard where
  kv : Kv
  clock : Instant
  granted : Key → Bool
  log : List (Key × Entry)

def Guard.new (clock : Instant) : Guard := ⟨fun _ => none, clock, fun _ => false, []⟩

def Guard.next (settings : AutoFixSettings) (s : Guard) : Act → Guard
  | .check k now =>
      let (decision, kv) := check settings s.kv k now
      { kv := kv
        clock := now
        granted := Function.update s.granted k decision.proceeds
        log := (k, .decided now decision) :: s.log }
  | .recordAttempt k now =>
      { kv := recordAttempt settings s.kv k now
        clock := now
        granted := Function.update s.granted k false
        log := (k, .attempted now) :: s.log }

def autoFix (settings : AutoFixSettings) : Machine Guard Act Empty :=
  ⟨fun s a => (s.next settings a, [])⟩

/-- The clock does not go back, and an attempt is recorded after a check of its workspace and kind
that let it proceed. -/
def Followed (s : Guard) : Act → Prop
  | .check _ now => s.clock ≤ now
  | .recordAttempt k now => s.clock ≤ now ∧ s.granted k = true

instance (s : Guard) : (a : Act) → Decidable (Followed s a)
  | .check _ now => inferInstanceAs (Decidable (s.clock ≤ now))
  | .recordAttempt k now => inferInstanceAs (Decidable (s.clock ≤ now ∧ s.granted k = true))

/-! ### What the limits are -/

/-- What was done for a workspace and a kind, the latest first. -/
def entries (k : Key) (log : List (Key × Entry)) : List Entry :=
  (log.filter fun entry => entry.1 = k).map Prod.snd

/-- The times of the attempts, the latest first. -/
def attempts (es : List Entry) : List Instant :=
  es.filterMap fun
    | .attempted now => some now
    | .decided _ _ => none

/-- A window, with the attempts in it, the latest first, and how often it was said in it that the
budget is exhausted. -/
structure Window where
  start : Instant
  attempts : List Instant
  notices : ℕ
deriving DecidableEq, Repr

/-- The window that is open at a time, which it opens if need be, before the earlier ones. -/
def opened (length : ℕ) (now : Instant) : List Window → Window × List Window
  | [] => (⟨now, [], 0⟩, [])
  | w :: ws => if now - w.start < length then (w, ws) else (⟨now, [], 0⟩, w :: ws)

/-- The windows, the latest first. -/
def windows (length : ℕ) : List Entry → List Window
  | [] => []
  | .attempted now :: es =>
      let (w, ws) := opened length now (windows length es)
      { w with attempts := now :: w.attempts } :: ws
  | .decided now (.exhausted true) :: es =>
      let (w, ws) := opened length now (windows length es)
      { w with notices := w.notices + 1 } :: ws
  | .decided _ _ :: es => windows length es

/-- The attempts for a workspace and a kind are the cooldown apart. -/
def Spaced (settings : AutoFixSettings) (s : Guard) : Prop :=
  ∀ k, (attempts (entries k s.log)).Pairwise fun late early =>
    (settings.cooldown : ℤ) ≤ late - early

/-- Every window has an attempt and no more than the budget of them, and says at most once that the
budget is exhausted. -/
def WithinBudget (settings : AutoFixSettings) (s : Guard) : Prop :=
  ∀ k, ∀ w ∈ windows settings.window (entries k s.log),
    w.attempts ≠ [] ∧ w.attempts.length ≤ settings.maxAttempts ∧ w.notices ≤ 1

/-- An attempt that is recorded after its window is over comes the cooldown after the last one. -/
def CooledDown (settings : AutoFixSettings) (s : Guard) : Act → Prop
  | .check _ _ => True
  | .recordAttempt k now =>
      expired settings (load s.kv (recordKey k)) now = true →
        coolingDown settings (load s.kv (recordKey k)) now = false

/-! ### The record and the windows -/

theorem colon_notMem_storeKey (kind : AutoFixKind) :
  ':' ∉ kind.storeKey.toList
  := by
  cases kind with
  | ciFailure => decide
  | mergeConflict => decide

/-- Each workspace and kind has a record of its own. -/
theorem recordKey_injective :
  Function.Injective recordKey
  := by
  rintro ⟨session, kind⟩ ⟨session', kind'⟩ h
  have htext := congrArg String.toList h
  simp only [recordKey, String.toList_append, List.append_assoc] at htext
  have hrest := List.append_cancel_left htext
  obtain ⟨hsession, hkind⟩ := WorkingClaim.eq_of_last (colon_notMem_storeKey kind)
    (colon_notMem_storeKey kind') hrest
  rw [String.toList_inj] at hsession
  cases hsession
  cases kind <;> cases kind' <;> first | rfl | exact absurd hkind (by decide)

section Steps

variable {settings : AutoFixSettings} {s : Guard} {k : Key} {now : Instant}

/-- The record that goes with the windows. -/
def recordOf : List Window → AttemptRecord
  | [] => .default
  | w :: _ => ⟨w.attempts.length, some w.start, w.attempts.head?, decide (0 < w.notices)⟩

/-- The store has the record of the windows, whose limits are kept, and what was granted is free. -/
structure Tracks (settings : AutoFixSettings) (s : Guard) (k : Key) : Prop where
  record : load s.kv (recordKey k) = recordOf (windows settings.window (entries k s.log))
  within : ∀ w ∈ windows settings.window (entries k s.log),
    w.attempts ≠ [] ∧ w.attempts.length ≤ settings.maxAttempts ∧ w.notices ≤ 1
  ordered : (attempts (entries k s.log)).Pairwise (· ≥ ·)
  past : ∀ t ∈ attempts (entries k s.log), t ≤ s.clock
  free : s.granted k = true → 0 < settings.maxAttempts
    ∧ (expired settings (load s.kv (recordKey k)) s.clock = true
      ∨ (load s.kv (recordKey k)).attempts < settings.maxAttempts
        ∧ coolingDown settings (load s.kv (recordKey k)) s.clock = false)

theorem entries_cons (k k' : Key) (e : Entry) (log : List (Key × Entry)) :
  entries k ((k', e) :: log) = if k' = k then e :: entries k log else entries k log
  := by
  split_ifs with h
  · simp [entries, h]
  · simp [entries, h]

theorem expired_later {record : AttemptRecord} {now later : Instant} (hle : now ≤ later)
    (h : expired settings record now = true) :
  expired settings record later = true
  := by
  rw [expired] at h ⊢
  cases hstart : record.windowStart with
  | none => rfl
  | some start =>
    rw [hstart] at h
    rw [decide_eq_true_eq] at h ⊢
    apply h.trans
    apply Int.sub_le_sub_right hle

theorem coolingDown_later {record : AttemptRecord} {now later : Instant} (hle : now ≤ later)
    (h : coolingDown settings record now = false) :
  coolingDown settings record later = false
  := by
  rw [coolingDown] at h ⊢
  cases hlast : record.lastAttempt with
  | none => rfl
  | some last =>
    rw [hlast] at h
    rw [decide_eq_false_iff_not, not_lt] at h ⊢
    apply h.trans
    apply Int.sub_le_sub_right hle

/-- What is done for another workspace or kind. -/
theorem Tracks.later (h : Tracks settings s k) {s' : Guard}
    (hkv : load s'.kv (recordKey k) = load s.kv (recordKey k))
    (hlog : entries k s'.log = entries k s.log) (hgranted : s'.granted k = s.granted k)
    (hclock : s.clock ≤ s'.clock) :
  Tracks settings s' k
  := by
  constructor
  · rw [hkv, hlog]
    apply h.record
  · rw [hlog]
    apply h.within
  · rw [hlog]
    apply h.ordered
  · intro t ht
    rw [hlog] at ht
    apply (h.past t ht).trans hclock
  · intro hfree
    rw [hgranted] at hfree
    obtain ⟨hmax, hexpired | ⟨hbudget, hcool⟩⟩ := h.free hfree
    · rw [hkv]
      exact ⟨hmax, .inl (expired_later hclock hexpired)⟩
    · rw [hkv]
      exact ⟨hmax, .inr ⟨hbudget, coolingDown_later hclock hcool⟩⟩

/-! ### Windows -/

theorem opened_of_expired {ws : List Window} (h : expired settings (recordOf ws) now = true) :
  opened settings.window now ws = (⟨now, [], 0⟩, ws)
  := by
  cases ws with
  | nil => rfl
  | cons w ws =>
    rw [opened, if_neg]
    simpa [expired, recordOf] using h

theorem opened_of_not_expired {ws : List Window} (h : expired settings (recordOf ws) now = false) :
  ∃ w rest, ws = w :: rest ∧ opened settings.window now ws = (w, rest)
  := by
  cases ws with
  | nil => cases h
  | cons w rest =>
    use w, rest
    constructor
    · rfl
    · rw [opened, if_pos]
      simpa [expired, recordOf] using h

/-- The latest attempt is the latest of the latest window. -/
theorem lastAttempt_recordOf {es : List Entry}
    (h : ∀ w ∈ windows settings.window es, w.attempts ≠ []) :
  (recordOf (windows settings.window es)).lastAttempt = (attempts es).head?
  := by
  induction es with
  | nil => rfl
  | cons e es ih =>
    cases e with
    | attempted now =>
      rw [windows]
      rfl
    | decided now decision =>
      have hattempts : attempts (.decided now decision :: es) = attempts es := rfl
      rw [hattempts]
      have hkept (hwindows : windows settings.window (.decided now decision :: es)
          = windows settings.window es) :
          (recordOf (windows settings.window (.decided now decision :: es))).lastAttempt
            = (attempts es).head? := by
        rw [hwindows] at h ⊢
        apply ih h
      cases decision with
      | proceed attempt max => apply hkept rfl
      | cooldown => apply hkept rfl
      | exhausted notify =>
        cases notify with
        | false => apply hkept rfl
        | true =>
          rw [windows] at h ⊢
          cases hexpired : expired settings (recordOf (windows settings.window es)) now with
          | true =>
            rw [opened_of_expired hexpired] at h
            exact absurd rfl (h _ List.mem_cons_self)
          | false =>
            obtain ⟨w, rest, hws, hopened⟩ := opened_of_not_expired hexpired
            rw [hopened] at h ⊢
            rw [← ih, hws]
            · rfl
            · rw [hws]
              rw [List.forall_mem_cons] at h ⊢
              exact h

/-! ### What a call does -/

/-- A check that does not notify changes nothing, and lets an attempt proceed that is free to; one
that notifies marks the record of the open window, whose budget is used up. -/
theorem check_cases (settings : AutoFixSettings) (kv : Kv) (k : Key) (now : Instant) :
  ((check settings kv k now).2 = kv ∧ (check settings kv k now).1 ≠ .exhausted true
      ∧ ((check settings kv k now).1.proceeds = true → 0 < settings.maxAttempts
        ∧ (expired settings (load kv (recordKey k)) now = true
          ∨ (load kv (recordKey k)).attempts < settings.maxAttempts
            ∧ coolingDown settings (load kv (recordKey k)) now = false)))
    ∨ check settings kv k now
        = (.exhausted true, persist kv (recordKey k)
            { load kv (recordKey k) with exhaustedNotified := true })
      ∧ expired settings (load kv (recordKey k)) now = false
      ∧ (load kv (recordKey k)).exhaustedNotified = false
  := by
  rw [check]
  split_ifs with hzero
  · left
    exact ⟨rfl, by simp, fun h => by cases h⟩
  · have hpos := Nat.pos_of_ne_zero hzero
    dsimp only
    rw [current]
    cases hexpired : expired settings (load kv (recordKey k)) now with
    | true =>
      left
      rw [if_pos rfl, if_neg (by simp [AttemptRecord.default, hzero])]
      exact ⟨rfl, by simp [coolingDown, AttemptRecord.default], fun _ => ⟨hpos, .inl rfl⟩⟩
    | false =>
      rw [if_neg Bool.false_ne_true]
      split_ifs with hbudget hnotify hcool
      · right
        rw [Bool.not_eq_true'] at hnotify
        rw [hnotify]
        exact ⟨rfl, rfl, rfl⟩
      · left
        refine ⟨rfl, ?_, fun h => by cases h⟩
        simpa using hnotify
      · left
        exact ⟨rfl, by simp, fun h => by cases h⟩
      · left
        exact ⟨rfl, by simp, fun _ => ⟨hpos, .inr ⟨Nat.lt_of_not_le hbudget,
          eq_false_of_ne_true hcool⟩⟩⟩

theorem load_persist (kv : Kv) (key key' : String) (record : AttemptRecord) :
  load (persist kv key record) key' = if key' = key then record else load kv key'
  := by
  rw [load, persist, Function.update_apply]
  split_ifs
  · rfl
  · rfl

/-- A check that does not notify opens no window. -/
theorem windows_decided {length : ℕ} {decision : AttemptDecision} (h : decision ≠ .exhausted true)
    (es : List Entry) :
  windows length (.decided now decision :: es) = windows length es
  := by
  cases decision with
  | proceed attempt max => rfl
  | cooldown => rfl
  | exhausted notify =>
    cases notify with
    | false => rfl
    | true => exact absurd rfl h

theorem Tracks.check (h : Tracks settings s k) (hclock : s.clock ≤ now) :
  Tracks settings (s.next settings (.check k now)) k
  := by
  have hentries : entries k (s.next settings (.check k now)).log
      = .decided now (AutoFix.check settings s.kv k now).1 :: entries k s.log := by
    rw [Guard.next, entries_cons, if_pos rfl]
  have hattempts : attempts (entries k (s.next settings (.check k now)).log)
      = attempts (entries k s.log) := by
    rw [hentries]
    rfl
  have hgranted : (s.next settings (.check k now)).granted k
      = (AutoFix.check settings s.kv k now).1.proceeds := Function.update_self ..
  have hpast : ∀ t ∈ attempts (entries k s.log), t ≤ now := fun t ht => (h.past t ht).trans hclock
  obtain ⟨hkv, hquiet, hfree⟩ | ⟨hcheck, hopen, hnotified⟩ := check_cases settings s.kv k now
  · have hwindows : windows settings.window (entries k (s.next settings (.check k now)).log)
        = windows settings.window (entries k s.log) := by
      rw [hentries, windows_decided hquiet]
    have hstore : (s.next settings (.check k now)).kv = s.kv := hkv
    constructor
    · rw [hwindows, hstore]
      apply h.record
    · rw [hwindows]
      apply h.within
    · rw [hattempts]
      apply h.ordered
    · rw [hattempts]
      apply hpast
    · rw [hgranted, hstore]
      apply hfree
  · rw [hcheck] at hentries hgranted
    have hstore : (s.next settings (.check k now)).kv = persist s.kv (recordKey k)
        { load s.kv (recordKey k) with exhaustedNotified := true } := congrArg Prod.snd hcheck
    rw [h.record] at hopen hnotified
    obtain ⟨w, rest, hws, hopened⟩ := opened_of_not_expired hopen
    have hwindows : windows settings.window (entries k (s.next settings (.check k now)).log)
        = { w with notices := w.notices + 1 } :: rest := by
      rw [hentries, windows, hopened]
    have hwithin := h.within
    rw [hws, List.forall_mem_cons] at hwithin
    rw [hws, recordOf, decide_eq_false_iff_not, Nat.not_lt, Nat.le_zero] at hnotified
    constructor
    · rw [hwindows, hstore, load_persist, if_pos rfl, h.record, hws, recordOf, recordOf]
      simp
    · rw [hwindows, List.forall_mem_cons]
      refine ⟨⟨hwithin.1.1, hwithin.1.2.1, ?_⟩, hwithin.2⟩
      rw [hnotified]
    · rw [hattempts]
      apply h.ordered
    · rw [hattempts]
      apply hpast
    · intro hfree
      rw [hgranted] at hfree
      cases hfree

theorem Tracks.recordAttempt (h : Tracks settings s k) (hclock : s.clock ≤ now)
    (granted : s.granted k = true) :
  Tracks settings (s.next settings (.recordAttempt k now)) k
  := by
  have hentries : entries k (s.next settings (.recordAttempt k now)).log
      = .attempted now :: entries k s.log := by
    rw [Guard.next, entries_cons, if_pos rfl]
  have hattempts : attempts (entries k (s.next settings (.recordAttempt k now)).log)
      = now :: attempts (entries k s.log) := by
    rw [hentries]
    rfl
  have hpast : ∀ t ∈ attempts (entries k s.log), t ≤ now := fun t ht => (h.past t ht).trans hclock
  obtain ⟨hmax, hfree⟩ := h.free granted
  have hwithin := h.within
  have hload : load (s.next settings (.recordAttempt k now)).kv (recordKey k)
      = { current settings (load s.kv (recordKey k)) now with
          windowStart := some
            ((current settings (load s.kv (recordKey k)) now).windowStart.getD now)
          attempts := (current settings (load s.kv (recordKey k)) now).attempts + 1
          lastAttempt := some now } := by
    rw [Guard.next]
    dsimp only
    rw [AutoFix.recordAttempt, load_persist, if_pos rfl]
  constructor
  · rw [hload, hentries, windows, current]
    cases hexpired : expired settings (load s.kv (recordKey k)) now with
    | true =>
      rw [h.record] at hexpired
      rw [if_pos rfl, opened_of_expired hexpired]
      rfl
    | false =>
      rw [if_neg Bool.false_ne_true, h.record]
      rw [h.record] at hexpired
      obtain ⟨w, rest, hws, hopened⟩ := opened_of_not_expired hexpired
      rw [hopened, hws]
      rfl
  · rw [hentries, windows]
    cases hexpired : expired settings (load s.kv (recordKey k)) now with
    | true =>
      rw [h.record] at hexpired
      rw [opened_of_expired hexpired, List.forall_mem_cons]
      refine ⟨⟨List.cons_ne_nil _ _, hmax, Nat.zero_le _⟩, hwithin⟩
    | false =>
      obtain hexpired' | ⟨hbudget, -⟩ := hfree
      · rw [expired_later hclock hexpired'] at hexpired
        cases hexpired
      · rw [h.record] at hexpired hbudget
        obtain ⟨w, rest, hws, hopened⟩ := opened_of_not_expired hexpired
        rw [hws] at hbudget hwithin
        rw [List.forall_mem_cons] at hwithin
        rw [hopened, List.forall_mem_cons]
        exact ⟨⟨List.cons_ne_nil _ _, hbudget, hwithin.1.2.2⟩, hwithin.2⟩
  · rw [hattempts, List.pairwise_cons]
    exact ⟨hpast, h.ordered⟩
  · rw [hattempts, List.forall_mem_cons]
    exact ⟨le_refl now, hpast⟩
  · intro hagain
    have hgranted : (s.next settings (.recordAttempt k now)).granted k = false :=
      Function.update_self ..
    rw [hgranted] at hagain
    cases hagain

/-- A call depends on nothing but the record of its workspace and kind. -/
theorem next_congr {s' : Guard} {a : Act}
    (hkv : load s.kv (recordKey a.key) = load s'.kv (recordKey a.key))
    (hlog : entries a.key s.log = entries a.key s'.log) :
  load (s.next settings a).kv (recordKey a.key) = load (s'.next settings a).kv (recordKey a.key)
    ∧ entries a.key (s.next settings a).log = entries a.key (s'.next settings a).log
  := by
  cases a with
  | check k now =>
    have hkv : load s.kv (recordKey k) = load s'.kv (recordKey k) := hkv
    have hlog : entries k s.log = entries k s'.log := hlog
    have hcheck : (check settings s.kv k now).1 = (check settings s'.kv k now).1
        ∧ load (check settings s.kv k now).2 (recordKey k)
          = load (check settings s'.kv k now).2 (recordKey k) := by
      rw [check, check]
      split_ifs
      · exact ⟨rfl, hkv⟩
      · dsimp only
        rw [hkv]
        split_ifs
        · exact ⟨rfl, by rw [load_persist, load_persist, if_pos rfl, if_pos rfl]⟩
        · exact ⟨rfl, hkv⟩
        · exact ⟨rfl, hkv⟩
        · exact ⟨rfl, hkv⟩
    constructor
    · apply hcheck.2
    · rw [Guard.next, Guard.next]
      dsimp only [Act.key]
      rw [entries_cons, entries_cons, hcheck.1, hlog]
  | recordAttempt k now =>
    have hkv : load s.kv (recordKey k) = load s'.kv (recordKey k) := hkv
    have hlog : entries k s.log = entries k s'.log := hlog
    rw [Guard.next, Guard.next]
    dsimp only [Act.key]
    rw [entries_cons, entries_cons, hlog, recordAttempt, recordAttempt, load_persist,
      load_persist, if_pos rfl, if_pos rfl, hkv]
    exact ⟨rfl, rfl⟩

/-- A call leaves what belongs to the other workspaces and kinds. -/
theorem next_other {a : Act} (h : a.key ≠ k) :
  load (s.next settings a).kv (recordKey k) = load s.kv (recordKey k)
    ∧ entries k (s.next settings a).log = entries k s.log
    ∧ (s.next settings a).granted k = s.granted k
  := by
  cases a with
  | check k' now =>
    have h : k' ≠ k := h
    have hkey : recordKey k ≠ recordKey k' := fun hsame => h (recordKey_injective hsame).symm
    refine ⟨?_, ?_, Function.update_of_ne (Ne.symm h) ..⟩
    · obtain ⟨hkv, -⟩ | ⟨hcheck, -⟩ := check_cases settings s.kv k' now
      · rw [Guard.next]
        dsimp only
        rw [hkv]
      · rw [Guard.next, hcheck]
        dsimp only
        rw [load_persist, if_neg hkey]
    · rw [Guard.next, entries_cons, if_neg h]
  | recordAttempt k' now =>
    have h : k' ≠ k := h
    have hkey : recordKey k ≠ recordKey k' := fun hsame => h (recordKey_injective hsame).symm
    refine ⟨?_, ?_, Function.update_of_ne (Ne.symm h) ..⟩
    · rw [Guard.next]
      dsimp only
      rw [recordAttempt, load_persist, if_neg hkey]
    · rw [Guard.next, entries_cons, if_neg h]

/-- What is tracked is kept by every call that follows the rules. -/
theorem Tracks.next (h : Tracks settings s k) {a : Act} (followed : Followed s a) :
  Tracks settings (s.next settings a) k
  := by
  by_cases hkey : a.key = k
  · cases a with
    | check k' now =>
      cases hkey
      apply h.check followed
    | recordAttempt k' now =>
      cases hkey
      apply h.recordAttempt followed.1 followed.2
  · obtain ⟨hkv, hlog, hgranted⟩ := @next_other settings s k a hkey
    apply h.later hkv hlog hgranted
    cases a with
    | check k' now => apply followed
    | recordAttempt k' now => apply followed.1

/-- The attempts stay spaced exactly when the next call waits for the cooldown. -/
theorem spaced_next_iff (h : ∀ k, Tracks settings s k) {a : Act} (followed : Followed s a)
    (spaced : Spaced settings s) :
  Spaced settings (s.next settings a) ↔ CooledDown settings s a
  := by
  cases a with
  | check k' now =>
    have hattempts (k : Key) : attempts (entries k (s.next settings (.check k' now)).log)
        = attempts (entries k s.log) := by
      rw [Guard.next, entries_cons]
      split_ifs
      · rfl
      · rfl
    simp only [Spaced, hattempts, CooledDown, iff_true]
    apply spaced
  | recordAttempt k' now =>
    obtain ⟨hclock, granted⟩ := followed
    have htracks := h k'
    have hlast := @lastAttempt_recordOf settings (entries k' s.log)
      fun w hw => (htracks.within w hw).1
    rw [← htracks.record] at hlast
    have hlog (k : Key) : attempts (entries k (s.next settings (.recordAttempt k' now)).log)
        = if k' = k then now :: attempts (entries k s.log) else attempts (entries k s.log) := by
      rw [Guard.next, entries_cons]
      split_ifs
      · rfl
      · rfl
    -- The latest attempt is the one the cooldown is counted from.
    have hlatest : coolingDown settings (load s.kv (recordKey k')) now = false
        ↔ ∀ t ∈ attempts (entries k' s.log), (settings.cooldown : ℤ) ≤ now - t := by
      have hordered := htracks.ordered
      rw [coolingDown, hlast]
      generalize attempts (entries k' s.log) = ts at hordered
      cases ts with
      | nil => simp
      | cons last earlier =>
        rw [List.head?_cons, List.forall_mem_cons, decide_eq_false_iff_not, not_lt]
        rw [List.pairwise_cons] at hordered
        constructor
        · intro hcool
          refine ⟨hcool, fun t ht => hcool.trans (Int.sub_le_sub_left (hordered.1 t ht) now)⟩
        · intro hall
          apply hall.1
    have hnext : Spaced settings (s.next settings (.recordAttempt k' now))
        ↔ coolingDown settings (load s.kv (recordKey k')) now = false := by
      rw [hlatest]
      constructor
      · intro hspaced
        have hk := hspaced k'
        rw [hlog, if_pos rfl, List.pairwise_cons] at hk
        apply hk.1
      · intro hall k
        rw [hlog]
        split_ifs with hk
        · cases hk
          rw [List.pairwise_cons]
          exact ⟨hall, spaced k'⟩
        · apply spaced k
    rw [hnext, CooledDown]
    constructor
    · intro hcool _
      apply hcool
    · intro hcool
      obtain ⟨-, hexpired | ⟨-, hfree⟩⟩ := htracks.free granted
      · apply hcool (expired_later hclock hexpired)
      · apply coolingDown_later hclock hfree

end Steps

/-! ### Runs -/

section Runs

variable {settings : AutoFixSettings} {as : List Act}

theorem tracks_new (settings : AutoFixSettings) (clock : Instant) (k : Key) :
  Tracks settings (.new clock) k
  := by
  constructor
  · rfl
  · simp [Guard.new, entries, windows]
  · exact List.Pairwise.nil
  · simp [Guard.new, entries, attempts]
  · intro hfree
    cases hfree

/-- What is done for a workspace and a kind does not depend on the calls for the others. -/
theorem entries_final_filter (settings : AutoFixSettings) (clock : Instant) (as : List Act)
    (k : Key) :
  entries k ((autoFix settings).final (.new clock) as).log
    = entries k ((autoFix settings).final (.new clock) (as.filter fun a => a.key = k)).log
  := by
  have hsame (s s' : Guard) (hkv : load s.kv (recordKey k) = load s'.kv (recordKey k))
      (hlog : entries k s.log = entries k s'.log) :
      entries k ((autoFix settings).final s as).log
        = entries k ((autoFix settings).final s' (as.filter fun a => a.key = k)).log := by
    induction as generalizing s s' with
    | nil => apply hlog
    | cons a as ih =>
      rw [List.filter_cons]
      split_ifs with hkey
      · rw [decide_eq_true_eq] at hkey
        cases hkey
        obtain ⟨hkv', hlog'⟩ := @next_congr settings s s' a hkv hlog
        apply ih _ _ hkv' hlog'
      · rw [decide_eq_true_eq] at hkey
        obtain ⟨hkv', hlog', -⟩ := @next_other settings s k a hkey
        apply ih
        · rw [← hkv]
          apply hkv'
        · rw [← hlog]
          apply hlog'
  apply hsame _ _ rfl rfl

/-- In a run of checks, each followed by the attempt it lets proceed, the limits are kept exactly
when no attempt that is recorded after its window is over comes less than the cooldown after the
last one: the attempts for a workspace and a kind are the cooldown apart, no window has more of them
than the budget or says twice that it is exhausted, and what is done for one workspace and kind does
not depend on the calls for the others. -/
theorem limits_kept_iff (settings : AutoFixSettings) (clock : Instant) (as : List Act)
    (followed : (autoFix settings).Along Followed (.new clock) as) :
  ((∀ before after, as = before ++ after →
        Spaced settings ((autoFix settings).final (.new clock) before)
          ∧ WithinBudget settings ((autoFix settings).final (.new clock) before))
      ∧ ∀ k, entries k ((autoFix settings).final (.new clock) as).log
          = entries k ((autoFix settings).final (.new clock) (as.filter fun a => a.key = k)).log)
    ↔ (autoFix settings).Along (CooledDown settings) (.new clock) as
  := by
  rw [and_iff_left (entries_final_filter settings clock as)]
  apply (autoFix settings).forall_reached_iff (I := fun s => Spaced settings s
    ∧ WithinBudget settings s) (J := fun s => ∀ k, Tracks settings s k) (F := Followed)
  · constructor
    · intro k
      exact List.Pairwise.nil
    · intro k
      apply (tracks_new settings clock k).within
  · apply tracks_new
  · intro s a ha hs k
    apply (hs k).next ha
  · rintro s a ha hs ⟨hspaced, -⟩
    rw [← spaced_next_iff hs ha hspaced]
    apply and_iff_left_of_imp
    intro _ k
    apply ((hs k).next ha).within
  · apply followed

end Runs

/-! ### An attempt after the end of a window -/

def ci : Key := ⟨"acme/app#1", .ciFailure⟩

/-- An hour of cooldown, a day of window. -/
def daily : AutoFixSettings := ⟨3, 3600, 86400⟩

/-- A check, and the attempt it lets proceed. -/
def attempt (now : Instant) : List Act := [.check ci now, .recordAttempt ci now]

theorem limits_kept_iff_once :
  (autoFix daily).Along Followed (.new 0) (attempt 0)
    ∧ (((∀ before after, attempt 0 = before ++ after →
          Spaced daily ((autoFix daily).final (.new 0) before)
            ∧ WithinBudget daily ((autoFix daily).final (.new 0) before))
        ∧ ∀ k, entries k ((autoFix daily).final (.new 0) (attempt 0)).log
            = entries k ((autoFix daily).final (.new 0)
                ((attempt 0).filter fun a => a.key = k)).log)
      ↔ (autoFix daily).Along (CooledDown daily) (.new 0) (attempt 0))
  := by
  have followed : (autoFix daily).Along Followed (.new 0) (attempt 0) := by
    refine ⟨le_refl _, ⟨le_refl _, ?_⟩, trivial⟩
    decide
  exact ⟨followed, limits_kept_iff daily 0 (attempt 0) followed⟩

/-- Two attempts ten minutes apart, before and after the end of a window. -/
theorem attempts_across_windows :
  ¬ ∀ (settings : AutoFixSettings) (clock : Instant) (as : List Act),
    (autoFix settings).Along Followed (.new clock) as →
      Spaced settings ((autoFix settings).final (.new clock) as)
  := by
  intro h
  have hspaced := h daily 0 (attempt 0 ++ attempt 85800 ++ attempt 86400) (by decide)
  exact absurd (hspaced ci) (by decide)

end Lazybox.AutoFix
