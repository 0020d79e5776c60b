import Lazybox.Core.ClaimLines
import Lazybox.Core.Decimal

/-!
# Trailers of a merged pull request

What a pull request took, as lines `Key: value` at the end of the body of the commit: what it cost,
which agents did it, how hard it was and how long it took.  What could not be measured is left out.
They are read back from the lines of the body.

Arithmetic with floats, and how a float is shown, is given (`Floats`).
-/

namespace Lazybox.PrTrailers

open WorkingClaim (Text stripPrefix splitLines)
open scoped WorkingClaim

/-- Floats of 64 bits, made of unsigned numbers, and a float shown with so many decimals. -/
structure Floats where
  Float : Type
  ofU64 : ℕ → Float
  div : Float → Float → Float
  ge : Float → Float → Bool
  fixed : ℕ → Float → Text
  /-- A quotient is shown by digits and a point. -/
  fixed_chars : ∀ decimals m n, n ≠ 0 →
    ∀ c ∈ fixed decimals (div (ofU64 m) (ofU64 n)), c.isDigit ∨ c = '.'

def keyCost : Text := "Lazybox-Cost".toList

def keyAgents : Text := "Lazybox-Agents".toList

def keyEffort : Text := "Lazybox-Effort".toList

def keyTime : Text := "Lazybox-Time".toList

/-- The tokens of all runs of agents, as far as the trailer shows them. -/
structure TokenCounts where
  input : ℕ
  output : ℕ
deriving DecidableEq, Repr

structure CostTrailer where
  micros : Option ℕ
  tokens : Option TokenCounts
deriving DecidableEq, Repr

structure AgentCount where
  label : Text
  count : ℕ
deriving DecidableEq, Repr

structure EffortTrailer where
  turns : Option ℕ
  humanHandoffs : Option ℕ
  ciRepairs : Option ℕ
deriving DecidableEq, Repr

structure TimeTrailer where
  issueToMergeSecs : Option ℕ
  workToMergeSecs : Option ℕ
deriving DecidableEq, Repr

/-- The trailers of one pull request.  What could not be measured is absent. -/
structure PrTrailers where
  cost : Option CostTrailer
  agents : List AgentCount
  effort : EffortTrailer
  time : TimeTrailer
deriving DecidableEq, Repr

/-! ### Figures -/

def showNat (n : ℕ) : Text := (toString n).toList

/-- Micro-dollars in dollars, with more decimals below a cent. -/
def formatDollars (F : Floats) (micros : ℕ) : Text :=
  let dollars := F.div (F.ofU64 micros) (F.ofU64 1000000)
  if micros = 0 ∨ F.ge dollars (F.div (F.ofU64 1) (F.ofU64 100)) then '$' :: F.fixed 2 dollars
  else '$' :: F.fixed 4 dollars

/-- Three significant figures of a quotient. -/
def scaled (F : Floats) (n divisor : ℕ) (suffix : Char) : Text :=
  let v := F.div (F.ofU64 n) (F.ofU64 divisor)
  let decimals := if F.ge v (F.ofU64 100) then 0 else if F.ge v (F.ofU64 10) then 1 else 2
  F.fixed decimals v ++ [suffix]

def fmtCount (F : Floats) (n : ℕ) : Text :=
  if n < 1000 then showNat n
  else if n < 999500 then scaled F n 1000 'k'
  else if n < 999500000 then scaled F n 1000000 'M'
  else scaled F n 1000000000 'B'

/-- A span by its two greatest units. -/
def fmtDuration (secs : ℕ) : Text :=
  let days := secs / 86400
  let hours := secs % 86400 / 3600
  let mins := secs % 3600 / 60
  if days > 0 then
    if hours > 0 then showNat days ++ 'd' :: showNat hours ++ ['h'] else showNat days ++ ['d']
  else if hours > 0 then
    if mins > 0 then showNat hours ++ 'h' :: showNat mins ++ ['m'] else showNat hours ++ ['h']
  else showNat mins ++ ['m']

def plural (n : ℕ) (singular : Text) : Text := if n = 1 then singular else singular ++ ['s']

/-! ### Values -/

/-- What was measured, between dots. -/
def joined (parts : List Text) : Option Text :=
  if parts = [] then none else some (" · ".toList.intercalate parts)

def CostTrailer.value (F : Floats) (cost : CostTrailer) : Option Text :=
  joined ((cost.micros.map (formatDollars F)).toList
    ++ (cost.tokens.map fun t =>
        [fmtCount F t.input ++ " in".toList, fmtCount F t.output ++ " out".toList]).getD [])

def EffortTrailer.value (effort : EffortTrailer) : Option Text :=
  joined (effort.turns.toList.map (fun n => showNat n ++ ' ' :: plural n "turn".toList)
    ++ effort.humanHandoffs.toList.map
        (fun n => showNat n ++ " human ".toList ++ plural n "handoff".toList)
    ++ effort.ciRepairs.toList.map (fun n => showNat n ++ " CI ".toList ++ plural n "repair".toList))

def TimeTrailer.value (time : TimeTrailer) : Option Text :=
  joined (time.issueToMergeSecs.toList.map (fun s => "issue→merge ".toList ++ fmtDuration s)
    ++ time.workToMergeSecs.toList.map (fun s => "work→merge ".toList ++ fmtDuration s))

/-- The control characters of Unicode. -/
def isControl (c : Char) : Bool := c.toNat < 0x20 || (0x7f ≤ c.toNat && c.toNat < 0xa0)

def sanitizeLabel (label : Text) : Text := label.map fun c => if isControl c then ' ' else c

def agentsValue (agents : List AgentCount) : Option Text :=
  if agents = [] then none
  else
    some (", ".toList.intercalate
      (agents.map fun a => sanitizeLabel a.label ++ " ×".toList ++ showNat a.count))

namespace PrTrailers

/-- The keys and the values, in the order of the lines. -/
def pairs (F : Floats) (t : PrTrailers) : List (Text × Text) :=
  [(keyCost, t.cost.bind (CostTrailer.value F)), (keyAgents, agentsValue t.agents),
    (keyEffort, t.effort.value), (keyTime, t.time.value)].filterMap
      fun (key, value) => value.map (key, ·)

def lines (F : Floats) (t : PrTrailers) : List Text :=
  (t.pairs F).map fun (key, value) => key ++ ": ".toList ++ value

def render (F : Floats) (t : PrTrailers) : Text := ['\n'].intercalate (t.lines F)

def isEmpty (F : Floats) (t : PrTrailers) : Bool := (t.lines F).isEmpty

end PrTrailers

/-! ### Bodies -/

/-- The carriage return at the end of a line. -/
def stripCr (line : Text) : Text := if line.getLast? = some '\r' then line.dropLast else line

/-- The lines among the pieces of a text: what ends in a line feed without it and without a carriage
return before it, and the last piece as it is, unless it is empty. -/
def endedLines : List Text → List Text
  | [] => []
  | [last] => if last = [] then [] else [last]
  | line :: next :: rest => stripCr line :: endedLines (next :: rest)

def linesOf (s : Text) : List Text := endedLines (splitLines s)

/-- The texts before and after the first colon with a space. -/
def splitColon : Text → Option (Text × Text)
  | [] => none
  | c :: s =>
      match stripPrefix ": ".toList (c :: s) with
      | some value => some ([], value)
      | none => (splitColon s).map fun (key, value) => (c :: key, value)

def isTrailerLine (line : Text) : Bool :=
  match splitColon line with
  | none => false
  | some (key, _) => key.head?.any Char.isAlpha && key.all fun c => c.isAlphanum || c = '-'

def endsWithTrailer (s : Text) : Bool := (linesOf s).getLast?.any isTrailerLine

/-- The body without the line feeds at its end. -/
def trimNewlines (body : Text) : Text := body.rdropWhile (· = '\n')

def appendToBody (F : Floats) (body : Text) (t : PrTrailers) : Text :=
  let block := t.render F
  if block = [] then body
  else
    let body := trimNewlines body
    if body = [] then block
    else body ++ (if endsWithTrailer body then ['\n'] else ['\n', '\n']) ++ block

/-- The key and the value of a line, when the key is one of these trailers. -/
def readTrailer (line : Text) : Option (Text × Text) := do
  let (key, value) ← splitColon line
  let suffix ← stripPrefix "Lazybox-".toList key
  if suffix ≠ [] ∧ suffix.all Char.isAlpha then some (key, value) else none

def extract (message : Text) : List (Text × Text) := (linesOf message).filterMap readTrailer

end Lazybox.PrTrailers

/-!
## Trailers as lines

A trailer is one line, whatever the labels of the agents are, and is read back from it.
-/

namespace Lazybox.PrTrailers

open WorkingClaim (Text stripPrefix splitLines)
open scoped WorkingClaim

variable {F : Floats} {s t line key value rest : Text} {parts lines : List Text} {n : ℕ}

/-! ### Values -/

/-- A text within a line. -/
def Plain (s : Text) : Prop := ∀ c ∈ s, c ≠ '\n' ∧ c ≠ '\r'

instance (s : Text) : Decidable (Plain s) :=
  inferInstanceAs (Decidable (∀ c ∈ s, c ≠ '\n' ∧ c ≠ '\r'))

theorem Plain.append (hs : Plain s) (ht : Plain t) :
  Plain (s ++ t)
  := List.forall_mem_append.mpr ⟨hs, ht⟩

theorem Plain.cons {c : Char} (hc : c ≠ '\n' ∧ c ≠ '\r') (hs : Plain s) :
  Plain (c :: s)
  := List.forall_mem_cons.mpr ⟨hc, hs⟩

theorem plain_of_isDigit {c : Char} (h : c.isDigit) :
  c ≠ '\n' ∧ c ≠ '\r'
  := by
  constructor
  · rintro rfl
    cases h
  · rintro rfl
    cases h

theorem plain_showNat (n : ℕ) :
  Plain (showNat n)
  := by
  intro c hc
  apply plain_of_isDigit (isDigit_of_mem_toString hc)

theorem plain_fixed (decimals : ℕ) (m : ℕ) (hn : n ≠ 0) :
  Plain (F.fixed decimals (F.div (F.ofU64 m) (F.ofU64 n)))
  := by
  intro c hc
  obtain hdigit | rfl := F.fixed_chars decimals m n hn c hc
  · apply plain_of_isDigit hdigit
  · decide

theorem plain_formatDollars (F : Floats) (micros : ℕ) :
  Plain (formatDollars F micros)
  := by
  rw [formatDollars]
  split
  · apply Plain.cons (by decide) (plain_fixed 2 micros (by decide))
  · apply Plain.cons (by decide) (plain_fixed 4 micros (by decide))

theorem plain_scaled (m : ℕ) (hn : n ≠ 0) {suffix : Char} (hsuffix : Plain [suffix]) :
  Plain (scaled F m n suffix)
  := (plain_fixed _ m hn).append hsuffix

theorem plain_fmtCount (F : Floats) (n : ℕ) :
  Plain (fmtCount F n)
  := by
  rw [fmtCount]
  split
  · apply plain_showNat
  · split
    · apply plain_scaled n (by decide) (by decide)
    · split
      · apply plain_scaled n (by decide) (by decide)
      · apply plain_scaled n (by decide) (by decide)

theorem plain_fmtDuration (secs : ℕ) :
  Plain (fmtDuration secs)
  := by
  have htwo (m n : ℕ) {c d : Char} (hc : c ≠ '\n' ∧ c ≠ '\r') (hd : Plain [d]) :
      Plain (showNat m ++ c :: showNat n ++ [d]) :=
    ((plain_showNat m).append (Plain.cons hc (plain_showNat n))).append hd
  have hone (n : ℕ) {d : Char} (hd : Plain [d]) : Plain (showNat n ++ [d]) :=
    (plain_showNat n).append hd
  rw [fmtDuration]
  split
  · split
    · apply htwo _ _ (by decide) (by decide)
    · apply hone _ (by decide)
  · split
    · split
      · apply htwo _ _ (by decide) (by decide)
      · apply hone _ (by decide)
    · apply hone _ (by decide)

theorem plain_plural (n : ℕ) (hs : Plain s) :
  Plain (plural n s)
  := by
  rw [plural]
  split
  · apply hs
  · apply hs.append (by decide)

theorem plain_intercalate (hs : Plain s) (h : ∀ p ∈ parts, Plain p) :
  Plain (s.intercalate parts)
  := by
  induction parts with
  | nil => intro c hc; cases hc
  | cons p parts ih =>
    rw [List.forall_mem_cons] at h
    cases parts with
    | nil =>
      rw [List.intercalate_singleton]
      apply h.1
    | cons p' parts =>
      rw [List.intercalate_cons_cons]
      apply (h.1.append hs).append (ih h.2)

theorem plain_of_joined (h : joined parts = some value) (hparts : ∀ p ∈ parts, Plain p) :
  Plain value
  := by
  rw [joined] at h
  split at h
  · cases h
  · cases h
    apply plain_intercalate (by decide) hparts

theorem plain_sanitizeLabel (label : Text) :
  Plain (sanitizeLabel label)
  := by
  rw [sanitizeLabel, Plain, List.forall_mem_map]
  intro c hc
  split
  · decide
  · next hcontrol =>
      constructor
      · rintro rfl
        apply hcontrol rfl
      · rintro rfl
        apply hcontrol rfl

theorem plain_cost {cost : CostTrailer} (h : cost.value F = some value) :
  Plain value
  := by
  apply plain_of_joined h
  intro p hp
  rw [List.mem_append, Option.mem_toList, Option.map_eq_some_iff] at hp
  obtain ⟨micros, -, rfl⟩ | hp := hp
  · apply plain_formatDollars
  · cases htokens : cost.tokens with
    | none =>
      rw [htokens] at hp
      cases hp
    | some tokens =>
      rw [htokens, Option.map_some, Option.getD_some, List.mem_cons, List.mem_singleton] at hp
      obtain rfl | rfl := hp
      · apply (plain_fmtCount F tokens.input).append (by decide)
      · apply (plain_fmtCount F tokens.output).append (by decide)

theorem plain_agents {agents : List AgentCount} (h : agentsValue agents = some value) :
  Plain value
  := by
  rw [agentsValue] at h
  split at h
  · cases h
  · cases h
    apply plain_intercalate (by decide)
    rw [List.forall_mem_map]
    intro a ha
    apply ((plain_sanitizeLabel a.label).append (by decide)).append (plain_showNat a.count)

theorem plain_effort {effort : EffortTrailer} (h : effort.value = some value) :
  Plain value
  := by
  apply plain_of_joined h
  intro p hp
  rw [List.mem_append, List.mem_append, List.mem_map, List.mem_map, List.mem_map] at hp
  obtain (⟨n, -, rfl⟩ | ⟨n, -, rfl⟩) | ⟨n, -, rfl⟩ := hp
  · apply (plain_showNat n).append (Plain.cons (by decide) (plain_plural n (by decide)))
  · apply ((plain_showNat n).append (by decide)).append (plain_plural n (by decide))
  · apply ((plain_showNat n).append (by decide)).append (plain_plural n (by decide))

theorem plain_time {time : TimeTrailer} (h : time.value = some value) :
  Plain value
  := by
  apply plain_of_joined h
  intro p hp
  rw [List.mem_append, List.mem_map, List.mem_map] at hp
  obtain ⟨s, -, rfl⟩ | ⟨s, -, rfl⟩ := hp
  · apply Plain.append (by decide) (plain_fmtDuration s)
  · apply Plain.append (by decide) (plain_fmtDuration s)

/-! ### Reading a line -/

/-- The key of one of these trailers. -/
def IsKey (key : Text) : Prop :=
  ∃ suffix, key = "Lazybox-".toList ++ suffix ∧ suffix ≠ [] ∧ ∀ c ∈ suffix, c.isAlpha

theorem splitColon_append (h : ':' ∉ key) (value : Text) :
  splitColon (key ++ ": ".toList ++ value) = some (key, value)
  := by
  induction key with
  | nil =>
    have hstrip : stripPrefix ": ".toList (':' :: ' ' :: value) = some value :=
      WorkingClaim.stripPrefix_append ": ".toList value
    rw [List.nil_append, String.toList_ofList, List.cons_append, splitColon]
    rw [List.singleton_append, hstrip]
  | cons c key ih =>
    rw [List.mem_cons, not_or] at h
    have hstrip : stripPrefix ": ".toList (c :: (key ++ ": ".toList ++ value)) = none := by
      rw [Option.eq_none_iff_forall_ne_some]
      intro after hafter
      have heq := WorkingClaim.stripPrefix_eq_some.mp hafter
      apply h.1 (List.cons.inj heq).1.symm
    rw [List.cons_append, List.cons_append, splitColon, hstrip, ih h.2]
    rfl

theorem eq_of_splitColon (h : splitColon line = some (key, value)) :
  line = key ++ ": ".toList ++ value
  := by
  induction line generalizing key with
  | nil => cases h
  | cons c line ih =>
    rw [splitColon] at h
    split at h
    · next value' hstrip =>
        cases h
        apply WorkingClaim.stripPrefix_eq_some.mp hstrip
    · obtain ⟨⟨key', value'⟩, hsplit, hpair⟩ := Option.map_eq_some_iff.mp h
      cases hpair
      rw [ih hsplit]
      rfl

theorem readTrailer_eq_some :
  readTrailer line = some (key, value) ↔ line = key ++ ": ".toList ++ value ∧ IsKey key
  := by
  constructor
  · intro h
    obtain ⟨⟨key', value'⟩, hsplit, h⟩ := Option.bind_eq_some_iff.mp h
    obtain ⟨suffix, hsuffix, h⟩ := Option.bind_eq_some_iff.mp h
    split at h
    · next hletters =>
        cases h
        refine ⟨eq_of_splitColon hsplit, suffix, ?_, hletters.1, List.all_eq_true.mp hletters.2⟩
        apply WorkingClaim.stripPrefix_eq_some.mp hsuffix
    · cases h
  · rintro ⟨rfl, suffix, rfl, hne, hletters⟩
    have hcolon : ':' ∉ "Lazybox-".toList ++ suffix := by
      rw [List.mem_append, not_or]
      constructor
      · decide
      · intro hmem
        cases hletters _ hmem
    rw [readTrailer, splitColon_append hcolon]
    dsimp only [Option.bind_eq_bind, Option.bind_some]
    rw [WorkingClaim.stripPrefix_append, Option.bind_some,
      if_pos ⟨hne, List.all_eq_true.mpr hletters⟩]

/-- A carriage return at the end of a line is read as a part of the value. -/
theorem readTrailer_cr (line : Text) :
  readTrailer (line ++ ['\r']) = (readTrailer line).map fun (key, value) => (key, value ++ ['\r'])
  := by
  ext ⟨key, value⟩
  rw [Option.map_eq_some_iff, readTrailer_eq_some]
  constructor
  · rintro ⟨heq, hkey⟩
    obtain rfl | ⟨value', d, rfl⟩ := List.eq_nil_or_concat' value
    · have hlast := congrArg List.getLast? heq
      rw [List.append_nil, List.getLast?_concat, List.getLast?_append_of_ne_nil _ (by decide)] at hlast
      cases hlast
    · rw [← List.append_assoc] at heq
      obtain ⟨hline, hd⟩ := List.append_inj' heq rfl
      cases hd
      exact ⟨(key, value'), readTrailer_eq_some.mpr ⟨hline, hkey⟩, rfl⟩
  · rintro ⟨⟨key', value'⟩, hread, hpair⟩
    cases hpair
    obtain ⟨rfl, hkey⟩ := readTrailer_eq_some.mp hread
    exact ⟨List.append_assoc _ _ _, hkey⟩

/-! ### Lines -/

theorem endedLines_append {pieces : List Text} (h : lines ≠ []) :
  endedLines (pieces ++ lines) = pieces.map stripCr ++ endedLines lines
  := by
  induction pieces with
  | nil => rfl
  | cons piece pieces ih =>
    have hne : pieces ++ lines ≠ [] := List.append_ne_nil_of_right_ne_nil _ h
    obtain ⟨next, more, hmore⟩ := List.exists_cons_of_ne_nil hne
    rw [List.cons_append, hmore, endedLines, ← hmore, ih]
    rfl

theorem linesOf_append_newline (s rest : Text) :
  linesOf (s ++ '\n' :: rest) = (splitLines s).map stripCr ++ linesOf rest
  := by
  rw [linesOf, WorkingClaim.splitLines_append_newline,
    endedLines_append (WorkingClaim.splitLines_ne_nil rest)]
  rfl

theorem linesOf_of_notMem (h : '\n' ∉ s) :
  linesOf s = if s = [] then [] else [s]
  := by
  rw [linesOf, WorkingClaim.splitLines_of_notMem h]
  rfl

/-- A text that is a line is one. -/
theorem linesOf_intercalate (h : ∀ l ∈ lines, l ≠ [] ∧ Plain l) :
  linesOf (['\n'].intercalate lines) = lines
  := by
  have hnewline {l : Text} (hl : Plain l) : '\n' ∉ l := fun hmem => (hl _ hmem).1 rfl
  induction lines with
  | nil => rfl
  | cons l lines ih =>
    rw [List.forall_mem_cons] at h
    obtain ⟨⟨hne, hplain⟩, hlines⟩ := h
    cases lines with
    | nil =>
      rw [List.intercalate_singleton, linesOf_of_notMem (hnewline hplain), if_neg hne]
    | cons l' lines =>
      have hcr : stripCr l = l := by
        rw [stripCr, if_neg]
        intro hlast
        apply (hplain _ (List.mem_of_mem_getLast? hlast)).2 rfl
      rw [List.intercalate_cons_cons, List.append_assoc, List.singleton_append,
        linesOf_append_newline, WorkingClaim.splitLines_of_notMem (hnewline hplain),
        ih hlines, List.map_singleton, hcr]
      rfl

/-! ### The lines of the trailers -/

theorem pairs_spec (F : Floats) (t : PrTrailers) :
  ∀ pair ∈ t.pairs F, IsKey pair.1 ∧ Plain pair.2
  := by
  rintro ⟨key, value⟩ hmem
  obtain ⟨⟨key', value'⟩, hentry, hvalue⟩ := List.mem_filterMap.mp hmem
  obtain ⟨_, rfl, hpair⟩ := Option.map_eq_some_iff.mp hvalue
  cases hpair
  simp only [List.mem_cons, Prod.mk.injEq, List.not_mem_nil, or_false] at hentry
  obtain ⟨rfl, hcost⟩ | ⟨rfl, hagents⟩ | ⟨rfl, heffort⟩ | ⟨rfl, htime⟩ := hentry
  · obtain ⟨cost, -, hcost⟩ := Option.bind_eq_some_iff.mp hcost.symm
    exact ⟨⟨"Cost".toList, rfl, by decide, by decide⟩, plain_cost hcost⟩
  · exact ⟨⟨"Agents".toList, rfl, by decide, by decide⟩, plain_agents hagents.symm⟩
  · exact ⟨⟨"Effort".toList, rfl, by decide, by decide⟩, plain_effort heffort.symm⟩
  · exact ⟨⟨"Time".toList, rfl, by decide, by decide⟩, plain_time htime.symm⟩

theorem IsKey.plain (h : IsKey key) :
  Plain key
  := by
  obtain ⟨suffix, rfl, -, hletters⟩ := h
  apply Plain.append (by decide)
  intro c hc
  constructor
  · rintro rfl
    cases hletters _ hc
  · rintro rfl
    cases hletters _ hc

/-- Trailers are read back from their lines. -/
theorem extract_render (F : Floats) (t : PrTrailers) :
  extract (t.render F) = t.pairs F
  := by
  have hlines : ∀ l ∈ t.lines F, l ≠ [] ∧ Plain l := by
    rw [PrTrailers.lines, List.forall_mem_map]
    intro pair hpair
    obtain ⟨hkey, hvalue⟩ := pairs_spec F t pair hpair
    constructor
    · apply List.append_ne_nil_of_left_ne_nil
      apply List.append_ne_nil_of_right_ne_nil
      decide
    · apply (hkey.plain.append (by decide)).append hvalue
  rw [extract, PrTrailers.render, linesOf_intercalate hlines, PrTrailers.lines, List.filterMap_map]
  calc (t.pairs F).filterMap (readTrailer ∘ fun pair => pair.1 ++ ": ".toList ++ pair.2)
      = (t.pairs F).filterMap some := by
        apply List.filterMap_congr
        intro pair hpair
        apply readTrailer_eq_some.mpr ⟨rfl, (pairs_spec F t pair hpair).1⟩
    _ = t.pairs F := List.filterMap_some

end Lazybox.PrTrailers
