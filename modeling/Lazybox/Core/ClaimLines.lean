import Mathlib
import Lazybox.Core.WorkingClaim

/-!
# What the lines of a comment say

A line is trimmed, and says something of a field when it starts with the prefix of the fields and
the name of one, and has a value after the colon.  What is found of a field is what the last line
says that names it.
-/

namespace Lazybox.WorkingClaim

/-! ### Lines -/

variable {s : Text} {c : Char}

theorem splitLines_cons (h : c ≠ '\n') :
  splitLines (c :: s) = (c :: (splitLines s).headD []) :: (splitLines s).tail
  := by
  rw [splitLines, if_neg h]

theorem splitLines_ne_nil (s : Text) :
  splitLines s ≠ []
  := by
  cases s with
  | nil => simp [splitLines]
  | cons c s =>
    rw [splitLines]
    split
    · apply List.cons_ne_nil
    · apply List.cons_ne_nil

/-- The line a text begins with. -/
def firstLine (s : Text) : Text := (splitLines s).headD []

/-- The lines a text starts with its line feeds. -/
def laterLines (s : Text) : List Text := (splitLines s).tail

theorem splitLines_eq (s : Text) :
  splitLines s = firstLine s :: laterLines s
  := by
  rw [firstLine, laterLines]
  cases h : splitLines s with
  | nil => apply absurd h (splitLines_ne_nil s)
  | cons l ls => rfl

/-- What precedes a text on its first line stays there. -/
theorem splitLines_append {p : Text} (h : '\n' ∉ p) (s : Text) :
  splitLines (p ++ s) = (p ++ firstLine s) :: laterLines s
  := by
  induction p with
  | nil => apply splitLines_eq
  | cons c p ih =>
    rw [List.mem_cons, not_or] at h
    rw [List.cons_append, splitLines_cons (Ne.symm h.1), ih h.2]
    rfl

theorem splitLines_of_notMem (h : '\n' ∉ s) :
  splitLines s = [s]
  := by
  have hs := splitLines_append h []
  rwa [List.append_nil, show firstLine [] = [] from rfl, List.append_nil] at hs

theorem splitLines_append_newline (s t : Text) :
  splitLines (s ++ '\n' :: t) = splitLines s ++ splitLines t
  := by
  induction s with
  | nil => rfl
  | cons c s ih =>
    by_cases h : c = '\n'
    · rw [List.cons_append, splitLines, if_pos h, ih, splitLines, if_pos h, List.cons_append]
    · rw [List.cons_append, splitLines_cons h, ih, splitLines_cons h, splitLines_eq s]
      rfl

theorem splitLines_unlines (texts : List Text) :
  splitLines (unlines texts) = texts.flatMap splitLines ++ [[]]
  := by
  induction texts with
  | nil => rfl
  | cons t texts ih =>
    rw [unlines, List.flatMap_cons, List.append_assoc, List.singleton_append,
      splitLines_append_newline, ← unlines, ih, List.flatMap_cons, List.append_assoc]

/-- The pieces of a text have no line feeds. -/
theorem notMem_of_mem_splitLines {l : Text} (h : l ∈ splitLines s) :
  '\n' ∉ l
  := by
  induction s generalizing l with
  | nil => simp_all [splitLines]
  | cons c s ih =>
    rw [splitLines] at h
    split at h
    · obtain rfl | h := List.mem_cons.mp h
      · apply List.not_mem_nil
      · apply ih h
    · next hc =>
        obtain rfl | h := List.mem_cons.mp h
        · rw [List.mem_cons, not_or]
          constructor
          · apply Ne.symm hc
          · apply ih
            rw [splitLines_eq]
            apply List.mem_cons_self
        · apply ih (List.mem_of_mem_tail h)

/-! ### Trimming -/

theorem isAlphanum_iff :
  c.isAlphanum
    ↔ 48 ≤ c.toNat ∧ c.toNat ≤ 57 ∨ 65 ≤ c.toNat ∧ c.toNat ≤ 90 ∨ 97 ≤ c.toNat ∧ c.toNat ≤ 122
  := by
  simp only [Char.isAlphanum, Char.isAlpha, Char.isUpper, Char.isLower, Char.isDigit,
    UInt32.le_iff_toNat_le, Bool.or_eq_true, Bool.and_eq_true, decide_eq_true_eq, ge_iff_le,
    Char.toNat_val, Char.reduceVal, UInt32.reduceToNat]
  omega

theorem isWhiteSpace_of_isAlphanum (h : c.isAlphanum) :
  isWhiteSpace c = false
  := by
  rw [isAlphanum_iff] at h
  simp only [isWhiteSpace, Bool.or_eq_false_iff, Bool.and_eq_false_iff, decide_eq_false_iff_not]
  omega

def trimEnd (s : Text) : Text := s.rdropWhile isWhiteSpace

theorem trim_eq (s : Text) : trim s = trimEnd (s.dropWhile isWhiteSpace) := rfl

theorem dropWhile_of_head (h : isWhiteSpace c = false) (s : Text) :
  (c :: s).dropWhile isWhiteSpace = c :: s
  := by
  rw [List.dropWhile_cons_of_neg]
  rw [h]
  apply Bool.false_ne_true

theorem trimEnd_append_of_last {d : Char} (h : isWhiteSpace d = false) (p s : Text) :
  trimEnd (p ++ [d] ++ s) = p ++ [d] ++ trimEnd s
  := by
  induction s using List.reverseRecOn with
  | nil =>
    rw [List.append_nil, trimEnd, List.rdropWhile_concat_neg]
    · simp [trimEnd]
    · rw [h]
      apply Bool.false_ne_true
  | append_singleton s c ih =>
    rw [← List.append_assoc, trimEnd, trimEnd]
    by_cases hc : isWhiteSpace c = true
    · rw [List.rdropWhile_concat_pos _ _ _ hc, List.rdropWhile_concat_pos _ _ _ hc]
      apply ih
    · rw [List.rdropWhile_concat_neg _ _ _ hc, List.rdropWhile_concat_neg _ _ _ hc,
        List.append_assoc]

theorem trimEnd_append_of_all {t : Text} (h : ∀ c ∈ t, isWhiteSpace c) :
  trimEnd (s ++ t) = trimEnd s
  := by
  induction t using List.reverseRecOn with
  | nil => rw [List.append_nil]
  | append_singleton t c ih =>
    rw [trimEnd, ← List.append_assoc, List.rdropWhile_concat_pos _ _ _ (h c (by simp))]
    apply ih
    intro d hd
    apply h
    simp [hd]

theorem trim_of_ends {d : Char} (hc : isWhiteSpace c = false) (hd : isWhiteSpace d = false)
    (s : Text) :
  trim (c :: s ++ [d]) = c :: s ++ [d]
  := by
  have hlast := trimEnd_append_of_last hd (c :: s) []
  rw [List.append_nil] at hlast
  rw [trim_eq, List.cons_append, dropWhile_of_head hc, ← List.cons_append, hlast]
  simp [trimEnd]

/-- Trimming the end first changes nothing. -/
theorem trim_trimEnd (s : Text) :
  trim (trimEnd s) = trim s
  := by
  have hsplit : trimEnd s ++ s.rtakeWhile isWhiteSpace = s := List.rdropWhile_append_rtakeWhile
  have hall : ∀ c ∈ s.rtakeWhile isWhiteSpace, isWhiteSpace c := by
    intro c hc
    apply List.mem_rtakeWhile_imp hc
  rw [trim_eq, trim_eq]
  nth_rewrite 2 [← hsplit]
  rw [List.dropWhile_append]
  split
  · next hempty =>
      have hfirst : (trimEnd s).dropWhile isWhiteSpace = [] := by simpa using hempty
      rw [hfirst, ← List.nil_append ((s.rtakeWhile isWhiteSpace).dropWhile isWhiteSpace),
        trimEnd_append_of_all]
      intro c hc
      apply hall c ((List.dropWhile_suffix _).subset hc)
  · rw [trimEnd_append_of_all hall]

theorem trim_trim (s : Text) :
  trim (trim s) = trim s
  := by
  rw [trim_eq s, trim_trimEnd, trim_eq, List.dropWhile_idempotent]

theorem trim_space (s : Text) :
  trim (' ' :: s) = trim s
  := by
  rw [trim_eq, List.dropWhile_cons_of_pos (by rfl), ← trim_eq]

theorem trim_subset (s : Text) :
  trim s ⊆ s
  := by
  intro c hc
  rw [trim_eq] at hc
  apply (List.dropWhile_suffix isWhiteSpace).subset
  apply (List.rdropWhile_prefix isWhiteSpace _).subset hc

/-! ### One line -/

theorem splitOnce_append (h : c ∉ s) (t : Text) :
  splitOnce c (s ++ c :: t) = some (s, t)
  := by
  induction s with
  | nil => rw [List.nil_append, splitOnce, if_pos rfl]
  | cons d s ih =>
    rw [List.mem_cons, not_or] at h
    rw [List.cons_append, splitOnce, if_neg (Ne.symm h.1), ih h.2]
    rfl

theorem stripPrefix_append (p s : Text) :
  stripPrefix p (p ++ s) = some s
  := by
  rw [stripPrefix, if_pos (List.prefix_append p s), List.drop_left]

theorem stripPrefix_eq_some {p t : Text} :
  stripPrefix p s = some t ↔ s = p ++ t
  := by
  constructor
  · intro h
    rw [stripPrefix] at h
    split at h
    · next hp =>
        obtain ⟨t', rfl⟩ := hp
        rw [List.drop_left] at h
        rw [Option.some.inj h]
    · cases h
  · rintro rfl
    apply stripPrefix_append

/-- A text that a line can give as a value. -/
structure Plain (s : Text) : Prop where
  trimmed : trim s = s
  nonempty : s ≠ []
  oneLine : '\n' ∉ s

instance (s : Text) : Decidable (Plain s) :=
  decidable_of_iff (trim s = s ∧ s ≠ [] ∧ '\n' ∉ s)
    ⟨fun h => ⟨h.1, h.2.1, h.2.2⟩, fun h => ⟨h.1, h.2, h.3⟩⟩

theorem Plain.splitLines (plain : Plain s) :
  splitLines s = [s]
  := splitLines_of_notMem plain.oneLine

theorem Plain.firstLine (plain : Plain s) :
  firstLine s = s
  := by
  rw [WorkingClaim.firstLine, plain.splitLines]
  rfl

theorem Plain.laterLines (plain : Plain s) :
  laterLines s = []
  := by
  rw [WorkingClaim.laterLines, plain.splitLines]
  rfl

theorem splitOnce_eq_some {before after : Text} :
  splitOnce c s = some (before, after) ↔ s = before ++ c :: after ∧ c ∉ before
  := by
  constructor
  · intro h
    induction s generalizing before with
    | nil => cases h
    | cons d s ih =>
      rw [splitOnce] at h
      split at h
      · next hd =>
          cases h
          rw [hd, List.nil_append]
          exact ⟨rfl, List.not_mem_nil⟩
      · next hd =>
          obtain ⟨⟨before', after'⟩, hs, hpair⟩ := Option.map_eq_some_iff.mp h
          cases hpair
          obtain ⟨rfl, hc⟩ := ih hs
          rw [List.cons_append, List.mem_cons, not_or]
          exact ⟨rfl, Ne.symm hd, hc⟩
  · rintro ⟨rfl, h⟩
    apply splitOnce_append h

/-- A text is split at the first of a character in one way. -/
theorem eq_of_first {s' t t' : Text} (hs : c ∉ s) (hs' : c ∉ s') (h : s ++ c :: t = s' ++ c :: t') :
  s = s' ∧ t = t'
  := by
  have hsplit := splitOnce_append hs t
  rw [h, splitOnce_append hs', Option.some.injEq, Prod.mk.injEq] at hsplit
  exact ⟨hsplit.1.symm, hsplit.2.symm⟩

/-- A text is split at the last of a character in one way. -/
theorem eq_of_last {s' t t' : Text} (ht : c ∉ t) (ht' : c ∉ t') (h : s ++ c :: t = s' ++ c :: t') :
  s = s' ∧ t = t'
  := by
  have hreverse := congrArg List.reverse h
  rw [List.reverse_append, List.reverse_append, List.reverse_cons, List.reverse_cons,
    List.append_assoc, List.append_assoc, List.singleton_append, List.singleton_append] at hreverse
  rw [← List.mem_reverse] at ht ht'
  obtain ⟨hafter, hbefore⟩ := eq_of_first ht ht' hreverse
  exact ⟨List.reverse_inj.mp hbefore, List.reverse_inj.mp hafter⟩

theorem splitOnce_eq_none :
  splitOnce c s = none ↔ c ∉ s
  := by
  constructor
  · rintro h hc
    obtain ⟨before, after, rfl, hnot⟩ := List.eq_append_cons_of_mem hc
    rw [splitOnce_append hnot] at h
    cases h
  · intro h
    rw [Option.eq_none_iff_forall_ne_some]
    rintro ⟨before, after⟩ hsplit
    apply h
    rw [(splitOnce_eq_some.mp hsplit).1]
    simp

variable {field : Key × Text}

/-- The values that are read are plain. -/
theorem plain_of_readLine {line : Text} (h : '\n' ∉ line) (hfield : readLine line = some field) :
  Plain field.2
  := by
  rw [readLine, Option.bind_eq_bind, Option.bind_eq_some_iff] at hfield
  obtain ⟨rest, hrest, hfield⟩ := hfield
  rw [Option.bind_eq_bind, Option.bind_eq_some_iff] at hfield
  obtain ⟨⟨key, value⟩, hsplit, hfield⟩ := hfield
  dsimp only at hfield
  split at hfield
  · cases hfield
  · next hvalue =>
      obtain ⟨key', -, rfl⟩ := Option.map_eq_some_iff.mp hfield
      constructor
      · apply trim_trim
      · apply hvalue
      · intro hnewline
        apply h
        apply trim_subset line
        rw [stripPrefix] at hrest
        split at hrest
        · cases hrest
          apply List.mem_of_mem_drop (i := fieldPrefix.toList.length)
          rw [(splitOnce_eq_some.mp hsplit).1]
          apply List.mem_append_right
          apply List.mem_cons_of_mem
          apply trim_subset value hnewline
        · cases hrest

variable (key : Key)

theorem Key.ofName_name :
  Key.ofName key.name.toList = some key
  := by
  cases key <;> rfl

open WorkingClaimNote

theorem trim_fieldHead (s : Text) :
  trim (fieldHead key ++ s) = fieldHead key ++ trimEnd s
  := by
  have hhead : ∃ rest, fieldHead key = 'L' :: rest := by
    use (fieldHead key).tail
    cases key <;> rfl
  obtain ⟨rest, hrest⟩ := hhead
  have hlast : trimEnd (fieldHead key ++ s) = fieldHead key ++ trimEnd s :=
    trimEnd_append_of_last (by rfl) _ s
  rw [trim_eq, ← hlast, hrest, List.cons_append, dropWhile_of_head (by rfl)]

/-- What is read of the line of a field is its value, when it has one. -/
theorem readLine_field (s : Text) :
  readLine (fieldHead key ++ " ".toList ++ s)
    = if trim s = [] then none else some (key, trim s)
  := by
  have hname : ':' ∉ key.name.toList := by
    cases key <;> decide
  have hvalue : trim (trimEnd (" ".toList ++ s)) = trim s := by
    rw [trim_trimEnd]
    apply trim_space
  have hhead : fieldHead key ++ trimEnd (" ".toList ++ s)
      = fieldPrefix.toList ++ (key.name.toList ++ ':' :: trimEnd (" ".toList ++ s)) := by
    rw [fieldHead, List.append_assoc, List.append_assoc]
    rfl
  rw [readLine, List.append_assoc, trim_fieldHead, hhead, stripPrefix_append,
    Option.bind_eq_bind, Option.bind_some, splitOnce_append hname, Option.bind_eq_bind,
    Option.bind_some]
  dsimp only
  rw [hvalue, Key.ofName_name, Option.map_some]

/-! ### What is read of a text -/

/-- What the lines of a text say, in order. -/
def readings (s : Text) : List (Key × Text) := (splitLines s).filterMap readLine

/-- What the lines say that a text starts with its line feeds. -/
def laterReadings (s : Text) : List (Key × Text) := (laterLines s).filterMap readLine

/-- The last value that was read of a field. -/
def lastValue (key : Key) (found : List (Key × Text)) : Option Text :=
  (found.reverse.find? fun field => field.1 = key).map Prod.snd

theorem lastValue_append (found found' : List (Key × Text)) :
  lastValue key (found ++ found') = (lastValue key found').or (lastValue key found)
  := by
  rw [lastValue, List.reverse_append, List.find?_append, Option.map_or]
  rfl

@[simp]
theorem lastValue_nil :
  lastValue key [] = none
  := rfl

theorem lastValue_singleton (field : Key × Text) :
  lastValue key [field] = if field.1 = key then some field.2 else none
  := by
  rw [lastValue, List.reverse_singleton]
  split
  · next h => rw [List.find?_cons_of_pos (by simpa using h), Option.map_some]
  · next h => rw [List.find?_cons_of_neg (by simpa using h), List.find?_nil, Option.map_none]

theorem exists_of_lastValue {key : Key} {found : List (Key × Text)} {value : Text}
    (h : lastValue key found = some value) :
  (key, value) ∈ found
  := by
  obtain ⟨⟨key', value'⟩, hfind, rfl⟩ := Option.map_eq_some_iff.mp h
  have hkey : key' = key := by simpa using List.find?_some hfind
  subst hkey
  apply List.mem_reverse.mp (List.mem_of_find?_eq_some hfind)

theorem plain_of_mem_readings (h : field ∈ readings s) :
  Plain field.2
  := by
  obtain ⟨line, hline, hread⟩ := List.mem_filterMap.mp h
  apply plain_of_readLine (notMem_of_mem_splitLines hline) hread

/-- What is read of a field is its value, and what its value says on the lines it starts. -/
theorem readings_field (field : Key × Text) :
  readings (fieldText field)
    = (if trim (firstLine field.2) = [] then [] else [(field.1, trim (firstLine field.2))])
      ++ laterReadings field.2
  := by
  have hhead : '\n' ∉ fieldHead field.1 ++ " ".toList := by
    cases field.1 <;> decide
  rw [readings, fieldText, splitLines_append hhead, laterReadings]
  split
  · next h =>
      rw [List.filterMap_cons_none, List.nil_append]
      rw [readLine_field, if_pos h]
  · next h =>
      rw [List.filterMap_cons_some (b := (field.1, trim (firstLine field.2))),
        List.singleton_append]
      rw [readLine_field, if_neg h]

theorem readings_plain (plain : Plain field.2) :
  readings (fieldText field) = [field]
  := by
  rw [readings_field, plain.firstLine, plain.trimmed, if_neg plain.nonempty, laterReadings,
    plain.laterLines]
  rfl

/-- A field says of another field only what its value says on later lines. -/
theorem lastValue_field {key : Key} (h : field.1 ≠ key) :
  lastValue key (readings (fieldText field)) = lastValue key (laterReadings field.2)
  := by
  rw [readings_field, lastValue_append]
  split
  · rw [lastValue_nil, Option.or_none]
  · rw [lastValue_singleton, if_neg h, Option.or_none]

theorem readings_unlines (texts : List Text) :
  readings (unlines texts) = texts.flatMap readings
  := by
  have hempty : [([] : Text)].filterMap readLine = [] := by rfl
  rw [readings, splitLines_unlines, List.filterMap_append, hempty, List.append_nil,
    List.filterMap_flatMap]
  rfl

theorem filterMap_lines (s : Text) :
  (lines s).filterMap readLine = readings s
  := by
  rw [lines, readings]
  split
  · next h =>
      have hsplit := List.dropLast_append_getLast? [] h
      nth_rewrite 2 [← hsplit]
      rw [List.filterMap_append, show [([] : Text)].filterMap readLine = [] from rfl,
        List.append_nil]
  · rfl

/-! ### What is found in a comment -/

section Reading

variable {T : Type} (S : Stamps T)

/-- A field is found as the last line that names it says. -/
theorem foldl_assign {β : Type} (π : Found T → Option β) (key : Key) (g : Text → Option β)
    (nothing : π .nothing = none)
    (assign : ∀ f field, π (Found.assign S f field) = if field.1 = key then g field.2 else π f)
    (found : List (Key × Text)) :
  π (found.foldl (Found.assign S) .nothing) = (lastValue key found).bind g
  := by
  induction found using List.reverseRecOn with
  | nil => apply nothing
  | append_singleton found field ih =>
    rw [List.foldl_append, List.foldl_cons, List.foldl_nil, assign, lastValue_append,
      lastValue_singleton, ih]
    split
    · rfl
    · rfl

/-- The note that fields and their values give. -/
theorem note_foldl (found : List (Key × Text)) :
  (found.foldl (Found.assign S) .nothing).note
    = ((lastValue .started found).bind S.parseStamp).bind fun startedAt =>
        (lastValue .device found).bind fun device =>
        (lastValue .session found).bind fun session =>
        ((lastValue .expires found).bind S.parseStamp).bind fun expiresAt =>
        some {
          device := device
          session := session
          workspace := lastValue .workspace found
          agent := lastValue .agent found
          model := lastValue .model found
          startedAt := startedAt
          heartbeatAt := ((lastValue .heartbeat found).bind S.parseStamp).getD startedAt
          expiresAt := expiresAt
          releasedAt := (lastValue .released found).bind S.parseStamp }
  := by
  have htext : ∀ (π : Found T → Option Text) (key : Key), π .nothing = none →
      (∀ f field, π (Found.assign S f field) = if field.1 = key then some field.2 else π f) →
      π (found.foldl (Found.assign S) .nothing) = lastValue key found := by
    intro π key hnothing hassign
    rw [foldl_assign S π key some hnothing hassign, Option.bind_fun_some]
  have hdevice := htext Found.device .device rfl (by rintro f ⟨key, v⟩; cases key <;> rfl)
  have hsession := htext Found.session .session rfl (by rintro f ⟨key, v⟩; cases key <;> rfl)
  have hworkspace := htext Found.workspace .workspace rfl
    (by rintro f ⟨key, v⟩; cases key <;> rfl)
  have hagent := htext Found.agent .agent rfl (by rintro f ⟨key, v⟩; cases key <;> rfl)
  have hmodel := htext Found.model .model rfl (by rintro f ⟨key, v⟩; cases key <;> rfl)
  have hstarted := foldl_assign S Found.startedAt .started S.parseStamp rfl
    (by rintro f ⟨key, v⟩; cases key <;> rfl) found
  have hheartbeat := foldl_assign S Found.heartbeatAt .heartbeat S.parseStamp rfl
    (by rintro f ⟨key, v⟩; cases key <;> rfl) found
  have hexpires := foldl_assign S Found.expiresAt .expires S.parseStamp rfl
    (by rintro f ⟨key, v⟩; cases key <;> rfl) found
  have hreleased := foldl_assign S Found.releasedAt .released S.parseStamp rfl
    (by rintro f ⟨key, v⟩; cases key <;> rfl) found
  rw [Found.note, hdevice, hsession, hworkspace, hagent, hmodel, hstarted, hheartbeat, hexpires,
    hreleased]
  rfl

end Reading

end Lazybox.WorkingClaim
