import Lazybox.Core.PrTrailers

/-!
# Trailers in bodies

Trailers that are put at the end of a body are read back after those of the body.  The exception is
a body whose last line is a trailer with a carriage return at its end and no line feed: the trailers
that follow bring the line feed, and the carriage return is no longer a part of the value.
-/

namespace Lazybox.PrTrailers

open WorkingClaim (Text splitLines)

variable {F : Floats} {s rest body kept line : Text} {t : PrTrailers}

/-! ### Texts with a line feed after them -/

/-- The trailers of a text with a line feed after it. -/
def ended (s : Text) : List (Text × Text) := ((splitLines s).map stripCr).filterMap readTrailer

theorem extract_append_newline (s rest : Text) :
  extract (s ++ '\n' :: rest) = ended s ++ extract rest
  := by
  rw [extract, linesOf_append_newline, List.filterMap_append]
  rfl

theorem ended_append_newline (s rest : Text) :
  ended (s ++ '\n' :: rest) = ended s ++ ended rest
  := by
  rw [ended, WorkingClaim.splitLines_append_newline, List.map_append, List.filterMap_append]
  rfl

theorem extract_newline (s : Text) :
  extract ('\n' :: s) = extract s
  := extract_append_newline [] s

theorem extract_of_newlines (h : ∀ c ∈ s, c = '\n') :
  extract s = []
  := by
  induction s with
  | nil => rfl
  | cons c s ih =>
    rw [List.forall_mem_cons] at h
    rw [h.1, extract_newline, ih h.2]

/-- The last line of a text is one of these trailers with a carriage return at its end. -/
def EndsInCr (s : Text) : Prop :=
  ∃ before key value, s = before ++ (key ++ ": ".toList ++ value ++ ['\r']) ∧ IsKey key
    ∧ '\n' ∉ value ∧ (before = [] ∨ before.getLast? = some '\n')

/-- A single line is read as if a line feed followed unless it is a trailer with a carriage return
at its end. -/
theorem extract_line_iff (h : '\n' ∉ line) :
  extract line = ended line
    ↔ ¬∃ key value, line = key ++ ": ".toList ++ value ++ ['\r'] ∧ IsKey key
  := by
  have hextract : extract line = (readTrailer line).toList := by
    rw [extract, linesOf_of_notMem h]
    split
    · next hnil =>
        rw [hnil]
        rfl
    · simp only [List.filterMap_cons, List.filterMap_nil]
      cases readTrailer line with
      | none => rfl
      | some pair => rfl
  have hended : ended line = (readTrailer (stripCr line)).toList := by
    rw [ended, WorkingClaim.splitLines_of_notMem h]
    simp only [List.map_cons, List.map_nil, List.filterMap_cons, List.filterMap_nil]
    cases readTrailer (stripCr line) with
    | none => rfl
    | some pair => rfl
  rw [hextract, hended]
  by_cases hcr : line.getLast? = some '\r'
  · obtain ⟨l, rfl⟩ := List.getLast?_eq_some_iff.mp hcr
    have hstrip : stripCr (l ++ ['\r']) = l := by
      rw [stripCr, if_pos hcr, List.dropLast_concat]
    rw [hstrip, readTrailer_cr]
    cases hread : readTrailer l with
    | none =>
      apply iff_of_true rfl
      rintro ⟨key, value, heq, hkey⟩
      have hl := List.append_cancel_right heq
      rw [readTrailer_eq_some.mpr ⟨hl, hkey⟩] at hread
      cases hread
    | some pair =>
      obtain ⟨key, value⟩ := pair
      obtain ⟨rfl, hkey⟩ := readTrailer_eq_some.mp hread
      apply iff_of_false
      · simp
      · rw [not_not]
        exact ⟨key, value, rfl, hkey⟩
  · rw [stripCr, if_neg hcr]
    apply iff_of_true rfl
    rintro ⟨key, value, rfl, -⟩
    apply hcr
    apply List.getLast?_concat

/-- A text is its last line after what ends in a line feed. -/
theorem exists_lastLine (s : Text) :
  '\n' ∉ s ∨ ∃ before line, s = before ++ '\n' :: line ∧ '\n' ∉ line
  := by
  by_cases h : '\n' ∈ s
  · obtain ⟨after, before, heq, hnot⟩ := List.eq_append_cons_of_mem (List.mem_reverse.mpr h)
    right
    use before.reverse, after.reverse
    rw [List.mem_reverse, ← List.reverse_reverse s, heq, List.reverse_append, List.reverse_cons,
      List.append_assoc]
    exact ⟨rfl, hnot⟩
  · apply Or.inl h

theorem endsInCr_iff (h : '\n' ∉ line) :
  EndsInCr line ↔ ∃ key value, line = key ++ ": ".toList ++ value ++ ['\r'] ∧ IsKey key
  := by
  constructor
  · rintro ⟨before, key, value, rfl, hkey, -, rfl | hbefore⟩
    · exact ⟨key, value, rfl, hkey⟩
    · cases h (List.mem_append_left _ (List.mem_of_mem_getLast? hbefore))
  · rintro ⟨key, value, rfl, hkey⟩
    refine ⟨[], key, value, rfl, hkey, ?_, .inl rfl⟩
    intro hmem
    apply h
    simp [hmem]

theorem endsInCr_append_iff (before : Text) (h : '\n' ∉ line) :
  EndsInCr (before ++ '\n' :: line) ↔ EndsInCr line
  := by
  rw [endsInCr_iff h]
  constructor
  · rintro ⟨before', key, value, heq, hkey, hvalue, hbefore⟩
    have hlast : '\n' ∉ key ++ ": ".toList ++ value ++ ['\r'] := by
      intro hmem
      rw [List.mem_append, List.mem_append, List.mem_append, List.mem_singleton] at hmem
      obtain ((hmem | hmem) | hmem) | hmem := hmem
      · apply (hkey.plain _ hmem).1 rfl
      · revert hmem
        decide
      · apply hvalue hmem
      · cases hmem
    obtain rfl | hbefore := hbefore
    · rw [List.nil_append] at heq
      rw [← heq] at hlast
      cases hlast (List.mem_append_right _ List.mem_cons_self)
    · obtain ⟨before'', rfl⟩ := List.getLast?_eq_some_iff.mp hbefore
      rw [List.append_assoc, List.singleton_append] at heq
      exact ⟨key, value, (WorkingClaim.eq_of_last h hlast heq).2, hkey⟩
  · rintro ⟨key, value, rfl, hkey⟩
    refine ⟨before ++ ['\n'], key, value, ?_, hkey, ?_, .inr List.getLast?_concat⟩
    · rw [List.append_assoc before, List.singleton_append]
    · intro hmem
      apply h
      simp [hmem]

theorem extract_eq_ended_iff (s : Text) :
  extract s = ended s ↔ ¬EndsInCr s
  := by
  obtain h | ⟨before, line, rfl, h⟩ := exists_lastLine s
  · rw [extract_line_iff h, endsInCr_iff h]
  · rw [extract_append_newline, ended_append_newline, List.append_cancel_left_eq,
      extract_line_iff h, endsInCr_append_iff before h, endsInCr_iff h]

/-! ### Bodies -/

/-- A text without the white space at its end begins another text. -/
def KeepsText (body result : Text) : Prop :=
  ∃ kept blanks, body = kept ++ blanks ∧ (∀ c ∈ blanks, isWhiteSpace c) ∧ kept <+: result

/-- A body is what is kept of it, and line feeds. -/
theorem trimNewlines_append (body : Text) :
  ∃ newlines, body = trimNewlines body ++ newlines ∧ ∀ c ∈ newlines, c = '\n'
  := by
  use body.rtakeWhile (· = '\n')
  constructor
  · apply List.rdropWhile_append_rtakeWhile.symm
  · intro c hc
    have hnewline := List.mem_rtakeWhile_imp hc
    apply of_decide_eq_true hnewline

theorem trimNewlines_isPrefix (F : Floats) (body : Text) (t : PrTrailers) :
  trimNewlines body <+: appendToBody F body t
  := by
  rw [appendToBody]
  split
  · apply List.rdropWhile_prefix
  · dsimp only
    split
    · next hnil =>
        rw [hnil]
        apply List.nil_prefix
    · rw [List.append_assoc]
      apply List.prefix_append

theorem appendToBody_keepsText (F : Floats) (body : Text) (t : PrTrailers) :
  KeepsText body (appendToBody F body t)
  := by
  obtain ⟨newlines, hbody, hall⟩ := trimNewlines_append body
  refine ⟨trimNewlines body, newlines, hbody, ?_, trimNewlines_isPrefix F body t⟩
  intro c hc
  rw [hall c hc]
  rfl

/-- Nothing is written exactly when nothing was measured. -/
theorem render_eq_nil_iff (F : Floats) (t : PrTrailers) :
  t.render F = [] ↔ t.isEmpty F
  := by
  rw [PrTrailers.isEmpty, List.isEmpty_iff]
  constructor
  · intro h
    have hextract := extract_render F t
    rw [h] at hextract
    rw [PrTrailers.lines, ← hextract]
    rfl
  · intro h
    rw [PrTrailers.render, h]
    rfl

/-- The trailers that are appended follow those of the body as they are read with a line feed after
it. -/
theorem extract_append (hkept : trimNewlines body ≠ []) (hblock : t.render F ≠ []) :
  extract (appendToBody F body t) = ended (trimNewlines body) ++ t.pairs F
  := by
  rw [appendToBody, if_neg hblock]
  dsimp only
  rw [if_neg hkept]
  split
  · rw [List.append_assoc, List.singleton_append, extract_append_newline, extract_render]
  · rw [List.append_assoc, List.cons_append, List.singleton_append, extract_append_newline,
      extract_newline, extract_render]

/-- The trailers of a body are those of what is kept of it, with a line feed after it unless the
body has none. -/
theorem extract_body (body : Text) :
  extract body = ended (trimNewlines body) ↔ ¬EndsInCr body
  := by
  obtain ⟨newlines, hbody, hall⟩ := trimNewlines_append body
  cases newlines with
  | nil =>
    rw [List.append_nil] at hbody
    rw [← hbody, extract_eq_ended_iff]
  | cons c newlines =>
    rw [List.forall_mem_cons] at hall
    obtain ⟨rfl, hall⟩ := hall
    apply iff_of_true
    · conv_lhs => rw [hbody]
      rw [extract_append_newline, extract_of_newlines hall, List.append_nil]
    · rintro ⟨before, key, value, heq, -⟩
      have hlast := congrArg List.getLast? (hbody.symm.trans heq)
      rw [← List.append_assoc, List.getLast?_concat, List.getLast?_append_cons] at hlast
      obtain hcr | hcr := List.mem_cons.mp (List.mem_of_mem_getLast? hlast)
      · cases hcr
      · cases hall _ hcr

/-- What is appended to a body is read back after the trailers of the body exactly when the body
does not end in a trailer with a carriage return, or nothing is appended. -/
theorem extract_appendToBody_iff (F : Floats) (body : Text) (t : PrTrailers) :
  (extract (appendToBody F body t) = extract body ++ t.pairs F
      ∧ KeepsText body (appendToBody F body t))
    ↔ t.isEmpty F ∨ ¬EndsInCr body
  := by
  rw [and_iff_left (appendToBody_keepsText F body t), ← render_eq_nil_iff]
  by_cases hblock : t.render F = []
  · apply iff_of_true _ (.inl hblock)
    rw [← extract_render, hblock, appendToBody, if_pos hblock]
    exact (List.append_nil _).symm
  · rw [or_iff_right hblock, ← extract_body]
    by_cases hkept : trimNewlines body = []
    · obtain ⟨newlines, hbody, hall⟩ := trimNewlines_append body
      rw [hkept, List.nil_append] at hbody
      have hnone : extract body = [] := by
        rw [hbody]
        apply extract_of_newlines hall
      rw [hnone, appendToBody, if_neg hblock, hkept]
      apply iff_of_true
      · apply extract_render
      · rfl
    · rw [extract_append hkept hblock, List.append_cancel_right_eq]
      apply eq_comm

/-- Whole numbers for floats, which a number of turns does not need. -/
def wholeNumbers : Floats where
  Float := ℕ
  ofU64 := id
  div m n := m / n
  ge m n := n ≤ m
  fixed _ n := showNat n
  fixed_chars _ _ _ _ c hc := by
    left
    apply isDigit_of_mem_toString hc

def oneTurn : PrTrailers := ⟨none, [], ⟨some 1, none, none⟩, ⟨none, none⟩⟩

/-- The cost is read with the carriage return before a turn is appended, and without it after. -/
theorem carriage_return_lost :
  ¬(extract (appendToBody wholeNumbers "Lazybox-Cost: $1\r".toList oneTurn)
      = extract "Lazybox-Cost: $1\r".toList ++ oneTurn.pairs wholeNumbers
    ∧ KeepsText "Lazybox-Cost: $1\r".toList
        (appendToBody wholeNumbers "Lazybox-Cost: $1\r".toList oneTurn))
  := by
  rintro ⟨h, -⟩
  revert h
  decide

end Lazybox.PrTrailers
