import Lazybox.Core.ClaimLines
import Lazybox.Core.IssueLinks
import Lazybox.Library.MapM

/-!
# Where keywords end

Keywords are found in the lower case of a body.  Each of them ends there at the lower case of the
text the body begins with up to a character of its own (`mem_ends_iff`), and what is read is the
longest text that fits, of what the body has at the offset (`lookAhead_eq`).
-/

namespace Lazybox.IssueLinks

open String (utf8Len)
open ByteOffset
open WorkingClaim (Text stripPrefix)

/-! ### What is read of the body -/

section Reading

variable {body left shown token : Text} {kws : List Text} {window after i n : ℕ}

theorem walkBack_eq {place stop : ℕ} (hplace : isCharBoundary body place) (hafter : after ≤ place)
    (hstop : place ≤ stop) (hnone : ∀ k, place < k → k ≤ stop → isCharBoundary body k = false) :
  walkBack body after stop = place
  := by
  induction stop with
  | zero => rw [walkBack, Nat.le_zero.mp hstop]
  | succ stop ih =>
    rw [walkBack]
    obtain rfl | hlt := Nat.eq_or_lt_of_le hstop
    · rw [if_neg]
      rintro ⟨-, hcut⟩
      apply hcut hplace
    · rw [if_pos]
      · apply ih
        · omega
        · intro k hk hle
          apply hnone k hk (by omega)
      · constructor
        · omega
        · rw [hnone _ hlt le_rfl]
          apply Bool.false_ne_true

theorem slice_eq_some {start stop : ℕ} :
  slice body start stop = some token
    ↔ ∃ a b, body = a ++ token ++ b ∧ utf8Len a = start ∧ utf8Len (a ++ token) = stop
  := by
  rw [slice]
  constructor
  · intro h
    obtain ⟨⟨before, b⟩, hstop, h⟩ := Option.bind_eq_some_iff.mp h
    obtain ⟨⟨a, between⟩, hstart, h⟩ := Option.bind_eq_some_iff.mp h
    obtain rfl := Option.some.inj h
    obtain ⟨rfl, hlen⟩ := splitAtByte_eq_some.mp hstop
    obtain ⟨rfl, hlen'⟩ := splitAtByte_eq_some.mp hstart
    exact ⟨a, b, rfl, hlen', hlen⟩
  · rintro ⟨a, b, rfl, rfl, rfl⟩
    rw [splitAtByte_append]
    dsimp only [Option.bind_eq_bind, Option.bind_some]
    rw [splitAtByte_append]
    rfl

/-- What is read is the longest text that fits, of what the body has at the offset. -/
theorem lookAhead_eq (body : Text) (window after : ℕ) :
  lookAhead body window after
    = (splitAtByte after body).map fun (_, left) => takeBytes window left
  := by
  cases hsplit : splitAtByte after body with
  | none =>
    rw [Option.map_none, Option.eq_none_iff_forall_ne_some]
    intro token h
    obtain ⟨a, b, rfl, rfl, -⟩ := slice_eq_some.mp h
    rw [List.append_assoc, splitAtByte_append] at hsplit
    cases hsplit
  | some cut =>
    obtain ⟨read, left⟩ := cut
    obtain ⟨rfl, rfl⟩ := splitAtByte_eq_some.mp hsplit
    rw [Option.map_some, lookAhead, slice_eq_some]
    obtain ⟨later, hlater⟩ := takeBytes_isPrefix window left
    have hfits := utf8Len_takeBytes_le window left
    have hlen : utf8Len left = utf8Len (takeBytes window left) + utf8Len later := by
      rw [← String.utf8Len_append, hlater]
    use read, later
    rw [List.append_assoc, hlater]
    refine ⟨rfl, rfl, ?_⟩
    rw [String.utf8Len_append]
    symm
    apply walkBack_eq
    · rw [isCharBoundary_iff]
      use read ++ takeBytes window left, later
      rw [List.append_assoc, hlater, String.utf8Len_append]
      exact ⟨rfl, rfl⟩
    · omega
    · simp only [String.utf8Len_append]
      omega
    · -- a later place that fits would end a longer text
      intro k hk hle
      rw [Bool.eq_false_iff]
      intro hcut
      obtain ⟨a, b, hbody, rfl⟩ := isCharBoundary_iff.mp hcut
      have hread : read <+: a := by
        apply prefix_of_utf8Len_le (s := read ++ left)
        · apply List.prefix_append
        · rw [hbody]
          apply List.prefix_append
        · omega
      obtain ⟨more, rfl⟩ := hread
      rw [List.append_assoc, List.append_cancel_left_eq] at hbody
      simp only [String.utf8Len_append] at hk hle
      have htaken : more <+: takeBytes window left := by
        rw [isPrefix_takeBytes_iff, hbody]
        exact ⟨List.prefix_append _ _, by omega⟩
      have := String.utf8Len_le_of_prefix htaken
      omega

end Reading

/-! ### The ends of keywords -/

/-- A keyword begins a text, with a separator next. -/
def beginsWith (left kw : Text) : Bool := ((stripPrefix kw left).bind List.head?).any isSeparator

/-- A keyword ends where `shown` does, and a separator begins what is left. -/
def KeywordEnds (kws : List Text) (shown left : Text) : Prop :=
  (∃ kw ∈ kws, kw <:+ shown) ∧ left.head?.any isSeparator

/-- No keyword goes on after another one with a separator. -/
def Apart (kws : List Text) : Prop := ∀ kw ∈ kws, ∀ kw' ∈ kws, beginsWith kw' kw = false

instance (kws : List Text) : Decidable (Apart kws) :=
  inferInstanceAs (Decidable (∀ kw ∈ kws, ∀ kw' ∈ kws, beginsWith kw' kw = false))

/-- The offsets where keywords end in a text, `i` bytes after where it begins. -/
def endsFrom (kws : List Text) : ℕ → Text → List ℕ
  | _, [] => []
  | i, c :: left =>
      ((kws.filter (beginsWith (c :: left))).map fun kw => i + utf8Len kw)
        ++ endsFrom kws (i + c.utf8Size) left

section Ends

variable {body left shown token : Text} {kws : List Text} {window i n : ℕ}

theorem beginsWith_append (kw left : Text) :
  beginsWith (kw ++ left) kw = left.head?.any isSeparator
  := by
  rw [beginsWith, WorkingClaim.stripPrefix_append, Option.bind_some]

theorem exists_of_beginsWith {kw : Text} (h : beginsWith left kw) :
  ∃ rest, left = kw ++ rest ∧ rest.head?.any isSeparator
  := by
  rw [beginsWith] at h
  cases hstrip : stripPrefix kw left with
  | none =>
    rw [hstrip] at h
    cases h
  | some rest =>
    rw [hstrip, Option.bind_some] at h
    exact ⟨rest, WorkingClaim.stripPrefix_eq_some.mp hstrip, h⟩

theorem tokensAt_eq (apart : ∀ kw ∈ kws, ∀ kw' ∈ kws, beginsWith kw' kw = false) :
  tokensAt body window i left kws
    = (kws.filter (beginsWith left)).mapM fun kw => lookAhead body window (i + utf8Len kw)
  := by
  induction kws with
  | nil => rfl
  | cons kw kws ih =>
    have hrest := ih fun kw hkw kw' hkw' =>
      apart kw (List.mem_cons_of_mem _ hkw) kw' (List.mem_cons_of_mem _ hkw')
    cases hstrip : stripPrefix kw left with
    | none =>
      have hnot : beginsWith left kw = false := by rw [beginsWith, hstrip]; rfl
      rw [tokensAt, hstrip, List.filter_cons_of_neg (by simp [hnot])]
      apply hrest
    | some after =>
      cases after with
      | nil =>
        -- the keyword is all there is, and no other one ends in it
        obtain rfl : left = kw := by
          rw [WorkingClaim.stripPrefix_eq_some.mp hstrip, List.append_nil]
        have hnone : (left :: kws).filter (beginsWith left) = [] := by
          rw [List.filter_eq_nil_iff]
          intro kw' hkw'
          rw [apart kw' hkw' left List.mem_cons_self]
          apply Bool.false_ne_true
        rw [tokensAt, hstrip, hnone]
        rfl
      | cons next after =>
        have hbegins : beginsWith left kw = isSeparator next := by
          rw [beginsWith, hstrip]
          rfl
        rw [tokensAt, hstrip]
        cases hnext : isSeparator next with
        | false =>
          rw [List.filter_cons_of_neg (by simp [hbegins, hnext])]
          simp only [hnext, Bool.false_eq_true, if_false]
          apply hrest
        | true =>
          rw [List.filter_cons_of_pos (by simp [hbegins, hnext]), List.mapM_cons]
          simp only [hnext, if_true]
          rw [hrest]

theorem tokensFrom_eq (apart : Apart kws) :
  tokensFrom body kws window i left = (endsFrom kws i left).mapM (lookAhead body window)
  := by
  induction left generalizing i with
  | nil => rfl
  | cons c left ih =>
    rw [tokensFrom, endsFrom, tokensAt_eq apart, ih, List.mapM_append, List.mapM_map]
    rfl

theorem mem_endsFrom :
  n ∈ endsFrom kws i left
    ↔ ∃ shown rest, left = shown ++ rest ∧ KeywordEnds kws shown rest ∧ i + utf8Len shown = n
  := by
  induction left generalizing i with
  | nil =>
    rw [endsFrom]
    constructor
    · intro h
      cases h
    · rintro ⟨shown, rest, hleft, ⟨-, hnext⟩, -⟩
      rw [(List.append_eq_nil_iff.mp hleft.symm).2] at hnext
      cases hnext
  | cons c left ih =>
    rw [endsFrom, List.mem_append, List.mem_map, ih]
    constructor
    · rintro (⟨kw, hkw, rfl⟩ | ⟨shown, rest, rfl, ⟨⟨kw, hkw, hends⟩, hnext⟩, rfl⟩)
      · rw [List.mem_filter] at hkw
        obtain ⟨rest, hleft, hnext⟩ := exists_of_beginsWith hkw.2
        exact ⟨kw, rest, hleft, ⟨⟨kw, hkw.1, List.suffix_refl kw⟩, hnext⟩, rfl⟩
      · have hlonger := hends.trans (List.suffix_cons c shown)
        refine ⟨c :: shown, rest, rfl, ⟨⟨kw, hkw, hlonger⟩, hnext⟩, ?_⟩
        rw [String.utf8Len_cons]
        omega
    · rintro ⟨shown, rest, hleft, ⟨⟨kw, hkw, before, hshown⟩, hnext⟩, rfl⟩
      subst hshown
      cases before with
      | nil =>
        left
        use kw
        rw [List.nil_append] at hleft ⊢
        rw [List.mem_filter, hleft, beginsWith_append]
        exact ⟨⟨hkw, hnext⟩, rfl⟩
      | cons d before =>
        right
        rw [List.cons_append, List.cons_append, List.cons.injEq] at hleft
        obtain ⟨rfl, rfl⟩ := hleft
        refine ⟨before ++ kw, rest, rfl, ⟨⟨kw, hkw, List.suffix_append before kw⟩, hnext⟩, ?_⟩
        rw [List.cons_append, String.utf8Len_cons]
        omega

end Ends

theorem apart_keywords :
  Apart keywords
  := by
  decide

theorem apart_blockedKeywords :
  Apart blockedKeywords
  := by
  decide

theorem apart_blockedOnKeywords :
  Apart blockedOnKeywords
  := by
  decide

/-! ### Keywords in the body -/

namespace Lowercasing

variable (L : Lowercasing)

/-- The body up to the end of a keyword, and from the separator after it on. -/
def EndsIn (kws : List Text) (read rest : Text) : Prop :=
  KeywordEnds kws (L.lowerFrom [] read rest) (L.lowerFrom read rest [])

/-- The offset where the code goes on to read the body, after `read`. -/
def offset (read rest : Text) : ℕ := utf8Len (L.lowerFrom [] read rest)

/-- The offsets where keywords end in the body in lower case. -/
def ends (kws : List Text) (body : Text) : List ℕ := endsFrom kws 0 (L.toLowercase body)

variable {L} {before s after shown left : Text} {kws : List Text} {body : Text} {n : ℕ}

theorem lowerFrom_append (s t : Text) :
  L.lowerFrom before (s ++ t) after
    = L.lowerFrom before s (t ++ after) ++ L.lowerFrom (before ++ s) t after
  := by
  induction s generalizing before with
  | nil => rw [List.nil_append, lowerFrom, List.nil_append, List.append_nil]
  | cons c s ih =>
    rw [List.cons_append, lowerFrom, lowerFrom, ih, List.append_assoc, List.append_assoc,
      List.append_assoc, List.singleton_append]

/-- Where an ASCII character stands in the lower case of a text, a character of the text begins. -/
theorem exists_of_lowerFrom {c : Char} (ascii : c.toNat < 128)
    (h : L.lowerFrom before s after = shown ++ c :: left) :
  ∃ read rest, s = read ++ rest ∧ shown = L.lowerFrom before read (rest ++ after)
    ∧ c :: left = L.lowerFrom (before ++ read) rest after
  := by
  induction s generalizing before shown with
  | nil =>
    rw [lowerFrom] at h
    cases (List.append_eq_nil_iff.mp h.symm).2
  | cons d s ih =>
    rw [lowerFrom, List.append_eq_append_iff] at h
    obtain ⟨shown', rfl, h⟩ | ⟨middle, hlower, h⟩ := h
    · obtain ⟨read, rest, rfl, rfl, hleft⟩ := ih h
      refine ⟨d :: read, rest, rfl, ?_, ?_⟩
      · rw [lowerFrom, List.append_assoc]
      · rw [hleft, List.append_assoc, List.singleton_append]
    · cases middle with
      | nil =>
        have hlater : L.lowerFrom (before ++ [d]) s after = [] ++ c :: left := h.symm
        obtain ⟨read, rest, rfl, hshown, hleft⟩ := ih hlater
        refine ⟨d :: read, rest, rfl, ?_, ?_⟩
        · rw [lowerFrom, ← hshown, List.append_nil, ← List.append_assoc, hlower,
            List.append_nil]
        · rw [hleft, List.append_assoc, List.singleton_append]
      | cons e middle =>
        rw [List.cons_append, List.cons.injEq] at h
        obtain ⟨rfl, rfl⟩ := h
        cases shown with
        | nil =>
          refine ⟨[], d :: s, rfl, rfl, ?_⟩
          rw [List.append_nil, lowerFrom, hlower]
          rfl
        | cons first shown =>
          -- within what one character turns into, none is an ASCII character
          have htail := L.ascii_first before d (s ++ after) c (by simp [hlower])
          omega

theorem ascii_of_isSeparator {c : Char} (h : isSeparator c) :
  c.toNat < 128
  := by
  simp only [isSeparator, isAsciiWhitespace, Bool.or_eq_true, decide_eq_true_eq] at h
  rcases h with ((((rfl | rfl) | rfl) | rfl) | rfl) | rfl <;> decide

theorem mem_ends_iff :
  n ∈ L.ends kws body
    ↔ ∃ read rest, body = read ++ rest ∧ L.EndsIn kws read rest ∧ L.offset read rest = n
  := by
  rw [ends, mem_endsFrom]
  constructor
  · rintro ⟨shown, left, hlower, hends, rfl⟩
    cases left with
    | nil => cases hends.2
    | cons c left =>
      obtain ⟨read, rest, rfl, rfl, hleft⟩ :=
        exists_of_lowerFrom (ascii_of_isSeparator hends.2) hlower
      rw [List.nil_append] at hleft
      rw [hleft, List.append_nil] at hends
      refine ⟨read, rest, rfl, hends, ?_⟩
      rw [offset, Nat.zero_add, List.append_nil]
  · rintro ⟨read, rest, rfl, hends, rfl⟩
    refine ⟨L.lowerFrom [] read rest, L.lowerFrom read rest [], ?_, hends, Nat.zero_add _⟩
    rw [toLowercase, lowerFrom_append, List.append_nil]
    rfl

end Lowercasing

section Links

variable {L : Lowercasing} {body : Text} {kws : List Text} {window : ℕ} {tokens : List Text}
  {links : List IssueLink} {link : IssueLink}

theorem tokenizeWith_eq (apart : Apart kws) :
  tokenizeWith L body kws window = (L.ends kws body).mapM (lookAhead body window)
  := tokensFrom_eq apart

theorem isSome_tokenizeWith (apart : Apart kws) (window : ℕ) :
  (tokenizeWith L body kws window).isSome ↔ ∀ n ∈ L.ends kws body, isCharBoundary body n
  := by
  rw [tokenizeWith_eq apart, MapM.isSome_mapM]
  simp only [lookAhead_eq, Option.isSome_map, isCharBoundary]

theorem mem_insert {out : List IssueLink} {a : IssueLink} :
  link ∈ insert out a ↔ link = a ∨ link ∈ out
  := by
  rw [insert]
  split
  · next ha =>
      constructor
      · exact Or.inr
      · rintro (rfl | h)
        · apply ha
        · apply h
  · apply List.mem_orderedInsert

theorem mem_foldl_insert {out found : List IssueLink} :
  link ∈ found.foldl insert out ↔ link ∈ out ∨ link ∈ found
  := by
  induction found generalizing out with
  | nil => simp
  | cons a found ih =>
    rw [List.foldl_cons, ih, mem_insert, List.mem_cons, or_comm (a := link = a), or_assoc]

theorem isSome_linksAfter (apart : Apart kws) :
  (linksAfter kws L body).isSome ↔ ∀ n ∈ L.ends kws body, isCharBoundary body n
  := by
  rw [← isSome_tokenizeWith apart 80, linksAfter]
  cases tokenizeWith L body kws 80 with
  | none => rfl
  | some tokens => rfl

/-- The links that are returned are those read where keywords end. -/
theorem mem_linksAfter (apart : Apart kws) (h : linksAfter kws L body = some links) :
  link ∈ links
    ↔ ∃ n ∈ L.ends kws body, ∃ token, lookAhead body 80 n = some token
      ∧ parseLinkAfterKeyword token = some link
  := by
  obtain ⟨tokens, htokens, hlinks⟩ := Option.bind_eq_some_iff.mp h
  rw [tokenizeWith_eq apart] at htokens
  obtain ⟨hread, hends⟩ := MapM.mem_of_mapM htokens
  rw [← Option.some.inj hlinks, mem_foldl_insert, List.mem_filterMap]
  constructor
  · rintro (h | ⟨token, htoken, hlink⟩)
    · cases h
    · obtain ⟨n, hn, htoken⟩ := hends token htoken
      exact ⟨n, hn, token, htoken, hlink⟩
  · rintro ⟨n, hn, token, htoken, hlink⟩
    right
    obtain ⟨token', hmem, htoken'⟩ := hread n hn
    rw [htoken] at htoken'
    rw [← Option.some.inj htoken'] at hmem
    exact ⟨token, hmem, hlink⟩

end Links

end Lazybox.IssueLinks
