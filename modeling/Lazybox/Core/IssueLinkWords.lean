import Lazybox.Core.IssueLinkEnds
import Lazybox.Library.Words

/-!
# Issue links without a panic

The offset where a keyword ends is counted in the lower case of the body, and the body itself is
cut there.  That goes well exactly when the bytes gained or lost by the lower case of what stands
before are those of whole characters.
-/

namespace Lazybox.IssueLinks

open String (utf8Len)
open ByteOffset
open WorkingClaim (Text)

variable {L : Lowercasing} {body read rest : Text}

/-- The lower case of `read` is as long as it, but for the bytes of some of the characters after it
that it has more, or of some of the last characters of `read` that it has less. -/
def Lowercasing.KeepsPlace (L : Lowercasing) (read rest : Text) : Prop :=
  (∃ passed left, rest = passed ++ left ∧ L.offset read rest = utf8Len read + utf8Len passed)
    ∨ ∃ kept lost, read = kept ++ lost ∧ L.offset read rest + utf8Len lost = utf8Len read

theorem forall_ends_iff {kws : List Text} :
  (∀ n ∈ L.ends kws body, isCharBoundary body n)
    ↔ ∀ read rest, body = read ++ rest → L.EndsIn kws read rest → L.KeepsPlace read rest
  := by
  constructor
  · rintro h read rest rfl hends
    apply isCharBoundary_append.mp
    apply h
    rw [Lowercasing.mem_ends_iff]
    exact ⟨read, rest, rfl, hends, rfl⟩
  · intro h n hn
    obtain ⟨read, rest, rfl, hends, rfl⟩ := Lowercasing.mem_ends_iff.mp hn
    apply isCharBoundary_append.mpr
    apply h read rest rfl hends

theorem isSome_extractBlockedOn :
  (extractBlockedOn L body).isSome
    ↔ ∀ n ∈ L.ends blockedOnKeywords body, isCharBoundary body n
  := by
  rw [← isSome_tokenizeWith apart_blockedOnKeywords (blockedOnMax * 4 + 16),
    extractBlockedOn]
  cases tokenizeWith L body blockedOnKeywords (blockedOnMax * 4 + 16) with
  | none => rfl
  | some tokens => rfl

theorem blockedOnKeywords_subset :
  blockedOnKeywords ⊆ blockedKeywords
  := by
  decide

/-- None of the three panics exactly when every keyword keeps the place in the body. -/
theorem never_panics_iff (L : Lowercasing) (body : Text) :
  ((extract L body).isSome ∧ (extractBlockedBy L body).isSome ∧ (extractBlockedOn L body).isSome)
    ↔ ∀ read rest, body = read ++ rest → L.EndsIn (keywords ++ blockedKeywords) read rest →
        L.KeepsPlace read rest
  := by
  rw [extract, extractBlockedBy, isSome_linksAfter apart_keywords,
    isSome_linksAfter apart_blockedKeywords, isSome_extractBlockedOn, forall_ends_iff,
    forall_ends_iff, forall_ends_iff]
  constructor
  · rintro ⟨hclosing, hblocked, -⟩ read rest hbody ⟨⟨kw, hkw, hends⟩, hnext⟩
    obtain hkw | hkw := List.mem_append.mp hkw
    · apply hclosing read rest hbody ⟨⟨kw, hkw, hends⟩, hnext⟩
    · apply hblocked read rest hbody ⟨⟨kw, hkw, hends⟩, hnext⟩
  · intro h
    have hsub : ∀ kws ⊆ keywords ++ blockedKeywords, ∀ read rest, body = read ++ rest →
        L.EndsIn kws read rest → L.KeepsPlace read rest := by
      rintro kws hkws read rest hbody ⟨⟨kw, hkw, hends⟩, hnext⟩
      apply h read rest hbody ⟨⟨kw, hkws hkw, hends⟩, hnext⟩
    refine ⟨hsub _ ?_, hsub _ ?_, hsub _ ?_⟩
    · apply List.subset_append_left
    · apply List.subset_append_right
    · intro kw hkw
      apply List.mem_append_right
      apply blockedOnKeywords_subset hkw

/-- ASCII characters and the capital I with a dot, in lower case. -/
def dotted : Lowercasing where
  lower _ c _ := if c = 'İ' then ['i', '\u0307'] else [c.toLower]
  ascii_first _ c _ d hd := by
    split at hd
    · rw [List.mem_singleton.mp hd]
      decide
    · cases hd

/-- Two capitals with a dot make the lower case two bytes longer than the body. -/
theorem panics_dotted :
  ¬((extract dotted "İİfix ".toList).isSome ∧ (extractBlockedBy dotted "İİfix ".toList).isSome
    ∧ (extractBlockedOn dotted "İİfix ".toList).isSome)
  := by
  have hpanic : extract dotted "İİfix ".toList = none := by
    decide +kernel
  rw [hpanic]
  rintro ⟨h, -⟩
  cases h

end Lazybox.IssueLinks

/-!
## Keywords that end a longer word

A keyword is looked for at every character of the body, whatever stands before it.  So a link that
follows a longer word which ends in a keyword is returned as if it followed the keyword.
-/

namespace Lazybox.IssueLinks

open ByteOffset
open WorkingClaim (Text)

variable {L : Lowercasing} {kws : List Text} {body before word rest : Text} {link : IssueLink}
  {links : List IssueLink}

/-- A part of the body is a keyword, in lower case, and a separator is next. -/
def Lowercasing.Occurs (L : Lowercasing) (kws : List Text) (before word rest : Text) : Prop :=
  L.lowerFrom before word rest ∈ kws ∧ (L.lowerFrom (before ++ word) rest []).head?.any isSeparator

instance : Decidable (L.Occurs kws before word rest) :=
  inferInstanceAs (Decidable (L.lowerFrom before word rest ∈ kws
    ∧ (L.lowerFrom (before ++ word) rest []).head?.any isSeparator))

/-- The link that is read after a keyword of the body. -/
def Lowercasing.linkAfter (L : Lowercasing) (before word rest : Text) : Option IssueLink :=
  (lookAhead (before ++ word ++ rest) 80 (L.offset (before ++ word) rest)).bind
    parseLinkAfterKeyword

/-- A keyword with the link after it stands in the body, and right before it no character that goes
on with a word. -/
def WholeWord (joins : Char → Bool) (L : Lowercasing) (kws : List Text) (body : Text)
    (link : IssueLink) : Prop :=
  ∃ before word rest, body = before ++ word ++ rest ∧ L.Occurs kws before word rest
    ∧ before.getLast?.any joins = false ∧ L.linkAfter before word rest = some link

/-- Each keyword begins with an ASCII character. -/
def AsciiFirst (kws : List Text) : Prop := ∀ kw ∈ kws, kw.head?.any fun c => c.toNat < 128

instance : Decidable (AsciiFirst kws) :=
  inferInstanceAs (Decidable (∀ kw ∈ kws, (kw.head?.any fun c => c.toNat < 128) = true))

theorem asciiFirst_keywords :
  AsciiFirst keywords
  := by
  decide

theorem asciiFirst_blockedKeywords :
  AsciiFirst blockedKeywords
  := by
  decide

/-- A keyword ends where a part of the body is that keyword. -/
theorem endsIn_iff (ascii : AsciiFirst kws) {read : Text} :
  L.EndsIn kws read rest ↔ ∃ before word, read = before ++ word ∧ L.Occurs kws before word rest
  := by
  constructor
  · rintro ⟨⟨kw, hkw, shown, hshown⟩, hnext⟩
    have hfirst := ascii kw hkw
    cases kw with
    | nil => cases hfirst
    | cons c kw =>
      obtain ⟨before, word, rfl, -, hword⟩ :=
        Lowercasing.exists_of_lowerFrom (of_decide_eq_true hfirst) hshown.symm
      refine ⟨before, word, rfl, ?_, hnext⟩
      rw [List.nil_append] at hword
      rw [← hword]
      apply hkw
  · rintro ⟨before, word, rfl, hkw, hnext⟩
    refine ⟨⟨_, hkw, ?_⟩, hnext⟩
    rw [Lowercasing.lowerFrom_append, List.nil_append]
    apply List.suffix_append

/-- The links that are returned are those that follow keywords. -/
theorem mem_linksAfter_iff (apart : Apart kws) (ascii : AsciiFirst kws)
    (h : linksAfter kws L body = some links) :
  link ∈ links
    ↔ ∃ before word rest, body = before ++ word ++ rest ∧ L.Occurs kws before word rest
      ∧ L.linkAfter before word rest = some link
  := by
  rw [mem_linksAfter apart h]
  constructor
  · rintro ⟨n, hn, token, htoken, hlink⟩
    obtain ⟨read, rest, rfl, hends, rfl⟩ := Lowercasing.mem_ends_iff.mp hn
    obtain ⟨before, word, rfl, hoccurs⟩ := (endsIn_iff ascii).mp hends
    refine ⟨before, word, rest, rfl, hoccurs, ?_⟩
    rw [Lowercasing.linkAfter, htoken, Option.bind_some, hlink]
  · rintro ⟨before, word, rest, rfl, hoccurs, hlink⟩
    obtain ⟨token, htoken, hlink⟩ := Option.bind_eq_some_iff.mp hlink
    refine ⟨_, ?_, token, htoken, hlink⟩
    rw [Lowercasing.mem_ends_iff]
    exact ⟨before ++ word, rest, rfl, (endsIn_iff ascii).mpr ⟨before, word, rfl, hoccurs⟩, rfl⟩

/-- Wherever a keyword that ends a longer word has a link after it, the same link also follows a
keyword that does not. -/
def NoneInWords (joins : Char → Bool) (L : Lowercasing) (kws : List Text) (body : Text) : Prop :=
  ∀ before word rest, body = before ++ word ++ rest → L.Occurs kws before word rest →
    before.getLast?.any joins → ∀ link ∈ L.linkAfter before word rest,
      WholeWord joins L kws body link

theorem wholeWords_iff {joins : Char → Bool} (apart : Apart kws) (ascii : AsciiFirst kws) :
  (∀ links, linksAfter kws L body = some links → ∀ link ∈ links, WholeWord joins L kws body link)
    ↔ (∀ read rest, body = read ++ rest → L.EndsIn kws read rest → L.KeepsPlace read rest) →
        NoneInWords joins L kws body
  := by
  constructor
  · rintro h keeps before word rest hbody hoccurs - link hlink
    rw [← forall_ends_iff, ← isSome_linksAfter apart] at keeps
    obtain ⟨links, hlinks⟩ := Option.isSome_iff_exists.mp keeps
    apply h links hlinks
    rw [mem_linksAfter_iff apart ascii hlinks]
    exact ⟨before, word, rest, hbody, hoccurs, hlink⟩
  · intro h links hlinks link hlink
    have keeps : (linksAfter kws L body).isSome := by
      rw [hlinks]
      rfl
    rw [isSome_linksAfter apart, forall_ends_iff] at keeps
    obtain ⟨before, word, rest, hbody, hoccurs, hafter⟩ :=
      (mem_linksAfter_iff apart ascii hlinks).mp hlink
    cases hjoins : before.getLast?.any joins with
    | true => apply h keeps before word rest hbody hoccurs hjoins link hafter
    | false => exact ⟨before, word, rest, hbody, hoccurs, hjoins, hafter⟩

/-- Every link that is returned follows a whole word exactly when the body is cut at its
characters and none follows a longer word only. -/
theorem links_follow_whole_words_iff (joins : Char → Bool) (L : Lowercasing) (body : Text) :
  ((∀ links, extract L body = some links → ∀ link ∈ links, WholeWord joins L keywords body link)
      ∧ ∀ links, extractBlockedBy L body = some links →
          ∀ link ∈ links, WholeWord joins L blockedKeywords body link)
    ↔ ∀ kws ∈ [keywords, blockedKeywords],
        (∀ read rest, body = read ++ rest → L.EndsIn kws read rest → L.KeepsPlace read rest) →
          NoneInWords joins L kws body
  := by
  rw [List.forall_mem_cons, List.forall_mem_singleton,
    ← wholeWords_iff apart_keywords asciiFirst_keywords,
    ← wholeWords_iff apart_blockedKeywords asciiFirst_blockedKeywords]
  rfl

/-- In "hotfix" only the end is a keyword. -/
theorem hotfix_returns_link :
  ¬((∀ links, extract dotted "hotfix #12".toList = some links →
        ∀ link ∈ links, WholeWord Char.isAlphanum dotted keywords "hotfix #12".toList link)
      ∧ ∀ links, extractBlockedBy dotted "hotfix #12".toList = some links →
          ∀ link ∈ links,
            WholeWord Char.isAlphanum dotted blockedKeywords "hotfix #12".toList link)
  := by
  rintro ⟨h, -⟩
  have hlinks : extract dotted "hotfix #12".toList = some [.github none 12] := by
    decide +kernel
  obtain ⟨before, word, rest, hbody, hoccurs, hjoins, -⟩ := h _ hlinks _ (List.mem_singleton_self _)
  have hnone : ¬∃ before word rest, "hotfix #12".toList = before ++ word ++ rest
      ∧ dotted.Occurs keywords before word rest ∧ before.getLast?.any Char.isAlphanum = false := by
    rw [exists_parts_iff]
    decide +kernel
  exact hnone ⟨before, word, rest, hbody, hoccurs, hjoins⟩

end Lazybox.IssueLinks
