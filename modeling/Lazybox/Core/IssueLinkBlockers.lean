import Lazybox.Core.IssueLinkWindow

/-!
# Blockers between two windows

After a keyword for a blocker the link is read from a narrow window, and the description from a
wide one, unless a link is there.  A link that begins between the ends of the two windows is read
by neither.
-/

namespace Lazybox.IssueLinks

open String (utf8Len)
open ByteOffset
open WorkingClaim (Text)

variable {L : Lowercasing} {body w v s head left : Text}

/-! ### Where a link begins -/

/-- What a link is known by: a `#`, the slug before it if there is one, and a digit, or the name of
a team, a dash and a digit. -/
inductive LinkHead : Text → Prop where
  | hash {head : Text} {d : Char} (repo : head = [] ∨ IsRepo head) (digit : d.isDigit) :
      LinkHead (head ++ ['#', d])
  | ticket {team : Text} {d : Char} (letters : IsTeam team) (digit : d.isDigit) :
      LinkHead (team ++ ['-', d])

theorem digitsOf_ne_nil :
  digitsOf s ≠ [] ↔ ∃ d rest, s = d :: rest ∧ d.isDigit
  := by
  cases s with
  | nil => simp [digitsOf]
  | cons d rest =>
    rw [digitsOf, List.takeWhile_cons]
    split
    · next h =>
        apply iff_of_true (List.cons_ne_nil d _)
        exact ⟨d, rest, rfl, h⟩
    · next h =>
        apply iff_of_false (not_not.mpr rfl)
        rintro ⟨_, _, heq, hd⟩
        cases heq
        apply h hd

/-- A text that begins with a link begins with what it is known by. -/
theorem BeginsLink.exists_head (h : BeginsLink s) :
  ∃ head, LinkHead head ∧ head <+: s
  := by
  cases h with
  | hash hash fits =>
    obtain ⟨d, rest, rfl, hd⟩ := digitsOf_ne_nil.mp fits.1
    refine ⟨_, .hash hash.head hd, rest, ?_⟩
    rw [hash.eq, List.append_assoc]
    rfl
  | ticket ticket digit =>
    obtain ⟨d, rest, rfl, hd⟩ := digitsOf_ne_nil.mp digit
    refine ⟨_, .ticket ticket.team hd, rest, ?_⟩
    rw [ticket.eq, List.append_assoc]
    rfl

theorem prefix_of_append_eq {a b s t : Text} {c : Char} (h : a ++ s = b ++ c :: t) (hc : c ∉ a) :
  a <+: b
  := by
  obtain ⟨more, rfl, -⟩ | ⟨more, rfl, hmore⟩ := List.append_eq_append_iff.mp h
  · apply List.prefix_append
  · cases more with
    | nil => rw [List.append_nil]
    | cons d more =>
      cases hmore
      cases hc (List.mem_append_right b List.mem_cons_self)

theorem hash_notMem_ticket {team : Text} {d : Char} (letters : IsTeam team) (digit : d.isDigit) :
  '#' ∉ team ++ ['-', d]
  := by
  intro hmem
  rw [List.mem_append, List.mem_cons, List.mem_singleton] at hmem
  obtain hmem | hmem | rfl := hmem
  · cases List.all_eq_true.mp letters.1 _ hmem
  · cases hmem
  · cases digit

/-- A part of a text that begins with a link begins with one as soon as it holds what a link is
known by. -/
theorem BeginsLink.of_head (h : BeginsLink (w ++ v)) (hhead : LinkHead head) (hw : head <+: w) :
  BeginsLink w
  := by
  obtain ⟨more, rfl⟩ := hw
  cases hhead with
  | ticket team hd =>
    refine .ticket ⟨?_, team⟩ (digitsOf_ne_nil.mpr ⟨_, more, rfl, hd⟩)
    rw [List.append_assoc]
    rfl
  | @hash repo d hrepo hd =>
    have hin : Hash (repo ++ ['#', d] ++ more) repo (d :: more) := by
      refine ⟨?_, hrepo⟩
      rw [List.append_assoc]
      rfl
    cases h with
    | hash hash fits =>
      obtain ⟨rfl, rfl⟩ := hash.unique (hin.append v)
      exact .hash hin (fits.of_append (List.cons_ne_nil d more))
    | @ticket team rest ticket digit =>
      -- the ticket stands before the `#`
      obtain ⟨e, rest, rfl, he⟩ := digitsOf_ne_nil.mp digit
      have heq : (team ++ ['-', e]) ++ rest = repo ++ '#' :: (d :: more ++ v) := by
        rw [← (hin.append v).eq, ticket.eq, List.append_assoc]
        rfl
      obtain ⟨between, rfl⟩ :=
        prefix_of_append_eq heq (hash_notMem_ticket ticket.team he)
      have hdigit : digitsOf (e :: (between ++ '#' :: d :: more)) ≠ [] :=
        digitsOf_ne_nil.mpr ⟨e, _, rfl, he⟩
      refine .ticket ⟨?_, ticket.team⟩ hdigit
      rw [List.append_assoc, List.append_assoc, List.append_assoc]
      rfl

theorem isLeading_of_isRepoChar {c : Char} (h : isRepoChar c) :
  isLeading c = false
  := by
  simp only [isRepoChar, Bool.or_eq_true, decide_eq_true_eq] at h
  obtain (((h | rfl) | rfl) | rfl) | rfl := h
  · rw [isLeading, WorkingClaim.isWhiteSpace_of_isAlphanum h, Bool.false_or,
      decide_eq_false_iff_not]
    rintro rfl
    cases h
  all_goals rfl

theorem LinkHead.dropWhile_append (h : LinkHead head) (s : Text) :
  (head ++ s).dropWhile isLeading = head ++ s
  := by
  have hfirst : ∃ c rest, head = c :: rest ∧ isLeading c = false := by
    cases h with
    | @hash repo d hrepo digit =>
      cases repo with
      | nil => exact ⟨'#', [d], rfl, rfl⟩
      | cons c repo =>
        obtain hnil | hrepo := hrepo
        · cases hnil
        · refine ⟨c, repo ++ ['#', d], rfl, ?_⟩
          apply isLeading_of_isRepoChar
          apply List.all_eq_true.mp hrepo.1 c List.mem_cons_self
    | @ticket team d letters digit =>
      cases team with
      | nil => cases letters.2.1
      | cons c team =>
        refine ⟨c, team ++ ['-', d], rfl, ?_⟩
        apply isLeading_of_isRepoChar
        have hletter := List.all_eq_true.mp letters.1 c List.mem_cons_self
        rw [isRepoChar, Char.isAlphanum, hletter]
        rfl
  obtain ⟨c, rest, rfl, hc⟩ := hfirst
  rw [List.cons_append, List.dropWhile_cons_of_neg]
  rw [hc]
  apply Bool.false_ne_true

/-! ### The two windows -/

/-- So many bytes hold what stands before a link and what the link is known by. -/
def HeadWithin (window : ℕ) (left : Text) : Prop :=
  ∃ blanks head, (∀ c ∈ blanks, isLeading c) ∧ LinkHead head ∧ blanks ++ head <+: left
    ∧ utf8Len (blanks ++ head) ≤ window

/-- A link of the wide window is in the narrow one as well when what it is known by is. -/
theorem isSome_narrow_iff {narrow wide : ℕ} (hle : narrow ≤ wide)
    (h : BeginsLink ((takeBytes wide left).dropWhile isLeading)) :
  (parseLinkAfterKeyword (takeBytes narrow left)).isSome ↔ HeadWithin narrow left
  := by
  rw [parseLinkAfterKeyword, isSome_readLink]
  constructor
  · intro hlink
    obtain ⟨head, hhead, hin⟩ := hlink.exists_head
    use (takeBytes narrow left).takeWhile isLeading, head
    have htaken : (takeBytes narrow left).takeWhile isLeading ++ head <+: takeBytes narrow left := by
      obtain ⟨more, hmore⟩ := hin
      use more
      rw [List.append_assoc, hmore, List.takeWhile_append_dropWhile]
    exact ⟨fun c => List.mem_takeWhile_imp, hhead, isPrefix_takeBytes_iff.mp htaken⟩
  · rintro ⟨blanks, head, hblanks, hhead, hin⟩
    obtain ⟨more, hmore⟩ := isPrefix_takeBytes_iff.mpr hin
    obtain ⟨v, hv⟩ := takeBytes_mono hle left
    have htrim (s : Text) : (blanks ++ head ++ s).dropWhile isLeading = head ++ s := by
      rw [List.append_assoc, List.dropWhile_append_of_pos hblanks, hhead.dropWhile_append]
    rw [← hv, ← hmore, List.append_assoc, htrim, ← List.append_assoc] at h
    rw [← hmore, htrim]
    apply h.of_head hhead (List.prefix_append head more)

/-! ### The blockers of a body -/

/-- What follows a keyword gives an edge of the body, or is read for a description. -/
def Lowercasing.TakesUp (L : Lowercasing) (edges : List IssueLink) (body read rest : Text) : Prop :=
  (∃ token, lookAhead body 80 (L.offset read rest) = some token
      ∧ ∃ link ∈ edges, parseLinkAfterKeyword token = some link)
    ∨ ∃ token, lookAhead body (blockedOnMax * 4 + 16) (L.offset read rest) = some token
      ∧ parseLinkAfterKeyword token = none

/-- What is known of a link in the wide window is in the narrow one. -/
def Reachable (left : Text) : Prop :=
  BeginsLink ((takeBytes (blockedOnMax * 4 + 16) left).dropWhile isLeading) → HeadWithin 80 left

theorem reachable_iff (left : Text) :
  (parseLinkAfterKeyword (takeBytes 80 left)).isSome
      ∨ parseLinkAfterKeyword (takeBytes (blockedOnMax * 4 + 16) left) = none
    ↔ Reachable left
  := by
  have hwide : parseLinkAfterKeyword (takeBytes (blockedOnMax * 4 + 16) left) = none
      ↔ ¬BeginsLink ((takeBytes (blockedOnMax * 4 + 16) left).dropWhile isLeading) := by
    rw [← isSome_readLink, Option.not_isSome_iff_eq_none]
    rfl
  rw [hwide, Reachable]
  constructor
  · rintro (hnarrow | hnot) hlink
    · rw [← isSome_narrow_iff (by decide) hlink]
      apply hnarrow
    · cases hnot hlink
  · intro h
    by_cases hlink : BeginsLink ((takeBytes (blockedOnMax * 4 + 16) left).dropWhile isLeading)
    · left
      rw [isSome_narrow_iff (by decide) hlink]
      apply h hlink
    · right
      apply hlink

theorem offset_mem_ends {read rest : Text} (hbody : body = read ++ rest)
    (hends : L.EndsIn blockedOnKeywords read rest) :
  L.offset read rest ∈ L.ends blockedKeywords body
  := by
  obtain ⟨⟨kw, hkw, hshown⟩, hnext⟩ := hends
  rw [Lowercasing.mem_ends_iff]
  exact ⟨read, rest, hbody, ⟨⟨kw, blockedOnKeywords_subset hkw, hshown⟩, hnext⟩, rfl⟩

/-- After a keyword where the body can be cut, what follows is taken up exactly when a link of the
wide window is known from the narrow one. -/
theorem takesUp_iff {edges : List IssueLink} {read rest shown left : Text}
    (hedges : extractBlockedBy L body = some edges) (hbody : body = read ++ rest)
    (hends : L.EndsIn blockedOnKeywords read rest)
    (hsplit : splitAtByte (L.offset read rest) body = some (shown, left)) :
  L.TakesUp edges body read rest ↔ Reachable left
  := by
  have htoken (window : ℕ) :
      lookAhead body window (L.offset read rest) = some (takeBytes window left) := by
    rw [lookAhead_eq, hsplit, Option.map_some]
  rw [Lowercasing.TakesUp, ← reachable_iff]
  simp only [htoken, Option.some.injEq, exists_eq_left']
  refine or_congr_left ?_
  rw [Option.isSome_iff_exists]
  constructor
  · rintro ⟨link, -, hlink⟩
    exact ⟨link, hlink⟩
  · rintro ⟨link, hlink⟩
    refine ⟨link, ?_, hlink⟩
    rw [mem_linksAfter apart_blockedKeywords hedges]
    exact ⟨_, offset_mem_ends hbody hends, _, htoken 80, hlink⟩

/-- No blocker is lost exactly when each link of a wide window is known from the narrow one. -/
theorem blockers_taken_up_iff (L : Lowercasing) (body : Text) :
  (∀ edges, extractBlockedBy L body = some edges → ∀ read rest, body = read ++ rest →
      L.EndsIn blockedOnKeywords read rest → L.TakesUp edges body read rest)
    ↔ (∀ read rest, body = read ++ rest → L.EndsIn blockedKeywords read rest →
          L.KeepsPlace read rest) →
        ∀ read rest, body = read ++ rest → L.EndsIn blockedOnKeywords read rest →
          ∀ shown left, splitAtByte (L.offset read rest) body = some (shown, left) →
            Reachable left
  := by
  rw [← forall_ends_iff, ← isSome_linksAfter apart_blockedKeywords]
  constructor
  · intro h keeps read rest hbody hends shown left hsplit
    obtain ⟨edges, hedges⟩ := Option.isSome_iff_exists.mp keeps
    rw [← takesUp_iff hedges hbody hends hsplit]
    apply h edges hedges read rest hbody hends
  · intro h edges hedges read rest hbody hends
    have keeps : (linksAfter blockedKeywords L body).isSome := by
      rw [← extractBlockedBy, hedges]
      rfl
    have hcut : (splitAtByte (L.offset read rest) body).isSome := by
      apply (isSome_linksAfter apart_blockedKeywords).mp keeps
      apply offset_mem_ends hbody hends
    obtain ⟨⟨shown, left⟩, hsplit⟩ := Option.isSome_iff_exists.mp hcut
    rw [takesUp_iff hedges hbody hends hsplit]
    apply h keeps read rest hbody hends shown left hsplit

/-- As many spaces as the narrow window has room for, and a number. -/
def farNumber : Text := List.replicate 80 ' ' ++ "#5".toList

theorem far_blocker_lost :
  ¬∀ edges, extractBlockedBy dotted ("blocked on".toList ++ farNumber) = some edges →
    ∀ read rest, "blocked on".toList ++ farNumber = read ++ rest →
      dotted.EndsIn blockedOnKeywords read rest →
        dotted.TakesUp edges ("blocked on".toList ++ farNumber) read rest
  := by
  intro h
  have hedges : extractBlockedBy dotted ("blocked on".toList ++ farNumber) = some [] := by
    decide +kernel
  have hends : dotted.EndsIn blockedOnKeywords "blocked on".toList farNumber :=
    ⟨⟨"blocked on".toList, by decide, by decide⟩, rfl⟩
  have hsplit : splitAtByte (dotted.offset "blocked on".toList farNumber)
      ("blocked on".toList ++ farNumber) = some ("blocked on".toList, farNumber) := rfl
  have htakes := h [] hedges _ _ rfl hends
  rw [takesUp_iff hedges rfl hends hsplit, ← reachable_iff] at htakes
  revert htakes
  decide

end Lazybox.IssueLinks
