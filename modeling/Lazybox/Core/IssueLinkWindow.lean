import Lazybox.Core.IssueLinkGrammar
import Lazybox.Core.IssueLinkWords

/-!
# Links at the edge of the window

Only so many bytes are read after a keyword.  A link is read from them that is not the one in the
whole body when their end cuts a number short, or the slug of a repository that begins like the key
of a ticket.
-/

namespace Lazybox.IssueLinks

open ByteOffset
open WorkingClaim (Text)

variable {w v s head team rest : Text} {n : ℕ}

/-- A text, with a digit next, ends within a number. -/
def EndsInNumber (digits v : Text) : Prop := digitsOf digits = digits ∧ digits ≠ [] ∧ digitsOf v ≠ []

/-- The text `w` with the text `v` next breaks off within a link. -/
inductive CutsLink (w v : Text) : Prop where
  /-- Within the number of an issue, unless it is zero all along. -/
  | number {head digits : Text} (hash : Hash w head digits) (fits : BeginsNumber digits)
      (ends : EndsInNumber digits v) (more : ∃ c ∈ digits ++ digitsOf v, c ≠ '0')
  /-- Within the number of a ticket. -/
  | ticket {team digits : Text} (ticket : Ticket w team digits) (ends : EndsInNumber digits v)
  /-- Within the slug of a repository that begins like the key of a ticket, or right after it. -/
  | repo {team rest repo number : Text} (ticket : Ticket w team rest) (digit : digitsOf rest ≠ [])
      (hash : Hash (w ++ v) repo number) (fits : BeginsNumber number)
      (edge : w.length ≤ repo.length + 1)

theorem BeginsNumber.of_append (h : BeginsNumber (s ++ v)) (hs : s ≠ []) :
  BeginsNumber s
  := by
  obtain ⟨hne, hfits⟩ := h
  rw [digitsOf_append] at hne hfits
  split at hfits
  · next hall =>
      rw [BeginsNumber, hall]
      exact ⟨hs, (digitsValue_le_append s (digitsOf v)).trans_lt hfits⟩
  · next hall =>
      rw [if_neg hall] at hne
      exact ⟨hne, hfits⟩

theorem digitsOf_append_eq_iff (hne : digitsOf s ≠ []) (v : Text) :
  digitsOf (s ++ v) = digitsOf s ↔ ¬EndsInNumber s v
  := by
  rw [digitsOf_append]
  split
  · next hall =>
      rw [hall] at hne
      rw [hall, List.append_right_eq_self, EndsInNumber, hall]
      tauto
  · next hall =>
      rw [EndsInNumber]
      tauto

/-- No text begins both with a `#` that a number follows and with the key of a ticket up to its
end. -/
theorem Hash.not_all_digits {digits : Text} (h : Hash w head rest) (ticket : Ticket w team digits) :
  digitsOf digits ≠ digits
  := by
  intro hall
  have hmem : '#' ∈ team ++ '-' :: digits := by
    rw [← ticket.eq, h.eq]
    simp
  rw [List.mem_append, List.mem_cons] at hmem
  obtain hmem | hmem | hmem := hmem
  · cases List.all_eq_true.mp ticket.team.1 _ hmem
  · cases hmem
  · rw [← hall] at hmem
    cases isDigit_of_mem_digitsOf hmem

theorem Hash.append (h : Hash w head rest) (v : Text) :
  Hash (w ++ v) head (rest ++ v)
  := by
  refine ⟨?_, h.head⟩
  rw [h.eq, List.append_assoc, List.cons_append]

theorem Ticket.append (h : Ticket w team rest) (v : Text) :
  Ticket (w ++ v) team (rest ++ v)
  := by
  refine ⟨?_, h.team⟩
  rw [h.eq, List.append_assoc, List.cons_append]

/-- A text that reads as a number has another value, or none, once digits follow it. -/
theorem takeDigits_append_iff (hn : takeDigits s = some n) (v : Text) :
  takeDigits (s ++ v) = some n
    ↔ ¬(EndsInNumber s v ∧ ∃ c ∈ s ++ digitsOf v, c ≠ '0')
  := by
  obtain ⟨hne, rfl, hfits⟩ := takeDigits_eq_some.mp hn
  rw [takeDigits_eq_some, digitsOf_append]
  by_cases hall : digitsOf s = s
  · rw [if_pos hall]
    rw [hall] at hne hfits ⊢
    by_cases hv : digitsOf v = []
    · rw [hv, List.append_nil]
      constructor
      · rintro - ⟨⟨-, -, hmore⟩, -⟩
        apply hmore hv
      · intro
        exact ⟨hne, rfl, hfits⟩
    · have hdigits : ∀ c ∈ s, c.isDigit := by
        rw [← hall]
        intro c hc
        apply isDigit_of_mem_digitsOf hc
      have hsame : digitsValue (s ++ digitsOf v) = digitsValue s
          ↔ ∀ c ∈ s ++ digitsOf v, c = '0' :=
        digitsValue_append_eq_iff hdigits (fun c hc => isDigit_of_mem_digitsOf hc) hv
      rw [hsame]
      constructor
      · rintro ⟨-, hzero, -⟩ ⟨-, c, hc, hne⟩
        apply hne (hzero c hc)
      · intro h
        refine ⟨?_, ?_, hfits⟩
        · apply List.append_ne_nil_of_left_ne_nil hne
        · intro c hc
          by_contra hc'
          apply h ⟨⟨hall, hne, hv⟩, c, hc, hc'⟩
  · rw [if_neg hall]
    constructor
    · rintro - ⟨⟨hall', -⟩, -⟩
      apply hall hall'
    · intro
      exact ⟨hne, rfl, hfits⟩

section Cuts

/-- A text that begins with a `#` and a number is cut only within the number. -/
theorem cutsLink_of_hash (h : Hash w head rest) (fits : BeginsNumber rest) :
  CutsLink w v ↔ EndsInNumber rest v ∧ ∃ c ∈ rest ++ digitsOf v, c ≠ '0'
  := by
  constructor
  · intro hcuts
    cases hcuts with
    | number hash _ ends more =>
      obtain ⟨-, rfl⟩ := hash.unique h
      exact ⟨ends, more⟩
    | ticket ticket ends => cases h.not_all_digits ticket ends.1
    | repo _ _ hash _ edge =>
      -- the number would have to stand before the edge and after it
      obtain ⟨rfl, -⟩ := hash.unique (h.append v)
      have hlen := congrArg List.length h.eq
      rw [List.length_append, List.length_cons] at hlen
      have hrest : rest = [] := by
        rw [← List.length_eq_zero_iff]
        omega
      rw [hrest] at fits
      cases fits.1 rfl
  · rintro ⟨ends, more⟩
    apply CutsLink.number h fits ends more

/-- The rest of a text keeps the number after a `#`, or has another one. -/
theorem reads_hash_iff (h : Hash w head rest) (fits : BeginsNumber rest) :
  (readLink w = none ∨ readLink w = readLink (w ++ v)) ↔ ¬CutsLink w v
  := by
  obtain ⟨n, hn⟩ := Option.isSome_iff_exists.mp (isSome_takeDigits.mpr fits)
  rw [cutsLink_of_hash h fits, ← takeDigits_append_iff hn, readLink_of_hash h hn,
    or_iff_right (Option.some_ne_none _)]
  constructor
  · intro hread
    cases hmore : takeDigits (rest ++ v) with
    | none =>
      have hnot : ∀ head' rest', Hash (w ++ v) head' rest' → ¬BeginsNumber rest' := by
        intro head' rest' h'
        rw [((h.append v).unique h').2, takeDigits_eq_none] at hmore
        apply hmore
      rw [readLink_of_not_hash hnot] at hread
      obtain ⟨key, -, hkey⟩ := Option.map_eq_some_iff.mp hread.symm
      cases hkey
    | some m =>
      rw [readLink_of_hash (h.append v) hmore] at hread
      cases hread
      rfl
  · intro hmore
    rw [readLink_of_hash (h.append v) hmore]

/-- A number that begins at or after the edge of a text, when none does in the text. -/
theorem edge_of_hash {repo number : Text}
    (hnone : ∀ head rest, Hash w head rest → ¬BeginsNumber rest)
    (hash : Hash (w ++ v) repo number) (fits : BeginsNumber number) :
  w.length ≤ repo.length + 1
  := by
  have heq : w ++ v = (repo ++ ['#']) ++ number := by
    rw [hash.eq, List.append_assoc, List.singleton_append]
  obtain ⟨passed, hrepo, -⟩ | ⟨more, rfl, rfl⟩ := List.append_eq_append_iff.mp heq
  · have hlen := congrArg List.length hrepo
    rw [List.length_append, List.length_append, List.length_singleton] at hlen
    omega
  · cases more with
    | nil => rw [List.append_nil, List.length_append, List.length_singleton]
    | cons c more =>
      have hin : Hash (repo ++ ['#'] ++ c :: more) repo (c :: more) := by
        refine ⟨?_, hash.head⟩
        rw [List.append_assoc, List.singleton_append]
      cases hnone _ _ hin (fits.of_append (List.cons_ne_nil c more))

theorem readLink_of_ticket (ticket : Ticket w team rest) (digit : digitsOf rest ≠ [])
    (hnone : ∀ head rest, Hash w head rest → ¬BeginsNumber rest) :
  readLink w = some (.linear (team.map Char.toUpper ++ '-' :: digitsOf rest))
  := by
  rw [readLink_of_not_hash hnone, takeLinearKey_of_ticket ticket, if_neg digit, Option.map_some]

/-- The rest of a text keeps the key of a ticket, or has a longer one, or a number after a `#`. -/
theorem reads_ticket_iff (ticket : Ticket w team rest) (digit : digitsOf rest ≠ [])
    (hnone : ∀ head rest, Hash w head rest → ¬BeginsNumber rest) :
  (readLink w = none ∨ readLink w = readLink (w ++ v)) ↔ ¬CutsLink w v
  := by
  rw [readLink_of_ticket ticket digit hnone, or_iff_right (Option.some_ne_none _)]
  by_cases hhash : ∃ repo number, Hash (w ++ v) repo number ∧ BeginsNumber number
  · obtain ⟨repo, number, hash, fits⟩ := hhash
    obtain ⟨n, hn⟩ := Option.isSome_iff_exists.mp (isSome_takeDigits.mpr fits)
    have hcuts : CutsLink w v := .repo ticket digit hash fits (edge_of_hash hnone hash fits)
    rw [readLink_of_hash hash hn]
    constructor
    · intro heq
      cases heq
    · intro hnot
      cases hnot hcuts
  · have hnone' : ∀ repo number, Hash (w ++ v) repo number → ¬BeginsNumber number := by
      intro repo number hash fits
      apply hhash ⟨repo, number, hash, fits⟩
    have hcuts : CutsLink w v ↔ EndsInNumber rest v := by
      constructor
      · intro hcuts
        cases hcuts with
        | number hash fits => cases hnone _ _ hash fits
        | ticket ticket' ends =>
          obtain ⟨-, rfl⟩ := ticket.unique ticket'
          apply ends
        | repo _ _ hash fits => cases hnone' _ _ hash fits
      · apply CutsLink.ticket ticket
    have digit' : digitsOf (rest ++ v) ≠ [] := by
      rw [digitsOf_append]
      split
      · next hall =>
          rw [hall] at digit
          apply List.append_ne_nil_of_left_ne_nil digit
      · apply digit
    rw [hcuts, ← digitsOf_append_eq_iff digit, readLink_of_ticket (ticket.append v) digit' hnone']
    simp only [Option.some.injEq, IssueLink.linear.injEq, List.append_cancel_left_eq,
      List.cons.injEq, true_and]
    apply eq_comm

/-- What is read of a text is in the whole text, unless the text breaks off within a link. -/
theorem reads_same_iff (w v : Text) :
  (readLink w = none ∨ readLink w = readLink (w ++ v)) ↔ ¬CutsLink w v
  := by
  by_cases hhash : ∃ head rest, Hash w head rest ∧ BeginsNumber rest
  · obtain ⟨head, rest, h, fits⟩ := hhash
    apply reads_hash_iff h fits
  · have hnone : ∀ head rest, Hash w head rest → ¬BeginsNumber rest := by
      intro head rest h fits
      apply hhash ⟨head, rest, h, fits⟩
    by_cases hticket : ∃ team rest, Ticket w team rest ∧ digitsOf rest ≠ []
    · obtain ⟨team, rest, ticket, digit⟩ := hticket
      apply reads_ticket_iff ticket digit hnone
    · have hbegins : ¬BeginsLink w := by
        intro hbegins
        cases hbegins with
        | hash hash fits => apply hnone _ _ hash fits
        | ticket ticket digit => apply hticket ⟨_, _, ticket, digit⟩
      have hcuts : ¬CutsLink w v := by
        intro hcuts
        apply hbegins
        cases hcuts with
        | number hash fits => apply BeginsLink.hash hash fits
        | ticket ticket ends =>
          apply BeginsLink.ticket ticket
          rw [ends.1]
          apply ends.2.1
        | repo ticket digit => apply BeginsLink.ticket ticket digit
      rw [← isSome_readLink, Option.not_isSome_iff_eq_none] at hbegins
      rw [iff_true_right hcuts]
      left
      apply hbegins

end Cuts

/-! ### Windows of a body -/

/-- After each keyword the window has no link, or the one that the whole rest of the body has. -/
def Lowercasing.KeepsLinks (L : Lowercasing) (kws : List Text) (window : ℕ) (body : Text) : Prop :=
  ∀ read rest, body = read ++ rest → L.EndsIn kws read rest →
    ∀ shown left token, splitAtByte (L.offset read rest) body = some (shown, left) →
      lookAhead body window (L.offset read rest) = some token →
        parseLinkAfterKeyword token = none
          ∨ parseLinkAfterKeyword token = parseLinkAfterKeyword left

/-- The window breaks off within the link that begins a text. -/
def CutsAfter (window : ℕ) (left : Text) : Prop :=
  CutsLink ((takeBytes window left).dropWhile isLeading)
    (left.drop (takeBytes window left).length)

theorem parse_takeBytes_iff (window : ℕ) (left : Text) :
  (parseLinkAfterKeyword (takeBytes window left) = none
      ∨ parseLinkAfterKeyword (takeBytes window left) = parseLinkAfterKeyword left)
    ↔ ¬CutsAfter window left
  := by
  rw [CutsAfter, ← reads_same_iff]
  have hleft : takeBytes window left ++ left.drop (takeBytes window left).length = left :=
    List.prefix_iff_eq_append.mp (takeBytes_isPrefix window left)
  cases htrim : (takeBytes window left).dropWhile isLeading with
  | nil =>
    have hnone : readLink [] = none := rfl
    rw [parseLinkAfterKeyword, htrim, hnone]
    simp only [true_or]
  | cons c w =>
    have hall : left.dropWhile isLeading
        = c :: w ++ left.drop (takeBytes window left).length := by
      conv_lhs => rw [← hleft]
      rw [List.dropWhile_append, htrim]
      rfl
    rw [parseLinkAfterKeyword, parseLinkAfterKeyword, htrim, hall]

/-- The window changes no link exactly when it breaks off within none. -/
theorem window_keeps_links_iff
    (L : Lowercasing) (kws : List Text) (window : ℕ) (body : Text) :
  L.KeepsLinks kws window body
    ↔ ∀ read rest, body = read ++ rest → L.EndsIn kws read rest →
        ∀ shown left, splitAtByte (L.offset read rest) body = some (shown, left) →
          ¬CutsAfter window left
  := by
  constructor
  · intro h read rest hbody hends shown left hsplit
    have htoken : lookAhead body window (L.offset read rest) = some (takeBytes window left) := by
      rw [lookAhead_eq, hsplit, Option.map_some]
    rw [← parse_takeBytes_iff]
    apply h read rest hbody hends shown left _ hsplit htoken
  · intro h read rest hbody hends shown left token hsplit htoken
    rw [lookAhead_eq, hsplit, Option.map_some, Option.some.injEq] at htoken
    rw [← htoken, parse_takeBytes_iff]
    apply h read rest hbody hends shown left hsplit

/-- As many spaces as leave room for two more bytes in the window, and a number of two digits. -/
def lateNumber : Text := List.replicate 78 ' ' ++ "#12".toList

/-- Only the first digit is read. -/
theorem window_cuts_number :
  ¬dotted.KeepsLinks keywords 80 ("fixes".toList ++ lateNumber)
  := by
  intro h
  have hends : dotted.EndsIn keywords "fixes".toList lateNumber :=
    ⟨⟨"fixes".toList, by decide, by decide⟩, rfl⟩
  have hsplit : splitAtByte (dotted.offset "fixes".toList lateNumber)
      ("fixes".toList ++ lateNumber) = some ("fixes".toList, lateNumber) := rfl
  have htoken : lookAhead ("fixes".toList ++ lateNumber) 80
      (dotted.offset "fixes".toList lateNumber) = some (takeBytes 80 lateNumber) := by
    rw [lookAhead_eq, hsplit, Option.map_some]
  have hread := h _ _ rfl hends _ _ _ hsplit htoken
  revert hread
  decide

end Lazybox.IssueLinks
