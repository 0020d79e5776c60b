import Lazybox.Core.IssueLinkEnds
import Lazybox.Core.Decimal

/-!
# What a link looks like

A text begins with a link to GitHub when it has a number after a `#`, which the slug of a
repository may precede, and with the key of a ticket when it has digits after the name of a team
and a dash.  A link to GitHub goes first.
-/

namespace Lazybox.IssueLinks

open WorkingClaim (Text stripPrefix)

variable {s t head head' team team' rest rest' digits : Text} {n : ℕ} {link : IssueLink}

/-! ### Numbers -/

/-- The digits a text begins with. -/
def digitsOf (s : Text) : Text := s.takeWhile Char.isDigit

theorem isDigit_of_mem_digitsOf {c : Char} (h : c ∈ digitsOf s) :
  c.isDigit
  := List.mem_takeWhile_imp h

/-- What follows goes on with the digits of a text only when they are all of it. -/
theorem digitsOf_append (s t : Text) :
  digitsOf (s ++ t) = if digitsOf s = s then s ++ digitsOf t else digitsOf s
  := by
  rw [digitsOf, digitsOf, digitsOf, List.takeWhile_append]
  by_cases h : s.takeWhile Char.isDigit = s
  · rw [if_pos h, if_pos (by rw [h])]
  · rw [if_neg h, if_neg]
    intro hlen
    apply h
    apply (List.takeWhile_prefix Char.isDigit).eq_of_length hlen

theorem takeDigits_eq_some :
  takeDigits s = some n
    ↔ digitsOf s ≠ [] ∧ digitsValue (digitsOf s) = n ∧ n < 18446744073709551616
  := by
  have hdigits : ∀ c ∈ digitsOf s, c.isDigit := fun c => isDigit_of_mem_digitsOf
  rw [takeDigits, ← digitsOf]
  constructor
  · intro h
    split at h
    · cases h
    · next hne =>
        rw [parseU64_of_isDigit hne hdigits] at h
        split at h
        · next hfits =>
            obtain rfl := Option.some.inj h
            exact ⟨hne, rfl, hfits⟩
        · cases h
  · rintro ⟨hne, rfl, hfits⟩
    rw [if_neg hne, parseU64_of_isDigit hne hdigits, if_pos hfits]

/-- A number that can be read begins a text. -/
def BeginsNumber (s : Text) : Prop := digitsOf s ≠ [] ∧ digitsValue (digitsOf s) < 18446744073709551616

theorem isSome_takeDigits :
  (takeDigits s).isSome ↔ BeginsNumber s
  := by
  rw [Option.isSome_iff_exists]
  constructor
  · rintro ⟨n, hn⟩
    obtain ⟨hne, rfl, hfits⟩ := takeDigits_eq_some.mp hn
    exact ⟨hne, hfits⟩
  · rintro ⟨hne, hfits⟩
    exact ⟨_, takeDigits_eq_some.mpr ⟨hne, rfl, hfits⟩⟩

theorem takeDigits_eq_none :
  takeDigits s = none ↔ ¬BeginsNumber s
  := by
  rw [← isSome_takeDigits, Bool.not_eq_true, Option.isSome_eq_false_iff, Option.isNone_iff_eq_none]

/-! ### The parts of a link -/

/-- The slug of a repository. -/
def IsRepo (repo : Text) : Prop := repo.all isRepoChar ∧ '/' ∈ repo

/-- The name of a team. -/
def IsTeam (team : Text) : Prop := team.all Char.isAlpha ∧ 2 ≤ team.length ∧ team.length ≤ 10

/-- A `#` stands after nothing, or after the slug of a repository. -/
structure Hash (s head rest : Text) : Prop where
  eq : s = head ++ '#' :: rest
  head : head = [] ∨ IsRepo head

/-- A dash stands after the name of a team. -/
structure Ticket (s team rest : Text) : Prop where
  eq : s = team ++ '-' :: rest
  team : IsTeam team

def repoOf (head : Text) : Option Text := if head = [] then none else some head

theorem IsRepo.ne_nil (h : IsRepo head) :
  head ≠ []
  := List.ne_nil_of_mem h.2

theorem hash_notMem (h : head = [] ∨ IsRepo head) :
  '#' ∉ head
  := by
  obtain rfl | h := h
  · apply List.not_mem_nil
  · intro hmem
    cases List.all_eq_true.mp h.1 '#' hmem

theorem Hash.unique (h : Hash s head rest) (h' : Hash s head' rest') :
  head = head' ∧ rest = rest'
  := by
  have hsplit := WorkingClaim.splitOnce_append (hash_notMem h.head) rest
  rw [← h.eq, h'.eq, WorkingClaim.splitOnce_append (hash_notMem h'.head)] at hsplit
  simpa [eq_comm] using hsplit

theorem takeWhile_team (h : IsTeam team) (rest : Text) :
  (team ++ '-' :: rest).takeWhile Char.isAlpha = team
  := by
  rw [List.takeWhile_append_of_pos (List.all_eq_true.mp h.1), List.takeWhile_cons_of_neg,
    List.append_nil]
  decide

theorem Ticket.unique (h : Ticket s team rest) (h' : Ticket s team' rest') :
  team = team' ∧ rest = rest'
  := by
  have hteam : team = team' := by
    rw [← takeWhile_team h.team rest, ← h.eq, h'.eq, takeWhile_team h'.team]
  subst hteam
  have heq := h.eq.symm.trans h'.eq
  rw [List.append_cancel_left_eq, List.cons.injEq] at heq
  exact ⟨rfl, heq.2⟩

/-! ### Reading -/

theorem sameRepo_eq_some :
  sameRepo s = some link ↔ ∃ rest n, s = '#' :: rest ∧ takeDigits rest = some n ∧ .github none n = link
  := by
  simp [sameRepo, Option.bind_eq_some_iff, WorkingClaim.stripPrefix_eq_some]

theorem splitRepoHash_eq_some :
  splitRepoHash s = some (head, rest) ↔ s = head ++ '#' :: rest ∧ IsRepo head
  := by
  rw [splitRepoHash]
  constructor
  · intro h
    obtain ⟨⟨repo, after⟩, hsplit, h⟩ := Option.bind_eq_some_iff.mp h
    dsimp only at h
    split at h
    · next hrepo =>
        cases h
        exact ⟨(WorkingClaim.splitOnce_eq_some.mp hsplit).1, hrepo⟩
    · cases h
  · rintro ⟨rfl, hrepo⟩
    rw [WorkingClaim.splitOnce_append (hash_notMem (.inr hrepo))]
    exact if_pos hrepo

theorem crossRepo_eq_some :
  crossRepo s = some link
    ↔ ∃ repo rest n, (s = repo ++ '#' :: rest ∧ IsRepo repo) ∧ takeDigits rest = some n
      ∧ .github (some repo) n = link
  := by
  simp [crossRepo, Option.bind_eq_some_iff, splitRepoHash_eq_some]

theorem takeLinearKey_of_ticket (h : Ticket s team rest) :
  takeLinearKey s
    = if digitsOf rest = [] then none
      else some (team.map Char.toUpper ++ '-' :: digitsOf rest)
  := by
  have hstrip : stripPrefix ['-'] ('-' :: rest) = some rest :=
    WorkingClaim.stripPrefix_append ['-'] rest
  rw [takeLinearKey, h.eq, takeWhile_team h.team, if_pos h.team.2, List.drop_left, hstrip]
  rfl

theorem takeLinearKey_eq_some {key : Text} :
  takeLinearKey s = some key
    ↔ ∃ team rest, Ticket s team rest ∧ digitsOf rest ≠ []
      ∧ team.map Char.toUpper ++ '-' :: digitsOf rest = key
  := by
  constructor
  · intro h
    have hticket : ∃ rest, Ticket s (s.takeWhile Char.isAlpha) rest := by
      rw [takeLinearKey] at h
      split at h
      · next hlength =>
          obtain ⟨rest, hstrip, -⟩ := Option.bind_eq_some_iff.mp h
          have hdrop := WorkingClaim.stripPrefix_eq_some.mp hstrip
          refine ⟨rest, ?_, List.all_takeWhile, hlength⟩
          calc s = s.takeWhile Char.isAlpha ++ s.drop (s.takeWhile Char.isAlpha).length := by
                rw [List.prefix_iff_eq_append.mp (List.takeWhile_prefix Char.isAlpha)]
            _ = s.takeWhile Char.isAlpha ++ '-' :: rest := by
                rw [hdrop, List.singleton_append]
      · cases h
    obtain ⟨rest, hticket⟩ := hticket
    rw [takeLinearKey_of_ticket hticket] at h
    split at h
    · cases h
    · next hne => exact ⟨_, rest, hticket, hne, Option.some.inj h⟩
  · rintro ⟨team, rest, hticket, hne, rfl⟩
    rw [takeLinearKey_of_ticket hticket, if_neg hne]

/-- A number after a `#` is read whatever else could be. -/
theorem readLink_of_hash (h : Hash s head rest) (hn : takeDigits rest = some n) :
  readLink s = some (.github (repoOf head) n)
  := by
  obtain ⟨rfl, rfl | hrepo⟩ := h
  · have hsame := sameRepo_eq_some.mpr ⟨rest, n, rfl, hn, rfl⟩
    rw [readLink, List.nil_append, hsame, Option.some_or, repoOf, if_pos rfl]
  · have hsame : sameRepo (head ++ '#' :: rest) = none := by
      rw [Option.eq_none_iff_forall_ne_some]
      intro link hlink
      obtain ⟨rest', -, heq, -⟩ := sameRepo_eq_some.mp hlink
      have hhash : Hash (head ++ '#' :: rest) head rest := ⟨rfl, .inr hrepo⟩
      apply hrepo.ne_nil (hhash.unique ⟨heq, .inl rfl⟩).1
    have hcross := crossRepo_eq_some.mpr ⟨head, rest, n, ⟨rfl, hrepo⟩, hn, rfl⟩
    rw [readLink, hsame, Option.none_or, hcross, Option.some_or, repoOf, if_neg hrepo.ne_nil]

/-- Without a number after a `#` only the key of a ticket is left to be read. -/
theorem readLink_of_not_hash (h : ∀ head rest, Hash s head rest → ¬BeginsNumber rest) :
  readLink s = (takeLinearKey s).map .linear
  := by
  have hsame : sameRepo s = none := by
    rw [Option.eq_none_iff_forall_ne_some]
    intro link hlink
    obtain ⟨rest, n, heq, hn, -⟩ := sameRepo_eq_some.mp hlink
    apply h [] rest ⟨heq, .inl rfl⟩
    rw [← isSome_takeDigits, hn]
    rfl
  have hcross : crossRepo s = none := by
    rw [Option.eq_none_iff_forall_ne_some]
    intro link hlink
    obtain ⟨repo, rest, n, ⟨heq, hrepo⟩, hn, -⟩ := crossRepo_eq_some.mp hlink
    apply h repo rest ⟨heq, .inr hrepo⟩
    rw [← isSome_takeDigits, hn]
    rfl
  rw [readLink, hsame, hcross, Option.none_or, Option.none_or]

/-- A text begins with a link. -/
inductive BeginsLink (s : Text) : Prop where
  | hash {head rest : Text} (hash : Hash s head rest) (fits : BeginsNumber rest)
  | ticket {team rest : Text} (ticket : Ticket s team rest) (digit : digitsOf rest ≠ [])

theorem isSome_readLink :
  (readLink s).isSome ↔ BeginsLink s
  := by
  by_cases hhash : ∃ head rest, Hash s head rest ∧ BeginsNumber rest
  · obtain ⟨head, rest, hash, fits⟩ := hhash
    obtain ⟨n, hn⟩ := Option.isSome_iff_exists.mp (isSome_takeDigits.mpr fits)
    rw [readLink_of_hash hash hn]
    exact iff_of_true rfl (.hash hash fits)
  · have hnone : ∀ head rest, Hash s head rest → ¬BeginsNumber rest := by
      intro head rest hash fits
      apply hhash ⟨head, rest, hash, fits⟩
    rw [readLink_of_not_hash hnone, Option.isSome_map, Option.isSome_iff_exists]
    constructor
    · rintro ⟨key, hkey⟩
      obtain ⟨team, rest, ticket, digit, -⟩ := takeLinearKey_eq_some.mp hkey
      apply BeginsLink.ticket ticket digit
    · intro hbegins
      cases hbegins with
      | hash hash fits => cases hnone _ _ hash fits
      | ticket ticket digit =>
        exact ⟨_, takeLinearKey_eq_some.mpr ⟨_, _, ticket, digit, rfl⟩⟩

end Lazybox.IssueLinks
