import Mathlib.Data.List.Basic

/-!
# Writes that are claimed first

A latch remembers what a register that is written from afar shows.  A writer sets the latch to what
it wants before its write is on the way, and remembers what the latch held: this is its claim.  The
latch is put back when the write fails.  Several claims may be in flight, and their writes are
under way at the same time.

Every claim found, if anything, what was claimed before it (`Chain`).  As long as the writes reach
the register in the order of their claims, and only the newest claim is undone, the latch holds what
the register shows once nothing is in flight (`View.Consistent`).
-/

universe u

namespace ClaimedWrites

variable {α : Type u}

/-- How far a write has come. -/
inductive Stage where
  | issued
  /-- Some of it reached the register. -/
  | partly
  | landed
deriving DecidableEq, Repr

structure Claim (α : Type u) where
  want : α
  /-- What the latch held. -/
  previous : Option α
  stage : Stage
deriving DecidableEq, Repr

/-! ### Chains of claims -/

/-- Each claim found, if anything, what was claimed before it, and the latch holds, if anything,
what was claimed last. -/
def Chain (latch : Option α) : (α → Prop) → List (Claim α) → Prop
  | found, [] => ∀ a ∈ latch, found a
  | found, c :: cs => (∀ a ∈ c.previous, found a) ∧ Chain latch (· = c.want) cs

variable {latch : Option α} {found found' : α → Prop} {c : Claim α} {cs : List (Claim α)}

theorem Chain.mono (h : Chain latch found cs) (implies : ∀ a, found a → found' a) :
  Chain latch found' cs
  := by
  cases cs with
  | nil => exact fun a ha => implies a (h a ha)
  | cons c cs => exact ⟨fun a ha => implies a (h.1 a ha), h.2⟩

theorem Chain.forget (h : Chain latch found cs) :
  Chain none found cs
  := by
  induction cs generalizing found with
  | nil => simp [Chain]
  | cons c cs ih => exact ⟨h.1, ih h.2⟩

/-- A claim finds what was claimed last. -/
theorem chain_concat :
  Chain latch found (cs ++ [c]) ↔ Chain c.previous found cs ∧ ∀ a ∈ latch, a = c.want
  := by
  induction cs generalizing found with
  | nil => rfl
  | cons d ds ih => rw [List.cons_append, Chain, Chain, ih, and_assoc]

/-! ### The view of a register -/

/-- What there is about one register. -/
structure View (α : Type u) where
  latch : Option α
  /-- What the register shows. -/
  shows : α → Prop
  /-- The last write that was answered failed. -/
  failed : Prop
  /-- The claims in flight, the oldest first. -/
  claims : List (Claim α)

namespace View

/-- The claims whose writes are still to land. -/
def waiting (claims : List (Claim α)) : List (Claim α) := claims.filter fun c => c.stage ≠ .landed

/-- What the register shows is what was written last. -/
def Settled (v : View α) : Prop :=
  (∀ c ∈ v.claims, c.stage ≠ .partly) ∧ (v.failed → ∃ c ∈ v.claims, c.stage = .landed)

/-- The writes reach the register in the order of their claims. -/
def InOrder (claims : List (Claim α)) : Prop :=
  claims.Pairwise fun older newer => newer.stage = .issued ∨ older.stage = .landed

structure Consistent (v : View α) : Prop where
  inOrder : InOrder v.claims
  chain : Chain v.latch (fun a => v.Settled → v.shows a) (waiting v.claims)

end View

open View

variable {v : View α} {shows : α → Prop} {failed : Prop} {before after : List (Claim α)}

/-- Once nothing is in flight, the latch holds what the register shows. -/
theorem View.Consistent.latch_shows (h : v.Consistent) (idle : v.claims = []) (ok : ¬v.failed) :
  ∀ a ∈ v.latch, v.shows a
  := by
  intro a ha
  have hchain := h.chain
  rw [idle] at hchain
  apply hchain a ha
  constructor
  · simp [idle]
  · exact fun hfailed => absurd hfailed ok

/-- Nothing is in flight, and either nothing is remembered or the last write failed. -/
theorem consistent_nil (h : failed ∨ latch = none) :
  Consistent ⟨latch, shows, failed, []⟩
  := by
  constructor
  · apply List.Pairwise.nil
  · rintro a ha ⟨-, hlanded⟩
    rcases h with hfailed | rfl
    · obtain ⟨c, hc, -⟩ := hlanded hfailed
      cases hc
    · cases ha

theorem View.Consistent.forget (h : v.Consistent) :
  Consistent { v with latch := none }
  := by
  constructor
  · apply h.inOrder
  · apply h.chain.forget

theorem View.Consistent.claim (h : v.Consistent) (want : α) :
  Consistent { v with latch := some want, claims := v.claims ++ [⟨want, v.latch, .issued⟩] }
  := by
  constructor
  · rw [InOrder, List.pairwise_append]
    refine ⟨h.inOrder, List.pairwise_singleton .., ?_⟩
    intro older _ newer hnewer
    left
    rw [List.mem_singleton.mp hnewer]
  · have hwaiting : waiting (v.claims ++ [⟨want, v.latch, .issued⟩])
        = waiting v.claims ++ [⟨want, v.latch, .issued⟩] := by
      simp [waiting, List.filter_append]
    rw [hwaiting, chain_concat]
    constructor
    · apply h.chain.mono
      rintro a ha ⟨hpartly, hfailed⟩
      apply ha
      constructor
      · exact fun c hc => hpartly c (List.mem_append_left _ hc)
      · intro hf
        obtain ⟨c, hc, hlanded⟩ := hfailed hf
        rcases List.mem_append.mp hc with hc | hc
        · exact ⟨c, hc, hlanded⟩
        · rw [List.mem_singleton.mp hc] at hlanded
          cases hlanded
    · rintro a ⟨⟩
      rfl

section Write

/-- The older claims have landed. -/
theorem waiting_middle (older : ∀ o ∈ before, o.stage = .landed) :
  waiting (before ++ c :: after) = waiting (c :: after)
  := by
  rw [waiting, List.filter_append, List.filter_eq_nil_iff.mpr (by simpa using older)]
  rfl

theorem View.InOrder.change (h : InOrder (before ++ c :: after))
    (older : ∀ o ∈ before, o.stage = .landed) (waits : c.stage ≠ .landed) (stage : Stage) :
  InOrder (before ++ { c with stage } :: after)
  := by
  rw [InOrder, List.pairwise_append, List.pairwise_cons] at h ⊢
  obtain ⟨hbefore, ⟨hafter, hrest⟩, -⟩ := h
  refine ⟨hbefore, ⟨?_, hrest⟩, ?_⟩
  · intro newer hnewer
    left
    apply (hafter newer hnewer).resolve_right waits
  · intro o ho _ _
    right
    apply older o ho

variable (h : v.Consistent) (claims : v.claims = before ++ c :: after)
  (older : ∀ o ∈ before, o.stage = .landed) (waits : c.stage ≠ .landed)
include h claims older waits

theorem View.Consistent.reach (shows : α → Prop) :
  Consistent { v with shows, claims := before ++ { c with stage := .partly } :: after }
  := by
  have horder := h.inOrder
  have hchain := h.chain
  rw [claims] at horder hchain
  constructor
  · apply horder.change older waits
  · rw [waiting_middle older, waiting, List.filter_cons_of_pos (by simpa using waits)] at hchain
    rw [waiting_middle older, waiting, List.filter_cons_of_pos (by simp)]
    refine ⟨?_, hchain.2⟩
    rintro a - ⟨hpartly, -⟩
    exact absurd rfl (hpartly _ (List.mem_append_right _ List.mem_cons_self))

theorem View.Consistent.land (hshows : shows c.want) :
  Consistent { v with shows, claims := before ++ { c with stage := .landed } :: after }
  := by
  have horder := h.inOrder
  have hchain := h.chain
  rw [claims] at horder hchain
  constructor
  · apply horder.change older waits
  · rw [waiting_middle older, waiting, List.filter_cons_of_pos (by simpa using waits)] at hchain
    rw [waiting_middle older, waiting, List.filter_cons_of_neg (by simp)]
    apply hchain.2.mono
    rintro a rfl _
    apply hshows

end Write

section Answer

theorem View.InOrder.sublist
    {claims claims' : List (Claim α)} (h : InOrder claims) (sub : claims'.Sublist claims) :
  InOrder claims'
  := List.Pairwise.sublist sub h

theorem View.Consistent.synced
    (h : v.Consistent) (claims : v.claims = before ++ c :: after) (landed : c.stage = .landed) :
  Consistent { v with failed, claims := before ++ after }
  := by
  have hchain := h.chain
  have hsub : (before ++ after).Sublist (before ++ c :: after) :=
    (List.sublist_cons_self ..).append_left _
  have hwaiting : waiting (before ++ c :: after) = waiting (before ++ after) := by
    simp [waiting, List.filter_append, landed]
  rw [claims, hwaiting] at hchain
  constructor
  · apply InOrder.sublist _ hsub
    rw [← claims]
    apply h.inOrder
  · apply hchain.mono
    rintro a ha ⟨hpartly, -⟩
    apply ha
    rw [Settled, claims]
    constructor
    · intro d hd
      rcases List.mem_append.mp hd with hd | hd
      · exact hpartly d (List.mem_append_left _ hd)
      · rcases List.mem_cons.mp hd with rfl | hd
        · rw [landed]
          decide
        · exact hpartly d (List.mem_append_right _ hd)
    · exact fun _ => ⟨c, List.mem_append_right _ List.mem_cons_self, landed⟩

/-- The newest claim is undone before its write reached the register. -/
theorem View.Consistent.undo (h : v.Consistent) (claims : v.claims = before ++ [c])
    (issued : c.stage = .issued) (fails : v.failed → failed) :
  Consistent { v with latch := c.previous, failed, claims := before }
  := by
  have hchain := h.chain
  have hwaiting : waiting (before ++ [c]) = waiting before ++ [c] := by
    simp [waiting, List.filter_append, issued]
  rw [claims, hwaiting, chain_concat] at hchain
  constructor
  · apply InOrder.sublist _ (List.sublist_append_left before [c])
    rw [← claims]
    apply h.inOrder
  · apply hchain.1.mono
    rintro a ha ⟨hpartly, hfailed⟩
    apply ha
    rw [Settled, claims]
    constructor
    · intro d hd
      rcases List.mem_append.mp hd with hd | hd
      · exact hpartly d hd
      · rw [List.mem_singleton.mp hd, issued]
        decide
    · intro hf
      obtain ⟨d, hd, hlanded⟩ := hfailed (fails hf)
      exact ⟨d, List.mem_append_left _ hd, hlanded⟩

/-- What a failed write left reaches the register. -/
theorem View.Consistent.stray (h : v.Consistent) (hfailed : v.failed)
    (waits : ∀ c ∈ v.claims, c.stage ≠ .landed) (shows : α → Prop) :
  Consistent { v with shows }
  := by
  constructor
  · apply h.inOrder
  · apply h.chain.mono
    rintro a - ⟨-, hlanded⟩
    obtain ⟨c, hc, hstage⟩ := hlanded hfailed
    exact absurd hstage (waits c hc)

end Answer

end ClaimedWrites
