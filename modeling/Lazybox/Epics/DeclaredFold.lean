import Mathlib.Order.Bounds.Basic
import Lazybox.Epics.Resolve
import Lazybox.Store.Traits

/-!
# Folding declared blockers

When a workspace is folded into another, the blocker it declared moves along, and is merged with the
one the other had declared.  The rows of the blockers are read, and what is to become of them is
returned as mutations of the store.  A row may be unreadable, because the store fails, or because
its text does not decode.
-/

namespace Lazybox.Epics

open Store (Rows StoreMutation)

/-- How declared blockers are written as text. -/
structure DeclaredCodec where
  encode : DeclaredBlocker → Except String String
  decode : String → Except String DeclaredBlocker

/-- What is written is read back. -/
def DeclaredCodec.Restores (codec : DeclaredCodec) (blocker : DeclaredBlocker) : Prop :=
  ∃ json, codec.encode blocker = .ok json ∧ codec.decode json = .ok blocker

/-- A store, of which some reads fail. -/
structure DeclaredStore where
  rows : Rows
  fails : String → Option String

def DeclaredStore.getKv (store : DeclaredStore) (key : String) : Except String (Option String) :=
  match store.fails key with
  | some error => .error error
  | none => .ok (store.rows key)

def declaredStorageKey (key : WorkspaceKey) : String := "declared-blocker:" ++ key.asStr

/-! ### Merging -/

/-- The reasons in order, each of them once. -/
def pushReason (reasons : List String) (blocker : DeclaredBlocker) : List String :=
  if blocker.reason ∈ reasons then reasons else reasons ++ [blocker.reason]

/-- The oldest of the candidates, with the reasons of all. -/
def mergeDeclared (first : DeclaredBlocker) (rest : List DeclaredBlocker) (into : WorkspaceKey) :
    DeclaredBlocker :=
  let candidates := (first :: rest).insertionSort fun a b => a.since ≤ b.since
  let oldest := candidates.headD first
  { oldest with
    workspace := into
    reason := "; ".intercalate (candidates.foldl pushReason [])
    owner := if candidates.any fun b => b.owner = .operator then .operator else oldest.owner }

section Fold

variable (codec : DeclaredCodec) (store : DeclaredStore) (absorbed : List WorkspaceKey)
  (into : WorkspaceKey)

def loadDeclared (key : WorkspaceKey) : Except String (Option DeclaredBlocker) :=
  match store.getKv (declaredStorageKey key) with
  | .error error => .error error
  | .ok none => .ok none
  | .ok (some json) => (codec.decode json).map some

/-- The blocker of a workspace, where it has one and it can be read. -/
def declaredOf (key : WorkspaceKey) : Option DeclaredBlocker :=
  match loadDeclared codec store key with
  | .ok declared => declared
  | .error _ => none

/-- The blockers to absorb, and the workspaces that declared them. -/
def absorbable : List (WorkspaceKey × DeclaredBlocker) :=
  absorbed.filterMap fun key => (declaredOf codec store key).map (key, ·)

/-- The blockers that are merged. -/
def folded : List DeclaredBlocker :=
  (absorbable codec store absorbed).map Prod.snd ++ (declaredOf codec store into).toList

/-- The row to write, if there is anything to absorb. -/
def foldedRow : Option DeclaredBlocker :=
  match (absorbable codec store absorbed).map Prod.snd with
  | [] => none
  | first :: rest =>
      some (mergeDeclared first (rest ++ (declaredOf codec store into).toList) into)

def absorbDeclaredMutations : List StoreMutation :=
  match foldedRow codec store absorbed into with
  | none => []
  | some merged =>
      match codec.encode merged with
      | .ok json =>
          (absorbable codec store absorbed).map (fun entry =>
            .deleteKv (declaredStorageKey entry.1)) ++ [.setKv (declaredStorageKey into) json]
      | .error _ => []

/-! ### What a fold keeps -/

/-- There is a row, and it cannot be read or decoded. -/
def Unreadable : Prop :=
  (store.rows (declaredStorageKey into)).isSome ∧ ∃ e, loadDeclared codec store into = .error e

/-- A row that stands for some blockers. -/
structure MergedFrom (blockers : List DeclaredBlocker) (into : WorkspaceKey)
    (row : DeclaredBlocker) : Prop where
  workspace : row.workspace = into
  since : IsLeast {since | ∃ b ∈ blockers, b.since = since} row.since
  reasons : ∃ reasons : List String, reasons.Nodup
    ∧ (∀ reason, reason ∈ reasons ↔ ∃ b ∈ blockers, b.reason = reason)
    ∧ row.reason = "; ".intercalate reasons
  owner : row.owner = .operator ↔ ∃ b ∈ blockers, b.owner = .operator

/-- A fold merges what it absorbs into the row, removes what it absorbed and nothing else, and
leaves a row alone that it cannot read. -/
structure FoldKeeps (rows : Rows) : Prop where
  merged : absorbable codec store absorbed ≠ [] → ¬ Unreadable codec store into →
    ∃ json row, rows (declaredStorageKey into) = some json ∧ codec.decode json = .ok row
      ∧ MergedFrom (folded codec store absorbed into) into row
  removed : ∀ key, key ≠ declaredStorageKey into →
    rows key = if key ∈ (absorbable codec store absorbed).map (declaredStorageKey ·.1) then none
      else store.rows key
  kept : Unreadable codec store into →
    rows (declaredStorageKey into) = store.rows (declaredStorageKey into)

/-- The row to write is there already. -/
def Written (merged : DeclaredBlocker) : Prop :=
  ∃ json, codec.encode merged = .ok json ∧ store.rows (declaredStorageKey into) = some json

end Fold

/-! ### The merged row -/

theorem mem_foldl_pushReason {reasons : List String} {blockers : List DeclaredBlocker}
    {reason : String} :
  reason ∈ blockers.foldl pushReason reasons
    ↔ reason ∈ reasons ∨ ∃ b ∈ blockers, b.reason = reason
  := by
  induction blockers generalizing reasons with
  | nil => simp
  | cons b blockers ih =>
    rw [List.foldl_cons, ih, pushReason, List.exists_mem_cons_iff, ← or_assoc]
    apply or_congr_left
    split
    · next hb =>
        constructor
        · exact Or.inl
        · rintro (h | rfl)
          · exact h
          · exact hb
    · rw [List.mem_append, List.mem_singleton, eq_comm]

theorem nodup_foldl_pushReason {reasons : List String} (blockers : List DeclaredBlocker)
    (nodup : reasons.Nodup) :
  (blockers.foldl pushReason reasons).Nodup
  := by
  induction blockers generalizing reasons with
  | nil => exact nodup
  | cons b blockers ih =>
    rw [List.foldl_cons]
    apply ih
    rw [pushReason]
    split
    · exact nodup
    · next hb =>
        rw [← List.concat_eq_append]
        apply nodup.concat hb

theorem mergedFrom_mergeDeclared (first : DeclaredBlocker) (rest : List DeclaredBlocker)
    (into : WorkspaceKey) :
  MergedFrom (first :: rest) into (mergeDeclared first rest into)
  := by
  set candidates := (first :: rest).insertionSort fun a b => a.since ≤ b.since with hcandidates
  have hmem : ∀ b, b ∈ candidates ↔ b ∈ first :: rest := fun b => List.mem_insertionSort _
  have hsorted : candidates.Pairwise fun a b => a.since ≤ b.since :=
    List.pairwise_insertionSort _ _
  obtain ⟨oldest, others, holdest⟩ : ∃ oldest others, candidates = oldest :: others := by
    apply List.exists_cons_of_ne_nil
    apply List.ne_nil_of_mem ((hmem first).mpr List.mem_cons_self)
  have hmerged : mergeDeclared first rest into = { oldest with
      workspace := into
      reason := "; ".intercalate (candidates.foldl pushReason [])
      owner := if candidates.any fun b => b.owner = .operator then .operator
        else oldest.owner } := by
    rw [mergeDeclared, ← hcandidates, holdest]
    rfl
  rw [hmerged]
  constructor
  · rfl
  · constructor
    · exact ⟨oldest, (hmem oldest).mp (by rw [holdest]; exact List.mem_cons_self), rfl⟩
    · rintro since ⟨b, hb, rfl⟩
      rw [← hmem, holdest] at hb
      obtain rfl | hb := List.mem_cons.mp hb
      · exact le_rfl
      · rw [holdest] at hsorted
        apply List.rel_of_pairwise_cons hsorted hb
  · use candidates.foldl pushReason [], nodup_foldl_pushReason candidates List.nodup_nil
    constructor
    · intro reason
      rw [mem_foldl_pushReason]
      simp only [List.not_mem_nil, false_or, hmem]
    · rfl
  · have hany : (candidates.any fun b => b.owner = .operator) = true
        ↔ ∃ b ∈ first :: rest, b.owner = .operator := by
      simp only [List.any_eq_true, decide_eq_true_eq, hmem]
    rw [← hany]
    split
    · next h => exact iff_of_true rfl h
    · next h =>
        apply iff_of_false _ h
        intro howner
        apply h
        rw [holdest, List.any_cons, howner]
        rfl

/-! ### The mutations -/

theorem mutateAll_deletes (rows : Rows) (keys : List String) :
  rows.mutateAll (keys.map .deleteKv)
    = .ok fun key => if key ∈ keys then none else rows key
  := by
  induction keys generalizing rows with
  | nil => rfl
  | cons k keys ih =>
    have hstep : rows.mutateAll ((k :: keys).map .deleteKv)
        = (rows.delete k).mutateAll (keys.map .deleteKv) := rfl
    rw [hstep, ih]
    congr 1
    funext key
    by_cases hk : key = k
    · simp [Rows.delete, hk]
    · simp [Rows.delete, hk]

/-- Some rows are removed, and then one is written. -/
theorem mutateAll_deletes_set (rows : Rows) (keys : List String) (k value : String) :
  rows.mutateAll (keys.map .deleteKv ++ [.setKv k value])
    = .ok (Rows.set (fun key => if key ∈ keys then none else rows key) k value)
  := by
  have hdeletes := mutateAll_deletes rows keys
  rw [Rows.mutateAll] at hdeletes ⊢
  rw [List.foldlM_append, hdeletes]
  rfl

section Fold

variable {codec : DeclaredCodec} {store : DeclaredStore} {absorbed : List WorkspaceKey}
  {into : WorkspaceKey}

theorem foldedRow_eq_none :
  foldedRow codec store absorbed into = none ↔ absorbable codec store absorbed = []
  := by
  rw [foldedRow]
  cases absorbable codec store absorbed with
  | nil => simp
  | cons entry entries => simp

theorem mergedFrom_foldedRow {merged : DeclaredBlocker}
    (h : foldedRow codec store absorbed into = some merged) :
  MergedFrom (folded codec store absorbed into) into merged
  := by
  rw [foldedRow] at h
  rw [folded]
  cases hread : (absorbable codec store absorbed).map Prod.snd with
  | nil =>
    rw [hread] at h
    cases h
  | cons first rest =>
    rw [hread] at h
    obtain rfl := Option.some.inj h
    apply mergedFrom_mergeDeclared

/-- What the store is left with: the absorbed rows are gone, and the merged one is written. -/
theorem mutateAll_absorb {merged : DeclaredBlocker} {json : String}
    (hrow : foldedRow codec store absorbed into = some merged)
    (hjson : codec.encode merged = .ok json) :
  store.rows.mutateAll (absorbDeclaredMutations codec store absorbed into)
    = .ok (Rows.set (fun key =>
        if key ∈ (absorbable codec store absorbed).map (declaredStorageKey ·.1) then none
        else store.rows key)
      (declaredStorageKey into) json)
  := by
  rw [← mutateAll_deletes_set, List.map_map, absorbDeclaredMutations, hrow]
  simp only [hjson]
  rfl

/-- A fold keeps what was declared exactly when it does not write over a row that it cannot read. -/
theorem foldKeeps_iff
    (restores : ∀ merged ∈ foldedRow codec store absorbed into, codec.Restores merged) :
  (∃ rows, store.rows.mutateAll (absorbDeclaredMutations codec store absorbed into) = .ok rows
      ∧ FoldKeeps codec store absorbed into rows)
    ↔ ∀ merged ∈ foldedRow codec store absorbed into, Unreadable codec store into →
      Written codec store into merged
  := by
  cases hrow : foldedRow codec store absorbed into with
  | none =>
      have hnothing := foldedRow_eq_none.mp hrow
      have hmutations : absorbDeclaredMutations codec store absorbed into = [] := by
        rw [absorbDeclaredMutations, hrow]
      apply iff_of_true _ nofun
      use store.rows
      constructor
      · rw [hmutations]
        rfl
      · constructor
        · exact fun h => absurd hnothing h
        · intro key _
          simp [hnothing]
        · intro _
          rfl
  | some merged =>
      obtain ⟨json, hjson, hdecode⟩ := restores merged hrow
      have hmutate := mutateAll_absorb hrow hjson
      set rows := Rows.set _ (declaredStorageKey into) json with hrows
      have hinto : rows (declaredStorageKey into) = some json := Function.update_self ..
      constructor
      · rintro ⟨rows', hmutate', keeps⟩ _ ⟨⟩ hunreadable
        obtain rfl : rows = rows' := Except.ok.inj (hmutate.symm.trans hmutate')
        exact ⟨json, hjson, (keeps.kept hunreadable).symm.trans hinto⟩
      · intro hwritten
        use rows, hmutate
        constructor
        · intro _ _
          exact ⟨json, merged, hinto, hdecode, mergedFrom_foldedRow hrow⟩
        · intro key hkey
          apply Function.update_of_ne hkey
        · intro hunreadable
          obtain ⟨json', hjson', hexisting⟩ := hwritten merged rfl hunreadable
          obtain rfl : json = json' := Except.ok.inj (hjson.symm.trans hjson')
          rw [hinto, hexisting]

end Fold

/-! ### Rows of a pull request and its issue -/

def kindText : BlockerKind → String
  | .dependency => "Dependency"
  | .external => "External"
  | .decision => "Decision"
  | .credential => "Credential"
  | .review => "Review"
  | .mergeOrder => "MergeOrder"
  | .contract => "Contract"
  | .cycle => "Cycle"
  | .other => "Other"

def quoted (text : String) : String := "\"" ++ text ++ "\""

def ownerText : BlockerOwner → String
  | .operator => quoted "Operator"
  | .agent key => "\x7b\"Agent\":" ++ quoted key.asStr ++ "\x7d"
  | .external task => "\x7b\"External\":" ++ quoted task ++ "\x7d"

/-- The text of a row, where nothing is to be escaped. -/
def rowText (workspace reason kind owner : String) (since : ℤ) : String :=
  "\x7b\"workspace\":" ++ quoted workspace ++ ",\"reason\":" ++ quoted reason
    ++ ",\"kind\":" ++ quoted kind ++ ",\"owner\":" ++ owner ++ ",\"since\":" ++ toString since
    ++ "\x7d"

def textOf (b : DeclaredBlocker) : String :=
  rowText b.workspace.asStr b.reason (kindText b.kind) (ownerText b.owner) b.since

/-- A codec that reads the texts of a few rows. -/
def codecOf (known : List DeclaredBlocker) : DeclaredCodec where
  encode b := .ok (textOf b)
  decode json :=
    match known.find? fun b => textOf b = json with
    | some b => .ok b
    | none => .error "unknown variant"

def declaredOnIssue : DeclaredBlocker :=
  ⟨⟨"issue"⟩, "waiting on the API contract", .contract, .operator, 100⟩

def declaredOnPr : DeclaredBlocker := ⟨⟨"pr"⟩, "needs STRIPE_KEY", .credential, .agent ⟨"pr"⟩, 400⟩

/-- A store with a row on the issue, and one on the pull request. -/
def storeWith (prRow : String) : DeclaredStore where
  rows key :=
    if key = "declared-blocker:issue" then some (textOf declaredOnIssue)
    else if key = "declared-blocker:pr" then some prRow
    else none
  fails _ := none

def foldedIntoPr (reason : String) : DeclaredBlocker :=
  ⟨⟨"pr"⟩, reason, .contract, .operator, 100⟩

/-- A row of a kind that is not known here is written over. -/
theorem not_foldKeeps_unknown_kind :
  let codec := codecOf [declaredOnIssue, foldedIntoPr "waiting on the API contract"]
  let store := storeWith (rowText "pr" "needs STRIPE_KEY" "Secret" (ownerText .operator) 400)
  codec.Restores (foldedIntoPr "waiting on the API contract")
    ∧ ¬ ∃ rows, store.rows.mutateAll (absorbDeclaredMutations codec store [⟨"issue"⟩] ⟨"pr"⟩)
        = .ok rows ∧ FoldKeeps codec store [⟨"issue"⟩] ⟨"pr"⟩ rows
  := by
  intro codec store
  constructor
  · exact ⟨_, rfl, by decide +kernel⟩
  · rintro ⟨rows, hmutate, keeps⟩
    have hrow : foldedRow codec store [⟨"issue"⟩] ⟨"pr"⟩
        = some (foldedIntoPr "waiting on the API contract") := by
      decide +kernel
    have hunreadable : Unreadable codec store ⟨"pr"⟩ :=
      ⟨by decide +kernel, "unknown variant", by decide +kernel⟩
    have hkept := keeps.kept hunreadable
    rw [← Except.ok.inj ((mutateAll_absorb hrow rfl).symm.trans hmutate), Rows.set,
      Function.update_self] at hkept
    revert hkept
    decide +kernel

theorem foldKeeps_iff_onPr :
  let reason := "waiting on the API contract; needs STRIPE_KEY"
  let codec := codecOf [declaredOnIssue, declaredOnPr, foldedIntoPr reason]
  let store := storeWith (textOf declaredOnPr)
  ∃ rows, store.rows.mutateAll (absorbDeclaredMutations codec store [⟨"issue"⟩] ⟨"pr"⟩) = .ok rows
    ∧ FoldKeeps codec store [⟨"issue"⟩] ⟨"pr"⟩ rows
  := by
  intro reason codec store
  have hrow : foldedRow codec store [⟨"issue"⟩] ⟨"pr"⟩ = some (foldedIntoPr reason) := by
    decide +kernel
  have hread : loadDeclared codec store ⟨"pr"⟩ = .ok (some declaredOnPr) := by decide +kernel
  have hrestores : ∀ merged ∈ foldedRow codec store [⟨"issue"⟩] ⟨"pr"⟩, codec.Restores merged := by
    intro merged hmerged
    obtain rfl : foldedIntoPr reason = merged := Option.some.inj (hrow.symm.trans hmerged)
    exact ⟨_, rfl, by decide +kernel⟩
  apply (foldKeeps_iff hrestores).mpr
  rintro merged hmerged ⟨-, e, herror⟩
  rw [hread] at herror
  cases herror

end Lazybox.Epics
