import Lazybox.GhShim.Gh

/-!
# Changes that are reported

A mutation reports the record that it changed, and the state that the record is in now.  That is
read off the arguments by a scan of the shim; what the run of `gh` did is read off them by its own
grammar.
-/

namespace Lazybox.GhShim

open WorkingClaim (Text stripPrefix)
open scoped WorkingClaim
open Pflag (Arg Given Parsed last?)

/-! ### What is reported, and what is true -/

/-- The state that the daemon writes for a change. -/
def asserted : GhChangeKind → Option TaskState
  | .closed => some .closed
  | .reopened => some .opened
  | .merged => some .merged
  | .touched => none

/-- What the shim takes a command for. -/
def mutationKind (name : String × String) : Option GhChangeKind :=
  (MUTATIONS.find? fun mutation => mutation.1 = name).map Prod.snd

def repoFlags : List String := ["-R", "--repo"]

/-- An argument that spells the flag of the repository by itself. -/
def Spells (arg : String) : Prop :=
  arg ∈ repoFlags ∨ ∃ flag ∈ repoFlags, ∃ value ≠ "", arg = flag ++ "=" ++ value

/-- The first argument that spells the flag of the repository gives this one. -/
inductive Spelled : List String → String → Prop
  | separate {flag value : String} {args : List String} (flag_mem : flag ∈ repoFlags)
      (value_ne : value ≠ "") : Spelled (flag :: value :: args) value
  | attached {flag value : String} {args : List String} (flag_mem : flag ∈ repoFlags)
      (value_ne : value ≠ "") : Spelled ((flag ++ "=" ++ value) :: args) value
  | later {arg value : String} {args : List String} (not_spells : ¬Spells arg)
      (spelled : Spelled args value) : Spelled (arg :: args) value

/-- The code reads the name of a repository in a text. -/
def Reads (scope : String) (repo : Gh.Repo) : Prop :=
  TaskRef.trimEndGit (trim scope.toList) = repo.slug

/-- The repository that the scan takes: the first one that is spelled, or else that of `GH_REPO` or
of the only remote. -/
def Scanned (env : Env) (argv : List String) (repo : Gh.Repo) : Prop :=
  (∃ value, Spelled argv value ∧ Reads value repo)
    ∨ (∀ value, ¬Spelled argv value) ∧ ∃ scope ∈ repoScope env [], Reads scope repo

section Runs

variable (w : Gh.World) (env : Env) (argv : List String)

/-- The command that the scan sees is of the kind of the one that runs, or says nothing of states;
a merge is not put off. -/
def SameKind (seen name : String × String) (p : Parsed Gh.Flag) : Prop :=
  mutationKind seen = some .touched
    ∨ mutationKind seen = mutationKind name
      ∧ (mutationKind name = some .merged → w.MergesAtOnce p.given)

/-- The reference is an address, or the repository that the scan takes is that of the run, or of an
address among the operands with the number of the reference. -/
def SameRecord (reference : String) (group : String) (p : Parsed Gh.Flag) : Prop :=
  Gh.isAddress reference.toList = true
    ∨ ∃ repo, Scanned env argv repo
      ∧ (w.baseRepo env p.given = some repo
        ∨ ∃ operand ∈ p.operands, Gh.isAddress operand = true
          ∧ ∃ n, Gh.address (Gh.kinds group) operand = some (repo, n)
            ∧ parseU64 reference.toList = some n)

/-- The run acts on records, and the scan sees the command and the record that it acts on. -/
def Honest : Prop :=
  ∃ name p group verb reference rest, Gh.invocation argv = .acts name p
    ∧ operands argv = group :: verb :: reference :: rest
    ∧ SameKind w (group, verb) name p ∧ SameRecord w env argv reference name.1 p

end Runs

/-! ### The operands that the scan sees -/

section Scan

variable {arg : String} {args rest : List String}

theorem operandsAfter_flag (h : isFlag arg = true) (afterFlag : Bool) (args : List String) :
  operandsAfter afterFlag (arg :: args) = operandsAfter (!arg.toList.contains '=') args
  := by
  simp [operandsAfter, h]

theorem operandsAfter_word (h : isFlag arg = false) (afterFlag : Bool) (args : List String) :
  operandsAfter afterFlag (arg :: args)
    = if afterFlag then operandsAfter false args else arg :: operandsAfter false args
  := by
  cases afterFlag <;> simp [operandsAfter, h]

theorem operandsAfter_sublist (afterFlag : Bool) (args : List String) :
  (operandsAfter afterFlag args).Sublist args
  := by
  induction args generalizing afterFlag with
  | nil => exact List.Sublist.refl []
  | cons arg args ih =>
    rw [operandsAfter]
    split
    · exact (ih _).cons_cons arg
    · exact (ih _).cons arg

/-- A flag before some arguments hides at most the first of them. -/
theorem exists_operandsAfter (afterFlag : Bool) (args : List String) :
  ∃ hidden : List String, hidden.length ≤ 1
    ∧ operandsAfter false args = hidden ++ operandsAfter afterFlag args
  := by
  cases afterFlag with
  | false => exact ⟨[], Nat.zero_le 1, rfl⟩
  | true =>
    cases args with
    | nil => exact ⟨[], Nat.zero_le 1, rfl⟩
    | cons arg args =>
      cases hflag : isFlag arg with
      | true =>
        use [], Nat.zero_le 1
        rw [operandsAfter_flag hflag, operandsAfter_flag hflag, List.nil_append]
      | false =>
        use [arg], Nat.le_refl 1
        rw [operandsAfter_word hflag, operandsAfter_word hflag]
        rfl

theorem takesNext_eq_true {switches : List String} (h : Gh.takesNext switches arg = true) :
  isFlag arg = true ∧ '=' ∉ arg.toList
  := by
  simp only [Gh.takesNext, Bool.and_eq_true, Bool.or_eq_true, Bool.not_eq_true',
    List.contains_eq_mem, decide_eq_false_iff_not] at h
  obtain ⟨heq, ⟨hdashes, -⟩ | ⟨hflag, -⟩⟩ := h
  · obtain ⟨name, hname⟩ := List.isPrefixOf_iff_prefix.mp hdashes
    use by rw [isFlag, ← hname]; rfl
  · exact ⟨hflag, heq⟩

/-- One operand more, which need not be there, behind empty ones. -/
def OneMore (more less : List String) : Prop :=
  ∃ blanks seen later : List String, (∀ s ∈ blanks, s = "") ∧ seen.length ≤ 1
    ∧ more = blanks ++ seen ++ later ∧ less = blanks ++ later

theorem OneMore.cons_blank {more less : List String} (h : OneMore more less) :
  OneMore ("" :: more) ("" :: less)
  := by
  obtain ⟨blanks, seen, later, hblanks, hlength, rfl, rfl⟩ := h
  use "" :: blanks, seen, later
  exact ⟨List.forall_mem_cons.mpr ⟨rfl, hblanks⟩, hlength, rfl, rfl⟩

/-- The scan may see a word or what comes behind it, but not both. -/
theorem oneMore_of_word {word : String} (h : isFlag word = false) (afterFlag : Bool)
    (args : List String) :
  OneMore (operandsAfter afterFlag (word :: args)) (operandsAfter afterFlag args)
  := by
  rw [operandsAfter_word h]
  cases afterFlag with
  | false =>
    use [], [word], operandsAfter false args
    exact ⟨List.forall_mem_nil _, Nat.le_refl 1, rfl, rfl⟩
  | true =>
    obtain ⟨hidden, hlength, heq⟩ := exists_operandsAfter true args
    use [], hidden, operandsAfter true args
    exact ⟨List.forall_mem_nil _, hlength, heq, rfl⟩

/-- Before flags and empty arguments there is still one operand more. -/
theorem OneMore.of_later (h : ∀ afterFlag, OneMore (operandsAfter afterFlag args)
      (operandsAfter afterFlag rest)) (harg : isFlag arg = true ∨ arg = "") (afterFlag : Bool) :
  OneMore (operandsAfter afterFlag (arg :: args)) (operandsAfter afterFlag (arg :: rest))
  := by
  cases hflag : isFlag arg with
  | true =>
    rw [operandsAfter_flag hflag, operandsAfter_flag hflag]
    exact h _
  | false =>
    rw [operandsAfter_word hflag, operandsAfter_word hflag]
    cases afterFlag with
    | true => exact h false
    | false =>
      rw [hflag] at harg
      rw [harg.resolve_left Bool.false_ne_true]
      exact (h false).cons_blank

/-- Without the word of a command there is one operand less. -/
theorem oneMore_of_nextWord {switches : List String} {word : String}
    (h : Gh.nextWord switches args = some (word, rest)) (afterFlag : Bool) :
  OneMore (operandsAfter afterFlag args) (operandsAfter afterFlag rest)
  := by
  induction args using Gh.nextWord.induct switches generalizing afterFlag rest with
  | case1 => cases h
  | case2 arg hskips =>
    rw [Gh.nextWord, if_pos hskips] at h
    cases h
  | case3 arg hskips =>
    rw [Gh.nextWord, if_neg hskips] at h
    cases h
    rw [not_or, Bool.not_eq_true] at hskips
    exact oneMore_of_word hskips.1 afterFlag []
  | case4 next args =>
    rw [Gh.nextWord, if_pos rfl] at h
    cases h
  | case5 arg next args hdashes htakes ih =>
    rw [Gh.nextWord, if_neg hdashes, if_pos htakes] at h
    obtain ⟨found, hfound, heq⟩ := Option.map_eq_some_iff.mp h
    obtain ⟨rfl, rfl⟩ := Prod.mk.inj heq
    obtain ⟨hflag, hvalue⟩ := takesNext_eq_true htakes
    have hcontains : (!arg.toList.contains '=') = true := by simpa using hvalue
    rw [operandsAfter_flag hflag, operandsAfter_flag hflag, hcontains]
    -- what is behind the flag is no operand
    cases hnext : isFlag next with
    | true =>
      rw [operandsAfter_flag hnext, operandsAfter_flag hnext]
      exact ih hfound _
    | false =>
      rw [operandsAfter_word hnext, operandsAfter_word hnext]
      exact ih hfound false
  | case6 arg next args hdashes htakes hskips ih =>
    rw [Gh.nextWord, if_neg hdashes, if_neg htakes, if_pos hskips] at h
    obtain ⟨found, hfound, heq⟩ := Option.map_eq_some_iff.mp h
    obtain ⟨rfl, rfl⟩ := Prod.mk.inj heq
    exact OneMore.of_later (ih hfound) hskips afterFlag
  | case7 arg next args hdashes htakes hskips =>
    rw [Gh.nextWord, if_neg hdashes, if_neg htakes, if_neg hskips] at h
    cases h
    rw [not_or, Bool.not_eq_true] at hskips
    exact oneMore_of_word hskips.1 afterFlag _

/-- Behind a first operand that is not empty, one operand less are the others or all. -/
theorem OneMore.eq_cons {first : String} {later less : List String}
    (h : OneMore (first :: later) less) (hfirst : first ≠ "") :
  less = later ∨ less = first :: later
  := by
  obtain ⟨blanks, seen, after, hblanks, hlength, hmore, rfl⟩ := h
  cases blanks with
  | cons s blanks =>
    cases hfirst ((List.cons.inj hmore).1.trans (hblanks s List.mem_cons_self))
  | nil =>
    cases seen with
    | nil =>
      right
      exact hmore.symm
    | cons s seen =>
      left
      rw [List.length_cons, Nat.succ_le_succ_iff, Nat.le_zero, List.length_eq_zero_iff] at hlength
      rw [hlength] at hmore
      exact (List.cons.inj hmore).2.symm

/-- The operands that the scan sees are operands. -/
theorem operandsAfter_sublist_parse {F : Type} {specs : List (Pflag.Spec F)}
    (hshort : ∀ spec ∈ specs, spec.short ≠ some '=') {waiting : Option (F × Arg)} {p : Parsed F}
    (h : Pflag.parseFrom specs waiting (args.map String.toList) = .ok p) {afterFlag : Bool}
    (hwaiting : waiting ≠ none → afterFlag = true) :
  ((operandsAfter afterFlag args).map String.toList).Sublist p.operands
  := by
  induction args generalizing waiting afterFlag p with
  | nil => exact List.nil_sublist _
  | cons arg args ih =>
    cases waiting with
    | some waiting =>
      obtain ⟨p', hrest, rfl⟩ := Pflag.of_map_eq_ok h
      rw [hwaiting (Option.some_ne_none waiting)]
      cases hflag : isFlag arg with
      | true =>
        rw [operandsAfter_flag hflag]
        exact ih hrest fun h => absurd rfl h
      | false =>
        rw [operandsAfter_word hflag]
        exact ih hrest fun h => absurd rfl h
    | none =>
      have hflag (h : Pflag.readWord specs arg.toList ≠ .operand) : isFlag arg = true := by
        obtain ⟨name, hname⟩ := Pflag.exists_dash_of_readWord h
        rw [isFlag, hname]
        rfl
      rw [List.map_cons, Pflag.parseFrom] at h
      cases hread : Pflag.readWord specs arg.toList with
      | operand =>
        rw [hread] at h
        obtain ⟨p', hrest, rfl⟩ := Pflag.of_map_eq_ok h
        have hlater (afterFlag : Bool) := @ih none p' hrest afterFlag fun h => absurd rfl h
        rw [operandsAfter]
        split
        · exact (hlater _).cons_cons arg.toList
        · exact (hlater _).cons arg.toList
      | dashes =>
        rw [hread] at h
        obtain rfl := Except.ok.inj h
        rw [operandsAfter_flag (hflag (by simp [hread]))]
        exact (operandsAfter_sublist _ args).map String.toList
      | stop stop =>
        rw [hread] at h
        cases h
      | flags given last =>
        rw [hread] at h
        obtain ⟨p', hrest, rfl⟩ := Pflag.of_map_eq_ok h
        rw [operandsAfter_flag (hflag (by simp [hread]))]
        apply ih hrest
        intro hlast
        cases last with
        | none => cases hlast rfl
        | some flag => simpa using Pflag.not_mem_of_waiting hshort hread

/-! ### The record among the operands of gh -/

theorem short_ne_of_mem_specs {name : String × String} {command : Gh.Command}
    (h : (Gh.commands.find? (·.1 = name)).map Prod.snd = some command) :
  ∀ spec ∈ command.specs, spec.short ≠ some '='
  := by
  have hall : ∀ entry ∈ Gh.commands, ∀ flag ∈ entry.2.valued ++ entry.2.switches,
      flag.2 ≠ some '=' := by
    decide
  obtain ⟨entry, hfind, rfl⟩ := Option.map_eq_some_iff.mp h
  have hflags := hall entry (List.mem_of_find?_eq_some hfind)
  intro spec hspec
  rw [Gh.Command.specs, List.mem_append, List.mem_append, List.mem_map, List.mem_map] at hspec
  obtain (hcommon | ⟨flag, hflag, rfl⟩) | ⟨flag, hflag, rfl⟩ := hspec
  · simp only [List.mem_cons, List.not_mem_nil, or_false] at hcommon
    obtain rfl | rfl := hcommon <;> simp
  · exact hflags flag (List.mem_append_left _ hflag)
  · exact hflags flag (List.mem_append_right _ hflag)

/-- What gh acts by. -/
theorem of_invocation_acts {argv : List String} {name : String × String} {p : Parsed Gh.Flag}
    (h : Gh.invocation argv = .acts name p) :
  ∃ args command, Gh.commandWords argv = some (name, args)
    ∧ (Gh.commands.find? (·.1 = name)).map Prod.snd = some command
    ∧ Pflag.parse command.specs (args.map String.toList) = .ok p
    ∧ command.least ≤ p.operands.length ∧ command.most.all (p.operands.length ≤ ·)
  := by
  rw [Gh.invocation] at h
  split at h
  · cases h
  · next name' args hwords =>
      split at h
      · cases h
      · next command hcommand =>
          split at h
          · cases h
          · cases h
          · next p' hparse =>
              split at h
              · cases h
              · split at h
                · next hcount =>
                    cases h
                    exact ⟨args, command, hwords, hcommand, hparse, hcount.1, hcount.2⟩
                · cases h

/-- The third operand that the scan sees is an operand of the command. -/
theorem reference_mem_operands {argv rest : List String} {group verb reference : String}
    {name : String × String} {p : Parsed Gh.Flag}
    (hseen : operands argv = group :: verb :: reference :: rest) (hgroup : group ≠ "")
    (hverb : verb ≠ "") (h : Gh.invocation argv = .acts name p) :
  reference.toList ∈ p.operands
  := by
  obtain ⟨args, command, hwords, hcommand, hparse, -, -⟩ := of_invocation_acts h
  obtain ⟨first, hfirst, hwords⟩ := Option.bind_eq_some_iff.mp hwords
  obtain ⟨second, hsecond, hwords⟩ := Option.bind_eq_some_iff.mp hwords
  obtain ⟨-, rfl⟩ := Prod.mk.inj (Option.some.inj hwords)
  have hmore := oneMore_of_nextWord hfirst false
  have hmore' := oneMore_of_nextWord hsecond false
  have hmem : reference ∈ operandsAfter false second.2 := by
    rw [operands] at hseen
    rw [hseen] at hmore
    obtain heq | heq := hmore.eq_cons hgroup
    · rw [heq] at hmore'
      obtain heq' | heq' := hmore'.eq_cons hverb <;> simp [heq']
    · rw [heq] at hmore'
      obtain heq' | heq' := hmore'.eq_cons hgroup <;> simp [heq']
  apply (operandsAfter_sublist_parse (short_ne_of_mem_specs hcommand) hparse _).subset
  · exact List.mem_map_of_mem hmem
  · exact fun h => absurd rfl h

end Scan

/-! ### The repository that is scanned -/

theorem attachedValue_eq_some {arg value : String} :
  attachedValue arg repoFlags = some value
    ↔ value ≠ "" ∧ ∃ flag ∈ repoFlags, arg = flag ++ "=" ++ value
  := by
  constructor
  · intro h
    obtain ⟨flag, hflag, h⟩ := List.exists_of_findSome?_eq_some h
    split at h
    · next rest hstrip =>
        split_ifs at h with hne
        obtain rfl := Option.some.inj h
        rw [WorkingClaim.stripPrefix_eq_some] at hstrip
        constructor
        · rintro hnil
          apply hne
          rw [← String.toList_ofList (l := rest), hnil]
          rfl
        · use flag, hflag
          rw [← String.toList_inj, hstrip]
          simp
    · cases h
  · rintro ⟨hne, flag, hflag, rfl⟩
    have hvalue : value.toList ≠ [] := fun hnil => hne (String.toList_inj.mp hnil)
    have hself (flag : String) :
        stripPrefix (flag.toList ++ ['=']) (flag ++ "=" ++ value).toList = some value.toList := by
      rw [WorkingClaim.stripPrefix_eq_some]
      simp
    have hother : stripPrefix ("-R".toList ++ ['=']) ("--repo" ++ "=" ++ value).toList = none := by
      rw [Option.eq_none_iff_forall_ne_some]
      intro rest hrest
      rw [WorkingClaim.stripPrefix_eq_some] at hrest
      simp at hrest
    simp only [repoFlags, List.mem_cons, List.not_mem_nil, or_false] at hflag
    obtain rfl | rfl := hflag
    · simp only [attachedValue, repoFlags, List.findSome?_cons, hself, if_pos hvalue,
        String.ofList_toList]
    · simp only [attachedValue, repoFlags, List.findSome?_cons, hself, hother, if_pos hvalue,
        String.ofList_toList]

theorem flagValue_eq_some {args : List String} {value : String} :
  flagValue repoFlags args = some value ↔ Spelled args value
  := by
  have hspells (arg : String) : Spells arg ↔ arg ∈ repoFlags
      ∨ ∃ value, attachedValue arg repoFlags = some value := by
    rw [Spells]
    apply or_congr_right
    constructor
    · rintro ⟨flag, hflag, value, hne, heq⟩
      exact ⟨value, attachedValue_eq_some.mpr ⟨hne, flag, hflag, heq⟩⟩
    · rintro ⟨value, hvalue⟩
      obtain ⟨hne, flag, hflag, heq⟩ := attachedValue_eq_some.mp hvalue
      exact ⟨flag, hflag, value, hne, heq⟩
  induction args with
  | nil =>
    rw [flagValue]
    exact ⟨fun h => (by cases h), fun h => (by cases h)⟩
  | cons arg args ih =>
    rw [flagValue]
    split_ifs with hmem
    · rw [Option.filter_eq_some_iff, List.head?_eq_some_iff]
      constructor
      · rintro ⟨⟨later, rfl⟩, hne⟩
        exact .separate hmem (of_decide_eq_true hne)
      · intro h
        cases h with
        | separate _ hne => exact ⟨⟨_, rfl⟩, decide_eq_true hne⟩
        | @attached flag _ _ hflag hne =>
          exfalso
          have hnot : ∀ arg ∈ repoFlags, '=' ∉ arg.toList := by decide
          apply hnot _ hmem
          simp
        | later hnot _ => cases hnot (.inl hmem)
    · rw [Option.or_eq_some_iff]
      constructor
      · rintro (hvalue | ⟨hnone, hlater⟩)
        · obtain ⟨hne, flag, hflag, rfl⟩ := attachedValue_eq_some.mp hvalue
          exact .attached hflag hne
        · apply Spelled.later _ (ih.mp hlater)
          rw [hspells, hnone]
          simp [hmem]
      · intro h
        cases h with
        | separate hflag _ => cases hmem hflag
        | @attached flag _ _ hflag hne =>
          left
          exact attachedValue_eq_some.mpr ⟨hne, flag, hflag, rfl⟩
        | later hnot hlater =>
          right
          rw [hspells, not_or, not_exists] at hnot
          exact ⟨Option.eq_none_iff_forall_ne_some.mpr hnot.2, ih.mpr hlater⟩

/-- The scope is what the flags give, or else what there is without arguments. -/
theorem repoScope_eq (env : Env) (argv : List String) :
  repoScope env argv = (flagValue repoFlags argv).or (repoScope env [])
  := rfl

variable {argv : List String}

variable {env : Env}

/-- The scope of the arguments is read as the repository that the scan takes. -/
theorem scanned_iff {scope : String} (h : repoScope env argv = some scope) (repo : Gh.Repo) :
  Scanned env argv repo ↔ Reads scope repo
  := by
  rw [repoScope_eq] at h
  cases hflag : flagValue repoFlags argv with
  | some value =>
    rw [hflag] at h
    obtain rfl := Option.some.inj h
    have hspelled := flagValue_eq_some.mp hflag
    constructor
    · rintro (⟨value', hvalue', hreads⟩ | ⟨hnot, -⟩)
      · rw [← flagValue_eq_some, hflag] at hvalue'
        obtain rfl := Option.some.inj hvalue'
        exact hreads
      · cases hnot value hspelled
    · intro hreads
      left
      exact ⟨value, hspelled, hreads⟩
  | none =>
    rw [hflag] at h
    have hnot : ∀ value, ¬Spelled argv value := by
      intro value hvalue
      rw [← flagValue_eq_some, hflag] at hvalue
      cases hvalue
    constructor
    · rintro (⟨value, hvalue, -⟩ | ⟨-, scope', hscope', hreads⟩)
      · cases hnot value hvalue
      · obtain rfl := Option.some.inj (h.symm.trans hscope')
        exact hreads
    · intro hreads
      right
      exact ⟨hnot, scope, h, hreads⟩

/-! ### What is reported -/

/-- What a reported change was made of. -/
theorem of_classify_change {fingerprint : String → String} {change : RecordChange}
    (h : (classify fingerprint env argv).change = some change) :
  ∃ group verb reference rest, operands argv = group :: verb :: reference :: rest
    ∧ mutationKind (group, verb) = some change.kind ∧ looksLikeTarget reference = true
    ∧ change.record = ⟨reference, repoScope env argv⟩
  := by
  rw [classify] at h
  split at h
  · cases h
  · dsimp only at h
    split at h
    · cases h
    · next group hgroup =>
        split at h
        · cases h
        · split at h
          · next kind hkind =>
              obtain ⟨reference, hreference, rfl⟩ := Option.map_eq_some_iff.mp h
              obtain ⟨hthird, hlooks⟩ := Option.filter_eq_some_iff.mp hreference
              cases hoperands : operands argv with
              | nil =>
                rw [hoperands] at hgroup
                cases hgroup
              | cons first later =>
                rw [hoperands] at hgroup hthird hkind
                obtain rfl := Option.some.inj hgroup
                cases later with
                | nil => cases hthird
                | cons verb later =>
                  cases later with
                  | nil => cases hthird
                  | cons third rest =>
                    obtain rfl := Option.some.inj hthird
                    exact ⟨_, _, _, _, rfl, hkind, hlooks, rfl⟩
          · split at h <;> cases h

/-- A target is an address or a number. -/
theorem of_looksLikeTarget {reference : String} (h : looksLikeTarget reference = true) :
  Gh.isAddress reference.toList = true ∨ ∃ n, parseU64 reference.toList = some n
  := by
  rw [looksLikeTarget, Bool.or_assoc, Bool.or_eq_true, Option.isSome_iff_exists] at h
  exact h.symm

variable {group : String}

theorem ne_nil_of_mutationKind {verb : String} {kind : GhChangeKind}
    (h : mutationKind (group, verb) = some kind) :
  group ≠ "" ∧ verb ≠ ""
  := by
  have hall : ∀ mutation ∈ MUTATIONS, mutation.1.1 ≠ "" ∧ mutation.1.2 ≠ "" := by decide
  obtain ⟨mutation, hfind, -⟩ := Option.map_eq_some_iff.mp h
  have hname : mutation.1 = (group, verb) := by simpa using List.find?_some hfind
  have hne := hall mutation (List.mem_of_find?_eq_some hfind)
  rw [hname] at hne
  exact hne

/-! ### What is true -/

variable {name : String × String}

variable {command : Gh.Command}

theorem leaves_eq (h : (Gh.commands.find? (·.1 = name)).map Prod.snd = some command)
    (w : Gh.World) (given : List (Given Gh.Flag)) :
  ∃ kind, mutationKind name = some kind
    ∧ w.leaves name.2 given
      = if kind = .merged ∧ ¬w.MergesAtOnce given then none else asserted kind
  := by
  have hall : ∀ entry ∈ Gh.commands, mutationKind entry.1
      = some (if entry.1.2 = "close" then .closed else if entry.1.2 = "reopen" then .reopened
        else if entry.1.2 = "merge" then .merged else .touched) := by
    decide
  obtain ⟨entry, hfind, -⟩ := Option.map_eq_some_iff.mp h
  have hname : entry.1 = name := by simpa using List.find?_some hfind
  have hkind := hall entry (List.mem_of_find?_eq_some hfind)
  rw [hname] at hkind
  refine ⟨_, hkind, ?_⟩
  rw [Gh.World.leaves]
  split_ifs <;> simp_all [asserted]

/-- A run leaves the state that is reported exactly if it is of the same kind. -/
theorem leaves_iff {seen : String × String} {kind : GhChangeKind}
    (hkind : mutationKind seen = some kind)
    (h : (Gh.commands.find? (·.1 = name)).map Prod.snd = some command) (w : Gh.World)
    (p : Parsed Gh.Flag) :
  (∀ state, asserted kind = some state → w.leaves name.2 p.given = some state)
    ↔ SameKind w seen name p
  := by
  obtain ⟨actual, hactual, hleaves⟩ := leaves_eq h w p.given
  rw [hleaves, SameKind, hkind, hactual]
  cases kind <;> cases actual <;> by_cases hmerges : w.MergesAtOnce p.given
    <;> simp [asserted, hmerges]

section Targets

variable {w : Gh.World} {env : Env} {name : String × String} {base : Option Gh.Repo}
  {operands : List Arg} {tasks : List TaskId}

/-- An operand that a transfer cannot go to is a record that is acted on. -/
theorem selected_of_targets {command : Gh.Command}
    (hcommand : (Gh.commands.find? (·.1 = name)).map Prod.snd = some command)
    (hcount : command.most.all (operands.length ≤ ·) = true)
    (h : w.targets name base operands = some tasks) {operand : Arg} (hmem : operand ∈ operands)
    (hdestination : Gh.isDestination operand = false) :
  ∃ task ∈ tasks, w.selected name.1 base operand = some task
  := by
  unfold Gh.World.targets at h
  split at h
  · cases hmem
  · next first later =>
      split_ifs at h with htransfer hgoes
      · subst htransfer
        obtain rfl := Option.some.inj (hcommand.symm.trans rfl)
        obtain rfl : operand = first := by
          obtain rfl | hlater := List.mem_cons.mp hmem
          · rfl
          · -- a transfer has no operand besides the repository it goes to
            cases later with
            | nil => cases hlater
            | cons destination rest =>
              have hrest : rest = [] := by
                simpa using hcount
              rw [hrest, List.mem_singleton] at hlater
              change Gh.isDestination destination = true at hgoes
              rw [hlater, hgoes] at hdestination
              cases hdestination
        obtain ⟨task, htask, rfl⟩ := Option.map_eq_some_iff.mp h
        exact ⟨task, List.mem_singleton_self task, htask⟩
      · exact (MapM.mem_of_mapM h).1 operand hmem

/-- A record that is acted on is one of the operands. -/
theorem operand_of_mem_targets (h : w.targets name base operands = some tasks)
    (hne : operands ≠ []) {task : TaskId} (htask : task ∈ tasks) :
  ∃ operand ∈ operands, w.selected name.1 base operand = some task
  := by
  unfold Gh.World.targets at h
  split at h
  · cases hne rfl
  · next first later =>
      split_ifs at h
      · obtain ⟨task', htask', rfl⟩ := Option.map_eq_some_iff.mp h
        rw [List.mem_singleton] at htask
        exact ⟨first, List.mem_cons_self, by rw [htask', htask]⟩
      · exact (MapM.mem_of_mapM h).2 task htask

end Targets

theorem isDestination_of_isAddress {operand : Arg} (h : Gh.isAddress operand = true) :
  Gh.isDestination operand = false
  := by
  rw [Gh.isDestination, h, Bool.not_true, Bool.and_false]

variable {selector : Arg}

/-- A number is read as it is. -/
theorem of_number {n : ℕ} (h : parseU64 selector = some n) :
  Gh.isAddress selector = false ∧ Gh.isDestination selector = false
    ∧ Gh.selectorNumber selector = some n
  := by
  have hnot (c : Char) (hdigit : c.isDigit = false) (hplus : c ≠ '+') : c ∉ selector := by
    intro hmem
    rw [parseU64_of_mem hmem hdigit hplus] at h
    cases h
  have haddress : Gh.isAddress selector = false := by
    rw [Bool.eq_false_iff, Ne, Gh.isAddress, Bool.or_eq_true, List.isPrefixOf_iff_prefix,
      List.isPrefixOf_iff_prefix]
    rintro (hscheme | hscheme)
    · exact hnot '/' (by decide) (by decide) (hscheme.subset (by simp))
    · exact hnot '/' (by decide) (by decide) (hscheme.subset (by simp))
  have hhash : stripPrefix ['#'] selector = none := by
    rw [Option.eq_none_iff_forall_ne_some]
    intro rest hrest
    rw [WorkingClaim.stripPrefix_eq_some] at hrest
    apply hnot '#' (by decide) (by decide)
    rw [hrest]
    exact List.mem_cons_self
  use haddress
  rw [Gh.isDestination, decide_eq_false (hnot '/' (by decide) (by decide)), Bool.false_and,
    Gh.selectorNumber, hhash, Option.getD_none, h]
  exact ⟨rfl, rfl⟩

variable {w : Gh.World}

variable {base : Option Gh.Repo}

theorem selected_of_number {n : ℕ} (h : parseU64 selector = some n) :
  w.selected group base selector = base.map fun repo => repo.task n
  := by
  obtain ⟨haddress, -, hnumber⟩ := of_number h
  simp only [Gh.World.selected, haddress, Bool.false_eq_true, if_false, hnumber]

theorem selected_of_address (haddress : Gh.isAddress selector = true) {task : TaskId}
    (h : w.selected group base selector = some task) :
  ∃ repo n, Gh.address (Gh.kinds group) selector = some (repo, n) ∧ repo.task n = task
  := by
  rw [Gh.World.selected, if_pos haddress] at h
  obtain ⟨⟨repo, n⟩, hfound, rfl⟩ := Option.map_eq_some_iff.mp h
  exact ⟨repo, n, hfound, rfl⟩

/-- Only a pull request is selected by its branch. -/
theorem of_selected {task : TaskId} (h : w.selected group base selector = some task) :
  (Gh.isAddress selector = true
      ∧ ∃ repo n, Gh.address (Gh.kinds group) selector = some (repo, n) ∧ repo.task n = task)
    ∨ (∃ repo n, base = some repo ∧ repo.task n = task)
    ∨ group = "pr" ∧ Gh.selectorNumber selector = none
  := by
  cases haddress : Gh.isAddress selector with
  | true =>
    left
    exact ⟨rfl, selected_of_address haddress h⟩
  | false =>
    right
    simp only [Gh.World.selected, haddress, Bool.false_eq_true, if_false] at h
    cases hnumber : Gh.selectorNumber selector with
    | some n =>
      left
      rw [hnumber] at h
      obtain ⟨repo, hbase, rfl⟩ := Option.map_eq_some_iff.mp h
      exact ⟨repo, n, hbase, rfl⟩
    | none =>
      right
      simp only [hnumber] at h
      split_ifs at h with hgroup
      exact ⟨hgroup, rfl⟩

/-- A command on pull requests has one operand at most. -/
theorem eq_of_pr (h : (Gh.commands.find? (·.1 = name)).map Prod.snd = some command)
    (hgroup : name.1 = "pr") {operands : List Arg}
    (hcount : command.most.all (operands.length ≤ ·) = true) {operand operand' : Arg}
    (hmem : operand ∈ operands) (hmem' : operand' ∈ operands) :
  operand = operand'
  := by
  have hall : ∀ entry ∈ Gh.commands, entry.1.1 = "pr" → entry.2.most.any (· ≤ 1) = true := by
    decide
  obtain ⟨entry, hfind, rfl⟩ := Option.map_eq_some_iff.mp h
  have hname : entry.1 = name := by simpa using List.find?_some hfind
  have hone := hall entry (List.mem_of_find?_eq_some hfind) (by rw [hname, hgroup])
  cases hmost : entry.2.most with
  | none =>
    rw [hmost] at hone
    cases hone
  | some most =>
    rw [hmost] at hone hcount
    have hlength : operands.length ≤ 1 :=
      (of_decide_eq_true hcount).trans (of_decide_eq_true hone)
    obtain ⟨first, rfl⟩ := List.length_eq_one_iff.mp
      (hlength.antisymm (List.length_pos_of_mem hmem))
    rw [List.mem_singleton.mp hmem, List.mem_singleton.mp hmem']

/-- A run acts on the record that is reported exactly if the scan sees which it is. -/
theorem mem_tasks_iff {p : Parsed Gh.Flag} (hacts : Gh.invocation argv = .acts name p)
    {tasks : List TaskId}
    (htargets : w.targets name (w.baseRepo env p.given) p.operands = some tasks)
    {reference : String} (hlooks : looksLikeTarget reference = true)
    (hreference : reference.toList ∈ p.operands) {id : TaskId}
    (hid : TaskRef.parseTaskRef reference (repoScope env argv) = some id) :
  id ∈ tasks ↔ SameRecord w env argv reference name.1 p
  := by
  obtain ⟨args, command, -, hcommand, -, -, hcount⟩ := of_invocation_acts hacts
  have hselected {operand : Arg} (hmem : operand ∈ p.operands)
      (hdestination : Gh.isDestination operand = false) :=
    selected_of_targets hcommand hcount htargets hmem hdestination
  obtain haddress | ⟨n, hn⟩ := of_looksLikeTarget hlooks
  · obtain ⟨task, htask, hselected⟩ := hselected hreference (isDestination_of_isAddress haddress)
    obtain ⟨repo, n, hfound, rfl⟩ := selected_of_address haddress hselected
    have hsame := Gh.task_of_address hfound hid
    rw [hsame]
    exact iff_of_true htask (.inl haddress)
  · obtain ⟨task, htask, hselected'⟩ := hselected hreference (of_number hn).2.1
    rw [selected_of_number hn] at hselected'
    obtain ⟨base, hbase, rfl⟩ := Option.map_eq_some_iff.mp hselected'
    rw [Gh.parseTaskRef_of_number hn] at hid
    obtain ⟨scope, hscope, hid⟩ := Option.bind_eq_some_iff.mp hid
    have hn' : parseU64 (trim reference.toList) = some n := by
      rw [TaskRef.trim_of_no_space (Gh.isWhiteSpace_of_parseU64 hn), hn]
    have hreads (repo : Gh.Repo) : id = repo.task n ↔ Reads scope repo :=
      Gh.eq_task_iff hid hn' repo
    constructor
    · intro hmem
      right
      obtain ⟨operand, hoperand, hselected'⟩ :=
        operand_of_mem_targets htargets (List.ne_nil_of_mem hreference) hmem
      obtain ⟨haddress, repo, n', hfound, rfl⟩ | ⟨repo, n', hrepo, rfl⟩ | ⟨hgroup, hnone⟩ :=
        of_selected hselected'
      · obtain rfl := Gh.number_of_task hid hn'
        use repo
        rw [scanned_iff hscope]
        exact ⟨(hreads repo).mp rfl, .inr ⟨operand, hoperand, haddress, n', hfound, hn⟩⟩
      · obtain rfl := Gh.number_of_task hid hn'
        use repo
        rw [scanned_iff hscope]
        exact ⟨(hreads repo).mp rfl, .inl hrepo⟩
      · rw [eq_of_pr hcommand hgroup hcount hoperand hreference, (of_number hn).2.2] at hnone
        cases hnone
    · rintro (haddress | ⟨repo, hscanned, hrepo⟩)
      · rw [(of_number hn).1] at haddress
        cases haddress
      · rw [scanned_iff hscope] at hscanned
        obtain hbase' | ⟨operand, hoperand, haddress, n', hfound, hn''⟩ := hrepo
        · obtain rfl := Option.some.inj (hbase.symm.trans hbase')
          rw [(hreads base).mpr hscanned]
          exact htask
        · obtain rfl := Option.some.inj (hn.symm.trans hn'')
          obtain ⟨task, htask', hselected'⟩ := hselected hoperand (isDestination_of_isAddress haddress)
          obtain ⟨repo', n', hfound', rfl⟩ := selected_of_address haddress hselected'
          obtain ⟨rfl, rfl⟩ := Prod.mk.inj (Option.some.inj (hfound.symm.trans hfound'))
          rw [(hreads repo).mpr hscanned]
          exact htask'

/-- A run acts on nothing, or on the records of an invocation that acts. -/
theorem of_run {effect : Gh.Effect} (h : w.run env argv = some effect) :
  effect = .idle ∧ (∀ name p, Gh.invocation argv ≠ .acts name p)
    ∨ ∃ name p tasks, Gh.invocation argv = .acts name p
      ∧ w.targets name (w.baseRepo env p.given) p.operands = some tasks
      ∧ effect = ⟨tasks, w.leaves name.2 p.given⟩
  := by
  rw [Gh.World.run] at h
  cases hinvocation : Gh.invocation argv with
  | other =>
    rw [hinvocation] at h
    simp only [Option.ite_none_right_eq_some, Option.some.injEq] at h
    exact .inl ⟨h.2.symm, fun name p => Gh.Invocation.noConfusion⟩
  | help =>
    rw [hinvocation] at h
    exact .inl ⟨(Option.some.inj h).symm, fun name p => Gh.Invocation.noConfusion⟩
  | refused =>
    rw [hinvocation] at h
    cases h
  | acts name p =>
    rw [hinvocation] at h
    simp only [Option.ite_none_right_eq_some] at h
    obtain ⟨tasks, htasks, rfl⟩ := Option.map_eq_some_iff.mp h.2
    exact .inr ⟨name, p, tasks, rfl, htasks, rfl⟩

/-- What is reported of a record is true of a run exactly if the scan sees what the run does. -/
theorem change_true_iff (fingerprint : String → String) (w : Gh.World) (env : Env)
    (argv : List String) {change : RecordChange} {id : TaskId} {effect : Gh.Effect}
    (hchange : (classify fingerprint env argv).change = some change)
    (hid : TaskRef.parseTaskRef change.record.reference change.record.repo = some id)
    (hrun : w.run env argv = some effect) :
  (id ∈ effect.tasks
      ∧ ∀ state, asserted change.kind = some state → effect.leaves = some state)
    ↔ Honest w env argv
  := by
  obtain ⟨group, verb, reference, rest, hoperands, hkind, hlooks, hrecord⟩ :=
    of_classify_change hchange
  rw [hrecord] at hid
  obtain ⟨rfl, hnot⟩ | ⟨name, p, tasks, hacts, htargets, rfl⟩ := of_run hrun
  · apply iff_of_false
    · rintro ⟨hmem, -⟩
      cases hmem
    · rintro ⟨name, p, -, -, -, -, hacts, -⟩
      exact hnot name p hacts
  · obtain ⟨hgroup, hverb⟩ := ne_nil_of_mutationKind hkind
    obtain ⟨args, command, -, hcommand, -⟩ := of_invocation_acts hacts
    have hreference := reference_mem_operands hoperands hgroup hverb hacts
    rw [mem_tasks_iff hacts htargets hlooks hreference hid, leaves_iff hkind hcommand, Honest]
    constructor
    · rintro ⟨hrecord, hkind⟩
      exact ⟨name, p, group, verb, reference, rest, hacts, hoperands, hkind, hrecord⟩
    · rintro ⟨name', p', group', verb', reference', rest', hacts', hoperands', hkind', hrecord'⟩
      rw [hacts] at hacts'
      rw [hoperands] at hoperands'
      cases hacts'
      cases hoperands'
      exact ⟨hrecord', hkind'⟩

theorem change_true_iff_squash :
  (⟨"github", "o/r#7"⟩ ∈ [TaskId.mk "github" "o/r#7"]
      ∧ ∀ state, asserted .merged = some state → some TaskState.merged = some state)
    ↔ Honest ⟨fun _ => true, fun _ _ => true, none, fun _ => none, fun _ => none, false⟩
      ⟨none, none, [], none, none, none⟩ ["pr", "merge", "7", "--squash", "-R", "o/r"]
  := @change_true_iff id ⟨fun _ => true, fun _ _ => true, none, fun _ => none, fun _ => none, false⟩
    ⟨none, none, [], none, none, none⟩ ["pr", "merge", "7", "--squash", "-R", "o/r"]
    ⟨⟨"7", some "o/r"⟩, .merged⟩ _ ⟨[⟨"github", "o/r#7"⟩], some .merged⟩ rfl rfl rfl

/-- A repository that is attached to its letter is not seen, and another one's record is taken for
closed. -/
theorem other_record_closed :
  ¬∀ (w : Gh.World) (env : Env) (argv : List String) (change : RecordChange) (task : TaskId)
      (effect : Gh.Effect), (classify id env argv).change = some change →
    TaskRef.parseTaskRef change.record.reference change.record.repo = some task →
    w.run env argv = some effect →
    task ∈ effect.tasks
      ∧ ∀ state, asserted change.kind = some state → effect.leaves = some state
  := by
  intro claim
  have hmem := (claim ⟨fun _ => true, fun _ _ => true, none, fun _ => none, fun _ => none, false⟩
    ⟨none, some "a/b", [], none, none, none⟩ ["issue", "close", "7", "-Ro/r"]
    ⟨⟨"7", some "a/b"⟩, .closed⟩ ⟨"github", "a/b#7"⟩ ⟨[⟨"github", "o/r#7"⟩], some .closed⟩
    rfl rfl rfl).1
  revert hmem
  decide

end Lazybox.GhShim
