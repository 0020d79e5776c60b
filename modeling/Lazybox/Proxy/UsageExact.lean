import Lazybox.Proxy.UsageTokens
import Lazybox.Proxy.UsageAccepted

/-!
# What is metered is the document

The parser, run over the bytes of a response, accepts exactly the documents that are nested no
deeper than its limit, and what it returns is the projection of the document.

At every point the bytes that were read are those of some tokens, and the beginning of one more.
Conversely the bytes of a document lead through the states after its tokens.  A number or a literal
has no byte that ends it, so it is complete only with the byte after it; what comes after a value is
whitespace, a comma or the end of a container, which the parser takes to end it.
-/

namespace Lazybox

open Json

namespace UsageJson

variable {ν : Type} (serde : SerdeJson ν)

/-! ### Whatever is read is spelled -/

/-- What the state tells of the bytes that were read: the tokens that are complete, and the
beginning of one more. -/
inductive Lexed : List UInt8 → UsageJson ν → Prop where
  | fault {bytes : List UInt8} {s : UsageJson ν} (invalid : s.invalid = true) : Lexed bytes s
  | between {bytes : List UInt8} {tokens : List Token} {stack : List (Frame ν)}
      {root : Option (Value ν)} (spells : Spells bytes tokens)
      (fed : (between [] none).feedAll serde tokens = some (between stack root)) :
      Lexed bytes (between stack root)
  | string {bytes body : List UInt8} {tokens : List Token} {stack : List (Frame ν)}
      {root : Option (Value ν)} {s : UsageJson ν} (spells : Spells bytes tokens)
      (fed : (UsageJson.between [] none).feedAll serde tokens
        = some (UsageJson.between stack root))
      (inside : InString stack root body s) : Lexed (bytes ++ 0x22 :: body) s
  | pending {bytes text : List UInt8} {tokens : List Token} {stack : List (Frame ν)}
      {root : Option (Value ν)} {s : UsageJson ν} (spells : Spells bytes tokens)
      (fed : (UsageJson.between [] none).feedAll serde tokens
        = some (UsageJson.between stack root))
      (inside : Pending stack root text s) : Lexed (bytes ++ text) s

section

variable {bytes : List UInt8} {tokens : List Token} {stack : List (Frame ν)}
  {root : Option (Value ν)}

/-- After a token that is taken, the parser is between tokens again. -/
theorem feedAll_concat (hserde : serde.Decides)
    (fed : (between [] none).feedAll serde tokens = some (between stack root)) (token : Token)
    (hvalid : ((between stack root).tokenStep serde token).invalid = false) :
  ∃ stack' root', (between stack root).tokenStep serde token = between stack' root'
    ∧ (between [] none).feedAll serde (tokens ++ [token]) = some (between stack' root')
  := by
  have hfed : (between [] none).feedAll serde (tokens ++ [token])
      = some ((between stack root).tokenStep serde token) := by
    rw [feedAll_append, fed, Option.bind_some, feedAll_cons, feed_eq_some serde rfl hvalid]
    rfl
  obtain ⟨stack', root', hbetween, -⟩ := reads_feedAll serde hserde hfed
  rw [hbetween] at hfed ⊢
  exact ⟨stack', root', rfl, hfed⟩

/-- A token that is complete. -/
theorem Lexed.token (hserde : serde.Decides) (spells : Spells bytes tokens)
    (fed : (UsageJson.between [] none).feedAll serde tokens = some (UsageJson.between stack root))
    (token : Token) :
  Lexed serde (bytes ++ token.spelling) ((UsageJson.between stack root).tokenStep serde token)
  := by
  cases hvalid : ((UsageJson.between stack root).tokenStep serde token).invalid with
  | true => exact .fault hvalid
  | false =>
    obtain ⟨stack', root', hbetween, hfed⟩ := feedAll_concat serde hserde fed token hvalid
    rw [hbetween]
    exact .between (spells.concat token) hfed

/-- A byte between tokens. -/
theorem Lexed.push_between (hserde : serde.Decides) (spells : Spells bytes tokens)
    (fed : (UsageJson.between [] none).feedAll serde tokens = some (UsageJson.between stack root))
    (byte : UInt8) :
  Lexed serde (bytes ++ [byte]) ((UsageJson.between stack root).pushBetween byte)
  := by
  by_cases hdigit : byte = 0x2D ∨ Number.isDigit byte = true
  · exact .pending spells fed (.open_number serde hdigit)
  by_cases hletter : byte = 0x74 ∨ byte = 0x66 ∨ byte = 0x6E
  · exact .pending spells fed (.open_literal serde hletter)
  rw [pushBetween]
  split
  · next hspace =>
      refine .between (spells.concat_space ?_) fed
      obtain rfl | rfl | rfl | rfl := hspace <;> rfl
  split
  · next hquote =>
      subst hquote
      exact .string spells fed (.open serde)
  split
  · next hopen =>
      obtain rfl | rfl := hopen
      · exact Lexed.token serde hserde spells fed .beginObject
      · exact Lexed.token serde hserde spells fed .beginArray
  split
  · next hclose =>
      obtain rfl | rfl := hclose
      · exact Lexed.token serde hserde spells fed .endObject
      · exact Lexed.token serde hserde spells fed .endArray
  split
  · next hcolon =>
      subst hcolon
      exact Lexed.token serde hserde spells fed .colon
  split
  · next hcomma =>
      subst hcomma
      exact Lexed.token serde hserde spells fed .comma
  exact .fault rfl

variable {s : UsageJson ν}

/-- A value does not make up for a fault. -/
theorem value_invalid (h : s.invalid = true) (value : Value ν) :
  (s.value value).invalid = true
  := by
  rw [UsageJson.value]
  split
  · rfl
  · split <;> exact h

/-- Nor does a byte. -/
theorem pushBetween_invalid (h : s.invalid = true) (byte : UInt8) :
  (s.pushBetween byte).invalid = true
  := by
  rw [pushBetween]
  split
  · exact h
  split
  · exact h
  split
  · rw [openContainer]
    split
    · rfl
    · exact h
  split
  · rw [closeContainer]
    split
    · rfl
    · dsimp only
      split
      · rfl
      · apply value_invalid
        exact h
  split
  · rw [pushColon]
    split
    · split
      · exact h
      · rfl
    · rfl
  split
  · rw [pushComma]
    split
    · split
      · exact h
      · rfl
    · rfl
  split
  · exact h
  split
  · exact h
  · rfl

theorem Lexed.push (hserde : serde.Decides) (h : Lexed serde bytes s) (byte : UInt8) :
  Lexed serde (bytes ++ [byte]) (s.push serde byte)
  := by
  cases h with
  | fault invalid =>
    apply Lexed.fault
    rw [UsageJson.push, if_pos invalid]
    exact invalid
  | between spells fed => exact Lexed.push_between serde hserde spells fed byte
  | @string bytes body tokens stack root s spells fed inside =>
    rw [List.append_assoc, List.cons_append]
    by_cases hclose : byte = 0x22 ∧ Scan.escaped body = false
    · obtain ⟨rfl, hescaped⟩ := hclose
      by_cases hbody : (decode body).isSome
      · rw [inside.close serde hserde ⟨body, hbody⟩]
        exact Lexed.token serde hserde spells fed (.string ⟨body, hbody⟩)
      · exact .fault (inside.close_invalid serde hserde hescaped hbody)
    · obtain hinside | ⟨-, hfault⟩ := inside.push serde hserde hclose
      · exact .string spells fed hinside
      · exact .fault hfault
  | @pending bytes text tokens stack root s spells fed inside =>
    cases hterminates : terminates byte with
    | false =>
      rw [List.append_assoc]
      obtain hinside | hfault := inside.push serde hterminates
      · exact .pending spells fed hinside
      · exact .fault hfault
    | true =>
      rw [inside.push_eq, if_pos hterminates]
      cases hvalid : (s.completeToken serde).invalid with
      | true => exact .fault (pushBetween_invalid hvalid byte)
      | false =>
        obtain ⟨token, rfl, hcomplete⟩ := inside.complete serde hserde hvalid
        rw [hcomplete] at hvalid ⊢
        obtain ⟨stack', root', hbetween, hfed⟩ :=
          feedAll_concat serde hserde fed token hvalid
        rw [hbetween]
        exact Lexed.push_between serde hserde (spells.concat token) hfed byte

theorem lexed_foldl (hserde : serde.Decides) (bytes : List UInt8) :
  Lexed serde bytes (bytes.foldl (push serde) default)
  := by
  induction bytes using List.reverseRecOn with
  | nil => exact .between (.done (by simp)) rfl
  | append_singleton bytes byte ih =>
    rw [List.foldl_append]
    exact ih.push serde hserde byte

variable {value : Value ν}

/-- What must hold at the end. -/
theorem finish_eq_some (h : s.finish serde = some value) :
  (s.push serde 0x20).invalid = false ∧ (s.push serde 0x20).string = false
    ∧ (s.push serde 0x20).stack = [] ∧ (s.push serde 0x20).root = some value
  := by
  rw [finish] at h
  split at h
  · cases h
  · next hvalid =>
      rw [not_or, not_or, not_not] at hvalid
      obtain ⟨hinvalid, hstring, hstack⟩ := hvalid
      exact ⟨Bool.eq_false_of_not_eq_true hinvalid, Bool.eq_false_of_not_eq_true hstring, hstack, h⟩

/-- Within a string, the parser is not done. -/
theorem InString.string_eq {body : List UInt8} (h : InString stack root body s) :
  s.string = true
  := by
  cases h
  rfl

/-- Whatever is accepted is spelled by the bytes. -/
theorem spells_of_read (hserde : serde.Decides) (h : read serde bytes = some value) :
  ∃ tokens, Spells bytes tokens
    ∧ (between [] none).feedAll serde tokens = some (between [] (some value))
  := by
  obtain ⟨hvalid, hstring, hstack, hroot⟩ := finish_eq_some serde h
  have hlexed := lexed_foldl serde hserde bytes
  generalize bytes.foldl (push serde) default = s at hvalid hstring hstack hroot hlexed
  cases hlexed with
  | fault invalid =>
    rw [push, if_pos invalid, invalid] at hvalid
    cases hvalid
  | @between bytes tokens stack root spells fed =>
    change stack = [] at hstack
    change root = some value at hroot
    rw [hstack, hroot] at fed
    exact ⟨tokens, spells, fed⟩
  | @string _ body _ _ _ _ spells fed inside =>
    have hopen : ¬ ((0x20 : UInt8) = 0x22 ∧ Scan.escaped body = false) := by simp
    obtain hinside | ⟨-, hfault⟩ := inside.push serde hserde hopen
    · rw [hinside.string_eq] at hstring
      cases hstring
    · rw [hfault] at hvalid
      cases hvalid
  | @pending bytes text tokens stack root s spells fed inside =>
    rw [inside.push_eq] at hvalid hstack hroot
    change (s.completeToken serde).invalid = false at hvalid
    change (s.completeToken serde).stack = [] at hstack
    change (s.completeToken serde).root = some value at hroot
    obtain ⟨token, rfl, hcomplete⟩ := inside.complete serde hserde hvalid
    rw [hcomplete] at hvalid hstack hroot
    obtain ⟨stack', root', hbetween, hfed⟩ := feedAll_concat serde hserde fed token hvalid
    rw [hbetween] at hstack hroot
    change stack' = [] at hstack
    change root' = some value at hroot
    rw [hstack, hroot] at hfed
    exact ⟨tokens ++ [token], spells.concat token, hfed⟩

/-! ### Whatever is spelled is read -/

theorem foldl_space {ws : List UInt8} (space : ∀ byte ∈ ws, isWhitespace byte = true) :
  ws.foldl (push serde) (between stack root) = between stack root
  := by
  induction ws with
  | nil => rfl
  | cons byte ws ih =>
    rw [List.forall_mem_cons] at space
    have hbyte : byte = 0x20 ∨ byte = 0x09 ∨ byte = 0x0D ∨ byte = 0x0A := by
      have hspace := space.1
      simp only [isWhitespace, Bool.or_eq_true, decide_eq_true_iff] at hspace
      tauto
    rw [List.foldl_cons]
    change ws.foldl (push serde) ((between stack root).pushBetween byte) = _
    rw [pushBetween, if_pos hbyte]
    exact ih space.2

/-- After a value, the parser expects neither a key, a colon nor a value. -/
theorem afterValue_eq_between (stack : List (Frame ν)) (root : Option (Value ν)) (value : Value ν) :
  ∃ stack' root', afterValue stack root value = between stack' root'
    ∧ (between stack' root').expectsValue = false
    ∧ ∀ frame frames, stack' = frame :: frames → frame.expect = .commaOrEnd
  := by
  cases stack with
  | nil => exact ⟨[], some value, rfl, rfl, by simp⟩
  | cons frame frames =>
    refine ⟨completed frame value :: frames, root, rfl, rfl, ?_⟩
    intro frame' frames' heq
    cases heq
    rfl

/-- After a value come a comma and the ends of containers only. -/
theorem feed_afterValue
    {token : Token} (h : (afterValue stack root value).feed serde token = some s) :
  token = .comma ∨ token = .endArray ∨ token = .endObject
  := by
  obtain ⟨-, hvalid⟩ := feed_valid serde h
  obtain ⟨stack', root', hbetween, hexpects, hframe⟩ := afterValue_eq_between stack root value
  rw [hbetween] at hvalid
  have hscalar : ∀ (segmented : Bool) (value' : Value ν),
      (({ between stack' root' with segmented := segmented }).scalar value').invalid ≠ false := by
    intro segmented value' hvalid
    obtain ⟨frame, frames, hstack, hkey, -⟩ | hexpects' := scalar_valid hvalid
    · rw [hframe frame frames hstack] at hkey
      simp at hkey
    · exact absurd (hexpects'.symm.trans hexpects) (by simp)
  have hopen : ∀ object, ((between stack' root').openContainer object).invalid ≠ false := by
    intro object hvalid
    have hexpects' := (openContainer_valid hvalid).1
    exact absurd (hexpects'.symm.trans hexpects) (by simp)
  cases token with
  | comma => exact .inl rfl
  | endArray => exact .inr (.inl rfl)
  | endObject => exact .inr (.inr rfl)
  | beginObject => exact absurd hvalid (hopen true)
  | beginArray => exact absurd hvalid (hopen false)
  | string body => exact absurd hvalid (hscalar _ _)
  | number text => exact absurd hvalid (hscalar false _)
  | literal value => exact absurd hvalid (hscalar false _)
  | colon =>
    exfalso
    cases stack' with
    | nil => cases hvalid
    | cons frame frames =>
      simp [tokenStep, pushColon, between, hframe frame frames rfl] at hvalid

/-- A number or a literal that is taken is a value. -/
theorem scalar_eq_afterValue (hvalue : ∀ key, value ≠ .string key)
    (hvalid : ((between stack root).scalar value).invalid = false) :
  (between stack root).scalar value = afterValue stack root value
  := by
  obtain ⟨_, _, _, _, ⟨key, hkey⟩ | hsegmented⟩ | hexpects := scalar_valid hvalid
  · exact absurd hkey (hvalue key)
  · cases hsegmented
  · exact scalar_between hexpects value

/-- Where tokens go on after a value, the next byte ends a number or a literal. -/
theorem terminates_of_spells (spells : Spells bytes tokens)
    (h : (afterValue stack root value).feedAll serde tokens = some s) :
  ∀ byte ∈ bytes.head?, terminates byte = true
  := by
  have hspace : ∀ {byte : UInt8}, isWhitespace byte = true → terminates byte = true := by
    intro byte hbyte
    simp only [isWhitespace, Bool.or_eq_true] at hbyte
    simp only [terminates, Bool.or_eq_true]
    tauto
  intro byte hbyte
  cases spells with
  | done space => exact hspace (space byte (List.mem_of_mem_head? hbyte))
  | @token ws bytes token tokens space later =>
    cases ws with
    | cons first ws =>
      cases hbyte
      exact hspace (space byte (by simp))
    | nil =>
      rw [feedAll_cons] at h
      obtain ⟨_, hfeed, -⟩ := Option.bind_eq_some_iff.mp h
      obtain rfl | rfl | rfl := feed_afterValue serde hfeed <;> cases hbyte <;> rfl

/-- Once the byte after a number or a literal is read, it is as if its token had been taken before
that byte. -/
theorem Pending.resume {text : List UInt8} (h : Pending stack root text s) {stack' : List (Frame ν)}
    {root' : Option (Value ν)} (hcomplete : s.completeToken serde = UsageJson.between stack' root')
    (hbytes : ∀ byte ∈ bytes.head?, terminates byte = true) :
  (bytes.foldl (UsageJson.push serde) s).push serde 0x20
    = (bytes.foldl (UsageJson.push serde) (UsageJson.between stack' root')).push serde 0x20
  := by
  cases bytes with
  | nil =>
    change s.push serde 0x20 = _
    rw [h.push_eq]
    change (s.completeToken serde).pushBetween 0x20 = _
    rw [hcomplete]
    rfl
  | cons byte bytes =>
    rw [List.foldl_cons, h.push_eq, if_pos (hbytes byte rfl), hcomplete]
    rfl

/-- The bytes of tokens that are taken lead to the state after them, once the last token is
complete. -/
theorem foldl_spells (hserde : serde.Decides) (spells : Spells bytes tokens) {before : List Token}
    (fed : (between [] none).feedAll serde before = some (between stack root))
    (later : (between stack root).feedAll serde tokens = some s) :
  (bytes.foldl (push serde) (between stack root)).push serde 0x20 = s
  := by
  induction spells generalizing before stack root with
  | done space =>
    cases later
    rw [foldl_space serde space]
    rfl
  | @token ws bytes token tokens space spells ih =>
    rw [feedAll_cons] at later
    obtain ⟨s', hfeed, hlater⟩ := Option.bind_eq_some_iff.mp later
    obtain ⟨rfl, hvalid⟩ := feed_valid serde hfeed
    obtain ⟨stack', root', hbetween, hfed⟩ := feedAll_concat serde hserde fed token hvalid
    -- what comes after a value ends it
    have hends : ∀ value,
        (between stack root).tokenStep serde token = afterValue stack root value →
        ∀ byte ∈ bytes.head?, terminates byte = true := by
      intro value hvalue
      rw [hvalue] at hlater
      exact terminates_of_spells serde spells hlater
    rw [hbetween] at hlater
    rw [List.foldl_append, List.foldl_append, foldl_space serde space, ← ih hfed hlater]
    cases token with
    | string body =>
      rw [Token.spelling, foldl_string serde hserde body, hbetween]
    | number text =>
      have hpending : Pending stack root text.val _ := .foldl_number serde text
      have hcomplete := (hpending.complete_number serde text).trans hbetween
      apply hpending.resume serde hcomplete
      exact hends _ (scalar_eq_afterValue (numberValue_ne_string serde hserde text) hvalid)
    | literal value =>
      have hpending : Pending stack root value.spelling _ := .foldl_literal serde value
      have hcomplete := (hpending.complete_literal serde hserde value).trans hbetween
      apply hpending.resume serde hcomplete
      exact hends _ (scalar_eq_afterValue (literalValue_ne_string value) hvalid)
    | _ =>
      rw [← hbetween]
      rfl

/-- What is spelled by the bytes, and taken, is accepted. -/
theorem read_of_spells (hserde : serde.Decides) (spells : Spells bytes tokens)
    (h : (between [] none).feedAll serde tokens = some (between [] (some value))) :
  read serde bytes = some value
  := by
  have hstart : (between [] none).feedAll serde [] = some (between [] none) := rfl
  have hend := foldl_spells serde hserde spells hstart h
  change finish serde (bytes.foldl (push serde) (between [] none)) = some value
  rw [finish, hend]
  rfl

/-- The bytes are accepted if they are a document that is not nested too deep, and only then. -/
theorem read_eq_some_iff (hserde : serde.Decides) (bytes : List UInt8) (value : Value ν) :
  read serde bytes = some value
    ↔ ∃ t : Tree, Spells bytes t.tokens ∧ t.depth ≤ MAX_DEPTH ∧ value = project serde .root t
  := by
  constructor
  · intro h
    obtain ⟨tokens, spells, hfed⟩ := spells_of_read serde hserde h
    obtain ⟨t, rfl, hdepth, rfl⟩ := (feedAll_eq_some_iff serde hserde tokens value).mp hfed
    exact ⟨t, spells, hdepth, rfl⟩
  · rintro ⟨t, spells, hdepth, rfl⟩
    apply read_of_spells serde hserde spells
    exact (feedAll_eq_some_iff serde hserde _ _).mpr ⟨t, rfl, hdepth, rfl⟩

/-- The bytes of one document that is not nested too deep lead to its projection, and any others to
nothing: whatever the strings, keys and numbers in it. -/
theorem read_projects (hserde : serde.Decides) (bytes : List UInt8) :
  (∀ t : Tree, Spells bytes t.tokens → t.depth ≤ MAX_DEPTH →
      read serde bytes = some (project serde .root t))
    ∧ ((¬ ∃ t : Tree, Spells bytes t.tokens ∧ t.depth ≤ MAX_DEPTH) → read serde bytes = none)
  := by
  constructor
  · intro t spells hdepth
    exact (read_eq_some_iff serde hserde bytes _).mpr ⟨t, spells, hdepth, rfl⟩
  · intro hnone
    cases hread : read serde bytes with
    | none => rfl
    | some value =>
        obtain ⟨t, spells, hdepth, -⟩ := (read_eq_some_iff serde hserde bytes value).mp hread
        exact absurd ⟨t, spells, hdepth⟩ hnone

end

/-! ### A decoder of strings, literals and natural numbers -/

/-- What stands between the quotes of a token. -/
def unquoted : List UInt8 → Option (List UInt8)
  | 0x22 :: rest => if rest.getLast? = some 0x22 then some rest.dropLast else none
  | _ => none

theorem unquoted_quoted (body : List UInt8) : unquoted (quoted body) = some body := by
  simp [unquoted, quoted]

theorem unquoted_cons {first : UInt8} (h : first ≠ 0x22) (rest : List UInt8) :
  unquoted (first :: rest) = none
  := by
  rw [unquoted]
  intro rest' heq
  exact h (List.cons.inj heq).1

/-- The value of decimal digits. -/
def decimal (digits : List UInt8) : ℕ :=
  digits.foldl (fun value digit => 10 * value + (digit.toNat - 0x30)) 0

/-- As `serde_json` does, on tokens that are a string, a literal or a natural number. -/
def naturals : SerdeJson ℕ where
  fromSliceValue token :=
    match unquoted token with
    | some body => (decode body).map .string
    | none =>
        if token = Literal.spelling .null then some .null
        else if token = Literal.spelling (.bool true) then some (.bool true)
        else if token = Literal.spelling (.bool false) then some (.bool false)
        else if token ≠ [] ∧ token.all Number.isDigit then some (.number (decimal token))
        else none
  fromSliceString token := (unquoted token).bind decode

theorem naturals_decides : naturals.Decides where
  value_string body := by
    simp only [naturals, unquoted_quoted]
  string_string body := by
    simp only [naturals, unquoted_quoted, Option.bind_some]
  value_null := rfl
  value_bool value := by
    cases value <;> rfl
  value_literal first token value letter _ h := by
    have hquote : first ≠ 0x22 := by
      rintro rfl
      exact absurd letter (by decide)
    simp only [naturals, unquoted_cons hquote] at h
    split at h
    · next heq => exact ⟨_, heq⟩
    split at h
    · next heq => exact ⟨_, heq⟩
    split at h
    · next heq => exact ⟨_, heq⟩
    split at h
    · next hdigits =>
        have hfirst : Number.isDigit first = true :=
          List.all_eq_true.mp hdigits.2 first (List.mem_cons_self ..)
        exact absurd (.inr hfirst) (not_digit_of_letter letter)
    · cases h
  value_number text value number h := by
    obtain ⟨first, rest, rfl, digit, -⟩ := (Number.isNumber_iff text).mp number
    have hquote : first ≠ 0x22 := by
      rintro rfl
      exact absurd digit (by decide)
    have hletter : ∀ literal, first :: rest ≠ Literal.spelling literal := by
      intro literal heq
      obtain ⟨first', rest', hspelling, letter, -, -⟩ := literal_eq_cons literal
      rw [hspelling] at heq
      rw [← (List.cons.inj heq).1] at letter
      exact not_digit_of_letter letter digit
    simp only [naturals, unquoted_cons hquote, hletter, if_false] at h
    split at h
    · cases h
      exact ⟨_, rfl⟩
    · cases h

/-- The document `{"usage":{"input_tokens":3}}`. -/
def usageOfThree : Tree :=
  .object [(⟨[0x75, 0x73, 0x61, 0x67, 0x65], by decide +kernel⟩,
    .object [(⟨[0x69, 0x6E, 0x70, 0x75, 0x74, 0x5F, 0x74, 0x6F, 0x6B, 0x65, 0x6E, 0x73],
      by decide +kernel⟩,
      .number ⟨[0x33], [], [0x33], [], [], .inl rfl, .digits (by decide) (by simp), .none, .none,
        rfl⟩)])]

theorem read_projects_usage :
  read naturals
      [0x7B, 0x22, 0x75, 0x73, 0x61, 0x67, 0x65, 0x22, 0x3A, 0x7B, 0x22, 0x69, 0x6E, 0x70, 0x75,
        0x74, 0x5F, 0x74, 0x6F, 0x6B, 0x65, 0x6E, 0x73, 0x22, 0x3A, 0x33, 0x7D, 0x7D]
    = some (.object [("usage", .object [("input_tokens", .number 3)])])
  := by
  have hspells := Spells.of_tokens usageOfThree.tokens
  have hread := (read_projects naturals naturals_decides _).1 usageOfThree hspells (by decide)
  apply hread.trans
  rfl

end UsageJson

end Lazybox
