import Lazybox.GitOps.Diff

/-!
# The names in diffs

What is printed in quotes is read back: a quotation mark ends it, and its escapes are the bytes
again.  The line a file begins with is read as the path of the file exactly if both of its names are
in quotes, or neither is and the path has nothing in it that looks like the start of a name.  The
line before the content is always read as the path.
-/

namespace Lazybox.Diff

open WorkingClaim (Text stripPrefix)
open scoped WorkingClaim
open Utf8Lossy (fromUtf8Lossy encode)

variable {quotePath : Bool}

/-! ### Escapes -/

variable {b : UInt8}

theorem unescapeLetter_of_escapeLetter {letter : UInt8} (h : escapeLetter b = some letter) :
  unescapeLetter letter = some b
  := by
  rw [escapeLetter] at h
  split_ifs at h
  all_goals
    obtain rfl := Option.some.inj h
    subst b
    rfl

theorem unescapeLetter_of_isOctal (h : IsOctal b) :
  unescapeLetter b = none
  := by
  rw [IsOctal, UInt8.le_iff_toNat_le, UInt8.le_iff_toNat_le] at h
  have hne {d : UInt8} (hd : d.toNat < 0x30 ∨ 0x37 < d.toNat) : b ≠ d := by
    rintro rfl
    have hlow : UInt8.toNat 0x30 = 0x30 := rfl
    have hhigh : UInt8.toNat 0x37 = 0x37 := rfl
    omega
  rw [unescapeLetter, if_neg, if_neg, if_neg, if_neg, if_neg, if_neg, if_neg, if_neg, if_neg] <;>
    exact hne (by decide)

theorem decode_octal (value : UInt8) (rest : Bytes) :
  decode (.octal value 3) rest = (decode .plain rest).map (value :: ·)
  := by
  cases rest with
  | nil => rfl
  | cons b rest =>
    rw [decode, decode, if_neg (by simp)]
    split_ifs
    · rfl
    · rw [Option.map_map]
      rfl

/-- The digits of a byte. -/
theorem octal_digits (b : UInt8) :
  IsOctal (0x30 + b / 64) ∧ IsOctal (0x30 + b / 8 % 8) ∧ IsOctal (0x30 + b % 8)
    ∧ ((0x30 + b / 64 - 0x30) * 8 + (0x30 + b / 8 % 8 - 0x30)) * 8 + (0x30 + b % 8 - 0x30) = b
  := by
  have hlow : UInt8.toNat 0x30 = 0x30 := rfl
  have hhigh : UInt8.toNat 0x37 = 0x37 := rfl
  have height : UInt8.toNat 8 = 8 := rfl
  have hsixtyfour : UInt8.toNat 64 = 64 := rfl
  have hb := b.toNat_lt
  rw [← UInt8.toNat_inj]
  simp only [IsOctal, UInt8.le_iff_toNat_le, UInt8.toNat_add, UInt8.toNat_div, UInt8.toNat_mod,
    UInt8.toNat_sub, UInt8.toNat_mul, hlow, hhigh, height, hsixtyfour]
  omega

theorem decode_escape (b : UInt8) (rest : Bytes) :
  decode .plain (escape quotePath b ++ rest) = (decode .plain rest).map (b :: ·)
  := by
  rw [escape]
  split_ifs with hquote
  · cases hletter : escapeLetter b with
    | some letter =>
      have hback := unescapeLetter_of_escapeLetter hletter
      simp only [List.cons_append, List.nil_append]
      rw [decode, if_pos rfl, decode, hback]
    | none =>
      obtain ⟨hfirst, hsecond, hthird, hvalue⟩ := octal_digits b
      simp only [List.cons_append, List.nil_append]
      rw [decode, if_pos rfl, decode, unescapeLetter_of_isOctal hfirst]
      simp only [if_pos hfirst]
      rw [decode, if_pos ⟨by decide, hsecond⟩, decode, if_pos ⟨by decide, hthird⟩, hvalue,
        decode_octal]
  · have hne : b ≠ 0x5c := by
      rintro rfl
      exact hquote rfl
    rw [List.singleton_append, decode, if_neg hne]

/-- Escaped bytes are the bytes again. -/
theorem decode_flatMap_escape (bytes : Bytes) :
  decode .plain (bytes.flatMap (escape quotePath)) = some bytes
  := by
  induction bytes with
  | nil => rfl
  | cons b bytes ih => rw [List.flatMap_cons, decode_escape, ih, Option.map_some]

theorem IsOctal.lt (h : IsOctal b) :
  b < 0x80
  := UInt8.lt_of_le_of_lt h.2 (by decide)

theorem IsOctal.ne (h : IsOctal b) :
  b ≠ 0x22 ∧ b ≠ 0x5c
  := by
  constructor <;>
    rintro rfl <;>
    revert h <;>
    decide

theorem ne_of_not_mustQuote (h : mustQuote quotePath b = false) :
  b ≠ 0x22 ∧ b ≠ 0x5c
  := by
  constructor <;>
    rintro rfl <;>
    contradiction

/-- A byte is printed as it is, or as a backslash, a character and perhaps digits. -/
theorem escape_cases (quotePath : Bool) (b : UInt8) :
  escape quotePath b = [b] ∧ mustQuote quotePath b = false
    ∨ ∃ d ds, escape quotePath b = 0x5c :: d :: ds ∧ (0x21 ≤ d ∧ d < 0x7f) ∧ ∀ x ∈ ds, IsOctal x
  := by
  rw [escape]
  cases hquote : mustQuote quotePath b with
  | false =>
    left
    rw [if_neg Bool.false_ne_true]
    exact ⟨rfl, rfl⟩
  | true =>
    right
    rw [if_pos rfl]
    cases hletter : escapeLetter b with
    | some letter =>
      use letter, [], rfl
      constructor
      · rw [escapeLetter] at hletter
        split_ifs at hletter
        all_goals
          obtain rfl := Option.some.inj hletter
          decide
      · simp
    | none =>
      obtain ⟨hfirst, hsecond, hthird, -⟩ := octal_digits b
      use 0x30 + b / 64, [0x30 + b / 8 % 8, 0x30 + b % 8], rfl
      constructor
      · constructor
        · apply UInt8.le_trans _ hfirst.1
          decide
        · apply UInt8.lt_of_le_of_lt hfirst.2
          decide
      · simp [hsecond, hthird]

/-! ### Tokens -/

/-- A text that leaves the search for a quotation mark where it was. -/
def Balanced (s : Text) : Prop :=
  ∀ rest, closing false (s ++ rest) = (closing false rest).map (Prod.map (s ++ ·) id)

theorem Balanced.nil :
  Balanced []
  := by
  intro rest
  rw [List.nil_append]
  cases closing false rest <;> rfl

variable {s : Text}

theorem Balanced.append {t : Text} (hs : Balanced s) (ht : Balanced t) :
  Balanced (s ++ t)
  := by
  intro rest
  rw [List.append_assoc, hs, ht, Option.map_map]
  congr 1
  funext pair
  simp [Prod.map]

theorem balanced_singleton {c : Char} (hquote : c ≠ '"') (hescape : c ≠ '\\') :
  Balanced [c]
  := by
  intro rest
  rw [List.singleton_append, closing, if_neg hquote, decide_eq_false hescape]
  rfl

theorem balanced_of_notMem (hquote : '"' ∉ s) (hescape : '\\' ∉ s) :
  Balanced s
  := by
  induction s with
  | nil => exact Balanced.nil
  | cons c s ih =>
    rw [List.mem_cons, not_or] at hquote hescape
    have hc := balanced_singleton (Ne.symm hquote.1) (Ne.symm hescape.1)
    exact hc.append (ih hquote.2 hescape.2)

theorem balanced_escape (c : Char) :
  Balanced ['\\', c]
  := by
  intro rest
  rw [List.cons_append, List.singleton_append, closing, if_neg (by decide),
    decide_eq_true rfl, closing, Option.map_map]
  rfl

/-- No character that is read from bytes is an ASCII character which is none of them. -/
theorem notMem_fromUtf8Lossy {c : Char} (hc : c.toNat < 0x80) {bytes : Bytes}
    (h : ∀ b ∈ bytes, b.toNat ≠ c.toNat) :
  c ∉ fromUtf8Lossy bytes
  := by
  intro hmem
  obtain ⟨b, hb, hvalue⟩ := Utf8Lossy.exists_of_mem_fromUtf8Lossy hc hmem
  exact h b hb hvalue

theorem balanced_fromUtf8Lossy {bytes : Bytes} (h : ∀ b ∈ bytes, b ≠ 0x22 ∧ b ≠ 0x5c) :
  Balanced (fromUtf8Lossy bytes)
  := by
  apply balanced_of_notMem
  · apply notMem_fromUtf8Lossy (by decide)
    intro b hb hvalue
    exact (h b hb).1 (UInt8.toNat_inj.mp hvalue)
  · apply notMem_fromUtf8Lossy (by decide)
    intro b hb hvalue
    exact (h b hb).2 (UInt8.toNat_inj.mp hvalue)

/-- The escaped bytes of a path, after some that are no ASCII characters. -/
theorem balanced_escaped {run : Bytes} (hrun : ∀ b ∈ run, 0x80 ≤ b) (bytes : Bytes) :
  Balanced (fromUtf8Lossy (run ++ bytes.flatMap (escape quotePath)))
  := by
  have hhigh {b : UInt8} (hb : 0x80 ≤ b) : b ≠ 0x22 ∧ b ≠ 0x5c := by
    constructor
    · rintro rfl
      contradiction
    · rintro rfl
      contradiction
  induction bytes generalizing run with
  | nil =>
    rw [List.flatMap_nil, List.append_nil]
    apply balanced_fromUtf8Lossy
    intro b hb
    exact hhigh (hrun b hb)
  | cons b bytes ih =>
    rw [List.flatMap_cons]
    have hrest := @ih [] (by simp)
    rw [List.nil_append] at hrest
    have hrunBalanced : Balanced (fromUtf8Lossy run) := by
      apply balanced_fromUtf8Lossy
      intro b hb
      exact hhigh (hrun b hb)
    obtain ⟨hescape, hquote⟩ | ⟨d, ds, hescape, hd, hds⟩ := escape_cases quotePath b
    · have hb : b ≠ 0x22 ∧ b ≠ 0x5c := ne_of_not_mustQuote hquote
      rw [hescape]
      by_cases hascii : b < 0x80
      · rw [Utf8Lossy.fromUtf8Lossy_append _ (by simpa using hascii), List.singleton_append,
          Utf8Lossy.fromUtf8Lossy_cons hascii, ← List.singleton_append]
        apply hrunBalanced.append (Balanced.append _ hrest)
        have hone : fromUtf8Lossy [b] = [.ofNat b.toNat] := Utf8Lossy.fromUtf8Lossy_cons hascii []
        rw [← hone]
        apply balanced_fromUtf8Lossy
        simpa using hb
      · rw [← List.append_assoc]
        apply ih
        intro x hx
        obtain hx | hx := List.mem_append.mp hx
        · exact hrun x hx
        · rw [List.mem_singleton.mp hx]
          exact UInt8.not_lt.mp hascii
    · have hdascii : d < 0x80 := UInt8.lt_trans hd.2 (by decide)
      have hdsascii : ∀ x ∈ ds, x < 0x80 := fun x hx => (hds x hx).lt
      rw [hescape, Utf8Lossy.fromUtf8Lossy_append _ (by simp), List.cons_append,
        List.cons_append, Utf8Lossy.fromUtf8Lossy_cons (by decide),
        Utf8Lossy.fromUtf8Lossy_cons hdascii,
        (Utf8Lossy.isText_ascii hdsascii).fromUtf8Lossy_append]
      apply hrunBalanced.append
      apply (balanced_escape _).append (Balanced.append _ hrest)
      apply balanced_fromUtf8Lossy
      intro x hx
      exact (hds x hx).ne

/-! ### Escaped texts -/

theorem not_mustQuote_of_le (h : 0x80 ≤ b) :
  mustQuote false b = false
  := by
  have hlow : ¬b < 0x20 := UInt8.not_lt.mpr (UInt8.le_trans (by decide) h)
  have hne {d : UInt8} (hd : ¬0x80 ≤ d) : b ≠ d := by
    rintro rfl
    exact hd h
  simp [mustQuote, hlow, hne (show ¬0x80 ≤ 0x22 by decide), hne (show ¬0x80 ≤ 0x5c by decide),
    hne (show ¬0x80 ≤ 0x7f by decide)]

/-- What is escaped has no space. -/
theorem graphic_of_mem_escape (h : mustQuote quotePath b = true) :
  ∃ w, escape quotePath b = 0x5c :: w ∧ ∀ x ∈ w, 0x21 ≤ x ∧ x < 0x80
  := by
  obtain ⟨-, hquote⟩ | ⟨d, ds, hescape, hd, hds⟩ := escape_cases quotePath b
  · rw [h] at hquote
    contradiction
  · use d :: ds, hescape
    rw [List.forall_mem_cons]
    constructor
    · exact ⟨hd.1, UInt8.lt_trans hd.2 (by decide)⟩
    · intro x hx
      exact ⟨UInt8.le_trans (by decide) (hds x hx).1, (hds x hx).lt⟩

/-- A character is printed as it is, or as a backslash and characters that are no spaces. -/
theorem escapeChar_cases (quotePath : Bool) (c : Char) :
  (String.utf8EncodeChar c).flatMap (escape quotePath) = String.utf8EncodeChar c
    ∨ ∃ w, (String.utf8EncodeChar c).flatMap (escape quotePath) = 0x5c :: w
      ∧ ∀ x ∈ w, 0x21 ≤ x ∧ x < 0x80
  := by
  by_cases hc : c.toNat < 0x80
  · have hlength := congrArg List.length (Utf8Lossy.encodeChar_of_ascii hc)
    rw [List.length_map] at hlength
    obtain ⟨b, hb⟩ := List.length_eq_one_iff.mp hlength
    rw [hb, List.flatMap_singleton]
    cases hquote : mustQuote quotePath b with
    | false =>
      left
      rw [escape, if_neg (ne_true_of_eq_false hquote)]
    | true =>
      right
      exact graphic_of_mem_escape hquote
  · have hhigh {b : UInt8} : b ∈ String.utf8EncodeChar c → 0x80 ≤ b :=
      Utf8Lossy.le_of_mem_encodeChar (Nat.le_of_not_lt hc)
    cases quotePath with
    | false =>
      left
      have hescape : ∀ b ∈ String.utf8EncodeChar c, escape false b = [b] := by
        intro b hb
        rw [escape, if_neg (ne_true_of_eq_false (not_mustQuote_of_le (hhigh hb)))]
      rw [List.flatMap_congr hescape, List.flatMap_singleton']
    | true =>
      right
      have hquote {b : UInt8} (hb : b ∈ String.utf8EncodeChar c) : mustQuote true b = true := by
        simp [mustQuote, hhigh hb]
      obtain ⟨b, bs, hbs⟩ :=
        List.exists_cons_of_ne_nil (@String.utf8EncodeChar_ne_nil c)
      rw [hbs] at hquote ⊢
      obtain ⟨w, hw, hgraphic⟩ := graphic_of_mem_escape (hquote List.mem_cons_self)
      use w ++ bs.flatMap (escape true)
      rw [List.flatMap_cons, hw]
      use rfl
      intro x hx
      obtain hx | hx := List.mem_append.mp hx
      · exact hgraphic x hx
      · obtain ⟨b', hb', hx⟩ := List.mem_flatMap.mp hx
        obtain ⟨w', hw', hgraphic'⟩ :=
          graphic_of_mem_escape (hquote (List.mem_cons_of_mem _ hb'))
        rw [hw'] at hx
        obtain rfl | hx := List.mem_cons.mp hx
        · decide
        · exact hgraphic' x hx

/-- What is printed for a character in quotes. -/
def escapedChar (quotePath : Bool) (c : Char) : Text :=
  fromUtf8Lossy ((String.utf8EncodeChar c).flatMap (escape quotePath))

theorem escapedChar_cases (quotePath : Bool) (c : Char) :
  Utf8Lossy.IsText ((String.utf8EncodeChar c).flatMap (escape quotePath))
    ∧ (escapedChar quotePath c = [c] ∨ ∃ w, escapedChar quotePath c = '\\' :: w ∧ ' ' ∉ w)
  := by
  obtain hsame | ⟨w, hw, hgraphic⟩ := escapeChar_cases quotePath c
  · rw [escapedChar, hsame]
    have hone : encode [c] = String.utf8EncodeChar c := List.flatMap_singleton ..
    constructor
    · use [c]
    · left
      rw [← hone, Utf8Lossy.fromUtf8Lossy_encode]
  · rw [escapedChar, hw]
    constructor
    · apply Utf8Lossy.isText_ascii
      rw [List.forall_mem_cons]
      use by decide
      intro x hx
      exact (hgraphic x hx).2
    · right
      use fromUtf8Lossy w
      rw [Utf8Lossy.fromUtf8Lossy_cons (by decide)]
      use rfl
      apply notMem_fromUtf8Lossy (by decide)
      intro x hx hvalue
      obtain rfl : x = 0x20 := UInt8.toNat_inj.mp hvalue
      exact absurd (hgraphic _ hx).1 (by decide)

/-- A text is escaped character by character. -/
theorem escaped_encode (text : Text) :
  Utf8Lossy.IsText ((encode text).flatMap (escape quotePath))
    ∧ fromUtf8Lossy ((encode text).flatMap (escape quotePath))
      = text.flatMap (escapedChar quotePath)
  := by
  induction text with
  | nil => exact ⟨⟨[], rfl⟩, rfl⟩
  | cons c text ih =>
    have hc := (escapedChar_cases quotePath c).1
    have hcons : encode (c :: text) = String.utf8EncodeChar c ++ encode text := rfl
    rw [hcons, List.flatMap_append]
    use hc.append ih.1
    rw [hc.fromUtf8Lossy_append, ih.2]
    rfl

/-! ### Names -/

namespace Path

/-- The path, as text. -/
def text (path : Path) : Text := fromUtf8Lossy path.bytes

/-- The path in quotes. -/
def escaped (quotePath : Bool) (path : Path) : Text :=
  fromUtf8Lossy (path.bytes.flatMap (escape quotePath))

/-- The path with its side, in quotes. -/
def token (quotePath : Bool) (path : Path) (side : String) : Text :=
  '"' :: (side.toList ++ path.escaped quotePath ++ ['"'])

theorem fromUtf8Lossy_printed (path : Path) (side : String) :
  fromUtf8Lossy (path.printed quotePath side)
    = if path.quoted quotePath then path.token quotePath side else side.toList ++ path.text
  := by
  rw [printed]
  split_ifs
  · rw [Utf8Lossy.fromUtf8Lossy_cons (by decide), List.append_assoc,
      Utf8Lossy.fromUtf8Lossy_encode_append, Utf8Lossy.fromUtf8Lossy_append _ (by simp),
      token, List.append_assoc]
    rfl
  · rw [Utf8Lossy.fromUtf8Lossy_encode_append, text]

theorem balanced_escaped (path : Path) :
  Balanced (path.escaped quotePath)
  := by
  exact @Diff.balanced_escaped quotePath [] (by simp) path.bytes

/-- A quoted name is taken whole. -/
theorem takeQuotedToken_token (path : Path) {side : String} (hside : Balanced side.toList)
    (rest : Text) :
  takeQuotedToken (path.token quotePath side ++ rest) = some (path.token quotePath side, rest)
  := by
  rw [token, List.cons_append, List.append_assoc, takeQuotedToken, if_pos rfl,
    hside.append path.balanced_escaped, List.singleton_append, closing, if_pos rfl]
  rfl

theorem decodeGitPath_token {path : Path} (h : Utf8Lossy.IsText path.bytes) :
  decodeGitPath (path.token quotePath "b/") = some ("b/".toList ++ path.text)
  := by
  have hescaped : Utf8Lossy.IsText (path.bytes.flatMap (escape quotePath)) := by
    obtain ⟨text, htext⟩ := h
    rw [← htext]
    exact (escaped_encode text).1
  have hunquote : unquote (path.token quotePath "b/")
      = some ("b/".toList ++ path.escaped quotePath) := by
    rw [token, unquote, List.getLast?_concat, if_pos rfl, List.dropLast_concat]
  have hbytes : encode ("b/".toList ++ path.escaped quotePath)
      = 0x62 :: 0x2f :: path.bytes.flatMap (escape quotePath) := by
    rw [Utf8Lossy.encode_append, escaped, Utf8Lossy.encode_fromUtf8Lossy hescaped]
    rfl
  have hread : decode .plain (encode ("b/".toList ++ path.escaped quotePath))
      = some (encode "b/".toList ++ path.bytes) := by
    rw [hbytes, decode, if_neg (by decide), decode, if_neg (by decide), decode_flatMap_escape]
    rfl
  have hquote : ¬(path.token quotePath "b/").head? ≠ some '"' := by simp [token]
  rw [decodeGitPath, if_neg hquote, hunquote]
  simp only [Option.bind_eq_bind, Option.bind_some]
  rw [hread]
  simp only [Option.bind_some]
  rw [Utf8Lossy.fromUtf8Lossy_encode_append]
  rfl

end Path

theorem normalizeDiffPath_of_decode {source path : Text}
    (h : decodeGitPath source = some ("b/".toList ++ path)) :
  normalizeDiffPath source = some path
  := by
  have hnull : "b/".toList ++ path ≠ "/dev/null".toList := by
    intro heq
    have hhead := congrArg List.head? heq
    simp at hhead
  have hold : stripPrefix "a/".toList ("b/".toList ++ path) = none := by
    simp [stripPrefix]
  have hnew : stripPrefix "b/".toList ("b/".toList ++ path) = some path := by
    rw [stripPrefix, if_pos (List.prefix_append _ _), List.drop_left]
  rw [normalizeDiffPath, h]
  simp only [Option.bind_eq_bind, Option.bind_some]
  rw [if_neg hnull, hold, hnew]
  rfl

theorem normalizeDiffPath_plain (path : Text) :
  normalizeDiffPath ("b/".toList ++ path) = some path
  := by
  apply normalizeDiffPath_of_decode
  rw [decodeGitPath, if_pos]
  simp

/-! ### The last separator -/

section Separator

variable {separator : Text} (hseparator : separator ≠ [])

include hseparator

theorem afterLast_eq_none_iff (s : Text) :
  afterLast separator s = none ↔ ¬separator <:+: s
  := by
  induction s with
  | nil =>
    rw [List.infix_nil]
    exact iff_of_true rfl hseparator
  | cons c s ih =>
    rw [afterLast, List.infix_cons_iff, not_or, ← ih]
    cases hlast : afterLast separator s with
    | some rest => simp
    | none => simp [stripPrefix]

/-- What follows the last separator has none. -/
theorem of_afterLast_eq_some {s rest : Text} (h : afterLast separator s = some rest) :
  separator ++ rest <:+ s ∧ ¬separator <:+: rest
  := by
  induction s with
  | nil => cases h
  | cons c s ih =>
    rw [afterLast] at h
    cases hlast : afterLast separator s with
    | some rest' =>
      rw [hlast] at h ih
      obtain ⟨hsuffix, hrest⟩ := ih h
      exact ⟨hsuffix.trans (List.suffix_cons c s), hrest⟩
    | none =>
      simp only [hlast, stripPrefix] at h
      split_ifs at h with hstart
      obtain rfl := Option.some.inj h
      obtain ⟨rest, hrest⟩ := hstart
      rw [← hrest, List.drop_left]
      use List.suffix_rfl
      rw [afterLast_eq_none_iff hseparator] at hlast
      intro hinfix
      apply hlast
      apply hinfix.trans
      obtain ⟨d, separator, rfl⟩ := List.exists_cons_of_ne_nil hseparator
      rw [List.cons_append, List.cons.injEq] at hrest
      rw [← hrest.2]
      exact (List.suffix_append _ _).isInfix

end Separator

theorem afterLast_append (separator before : Text) {rest : Text}
    (h : afterLast separator s = some rest) :
  afterLast separator (before ++ s) = some rest
  := by
  induction before with
  | nil => exact h
  | cons c before ih => rw [List.cons_append, afterLast, ih]

theorem infix_side_iff (s : Text) :
  " b/".toList <:+: "b/".toList ++ s ↔ " b/".toList <:+: s
  := by
  simp [List.infix_cons_iff]

/-- The path after the last separator, where it has no separator. -/
theorem afterLast_path (before : Text) {path : Text} (h : ¬" b/".toList <:+: path) :
  afterLast " b/".toList (before ++ ' ' :: ("b/".toList ++ path)) = some path
  := by
  apply afterLast_append
  rw [← infix_side_iff, ← afterLast_eq_none_iff (by simp)] at h
  rw [afterLast, h]
  rfl

/-- Escapes make no text that has no backslash. -/
theorem prefix_of_prefix_escaped {text : Text} (hs : '\\' ∉ s)
    (h : s <+: text.flatMap (escapedChar quotePath)) :
  s <+: text
  := by
  induction s generalizing text with
  | nil => exact List.nil_prefix
  | cons c s ih =>
    rw [List.mem_cons, not_or] at hs
    cases text with
    | nil => simp at h
    | cons d text =>
      rw [List.flatMap_cons] at h
      obtain ⟨-, hsame | ⟨w, hw, -⟩⟩ := escapedChar_cases quotePath d
      · rw [hsame, List.singleton_append, List.cons_prefix_cons] at h
        rw [List.cons_prefix_cons]
        exact ⟨h.1, ih hs.2 h.2⟩
      · rw [hw, List.cons_append, List.cons_prefix_cons] at h
        exact absurd h.1.symm hs.1

theorem infix_of_infix_append {c : Char} {before after : Text} (hc : c ∉ before)
    (h : c :: s <:+: before ++ after) :
  c :: s <:+: after
  := by
  induction before with
  | nil => exact h
  | cons d before ih =>
    rw [List.mem_cons, not_or] at hc
    obtain h | h := List.infix_cons_iff.mp h
    · exact absurd (List.cons_prefix_cons.mp h).1 hc.1
    · exact ih hc.2 h

theorem infix_of_infix_escaped {text : Text} (hs : '\\' ∉ s)
    (h : ' ' :: s <:+: text.flatMap (escapedChar quotePath)) :
  ' ' :: s <:+: text
  := by
  have hspace : '\\' ∉ ' ' :: s := by simp [hs]
  induction text with
  | nil => simp at h
  | cons d text ih =>
    rw [List.flatMap_cons] at h
    obtain ⟨-, hsame | ⟨w, hw, hnone⟩⟩ := escapedChar_cases quotePath d
    · rw [hsame, List.singleton_append] at h
      obtain hstart | h := List.infix_cons_iff.mp h
      · apply List.IsPrefix.isInfix
        apply @prefix_of_prefix_escaped quotePath _ _ hspace
        rwa [List.flatMap_cons, hsame, List.singleton_append]
      · exact List.infix_cons (ih h)
    · apply List.infix_cons
      apply ih
      apply infix_of_infix_append _ h
      rw [hw]
      simp [hnone]

theorem length_le_escaped (text : Text) :
  text.length ≤ (text.flatMap (escapedChar quotePath)).length
  := by
  induction text with
  | nil => rfl
  | cons c text ih =>
    rw [List.flatMap_cons, List.length_cons, List.length_append]
    obtain ⟨-, hsame | ⟨w, hw, -⟩⟩ := escapedChar_cases quotePath c
    · rw [hsame, List.length_singleton]
      omega
    · rw [hw, List.length_cons]
      omega

/-! ### The line a file begins with -/

theorem stripPrefix_append (before s : Text) :
  stripPrefix before (before ++ s) = some s
  := by
  rw [stripPrefix, if_pos (List.prefix_append _ _), List.drop_left]

theorem balanced_side (side : String) (h : side = "a/" ∨ side = "b/") :
  Balanced side.toList
  := by
  obtain rfl | rfl := h <;>
    apply balanced_of_notMem <;>
    decide

theorem dropWhile_space_token (path : Path) :
  (' ' :: path.token quotePath "b/").dropWhile isWhiteSpace = path.token quotePath "b/"
  := by
  rw [List.dropWhile_cons_of_pos (by decide), Path.token, List.dropWhile_cons_of_neg (by decide)]

theorem diffHeaderPath_of_quoted {paths : Text} (h : paths.head? = some '"') :
  diffHeaderPath ("diff --git ".toList ++ paths)
    = (takeQuotedToken paths).bind fun token =>
      (takeQuotedToken (token.2.dropWhile isWhiteSpace)).bind fun token =>
        normalizeDiffPath token.1
  := by
  rw [diffHeaderPath, stripPrefix_append]
  simp only [Option.bind_eq_bind, Option.bind_some]
  rw [if_pos h]

theorem diffHeaderPath_of_plain {paths : Text} (h : paths.head? ≠ some '"') :
  diffHeaderPath ("diff --git ".toList ++ paths) = afterLast " b/".toList paths
  := by
  rw [diffHeaderPath, stripPrefix_append]
  simp only [Option.bind_eq_bind, Option.bind_some]
  rw [if_neg h]

namespace Kind

/-- The two names of the line a file begins with. -/
def names (quotePath : Bool) (kind : Kind) : Text :=
  fromUtf8Lossy (kind.old.printed quotePath "a/")
    ++ ' ' :: fromUtf8Lossy (kind.new.printed quotePath "b/")

theorem diffHeaderPath_of_old_quoted {kind : Kind} (h : kind.old.quoted quotePath = true) :
  diffHeaderPath ("diff --git ".toList ++ kind.names quotePath)
    = if kind.new.quoted quotePath then normalizeDiffPath (kind.new.token quotePath "b/")
      else none
  := by
  have hold : fromUtf8Lossy (kind.old.printed quotePath "a/") = kind.old.token quotePath "a/" := by
    rw [Path.fromUtf8Lossy_printed, if_pos h]
  rw [names, hold, diffHeaderPath_of_quoted (by simp [Path.token]),
    Path.takeQuotedToken_token _ (balanced_side _ (.inl rfl)), Option.bind_some,
    Path.fromUtf8Lossy_printed]
  split_ifs with hnew
  · have htoken := @Path.takeQuotedToken_token quotePath kind.new _ (balanced_side _ (.inr rfl)) []
    rw [List.append_nil] at htoken
    rw [dropWhile_space_token, htoken, Option.bind_some]
  · rfl

theorem diffHeaderPath_of_old_plain {kind : Kind} (h : kind.old.quoted quotePath = false) :
  diffHeaderPath ("diff --git ".toList ++ kind.names quotePath)
    = afterLast " b/".toList ("a/".toList ++ kind.old.text
      ++ ' ' :: fromUtf8Lossy (kind.new.printed quotePath "b/"))
  := by
  have hold : fromUtf8Lossy (kind.old.printed quotePath "a/")
      = "a/".toList ++ kind.old.text := by
    rw [Path.fromUtf8Lossy_printed, if_neg (ne_true_of_eq_false h)]
  rw [names, hold, diffHeaderPath_of_plain (by simp)]

variable {path : Text}

/-- A line whose last name is in quotes does not end in a separator and that name. -/
theorem not_suffix_escaped (before : Text) (hpath : path ≠ []) (hnone : ¬" b/".toList <:+: path) :
  ¬" b/".toList ++ path
    <:+ before ++ ("b/".toList ++ (path.flatMap (escapedChar quotePath) ++ ['"']))
  := by
  intro h
  have hlength := @length_le_escaped quotePath path
  generalize hescaped : path.flatMap (escapedChar quotePath) = escaped at h hlength
  have htoken := List.suffix_of_suffix_length_le h (List.suffix_append before _) (by simpa)
  have hrest : " b/".toList ++ path <:+ escaped ++ ['"'] := by
    simpa [List.suffix_cons_iff] using htoken
  obtain hnil | ⟨rest, hrest, hsuffix⟩ := List.suffix_concat_iff.mp hrest
  · simp at hnil
  · have hsplit : rest = " b/".toList ++ path.dropLast := by
      have hdrop := congrArg List.dropLast hrest
      rw [List.dropLast_concat, List.dropLast_append_of_ne_nil hpath] at hdrop
      exact hdrop.symm
    apply hnone
    apply @infix_of_infix_escaped quotePath _ _ (by decide)
    rw [hescaped]
    apply (List.prefix_append _ path.dropLast).isInfix.trans
    rw [hsplit] at hsuffix
    exact hsuffix.isInfix

/-- Where only the last name is in quotes, another is read. -/
theorem afterLast_names_ne {kind : Kind} (hpath : encode path = kind.new.bytes)
    (hnew : kind.new.quoted quotePath = true) :
  afterLast " b/".toList ("a/".toList ++ kind.old.text
      ++ ' ' :: fromUtf8Lossy (kind.new.printed quotePath "b/"))
    ≠ some path
  := by
  intro h
  obtain ⟨hsuffix, hnone⟩ := of_afterLast_eq_some (by simp) h
  have hescaped : kind.new.escaped quotePath = path.flatMap (escapedChar quotePath) := by
    rw [Path.escaped, ← hpath, (escaped_encode path).2]
  rw [Path.fromUtf8Lossy_printed, if_pos hnew, Path.token, hescaped, List.append_cons,
    List.append_cons, List.append_assoc "b/".toList] at hsuffix
  apply not_suffix_escaped _ _ hnone hsuffix
  rintro rfl
  exact kind.new.nonempty hpath.symm

theorem eq_some_of_getD {found : Option Text} (h : found.getD [] = path) (hne : path ≠ []) :
  found = some path
  := by
  cases found with
  | some other => rw [← h, Option.getD_some]
  | none => exact absurd h.symm hne

/-- The name is read where the line leaves no doubt about it, and nowhere else. -/
theorem diffHeaderPath_iff {change : Change} (hpath : encode path = change.kind.new.bytes) :
  (diffHeaderPath ("diff --git ".toList ++ change.kind.names quotePath)).getD [] = path
    ↔ Plain quotePath change path
  := by
  have hne : path ≠ [] := by
    rintro rfl
    exact change.kind.new.nonempty hpath.symm
  have htext : change.kind.new.text = path := by
    rw [Path.text, ← hpath, Utf8Lossy.fromUtf8Lossy_encode]
  rw [Plain]
  cases hold : change.kind.old.quoted quotePath with
  | true =>
    rw [diffHeaderPath_of_old_quoted hold]
    cases hnew : change.kind.new.quoted quotePath with
    | true =>
      rw [if_pos rfl, normalizeDiffPath_of_decode
        (Path.decodeGitPath_token ⟨path, hpath⟩), htext]
      simp
    | false => simp [hne.symm]
  | false =>
    rw [diffHeaderPath_of_old_plain hold]
    cases hnew : change.kind.new.quoted quotePath with
    | true =>
      simp only [Bool.false_eq_true, false_and, iff_false]
      intro h
      apply afterLast_names_ne hpath hnew
      exact eq_some_of_getD h hne
    | false =>
      rw [Path.fromUtf8Lossy_printed, if_neg (ne_true_of_eq_false hnew), htext]
      simp only [true_and, forall_const]
      constructor
      · intro h
        exact (of_afterLast_eq_some (by simp) (eq_some_of_getD h hne)).2
      · intro hnone
        rw [afterLast_path _ hnone, Option.getD_some]

end Kind

/-! ### The line before the content -/

theorem le_of_mem_escape {x : UInt8} (h : x ∈ escape quotePath b) :
  0x20 ≤ x
  := by
  cases hquote : mustQuote quotePath b with
  | true =>
    obtain ⟨w, hw, hgraphic⟩ := graphic_of_mem_escape hquote
    rw [hw] at h
    obtain rfl | h := List.mem_cons.mp h
    · decide
    · exact UInt8.le_trans (by decide) (hgraphic x h).1
  | false =>
    rw [escape, if_neg (ne_true_of_eq_false hquote)] at h
    obtain rfl := List.mem_singleton.mp h
    simp only [mustQuote, Bool.or_eq_false_iff, decide_eq_false_iff_not] at hquote
    exact UInt8.not_lt.mp hquote.1.1.1.1

/-- A name has no control characters. -/
theorem Path.le_of_mem_printed {path : Path} {side : String}
    (hside : ∀ x ∈ encode side.toList, 0x20 ≤ x) :
  ∀ x ∈ path.printed quotePath side, 0x20 ≤ x
  := by
  intro x hx
  rw [printed] at hx
  split_ifs at hx with hquoted
  · simp only [List.mem_cons, List.mem_append, List.mem_flatMap, List.not_mem_nil, or_false] at hx
    obtain rfl | (hx | ⟨b, -, hx⟩) | rfl := hx
    · decide
    · exact hside x hx
    · exact le_of_mem_escape hx
    · decide
  · obtain hx | hx := List.mem_append.mp hx
    · exact hside x hx
    · have hquote : mustQuote quotePath x = false := by
        rw [quoted, List.any_eq_true, not_exists] at hquoted
        exact eq_false_of_ne_true fun h => hquoted x ⟨hx, h⟩
      apply @le_of_mem_escape quotePath x
      rw [escape, if_neg (ne_true_of_eq_false hquote)]
      exact List.mem_singleton_self x

/-- The path in the line before the content. -/
theorem diffMarkerPath_printed {path : Path} (h : Utf8Lossy.IsText path.bytes) {tab : Text}
    (htab : tab = [] ∨ tab = ['\t']) :
  diffMarkerPath (fromUtf8Lossy (path.printed quotePath "b/") ++ tab) = some path.text
  := by
  cases hquoted : path.quoted quotePath with
  | true =>
    have hprinted : fromUtf8Lossy (path.printed quotePath "b/") = path.token quotePath "b/" := by
      rw [Path.fromUtf8Lossy_printed, if_pos hquoted]
    rw [diffMarkerPath, hprinted, if_pos (by simp [Path.token]),
      Path.takeQuotedToken_token _ (balanced_side _ (.inr rfl))]
    exact normalizeDiffPath_of_decode (Path.decodeGitPath_token h)
  | false =>
    have hprinted : fromUtf8Lossy (path.printed quotePath "b/") = "b/".toList ++ path.text := by
      rw [Path.fromUtf8Lossy_printed, if_neg (ne_true_of_eq_false hquoted)]
    have hnone : '\t' ∉ fromUtf8Lossy (path.printed quotePath "b/") := by
      apply notMem_fromUtf8Lossy (by decide)
      intro x hx hvalue
      obtain rfl : x = 0x09 := UInt8.toNat_inj.mp hvalue
      exact absurd (Path.le_of_mem_printed (by decide) _ hx) (by decide)
    have htake : (fromUtf8Lossy (path.printed quotePath "b/") ++ tab).takeWhile (· ≠ '\t')
        = "b/".toList ++ path.text := by
      rw [List.takeWhile_append_of_pos, ← hprinted]
      · obtain rfl | rfl := htab
        · rw [List.takeWhile_nil, List.append_nil]
        · rw [List.takeWhile_cons_of_neg (by decide), List.append_nil]
      · intro c hc
        rw [decide_eq_true_iff]
        exact ne_of_mem_of_not_mem hc hnone
    have hhead : ¬(fromUtf8Lossy (path.printed quotePath "b/") ++ tab).head? = some '"' := by
      rw [hprinted]
      simp
    rw [diffMarkerPath, if_neg hhead, htake]
    exact normalizeDiffPath_plain path.text

/-- The tab after a label that has a space. -/
def tabAfter (label : Bytes) : Text := if 0x20 ∈ label then ['\t'] else []

theorem tabAfter_cases (label : Bytes) :
  tabAfter label = [] ∨ tabAfter label = ['\t']
  := by
  rw [tabAfter]
  split_ifs <;> simp

theorem fromUtf8Lossy_marker (sign : String) (label : Bytes) :
  fromUtf8Lossy (Change.marker sign label)
    = sign.toList ++ (fromUtf8Lossy label ++ tabAfter label)
  := by
  rw [Change.marker, List.append_assoc, Utf8Lossy.fromUtf8Lossy_encode_append, tabAfter]
  split_ifs
  · rw [Utf8Lossy.fromUtf8Lossy_append _ (by simp)]
    rfl
  · rw [List.append_nil, List.append_nil]

theorem diffMarkerPath_devNull :
  diffMarkerPath (fromUtf8Lossy (encode "/dev/null".toList)
      ++ tabAfter (encode "/dev/null".toList))
    = none
  := by
  decide

end Lazybox.Diff
