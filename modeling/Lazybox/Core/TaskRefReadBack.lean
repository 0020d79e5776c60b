import Lazybox.Core.TaskRef

/-!
# Keys that are read back

The key that a reference is turned into is a reference to the same record, unless the slug it
names begins with a quote, has a `#`, or has the name of a host for its owner.
-/

namespace Lazybox.TaskRef

open WorkingClaim (Text stripPrefix)

variable {s raw host path slug owner name team number repo : Text} {id : TaskId} {n : ℕ}

/-! ### Parts of texts -/

theorem trimMatches_eq_self {p : Char → Bool} (hfirst : ∀ c ∈ s.head?, p c = false)
    (hlast : ∀ c ∈ s.getLast?, p c = false) :
  trimMatches p s = s
  := by
  have hdrop : s.dropWhile p = s := by
    cases s with
    | nil => rfl
    | cons c s =>
      rw [List.dropWhile_cons_of_neg]
      rw [hfirst c rfl]
      apply Bool.false_ne_true
  rw [trimMatches, hdrop, List.rdropWhile_eq_self_iff]
  intro hne
  rw [hlast _ (List.getLast_mem_getLast? hne)]
  apply Bool.false_ne_true

theorem trim_of_no_space (h : ∀ c ∈ s, isWhiteSpace c = false) :
  trim s = s
  := by
  apply trimMatches_eq_self
  · intro c hc
    apply h c (List.mem_of_mem_head? hc)
  · intro c hc
    apply h c (List.mem_of_mem_getLast? hc)

theorem dropGit_suffix (s : Text) :
  dropGit s <:+ s
  := by
  fun_induction dropGit s with
  | case1 rest ih => exact ih.trans ⟨['t', 'i', 'g', '.'], rfl⟩
  | case2 s h => exact List.suffix_refl s

theorem dropGit_dropGit (s : Text) :
  dropGit (dropGit s) = dropGit s
  := by
  fun_induction dropGit s with
  | case1 rest ih => exact ih
  | case2 s h => rw [dropGit.eq_2 s h]

theorem trimEndGit_isPrefix (s : Text) :
  trimEndGit s <+: s
  := by
  rw [trimEndGit, ← List.reverse_suffix, List.reverse_reverse]
  apply dropGit_suffix

theorem trimEndGit_trimEndGit (s : Text) :
  trimEndGit (trimEndGit s) = trimEndGit s
  := by
  rw [trimEndGit, trimEndGit, List.reverse_reverse, dropGit_dropGit]

/-- The number is what follows the last `#` of a key. -/
theorem githubKey_inj {slug' : Text} {n' : ℕ} (h : githubKey slug n = githubKey slug' n') :
  slug = slug'
  := by
  have hdigits (n : ℕ) : '#' ∉ (toString n).toList := by
    intro hmem
    cases isDigit_of_mem_toString hmem
  apply (WorkingClaim.eq_of_last (hdigits n) (hdigits n') h).1

/-! ### References -/

theorem isQuote_of_isAlphanum {c : Char} (h : c.isAlphanum) :
  isQuote c = false
  := by
  rw [Bool.eq_false_iff]
  intro hquote
  simp only [isQuote, Bool.or_eq_true, decide_eq_true_eq] at hquote
  obtain (rfl | rfl) | rfl := hquote
  all_goals cases h

/-- A reference that ends in digits and begins with neither a blank nor a quote is left as it is. -/
theorem reference_of_digits {c d : Char} {digits : Text} (hne : digits ≠ [])
    (hdigits : ∀ c ∈ digits, c.isDigit) (hblank : isWhiteSpace c = false)
    (hquote : isQuote c = false) (s : Text) :
  reference (String.ofList (c :: s ++ d :: digits)) = c :: s ++ d :: digits
  := by
  have hlast : ∀ e ∈ (c :: s ++ d :: digits).getLast?, e.isAlphanum := by
    intro e he
    rw [List.getLast?_append_cons, List.getLast?_cons_of_ne_nil hne] at he
    rw [Char.isAlphanum, hdigits e (List.mem_of_mem_getLast? he), Bool.or_true]
  have htrim : trim (c :: s ++ d :: digits) = c :: s ++ d :: digits := by
    apply trimMatches_eq_self
    · rintro _ ⟨⟩
      apply hblank
    · intro e he
      apply WorkingClaim.isWhiteSpace_of_isAlphanum (hlast e he)
  rw [reference, String.toList_ofList, htrim]
  apply trimMatches_eq_self
  · rintro _ ⟨⟩
    apply hquote
  · intro e he
    apply isQuote_of_isAlphanum (hlast e he)

theorem reference_sublist (input : String) :
  (reference input).Sublist input.toList
  := by
  have htrim : (trim input.toList).Sublist input.toList := by
    rw [WorkingClaim.trim_eq]
    apply (List.rdropWhile_prefix isWhiteSpace _).sublist.trans
    apply (List.dropWhile_suffix isWhiteSpace).sublist
  apply List.Sublist.trans _ htrim
  apply (List.rdropWhile_prefix isQuote _).sublist.trans
  apply (List.dropWhile_suffix isQuote).sublist

theorem isQuote_of_head_reference {c : Char} {input : String}
    (h : (reference input).head? = some c) :
  isQuote c = false
  := by
  have hhead : ((trim input.toList).dropWhile isQuote).head? = some c := by
    rw [← List.singleton_prefix_iff_head?_eq_some] at h ⊢
    apply h.trans (List.rdropWhile_prefix isQuote _)
  have hdrop := List.head?_dropWhile_not isQuote (trim input.toList)
  rw [hhead] at hdrop
  exact hdrop

/-! ### Hosts -/

theorem exists_append_getD (p s : Text) :
  ∃ p' ∈ [p, []], s = p' ++ (stripPrefix p s).getD s
  := by
  cases hstrip : stripPrefix p s with
  | none => exact ⟨[], by simp, rfl⟩
  | some rest => exact ⟨p, by simp, WorkingClaim.stripPrefix_eq_some.mp hstrip⟩

/-- What is stripped of an address is a scheme, `www.` and the host, of which only the host need be
there. -/
theorem eq_of_stripHost (h : stripHost raw host = some path) :
  ∃ scheme ∈ ["https://".toList, "http://".toList, []], ∃ www ∈ ["www.".toList, []],
    raw = scheme ++ (www ++ host ++ '/' :: path)
  := by
  obtain ⟨rest, hhost, hslash⟩ := Option.bind_eq_some_iff.mp h
  rw [WorkingClaim.stripPrefix_eq_some] at hhost hslash
  subst hslash
  have hscheme : ∃ scheme ∈ ["https://".toList, "http://".toList, []],
      raw = scheme ++ ((stripPrefix "https://".toList raw).or
        (stripPrefix "http://".toList raw)).getD raw := by
    cases hhttps : stripPrefix "https://".toList raw with
    | some rest =>
      use "https://".toList, List.mem_cons_self
      apply WorkingClaim.stripPrefix_eq_some.mp hhttps
    | none =>
      obtain ⟨scheme, hscheme, heq⟩ := exists_append_getD "http://".toList raw
      exact ⟨scheme, List.mem_cons_of_mem _ hscheme, heq⟩
  obtain ⟨scheme, hscheme, hraw⟩ := hscheme
  obtain ⟨www, hwww, hrest⟩ := exists_append_getD "www.".toList
    (((stripPrefix "https://".toList raw).or (stripPrefix "http://".toList raw)).getD raw)
  refine ⟨scheme, hscheme, www, hwww, ?_⟩
  rw [hhost] at hrest
  rw [List.append_assoc, ← List.singleton_append (l := path), ← hrest]
  apply hraw

/-- The hosts, each with and without `www.`. -/
def hosts : List Text :=
  ["github.com", "www.github.com", "linear.app", "www.linear.app"].map String.toList

/-- No slash follows the one in a slug. -/
theorem IsSlug.ne_scheme (h : IsSlug owner name) (before : Text) (hb : '/' ∉ before)
    (rest s : Text) :
  owner ++ '/' :: name ++ rest ≠ before ++ ['/', '/'] ++ s
  := by
  intro heq
  rw [List.append_assoc, List.cons_append, List.append_assoc] at heq
  obtain ⟨-, hname⟩ := WorkingClaim.eq_of_first h.owner_slash hb heq
  obtain ⟨c, name', hcons⟩ := List.exists_cons_of_ne_nil h.name_ne
  rw [hcons, List.cons_append] at hname
  apply h.name_slash
  rw [hcons, (List.cons.inj hname).1]
  apply List.mem_cons_self

theorem noAddress_of_slug (h : IsSlug owner name) (hhost : owner ∉ hosts) (rest : Text) :
  NoAddress (owner ++ '/' :: name ++ rest)
  := by
  have hnone (host : Text) (hslash : '/' ∉ host) (hbare : host ∈ hosts)
      (hwww : "www.".toList ++ host ∈ hosts) :
      stripHost (owner ++ '/' :: name ++ rest) host = none := by
    rw [Option.eq_none_iff_forall_ne_some]
    intro path hpath
    obtain ⟨scheme, hscheme, www, hw, heq⟩ := eq_of_stripHost hpath
    have hscheme' : scheme = "https:".toList ++ ['/', '/'] ∨ scheme = "http:".toList ++ ['/', '/']
        ∨ scheme = [] := by
      simpa using hscheme
    obtain rfl | rfl | rfl := hscheme'
    · apply h.ne_scheme "https:".toList (by decide) rest _ heq
    · apply h.ne_scheme "http:".toList (by decide) rest _ heq
    · rw [List.nil_append, List.append_assoc, List.cons_append] at heq
      have hw' : www = "www.".toList ∨ www = [] := by
        simpa using hw
      obtain rfl | rfl := hw'
      · have hslash' : '/' ∉ "www.".toList ++ host := by
          rw [List.mem_append, not_or]
          exact ⟨by decide, hslash⟩
        apply hhost
        rw [(WorkingClaim.eq_of_first h.owner_slash hslash' heq).1]
        apply hwww
      · apply hhost
        rw [(WorkingClaim.eq_of_first h.owner_slash hslash heq).1]
        apply hbare
  exact ⟨hnone _ (by decide) (by decide) (by decide), hnone _ (by decide) (by decide) (by decide)⟩

/-! ### Keys as references -/

/-- The slug of a repository that a key is read back with. -/
structure ReadsBack (slug : Text) : Prop where
  quote : ∀ c ∈ slug.head?, isQuote c = false
  hash : '#' ∉ slug
  host : ∀ host ∈ hosts, ¬host ++ ['/'] <+: slug

theorem parse_githubKey (h : IsSlug owner name) (hback : ReadsBack (owner ++ '/' :: name))
    (hgit : trimEndGit (owner ++ '/' :: name) = owner ++ '/' :: name)
    (hn : n < 18446744073709551616) :
  parseTaskRef (String.ofList (githubKey (owner ++ '/' :: name) n)) none
    = some ⟨githubSource, String.ofList (githubKey (owner ++ '/' :: name) n)⟩
  := by
  have href : reference (String.ofList (githubKey (owner ++ '/' :: name) n))
      = githubKey (owner ++ '/' :: name) n := by
    obtain ⟨c, owner, rfl⟩ := List.exists_cons_of_ne_nil h.owner_ne
    apply reference_of_digits (toList_toString_ne_nil n) fun c => isDigit_of_mem_toString
    · apply h.no_space c List.mem_cons_self
    · apply hback.quote c rfl
  have hhost : owner ∉ hosts := by
    intro hmem
    apply hback.host owner hmem
    use name
    rw [List.append_assoc, List.singleton_append]
  have hne : owner ++ '/' :: name ≠ [] := List.append_ne_nil_of_left_ne_nil h.owner_ne _
  have hnames : Names (String.ofList (githubKey (owner ++ '/' :: name) n)) none
      (owner ++ '/' :: name) (toString n).toList := by
    apply Names.slug
    · rw [href]
      apply noAddress_of_slug h hhost
    · rw [href]
      apply WorkingClaim.splitOnce_append hback.hash
    · apply hne
  have hdigits : ∀ c ∈ (toString n).toList, isWhiteSpace c = false := by
    intro c hc
    apply WorkingClaim.isWhiteSpace_of_isAlphanum
    rw [Char.isAlphanum, isDigit_of_mem_toString hc, Bool.or_true]
  rw [hnames.parse, githubTaskId_eq_some]
  refine ⟨owner, name, n, ?_, h, ?_, rfl⟩
  · rw [trim_of_no_space h.no_space, hgit]
  · rw [trim_of_no_space hdigits, parseU64_toString (by omega)]

theorem count_slash_githubKey (h : IsSlug owner name) (n : ℕ) :
  (githubKey (owner ++ '/' :: name) n).count '/' = 1
  := by
  have hdigits : '/' ∉ (toString n).toList := by
    intro hmem
    cases isDigit_of_mem_toString hmem
  rw [githubKey, List.count_append, List.count_append, List.count_cons_self, List.count_cons_of_ne,
    List.count_eq_zero.mpr h.owner_slash, List.count_eq_zero.mpr h.name_slash,
    List.count_eq_zero.mpr hdigits]
  decide

/-- The key of a record is no address. -/
theorem segments_of_githubKey (h : IsSlug owner name)
    (hhost : stripHost (reference (String.ofList (githubKey (owner ++ '/' :: name) n))) host
      = some path) :
  segments path = [path.takeWhile fun c => c ≠ '?' && c ≠ '#']
  := by
  have hcount := (reference_sublist (String.ofList (githubKey (owner ++ '/' :: name) n))).count_le '/'
  rw [String.toList_ofList, count_slash_githubKey h] at hcount
  obtain ⟨scheme, -, www, -, heq⟩ := eq_of_stripHost hhost
  rw [heq, List.count_append, List.count_append, List.count_cons_self] at hcount
  have hpath : '/' ∉ path := by
    rw [← List.count_eq_zero]
    omega
  apply List.splitOn_eq_singleton
  intro hmem
  apply hpath ((List.takeWhile_prefix _).subset hmem)

theorem stripHost_isSome {host : Text} (h : host ∈ hosts) (path : Text) :
  ¬NoAddress (host ++ '/' :: path)
  := by
  rintro ⟨hgithub, hlinear⟩
  simp only [hosts, List.map_cons, List.map_nil, List.mem_cons, List.not_mem_nil, or_false] at h
  obtain rfl | rfl | rfl | rfl := h
  · cases hgithub
  · cases hgithub
  · cases hlinear
  · cases hlinear

theorem no_space_githubKey (h : IsSlug owner name) (n : ℕ) :
  ∀ c ∈ githubKey (owner ++ '/' :: name) n, isWhiteSpace c = false
  := by
  intro c hc
  rw [githubKey, List.mem_append, List.mem_cons] at hc
  obtain hc | rfl | hc := hc
  · apply h.no_space c hc
  · rfl
  · apply WorkingClaim.isWhiteSpace_of_isAlphanum
    rw [Char.isAlphanum, isDigit_of_mem_toString hc, Bool.or_true]

/-- What is read of a key is what stands before its first `#`, and is no address. -/
theorem readsBack_of_parse (h : IsSlug owner name)
    (hread : parseTaskRef (String.ofList (githubKey (owner ++ '/' :: name) n)) none
      = some ⟨githubSource, String.ofList (githubKey (owner ++ '/' :: name) n)⟩) :
  ReadsBack (owner ++ '/' :: name)
  := by
  by_cases hnames : ∃ repo number,
      Names (String.ofList (githubKey (owner ++ '/' :: name) n)) none repo number
  · obtain ⟨repo, number, hnames⟩ := hnames
    rw [hnames.parse, githubTaskId_eq_some] at hread
    obtain ⟨owner', name', n', hrepo, -, -, hid⟩ := hread
    rw [TaskId.mk.injEq, String.ofList_inj] at hid
    rw [githubKey_inj hid.2] at hrepo
    cases hnames with
    | address host parts =>
      rw [segments_of_githubKey h host] at parts
      cases parts
    | hash _ _ default => cases default
    | number _ _ _ default => cases default
    | slug noAddress hash =>
      obtain ⟨href, hnot⟩ := WorkingClaim.splitOnce_eq_some.mp hash
      have hspace : ∀ c ∈ repo, isWhiteSpace c = false := by
        intro c hc
        apply no_space_githubKey h n
        rw [← String.toList_ofList (l := githubKey (owner ++ '/' :: name) n)]
        apply (reference_sublist _).subset
        rw [href]
        apply List.mem_append_left _ hc
      have hin : owner ++ '/' :: name <+: repo := by
        rw [← hrepo, trim_of_no_space hspace]
        apply trimEndGit_isPrefix
      obtain ⟨rest, hrest⟩ := hin.trans (List.prefix_append repo ('#' :: number))
      rw [← href] at hrest
      constructor
      · intro c hc
        apply isQuote_of_head_reference
        rw [← hrest, List.head?_append, Option.mem_def.mp hc, Option.some_or]
      · intro hmem
        apply hnot (hin.subset hmem)
      · rintro host hhost ⟨after, hafter⟩
        apply stripHost_isSome hhost (after ++ rest)
        rw [← hrest, ← hafter, List.append_assoc, List.append_assoc] at noAddress
        apply noAddress
  · have hnot : ∀ repo number,
        ¬Names (String.ofList (githubKey (owner ++ '/' :: name) n)) none repo number := by
      intro repo number hrepo
      apply hnames ⟨repo, number, hrepo⟩
    obtain ⟨raw, hraw⟩ := exists_linear hread hnot
    obtain ⟨team, number, -, -, hid⟩ := linearIdentifier_eq_some.mp hraw
    have hsource : linearSource ≠ githubSource := by decide
    cases hsource (congrArg TaskId.source hid)

theorem toUpper_of_isAlphanum {c : Char} (h : c.isAlphanum) :
  c.toUpper.isAlphanum ∧ c.toUpper.toUpper = c.toUpper
  := by
  have hall : ∀ n < 123, (Char.ofNat n).isAlphanum → (Char.ofNat n).toUpper.isAlphanum
      ∧ (Char.ofNat n).toUpper.toUpper = (Char.ofNat n).toUpper := by
    decide
  have hc := hall c.toNat
  rw [Char.ofNat_toNat] at hc
  apply hc _ h
  rw [WorkingClaim.isAlphanum_iff] at h
  omega

/-- The identifier of a ticket is read back. -/
theorem parse_ticketKey (h : IsTicket team number) :
  parseTaskRef (String.ofList (team.map Char.toUpper ++ '-' :: number)) none
    = some ⟨linearSource, String.ofList (team.map Char.toUpper ++ '-' :: number)⟩
  := by
  have hteam : ∀ c ∈ team.map Char.toUpper, c.isAlphanum := by
    rw [List.forall_mem_map]
    intro c hc
    apply (toUpper_of_isAlphanum (h.team_chars c hc)).1
  have hupper : (team.map Char.toUpper).map Char.toUpper = team.map Char.toUpper := by
    rw [List.map_map, List.map_inj_left]
    intro c hc
    apply (toUpper_of_isAlphanum (h.team_chars c hc)).2
  have hne : team.map Char.toUpper ≠ [] := by
    rw [Ne, List.map_eq_nil_iff]
    apply h.team_ne
  generalize team.map Char.toUpper = upper at hteam hupper hne
  have hchars : ∀ c ∈ upper ++ '-' :: number, c.isAlphanum ∨ c = '-' := by
    intro c hc
    rw [List.mem_append, List.mem_cons] at hc
    obtain hc | rfl | hc := hc
    · apply Or.inl (hteam c hc)
    · apply Or.inr rfl
    · rw [Char.isAlphanum, h.number_digits c hc, Bool.or_true]
      apply Or.inl rfl
  have hnotMem {c : Char} (hc : c.isAlphanum = false) (hdash : c ≠ '-') :
      c ∉ upper ++ '-' :: number := by
    intro hmem
    obtain hletter | rfl := hchars c hmem
    · rw [hc] at hletter
      cases hletter
    · apply hdash rfl
  have href : reference (String.ofList (upper ++ '-' :: number)) = upper ++ '-' :: number := by
    obtain ⟨c, rest, rfl⟩ := List.exists_cons_of_ne_nil hne
    have hc := hteam c List.mem_cons_self
    apply reference_of_digits h.number_ne h.number_digits
    · apply WorkingClaim.isWhiteSpace_of_isAlphanum hc
    · apply isQuote_of_isAlphanum hc
  have hhost (host : Text) : stripHost (upper ++ '-' :: number) host = none := by
    rw [Option.eq_none_iff_forall_ne_some]
    intro path hpath
    obtain ⟨scheme, -, www, -, heq⟩ := eq_of_stripHost hpath
    apply hnotMem (c := '/') rfl (by decide)
    rw [heq]
    simp
  have hdash : '-' ∈ upper ++ '-' :: number := List.mem_append_right _ List.mem_cons_self
  have hnumber := parseU64_of_mem hdash rfl (by decide)
  rw [parseTaskRef_identifier, href, linearIdentifier_eq_some]
  · exact ⟨upper, number, rfl, ⟨hne, hteam, h.number_ne, h.number_digits⟩, by rw [hupper]⟩
  · rw [href]
    apply List.append_ne_nil_of_left_ne_nil hne
  · rw [href]
    exact ⟨hhost _, hhost _⟩
  · rw [href, WorkingClaim.splitOnce_eq_none]
    apply hnotMem rfl (by decide)
  · rw [href, hnumber]

/-- What a reference is turned into is read back exactly when the slug it names, if it names one,
is one that a key is read back with. -/
theorem parse_key_iff {input : String} {defaultRepo : Option String}
    (h : parseTaskRef input defaultRepo = some id) :
  parseTaskRef id.key none = some id
    ↔ ∀ repo number, Names input defaultRepo repo number → ReadsBack (trimEndGit (trim repo))
  := by
  by_cases hnames : ∃ repo number, Names input defaultRepo repo number
  · obtain ⟨repo, number, hnames⟩ := hnames
    have hgithub := h
    rw [hnames.parse, githubTaskId_eq_some] at hgithub
    obtain ⟨owner, name, n, hrepo, hslug, hn, rfl⟩ := hgithub
    -- a reference names one repository, however it is read off
    have hone (repo' number' : Text) (hnames' : Names input defaultRepo repo' number') :
        trimEndGit (trim repo') = owner ++ '/' :: name := by
      rw [hnames'.parse, githubTaskId_eq_some] at h
      obtain ⟨owner', name', n', hrepo', -, -, hid⟩ := h
      rw [TaskId.mk.injEq, String.ofList_inj] at hid
      rw [hrepo', githubKey_inj hid.2]
    constructor
    · intro hread repo' number' hnames'
      rw [hone repo' number' hnames']
      apply readsBack_of_parse hslug hread
    · intro hback
      have hgit : trimEndGit (owner ++ '/' :: name) = owner ++ '/' :: name := by
        rw [← hrepo, trimEndGit_trimEndGit]
      have hslugBack := hback repo number hnames
      rw [hrepo] at hslugBack
      apply parse_githubKey hslug hslugBack hgit (lt_of_parseU64 hn)
  · have hnot : ∀ repo number, ¬Names input defaultRepo repo number := by
      intro repo number hrepo
      apply hnames ⟨repo, number, hrepo⟩
    obtain ⟨raw, hraw⟩ := exists_linear h hnot
    obtain ⟨team, number, -, hticket, rfl⟩ := linearIdentifier_eq_some.mp hraw
    apply iff_of_true (parse_ticketKey hticket)
    intro repo number hrepo
    cases hnot repo number hrepo

theorem parse_key_iff_widget :
  parseTaskRef "acme/widget#7" none = some ⟨"github", "acme/widget#7"⟩
    ↔ ∀ repo number, Names " <acme/widget.git#+7> " none repo number →
        ReadsBack (trimEndGit (trim repo))
  := by
  have h : parseTaskRef " <acme/widget.git#+7> " none = some ⟨"github", "acme/widget#7"⟩ := by
    rfl
  apply parse_key_iff h

/-- An address whose owner has the name of a host. -/
theorem host_not_read_back :
  ¬∀ input defaultRepo id, parseTaskRef input defaultRepo = some id →
    parseTaskRef id.key none = some id
  := by
  intro h
  have hparse : parseTaskRef "https://github.com/github.com/widget/issues/4" none
      = some ⟨"github", "github.com/widget#4"⟩ := by
    rfl
  have hread : parseTaskRef "github.com/widget#4" none = none := by
    rfl
  have hback := h _ _ _ hparse
  rw [hread] at hback
  cases hback

end Lazybox.TaskRef
