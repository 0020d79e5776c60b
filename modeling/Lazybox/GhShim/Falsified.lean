import Lazybox.GhShim.Cache

/-!
# Falsified answers

An output is falsified when a mutation of the repository of its read is applied after the read was
let through.  No answer is falsified as long as reads of the repository are dropped by their keys,
and no read files what was falsified meanwhile; and only then.
-/

namespace Lazybox.GhShim

/-- One element before another in a list with one more. -/
theorem pair_sublist_concat {α : Type*} {a b o : α} {os : List α} :
  [a, b].Sublist (os ++ [o]) ↔ [a, b].Sublist os ∨ b = o ∧ a ∈ os
  := by
  rw [List.sublist_append_iff]
  constructor
  · rintro ⟨l, l', hl, hos, ho⟩
    rcases List.sublist_singleton.mp ho with rfl | rfl
    · rw [List.append_nil] at hl
      left
      rw [hl]
      apply hos
    · right
      have hconcat : [a] ++ [b] = l ++ [o] := hl
      obtain ⟨rfl, hlast⟩ := List.append_inj' hconcat rfl
      exact ⟨List.cons.inj hlast |>.1, List.singleton_sublist.mp hos⟩
  · rintro (hos | ⟨rfl, ha⟩)
    · exact ⟨[a, b], [], (List.append_nil _).symm, hos, List.nil_sublist _⟩
    · exact ⟨[a], [b], rfl, List.singleton_sublist.mpr ha, List.Sublist.refl _⟩

/-! ### Entries -/

namespace Cache

variable {e : String × CachedRead} {c : Cache}

theorem mem_of_mem_evict {keep : String} {fuel : ℕ} (h : e ∈ evict keep fuel c) :
  e ∈ c
  := by
  induction fuel generalizing c with
  | zero => apply h
  | succ fuel ih =>
    rw [evict] at h
    split at h
    · split at h
      · apply h
      · apply List.mem_of_mem_filter (ih h)
    · apply h

/-- What is kept is not dropped. -/
theorem mem_evict {keep : String} {fuel : ℕ} (h : e ∈ c) (hkeep : e.1 = keep) :
  e ∈ evict keep fuel c
  := by
  induction fuel generalizing c with
  | zero => apply h
  | succ fuel ih =>
    rw [evict]
    split
    · split
      · apply h
      · next oldest holdest =>
          apply ih
          have hother := List.of_mem_filter (List.argmin_mem holdest)
          rw [decide_eq_true_eq] at hother
          rw [Keyed.erase, List.mem_filter]
          refine ⟨h, ?_⟩
          rw [decide_eq_true_eq, hkeep]
          apply Ne.symm hother
    · apply h

theorem nodup_evict {keep : String} {fuel : ℕ} (h : (c.map Prod.fst).Nodup) :
  ((evict keep fuel c).map Prod.fst).Nodup
  := by
  induction fuel generalizing c with
  | zero => apply h
  | succ fuel ih =>
    rw [evict]
    split
    · split
      · apply h
      · apply ih
        apply h.sublist (List.filter_sublist.map _)
    · apply h

variable {entry : CachedRead}

theorem mem_of_mem_store {key : String} {ttl : ℕ} (h : e ∈ c.store key entry ttl) :
  e = (key, entry) ∨ e ∈ c
  := by
  rw [store] at h
  apply (List.mem_cons.mp (mem_of_mem_evict h)).imp_right
  intro he
  apply List.mem_of_mem_filter (List.mem_of_mem_filter he)

theorem mem_store (c : Cache) (key : String) (entry : CachedRead) (ttl : ℕ) :
  (key, entry) ∈ c.store key entry ttl
  := by
  apply mem_evict List.mem_cons_self rfl

theorem nodup_store (h : (c.map Prod.fst).Nodup) (key : String) (entry : CachedRead) (ttl : ℕ) :
  ((c.store key entry ttl).map Prod.fst).Nodup
  := by
  rw [store]
  apply nodup_evict
  rw [List.map_cons, List.nodup_cons]
  constructor
  · simp [Keyed.erase]
  · apply List.Nodup.sublist _ h
    apply List.Sublist.map
    apply List.filter_sublist.trans List.filter_sublist

theorem cached_sublist (c : Cache) (key : String) (ttl now : ℕ) :
  (c.cached key ttl now).2.Sublist c
  := by
  rw [cached]
  split
  · apply List.Sublist.refl
  · split
    · apply List.Sublist.refl
    · apply List.filter_sublist

theorem mem_of_cached {key : String} {ttl now : ℕ} (h : (c.cached key ttl now).1 = some entry) :
  (key, entry) ∈ c
  := by
  rw [cached] at h
  split at h
  · cases h
  · next found hfound =>
      split at h
      · obtain rfl := Option.some.inj h
        obtain ⟨⟨key', entry'⟩, hlookup, rfl⟩ := Option.map_eq_some_iff.mp hfound
        obtain ⟨hmem, rfl⟩ := Keyed.lookup_eq_some hlookup
        apply hmem
      · cases h

/-- An entry answers a question that is asked at its time. -/
theorem cached_at (distinct : (c.map Prod.fst).Nodup) {key : String} (h : (key, entry) ∈ c)
    (ttl : ℕ) :
  c.cached key ttl entry.at' = (some entry, c)
  := by
  have hlookup := (Keyed.lookup_eq_some_iff distinct).mpr ⟨h, rfl⟩
  rw [cached, hlookup, Option.map_some]
  simp only [Nat.sub_self, Nat.zero_le, if_true]

theorem invalidateRepo_sublist (toLowercase : String → String) (c : Cache) (repo : Option String) :
  (c.invalidateRepo toLowercase repo).Sublist c
  := by
  cases repo with
  | none => apply List.nil_sublist
  | some repo => apply List.filter_sublist

end Cache

/-! ### Falsified outputs -/

section Falsified

variable (toLowercase fingerprint : String → String)

/-- A mutation of the repository of a read was applied after the read was let through. -/
def Falsified (os : List Obs) (i : ℕ) : Prop :=
  ∃ q repo, q.Of toLowercase repo ∧ [Obs.admitted i q, .applied (some repo)].Sublist os

/-- No answer is falsified. -/
def Fresh (before : List Obs) : Obs → Prop
  | .cached i => ¬Falsified toLowercase before i
  | _ => True

namespace Daemon

/-- A mutation finds that the cached reads of its repository are under keys that are taken for such,
and no read files what was falsified. -/
def Careful (s : Daemon) : Act → Prop
  | .file i _ _ _ =>
      ∀ r ∈ s.reads i, (r.question.key fingerprint).isSome → r.falsified = false
  | .change change =>
      ∀ repo, change.named = some (some repo) → ∀ e ∈ s.cache, ∀ r ∈ s.reads e.2.read,
        r.question.Of toLowercase repo → Cache.startsWithRepo toLowercase e.1 repo
  | _ => True

/-- What holds of the daemon and of what was observed, whatever the steps. -/
structure Sound (s : Daemon) (os : List Obs) : Prop where
  distinct : (s.cache.map Prod.fst).Nodup
  entries : ∀ e ∈ s.cache, ∃ r, s.reads e.2.read = some r
    ∧ r.question.key fingerprint = some e.1
  admitted : ∀ i q, .admitted i q ∈ os ↔ ∃ r, s.reads i = some r ∧ r.question = q
  falsified : ∀ i r, s.reads i = some r → (r.falsified = true ↔ Falsified toLowercase os i)

/-- No answer that is kept is falsified. -/
def Clean (s : Daemon) : Prop :=
  ∀ e ∈ s.cache, ∀ r ∈ s.reads e.2.read, r.falsified = false

end Daemon

variable {toLowercase fingerprint}

theorem falsified_concat {os : List Obs} {o : Obs} {i : ℕ} :
  Falsified toLowercase (os ++ [o]) i
    ↔ Falsified toLowercase os i
      ∨ ∃ q repo, q.Of toLowercase repo ∧ .applied (some repo) = o ∧ .admitted i q ∈ os
  := by
  simp only [Falsified, pair_sublist_concat]
  constructor
  · rintro ⟨q, repo, hof, hos | hlast⟩
    · left
      use q, repo
    · right
      use q, repo
  · rintro (⟨q, repo, hof, hos⟩ | ⟨q, repo, hof, hlast⟩)
    · use q, repo, hof
      left
      apply hos
    · use q, repo, hof
      right
      apply hlast

theorem falsified_concat_of_ne {os : List Obs} {o : Obs} {i : ℕ}
    (h : ∀ repo, o ≠ .applied (some repo)) :
  Falsified toLowercase (os ++ [o]) i ↔ Falsified toLowercase os i
  := by
  rw [falsified_concat, or_iff_left]
  rintro ⟨q, repo, -, ho, -⟩
  apply h repo ho.symm

namespace Daemon

/-! ### What a step keeps -/

section Parts

variable {s : Daemon} {os : List Obs} (hs : Sound toLowercase fingerprint s os)
include hs

theorem Sound.setCache {cache : Cache} (h : cache.Sublist s.cache) :
  Sound toLowercase fingerprint { s with cache := cache } os
  := by
  constructor
  · apply hs.distinct.sublist (h.map _)
  · intro e he
    apply hs.entries e (h.subset he)
  · apply hs.admitted
  · apply hs.falsified

theorem Sound.nothing :
  Sound toLowercase fingerprint s (os ++ [])
  := by
  rw [List.append_nil]
  apply hs

theorem Sound.cached (i : ℕ) :
  Sound toLowercase fingerprint s (os ++ [.cached i])
  := by
  constructor
  · apply hs.distinct
  · apply hs.entries
  · intro j q
    rw [← hs.admitted, List.mem_append, or_iff_left]
    intro h
    cases List.mem_singleton.mp h
  · intro j r hr
    rw [falsified_concat_of_ne (by nofun)]
    apply hs.falsified j r hr

theorem Sound.allow (i : ℕ) (q : Question) :
  Sound toLowercase fingerprint (s.allow i q).1 (os ++ (s.allow i q).2)
  := by
  rw [Daemon.allow]
  split
  · next hnew =>
      rw [Option.isNone_iff_eq_none] at hnew
      have hnever : ∀ q', .admitted i q' ∉ os := by
        intro q' hq'
        obtain ⟨r, hr, -⟩ := (hs.admitted i q').mp hq'
        cases hnew.symm.trans hr
      constructor
      · apply hs.distinct
      · intro e he
        obtain ⟨r, hr, hkey⟩ := hs.entries e he
        use r
        refine ⟨?_, hkey⟩
        apply (Function.update_of_ne _ _ _).trans hr
        rintro rfl
        cases hnew.symm.trans hr
      · intro j q'
        rw [List.mem_append, List.mem_singleton]
        change _ ↔ ∃ r, Function.update s.reads i (some ⟨q, false⟩) j = some r ∧ _
        by_cases hji : j = i
        · subst hji
          rw [Function.update_self, or_iff_right (hnever q')]
          constructor
          · rintro ⟨⟩
            exact ⟨_, rfl, rfl⟩
          · rintro ⟨r, ⟨⟩, rfl⟩
            rfl
        · rw [Function.update_of_ne hji, ← hs.admitted, or_iff_left]
          rintro ⟨⟩
          apply hji rfl
      · intro j r hr
        rw [falsified_concat_of_ne (by nofun)]
        change Function.update s.reads i (some ⟨q, false⟩) j = some r at hr
        by_cases hji : j = i
        · subst hji
          rw [Function.update_self] at hr
          obtain rfl := Option.some.inj hr
          constructor
          · intro h
            cases h
          · rintro ⟨q', repo, -, hos⟩
            cases hnever q' (hos.subset List.mem_cons_self)
        · rw [Function.update_of_ne hji] at hr
          apply hs.falsified j r hr
  · apply hs.nothing

/-- The reads after a mutation of a repository. -/
theorem Sound.change (repo : Option String) :
  Sound toLowercase fingerprint
    { cache := s.cache.invalidateRepo toLowercase repo
      reads := fun i => (s.reads i).map fun r => repo.elim r (r.change toLowercase) }
    (os ++ [.applied repo])
  := by
  have hquestion : ∀ r : Read, (repo.elim r (r.change toLowercase)).question = r.question := by
    intro r
    cases repo <;> rfl
  constructor
  · apply hs.distinct.sublist ((s.cache.invalidateRepo_sublist toLowercase repo).map _)
  · intro e he
    obtain ⟨r, hr, hkey⟩ := hs.entries e ((s.cache.invalidateRepo_sublist _ repo).subset he)
    use repo.elim r (r.change toLowercase), Option.map_eq_some_iff.mpr ⟨r, hr, rfl⟩
    rw [hquestion, hkey]
  · intro i q
    rw [List.mem_append, or_iff_left, hs.admitted]
    · constructor
      · rintro ⟨r, hr, rfl⟩
        exact ⟨_, Option.map_eq_some_iff.mpr ⟨r, hr, rfl⟩, hquestion r⟩
      · rintro ⟨r', hr', rfl⟩
        obtain ⟨r, hr, rfl⟩ := Option.map_eq_some_iff.mp hr'
        use r, hr
        rw [hquestion]
    · intro h
      cases List.mem_singleton.mp h
  · intro i r' hr'
    obtain ⟨r, hr, rfl⟩ := Option.map_eq_some_iff.mp hr'
    cases repo with
    | none =>
      rw [falsified_concat_of_ne (by nofun)]
      apply hs.falsified i r hr
    | some repo =>
      rw [falsified_concat, ← hs.falsified i r hr]
      change (r.falsified || decide (r.question.Of toLowercase repo)) = true ↔ _
      rw [Bool.or_eq_true, decide_eq_true_eq]
      apply or_congr_right
      constructor
      · intro hof
        use r.question, repo, hof, rfl
        rw [hs.admitted]
        use r
      · rintro ⟨q, repo', hof, hsame, hadmitted⟩
        obtain ⟨r', hr', rfl⟩ := (hs.admitted i q).mp hadmitted
        obtain rfl := Option.some.inj (hr.symm.trans hr')
        cases hsame
        apply hof

end Parts

variable (toLowercase fingerprint) in
/-- What the daemon does with a read: a request is allowed, an entry answers it, or nothing happens.
Before that it may drop entries that are too old. -/
theorem admitRead_cases (s : Daemon) (i : ℕ) (q : Question) (enabled : Bool)
    (readCacheTtl now : ℕ) (allowed : Bool) :
  ∃ cache, cache.Sublist s.cache
    ∧ (s.step toLowercase fingerprint (.admitRead i q enabled readCacheTtl now allowed)
        = ({ s with cache := cache } : Daemon).allow i q
      ∨ s.step toLowercase fingerprint (.admitRead i q enabled readCacheTtl now allowed)
        = ({ s with cache := cache }, [])
      ∨ ∃ key entry, (key, entry) ∈ s.cache
        ∧ s.step toLowercase fingerprint (.admitRead i q enabled readCacheTtl now allowed)
          = ({ s with cache := cache }, [.cached entry.read]))
  := by
  have hsub : ∀ {found cache}, (q.key fingerprint).map (fun key =>
      s.cache.cached key (min readCacheTtl maxReadCacheTtl) now) = some (found, cache) →
      cache.Sublist s.cache ∧ ∀ entry ∈ found, ∃ key, (key, entry) ∈ s.cache := by
    intro found cache hcached
    obtain ⟨key, -, hkey⟩ := Option.map_eq_some_iff.mp hcached
    have hkept := s.cache.cached_sublist key (min readCacheTtl maxReadCacheTtl) now
    rw [hkey] at hkept
    refine ⟨hkept, ?_⟩
    rintro entry rfl
    use key
    apply Cache.mem_of_cached (congrArg Prod.fst hkey)
  simp only [step]
  split
  · exact ⟨s.cache, List.Sublist.refl _, Or.inl rfl⟩
  · split
    · next entry cache hcached =>
        obtain ⟨hcache, hentry⟩ := hsub hcached
        obtain ⟨key, hmem⟩ := hentry entry rfl
        exact ⟨cache, hcache, Or.inr (Or.inr ⟨key, entry, hmem, rfl⟩)⟩
    · next cache hcached =>
        use cache, (hsub hcached).1
        split
        · exact Or.inl rfl
        · exact Or.inr (Or.inl rfl)
    · use s.cache, List.Sublist.refl _
      split
      · exact Or.inl rfl
      · exact Or.inr (Or.inl rfl)

variable {s : Daemon}

theorem sound_step {os : List Obs} (hs : Sound toLowercase fingerprint s os) (a : Act) :
  Sound toLowercase fingerprint (s.step toLowercase fingerprint a).1
    (os ++ (s.step toLowercase fingerprint a).2)
  := by
  cases a with
  | admitRead i q enabled readCacheTtl now allowed =>
    obtain ⟨cache, hsub, hstep | hstep | ⟨key, entry, -, hstep⟩⟩ :=
      admitRead_cases toLowercase fingerprint s i q enabled readCacheTtl now allowed
    · rw [hstep]
      apply (hs.setCache hsub).allow
    · rw [hstep]
      apply (hs.setCache hsub).nothing
    · rw [hstep]
      apply (hs.setCache hsub).cached
  | file i stdout readCacheTtl now =>
    simp only [step]
    split
    · next key hread =>
        obtain ⟨r, hr, hkey⟩ := Option.bind_eq_some_iff.mp hread
        apply Sound.nothing
        constructor
        · apply Cache.nodup_store hs.distinct
        · intro e he
          obtain rfl | he := Cache.mem_of_mem_store he
          · use r
          · apply hs.entries e he
        · apply hs.admitted
        · apply hs.falsified
    · apply hs.nothing
  | change change =>
    simp only [step]
    split
    · apply hs.nothing
    · apply hs.change

section CleanSteps

variable {s : Daemon} (clean : s.Clean)
include clean

theorem Clean.setCache {cache : Cache} (h : cache.Sublist s.cache) :
  ({ s with cache := cache } : Daemon).Clean
  := by
  intro e he
  apply clean e (h.subset he)

theorem Clean.allow (i : ℕ) (q : Question) :
  (s.allow i q).1.Clean
  := by
  rw [Daemon.allow]
  split
  · intro e he r hr
    change r ∈ Function.update s.reads i (some ⟨q, false⟩) e.2.read at hr
    by_cases hei : e.2.read = i
    · rw [hei, Function.update_self] at hr
      obtain rfl := Option.some.inj hr
      rfl
    · rw [Function.update_of_ne hei] at hr
      apply clean e he r hr
  · apply clean

theorem Clean.admitRead (i : ℕ) (q : Question) (enabled : Bool) (readCacheTtl now : ℕ)
    (allowed : Bool) :
  (s.step toLowercase fingerprint (.admitRead i q enabled readCacheTtl now allowed)).1.Clean
  := by
  obtain ⟨cache, hsub, hstep | hstep | ⟨key, entry, -, hstep⟩⟩ :=
    admitRead_cases toLowercase fingerprint s i q enabled readCacheTtl now allowed
  · rw [hstep]
    apply (clean.setCache hsub).allow
  · rw [hstep]
    apply clean.setCache hsub
  · rw [hstep]
    apply clean.setCache hsub

/-- An answer is filed carefully when its read is not falsified. -/
theorem Clean.file_iff (i : ℕ) (stdout : String) (readCacheTtl now : ℕ) :
  (s.step toLowercase fingerprint (.file i stdout readCacheTtl now)).1.Clean
    ↔ s.Careful toLowercase fingerprint (.file i stdout readCacheTtl now)
  := by
  rw [Careful]
  simp only [step]
  split
  · next key hread =>
      obtain ⟨r, hr, hkey⟩ := Option.bind_eq_some_iff.mp hread
      constructor
      · intro hclean r' hr' _
        apply hclean _ (Cache.mem_store ..) r' hr'
      · intro hcareful e he r' hr'
        obtain rfl | he := Cache.mem_of_mem_store he
        · obtain rfl := Option.some.inj (hr.symm.trans hr')
          apply hcareful r hr
          rw [hkey, Option.isSome_some]
        · apply clean e he r' hr'
  · next hread =>
      apply iff_of_true clean
      intro r hr hkey
      rw [hr, Option.bind_some] at hread
      rw [hread] at hkey
      cases hkey

/-- A mutation is careful when it drops the entries of every read that is about its repository. -/
theorem Clean.change_iff (change : GhRecordChange) :
  (s.step toLowercase fingerprint (.change change)).1.Clean
    ↔ s.Careful toLowercase fingerprint (.change change)
  := by
  rw [Careful]
  simp only [step]
  split
  · next hnamed =>
      apply iff_of_true clean
      intro repo hrepo
      cases hnamed.symm.trans hrepo
  · next repo hnamed =>
      cases repo with
      | none =>
        apply iff_of_true
        · intro e he
          cases he
        · intro repo hrepo
          cases hnamed.symm.trans hrepo
      | some repo =>
        constructor
        · rintro hclean repo' hrepo e he r hr hof
          cases hnamed.symm.trans hrepo
          by_contra hstays
          have hkept := hclean e (List.mem_filter.mpr ⟨he, by simpa using hstays⟩)
            (r.change toLowercase repo) (Option.map_eq_some_iff.mpr ⟨r, hr, rfl⟩)
          simp [Read.change, hof] at hkept
        · intro hcareful e he r' hr'
          obtain ⟨he, hstays⟩ := List.mem_filter.mp he
          obtain ⟨r, hr, rfl⟩ := Option.map_eq_some_iff.mp hr'
          have hother : ¬ r.question.Of toLowercase repo := by
            intro hof
            rw [hcareful repo hnamed e he r hr hof] at hstays
            cases hstays
          simp [Read.change, hother, clean e he r hr]

end CleanSteps

/-- A careful step files and keeps nothing that is falsified, and no other step does so. -/
theorem clean_step_iff (clean : s.Clean) (a : Act) :
  (s.step toLowercase fingerprint a).1.Clean ↔ s.Careful toLowercase fingerprint a
  := by
  cases a with
  | admitRead i q enabled readCacheTtl now allowed =>
    apply iff_of_true _ trivial
    apply clean.admitRead
  | file i stdout readCacheTtl now => apply clean.file_iff
  | change change => apply clean.change_iff

theorem notMem_allow (s : Daemon) (i j : ℕ) (q : Question) :
  .cached i ∉ (s.allow j q).2
  := by
  intro hmem
  rw [allow] at hmem
  split at hmem
  · cases List.mem_singleton.mp hmem
  · cases hmem

/-- What a read is answered with is in the cache. -/
theorem mem_of_answered {a : Act} {i : ℕ} (h : .cached i ∈ (s.step toLowercase fingerprint a).2) :
  ∃ key entry, (key, entry) ∈ s.cache ∧ entry.read = i
  := by
  cases a with
  | admitRead j q enabled readCacheTtl now allowed =>
    obtain ⟨cache, -, hstep | hstep | ⟨key, entry, hentry, hstep⟩⟩ :=
      admitRead_cases toLowercase fingerprint s j q enabled readCacheTtl now allowed
    · rw [hstep] at h
      cases notMem_allow _ _ _ _ h
    · rw [hstep] at h
      cases h
    · rw [hstep] at h
      cases List.mem_singleton.mp h
      exact ⟨key, entry, hentry, rfl⟩
  | file j stdout readCacheTtl now =>
    simp only [step] at h
    split at h
    · cases h
    · cases h
  | change change =>
    simp only [step] at h
    split at h
    · cases h
    · cases List.mem_singleton.mp h

/-- Nothing that is kept is falsified when no answer could be. -/
theorem clean_iff {os : List Obs} (hs : Sound toLowercase fingerprint s os) :
  s.Clean ↔ ∀ a, ∀ o ∈ (s.step toLowercase fingerprint a).2, Fresh toLowercase os o
  := by
  constructor
  · intro clean a o ho
    cases o with
    | admitted i q => trivial
    | applied repo => trivial
    | cached i =>
      obtain ⟨key, entry, hentry, rfl⟩ := mem_of_answered ho
      obtain ⟨r, hr, -⟩ := hs.entries _ hentry
      have hfresh := clean _ hentry r hr
      intro hfalsified
      rw [(hs.falsified _ r hr).mpr hfalsified] at hfresh
      cases hfresh
  · rintro fresh ⟨key, entry⟩ he r hr
    obtain ⟨r', hr', hkey⟩ := hs.entries _ he
    obtain rfl := Option.some.inj (hr.symm.trans hr')
    -- the question of the read is asked once more, at the time of the entry
    have hanswer := fresh (.admitRead 0 r.question true 0 entry.at' false) (.cached entry.read) (by
      simp only [step]
      rw [hkey, Option.map_some, Cache.cached_at hs.distinct he]
      apply List.mem_singleton_self)
    rw [Bool.eq_false_iff]
    intro hfalsified
    apply hanswer
    apply (hs.falsified entry.read r hr).mp hfalsified

/-! ### The runs -/

theorem sound_new :
  Sound toLowercase fingerprint new []
  := by
  constructor
  · apply List.nodup_nil
  · intro e he
    cases he
  · intro i q
    constructor
    · intro h
      cases h
    · rintro ⟨r, hr, -⟩
      cases hr
  · intro i r hr
    cases hr

/-- At no point of a run would a read be answered with what a mutation falsified, exactly when the
steps of the run are careful. -/
theorem answers_fresh_iff (toLowercase fingerprint : String → String) (as : List Act) :
  (∀ before after, as = before ++ after → ∀ a,
      ∀ o ∈ (machine toLowercase fingerprint).emit
        ((machine toLowercase fingerprint).final new before) a,
      Fresh toLowercase ((machine toLowercase fingerprint).trace new before) o)
    ↔ (machine toLowercase fingerprint).Along (Careful toLowercase fingerprint) new as
  := by
  have hsound : ∀ as, Sound toLowercase fingerprint
      ((machine toLowercase fingerprint).final new as)
      ((machine toLowercase fingerprint).trace new as) := by
    intro as
    apply (machine toLowercase fingerprint).invariant (P := fun _ _ => True)
      (I := Sound toLowercase fingerprint) sound_new
    · intro s os a _ hs
      apply sound_step hs
    · apply Machine.along_of_forall
      intro s a
      trivial
  rw [← (machine toLowercase fingerprint).forall_reached_iff (F := fun _ _ => True) (I := Clean)
    (J := fun s => ∃ os, Sound toLowercase fingerprint s os)]
  · apply forall_congr'
    intro before
    apply forall_congr'
    intro after
    apply forall_congr'
    intro _
    rw [clean_iff (hsound before)]
    rfl
  · intro e he
    cases he
  · exact ⟨[], sound_new⟩
  · rintro s a - ⟨os, hs⟩
    exact ⟨_, sound_step hs a⟩
  · intro s a _ _ clean
    apply clean_step_iff clean
  · apply Machine.along_of_forall
    intro s a
    trivial

end Daemon

end Falsified

/-! ### An issue that is closed -/

namespace Daemon

/-- `gh issue view 12` in a worktree of `acme/widget`. -/
def viewIssue : Question where
  env :=
    { ghHost := none
      ghRepo := none
      tokens := []
      remotes := some [("origin", some "https://github.com/acme/widget.git")]
      branch := some "main"
      githubHost := none }
  args := ["issue", "view", "12"]

/-- The issue is read, and closed. -/
def closeIssue : List Act :=
  [.admitRead 0 viewIssue true 90000000000 0 true, .file 0 "open" 90000000000 1000000000,
    .change ⟨"12", some "acme/widget"⟩]

def toAsciiLower (s : String) : String := String.ofList (toAsciiLowercase s.toList)

/-- The issue that was closed is still read as open. -/
theorem closed_issue_open :
  ¬ ∀ before after, closeIssue = before ++ after → ∀ a,
      ∀ o ∈ (machine toAsciiLower id).emit ((machine toAsciiLower id).final new before) a,
      Fresh toAsciiLower ((machine toAsciiLower id).trace new before) o
  := by
  intro h
  apply h closeIssue [] rfl (.admitRead 1 viewIssue true 90000000000 2000000000 true) (.cached 0)
  · decide +kernel
  · use viewIssue, "acme/widget"
    decide +kernel

end Daemon

end Lazybox.GhShim
