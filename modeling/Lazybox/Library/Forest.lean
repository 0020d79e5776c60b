import Lazybox.Library.Keyed

/-!
# Forests given by the parents of their nodes

The nodes of a forest are the elements of a list with distinct keys, and an element names the key
of its parent, if it has one.  `Under k` holds of the nodes the links lead from up to the node
with key `k`.  `walk` collects a node and, after it, what lies below its children; it may run out
of fuel.  When the links lead from a higher rank to a lower one, a walk ends with the fuel of the
ranks there are, and visits what is under its node, each once.
-/

universe u v

namespace Forest

/-- All of the lists, one after another, when all of them are there. -/
def collect {α : Type u} : List (Option (List α)) → Option (List α)
  | [] => some []
  | x :: xs => x.bind fun as => (collect xs).map fun bs => as ++ bs

variable {α : Type u} {κ : Type v} [DecidableEq κ] (key : α → κ) (parent : α → Option κ)
  (l : List α)

def children (k : κ) : List α := l.filter fun b => parent b = some k

def walk : ℕ → κ → Option (List α)
  | 0, _ => none
  | n + 1, k =>
      match Keyed.lookup key k l with
      | none => some []
      | some a =>
          (collect ((children parent l k).map fun b => walk n (key b))).map fun bs => a :: bs

/-- What lies below the roots, one after another. -/
def walks (n : ℕ) (roots : List α) : Option (List α) :=
  collect (roots.map fun r => walk key parent l n (key r))

/-- The links lead from the node up to the node with key `k`. -/
inductive Under (k : κ) : α → Prop where
  | self {a : α} (mem : a ∈ l) (eq : key a = k) : Under k a
  | child {a b : α} (mem : b ∈ l) (link : parent b = some (key a)) (above : Under k a) : Under k b

/-- The links lead from a higher rank to a lower one, and the ranks are below `N`. -/
structure Ranked (rank : κ → ℕ) (N : ℕ) : Prop where
  lt : ∀ a ∈ l, rank (key a) < N
  link : ∀ a ∈ l, ∀ b ∈ l, parent b = some (key a) → rank (key a) < rank (key b)

variable {key parent l}

theorem mem_children {k : κ} {b : α} :
  b ∈ children parent l k ↔ b ∈ l ∧ parent b = some k
  := by
  simp [children]

/-! ### Collecting -/

variable {as : List α} {xs : List (Option (List α))}

theorem collect_cons_eq_some {x : Option (List α)} :
  collect (x :: xs) = some as
    ↔ ∃ bs cs, x = some bs ∧ collect xs = some cs ∧ as = bs ++ cs
  := by
  simp only [collect, Option.bind_eq_some_iff, Option.map_eq_some_iff]
  constructor
  · rintro ⟨bs, hbs, cs, hcs, rfl⟩
    exact ⟨bs, cs, hbs, hcs, rfl⟩
  · rintro ⟨bs, cs, hbs, hcs, rfl⟩
    exact ⟨bs, hbs, cs, hcs, rfl⟩

/-- What is collected is there when each part is. -/
theorem exists_collect (h : ∀ x ∈ xs, ∃ as, x = some as) :
  ∃ as, collect xs = some as
  := by
  induction xs with
  | nil => exact ⟨[], rfl⟩
  | cons x xs ih =>
    rw [List.forall_mem_cons] at h
    obtain ⟨⟨bs, hbs⟩, hxs⟩ := h
    obtain ⟨cs, hcs⟩ := ih hxs
    exact ⟨bs ++ cs, collect_cons_eq_some.mpr ⟨bs, cs, hbs, hcs, rfl⟩⟩

theorem exists_of_collect (h : collect xs = some as) :
  ∀ x ∈ xs, ∃ bs, x = some bs
  := by
  induction xs generalizing as with
  | nil => simp
  | cons x xs ih =>
    obtain ⟨bs, cs, hbs, hcs, -⟩ := collect_cons_eq_some.mp h
    rw [List.forall_mem_cons]
    exact ⟨⟨bs, hbs⟩, ih hcs⟩

/-- What the nodes of a list have below them, collected, is what one of them has below it. -/
theorem mem_collect_map
    {β : Type*} {f : β → Option (List α)} {bs : List β} (h : collect (bs.map f) = some as) (a : α) :
  a ∈ as ↔ ∃ b ∈ bs, ∃ cs, f b = some cs ∧ a ∈ cs
  := by
  induction bs generalizing as with
  | nil =>
    cases h
    simp
  | cons b bs ih =>
    obtain ⟨cs, ds, hcs, hds, rfl⟩ := collect_cons_eq_some.mp h
    rw [List.mem_append, ih hds]
    simp [hcs]

/-- What is collected has no duplicates when its parts have none and have nothing in common. -/
theorem nodup_collect_map
    {β : Type*} {f : β → Option (List α)} {bs : List β}
    (h : collect (bs.map f) = some as) (distinct : bs.Nodup)
    (nodup : ∀ b ∈ bs, ∀ cs, f b = some cs → cs.Nodup)
    (disjoint : ∀ b ∈ bs, ∀ b' ∈ bs, ∀ cs cs', f b = some cs → f b' = some cs' →
      ∀ a, a ∈ cs → a ∈ cs' → b = b') :
  as.Nodup
  := by
  induction bs generalizing as with
  | nil =>
    cases h
    apply List.nodup_nil
  | cons b bs ih =>
    obtain ⟨cs, ds, hcs, hds, rfl⟩ := collect_cons_eq_some.mp h
    rw [List.nodup_cons] at distinct
    rw [List.nodup_append]
    and_intros
    · apply nodup b List.mem_cons_self cs hcs
    · apply ih hds distinct.2
      · intro b' hb'
        apply nodup b' (List.mem_cons_of_mem _ hb')
      · intro b' hb' b'' hb''
        apply disjoint b' (List.mem_cons_of_mem _ hb') b'' (List.mem_cons_of_mem _ hb'')
    · rintro a ha a' ha' rfl
      obtain ⟨b', hb', cs', hcs', hmem⟩ := (mem_collect_map hds a).mp ha'
      have := disjoint b List.mem_cons_self b' (List.mem_cons_of_mem _ hb') cs cs' hcs hcs' a
        ha hmem
      apply distinct.1
      rwa [this]

/-! ### What is under a node -/

namespace Under

variable {k : κ} {a b : α}

omit [DecidableEq κ] in
theorem mem (h : Under key parent l k a) :
  a ∈ l
  := by
  cases h with
  | self mem => apply mem
  | child mem => apply mem

omit [DecidableEq κ] in
/-- A node under `k` is the node with key `k`, or under one of its children. -/
theorem eq_or_child (h : Under key parent l k a) :
  key a = k ∨ ∃ c ∈ l, parent c = some k ∧ Under key parent l (key c) a
  := by
  induction h with
  | self mem eq =>
    left
    apply eq
  | @child a b mem link above ih =>
    right
    obtain heq | ⟨c, hc, hlink, hunder⟩ := ih
    · use b, mem
      rw [link, heq]
      exact ⟨rfl, .self mem rfl⟩
    · exact ⟨c, hc, hlink, .child mem link hunder⟩

omit [DecidableEq κ] in
theorem eq_of_root (h : Under key parent l k a) (root : parent a = none) :
  key a = k
  := by
  cases h with
  | self mem eq => apply eq
  | child mem link above =>
    rw [root] at link
    cases link

omit [DecidableEq κ] in
theorem rank_le {rank : κ → ℕ} {N : ℕ} (ranked : Ranked key parent l rank N)
    (h : Under key parent l k a) :
  rank k ≤ rank (key a)
  := by
  induction h with
  | self mem eq =>
    have := congrArg rank eq
    omega
  | child mem link above ih =>
    have := ranked.link _ above.mem _ mem link
    omega

omit [DecidableEq κ] in
/-- The node with key `k`, which has what the links hand on upwards. -/
theorem exists_root {keep : α → Prop}
    (upward : ∀ a ∈ l, ∀ b ∈ l, parent b = some (key a) → keep b → keep a)
    (h : Under key parent l k a) (ha : keep a) :
  ∃ r ∈ l, key r = k ∧ keep r
  := by
  induction h with
  | @self a mem eq => exact ⟨a, mem, eq, ha⟩
  | @child a b mem link above ih => apply ih (upward a above.mem b mem link ha)

omit [DecidableEq κ] in
/-- What is under a node in one forest is under it in another, where the links of the nodes in
between are the same. -/
theorem transfer {l' : List α} (keep : α → Prop)
    (covered : ∀ a ∈ l, keep a → ∃ b ∈ l', key b = key a)
    (linked : ∀ a ∈ l, keep a → ∀ b ∈ l', key b = key a → parent b = parent a)
    (upward : ∀ a ∈ l, ∀ b ∈ l, parent b = some (key a) → keep b → keep a)
    (h : Under key parent l k a) (ha : keep a) :
  ∀ b ∈ l', key b = key a → Under key parent l' k b
  := by
  induction h with
  | self mem eq =>
    intro b hb hkey
    apply Under.self hb (hkey.trans eq)
  | @child a c mem link above ih =>
    intro b hb hkey
    have hkeep := upward a above.mem c mem link ha
    obtain ⟨a', ha', hkey'⟩ := covered a above.mem hkeep
    apply Under.child hb _ (ih hkeep a' ha' hkey')
    rw [linked c mem ha b hb hkey, link, hkey']

variable (distinct : (l.map key).Nodup)
include distinct

omit [DecidableEq κ] in
theorem eq_of_key {a b : α} (ha : a ∈ l) (hb : b ∈ l) (h : key a = key b) :
  a = b
  := by
  apply List.inj_on_of_nodup_map distinct ha hb h

omit [DecidableEq κ] in
theorem trans (hc : Under key parent l k a) (h : Under key parent l (key a) b) :
  Under key parent l k b
  := by
  induction h with
  | self mem eq =>
    rw [eq_of_key distinct mem hc.mem eq]
    apply hc
  | child mem link _ ih => apply Under.child mem link ih

omit [DecidableEq κ] in
/-- Of two keys with a node under both, the node with one of them is under the other. -/
theorem comparable {k' : κ} (h : Under key parent l k b) (h' : Under key parent l k' b) :
  (∃ a, key a = k' ∧ Under key parent l k a) ∨ ∃ a, key a = k ∧ Under key parent l k' a
  := by
  induction h with
  | @self a mem eq =>
    right
    exact ⟨a, eq, h'⟩
  | @child a b mem link above ih =>
    cases h' with
    | self mem' eq' =>
      left
      exact ⟨b, eq', .child mem link above⟩
    | @child a' _ mem' link' above' =>
      have heq : a' = a := by
        apply eq_of_key distinct above'.mem above.mem
        rw [link] at link'
        apply (Option.some.inj link').symm
      rw [heq] at above'
      apply ih above'

end Under

/-! ### Walks -/

variable {rank : κ → ℕ}

variable {n N : ℕ}

/-- A walk ends with the fuel of the ranks that are left. -/
theorem exists_walk
    (ranked : Ranked key parent l rank N) {k : κ} (hn : 0 < n) (hN : N ≤ rank k + n) :
  ∃ as, walk key parent l n k = some as
  := by
  induction n generalizing k with
  | zero => omega
  | succ n ih =>
    rw [walk]
    cases hfound : Keyed.lookup key k l with
    | none => exact ⟨[], rfl⟩
    | some a =>
      obtain ⟨hmem, rfl⟩ := Keyed.lookup_eq_some hfound
      have hwalks : ∀ x ∈ (children parent l (key a)).map fun b => walk key parent l n (key b),
          ∃ as, x = some as := by
        simp only [List.mem_map, forall_exists_index, and_imp]
        rintro _ b hb rfl
        obtain ⟨hbl, hlink⟩ := mem_children.mp hb
        have hlt := ranked.link a hmem b hbl hlink
        have hbound := ranked.lt b hbl
        apply ih
        · omega
        · omega
      obtain ⟨bs, hbs⟩ := exists_collect hwalks
      exact ⟨a :: bs, by rw [hbs]; rfl⟩

variable (distinct : (l.map key).Nodup)
include distinct

/-- A walk visits what is under its node. -/
theorem mem_walk {k : κ} (h : walk key parent l n k = some as) (b : α) :
  b ∈ as ↔ Under key parent l k b
  := by
  induction n generalizing k as b with
  | zero => cases h
  | succ n ih =>
    rw [walk] at h
    cases hfound : Keyed.lookup key k l with
    | none =>
      rw [hfound] at h
      cases h
      have habsent := Keyed.lookup_eq_none.mp hfound
      simp only [List.not_mem_nil, false_iff]
      intro hunder
      induction hunder with
      | self mem eq => apply habsent _ mem eq
      | child _ _ _ ih => apply ih
    | some a =>
      obtain ⟨hmem, hkey⟩ := Keyed.lookup_eq_some hfound
      rw [hfound] at h
      obtain ⟨bs, hbs, rfl⟩ := Option.map_eq_some_iff.mp h
      rw [List.mem_cons, mem_collect_map hbs]
      constructor
      · rintro (rfl | ⟨c, hc, cs, hcs, hb⟩)
        · apply Under.self hmem hkey
        · obtain ⟨hcl, hlink⟩ := mem_children.mp hc
          have hca : Under key parent l k c := by
            apply Under.child hcl _ (.self hmem hkey)
            rw [hlink, hkey]
          apply hca.trans distinct ((ih hcs b).mp hb)
      · intro hunder
        obtain heq | ⟨c, hc, hlink, hbelow⟩ := hunder.eq_or_child
        · left
          apply Under.eq_of_key distinct hunder.mem hmem
          rw [heq, hkey]
        · right
          have hchild : c ∈ children parent l k := mem_children.mpr ⟨hc, hlink⟩
          obtain ⟨cs, hcs⟩ := exists_of_collect hbs _ (List.mem_map_of_mem hchild)
          exact ⟨c, hchild, cs, hcs, (ih hcs b).mpr hbelow⟩

omit [DecidableEq κ] in
/-- Nodes with one parent, or with none, have nothing under both of them. -/
theorem Under.eq_of_siblings (ranked : Ranked key parent l rank N) {b b' x : α} (hb : b ∈ l)
    (hb' : b' ∈ l) (siblings : parent b = parent b') (h : Under key parent l (key b) x)
    (h' : Under key parent l (key b') x) :
  b = b'
  := by
  -- the parent of a node under another is under that one, and has a lower rank
  have below : ∀ c ∈ l, ∀ d ∈ l, parent c = parent d → Under key parent l (key c) d → c = d := by
    intro c hc d hd hlinks hunder
    cases hunder with
    | self mem eq => apply (eq_of_key distinct hd hc eq).symm
    | @child a _ mem link above =>
      have hrank := above.rank_le ranked
      have hlink := ranked.link a above.mem c hc (hlinks.trans link)
      omega
  obtain ⟨y, hy, hunder⟩ | ⟨y, hy, hunder⟩ := h.comparable distinct h'
  · rw [eq_of_key distinct hunder.mem hb' hy] at hunder
    apply below b hb b' hb' siblings hunder
  · rw [eq_of_key distinct hunder.mem hb hy] at hunder
    apply (below b' hb' b hb siblings.symm hunder).symm

/-- A walk visits no node twice. -/
theorem nodup_walk
    (ranked : Ranked key parent l rank N) {k : κ} (h : walk key parent l n k = some as) :
  as.Nodup
  := by
  induction n generalizing k as with
  | zero => cases h
  | succ n ih =>
    rw [walk] at h
    cases hfound : Keyed.lookup key k l with
    | none =>
      rw [hfound] at h
      cases h
      apply List.nodup_nil
    | some a =>
      obtain ⟨hmem, rfl⟩ := Keyed.lookup_eq_some hfound
      rw [hfound] at h
      obtain ⟨bs, hbs, rfl⟩ := Option.map_eq_some_iff.mp h
      rw [List.nodup_cons]
      constructor
      · intro ha
        obtain ⟨c, hc, cs, hcs, hac⟩ := (mem_collect_map hbs a).mp ha
        obtain ⟨hcl, hlink⟩ := mem_children.mp hc
        have hrank := ((mem_walk distinct hcs a).mp hac).rank_le ranked
        have hlt := ranked.link a hmem c hcl hlink
        omega
      · apply nodup_collect_map hbs
        · apply (List.Nodup.of_map _ distinct).filter
        · intro b _ cs hcs
          apply ih hcs
        · intro b hb b' hb' cs cs' hcs hcs' x hx hx'
          obtain ⟨hbl, hlink⟩ := mem_children.mp hb
          obtain ⟨hbl', hlink'⟩ := mem_children.mp hb'
          apply Under.eq_of_siblings distinct ranked hbl hbl' (hlink.trans hlink'.symm)
          · apply (mem_walk distinct hcs x).mp hx
          · apply (mem_walk distinct hcs' x).mp hx'

/-! ### The walks from several roots -/

omit distinct in
theorem exists_walks
    (ranked : Ranked key parent l rank N) (hn : 0 < n) (hN : N ≤ n) (roots : List α) :
  ∃ as, walks key parent l n roots = some as
  := by
  apply exists_collect
  simp only [List.mem_map, forall_exists_index, and_imp]
  rintro _ r _ rfl
  apply exists_walk ranked hn
  omega

theorem mem_walks {roots : List α} (h : walks key parent l n roots = some as) (b : α) :
  b ∈ as ↔ ∃ r ∈ roots, Under key parent l (key r) b
  := by
  rw [mem_collect_map h]
  constructor
  · rintro ⟨r, hr, cs, hcs, hb⟩
    exact ⟨r, hr, (mem_walk distinct hcs b).mp hb⟩
  · rintro ⟨r, hr, hunder⟩
    obtain ⟨cs, hcs⟩ := exists_of_collect h _ (List.mem_map_of_mem hr)
    exact ⟨r, hr, cs, hcs, (mem_walk distinct hcs b).mpr hunder⟩

theorem nodup_walks (ranked : Ranked key parent l rank N) {roots : List α}
    (h : walks key parent l n roots = some as) (nodup : roots.Nodup)
    (mem : ∀ r ∈ roots, r ∈ l ∧ parent r = none) :
  as.Nodup
  := by
  apply nodup_collect_map h nodup
  · intro r _ cs hcs
    apply nodup_walk distinct ranked hcs
  · intro r hr r' hr' cs cs' hcs hcs' x hx hx'
    obtain ⟨hrl, hroot⟩ := mem r hr
    obtain ⟨hrl', hroot'⟩ := mem r' hr'
    apply Under.eq_of_siblings distinct ranked hrl hrl' (hroot.trans hroot'.symm)
    · apply (mem_walk distinct hcs x).mp hx
    · apply (mem_walk distinct hcs' x).mp hx'

end Forest
