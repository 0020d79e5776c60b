import Lazybox.Proxy.UsageNesting

/-!
# Which tokens are accepted

The parser never goes past a fault: at every point the tokens it took are the beginning of a
document.  Every open container is the beginning of an object or an array, with the fields that its
scope retains of the members read so far.
-/

namespace Lazybox

open Json

namespace UsageJson

variable {ν : Type} (serde : SerdeJson ν)

/-! ### What was read of each container -/

/-- The items read so far, each with its comma. -/
def leadingItems (items : List Tree) : List Token :=
  (Tree.itemTokens items).flatMap (· ++ [.comma])

/-- The members read so far, each with its comma. -/
def leadingMembers (members : List (StringBody × Tree)) : List Token :=
  (Tree.memberTokens members).flatMap (· ++ [.comma])

/-- The frame of a container at this height, and what was read of the container. -/
inductive PartRead (height : ℕ) : Frame ν → List Token → Prop where
  /-- Where an item is to come. -/
  | atItem (items : List Tree) (depth : height + Tree.itemDepth items ≤ MAX_DEPTH) :
      PartRead height ⟨false, if items.isEmpty then .valueOrEnd else .value, .ignore, none, []⟩
        (.beginArray :: leadingItems items)
  /-- Where an item was read. -/
  | afterItem (items : List Tree) (item : Tree)
      (depth : height + Tree.itemDepth (items ++ [item]) ≤ MAX_DEPTH) :
      PartRead height ⟨false, .commaOrEnd, .ignore, none, []⟩
        (.beginArray :: (leadingItems items ++ item.tokens))
  /-- Where a key is to come. -/
  | atKey (scope : Scope) (members : List (StringBody × Tree))
      (depth : height + Tree.memberDepth members ≤ MAX_DEPTH) :
      PartRead height
        ⟨true, if members.isEmpty then .keyOrEnd else .key, scope, none,
          projectMembers serde scope members []⟩
        (.beginObject :: leadingMembers members)
  /-- Where a key was read. -/
  | afterKey (scope : Scope) (members : List (StringBody × Tree)) (key : StringBody)
      (depth : height + Tree.memberDepth members ≤ MAX_DEPTH) :
      PartRead height
        ⟨true, .colon, scope, (scope.field key.text).map fun _ => key.text,
          projectMembers serde scope members []⟩
        (.beginObject :: (leadingMembers members ++ [.string key]))
  /-- Where a key and its colon were read. -/
  | atValue (scope : Scope) (members : List (StringBody × Tree)) (key : StringBody)
      (depth : height + Tree.memberDepth members ≤ MAX_DEPTH) :
      PartRead height
        ⟨true, .value, scope, (scope.field key.text).map fun _ => key.text,
          projectMembers serde scope members []⟩
        (.beginObject :: (leadingMembers members ++ [.string key, .colon]))
  /-- Where a member was read. -/
  | afterMember (scope : Scope) (members : List (StringBody × Tree)) (key : StringBody)
      (value : Tree) (depth : height + Tree.memberDepth (members ++ [(key, value)]) ≤ MAX_DEPTH) :
      PartRead height
        ⟨true, .commaOrEnd, scope, none, projectMembers serde scope (members ++ [(key, value)]) []⟩
        (.beginObject :: (leadingMembers members ++ .string key :: .colon :: value.tokens))

/-- The open containers, and the tokens that were read of them. -/
inductive Opened : List (Frame ν) → List Token → Prop where
  | nil : Opened [] []
  | cons {stack : List (Frame ν)} {tokens part : List Token} {frame : Frame ν}
      (outer : Opened stack tokens) (expects : (between stack none).expectsValue = true)
      (scope : frame.object = true → frame.scope = (between stack none).childScope)
      (height : stack.length < MAX_DEPTH)
      (read : PartRead serde (stack.length + 1) frame part) :
      Opened (frame :: stack) (tokens ++ part)

/-- What the state between tokens tells of the tokens that were read. -/
def Reads (stack : List (Frame ν)) (root : Option (Value ν)) (tokens : List Token) : Prop :=
  match root with
  | none => Opened serde stack tokens
  | some value =>
      stack = [] ∧ ∃ t : Tree, tokens = t.tokens ∧ t.depth ≤ MAX_DEPTH
        ∧ value = project serde .root t

variable {tokens : List Token} {stack : List (Frame ν)}

theorem Opened.length_le (h : Opened serde stack tokens) :
  stack.length ≤ MAX_DEPTH
  := by
  cases h with
  | nil => apply Nat.zero_le
  | cons _ _ _ height _ => apply height

theorem itemTokens_append (items items' : List Tree) :
  Tree.itemTokens (items ++ items') = Tree.itemTokens items ++ Tree.itemTokens items'
  := by
  induction items with
  | nil => rfl
  | cons item items ih => rw [List.cons_append, Tree.itemTokens, ih, Tree.itemTokens]; rfl

theorem memberTokens_append (members members' : List (StringBody × Tree)) :
  Tree.memberTokens (members ++ members')
    = Tree.memberTokens members ++ Tree.memberTokens members'
  := by
  induction members with
  | nil => rfl
  | cons member members ih =>
    obtain ⟨key, value⟩ := member
    rw [List.cons_append, Tree.memberTokens, ih, Tree.memberTokens]
    rfl

theorem itemDepth_append (items items' : List Tree) :
  Tree.itemDepth (items ++ items') = max (Tree.itemDepth items) (Tree.itemDepth items')
  := by
  induction items with
  | nil => exact (Nat.zero_max _).symm
  | cons item items ih => rw [List.cons_append, Tree.itemDepth, ih, Tree.itemDepth, max_assoc]

theorem memberDepth_append (members members' : List (StringBody × Tree)) :
  Tree.memberDepth (members ++ members')
    = max (Tree.memberDepth members) (Tree.memberDepth members')
  := by
  induction members with
  | nil => exact (Nat.zero_max _).symm
  | cons member members ih =>
    obtain ⟨key, value⟩ := member
    rw [List.cons_append, Tree.memberDepth, ih, Tree.memberDepth, max_assoc]

theorem projectMembers_append (scope : Scope) (members members' : List (StringBody × Tree))
    (fields : List (String × Value ν)) :
  projectMembers serde scope (members ++ members') fields
    = projectMembers serde scope members' (projectMembers serde scope members fields)
  := by
  induction members generalizing fields with
  | nil => rfl
  | cons member members ih =>
    obtain ⟨key, value⟩ := member
    rw [List.cons_append, projectMembers, ih, projectMembers]

/-- An array is what was read of it and its end. -/
theorem tokens_array (items : List Tree) (item : Tree) :
  Tree.tokens (.array (items ++ [item]))
    = .beginArray :: (leadingItems items ++ item.tokens) ++ [.endArray]
  := by
  rw [Tree.tokens, itemTokens_append]
  change _ :: (separated (_ ++ [item.tokens]) ++ _) = _
  rw [separated_concat]
  rfl

/-- An object is what was read of it and its end. -/
theorem tokens_object (members : List (StringBody × Tree)) (key : StringBody) (value : Tree) :
  Tree.tokens (.object (members ++ [(key, value)]))
    = .beginObject :: (leadingMembers members ++ .string key :: .colon :: value.tokens)
      ++ [.endObject]
  := by
  rw [Tree.tokens, memberTokens_append]
  change _ :: (separated (_ ++ [.string key :: .colon :: value.tokens]) ++ _) = _
  rw [separated_concat]
  rfl

theorem leadingItems_concat (items : List Tree) (item : Tree) :
  leadingItems (items ++ [item]) = leadingItems items ++ item.tokens ++ [.comma]
  := by
  rw [leadingItems, itemTokens_append, List.flatMap_append, List.append_assoc]
  change _ ++ ((item.tokens ++ [.comma]) ++ []) = _
  rw [List.append_nil]
  rfl

theorem leadingMembers_concat
    (members : List (StringBody × Tree)) (key : StringBody) (value : Tree) :
  leadingMembers (members ++ [(key, value)])
    = leadingMembers members ++ (.string key :: .colon :: value.tokens) ++ [.comma]
  := by
  rw [leadingMembers, memberTokens_append, List.flatMap_append, List.append_assoc]
  change _ ++ ((.string key :: .colon :: value.tokens ++ [.comma]) ++ []) = _
  rw [List.append_nil]
  rfl

/-! ### One token -/

variable {part : List Token} {frame : Frame ν}

/-- A document that is complete where a value was expected is part of its container. -/
theorem PartRead.value (h : PartRead serde (stack.length + 1) frame part)
    (hexpects : frame.expect = .value ∨ frame.expect = .valueOrEnd) (t : Tree)
    (hdepth : stack.length + 1 + t.depth ≤ MAX_DEPTH) :
  PartRead serde (stack.length + 1)
    (completed frame (project serde (between (frame :: stack) none).childScope t))
    (part ++ t.tokens)
  := by
  cases h with
  | atItem items depth =>
    apply PartRead.afterItem
    rw [itemDepth_append]
    change _ + max _ (max t.depth 0) ≤ _
    omega
  | atValue scope members key depth =>
    have hdepth' : stack.length + 1 + Tree.memberDepth (members ++ [(key, t)]) ≤ MAX_DEPTH := by
      rw [memberDepth_append]
      change _ + max _ (max t.depth 0) ≤ _
      omega
    have hread : PartRead serde (stack.length + 1) _ _ :=
      .afterMember scope members key t hdepth'
    rw [projectMembers_append, projectMembers, projectMembers] at hread
    rw [List.cons_append, List.append_assoc]
    simp only [completed, childScope, between]
    cases hfield : scope.field key.text with
    | none =>
      rw [hfield] at hread
      apply hread
    | some child =>
      rw [hfield] at hread
      simp only [Option.map_some, Option.bind_some, hfield, Option.getD_some]
      apply hread
  | afterItem => simp at hexpects
  | atKey _ members => cases members <;> simp at hexpects
  | afterKey => simp at hexpects
  | afterMember => simp at hexpects

/-- What goes on with the innermost container goes on with what was read. -/
theorem Opened.advance
    {frame' : Frame ν} {more : List Token}
    (h : Opened serde (frame :: stack) tokens) (hobject : frame'.object = frame.object)
    (hscope : frame'.scope = frame.scope)
    (hpart : ∀ {part}, PartRead serde (stack.length + 1) frame part →
      PartRead serde (stack.length + 1) frame' (part ++ more)) :
  Opened serde (frame' :: stack) (tokens ++ more)
  := by
  cases h with
  | cons outer expects scope height read =>
    rw [List.append_assoc]
    rw [← hobject, ← hscope] at scope
    exact Opened.cons outer expects scope height (hpart read)

theorem PartRead.colon
    {height : ℕ} (h : PartRead serde height frame part) (hexpect : frame.expect = .colon) :
  PartRead serde height { frame with expect := .value } (part ++ [.colon])
  := by
  cases h with
  | afterKey scope members key depth =>
    have hread : PartRead serde height _ _ := .atValue scope members key depth
    simpa using hread
  | atItem items => cases items <;> simp at hexpect
  | atKey _ members => cases members <;> simp at hexpect
  | _ => simp at hexpect

theorem PartRead.comma
    {height : ℕ} (h : PartRead serde height frame part) (hexpect : frame.expect = .commaOrEnd) :
  PartRead serde height { frame with expect := if frame.object then .key else .value }
    (part ++ [.comma])
  := by
  cases h with
  | afterItem items item depth =>
    have hread : PartRead serde height _ _ := .atItem (items ++ [item]) depth
    rw [leadingItems_concat] at hread
    simpa using hread
  | afterMember scope members key value depth =>
    have hread : PartRead serde height _ _ := .atKey scope (members ++ [(key, value)]) depth
    rw [leadingMembers_concat] at hread
    simpa using hread
  | atItem items => cases items <;> simp at hexpect
  | atKey _ members => cases members <;> simp at hexpect
  | _ => simp at hexpect

theorem PartRead.key {height : ℕ} (h : PartRead serde height frame part)
    (hexpect : frame.expect = .key ∨ frame.expect = .keyOrEnd) (body : StringBody) :
  PartRead serde height (keyed frame body.text) (part ++ [.string body])
  := by
  cases h with
  | atKey scope members depth => exact .afterKey scope members body depth
  | atItem items => cases items <;> simp at hexpect
  | _ => simp at hexpect

/-- A document that is complete where a value was expected is part of what was read. -/
theorem Opened.value
    (h : Opened serde stack tokens) (hexpects : (between stack none).expectsValue = true)
    (t : Tree) (hdepth : stack.length + t.depth ≤ MAX_DEPTH) :
  ∃ stack' root', afterValue stack none (project serde (between stack none).childScope t)
      = between stack' root' ∧ Reads serde stack' root' (tokens ++ t.tokens)
  := by
  cases h with
  | nil => exact ⟨[], _, rfl, rfl, t, rfl, by simpa using hdepth, rfl⟩
  | @cons stack tokens part frame outer expects scope height read =>
    rw [expectsValue_between] at hexpects
    have hread := read.value serde hexpects t hdepth
    refine ⟨_ :: stack, none, rfl, ?_⟩
    rw [List.append_assoc]
    exact Opened.cons outer expects scope height hread

variable {root : Option (Value ν)}

/-- Where a value is expected, nothing was complete before. -/
theorem Reads.opened
    (h : Reads serde stack root tokens) (hexpects : (between stack root).expectsValue = true) :
  root = none ∧ Opened serde stack tokens
  := by
  cases root with
  | none => exact ⟨rfl, h⟩
  | some value =>
    obtain ⟨rfl, -⟩ := h
    cases hexpects

/-- The same, where a container is open. -/
theorem Reads.opened_cons (h : Reads serde (frame :: stack) root tokens) :
  root = none ∧ Opened serde (frame :: stack) tokens
  := by
  cases root with
  | none => exact ⟨rfl, h⟩
  | some value => cases h.1

/-- What must hold for a container to be opened. -/
theorem openContainer_valid
    {object : Bool} (h : ((between stack root).openContainer object).invalid = false) :
  (between stack root).expectsValue = true ∧ stack.length ≠ MAX_DEPTH
  := by
  rw [openContainer] at h
  split at h
  · cases h
  · next hvalid =>
      rw [not_or] at hvalid
      exact ⟨by simpa using hvalid.1, hvalid.2⟩

/-- What must hold for a container to be closed. -/
theorem closeContainer_valid
    {object : Bool} (h : ((between stack root).closeContainer object).invalid = false) :
  ∃ frame frames, stack = frame :: frames ∧ frame.object = object
    ∧ (frame.expect = .keyOrEnd ∨ frame.expect = .valueOrEnd ∨ frame.expect = .commaOrEnd)
  := by
  cases stack with
  | nil => cases h
  | cons frame frames =>
    refine ⟨frame, frames, rfl, ?_⟩
    rw [closeContainer] at h
    dsimp only [between] at h
    split at h
    · cases h
    · next hvalid =>
        rw [not_or, not_not, not_not] at hvalid
        exact hvalid

variable {s : UsageJson ν}

/-- What must hold for a scalar to be taken: a key, or a value, is expected. -/
theorem scalar_valid {value : Value ν} (h : (s.scalar value).invalid = false) :
  (∃ frame frames, s.stack = frame :: frames ∧ (frame.expect = .key ∨ frame.expect = .keyOrEnd)
      ∧ ((∃ key, value = .string key) ∨ s.segmented = true))
    ∨ s.expectsValue = true
  := by
  rw [scalar] at h
  have hvalue : (s.value value).invalid = false → s.expectsValue = true := by
    intro hvalid
    rw [UsageJson.value] at hvalid
    split at hvalid
    · cases hvalid
    · next hexpects => simpa using hexpects
  split at h
  · next frame frames hstack =>
      split at h
      · next hkey =>
          left
          refine ⟨frame, frames, hstack, hkey, ?_⟩
          split at h
          · next key => exact .inl ⟨key, rfl⟩
          · split at h
            · next hsegmented => exact .inr hsegmented
            · cases h
      · exact .inr (hvalue h)
  · exact .inr (hvalue h)

theorem feed_valid {s' : UsageJson ν} {token : Token} (h : s.feed serde token = some s') :
  s' = s.tokenStep serde token ∧ (s.tokenStep serde token).invalid = false
  := by
  rw [feed] at h
  split at h
  · cases h
  · next hvalid =>
      cases h
      exact ⟨rfl, Bool.eq_false_of_not_eq_true hvalid⟩

section feed

variable {stack : List (Frame ν)} {root : Option (Value ν)} {tokens : List Token}
  {s' : UsageJson ν}

theorem Reads.feed_begin (h : Reads serde stack root tokens) (object : Bool)
    (hvalid : ((between stack root).openContainer object).invalid = false) :
  ∃ stack' root', (between stack root).openContainer object = between stack' root'
    ∧ Reads serde stack' root' (tokens ++ [if object then .beginObject else .beginArray])
  := by
  obtain ⟨hexpects, hheight⟩ := openContainer_valid hvalid
  obtain ⟨rfl, hopened⟩ := h.opened serde hexpects
  have hheight' := lt_of_le_of_ne hopened.length_le hheight
  refine ⟨_, _, openContainer_between hexpects hheight' object, ?_⟩
  cases object with
  | true =>
    apply Opened.cons hopened hexpects (fun _ => rfl) hheight'
    exact .atKey (between stack none).childScope [] hheight'
  | false =>
    apply Opened.cons hopened hexpects (fun hobject => by cases hobject) hheight'
    exact .atItem [] hheight'

theorem Reads.feed_end (h : Reads serde stack root tokens) (object : Bool)
    (hvalid : ((between stack root).closeContainer object).invalid = false) :
  ∃ stack' root', (between stack root).closeContainer object = between stack' root'
    ∧ Reads serde stack' root' (tokens ++ [if object then .endObject else .endArray])
  := by
  obtain ⟨frame, frames, rfl, rfl, hexpect⟩ := closeContainer_valid hvalid
  obtain ⟨rfl, hopened⟩ := h.opened_cons serde
  cases hopened with
  | cons outer expects scope height read =>
    rw [closeContainer_between expects hexpect, List.append_assoc]
    cases read with
    | atItem items depth =>
      cases items with
      | nil => exact outer.value serde expects (.array []) height
      | cons => simp at hexpect
    | afterItem items item depth =>
      rw [if_neg (by simp), if_neg (by simp), ← tokens_array]
      apply outer.value serde expects (.array (items ++ [item]))
      rw [Tree.depth]
      omega
    | atKey scope' members depth =>
      cases members with
      | nil => exact outer.value serde expects (.object []) height
      | cons => simp at hexpect
    | afterMember scope' members key value depth =>
      have hscope := scope rfl
      dsimp only at hscope
      rw [if_pos rfl, if_pos rfl, ← tokens_object, hscope]
      apply outer.value serde expects (.object (members ++ [(key, value)]))
      rw [Tree.depth]
      omega
    | afterKey => simp at hexpect
    | atValue => simp at hexpect

theorem Reads.feed_colon
    (h : Reads serde stack root tokens) (hvalid : (between stack root).pushColon.invalid = false) :
  ∃ stack' root', (between stack root).pushColon = between stack' root'
    ∧ Reads serde stack' root' (tokens ++ [.colon])
  := by
  cases stack with
  | nil => cases hvalid
  | cons frame frames =>
    obtain ⟨rfl, hopened⟩ := h.opened_cons serde
    rw [pushColon] at hvalid ⊢
    dsimp only [between] at hvalid ⊢
    split at hvalid
    · next hexpect =>
        rw [if_pos hexpect]
        exact ⟨_ :: frames, none, rfl,
          hopened.advance serde rfl rfl fun read => read.colon serde hexpect⟩
    · cases hvalid

theorem Reads.feed_comma
    (h : Reads serde stack root tokens) (hvalid : (between stack root).pushComma.invalid = false) :
  ∃ stack' root', (between stack root).pushComma = between stack' root'
    ∧ Reads serde stack' root' (tokens ++ [.comma])
  := by
  cases stack with
  | nil => cases hvalid
  | cons frame frames =>
    obtain ⟨rfl, hopened⟩ := h.opened_cons serde
    rw [pushComma] at hvalid ⊢
    dsimp only [between] at hvalid ⊢
    split at hvalid
    · next hexpect =>
        rw [if_pos hexpect]
        exact ⟨_ :: frames, none, rfl,
          hopened.advance serde rfl rfl fun read => read.comma serde hexpect⟩
    · cases hvalid

theorem Reads.feed_key
    {frame : Frame ν} {frames : List (Frame ν)} (h : Reads serde (frame :: frames) root tokens)
    (hkey : frame.expect = .key ∨ frame.expect = .keyOrEnd) (body : StringBody) :
  Reads serde (keyed frame body.text :: frames) root (tokens ++ [.string body])
  := by
  obtain ⟨rfl, hopened⟩ := h.opened_cons serde
  exact hopened.advance serde rfl rfl fun read => read.key serde hkey body

/-- A scalar where a value is expected. -/
theorem Reads.feed_value (h : Reads serde stack root tokens)
    (hexpects : (between stack root).expectsValue = true) (t : Tree) (hdepth : t.depth = 0) :
  ∃ stack' root', afterValue stack root (project serde (between stack root).childScope t)
      = between stack' root' ∧ Reads serde stack' root' (tokens ++ t.tokens)
  := by
  obtain ⟨rfl, hopened⟩ := h.opened serde hexpects
  apply hopened.value serde hexpects t
  rw [hdepth]
  exact hopened.length_le

/-- A number or a literal is no key. -/
theorem Reads.feed_scalar (h : Reads serde stack root tokens) {value : Value ν}
    (hvalue : ∀ key, value ≠ .string key)
    (hvalid : ((between stack root).scalar value).invalid = false) (t : Tree) (hdepth : t.depth = 0)
    (hproject : project serde (between stack root).childScope t = value) :
  ∃ stack' root', (between stack root).scalar value = between stack' root'
    ∧ Reads serde stack' root' (tokens ++ t.tokens)
  := by
  obtain ⟨_, _, _, _, ⟨key, hkey⟩ | hsegmented⟩ | hexpects := scalar_valid hvalid
  · exact absurd hkey (hvalue key)
  · cases hsegmented
  · rw [scalar_between hexpects, ← hproject]
    apply h.feed_value serde hexpects t hdepth

theorem numberValue_ne_string (hserde : serde.Decides) (text : NumberText) (key : String) :
  numberValue serde text ≠ .string key
  := by
  rw [numberValue]
  split
  · simp
  · cases hvalue : serde.fromSliceValue text.val with
    | none => simp
    | some value =>
      obtain ⟨number, rfl⟩ := hserde.value_number text.val value text.property hvalue
      simp

theorem literalValue_ne_string (value : Literal) (key : String) :
  (literalValue value : Value ν) ≠ .string key
  := by
  cases value <;> simp [literalValue]

/-- A token that is taken goes on with what was read. -/
theorem Reads.feed (hserde : serde.Decides) (h : Reads serde stack root tokens) {token : Token}
    (hfeed : (between stack root).feed serde token = some s') :
  ∃ stack' root', s' = between stack' root' ∧ Reads serde stack' root' (tokens ++ [token])
  := by
  obtain ⟨rfl, hvalid⟩ := feed_valid serde hfeed
  cases token with
  | beginObject => apply h.feed_begin serde true hvalid
  | endObject => apply h.feed_end serde true hvalid
  | beginArray => apply h.feed_begin serde false hvalid
  | endArray => apply h.feed_end serde false hvalid
  | colon => apply h.feed_colon serde hvalid
  | comma => apply h.feed_comma serde hvalid
  | number text =>
    apply h.feed_scalar serde (numberValue_ne_string serde hserde text) hvalid (.number text)
    · rfl
    · rfl
  | literal value =>
    apply h.feed_scalar serde (literalValue_ne_string value) hvalid (.literal value)
    · rfl
    · rfl
  | string body =>
    rw [tokenStep] at hvalid
    obtain ⟨frame, frames, hstack, hkey, -⟩ | hexpects := scalar_valid hvalid
    · change stack = frame :: frames at hstack
      subst hstack
      have hnext := hfeed.symm.trans (UsageJson.feed_key serde hkey body)
      exact ⟨_, _, Option.some.inj hnext, h.feed_key serde hkey body⟩
    · have hexpects' : (between stack root).expectsValue = true := hexpects
      have hnext := hfeed.symm.trans (feed_string serde hexpects' body)
      rw [Option.some.inj hnext]
      exact h.feed_value serde hexpects' (.string body) rfl

end feed

/-- The tokens that are taken from the start are the beginning of a document. -/
theorem reads_feedAll
    (hserde : serde.Decides) (h : (between [] none).feedAll serde tokens = some s) :
  ∃ stack root, s = between stack root ∧ Reads serde stack root tokens
  := by
  induction tokens using List.reverseRecOn generalizing s with
  | nil =>
    cases h
    exact ⟨[], none, rfl, .nil⟩
  | append_singleton tokens token ih =>
    rw [feedAll_append] at h
    obtain ⟨s', hs', hs⟩ := Option.bind_eq_some_iff.mp h
    obtain ⟨stack, root, rfl, hreads⟩ := ih hs'
    rw [feedAll_cons] at hs
    obtain ⟨s'', hfeed, hdone⟩ := Option.bind_eq_some_iff.mp hs
    cases hdone
    apply hreads.feed serde hserde hfeed

/-- The tokens that lead to a complete value are those of the documents that are not nested too
deep, and the value is the projection of the document. -/
theorem feedAll_eq_some_iff (hserde : serde.Decides) (tokens : List Token) (value : Value ν) :
  (between [] none).feedAll serde tokens = some (between [] (some value))
    ↔ ∃ t : Tree, tokens = t.tokens ∧ t.depth ≤ MAX_DEPTH ∧ value = project serde .root t
  := by
  constructor
  · intro h
    obtain ⟨stack, root, hs, hreads⟩ := reads_feedAll serde hserde h
    cases hs
    exact hreads.2
  · rintro ⟨t, rfl, hdepth, rfl⟩
    apply feedAll_tokens serde t rfl
    simpa using hdepth

end UsageJson

end Lazybox
