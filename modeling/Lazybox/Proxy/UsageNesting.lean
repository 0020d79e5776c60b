import Lazybox.Proxy.UsageJson

/-!
# The nesting of a response

Between tokens, the parser is a machine that takes one token after the other.  Here it is shown to
accept exactly the tokens of the documents that are nested no deeper than its limit, and to end with
their projections: of every object the fields its scope retains, the last of those with one key;
`null` for an array, for a string that is too long, and for a number that is too long or out of
range.
-/

namespace Lazybox

open Json

variable {ν : Type}

/-- What is assumed of `serde_json`: that it decides strings, the three literals, and which values
numbers have. -/
structure SerdeJson.Decides (serde : SerdeJson ν) : Prop where
  value_string : ∀ body, serde.fromSliceValue (quoted body) = (decode body).map .string
  string_string : ∀ body, serde.fromSliceString (quoted body) = decode body
  value_null : serde.fromSliceValue (Literal.spelling .null) = some .null
  value_bool : ∀ b, serde.fromSliceValue (Literal.spelling (.bool b)) = some (.bool b)
  value_literal : ∀ first token value, (first = 0x74 ∨ first = 0x66 ∨ first = 0x6E) →
    (∀ byte ∈ token, isWhitespace byte = false) →
    serde.fromSliceValue (first :: token) = some value →
    ∃ literal, first :: token = Literal.spelling literal
  value_number : ∀ text value, IsNumber text → serde.fromSliceValue text = some value →
    ∃ number, value = .number number

/-- A string whose segments are not kept. -/
def overlong (body : StringBody) : Bool := STRING_SEGMENT ≤ body.val.length + 1

def literalValue : Literal → Value ν
  | .null => .null
  | .bool value => .bool value

/-- The value of a number, or `null` if it is too long or out of range. -/
def numberValue (serde : SerdeJson ν) (text : NumberText) : Value ν :=
  if 128 < text.val.length then .null else (serde.fromSliceValue text.val).getD .null

def stringValue (body : StringBody) : Value ν :=
  if overlong body then .null else .string body.text

mutual

/-- What is kept of a document in a scope. -/
def project (serde : SerdeJson ν) (scope : Scope) : Tree → Value ν
  | .string body => stringValue body
  | .number text => numberValue serde text
  | .literal value => literalValue value
  | .array _ => .null
  | .object members => .object (projectMembers serde scope members [])

/-- The fields that are kept of the members of an object, on top of those kept before. -/
def projectMembers (serde : SerdeJson ν) (scope : Scope) :
    List (StringBody × Tree) → List (String × Value ν) → List (String × Value ν)
  | [], fields => fields
  | (key, value) :: members, fields =>
      projectMembers serde scope members
        (match scope.field key.text with
          | some child => insertField key.text (project serde child value) fields
          | none => fields)

end

namespace UsageJson

variable (serde : SerdeJson ν)

/-- The step of a token. -/
def tokenStep (s : UsageJson ν) : Token → UsageJson ν
  | .beginObject => s.openContainer true
  | .endObject => s.closeContainer true
  | .beginArray => s.openContainer false
  | .endArray => s.closeContainer false
  | .colon => s.pushColon
  | .comma => s.pushComma
  | .string body =>
      { ({ s with segmented := overlong body }).scalar (stringValue body) with segmented := false }
  | .number text => s.scalar (numberValue serde text)
  | .literal value => s.scalar (literalValue value)

/-- The step of a token, if it is not at fault. -/
def feed (s : UsageJson ν) (token : Token) : Option (UsageJson ν) :=
  if (s.tokenStep serde token).invalid then none else some (s.tokenStep serde token)

def feedAll (s : UsageJson ν) (tokens : List Token) : Option (UsageJson ν) :=
  tokens.foldlM (feed serde) s

/-- The parser is between tokens, with these containers open. -/
def between (stack : List (Frame ν)) (root : Option (Value ν)) : UsageJson ν :=
  { (default : UsageJson ν) with stack := stack, root := root }

theorem feedAll_append (s : UsageJson ν) (tokens tokens' : List Token) :
  s.feedAll serde (tokens ++ tokens')
    = (s.feedAll serde tokens).bind fun s' => s'.feedAll serde tokens'
  := List.foldlM_append

theorem feedAll_cons (s : UsageJson ν) (token : Token) (tokens : List Token) :
  s.feedAll serde (token :: tokens)
    = (s.feed serde token).bind fun s' => s'.feedAll serde tokens
  := List.foldlM_cons

/-! ### The steps between tokens -/

/-- The frame once a value in it is complete. -/
def completed (frame : Frame ν) (value : Value ν) : Frame ν :=
  { frame with
    key := none
    fields :=
      match frame.key with
      | some key => insertField key value frame.fields
      | none => frame.fields
    expect := .commaOrEnd }

/-- The frame of a container that was just opened. -/
def opened (stack : List (Frame ν)) (object : Bool) : Frame ν where
  object := object
  expect := if object then .keyOrEnd else .valueOrEnd
  scope := if object then (between stack none).childScope else .ignore
  key := none
  fields := []

/-- Between tokens, after a value is complete. -/
def afterValue (stack : List (Frame ν)) (root : Option (Value ν)) (value : Value ν) :
    UsageJson ν :=
  match stack with
  | [] => between [] (some value)
  | frame :: frames => between (completed frame value :: frames) root

variable {root : Option (Value ν)} {stack : List (Frame ν)}

theorem expectsValue_between :
  (between stack root).expectsValue = true
    ↔ match stack with
      | [] => root = none
      | frame :: _ => frame.expect = .value ∨ frame.expect = .valueOrEnd
  := by
  cases stack with
  | nil => simp [expectsValue, between]
  | cons frame frames => simp [expectsValue, between]

theorem value_between (h : (between stack root).expectsValue = true) (value : Value ν) :
  (between stack root).value value = afterValue stack root value
  := by
  rw [UsageJson.value, h]
  cases stack <;> rfl

theorem afterValue_valid (stack : List (Frame ν)) (root : Option (Value ν)) (value : Value ν) :
  (afterValue stack root value).invalid = false
  := by
  cases stack <;> rfl

/-- Where a value is expected, a scalar is a value. -/
theorem scalar_between (h : (between stack root).expectsValue = true) (value : Value ν) :
  (between stack root).scalar value = afterValue stack root value
  := by
  rw [← value_between h]
  cases stack with
  | nil => rfl
  | cons frame frames =>
    have hkey : ¬ (frame.expect = .key ∨ frame.expect = .keyOrEnd) := by
      rintro (hkey | hkey) <;> simp [expectsValue, between, hkey] at h
    change (if frame.expect = .key ∨ frame.expect = .keyOrEnd then _ else _) = _
    rw [if_neg hkey]

theorem feed_eq_some {s s' : UsageJson ν} {token : Token} (h : s.tokenStep serde token = s')
    (hvalid : s'.invalid = false) :
  s.feed serde token = some s'
  := by
  rw [feed, h, hvalid]
  rfl

theorem feed_string (h : (between stack root).expectsValue = true) (body : StringBody) :
  (between stack root).feed serde (.string body) = some (afterValue stack root (stringValue body))
  := by
  apply feed_eq_some serde _ (afterValue_valid _ _ _)
  rw [tokenStep]
  rw [expectsValue_between] at h
  cases stack with
  | nil =>
    subst h
    rfl
  | cons frame frames =>
    cases hkey : frame.key <;> obtain h | h := h <;>
      simp [scalar, value, expectsValue, between, default, afterValue, completed, h, hkey]

theorem feed_number (h : (between stack root).expectsValue = true) (text : NumberText) :
  (between stack root).feed serde (.number text)
    = some (afterValue stack root (numberValue serde text))
  := feed_eq_some serde (scalar_between h _) (afterValue_valid _ _ _)

theorem feed_literal (h : (between stack root).expectsValue = true) (value : Literal) :
  (between stack root).feed serde (.literal value)
    = some (afterValue stack root (literalValue value))
  := feed_eq_some serde (scalar_between h _) (afterValue_valid _ _ _)

/-- A container is opened where a value is expected, down to the limit. -/
theorem openContainer_between (h : (between stack root).expectsValue = true)
    (hdepth : stack.length < MAX_DEPTH) (object : Bool) :
  (between stack root).openContainer object = between (opened stack object :: stack) root
  := by
  have hdepth' : (between stack root).stack.length ≠ MAX_DEPTH := Nat.ne_of_lt hdepth
  rw [openContainer, if_neg (by simp [h, hdepth'])]
  rfl

variable {frame : Frame ν}

/-- A container that is complete is a value. -/
theorem closeContainer_between (h : (between stack root).expectsValue = true)
    (hexpect : frame.expect = .keyOrEnd ∨ frame.expect = .valueOrEnd ∨ frame.expect = .commaOrEnd) :
  (between (frame :: stack) root).closeContainer frame.object
    = afterValue stack root (if frame.object then .object frame.fields else .null)
  := by
  rw [← value_between h, closeContainer]
  change (if frame.object ≠ frame.object ∨ ¬ _ then _ else _) = _
  rw [if_neg (by simp [hexpect])]
  rfl

/-- A field that metering retains has a short name. -/
theorem length_le_of_field {scope child : Scope} {key : String} (h : scope.field key = some child) :
  key.length ≤ 27
  := by
  unfold Scope.field at h
  split at h
  all_goals cases h
  all_goals decide +kernel

/-- A key that is too long to be kept names no field. -/
theorem field_of_overlong {body : StringBody} (h : overlong body = true) (scope : Scope) :
  scope.field body.text = none
  := by
  have hlong : STRING_SEGMENT ≤ body.val.length + 1 := of_decide_eq_true h
  have htext := length_le_of_decode body.decode_val
  cases hfield : scope.field body.text with
  | none => rfl
  | some child =>
    have hshort := length_le_of_field hfield
    rw [STRING_SEGMENT] at hlong
    omega

/-- The frame once a key in it is read. -/
def keyed (frame : Frame ν) (key : String) : Frame ν :=
  { frame with key := (frame.scope.field key).map fun _ => key, expect := .colon }

theorem feed_key (h : frame.expect = .key ∨ frame.expect = .keyOrEnd) (body : StringBody) :
  (between (frame :: stack) root).feed serde (.string body)
    = some (between (keyed frame body.text :: stack) root)
  := by
  apply feed_eq_some serde _ rfl
  cases hlong : overlong body with
  | true =>
    simp [tokenStep, scalar, stringValue, between, default, keyed, h, hlong,
      field_of_overlong hlong]
  | false => simp [tokenStep, scalar, stringValue, between, default, keyed, h, hlong]

theorem feed_begin
    (h : (between stack root).expectsValue = true) (hdepth : stack.length < MAX_DEPTH) :
  (between stack root).feed serde .beginObject = some (between (opened stack true :: stack) root)
    ∧ (between stack root).feed serde .beginArray
      = some (between (opened stack false :: stack) root)
  := by
  constructor
  · exact feed_eq_some serde (openContainer_between h hdepth true) rfl
  · exact feed_eq_some serde (openContainer_between h hdepth false) rfl

theorem feed_endArray
    (h : (between stack root).expectsValue = true) (hobject : frame.object = false)
    (hexpect : frame.expect = .valueOrEnd ∨ frame.expect = .commaOrEnd) :
  (between (frame :: stack) root).feed serde .endArray = some (afterValue stack root .null)
  := by
  have hclose := closeContainer_between h (.inr hexpect)
  rw [hobject] at hclose
  exact feed_eq_some serde hclose (afterValue_valid _ _ _)

theorem feed_endObject
    (h : (between stack root).expectsValue = true) (hobject : frame.object = true)
    (hexpect : frame.expect = .keyOrEnd ∨ frame.expect = .commaOrEnd) :
  (between (frame :: stack) root).feed serde .endObject
    = some (afterValue stack root (.object frame.fields))
  := by
  have hclose := closeContainer_between h (hexpect.imp_right .inr)
  rw [hobject] at hclose
  exact feed_eq_some serde hclose (afterValue_valid _ _ _)

theorem feed_colon (h : frame.expect = .colon) :
  (between (frame :: stack) root).feed serde .colon
    = some (between ({ frame with expect := .value } :: stack) root)
  := by
  apply feed_eq_some serde _ rfl
  simp [tokenStep, pushColon, between, h]

theorem feed_comma
    {object : Bool} (hobject : frame.object = object) (h : frame.expect = .commaOrEnd) :
  (between (frame :: stack) root).feed serde .comma
    = some (between ({ frame with expect := if object then .key else .value } :: stack) root)
  := by
  apply feed_eq_some serde _ rfl
  simp [tokenStep, pushComma, between, h, hobject]

/-! ### The tokens of a document -/

/-- The frame of an object once a member of it is read. -/
def extended (frame : Frame ν) (key : StringBody) (value : Tree) : Frame ν :=
  { frame with
    key := none
    fields :=
      match frame.scope.field key.text with
      | some child => insertField key.text (project serde child value) frame.fields
      | none => frame.fields
    expect := .commaOrEnd }

/-- The frame of an object once the key of a member and its colon are read. -/
def valued (frame : Frame ν) (key : StringBody) : Frame ν :=
  { keyed frame key.text with expect := .value }

theorem feedAll_key
    (h : frame.expect = .key ∨ frame.expect = .keyOrEnd) (key : StringBody) (tokens : List Token) :
  (between (frame :: stack) root).feedAll serde (.string key :: .colon :: tokens)
    = (between (valued frame key :: stack) root).feedAll serde tokens
  := by
  rw [feedAll_cons, feed_key serde h, Option.bind_some, feedAll_cons, feed_colon serde rfl]
  rfl

/-- A value goes into the fields, in the scope of its key, if its key is retained. -/
theorem afterValue_valued (stack : List (Frame ν)) (root : Option (Value ν)) (frame : Frame ν)
    (key : StringBody) (value : Tree) :
  afterValue (valued frame key :: stack) root
      (project serde (between (valued frame key :: stack) root).childScope value)
    = between (extended serde frame key value :: stack) root
  := by
  simp only [afterValue, completed, valued, keyed, extended, childScope, between]
  cases hfield : frame.scope.field key.text with
  | none => rfl
  | some child => simp [hfield]

mutual

variable {root : Option (Value ν)}

/-- The tokens of a document are taken where a value is expected, and complete its projection. -/
theorem feedAll_tokens (t : Tree) {stack : List (Frame ν)}
    (h : (between stack root).expectsValue = true) (hdepth : stack.length + t.depth ≤ MAX_DEPTH) :
  (between stack root).feedAll serde t.tokens
    = some (afterValue stack root (project serde (between stack root).childScope t))
  := by
  cases t with
  | string body =>
    rw [Tree.tokens, feedAll_cons, feed_string serde h]
    rfl
  | number text =>
    rw [Tree.tokens, feedAll_cons, feed_number serde h]
    rfl
  | literal value =>
    rw [Tree.tokens, feedAll_cons, feed_literal serde h]
    rfl
  | array items =>
    rw [Tree.depth] at hdepth
    rw [Tree.tokens, feedAll_cons, (feed_begin serde h (by omega)).2, Option.bind_some,
      feedAll_append]
    cases items with
    | nil =>
      change (between (opened stack false :: stack) root).feedAll serde [.endArray] = _
      rw [feedAll_cons, feed_endArray serde h rfl (.inl rfl)]
      rfl
    | cons item items =>
      rw [Tree.itemDepth] at hdepth
      let frame := completed (opened stack false) (project serde .ignore item)
      have hitem : (between (opened stack false :: stack) root).feedAll serde item.tokens
          = some (between (frame :: stack) root) :=
        feedAll_tokens item rfl (by rw [List.length_cons]; omega)
      have hitems : (between (frame :: stack) root).feedAll serde
          ((Tree.itemTokens items).flatMap (.comma :: ·))
          = some (between (frame :: stack) root) :=
        feedAll_items items rfl rfl rfl (by omega)
      rw [Tree.itemTokens, separated_cons, feedAll_append, hitem, Option.bind_some, hitems,
        Option.bind_some, feedAll_cons, feed_endArray serde h rfl (.inr rfl)]
      rfl
  | object members =>
    rw [Tree.depth] at hdepth
    rw [Tree.tokens, feedAll_cons, (feed_begin serde h (by omega)).1, Option.bind_some,
      feedAll_append]
    cases members with
    | nil =>
      change (between (opened stack true :: stack) root).feedAll serde [.endObject] = _
      rw [feedAll_cons, feed_endObject serde h rfl (.inl rfl)]
      rfl
    | cons member members =>
      obtain ⟨key, value⟩ := member
      rw [Tree.memberDepth] at hdepth
      have hvalue := feedAll_tokens value
        (expectsValue_between.mpr (.inl rfl)
          : (between (valued (opened stack true) key :: stack) root).expectsValue = true)
        (by rw [List.length_cons]; omega)
      rw [afterValue_valued] at hvalue
      let frame := extended serde (opened stack true) key value
      have hmembers : (between (frame :: stack) root).feedAll serde
          ((Tree.memberTokens members).flatMap (.comma :: ·))
          = some (between ({ frame with
              fields := projectMembers serde frame.scope members frame.fields } :: stack)
              root) :=
        feedAll_members members rfl rfl rfl (by omega)
      rw [Tree.memberTokens, separated_cons, feedAll_append, feedAll_key serde (.inr rfl),
        hvalue, Option.bind_some, hmembers, Option.bind_some, feedAll_cons,
        feed_endObject serde h rfl (.inr rfl)]
      rfl

/-- The items after the first leave the frame of an array as it was. -/
theorem feedAll_items (items : List Tree) {stack : List (Frame ν)} {frame : Frame ν}
    (hobject : frame.object = false) (hkey : frame.key = none)
    (hexpect : frame.expect = .commaOrEnd)
    (hdepth : stack.length + 1 + Tree.itemDepth items ≤ MAX_DEPTH) :
  (between (frame :: stack) root).feedAll serde
      ((Tree.itemTokens items).flatMap (.comma :: ·))
    = some (between (frame :: stack) root)
  := by
  cases items with
  | nil => rfl
  | cons item items =>
    rw [Tree.itemDepth] at hdepth
    have hitem := feedAll_tokens item
      (expectsValue_between.mpr (.inl rfl)
        : (between ({ frame with expect := .value } :: stack) root).expectsValue = true)
      (by rw [List.length_cons]; omega)
    have hframe : ∀ value : Value ν,
        afterValue ({ frame with expect := .value } :: stack) root value
          = between (frame :: stack) root := by
      intro value
      obtain ⟨object, expect, scope, key, fields⟩ := frame
      cases hkey
      cases hexpect
      rfl
    have hitems : (between (frame :: stack) root).feedAll serde
        ((Tree.itemTokens items).flatMap (.comma :: ·)) = some (between (frame :: stack) root) :=
      feedAll_items items hobject hkey hexpect (by omega)
    rw [Tree.itemTokens, List.flatMap_cons, feedAll_append, feedAll_cons,
      feed_comma serde hobject hexpect, Option.bind_some]
    change ((between ({ frame with expect := .value } :: stack) root).feedAll serde _).bind _ = _
    rw [hitem, hframe, Option.bind_some, hitems]

/-- The members after the first add to the fields of an object what its scope retains. -/
theorem feedAll_members (members : List (StringBody × Tree)) {stack : List (Frame ν)}
    {frame : Frame ν} (hobject : frame.object = true) (hkey : frame.key = none)
    (hexpect : frame.expect = .commaOrEnd)
    (hdepth : stack.length + 1 + Tree.memberDepth members ≤ MAX_DEPTH) :
  (between (frame :: stack) root).feedAll serde
      ((Tree.memberTokens members).flatMap (.comma :: ·))
    = some (between ({ frame with
        fields := projectMembers serde frame.scope members frame.fields } :: stack) root)
  := by
  cases members with
  | nil => rfl
  | cons member members =>
    obtain ⟨key, value⟩ := member
    rw [Tree.memberDepth] at hdepth
    let frame' : Frame ν := { frame with expect := .key }
    have hvalue := feedAll_tokens value
      (expectsValue_between.mpr (.inl rfl)
        : (between (valued frame' key :: stack) root).expectsValue = true)
      (by rw [List.length_cons]; omega)
    rw [afterValue_valued] at hvalue
    have hmembers : (between (extended serde frame' key value :: stack) root).feedAll serde
        ((Tree.memberTokens members).flatMap (.comma :: ·)) = some _ :=
      feedAll_members members hobject rfl rfl (by omega)
    rw [Tree.memberTokens, List.flatMap_cons, feedAll_append, feedAll_cons,
      feed_comma serde hobject hexpect, Option.bind_some]
    change ((between (frame' :: stack) root).feedAll serde (.string key :: .colon :: _)).bind _
      = _
    rw [feedAll_key serde (.inl rfl), hvalue, Option.bind_some, hmembers]
    obtain ⟨object, expect, scope, key', fields⟩ := frame
    cases hkey
    cases hexpect
    rfl

end

end UsageJson

end Lazybox
