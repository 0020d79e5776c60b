import Lazybox.Proxy.UnitPlaces

/-!
# The calls in a request

Every object of a request may announce a call.  What an object announces is read from a few of its
fields, so that a value replaced outside of these changes only the calls that are in it.
-/

namespace Lazybox.Compaction

open Json (Value Step Path)
open ContextParse (field)

variable (serde : Serde)

/-! ### What an object announces -/

/-- The names of the fields a call is read from. -/
def callFields : List String :=
  ["function", "name", "input", "arguments", "id", "call_id", "tool_use_id"]

variable {serde}

/-- The kind of a call is not read from an array. -/
theorem kindForTool_array (name : String) (items items' : List Value) :
  kindForTool name (.array items) = kindForTool name (.array items')
  := rfl

variable {f g : Fields}

theorem callId_congr
    (h : ∀ name ∈ callFields, name ≠ "input" →
      (Value.object f).get name = (Value.object g).get name) :
  callId f = callId g
  := by
  simp only [callId, firstText, List.findSome?_cons, field, h "id" (by decide) (by decide),
    h "call_id" (by decide) (by decide), h "tool_use_id" (by decide) (by decide)]
  rfl

/-- The kind of a call depends on the fields it is read from, and of an input that is an array on
nothing. -/
theorem callKind_congr
    (h : ∀ name ∈ callFields, name ≠ "input" →
      (Value.object f).get name = (Value.object g).get name)
    (hinput : (Value.object f).get "input" = (Value.object g).get "input"
      ∨ ∃ items items', (Value.object f).get "input" = some (.array items)
          ∧ (Value.object g).get "input" = some (.array items')) :
  callKind serde f = callKind serde g
  := by
  rw [callKind, callKind, h "function" (by decide) (by decide)]
  cases ((Value.object g).get "function").bind Value.asObject with
  | some function => rfl
  | none =>
    dsimp only
    rw [field, field, h "name" (by decide) (by decide)]
    congr 1
    funext name
    rw [callInput, callInput]
    rcases hinput with hinput | ⟨items, items', hf, hg⟩
    · rw [hinput, h "arguments" (by decide) (by decide)]
    · rw [hf, hg]
      apply kindForTool_array

theorem ownCall_congr
    (h : ∀ name ∈ callFields, name ≠ "input" →
      (Value.object f).get name = (Value.object g).get name)
    (hinput : (Value.object f).get "input" = (Value.object g).get "input"
      ∨ ∃ items items', (Value.object f).get "input" = some (.array items)
          ∧ (Value.object g).get "input" = some (.array items')) :
  ownCall serde f = ownCall serde g
  := by
  rw [ownCall, ownCall, callKind_congr h hinput, callId_congr h]

/-! ### The calls in a part -/

theorem walkItems_append (items items' : List Value) :
  walkItems serde (items ++ items') = walkItems serde items ++ walkItems serde items'
  := by
  induction items with
  | nil => rfl
  | cons item items ih => rw [List.cons_append, walkItems, walkItems, ih, List.append_assoc]

variable {old : Value}

/-- The calls before and after the field of a name stay when the value in it changes. -/
theorem exists_walkFields_modifyFirst (serde : Serde) {name : String} {fields : Fields}
    (h : (Value.object fields).get name = some old) (change : Value → Value) :
  ∃ pre post, walkFields serde fields = pre ++ walkCalls serde old ++ post
    ∧ walkFields serde
        (Keyed.modifyFirst Prod.fst name (fun field => (field.1, change field.2)) fields)
      = pre ++ walkCalls serde (change old) ++ post
  := by
  rw [Value.get, Option.map_eq_some_iff] at h
  obtain ⟨entry, hentry, rfl⟩ := h
  induction fields with
  | nil => cases hentry
  | cons first fields ih =>
    rw [Keyed.lookup_cons] at hentry
    rw [Keyed.modifyFirst]
    split at hentry
    · next hname =>
        cases hentry
        rw [if_pos hname]
        use [], walkFields serde fields
        exact ⟨rfl, rfl⟩
    · next hname =>
        obtain ⟨pre, post, hold, hnew⟩ := ih hentry
        rw [if_neg hname]
        use walkCalls serde first.2 ++ pre, post
        constructor
        · rw [walkFields, hold]
          simp only [List.append_assoc]
        · rw [walkFields, hnew]
          simp only [List.append_assoc]

theorem exists_walkItems_modify
    {items : List Value} {i : ℕ} (h : items[i]? = some old) (change : Value → Value) :
  ∃ pre post, walkItems serde items = pre ++ walkCalls serde old ++ post
    ∧ walkItems serde (items.modify i change) = pre ++ walkCalls serde (change old) ++ post
  := by
  induction items generalizing i with
  | nil => cases h
  | cons first items ih =>
    cases i with
    | zero =>
      cases h
      use [], walkItems serde items
      exact ⟨rfl, rfl⟩
    | succ i =>
      obtain ⟨pre, post, hold, hnew⟩ := ih h
      use walkCalls serde first ++ pre, post
      constructor
      · rw [walkItems, hold]
        simp only [List.append_assoc]
      · rw [List.modify_succ_cons, walkItems, hnew]
        simp only [List.append_assoc]

/-! ### Replacing a value -/

/-- A field whose value may change without a change of what the object announces. -/
def Quiet (name : String) (old new : Value) : Prop :=
  name ∉ callFields
    ∨ (name = "input" ∧ old.asArray.isSome = true ∧ new.asArray.isSome = true)

theorem ownCall_modifyFirst {name : String} {fields : Fields} {change : Value → Value}
    (h : (Value.object fields).get name = some old) (hquiet : Quiet name old (change old)) :
  ownCall serde (Keyed.modifyFirst Prod.fst name (fun field => (field.1, change field.2)) fields)
    = ownCall serde fields
  := by
  have hkeeps (field : String × Value) : (field.1, change field.2).1 = field.1 := rfl
  have hget (other : String) :
      (Value.object (Keyed.modifyFirst Prod.fst name
          (fun field => (field.1, change field.2)) fields)).get other
        = if other = name then some (change old) else (Value.object fields).get other := by
    rw [Value.get, Keyed.lookup_modifyFirst hkeeps]
    split
    · rw [Value.get, Option.map_eq_some_iff] at h
      obtain ⟨entry, hentry, rfl⟩ := h
      rw [hentry]
      rfl
    · rfl
  rcases hquiet with hname | ⟨rfl, hold, hnew⟩
  · apply ownCall_congr
    · intro other hother _
      rw [hget, if_neg]
      rintro rfl
      exact hname hother
    · left
      rw [hget, if_neg]
      rintro rfl
      exact hname (by decide)
  · apply ownCall_congr
    · intro other _ hne
      rw [hget, if_neg hne]
    · right
      rw [hget, if_pos rfl, h]
      cases old with
      | array items =>
        cases hchange : change (.array items) with
        | array items' => exact ⟨items', items, rfl, rfl⟩
        | _ =>
          rw [hchange] at hnew
          cases hnew
      | _ => cases hold

variable {path : Path} {v : Value}

/-- Below a quiet field, replacing a value changes only the calls in it. -/
theorem exists_walkCalls_setAt_key {name : String} {new : Value} (h : v.get name = some old)
    (hquiet : Quiet name old (Value.setAt new path old)) :
  ∃ pre post, walkCalls serde v = pre ++ walkCalls serde old ++ post
    ∧ walkCalls serde (Value.setAt new (.key name :: path) v)
      = pre ++ walkCalls serde (Value.setAt new path old) ++ post
  := by
  cases v with
  | object fields =>
    obtain ⟨pre, post, hold, hnew⟩ :=
      exists_walkFields_modifyFirst serde h (Value.setAt new path)
    use ownCall serde fields ++ pre, post
    constructor
    · rw [walkCalls, hold]
      simp only [List.append_assoc]
    · rw [Value.setAt, walkCalls, ownCall_modifyFirst h hquiet, hnew]
      simp only [List.append_assoc]
  | _ => cases h

theorem exists_walkCalls_setAt_index {i : ℕ} {items : List Value} {new : Value}
    (hitems : v.asArray = some items) (h : items[i]? = some old) :
  ∃ pre post, walkCalls serde v = pre ++ walkCalls serde old ++ post
    ∧ walkCalls serde (Value.setAt new (.index i :: path) v)
      = pre ++ walkCalls serde (Value.setAt new path old) ++ post
  := by
  cases v with
  | array _ =>
    cases hitems
    rw [Value.setAt, walkCalls, walkCalls]
    apply exists_walkItems_modify h
  | _ => cases hitems

/-- No step of a path is a field a call is read from, unless it is an input that is an array. -/
def Calm : Path → Prop
  | [] => True
  | .key name :: path =>
      (name ∉ callFields ∨ (name = "input" ∧ ∃ i rest, path = .index i :: rest)) ∧ Calm path
  | .index _ :: path => Calm path

/-- Replacing the value at such a path changes only the calls in it. -/
theorem exists_walkCalls_setAt (hcalm : Calm path) (h : v.at? path = some old) (new : Value) :
  ∃ pre post, walkCalls serde v = pre ++ walkCalls serde old ++ post
    ∧ walkCalls serde (Value.setAt new path v) = pre ++ walkCalls serde new ++ post
  := by
  induction path generalizing v with
  | nil =>
    cases h
    use [], []
    constructor
    · exact (List.append_nil _).symm
    · exact (List.append_nil _).symm
  | cons step path ih =>
    -- the calls around the value at this step, and around the rest of the path in it
    obtain ⟨w, hbelow, pre, post, hold, hnew⟩ :
        ∃ w, w.at? path = some old
          ∧ ∃ pre post, walkCalls serde v = pre ++ walkCalls serde w ++ post
            ∧ walkCalls serde (Value.setAt new (step :: path) v)
              = pre ++ walkCalls serde (Value.setAt new path w) ++ post := by
      cases step with
      | key name =>
        rw [Value.at?_key, Option.bind_eq_some_iff] at h
        obtain ⟨w, hget, hbelow⟩ := h
        use w, hbelow
        apply exists_walkCalls_setAt_key hget
        obtain ⟨hname | ⟨hname, i, rest, rfl⟩, -⟩ := hcalm
        · exact .inl hname
        · right
          rw [Value.at?_index, Option.bind_eq_some_iff] at hbelow
          obtain ⟨item, hitem, -⟩ := hbelow
          obtain ⟨items, hitems, -⟩ := Option.bind_eq_some_iff.mp hitem
          rw [Value.asArray_setAt_index, hitems]
          exact ⟨hname, rfl, rfl⟩
      | index i =>
        rw [Value.at?_index, Option.bind_eq_some_iff] at h
        obtain ⟨w, hitem, hbelow⟩ := h
        obtain ⟨items, hitems, hitem⟩ := Option.bind_eq_some_iff.mp hitem
        use w, hbelow
        apply exists_walkCalls_setAt_index hitems hitem
    have hrest : Calm path := by
      cases step with
      | key name => exact hcalm.2
      | index i => exact hcalm
    obtain ⟨pre', post', hold', hnew'⟩ := ih hrest hbelow
    use pre ++ pre', post' ++ post
    constructor
    · rw [hold, hold']
      simp only [List.append_assoc]
    · rw [hnew, hnew']
      simp only [List.append_assoc]

/-- Replacing a value without calls by another leaves the calls alone. -/
theorem walkCalls_setAt (hcalm : Calm path) {new : Value} (h : v.at? path = some old)
    (hold : walkCalls serde old = []) (hnew : walkCalls serde new = []) :
  walkCalls serde (Value.setAt new path v) = walkCalls serde v
  := by
  obtain ⟨pre, post, hv, hset⟩ := exists_walkCalls_setAt hcalm h new
  rw [hset, hv, hold, hnew]

/-- A part of a value without calls has none. -/
theorem walkCalls_at?
    (hcalm : Calm path) {part : Value} (h : v.at? path = some part) (hv : walkCalls serde v = []) :
  walkCalls serde part = []
  := by
  obtain ⟨pre, post, hwalk, -⟩ := exists_walkCalls_setAt hcalm h .null
  rw [hwalk, List.append_eq_nil_iff, List.append_eq_nil_iff] at hv
  exact hv.1.2

/-! ### Finding a call -/

/-- Of more calls, none of which has an identity, the same call is found for it. -/
theorem getLast?_filter_insert
    {κ : Type} (pre mid post : List (String × κ)) {id : String} (h : ∀ call ∈ mid, call.1 ≠ id) :
  ((pre ++ mid ++ post).filter (·.1 = id)).getLast? = ((pre ++ post).filter (·.1 = id)).getLast?
  := by
  have hmid : mid.filter (·.1 = id) = [] := by
    rw [List.filter_eq_nil_iff]
    intro call hcall
    simpa using h call hcall
  rw [List.filter_append, List.filter_append, hmid, List.append_nil, List.filter_append]

theorem exists_mem_walkCalls {id : String} (h : toolCalls serde v id ≠ none) :
  ∃ call ∈ walkCalls serde v, call.1 = id
  := by
  rw [toolCalls] at h
  cases hlast : ((walkCalls serde v).filter (·.1 = id)).getLast? with
  | none =>
    rw [hlast] at h
    exact absurd rfl h
  | some call =>
    have hmem := List.mem_of_getLast? hlast
    rw [List.mem_filter, decide_eq_true_eq] at hmem
    exact ⟨call, hmem⟩

end Lazybox.Compaction
