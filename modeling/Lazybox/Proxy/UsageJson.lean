import Lazybox.Library.JsonText
import Mathlib.Data.String.Basic

/-!
# Metering a response

The proxy reads the JSON of a provider's response byte by byte, checks it, and keeps of it only the
fields that metering needs.  It buffers neither long strings nor arrays: a string is checked in
segments, and a number by its grammar.  Single strings and other scalars are decoded by
`serde_json`, which is a parameter here.
-/

namespace Lazybox

/-- A `serde_json::Value`, but for arrays, which are never kept.  Numbers are of type `ν`, and the
fields of an object are sorted by their keys. -/
inductive Value (ν : Type) where
  | null
  | bool (value : Bool)
  | number (value : ν)
  | string (value : String)
  | object (fields : List (String × Value ν))

/-- `serde_json::from_slice`, at the types it is used at. -/
structure SerdeJson (ν : Type) where
  fromSliceValue : List UInt8 → Option (Value ν)
  fromSliceString : List UInt8 → Option String

def STRING_SEGMENT : ℕ := 4096

def MAX_DEPTH : ℕ := 128

/-- Insert a field into a map, over a field that has the same key. -/
def insertField {ν : Type} (key : String) (value : Value ν) :
    List (String × Value ν) → List (String × Value ν)
  | [] => [(key, value)]
  | (key', value') :: fields =>
      if key < key' then (key, value) :: (key', value') :: fields
      else if key = key' then (key, value) :: fields
      else (key', value') :: insertField key value fields

inductive Scope where
  | root
  | response
  | message
  | usage
  | details
  | cacheCreation
  | ignore
deriving DecidableEq, Repr

def Scope.field : Scope → String → Option Scope
  | .root, "response" => some .response
  | .root, "message" => some .message
  | .root, "usage" | .response, "usage" | .message, "usage" => some .usage
  | .root, "type" | .root, "model" | .response, "model" | .message, "model" => some .ignore
  | .usage, "input_tokens_details" | .usage, "prompt_tokens_details" => some .details
  | .usage, "cache_creation" => some .cacheCreation
  | .usage, "input_tokens"
  | .usage, "output_tokens"
  | .usage, "prompt_tokens"
  | .usage, "completion_tokens"
  | .usage, "cache_creation_input_tokens"
  | .usage, "cache_read_input_tokens"
  | .usage, "cached_input_tokens"
  | .usage, "speed"
  | .details, "cached_tokens"
  | .cacheCreation, "ephemeral_5m_input_tokens"
  | .cacheCreation, "ephemeral_1h_input_tokens" => some .ignore
  | _, _ => none

inductive Expect where
  | keyOrEnd
  | key
  | colon
  | valueOrEnd
  | value
  | commaOrEnd
deriving DecidableEq, Repr

structure Frame (ν : Type) where
  object : Bool
  expect : Expect
  scope : Scope
  key : Option String
  fields : List (String × Value ν)

inductive Number where
  | sign
  | zero
  | integer
  | dot
  | fraction
  | exponent
  | exponentSign
  | exponentDigits
deriving DecidableEq, Repr

namespace Number

/-- A byte of `b'0'..=b'9'`. -/
def isDigit (byte : UInt8) : Bool := 0x30 ≤ byte && byte ≤ 0x39

def next (number : Number) (byte : UInt8) : Option Number :=
  match number with
  | sign =>
      if byte = 0x30 then some zero
      else if isDigit byte then some integer
      else none
  | zero =>
      if byte = 0x2E then some dot
      else if byte = 0x65 ∨ byte = 0x45 then some exponent
      else none
  | integer =>
      if isDigit byte then some integer
      else if byte = 0x2E then some dot
      else if byte = 0x65 ∨ byte = 0x45 then some exponent
      else none
  | dot => if isDigit byte then some fraction else none
  | fraction =>
      if isDigit byte then some fraction
      else if byte = 0x65 ∨ byte = 0x45 then some exponent
      else none
  | exponent =>
      if byte = 0x2B ∨ byte = 0x2D then some exponentSign
      else if isDigit byte then some exponentDigits
      else none
  | exponentSign | exponentDigits => if isDigit byte then some exponentDigits else none

def complete : Number → Bool
  | zero | integer | fraction | exponentDigits => true
  | sign | dot | exponent | exponentSign => false

end Number

structure UsageJson (ν : Type) where
  /-- The open containers, the innermost first. -/
  stack : List (Frame ν)
  token : List UInt8
  string : Bool
  escaped : Bool
  segmented : Bool
  number : Option Number
  oversizedNumber : Bool
  invalid : Bool
  root : Option (Value ν)

namespace UsageJson

variable {ν : Type}

/-- The state before the first byte. -/
def default : UsageJson ν where
  stack := []
  token := []
  string := false
  escaped := false
  segmented := false
  number := none
  oversizedNumber := false
  invalid := false
  root := none

def expectsValue (s : UsageJson ν) : Bool :=
  match s.stack with
  | [] => s.root.isNone
  | frame :: _ => decide (frame.expect = .value) || decide (frame.expect = .valueOrEnd)

/-- A value is complete. -/
def value (s : UsageJson ν) (value : Value ν) : UsageJson ν :=
  if !s.expectsValue then
    { s with invalid := true }
  else
    match s.stack with
    | frame :: frames =>
        let fields :=
          match frame.key with
          | some key => insertField key value frame.fields
          | none => frame.fields
        { s with
          stack := { frame with key := none, fields := fields, expect := .commaOrEnd } :: frames }
    | [] => { s with root := some value }

/-- A scalar is complete, which may be a key. -/
def scalar (s : UsageJson ν) (value : Value ν) : UsageJson ν :=
  match s.stack with
  | frame :: frames =>
      if frame.expect = .key ∨ frame.expect = .keyOrEnd then
        match value with
        | .string key =>
            { s with
              stack := { frame with
                key := (frame.scope.field key).map fun _ => key
                expect := .colon } :: frames }
        | _ =>
            if s.segmented then
              { s with stack := { frame with key := none, expect := .colon } :: frames }
            else
              { s with invalid := true, stack := { frame with expect := .colon } :: frames }
      else
        s.value value
  | [] => s.value value

variable (serde : SerdeJson ν)

/-- A byte within a string. -/
def pushString (s : UsageJson ν) (byte : UInt8) : UsageJson ν :=
  let s := { s with token := s.token ++ [byte] }
  if byte = 0x22 ∧ s.escaped = false then
    let s := { s with string := false }
    let s :=
      match serde.fromSliceValue s.token with
      | some value => s.scalar (if s.segmented then .null else value)
      | none => { s with invalid := true }
    { s with token := [], segmented := false }
  else
    let s := { s with escaped := decide (byte = 0x5C) && !s.escaped }
    if STRING_SEGMENT ≤ s.token.length ∧ s.escaped = false then
      if (serde.fromSliceString (s.token ++ [0x22])).isSome then
        { s with token := [0x22], segmented := true }
      else if STRING_SEGMENT + 12 < s.token.length then
        { s with invalid := true }
      else
        s
    else
      s

/-- `u8::is_ascii_whitespace`, or a byte that ends a scalar. -/
def terminates (byte : UInt8) : Bool :=
  byte = 0x20 || byte = 0x09 || byte = 0x0A || byte = 0x0C || byte = 0x0D
    || byte = 0x2C || byte = 0x5D || byte = 0x7D

/-- The number or literal that was read so far is complete. -/
def completeToken (s : UsageJson ν) : UsageJson ν :=
  let s :=
    if s.number.any fun number => !number.complete then
      { s with invalid := true }
    else if s.oversizedNumber then
      s.scalar .null
    else
      match serde.fromSliceValue s.token with
      | some value => s.scalar value
      | none =>
          -- a number out of range is no token count, but no fault either
          if s.number.isSome then s.scalar .null else { s with invalid := true }
  { s with token := [], number := none, oversizedNumber := false }

/-- One more byte of a number or literal. -/
def extendToken (s : UsageJson ν) (byte : UInt8) : UsageJson ν :=
  let s :=
    match s.number with
    | some number =>
        match number.next byte with
        | some number => { s with number := some number }
        | none => { s with number := none, invalid := true }
    | none => s
  if s.token.length < 128 then
    { s with token := s.token ++ [byte] }
  else if s.number.isSome then
    { s with oversizedNumber := true }
  else
    { s with invalid := true }

/-- The scope of an object that is opened now. -/
def childScope (s : UsageJson ν) : Scope :=
  match s.stack with
  | [] => .root
  | frame :: _ => (frame.key.bind frame.scope.field).getD .ignore

/-- An object or an array is opened. -/
def openContainer (s : UsageJson ν) (object : Bool) : UsageJson ν :=
  if !s.expectsValue ∨ s.stack.length = MAX_DEPTH then
    { s with invalid := true }
  else
    { s with
      stack := {
        object := object
        expect := if object then .keyOrEnd else .valueOrEnd
        scope := if object then s.childScope else .ignore
        key := none
        fields := [] } :: s.stack }

/-- An object or an array is closed. -/
def closeContainer (s : UsageJson ν) (object : Bool) : UsageJson ν :=
  match s.stack with
  | [] => { s with invalid := true }
  | frame :: frames =>
      let s := { s with stack := frames }
      if frame.object ≠ object
          ∨ ¬ (frame.expect = .keyOrEnd ∨ frame.expect = .valueOrEnd
            ∨ frame.expect = .commaOrEnd) then
        { s with invalid := true }
      else
        s.value (if frame.object then .object frame.fields else .null)

def pushColon (s : UsageJson ν) : UsageJson ν :=
  match s.stack with
  | frame :: frames =>
      if frame.expect = .colon then { s with stack := { frame with expect := .value } :: frames }
      else { s with invalid := true }
  | [] => { s with invalid := true }

def pushComma (s : UsageJson ν) : UsageJson ν :=
  match s.stack with
  | frame :: frames =>
      if frame.expect = .commaOrEnd then
        { s with
          stack := { frame with expect := if frame.object then .key else .value } :: frames }
      else
        { s with invalid := true }
  | [] => { s with invalid := true }

/-- A byte between tokens. -/
def pushBetween (s : UsageJson ν) (byte : UInt8) : UsageJson ν :=
  if byte = 0x20 ∨ byte = 0x09 ∨ byte = 0x0D ∨ byte = 0x0A then
    s
  else if byte = 0x22 then
    { s with string := true, escaped := false, token := s.token ++ [byte] }
  else if byte = 0x7B ∨ byte = 0x5B then
    s.openContainer (byte = 0x7B)
  else if byte = 0x7D ∨ byte = 0x5D then
    s.closeContainer (byte = 0x7D)
  else if byte = 0x3A then
    s.pushColon
  else if byte = 0x2C then
    s.pushComma
  else if byte = 0x2D ∨ Number.isDigit byte then
    { s with
      number := some (if byte = 0x2D then .sign else if byte = 0x30 then .zero else .integer)
      token := s.token ++ [byte] }
  else if byte = 0x74 ∨ byte = 0x66 ∨ byte = 0x6E then
    { s with token := s.token ++ [byte] }
  else
    { s with invalid := true }

def push (s : UsageJson ν) (byte : UInt8) : UsageJson ν :=
  if s.invalid then
    s
  else if s.string then
    s.pushString serde byte
  else if s.token = [] then
    s.pushBetween byte
  else if terminates byte then
    (s.completeToken serde).pushBetween byte
  else
    s.extendToken byte

def finish (s : UsageJson ν) : Option (Value ν) :=
  let s := s.push serde 0x20
  if s.invalid ∨ s.string ∨ s.stack ≠ [] then none else s.root

/-- What is kept of a response. -/
def read (bytes : List UInt8) : Option (Value ν) :=
  (bytes.foldl (push serde) default).finish serde

end UsageJson

end Lazybox
