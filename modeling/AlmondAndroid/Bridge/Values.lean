import Mathlib.Tactic.Common

/-!
# Values on the two sides of the bridge

JavaScript and Java strings are sequences of UTF-16 code units and doubles are
bit patterns; both cross the bridge unchanged. V8, node, `java.lang` and
`org.json` are not part of the repository: what the bridge calls of them is a
`Runtime`, and what it relies on is `Runtime.Lawful`.
-/

namespace AlmondAndroid.Bridge

abbrev U16String := List UInt16

instance : LawfulBEq U16String := inferInstance

abbrev Double := UInt64

def u16 (s : String) : U16String := s.toList.map fun c => c.val.toUInt16

theorem ofNat_toUInt16 {c : Char} (hc : c.isDigit = true) :
    Char.ofNat c.val.toUInt16.toNat = c := by
  obtain ⟨hlow, hhigh⟩ := Char.isDigit_iff_toNat.mp hc
  have hlt : c.val.toNat < 2 ^ 16 := Nat.lt_of_le_of_lt hhigh (by decide)
  rw [UInt32.toNat_toUInt16, Nat.mod_eq_of_lt hlt]
  exact Char.ofNat_toNat c

theorem u16_repr_injective {i j : Nat} (h : u16 i.repr = u16 j.repr) : i = j := by
  have hread : ∀ n : Nat, (u16 n.repr).map (fun c => Char.ofNat c.toNat) = Nat.toDigits 10 n := by
    intro n
    rw [u16, List.map_map, Nat.toList_repr]
    refine (List.map_congr_left fun c hc => ?_).trans (List.map_id _)
    exact ofNat_toUInt16 (Nat.isDigit_of_mem_toDigits (by decide) (by decide) hc)
  have hdigits : Nat.toDigits 10 i = Nat.toDigits 10 j := by rw [← hread i, ← hread j, h]
  have hvalue : ∀ n, Nat.ofDigitChars 10 (Nat.toDigits 10 n) 0 = n := fun _ =>
    Nat.ofDigitChars_toDigits (by decide) (Nat.le_refl 10)
  rw [← hvalue i, hdigits, hvalue j]

inductive ViewKind
  | buffer
  | uint8Array
  | otherView
  deriving DecidableEq

/-- `object` is every object that is no array buffer view, functions included. -/
inductive JSValue (Obj : Type)
  | undefined
  | null
  | boolean (b : Bool)
  | number (n : Double)
  | string (s : U16String)
  | symbol (description : U16String)
  | view (kind : ViewKind) (bytes : List UInt8)
  | object (o : Obj)
  deriving DecidableEq

inductive JSErrorClass
  | error
  | typeError
  deriving DecidableEq

structure JSError where
  errorClass : JSErrorClass
  message : U16String
  deriving DecidableEq

inductive Stringified
  | throws
  | undefined
  | text (t : U16String)

/-- JSON data. Objects and arrays are opaque and taken up to the order of keys. -/
inductive Json (C : Type)
  | null
  | boolean (b : Bool)
  | number (n : Double)
  | string (s : U16String)
  | container (c : C)

/-- `json` is an instance of `JSONObject` or `JSONArray`, `jsonNull` is
`JSONObject.NULL`, and `other` is of none of the classes the bridge knows. -/
inductive JavaObject (Number Instance : Type)
  | null
  | number (n : Number)
  | string (s : U16String)
  | boolean (b : Bool)
  | byteArray (bytes : List UInt8)
  | json (o : Instance)
  | jsonNull
  | other (className : U16String)
  deriving DecidableEq

/-- `isException` tells an instance of `java.lang.Exception` from the other throwables. -/
structure JavaThrowable where
  isException : Bool
  message : Option U16String
  deriving DecidableEq

structure Runtime where
  Obj : Type
  Container : Type
  Number : Type
  Instance : Type
  hasInstance : ViewKind → Bool
  stringify : JSValue Obj → Stringified
  parse : U16String → Option (Json Container)
  fresh : Container → Obj
  toDetailString : JSValue Obj → U16String
  doubleValue : Number → Double
  newDouble : Double → Number
  nextValue : U16String → Option (JavaObject Number Instance)
  toJavaString : Instance → Option U16String
  data : Instance → Container

namespace Runtime

variable (rt : Runtime)

abbrev Value : Type := JSValue rt.Obj

abbrev Object : Type := JavaObject rt.Number rt.Instance

def ofJson : Json rt.Container → rt.Value
  | .null => .null
  | .boolean b => .boolean b
  | .number n => .number n
  | .string s => .string s
  | .container c => .object (rt.fresh c)

/-- The JSON data a Java object stands for, with numbers taken by `doubleValue`. -/
def jsonOf : rt.Object → Option (Json rt.Container)
  | .jsonNull => some .null
  | .boolean b => some (.boolean b)
  | .number n => some (.number (rt.doubleValue n))
  | .string s => some (.string s)
  | .json o => some (.container (rt.data o))
  | .null => none
  | .byteArray _ => none
  | .other _ => none

/-- Documented behaviour of the two JSON libraries, of boxed doubles and of
node's buffers. -/
structure Lawful : Prop where
  hasInstance_buffer : rt.hasInstance .buffer = true
  parse_undefined : rt.parse (u16 "undefined") = none
  stringify_valid : ∀ v t, rt.stringify v = .text t → ∃ j, rt.parse t = some j
  stringify_fresh : ∀ c, ∃ t, rt.stringify (.object (rt.fresh c)) = .text t ∧
    rt.parse t = some (.container c)
  doubleValue_newDouble : ∀ n, rt.doubleValue (rt.newDouble n) = n
  nextValue_parse : ∀ t j, rt.parse t = some j →
    ∃ o, rt.nextValue t = some o ∧ rt.jsonOf o = some j
  toJavaString_nextValue : ∀ t o, rt.nextValue t = some (.json o) →
    ∃ s, rt.toJavaString o = some s
  toJavaString_parse : ∀ o t, rt.toJavaString o = some t →
    rt.parse t = some (.container (rt.data o))

/-- Equality of Java objects, numbers up to `doubleValue` and JSON up to its data. -/
def Same : rt.Object → rt.Object → Prop
  | .number m, .number n => rt.doubleValue m = rt.doubleValue n
  | .json o, .json p => rt.data o = rt.data p
  | a, b => a = b

end Runtime

/-! ## A small runtime

The JSON texts are those of `{}`, `[]`, `null` and the booleans, and the objects
are the two empty containers, a function, a cyclic object and an invalid date. -/

namespace Sample

inductive Container
  | emptyObject
  | emptyArray
  deriving DecidableEq

inductive Obj
  | plain (c : Container)
  | function
  | cyclic
  | invalidDate
  deriving DecidableEq

def containerText : Container → U16String
  | .emptyObject => u16 "{}"
  | .emptyArray => u16 "[]"

def stringify : JSValue Obj → Stringified
  | .object (.plain c) => .text (containerText c)
  | .object .function => .undefined
  | .object .cyclic => .throws
  | .object .invalidDate => .text (u16 "null")
  | .view _ _ => .text (u16 "{}")
  | .null => .text (u16 "null")
  | _ => .undefined

def parse (t : U16String) : Option (Json Container) :=
  if t = u16 "{}" then some (.container .emptyObject)
  else if t = u16 "[]" then some (.container .emptyArray)
  else if t = u16 "null" then some .null
  else if t = u16 "true" then some (.boolean true)
  else if t = u16 "false" then some (.boolean false)
  else none

/-- `JSONTokener` reads an unquoted word as a string. -/
def nextValue (t : U16String) : Option (JavaObject Double Container) :=
  match parse t with
  | some .null => some .jsonNull
  | some (.boolean b) => some (.boolean b)
  | some (.number n) => some (.number n)
  | some (.string s) => some (.string s)
  | some (.container c) => some (.json c)
  | none => if t = u16 "undefined" then some (.string t) else none

def toDetailString : JSValue Obj → U16String
  | .string s => s
  | .undefined => u16 "undefined"
  | .null => u16 "null"
  | _ => u16 "#<Object>"

def runtime : Runtime where
  Obj := Obj
  Container := Container
  Number := Double
  Instance := Container
  hasInstance _ := true
  stringify := stringify
  parse := parse
  fresh := .plain
  toDetailString := toDetailString
  doubleValue n := n
  newDouble n := n
  nextValue := nextValue
  toJavaString c := some (containerText c)
  data c := c

theorem parse_containerText (c : Container) : parse (containerText c) = some (.container c) := by
  cases c <;> rfl

theorem parse_stringify (v : JSValue Obj) (t : U16String) (h : stringify v = .text t) :
    ∃ j, parse t = some j := by
  unfold stringify at h
  split at h <;> cases h
  · exact ⟨_, parse_containerText _⟩
  all_goals exact ⟨_, rfl⟩

theorem runtime_lawful : runtime.Lawful where
  hasInstance_buffer := rfl
  parse_undefined := rfl
  stringify_valid := parse_stringify
  stringify_fresh c := ⟨containerText c, rfl, parse_containerText c⟩
  doubleValue_newDouble _ := rfl
  nextValue_parse t j h := by
    change parse t = some j at h
    change ∃ o, nextValue t = some o ∧ _
    simp only [nextValue, h]
    cases j <;> exact ⟨_, rfl, rfl⟩
  toJavaString_nextValue _ o _ := ⟨containerText o, rfl⟩
  toJavaString_parse c t h := by
    cases h
    exact parse_containerText c

end Sample

end AlmondAndroid.Bridge
