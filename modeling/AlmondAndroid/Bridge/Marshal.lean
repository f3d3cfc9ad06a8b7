import AlmondAndroid.Bridge.Values

/-!
# Marshalling

`InteropValue` and its four conversions. A conversion of the bridge either ends
normally or faults: the process dies on an empty V8 handle, on an empty
`MaybeLocal`, on a null `jstring` or on a JNI call made with an exception pending.
It also dies when a throwable leaves a task of the executor.
-/

namespace AlmondAndroid.Bridge

inductive Fault
  | emptyHandle
  | emptyMaybeLocal
  | nullString
  | pendingException
  | uncaught
  deriving DecidableEq

inductive InteropValue
  | empty
  | boolean (b : Bool)
  | string (s : U16String)
  | number (n : Double)
  | json (text : U16String)
  | buffer (bytes : List UInt8)
  | null
  deriving DecidableEq

/-- `InitFromJava` returns true with the value, or false with the exception it
leaves pending when asked to throw. -/
inductive Conversion
  | accepted (value : InteropValue)
  | rejected (pending : Option JavaThrowable)
  deriving DecidableEq

/-- `GetStringChars` aborts on a null string. -/
def jstringToString : Option U16String → Except Fault U16String
  | some s => .ok s
  | none => .error .nullString

def invalidArgumentType : JavaThrowable :=
  ⟨true, some (u16 "Invalid argument type")⟩

variable (rt : Runtime)

def jobjectToString (o : rt.Instance) : Except Fault U16String :=
  jstringToString (rt.toJavaString o)

/-- The object branch of `InitFromJS`. The result of `JSON.stringify` is not
checked: an empty handle is dereferenced, and undefined becomes its own name. -/
def stringifyToString (value : rt.Value) : Except Fault U16String :=
  match rt.stringify value with
  | .throws => .error .emptyHandle
  | .undefined => .ok (u16 "undefined")
  | .text t => .ok t

/-- `none` is the return value false. -/
def initFromJS : rt.Value → Except Fault (Option InteropValue)
  | .number n => .ok (some (.number n))
  | .boolean b => .ok (some (.boolean b))
  | .string s => .ok (some (.string s))
  | .undefined => .ok (some .null)
  | .null => .ok (some .null)
  | .view kind bytes =>
      if rt.hasInstance kind then .ok (some (.buffer bytes))
      else (stringifyToString rt (.view kind bytes)).map fun t => some (.json t)
  | .object o => (stringifyToString rt (.object o)).map fun t => some (.json t)
  | .symbol _ => .ok none

def initFromJava (doThrow : Bool) : rt.Object → Except Fault Conversion
  | .null => .ok (.accepted .null)
  | .number n => .ok (.accepted (.number (rt.doubleValue n)))
  | .string s => .ok (.accepted (.string s))
  | .boolean b => .ok (.accepted (.boolean b))
  | .byteArray bytes => .ok (.accepted (.buffer bytes))
  | .json o => (jobjectToString rt o).map fun t => .accepted (.json t)
  | .jsonNull | .other _ => .ok (.rejected (if doThrow then some invalidArgumentType else none))

/-- `none` is an empty handle. -/
def toJavaScript : InteropValue → Except Fault (Option rt.Value)
  | .empty => .ok none
  | .number n => .ok (some (.number n))
  | .boolean b => .ok (some (.boolean b))
  | .string s => .ok (some (.string s))
  | .buffer bytes => .ok (some (.view .buffer bytes))
  | .json t =>
      match rt.parse t with
      | some j => .ok (some (rt.ofJson j))
      | none => .error .emptyMaybeLocal
  | .null => .ok (some .null)

/-- `none` is a `JSONException` pending. -/
def toJava : InteropValue → Option rt.Object
  | .empty => some .null
  | .null => some .null
  | .number n => some (.number (rt.newDouble n))
  | .boolean b => some (.boolean b)
  | .string s => some (.string s)
  | .buffer bytes => some (.byteArray bytes)
  | .json t => rt.nextValue t

/-! ## Round trips -/

section RoundTrip

/-- `JSON.parse(JSON.stringify(v))`, where both calls return. -/
def reparse (v : rt.Value) : Option rt.Value :=
  match rt.stringify v with
  | .text t => (rt.parse t).map rt.ofJson
  | _ => none

def image : rt.Value → Option rt.Value
  | .undefined => some .null
  | .view .buffer bytes => some (.view .buffer bytes)
  | .view kind bytes => reparse rt (.view kind bytes)
  | .object o => reparse rt (.object o)
  | v => some v

def RoundTripsJS (v : rt.Value) : Prop :=
  ∀ value, initFromJS rt v = .ok (some value) → ∃ w, image rt v = some w ∧
    toJavaScript rt value = .ok (some w) ∧
    ∃ o, toJava rt value = some o ∧ ∀ doThrow, ∃ back,
      initFromJava rt doThrow o = .ok (.accepted back) ∧ toJavaScript rt back = .ok (some w)

def RoundTripsJava (o : rt.Object) : Prop :=
  ∀ doThrow value, initFromJava rt doThrow o = .ok (.accepted value) →
    (∃ p, toJava rt value = some p) ∧
    ∃ v, toJavaScript rt value = .ok (some v) ∧
    ∃ back, initFromJS rt v = .ok (some back) ∧
    ∃ p, toJava rt back = some p ∧ rt.Same o p

/-- `JSON.stringify` does not return undefined, nor a text that parses to null. -/
def KeepsText (v : rt.Value) : Prop :=
  rt.stringify v ≠ .undefined ∧ ∀ t, rt.stringify v = .text t → rt.parse t ≠ some .null

def KeepsItsValue : rt.Value → Prop
  | .view kind bytes =>
      kind = .buffer ∨ (rt.hasInstance kind = false ∧ KeepsText rt (.view kind bytes))
  | .object o => KeepsText rt (.object o)
  | _ => True

variable {rt}

theorem toJavaScript_json {t : U16String} {j : Json rt.Container} (h : rt.parse t = some j) :
    toJavaScript rt (.json t) = .ok (some (rt.ofJson j)) := by
  simp only [toJavaScript, h]

theorem initFromJava_of_jsonOf (hlaw : rt.Lawful) {t : U16String} {o : rt.Object}
    {j : Json rt.Container} (hnext : rt.nextValue t = some o) (hjson : rt.jsonOf o = some j)
    (hnull : j ≠ .null) (doThrow : Bool) : ∃ back,
      initFromJava rt doThrow o = .ok (.accepted back) ∧
      toJavaScript rt back = .ok (some (rt.ofJson j)) := by
  cases o with
  | null => cases hjson
  | number n => cases hjson; exact ⟨_, rfl, rfl⟩
  | string s => cases hjson; exact ⟨_, rfl, rfl⟩
  | boolean b => cases hjson; exact ⟨_, rfl, rfl⟩
  | byteArray bytes => cases hjson
  | json p =>
    cases hjson
    obtain ⟨s, hs⟩ := hlaw.toJavaString_nextValue t p hnext
    refine ⟨.json s, ?_, toJavaScript_json (hlaw.toJavaString_parse p s hs)⟩
    simp only [initFromJava, jobjectToString, jstringToString, hs, Except.map]
  | jsonNull => cases hjson; exact absurd rfl hnull
  | other className => cases hjson

theorem rejected_of_jsonOf_null {o : rt.Object} (hjson : rt.jsonOf o = some .null)
    (doThrow : Bool) (back : InteropValue) :
    initFromJava rt doThrow o ≠ .ok (.accepted back) := by
  cases o <;> cases hjson
  intro h
  cases h

theorem roundTripsJS_iff_keepsText (hlaw : rt.Lawful) {v : rt.Value}
    (hinit : initFromJS rt v = (stringifyToString rt v).map fun t => some (.json t))
    (himage : image rt v = reparse rt v) : RoundTripsJS rt v ↔ KeepsText rt v := by
  rw [RoundTripsJS, KeepsText]
  rw [hinit, himage, reparse]
  cases hstr : rt.stringify v with
  | throws => simp [stringifyToString, hstr, Except.map]
  | undefined =>
    simp only [ne_eq, not_true_eq_false, false_and, iff_false]
    intro h
    obtain ⟨w, hw, -⟩ := h (.json (u16 "undefined"))
      (by simp only [stringifyToString, hstr, Except.map])
    cases hw
  | text t =>
    obtain ⟨j, hj⟩ := hlaw.stringify_valid v t hstr
    obtain ⟨o, hnext, hjson⟩ := hlaw.nextValue_parse t j hj
    simp only [stringifyToString, hstr, Except.map, Except.ok.injEq, Option.some.injEq,
      forall_eq', hj, Option.map_some, ne_eq, reduceCtorEq, not_false_eq_true, true_and,
      Stringified.text.injEq]
    constructor
    · rintro ⟨w, -, -, p, hp, hback⟩ rfl
      rw [toJava, hnext] at hp
      cases hp
      obtain ⟨back, hinit, -⟩ := hback false
      exact rejected_of_jsonOf_null hjson false back hinit
    · intro hnull
      exact ⟨_, rfl, toJavaScript_json hj, o, hnext,
        initFromJava_of_jsonOf hlaw hnext hjson hnull⟩

theorem roundTripsJS_primitive {v : rt.Value} {value : InteropValue} {o : rt.Object}
    {w : rt.Value} (hinit : initFromJS rt v = .ok (some value)) (himage : image rt v = some w)
    (hscript : toJavaScript rt value = .ok (some w)) (hjava : toJava rt value = some o)
    (hback : ∀ doThrow, initFromJava rt doThrow o = .ok (.accepted value)) :
    RoundTripsJS rt v := by
  intro value' h
  rw [hinit] at h
  cases h
  exact ⟨w, himage, hscript, o, hjava, fun doThrow => ⟨value, hback doThrow, hscript⟩⟩

theorem not_roundTripsJS_view {kind : ViewKind} (bytes : List UInt8)
    (hkind : kind ≠ .buffer) (hinst : rt.hasInstance kind = true) :
    ¬ RoundTripsJS rt (.view kind bytes) := by
  intro h
  obtain ⟨w, himage, hscript, -⟩ := h (.buffer bytes) (by simp [initFromJS, hinst])
  cases hscript
  have hreparse : reparse rt (.view kind bytes) = some (.view .buffer bytes) := by
    cases kind with
    | buffer => exact absurd rfl hkind
    | uint8Array => exact himage
    | otherView => exact himage
  rw [reparse] at hreparse
  split at hreparse
  · obtain ⟨j, -, hj⟩ := Option.map_eq_some_iff.mp hreparse
    cases j <;> cases hj
  · cases hreparse

theorem roundTripsJS_iff (hlaw : rt.Lawful) (v : rt.Value) :
    RoundTripsJS rt v ↔ KeepsItsValue rt v := by
  cases v with
  | undefined => exact iff_of_true (roundTripsJS_primitive rfl rfl rfl rfl fun _ => rfl) trivial
  | null => exact iff_of_true (roundTripsJS_primitive rfl rfl rfl rfl fun _ => rfl) trivial
  | boolean b => exact iff_of_true (roundTripsJS_primitive rfl rfl rfl rfl fun _ => rfl) trivial
  | number n =>
    refine iff_of_true (roundTripsJS_primitive rfl rfl rfl rfl fun _ => ?_) trivial
    simp only [initFromJava, hlaw.doubleValue_newDouble]
  | string s => exact iff_of_true (roundTripsJS_primitive rfl rfl rfl rfl fun _ => rfl) trivial
  | symbol description => exact iff_of_true (fun _ h => by cases h) trivial
  | object o => exact roundTripsJS_iff_keepsText hlaw rfl rfl
  | view kind bytes =>
    by_cases hkind : kind = .buffer
    · subst hkind
      have hinit : initFromJS rt (.view .buffer bytes) = .ok (some (.buffer bytes)) := by
        simp only [initFromJS, hlaw.hasInstance_buffer, if_true]
      exact iff_of_true (roundTripsJS_primitive hinit rfl rfl rfl fun _ => rfl) (.inl rfl)
    · by_cases hinst : rt.hasInstance kind = true
      · exact iff_of_false (not_roundTripsJS_view bytes hkind hinst) (by simp [KeepsItsValue, *])
      · have himage : image rt (.view kind bytes) = reparse rt (.view kind bytes) := by
          cases kind with
          | buffer => exact absurd rfl hkind
          | uint8Array => rfl
          | otherView => rfl
        rw [roundTripsJS_iff_keepsText hlaw (by simp [initFromJS, hinst]) himage]
        simp [KeepsItsValue, hkind, hinst]

theorem roundTripsJava (hlaw : rt.Lawful) (o : rt.Object) : RoundTripsJava rt o := by
  intro doThrow value h
  cases o with
  | null => cases h; exact ⟨⟨_, rfl⟩, _, rfl, _, rfl, _, rfl, rfl⟩
  | number n =>
    cases h
    exact ⟨⟨_, rfl⟩, _, rfl, _, rfl, _, rfl, (hlaw.doubleValue_newDouble _).symm⟩
  | string s => cases h; exact ⟨⟨_, rfl⟩, _, rfl, _, rfl, _, rfl, rfl⟩
  | boolean b => cases h; exact ⟨⟨_, rfl⟩, _, rfl, _, rfl, _, rfl, rfl⟩
  | byteArray bytes =>
    cases h
    refine ⟨⟨_, rfl⟩, _, rfl, .buffer bytes, ?_, _, rfl, rfl⟩
    simp only [initFromJS, hlaw.hasInstance_buffer, if_true]
  | json p =>
    cases htext : rt.toJavaString p with
    | none => simp [initFromJava, jobjectToString, jstringToString, htext, Except.map] at h
    | some t =>
      simp only [initFromJava, jobjectToString, jstringToString, htext, Except.map,
        Except.ok.injEq, Conversion.accepted.injEq] at h
      subst h
      have hparse := hlaw.toJavaString_parse p t htext
      obtain ⟨p', hnext, -⟩ := hlaw.nextValue_parse t _ hparse
      obtain ⟨s, hstr, hs⟩ := hlaw.stringify_fresh (rt.data p)
      obtain ⟨o', hnext', hjson⟩ := hlaw.nextValue_parse s _ hs
      refine ⟨⟨p', hnext⟩, _, toJavaScript_json hparse, .json s, ?_, o', hnext', ?_⟩
      · simp only [Runtime.ofJson, initFromJS, stringifyToString, hstr, Except.map]
      · cases o' with
        | json p'' =>
          have hdata := Json.container.inj (Option.some.inj hjson)
          exact hdata.symm
        | null => cases hjson
        | number n => cases hjson
        | string s => cases hjson
        | boolean b => cases hjson
        | byteArray bytes => cases hjson
        | jsonNull => cases hjson
        | other className => cases hjson
  | jsonNull => cases h
  | other className => cases h

/-- A JavaScript value survives the round trip exactly if it keeps its value, and
a Java object that is accepted always does. -/
theorem marshalling_round_trip_iff (hlaw : rt.Lawful) :
    (∀ v : rt.Value, RoundTripsJS rt v ↔ KeepsItsValue rt v) ∧
      ∀ o : rt.Object, RoundTripsJava rt o :=
  ⟨roundTripsJS_iff hlaw, roundTripsJava hlaw⟩

theorem marshalling_round_trip_plain :
    RoundTripsJS Sample.runtime (.object (.plain .emptyObject)) ∧
      RoundTripsJava Sample.runtime (.json .emptyArray) := by
  obtain ⟨hscript, hjava⟩ := marshalling_round_trip_iff Sample.runtime_lawful
  refine ⟨(hscript _).mpr ⟨by rintro ⟨⟩, ?_⟩, hjava _⟩
  rintro t ⟨⟩ h
  cases h

theorem function_does_not_round_trip :
    initFromJS Sample.runtime (.object .function) = .ok (some (.json (u16 "undefined"))) ∧
      toJavaScript Sample.runtime (.json (u16 "undefined")) = .error .emptyMaybeLocal ∧
      ¬ RoundTripsJS Sample.runtime (.object .function) := by
  refine ⟨rfl, rfl, fun h => ?_⟩
  obtain ⟨w, -, hscript, -⟩ := h (.json (u16 "undefined")) rfl
  cases hscript

end RoundTrip

end AlmondAndroid.Bridge
