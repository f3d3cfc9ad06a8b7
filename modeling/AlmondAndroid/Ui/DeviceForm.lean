import AlmondAndroid.Bridge.OrgJson
import AlmondAndroid.Library.JsonNumber
import Mathlib.Algebra.Ring.Nat

/-!
# The form of a device

`DeviceCreateFormActivity` shows a row with a field for each control of a device. A listener of
the field keeps what is typed as the value of the control, at every change of the text, and
`confirmConfigure` puts the values in a JSON object. The list may ask for a row again at any
time, for one that has come back into view say, and then shows a new one, whose field is empty.
Of the numbers of JSON only those of `java.lang.Integer` occur.
-/

namespace AlmondAndroid.Ui

open Library Bridge

structure FormControl where
  type : U16String
  name : U16String
  label : U16String
  value : Option (JsonTree Int)

/-- What the activity is started with. No control has a value yet. -/
structure DeviceForm where
  kind : U16String
  controls : List FormControl
  distinct : (controls.map FormControl.name).Nodup
  notKind : ∀ control ∈ controls, control.name ≠ u16 "kind"
  fresh : ∀ control ∈ controls, control.value = none

inductive FormInputType
  | password
  | email
  | number
  | text
  deriving DecidableEq

structure FormRow where
  label : U16String
  inputType : Option FormInputType
  text : U16String

/-- The controls with the values kept so far, and the row that the list has last shown for
each. -/
structure FormScreen where
  controls : List FormControl
  rows : List FormRow

/-- A text is typed in the field that is shown, or a new row is shown. -/
inductive FormEvent
  | edit (position : Nat) (text : U16String)
  | getView (position : Nat)

def FormEvent.position : FormEvent → Nat
  | edit position _ => position
  | getView position => position

namespace DeviceForm

def isNumber (control : FormControl) : Bool := control.type = u16 "number"

def digitValue (c : UInt16) : Nat := c.toNat - 0x30

def decimal (digits : U16String) : Nat := digits.foldl (fun n c => 10 * n + digitValue c) 0

def magnitude (bound : Nat) (digits : U16String) : Option Nat :=
  if digits ≠ [] ∧ digits.all Json.isDigit ∧ decimal digits ≤ bound then some (decimal digits)
  else none

/-- `Integer.valueOf` of `java.lang`; `none` is a `NumberFormatException`. -/
def integerValueOf : U16String → Option Int
  | [] => none
  | c :: digits =>
    if c = 0x2d then (magnitude (2 ^ 31) digits).map fun n => -(n : Int)
    else if c = 0x2b then (magnitude (2 ^ 31 - 1) digits).map fun n => (n : Int)
    else (magnitude (2 ^ 31 - 1) (c :: digits)).map fun n => (n : Int)

/-- The listener; `none` is an exception that nothing catches. -/
def afterTextChanged (control : FormControl) (s : U16String) : Option FormControl :=
  if isNumber control then
    (integerValueOf s).map fun n => { control with value := some (.number n) }
  else some { control with value := some (.string s) }

/-- A field of another type is left as it is. -/
def inputType (type : U16String) : Option FormInputType :=
  if type = u16 "password" then some .password
  else if type = u16 "email" then some .email
  else if type = u16 "number" then some .number
  else if type = u16 "text" then some .text
  else none

/-- The field is a new one, which does not show the value of the control. -/
def getView (control : FormControl) : FormRow := ⟨control.label, inputType control.type, []⟩

def opened (form : DeviceForm) : FormScreen := ⟨form.controls, form.controls.map getView⟩

def edit (s : FormScreen) (position : Nat) (text : U16String) : Option FormScreen :=
  s.controls[position]?.bind fun control =>
    (afterTextChanged control text).map fun changed =>
      { controls := s.controls.set position changed
        rows := s.rows.modify position fun row => { row with text := text } }

def step (s : FormScreen) : FormEvent → Option FormScreen
  | .edit position text => edit s position text
  | .getView position =>
    s.controls[position]?.map fun control =>
      { s with rows := s.rows.set position (getView control) }

def run (form : DeviceForm) (events : List FormEvent) : Option FormScreen :=
  events.foldlM step (opened form)

/-- `JSONObject.put` of an object; null removes the name. -/
def put (obj : JSONObject Int) (name : U16String) : Option (JsonTree Int) → JSONObject Int
  | some value => obj.put name value
  | none => obj.filter fun member => member.1 ≠ name

def confirmConfigure (mKind : U16String) (mControls : List FormControl) : JSONObject Int :=
  mControls.foldl (fun obj control => put obj control.name control.value)
    [(u16 "kind", .string mKind)]

/-! ## What is shown -/

/-- The value that a text stands for; there is none for an empty field. -/
def shownValue (control : FormControl) : U16String → Option (JsonTree Int)
  | [] => none
  | c :: text =>
    if isNumber control then some (.number (decimal (c :: text))) else some (.string (c :: text))

/-- The list has a row for each control, and a field for numbers takes digits only. -/
structure Typed (form : DeviceForm) (events : List FormEvent) : Prop where
  position : ∀ e ∈ events, e.position < form.controls.length
  digits : ∀ i text, .edit i text ∈ events → ∀ control, form.controls[i]? = some control →
    inputType control.type = some .number → ∀ c ∈ text, Json.isDigit c = true

/-- The object has the kind, the values that the fields show, and nothing else. -/
structure Submits (form : DeviceForm) (s : FormScreen) (obj : JSONObject Int) : Prop where
  kind : obj.opt (u16 "kind") = some (.string form.kind)
  values : ∀ (i : Nat) control row, form.controls[i]? = some control → s.rows[i]? = some row →
    obj.opt control.name = shownValue control row.text
  nothingElse : ∀ name, (obj.opt name).isSome →
    name = u16 "kind" ∨ name ∈ form.controls.map FormControl.name

/-- No edit raises an exception, and then what is shown is submitted. -/
def SubmitsShown (form : DeviceForm) (events : List FormEvent) : Prop :=
  ∃ s, run form events = some s ∧ Submits form s (confirmConfigure form.kind s.controls)

/-- What the events leave in the field: it is empty at first, and whenever the row is new. -/
def leftText (events : List FormEvent) (position : Nat) : U16String :=
  (Table.lastWrite (events.map fun
    | .edit i text => (i, text)
    | .getView i => (i, [])) position).getD []

/-- A field for numbers always gets one that is not too large, and no field that was edited is
empty in the end, whether it was cleared or its row is a new one. -/
def NeverCleared (form : DeviceForm) (events : List FormEvent) : Prop :=
  (∀ i text, .edit i text ∈ events → ∀ control, form.controls[i]? = some control →
    isNumber control = true → text ≠ [] ∧ decimal text < 2 ^ 31) ∧
    ∀ i text, .edit i text ∈ events → leftText events i ≠ []

/-! ## The listener -/

theorem integerValueOf_of_digits {text : U16String}
    (h : ∀ c ∈ text, Json.isDigit c = true) :
    integerValueOf text =
      if text ≠ [] ∧ decimal text < 2 ^ 31 then some (decimal text : Int) else none := by
  cases text with
  | nil => rfl
  | cons c rest =>
    have hc := h c (List.mem_cons_self ..)
    have hminus : c ≠ 0x2d := by
      rintro rfl
      exact absurd hc (by decide)
    have hplus : c ≠ 0x2b := by
      rintro rfl
      exact absurd hc (by decide)
    have hall : (c :: rest).all Json.isDigit = true := List.all_eq_true.mpr h
    rw [integerValueOf, if_neg hminus, if_neg hplus, magnitude]
    by_cases hbound : decimal (c :: rest) < 2 ^ 31
    · rw [if_pos ⟨List.cons_ne_nil _ _, hall, Nat.le_sub_one_of_lt hbound⟩,
        if_pos ⟨List.cons_ne_nil _ _, hbound⟩]
      rfl
    · rw [if_neg fun h => hbound (Nat.lt_of_le_sub_one (by decide) h.2.2),
        if_neg fun h => hbound h.2]
      rfl

def captured (control : FormControl) (text : U16String) : Option (JsonTree Int) :=
  if isNumber control then (integerValueOf text).map .number else some (.string text)

def afterEdits (control : FormControl) : Option U16String → FormControl
  | none => control
  | some text => { control with value := captured control text }

@[simp] theorem afterEdits_name (control : FormControl) (text : Option U16String) :
    (afterEdits control text).name = control.name := by
  cases text <;> rfl

@[simp] theorem isNumber_afterEdits (control : FormControl) (text : Option U16String) :
    isNumber (afterEdits control text) = isNumber control := by
  cases text <;> rfl

/-- The edits keep values, and the row is that of a control. -/
def Fits (controls : List FormControl) : FormEvent → Prop
  | .edit i text => ∃ control, controls[i]? = some control ∧ (captured control text).isSome
  | .getView i => i < controls.length

theorem afterTextChanged_eq_some_iff {control next : FormControl} {text : U16String} :
    afterTextChanged control text = some next ↔
      (captured control text).isSome ∧ next = { control with value := captured control text } := by
  rw [afterTextChanged, captured]
  cases isNumber control with
  | true =>
    rw [if_pos rfl, if_pos rfl]
    cases integerValueOf text with
    | none =>
      constructor
      · intro h
        cases h
      · rintro ⟨h, -⟩
        cases h
    | some n =>
      constructor
      · intro h
        cases h
        exact ⟨rfl, rfl⟩
      · rintro ⟨-, rfl⟩
        rfl
  | false =>
    rw [if_neg Bool.false_ne_true, if_neg Bool.false_ne_true]
    constructor
    · intro h
      cases h
      exact ⟨rfl, rfl⟩
    · rintro ⟨-, rfl⟩
      rfl

@[simp] theorem captured_afterEdits (control : FormControl) (text : Option U16String)
    (s : U16String) : captured (afterEdits control text) s = captured control s := by
  rw [captured, captured, isNumber_afterEdits]

theorem afterEdits_afterEdits (control : FormControl) (text : Option U16String) (s : U16String) :
    { afterEdits control text with value := captured control s } =
      afterEdits control (some s) := by
  cases text <;> rfl

theorem inputType_eq_number_iff (control : FormControl) :
    inputType control.type = some .number ↔ isNumber control = true := by
  rw [isNumber, decide_eq_true_eq, inputType]
  constructor
  · intro h
    by_contra hnumber
    rw [if_neg hnumber] at h
    grind
  · rintro h
    rw [h]
    decide

/-! ## Any sequence of events -/

def lastEdit (events : List FormEvent) (position : Nat) : Option U16String :=
  Table.lastWrite (events.filterMap fun
    | .edit i text => some (i, text)
    | .getView _ => none) position

theorem lastEdit_edit (events : List FormEvent) (j : Nat) (text : U16String) (i : Nat) :
    lastEdit (events ++ [.edit j text]) i = if j = i then some text else lastEdit events i := by
  rw [lastEdit, List.filterMap_append]
  exact Table.lastWrite_append_singleton ..

theorem lastEdit_getView (events : List FormEvent) (j i : Nat) :
    lastEdit (events ++ [.getView j]) i = lastEdit events i := by
  rw [lastEdit, List.filterMap_append]
  exact congrArg (fun writes => Table.lastWrite writes i) (List.append_nil _)

theorem leftText_edit (events : List FormEvent) (j : Nat) (text : U16String) (i : Nat) :
    leftText (events ++ [.edit j text]) i = if j = i then text else leftText events i := by
  rw [leftText, List.map_append, List.map_singleton, Table.lastWrite_append_singleton]
  by_cases hi : j = i
  · rw [if_pos hi, if_pos hi, Option.getD_some]
  · rw [if_neg hi, if_neg hi, leftText]

theorem leftText_getView (events : List FormEvent) (j i : Nat) :
    leftText (events ++ [.getView j]) i = if j = i then [] else leftText events i := by
  rw [leftText, List.map_append, List.map_singleton, Table.lastWrite_append_singleton]
  by_cases hi : j = i
  · rw [if_pos hi, if_pos hi, Option.getD_some]
  · rw [if_neg hi, if_neg hi, leftText]

theorem mem_of_lastEdit {events : List FormEvent} {i : Nat} {text : U16String}
    (h : lastEdit events i = some text) : .edit i text ∈ events := by
  induction events using List.reverseRecOn with
  | nil => cases h
  | append_singleton events e ih =>
    cases e with
    | edit j other =>
      rw [lastEdit_edit] at h
      split at h
      · rename_i hj
        cases h
        subst hj
        exact List.mem_append_right _ (List.mem_singleton_self _)
      · exact List.mem_append_left _ (ih h)
    | getView j =>
      rw [lastEdit_getView] at h
      exact List.mem_append_left _ (ih h)

theorem lastEdit_of_mem {events : List FormEvent} {i : Nat} {text : U16String}
    (h : .edit i text ∈ events) : ∃ last, lastEdit events i = some last := by
  have hsome : (lastEdit events i).isSome :=
    (Table.lastWrite_isSome_iff ..).mpr ⟨(i, text), List.mem_filterMap.mpr ⟨_, h, rfl⟩, rfl⟩
  exact Option.isSome_iff_exists.mp hsome

/-- A field that is not empty shows what was typed last. -/
theorem lastEdit_of_leftText {events : List FormEvent} {i : Nat}
    (h : leftText events i ≠ []) : lastEdit events i = some (leftText events i) := by
  induction events using List.reverseRecOn with
  | nil => exact absurd rfl h
  | append_singleton events e ih =>
    cases e with
    | edit j text =>
      rw [leftText_edit] at h ⊢
      rw [lastEdit_edit]
      split
      · rfl
      · rename_i hj
        rw [if_neg hj] at h
        exact ih h
    | getView j =>
      rw [leftText_getView] at h ⊢
      rw [lastEdit_getView]
      split
      · rename_i hj
        rw [if_pos hj] at h
        exact absurd rfl h
      · rename_i hj
        rw [if_neg hj] at h
        exact ih h

/-- What the events make of the form. -/
structure After (form : DeviceForm) (events : List FormEvent) (s : FormScreen) : Prop where
  controls : ∀ i, s.controls[i]? =
    form.controls[i]?.map fun control => afterEdits control (lastEdit events i)
  rows : ∀ i, s.rows[i]? = form.controls[i]?.map fun control =>
    { getView control with text := leftText events i }
  fits : ∀ e ∈ events, Fits form.controls e

theorem getView_afterEdits (control : FormControl) (text : Option U16String) :
    getView (afterEdits control text) = getView control := by
  cases text <;> rfl

theorem After.edit {form : DeviceForm} {events : List FormEvent} {s next : FormScreen}
    (h : After form events s) {j : Nat} {text : U16String}
    (hedit : DeviceForm.edit s j text = some next) :
    After form (events ++ [.edit j text]) next := by
  obtain ⟨control, hcontrol, hafter⟩ := Option.bind_eq_some_iff.mp hedit
  obtain ⟨changed, hchanged, rfl⟩ := Option.map_eq_some_iff.mp hafter
  obtain ⟨hfits, rfl⟩ := afterTextChanged_eq_some_iff.mp hchanged
  have hlt : j < s.controls.length := (List.getElem?_eq_some_iff.mp hcontrol).1
  rw [h.controls j] at hcontrol
  obtain ⟨original, horiginal, rfl⟩ := Option.map_eq_some_iff.mp hcontrol
  rw [captured_afterEdits] at hfits ⊢
  rw [afterEdits_afterEdits]
  refine ⟨fun i => ?_, fun i => ?_, fun e he => ?_⟩
  · rw [List.getElem?_set, lastEdit_edit]
    by_cases hi : j = i
    · subst hi
      rw [if_pos rfl, if_pos hlt, horiginal, if_pos rfl]
      rfl
    · rw [if_neg hi, if_neg hi, h.controls i]
  · rw [List.getElem?_modify, h.rows i, leftText_edit]
    by_cases hi : j = i
    · subst hi
      rw [horiginal]
      simp
    · simp [hi]
  · rcases List.mem_append.mp he with he | he
    · exact h.fits e he
    · cases List.mem_singleton.mp he
      exact ⟨original, horiginal, hfits⟩

theorem After.getView {form : DeviceForm} {events : List FormEvent} {s next : FormScreen}
    (h : After form events s) {j : Nat} (hstep : step s (.getView j) = some next) :
    After form (events ++ [.getView j]) next := by
  obtain ⟨control, hcontrol, rfl⟩ := Option.map_eq_some_iff.mp hstep
  rw [h.controls j] at hcontrol
  obtain ⟨original, horiginal, rfl⟩ := Option.map_eq_some_iff.mp hcontrol
  have hrow : s.rows[j]? ≠ none := by
    rw [h.rows j, horiginal]
    exact Option.some_ne_none _
  refine ⟨fun i => ?_, fun i => ?_, fun e he => ?_⟩
  · rw [lastEdit_getView]
    exact h.controls i
  · rw [List.getElem?_set, leftText_getView]
    by_cases hi : j = i
    · subst hi
      have hlt : j < s.rows.length := by
        by_contra hle
        exact hrow (List.getElem?_eq_none (Nat.le_of_not_lt hle))
      rw [if_pos rfl, if_pos hlt, horiginal, if_pos rfl, getView_afterEdits]
      rfl
    · rw [if_neg hi, if_neg hi, h.rows i]
  · rcases List.mem_append.mp he with he | he
    · exact h.fits e he
    · cases List.mem_singleton.mp he
      exact (List.getElem?_eq_some_iff.mp horiginal).1

theorem run_append (form : DeviceForm) (events : List FormEvent) (e : FormEvent) :
    run form (events ++ [e]) = (run form events).bind fun s => step s e := by
  rw [run, List.foldlM_append]
  refine bind_congr fun s => ?_
  rw [List.foldlM_cons]
  exact bind_pure _

theorem run_after {form : DeviceForm} (events : List FormEvent) :
    ∀ s, run form events = some s → After form events s := by
  induction events using List.reverseRecOn with
  | nil =>
    intro s h
    cases h
    refine ⟨fun i => Option.map_id'.symm, fun i => ?_, fun e he => ?_⟩
    · rw [opened, List.getElem?_map]
      rfl
    · cases he
  | append_singleton events e ih =>
    intro next h
    rw [run_append] at h
    obtain ⟨s, hs, hstep⟩ := Option.bind_eq_some_iff.mp h
    cases e with
    | edit j text => exact (ih s hs).edit hstep
    | getView j => exact (ih s hs).getView hstep

theorem exists_run {form : DeviceForm} (events : List FormEvent)
    (h : ∀ e ∈ events, Fits form.controls e) : ∃ s, run form events = some s := by
  induction events using List.reverseRecOn with
  | nil => exact ⟨opened form, rfl⟩
  | append_singleton events e ih =>
    obtain ⟨s, hs⟩ := ih fun other hother => h other (List.mem_append_left _ hother)
    have hafter := run_after events s hs
    have hfits := h e (List.mem_append_right _ (List.mem_singleton_self e))
    rw [run_append, hs, Option.bind_some]
    cases e with
    | edit j text =>
      obtain ⟨control, hcontrol, hcaptured⟩ := hfits
      have hposition := hafter.controls j
      rw [hcontrol, Option.map_some] at hposition
      have hchanged : afterTextChanged (afterEdits control (lastEdit events j)) text =
          some (afterEdits control (some text)) := by
        rw [afterTextChanged_eq_some_iff, captured_afterEdits]
        exact ⟨hcaptured, (afterEdits_afterEdits ..).symm⟩
      rw [step, DeviceForm.edit, hposition, Option.bind_some, hchanged, Option.map_some]
      exact ⟨_, rfl⟩
    | getView j =>
      have hlt : j < form.controls.length := hfits
      rw [step, hafter.controls j, List.getElem?_eq_getElem hlt, Option.map_some,
        Option.map_some]
      exact ⟨_, rfl⟩

/-! ## The object -/

theorem lastWrite_filter {members : JSONObject Int} {name other : U16String} :
    Table.lastWrite (members.filter fun member => member.1 ≠ name) other =
      if name = other then none else Table.lastWrite members other := by
  induction members using List.reverseRecOn with
  | nil => exact (ite_self none).symm
  | append_singleton members member ih =>
    rw [List.filter_append, Table.lastWrite_append_singleton]
    by_cases hmember : member.1 = name
    · rw [List.filter_singleton, decide_eq_false (not_not_intro hmember), cond_false,
        List.append_nil, ih]
      by_cases hother : name = other
      · rw [if_pos hother, if_pos hother]
      · rw [if_neg hother, if_neg hother, hmember, if_neg hother]
    · rw [List.filter_singleton, decide_eq_true hmember, cond_true,
        Table.lastWrite_append_singleton, ih]
      by_cases hother : name = other
      · rw [if_pos hother, if_neg (hother ▸ hmember), if_pos hother]
      · rw [if_neg hother, if_neg hother]

theorem opt_put (obj : JSONObject Int) (name other : U16String) (value : Option (JsonTree Int)) :
    (put obj name value).opt other = if name = other then value else obj.opt other := by
  cases value with
  | some value => exact Table.lastWrite_append_singleton obj (name, value) other
  | none => exact lastWrite_filter

theorem opt_putAll (controls : List FormControl) (obj : JSONObject Int)
    (hnodup : (controls.map FormControl.name).Nodup) :
    (∀ control ∈ controls,
      (controls.foldl (fun obj control => put obj control.name control.value) obj).opt
        control.name = control.value) ∧
    ∀ name, name ∉ controls.map FormControl.name →
      (controls.foldl (fun obj control => put obj control.name control.value) obj).opt name =
        obj.opt name := by
  induction controls generalizing obj with
  | nil =>
    constructor
    · intro control hcontrol
      cases hcontrol
    · intro name _
      rfl
  | cons first rest ih =>
    rw [List.map_cons, List.nodup_cons] at hnodup
    obtain ⟨hfirst, hrest⟩ := hnodup
    obtain ⟨hfound, hkept⟩ := ih (put obj first.name first.value) hrest
    constructor
    · intro control hcontrol
      rcases List.mem_cons.mp hcontrol with rfl | hcontrol
      · rw [List.foldl_cons, hkept _ hfirst, opt_put, if_pos rfl]
      · exact hfound control hcontrol
    · intro name hname
      rw [List.map_cons, List.mem_cons, not_or] at hname
      rw [List.foldl_cons, hkept name hname.2, opt_put, if_neg (Ne.symm hname.1)]

theorem After.names {form : DeviceForm} {events : List FormEvent} {s : FormScreen}
    (h : After form events s) :
    s.controls.map FormControl.name = form.controls.map FormControl.name := by
  apply List.ext_getElem?
  intro i
  rw [List.getElem?_map, List.getElem?_map, h.controls i, Option.map_map]
  congr 1
  funext control
  exact afterEdits_name control _

theorem fits_edit_iff {controls : List FormControl} {i : Nat} {text : U16String}
    {control : FormControl} (hcontrol : controls[i]? = some control)
    (hdigits : isNumber control = true → ∀ c ∈ text, Json.isDigit c = true) :
    Fits controls (.edit i text) ↔
      (isNumber control = true → text ≠ [] ∧ decimal text < 2 ^ 31) := by
  have hfits : Fits controls (.edit i text) ↔ (captured control text).isSome := by
    constructor
    · rintro ⟨other, hother, h⟩
      rw [hcontrol] at hother
      cases hother
      exact h
    · intro h
      exact ⟨control, hcontrol, h⟩
  rw [hfits, captured]
  cases hnumber : isNumber control with
  | true =>
    rw [if_pos rfl, integerValueOf_of_digits (hdigits hnumber)]
    split
    · rename_i hbound
      exact iff_of_true rfl fun _ => hbound
    · rename_i hbound
      exact iff_of_false Bool.false_ne_true fun h => hbound (h rfl)
  | false =>
    rw [if_neg Bool.false_ne_true]
    exact iff_of_true rfl fun h => absurd h Bool.false_ne_true

/-- A value that was kept is the one shown, unless the field is empty. -/
theorem captured_eq_shownValue {control : FormControl} {text : U16String}
    (hdigits : isNumber control = true → ∀ c ∈ text, Json.isDigit c = true)
    (hcaptured : (captured control text).isSome) (hne : text ≠ []) :
    captured control text = shownValue control text := by
  obtain ⟨c, rest, rfl⟩ := List.exists_cons_of_ne_nil hne
  rw [captured] at hcaptured ⊢
  rw [shownValue]
  cases hnumber : isNumber control with
  | true =>
    rw [hnumber, if_pos rfl, integerValueOf_of_digits (hdigits hnumber)] at hcaptured
    rw [if_pos rfl, if_pos rfl, integerValueOf_of_digits (hdigits hnumber)]
    split
    · rfl
    · rename_i hbound
      rw [if_neg hbound] at hcaptured
      cases hcaptured
  | false => rfl

section

variable {form : DeviceForm} {events : List FormEvent} (htyped : Typed form events)
include htyped

theorem fits_all_iff :
    (∀ e ∈ events, Fits form.controls e) ↔
      ∀ i text, .edit i text ∈ events → ∀ control, form.controls[i]? = some control →
        isNumber control = true → text ≠ [] ∧ decimal text < 2 ^ 31 := by
  constructor
  · intro h i text he control hcontrol
    refine (fits_edit_iff hcontrol fun hnumber => ?_).mp (h _ he)
    exact htyped.digits i text he control hcontrol ((inputType_eq_number_iff _).mpr hnumber)
  · intro h e he
    have hlt := htyped.position e he
    cases e with
    | getView i => exact hlt
    | edit i text =>
      have hcontrol := List.getElem?_eq_getElem hlt
      refine (fits_edit_iff hcontrol fun hnumber => ?_).mpr (h i text he _ hcontrol)
      exact htyped.digits i text he _ hcontrol ((inputType_eq_number_iff _).mpr hnumber)

/-- Where the listener has not raised an exception, only a field that is empty differs from
what is kept. -/
theorem value_afterEdits {i : Nat} {control : FormControl}
    (hfits : ∀ e ∈ events, Fits form.controls e) (hcontrol : form.controls[i]? = some control) :
    (afterEdits control (lastEdit events i)).value = shownValue control (leftText events i) ↔
      ∀ text, .edit i text ∈ events → leftText events i ≠ [] := by
  have hcaptured : ∀ text, .edit i text ∈ events → (captured control text).isSome := by
    intro text he
    obtain ⟨other, hother, h⟩ := hfits _ he
    rw [hcontrol] at hother
    cases hother
    exact h
  constructor
  · intro hvalue text he hempty
    obtain ⟨last, hlast⟩ := lastEdit_of_mem he
    have hkept := hcaptured last (mem_of_lastEdit hlast)
    rw [hlast, hempty] at hvalue
    have hnone : captured control last = none := hvalue
    rw [hnone] at hkept
    cases hkept
  · intro h
    cases hlast : lastEdit events i with
    | none =>
      have hempty : leftText events i = [] := by
        by_contra hne
        rw [lastEdit_of_leftText hne] at hlast
        cases hlast
      rw [hempty]
      exact form.fresh control (List.mem_of_getElem? hcontrol)
    | some text =>
      have he := mem_of_lastEdit hlast
      have hne := h text he
      have hleft := lastEdit_of_leftText hne
      rw [hlast] at hleft
      cases hleft
      refine captured_eq_shownValue (fun hnumber => ?_) (hcaptured _ he) hne
      exact htyped.digits i _ he control hcontrol ((inputType_eq_number_iff _).mpr hnumber)

omit htyped in
theorem opt_confirmConfigure {s : FormScreen} (h : After form events s) :
    (∀ i control, form.controls[i]? = some control →
      (confirmConfigure form.kind s.controls).opt control.name =
        (afterEdits control (lastEdit events i)).value) ∧
    ∀ name, name ∉ form.controls.map FormControl.name →
      (confirmConfigure form.kind s.controls).opt name =
        JSONObject.opt [(u16 "kind", .string form.kind)] name := by
  obtain ⟨hfound, hkept⟩ := opt_putAll s.controls [(u16 "kind", .string form.kind)]
    (h.names ▸ form.distinct)
  constructor
  · intro i control hcontrol
    have hget := h.controls i
    rw [hcontrol, Option.map_some] at hget
    have hopt := hfound _ (List.mem_of_getElem? hget)
    rw [afterEdits_name] at hopt
    exact hopt
  · intro name hname
    exact hkept name (h.names ▸ hname)

end

/-- What is typed is submitted exactly if no field for numbers is cleared or given a number
from 2147483648 on, and no field that was edited is empty in the end. -/
theorem submitsShown_iff (form : DeviceForm) (events : List FormEvent)
    (htyped : Typed form events) : SubmitsShown form events ↔ NeverCleared form events := by
  constructor
  · rintro ⟨s, hs, hsubmits⟩
    have hafter := run_after events s hs
    refine ⟨(fits_all_iff htyped).mp hafter.fits, ?_⟩
    intro i text he
    have hlt : i < form.controls.length := htyped.position _ he
    have hcontrol := List.getElem?_eq_getElem hlt
    have hrow := hafter.rows i
    rw [hcontrol, Option.map_some] at hrow
    refine (value_afterEdits htyped hafter.fits hcontrol).mp ?_ text he
    rw [← (opt_confirmConfigure hafter).1 i _ hcontrol]
    exact hsubmits.values i _ _ hcontrol hrow
  · rintro ⟨hnumbers, hcleared⟩
    have hfits := (fits_all_iff htyped).mpr hnumbers
    obtain ⟨s, hs⟩ := exists_run events hfits
    have hafter := run_after events s hs
    obtain ⟨hfound, hkept⟩ := opt_confirmConfigure hafter
    refine ⟨s, hs, ?_, ?_, ?_⟩
    · rw [hkept]
      · rfl
      · intro hmem
        obtain ⟨control, hcontrol, hname⟩ := List.mem_map.mp hmem
        exact form.notKind control hcontrol hname
    · intro i control row hcontrol hrow
      rw [hafter.rows i, hcontrol, Option.map_some] at hrow
      cases hrow
      rw [hfound i control hcontrol]
      exact (value_afterEdits htyped hfits hcontrol).mpr (hcleared i)
    · intro name hname
      by_cases hmem : name ∈ form.controls.map FormControl.name
      · exact .inr hmem
      · rw [hkept name hmem, JSONObject.opt, Table.lastWrite_isSome_iff] at hname
        obtain ⟨member, hmember, rfl⟩ := hname
        cases List.mem_singleton.mp hmember
        exact .inl rfl

def portForm : DeviceForm where
  kind := u16 "tv"
  controls := [⟨u16 "number", u16 "port", u16 "Port", none⟩,
    ⟨u16 "text", u16 "host", u16 "Host", none⟩]
  distinct := by decide
  notKind := by decide
  fresh := by
    intro control hcontrol
    rcases List.mem_cons.mp hcontrol with rfl | hcontrol
    · rfl
    · cases List.mem_singleton.mp hcontrol
      rfl

theorem typed_portForm {events : List FormEvent}
    (h : events.all (fun e => e.position < 2 && match e with
      | .edit _ text => text.all Json.isDigit
      | .getView _ => true) = true) : Typed portForm events := by
  refine ⟨fun e he => ?_, fun i text he _ _ _ c hc => ?_⟩
  · exact of_decide_eq_true (Bool.and_eq_true_iff.mp (List.all_eq_true.mp h e he)).1
  · exact List.all_eq_true.mp (Bool.and_eq_true_iff.mp (List.all_eq_true.mp h _ he)).2 c hc

/-- The row that is shown anew had an empty field. -/
theorem submitsShown_portForm :
    SubmitsShown portForm [.edit 0 (u16 "80"), .getView 1] := by
  refine (submitsShown_iff portForm _ (typed_portForm rfl)).mpr ⟨?_, ?_⟩
  · intro i text he control _ _
    obtain ⟨rfl, rfl⟩ : i = 0 ∧ text = u16 "80" := by simpa using he
    decide
  · intro i text he
    obtain ⟨rfl, -⟩ : i = 0 ∧ text = u16 "80" := by simpa using he
    decide

/-- A digit is typed and deleted. -/
theorem not_submitsShown_portForm :
    ¬∀ form events, Typed form events → SubmitsShown form events := by
  intro hall
  obtain ⟨s, hs, -⟩ :=
    hall portForm [.edit 0 (u16 "5"), .edit 0 []] (typed_portForm rfl)
  have hnone : run portForm [.edit 0 (u16 "5"), .edit 0 []] = none := rfl
  rw [hnone] at hs
  cases hs

end DeviceForm

end AlmondAndroid.Ui
