import AlmondAndroid.Library.Table

/-!
# Plain objects

A plain object of JavaScript is a table of its own properties over a prototype. What is not
among them is looked up in the prototype, and an assignment to the name of the prototype
itself makes no property.
-/

namespace AlmondAndroid.Library

universe u v

structure Prototype (ι : Type u) (α : Type v) where
  name : ι
  inherited : ι → Option α

namespace PlainObject

variable {ι : Type u} {α : Type v} [DecidableEq ι] {P : Prototype ι α} {own : ι → Option α}
  {i j : ι} {x : α}

def get (P : Prototype ι α) (own : ι → Option α) (i : ι) : Option α :=
  (own i).or (P.inherited i)

/-- Assigned to the name of the prototype is nothing that replaces it. -/
def set (P : Prototype ι α) (own : ι → Option α) (i : ι) (x : α) : ι → Option α :=
  if i = P.name then own else Function.update own i (some x)

omit [DecidableEq ι] in
theorem get_of_own (h : own i = some x) : get P own i = some x := by
  rw [get, h]
  rfl

omit [DecidableEq ι] in
theorem get_of_not_own (h : own i = none) : get P own i = P.inherited i := by
  rw [get, h]
  rfl

theorem set_apply_self (h : i ≠ P.name) : set P own i x i = some x := by
  rw [set, if_neg h, Function.update_self]

theorem set_apply_of_ne (h : j ≠ i) : set P own i x j = own j := by
  rw [set]
  split
  · rfl
  · exact Function.update_of_ne h _ _

@[simp] theorem set_apply_name : set P own i x P.name = own P.name := by
  rw [set]
  split
  · rfl
  · rename_i h
    exact Function.update_of_ne (Ne.symm h) _ _

def setAll (P : Prototype ι α) (own : ι → Option α) (writes : List (ι × α)) : ι → Option α :=
  writes.foldl (fun own w => set P own w.1 w.2) own

theorem setAll_append (writes more : List (ι × α)) :
    setAll P own (writes ++ more) = setAll P (setAll P own writes) more :=
  List.foldl_append ..

theorem setAll_name (writes : List (ι × α)) : setAll P own writes P.name = own P.name := by
  induction writes using List.reverseRecOn with
  | nil => rfl
  | append_singleton writes w ih =>
    rw [setAll_append]
    change set P (setAll P own writes) w.1 w.2 P.name = own P.name
    rw [set_apply_name, ih]

theorem setAll_apply (writes : List (ι × α)) (h : i ≠ P.name) :
    setAll P own writes i = (Table.lastWrite writes i).or (own i) := by
  induction writes using List.reverseRecOn with
  | nil => rfl
  | append_singleton writes w ih =>
    rw [setAll_append, Table.lastWrite_append_singleton]
    change set P (setAll P own writes) w.1 w.2 i = _
    by_cases hw : w.1 = i
    · subst hw
      rw [set_apply_self h, if_pos rfl]
      rfl
    · rw [if_neg hw, ← ih, set_apply_of_ne (Ne.symm hw)]

theorem setAll_of_nodup {writes : List (ι × α)} (hnodup : (writes.map Prod.fst).Nodup)
    (hmem : (i, x) ∈ writes) (h : i ≠ P.name) : setAll P own writes i = some x := by
  rw [setAll_apply writes h]
  have hlast : Table.lastWrite writes i = some x := by
    induction writes using List.reverseRecOn with
    | nil => cases hmem
    | append_singleton writes w ih =>
      rw [List.map_append, List.map_singleton, List.nodup_append] at hnodup
      rw [Table.lastWrite_append_singleton]
      rcases List.mem_append.mp hmem with hmem | hmem
      · have hw : w.1 ≠ i := fun heq => hnodup.2.2 i (List.mem_map.mpr ⟨_, hmem, rfl⟩) w.1
          (List.mem_singleton_self w.1) heq.symm
        rw [if_neg hw, ih hnodup.1 hmem]
      · cases List.mem_singleton.mp hmem
        exact if_pos rfl
  rw [hlast]
  rfl

/-! ## The prototype of every object literal -/

def inheritedNames : List String :=
  ["constructor", "__defineGetter__", "__defineSetter__", "hasOwnProperty", "__lookupGetter__",
    "__lookupSetter__", "isPrototypeOf", "propertyIsEnumerable", "toString", "valueOf",
    "__proto__", "toLocaleString"]

/-- Names are texts of some kind, and `inherited` says what is found under a name. -/
def objectPrototype (text : String → ι) (inherited : ι → α) : Prototype ι α where
  name := text "__proto__"
  inherited i := if i ∈ inheritedNames.map text then some (inherited i) else none

theorem get_of_not_inherited {text : String → ι} {inherited : ι → α}
    (h : i ∉ inheritedNames.map text) : get (objectPrototype text inherited) own i = own i := by
  rw [get]
  change (own i).or (if i ∈ inheritedNames.map text then some (inherited i) else none) = own i
  rw [if_neg h, Option.or_none]

end PlainObject

end AlmondAndroid.Library
