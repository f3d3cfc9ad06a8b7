import AlmondAndroid.Ui.SlotFilling

/-!
# Activating a slot filling message again and again

Every activation writes the values into the JSON of the message itself, and nothing takes them
out again: what an earlier activation wrote for a slot that is empty now is sent once more, and
what was written before an exception stays.
-/

namespace AlmondAndroid.Ui.SlotFilling

open Library Bridge

/-- Whether the service is there, and what the fields hold. -/
structure Activation where
  control : Bool
  typed : U16String → U16String

def Activated.quiet : Activated → Bool
  | .ignored | .printed => true
  | .sent _ _ | .threw _ => false

section

variable (J : JavaLang) (title : U16String) (slots : JSONArray Double)
  (slotTypes : JSONObject Double)

def activate (json : JSONObject Double) (a : Activation) : Activated × JSONObject Double :=
  onSlotFillingActivated J a.control title json slots slotTypes (typedValues title a.typed)

/-- The JSON of a message, which each activation may change. -/
def machine (original : JSONObject Double) : Machine (JSONObject Double) Activation where
  Init json := json = original
  step json a := some (activate J title slots slotTypes json a).2

/-- A slot of the list is no word of the title, or its value is none of its type. -/
def Fails (values : U16String → Option U16String) : Prop :=
  ∃ slot ∈ slots, values (getString J.valueOf slot) = none ∨
    ∃ value, values (getString J.valueOf slot) = some value ∧ value ≠ [] ∧
      ∃ e, convert J slotTypes (getString J.valueOf slot) value = .error e

/-- The original with the values of the slots that are not empty. -/
structure SentExactly (original : JSONObject Double) (values : U16String → Option U16String)
    (json : JSONObject Double) : Prop where
  members : ∀ name, name ≠ u16 "entities" → json.opt name = original.opt name
  isObject : (json.optJSONObject (u16 "entities")).isSome
  empty : ∀ i slot, slots[i]? = some slot → values (getString J.valueOf slot) = some [] →
    (entitiesOf json).opt (slotId i) = (entitiesOf original).opt (slotId i)
  filled : ∀ i slot value, slots[i]? = some slot →
    values (getString J.valueOf slot) = some value → value ≠ [] →
      ∃ x, convert J slotTypes (getString J.valueOf slot) value = .ok x ∧
        (entitiesOf json).opt (slotId i) = some x
  others : ∀ name, (∀ i < slots.length, name ≠ slotId i) →
    (entitiesOf json).opt name = (entitiesOf original).opt name

end

def SameJson (json json' : JSONObject Double) : Prop :=
  (∀ name, name ≠ u16 "entities" → json'.opt name = json.opt name) ∧
    (json'.opt (u16 "entities") = json.opt (u16 "entities") ∨
      (json.optJSONObject (u16 "entities")).isSome ∧
        (json'.optJSONObject (u16 "entities")).isSome ∧
        ∀ name, (entitiesOf json').opt name = (entitiesOf json).opt name)

section

variable (J : JavaLang) (title : U16String) (slots : JSONArray Double)
  (slotTypes : JSONObject Double) (original json : JSONObject Double) (a : Activation)

/-- An activation sends the JSON as it should be; or, where it has to fail, it fails without an
exception and leaves the JSON alone. -/
def Exact : Prop :=
  (∃ sentTitle sentJson, (activate J title slots slotTypes json a).1 = .sent sentTitle sentJson ∧
    SentExactly J slots slotTypes original (typedValues title a.typed) sentJson) ∨
  Fails J slots slotTypes (typedValues title a.typed) ∧
    (activate J title slots slotTypes json a).1.quiet = true ∧
    SameJson json (activate J title slots slotTypes json a).2

/-- The first slot that fails does so with a `JSONException`, and the values of those before it
are in the JSON already. -/
def FailsCleanly (values : U16String → Option U16String) : Prop :=
  (json.optJSONObject (u16 "entities")).isSome ∧
    ∃ before slot after value, slots = before ++ slot :: after ∧
      ¬ Fails J before slotTypes values ∧
      values (getString J.valueOf slot) = some value ∧ value ≠ [] ∧
      convert J slotTypes (getString J.valueOf slot) value = .error .jsonException ∧
      ∀ i other v x, before[i]? = some other → values (getString J.valueOf other) = some v →
        v ≠ [] → convert J slotTypes (getString J.valueOf other) v = .ok x →
          (entitiesOf json).opt (slotId i) = some x

def ExactWhen : Prop :=
  (a.control = true ∧ ¬ Fails J slots slotTypes (typedValues title a.typed) ∧
    ∀ i slot, slots[i]? = some slot →
      typedValues title a.typed (getString J.valueOf slot) = some [] →
        (entitiesOf json).opt (slotId i) = (entitiesOf original).opt (slotId i)) ∨
  Fails J slots slotTypes (typedValues title a.typed) ∧
    (a.control = false ∨ FailsCleanly J slots slotTypes json (typedValues title a.typed))

end

/-! ## The identifiers of the slots -/

theorem slotId_injective {i j : Nat} (h : slotId i = slotId j) : i = j :=
  u16_repr_injective (List.append_cancel_left h)

/-! ## What the loop adds -/

section

variable {J : JavaLang} {slotTypes : JSONObject Double} {values : U16String → Option U16String}
  {slot : JsonTree Double} {slots before after : JSONArray Double}

theorem entity_of_value {value : U16String}
    (hvalue : values (getString J.valueOf slot) = some value) (hne : value ≠ []) :
    entity J slotTypes values slot =
      (convert J slotTypes (getString J.valueOf slot) value).map some := by
  rw [entity, hvalue]
  cases value with
  | nil => exact absurd rfl hne
  | cons c value => rfl

theorem entity_of_empty (hvalue : values (getString J.valueOf slot) = some []) :
    entity J slotTypes values slot = .ok none := by
  rw [entity, hvalue]

theorem entity_cases (J : JavaLang) (slotTypes : JSONObject Double)
    (values : U16String → Option U16String) (slot : JsonTree Double) :
    (values (getString J.valueOf slot) = none ∧
      entity J slotTypes values slot = .error .nullPointerException) ∨
    (values (getString J.valueOf slot) = some [] ∧ entity J slotTypes values slot = .ok none) ∨
    ∃ value, values (getString J.valueOf slot) = some value ∧ value ≠ [] ∧
      entity J slotTypes values slot =
        (convert J slotTypes (getString J.valueOf slot) value).map some := by
  cases hvalue : values (getString J.valueOf slot) with
  | none => exact .inl ⟨rfl, by rw [entity, hvalue]⟩
  | some value =>
    cases value with
    | nil => exact .inr (.inl ⟨rfl, entity_of_empty hvalue⟩)
    | cons c value =>
      exact .inr (.inr ⟨_, rfl, List.cons_ne_nil c value, entity_of_value hvalue
        (List.cons_ne_nil c value)⟩)

theorem entity_eq_error {e : JavaException} (h : entity J slotTypes values slot = .error e) :
    (values (getString J.valueOf slot) = none ∧ e = .nullPointerException) ∨
      ∃ value, values (getString J.valueOf slot) = some value ∧ value ≠ [] ∧
        convert J slotTypes (getString J.valueOf slot) value = .error e := by
  rcases entity_cases J slotTypes values slot with
    ⟨hnone, heq⟩ | ⟨-, heq⟩ | ⟨value, hvalue, hne, heq⟩
  · rw [heq] at h
    cases h
    exact .inl ⟨hnone, rfl⟩
  · rw [heq] at h
    cases h
  · rw [heq] at h
    refine .inr ⟨value, hvalue, hne, ?_⟩
    cases hconvert : convert J slotTypes (getString J.valueOf slot) value with
    | error e' =>
      rw [hconvert] at h
      cases h
      rfl
    | ok x =>
      rw [hconvert] at h
      cases h

theorem entity_eq_ok {o : Option (JsonTree Double)} (h : entity J slotTypes values slot = .ok o) :
    (values (getString J.valueOf slot) = some [] ∧ o = none) ∨
      ∃ value x, values (getString J.valueOf slot) = some value ∧ value ≠ [] ∧
        convert J slotTypes (getString J.valueOf slot) value = .ok x ∧ o = some x := by
  rcases entity_cases J slotTypes values slot with
    ⟨-, heq⟩ | ⟨hempty, heq⟩ | ⟨value, hvalue, hne, heq⟩
  · rw [heq] at h
    cases h
  · rw [heq] at h
    cases h
    exact .inl ⟨hempty, rfl⟩
  · rw [heq] at h
    cases hconvert : convert J slotTypes (getString J.valueOf slot) value with
    | error e =>
      rw [hconvert] at h
      cases h
    | ok x =>
      rw [hconvert] at h
      cases h
      exact .inr ⟨value, x, hvalue, hne, hconvert, rfl⟩

theorem not_fails_iff :
    ¬ Fails J slots slotTypes values ↔ failure J slotTypes values slots = none := by
  rw [failure_eq_none_iff]
  constructor
  · intro h slot hslot
    cases hentity : entity J slotTypes values slot with
    | ok o => exact ⟨o, rfl⟩
    | error e =>
      refine absurd ⟨slot, hslot, ?_⟩ h
      rcases entity_eq_error hentity with ⟨hnone, -⟩ | ⟨value, hvalue, hne, hconvert⟩
      · exact .inl hnone
      · exact .inr ⟨value, hvalue, hne, e, hconvert⟩
  · rintro h ⟨slot, hslot, hfails⟩
    obtain ⟨o, ho⟩ := h slot hslot
    rcases hfails with hnone | ⟨value, hvalue, hne, e, hconvert⟩
    · rw [entity, hnone] at ho
      cases ho
    · rw [entity_of_value hvalue hne, hconvert] at ho
      cases ho

theorem failure_eq_some {e : JavaException} (h : failure J slotTypes values slots = some e) :
    ∃ before slot after, slots = before ++ slot :: after ∧
      failure J slotTypes values before = none ∧ entity J slotTypes values slot = .error e := by
  obtain ⟨before, slot, after, hsplit, hslot, hbefore⟩ := List.findSome?_eq_some_iff.mp h
  refine ⟨before, slot, after, hsplit, List.findSome?_eq_none_iff.mpr hbefore, ?_⟩
  split at hslot
  · rename_i hentity
    cases hslot
    exact hentity
  · cases hslot

theorem failure_append {e : JavaException} (hbefore : failure J slotTypes values before = none)
    (hslot : entity J slotTypes values slot = .error e) (after : JSONArray Double) :
    failure J slotTypes values (before ++ slot :: after) = some e := by
  rw [failure, List.findSome?_append, ← failure, hbefore, Option.none_or, List.findSome?_cons,
    hslot]

theorem added_append {e : JavaException} (hbefore : failure J slotTypes values before = none)
    (hslot : entity J slotTypes values slot = .error e) (i : Nat) :
    added J slotTypes values i (before ++ slot :: after) = added J slotTypes values i before := by
  induction before generalizing i with
  | nil => rw [List.nil_append, added, added, hslot]
  | cons first before ih =>
    have hall := failure_eq_none_iff.mp hbefore
    obtain ⟨o, ho⟩ := hall first List.mem_cons_self
    have hrest := failure_eq_none_iff.mpr fun other hother =>
      hall other (List.mem_cons_of_mem _ hother)
    rw [List.cons_append, added, added, ho, ih hrest]

theorem added_other (slots : JSONArray Double) : ∀ {i : Nat} {name : U16String},
    (∀ j < slots.length, name ≠ slotId (i + j)) →
      (added J slotTypes values i slots).opt name = none := by
  induction slots with
  | nil => exact fun _ => rfl
  | cons slot slots ih =>
    intro i name hname
    have hrest : (added J slotTypes values (i + 1) slots).opt name = none := by
      refine ih fun j hj => ?_
      have h := hname (j + 1) (Nat.succ_lt_succ hj)
      rwa [Nat.add_assoc, Nat.add_comm 1 j]
    rw [added]
    split
    · rfl
    · exact hrest
    · have hne : slotId i ≠ name := fun h => hname 0 (Nat.succ_pos _) h.symm
      rw [JSONObject.opt, Table.lastWrite_cons, ← JSONObject.opt, hrest, Option.none_or,
        if_neg hne]

theorem added_slot (slots : JSONArray Double) : ∀ {i j : Nat} {slot : JsonTree Double}
    {o : Option (JsonTree Double)}, failure J slotTypes values slots = none →
    slots[j]? = some slot → entity J slotTypes values slot = .ok o →
      (added J slotTypes values i slots).opt (slotId (i + j)) = o := by
  induction slots with
  | nil =>
    intro i j slot o _ hslot _
    cases hslot
  | cons first slots ih =>
    intro i j slot o hnone hslot ho
    have hall := failure_eq_none_iff.mp hnone
    have hrest := failure_eq_none_iff.mpr fun other hother =>
      hall other (List.mem_cons_of_mem _ hother)
    have hlater : ∀ k < slots.length, slotId i ≠ slotId (i + 1 + k) := fun k _ h => by
      have heq := slotId_injective h
      omega
    rw [added]
    cases j with
    | zero =>
      cases hslot
      rw [ho]
      cases o with
      | none => exact added_other slots hlater
      | some x =>
        rw [Nat.add_zero i, JSONObject.opt, Table.lastWrite_cons, ← JSONObject.opt,
          added_other slots hlater, if_pos rfl]
        rfl
    | succ j =>
      have hfound : (added J slotTypes values (i + 1) slots).opt (slotId (i + (j + 1))) = o := by
        rw [← Nat.add_assoc, Nat.add_right_comm]
        exact ih hrest hslot ho
      obtain ⟨p, hp⟩ := hall first List.mem_cons_self
      rw [hp]
      cases p with
      | none => exact hfound
      | some x =>
        have hne : slotId i ≠ slotId (i + (j + 1)) := fun h => by
          have heq := slotId_injective h
          omega
        rw [JSONObject.opt, Table.lastWrite_cons, ← JSONObject.opt, hfound, if_neg hne,
          Option.or_none]

end

/-! ## The JSON of the message -/

section

variable {J : JavaLang} {title : U16String} {slots : JSONArray Double}
  {slotTypes : JSONObject Double} {values : U16String → Option U16String}
  {original json : JSONObject Double} {a : Activation} {name : U16String}

theorem opt_written (h : name ≠ u16 "entities") :
    (written J slotTypes values slots json).opt name = json.opt name := by
  rw [written, JSONObject.put, JSONObject.opt, Table.lastWrite_append_singleton, if_neg h.symm]
  rfl

theorem optJSONObject_written :
    (written J slotTypes values slots json).optJSONObject (u16 "entities") =
      some (entitiesOf json ++ added J slotTypes values 0 slots) := by
  rw [written, JSONObject.optJSONObject, JSONObject.getJSONObject, JSONObject.put,
    JSONObject.opt, Table.lastWrite_append_singleton, if_pos rfl]

theorem entitiesOf_written : (entitiesOf (written J slotTypes values slots json)).opt name =
    ((added J slotTypes values 0 slots).opt name).or ((entitiesOf json).opt name) := by
  rw [entitiesOf, optJSONObject_written, Option.getD_some]
  exact Table.lastWrite_append _ _ _

/-- Only the identifiers of the slots differ from the original. -/
structure Inv (slots : JSONArray Double) (original json : JSONObject Double) : Prop where
  members : ∀ name, name ≠ u16 "entities" → json.opt name = original.opt name
  others : ∀ name, (∀ i < slots.length, name ≠ slotId i) →
    (entitiesOf json).opt name = (entitiesOf original).opt name

theorem added_none (h : ∀ i < slots.length, name ≠ slotId i) :
    (added J slotTypes values 0 slots).opt name = none :=
  added_other slots fun j hj => by
    rw [Nat.zero_add]
    exact h j hj

theorem Inv.written (h : Inv slots original json) :
    Inv slots original (written J slotTypes values slots json) where
  members name hname := by
    rw [opt_written hname]
    exact h.members name hname
  others name hname := by
    rw [entitiesOf_written, added_none hname, Option.none_or]
    exact h.others name hname

theorem activate_of_control (hcontrol : a.control = true) :
    activate J title slots slotTypes json a =
      onSlotFillingActivated J true title json slots slotTypes (typedValues title a.typed) := by
  rw [activate, hcontrol]

theorem activate_of_no_control (hcontrol : a.control = false) :
    activate J title slots slotTypes json a = (.ignored, json) := by
  rw [activate, hcontrol]
  rfl

theorem Inv.of_reachable (h : (machine J title slots slotTypes original).Reachable json) :
    Inv slots original json := by
  refine h.invariant (Inv slots original) (fun s hs => ?_) fun s a t hs hstep => ?_
  · rw [hs]
    exact ⟨fun _ _ => rfl, fun _ _ => rfl⟩
  · obtain rfl := Option.some.inj hstep
    cases hcontrol : a.control with
    | false =>
      rw [activate_of_no_control hcontrol]
      exact hs
    | true =>
      rw [activate_of_control hcontrol, onSlotFillingActivated_eq]
      exact hs.written

/-! ## An activation that sends -/

theorem sentExactly_iff (h : Inv slots original json)
    (hnone : failure J slotTypes values slots = none) :
    SentExactly J slots slotTypes original values (written J slotTypes values slots json) ↔
      ∀ i slot, slots[i]? = some slot → values (getString J.valueOf slot) = some [] →
        (entitiesOf json).opt (slotId i) = (entitiesOf original).opt (slotId i) := by
  have hslot : ∀ {i slot o}, slots[i]? = some slot → entity J slotTypes values slot = .ok o →
      (entitiesOf (written J slotTypes values slots json)).opt (slotId i) =
        o.or ((entitiesOf json).opt (slotId i)) := by
    intro i slot o hi ho
    have hadded := added_slot slots hnone hi ho (i := 0)
    rw [Nat.zero_add] at hadded
    rw [entitiesOf_written, hadded]
  have hempty : ∀ {i slot}, slots[i]? = some slot → values (getString J.valueOf slot) = some [] →
      (entitiesOf (written J slotTypes values slots json)).opt (slotId i) =
        (entitiesOf json).opt (slotId i) := by
    intro i slot hi hvalue
    rw [hslot hi (entity_of_empty hvalue), Option.none_or]
  constructor
  · intro hsent i slot hi hvalue
    rw [← hempty hi hvalue]
    exact hsent.empty i slot hi hvalue
  · intro hstale
    refine ⟨h.written.members, ?_, fun i slot hi hvalue => ?_, fun i slot value hi hvalue hne => ?_,
      h.written.others⟩
    · rw [optJSONObject_written]
      rfl
    · rw [hempty hi hvalue]
      exact hstale i slot hi hvalue
    · obtain ⟨o, ho⟩ := failure_eq_none_iff.mp hnone slot (List.mem_of_getElem? hi)
      rcases entity_eq_ok ho with ⟨hnil, -⟩ | ⟨value', x, hvalue', -, hconvert, rfl⟩
      · rw [hvalue] at hnil
        exact absurd (Option.some.inj hnil) hne
      · rw [hvalue] at hvalue'
        obtain rfl := Option.some.inj hvalue'
        exact ⟨x, hconvert, by rw [hslot hi ho, Option.some_or]⟩

/-! ## An activation that fails -/

theorem sameJson_written_iff : SameJson json (written J slotTypes values slots json) ↔
    (json.optJSONObject (u16 "entities")).isSome ∧ ∀ name x,
      (added J slotTypes values 0 slots).opt name = some x →
        (entitiesOf json).opt name = some x := by
  have hsame : (∀ name, (entitiesOf (written J slotTypes values slots json)).opt name =
      (entitiesOf json).opt name) ↔ ∀ name x,
        (added J slotTypes values 0 slots).opt name = some x →
          (entitiesOf json).opt name = some x := by
    refine forall_congr' fun name => ?_
    rw [entitiesOf_written]
    cases (added J slotTypes values 0 slots).opt name with
    | none => exact iff_of_true rfl fun x h => by cases h
    | some y =>
      rw [Option.some_or]
      exact ⟨fun h x hx => by rw [← h, hx], fun h => (h y rfl).symm⟩
  rw [SameJson, optJSONObject_written, hsame]
  constructor
  · rintro ⟨-, heq | ⟨hobject, -, hadded⟩⟩
    · have hobject : json.optJSONObject (u16 "entities") =
          some (entitiesOf json ++ added J slotTypes values 0 slots) := by
        rw [← optJSONObject_written, JSONObject.optJSONObject, JSONObject.optJSONObject,
          JSONObject.getJSONObject, JSONObject.getJSONObject, heq]
      have hentities : entitiesOf json = entitiesOf json ++ added J slotTypes values 0 slots :=
        congrArg (Option.getD · []) hobject
      rw [hobject]
      refine ⟨rfl, fun name x hx => ?_⟩
      rw [hentities, JSONObject.opt, Table.lastWrite_append, ← JSONObject.opt, hx, Option.some_or]
    · exact ⟨hobject, hadded⟩
  · rintro ⟨hobject, hadded⟩
    exact ⟨fun name hname => opt_written hname, .inr ⟨hobject, rfl, hadded⟩⟩

theorem added_failed {before after : JSONArray Double} {slot : JsonTree Double}
    {e : JavaException} (hsplit : slots = before ++ slot :: after)
    (hbefore : failure J slotTypes values before = none)
    (hslot : entity J slotTypes values slot = .error e) :
    (∀ name x, (added J slotTypes values 0 slots).opt name = some x →
      (entitiesOf json).opt name = some x) ↔
    ∀ i other v x, before[i]? = some other → values (getString J.valueOf other) = some v →
      v ≠ [] → convert J slotTypes (getString J.valueOf other) v = .ok x →
        (entitiesOf json).opt (slotId i) = some x := by
  have hindex : ∀ {i other o}, before[i]? = some other → entity J slotTypes values other = .ok o →
      (added J slotTypes values 0 before).opt (slotId i) = o := by
    intro i other o hi ho
    have hadded := added_slot before hbefore hi ho (i := 0)
    rwa [Nat.zero_add] at hadded
  rw [hsplit, added_append hbefore hslot]
  constructor
  · intro h i other v x hi hvalue hne hconvert
    refine h _ x (hindex hi ?_)
    rw [entity_of_value hvalue hne, hconvert]
    rfl
  · intro h name x hx
    by_cases hname : ∀ i < before.length, name ≠ slotId i
    · rw [added_none hname] at hx
      cases hx
    · push Not at hname
      obtain ⟨i, hi, rfl⟩ := hname
      have hother := List.getElem?_eq_getElem hi
      obtain ⟨o, ho⟩ := failure_eq_none_iff.mp hbefore _ (List.getElem_mem hi)
      rw [hindex hother ho] at hx
      rcases entity_eq_ok ho with ⟨-, hnone⟩ | ⟨v, y, hvalue, hne, hconvert, hsome⟩
      · rw [hnone] at hx
        cases hx
      · rw [hsome] at hx
        obtain rfl := Option.some.inj hx
        exact h i _ v y hother hvalue hne hconvert

theorem failsCleanly_iff {e : JavaException}
    (hfailure : failure J slotTypes values slots = some e) (json : JSONObject Double) :
    FailsCleanly J slots slotTypes json values ↔
      e = .jsonException ∧ SameJson json (written J slotTypes values slots json) := by
  rw [sameJson_written_iff]
  constructor
  · rintro ⟨hobject, before, slot, after, value, hsplit, hbefore, hvalue, hne, hconvert, hadded⟩
    have hnone := not_fails_iff.mp hbefore
    have hslot : entity J slotTypes values slot = .error .jsonException := by
      rw [entity_of_value hvalue hne, hconvert]
      rfl
    have hfirst := failure_append hnone hslot after
    rw [← hsplit, hfailure] at hfirst
    exact ⟨Option.some.inj hfirst, hobject, (added_failed hsplit hnone hslot).mpr hadded⟩
  · rintro ⟨rfl, hobject, hadded⟩
    obtain ⟨before, slot, after, hsplit, hnone, hslot⟩ := failure_eq_some hfailure
    rcases entity_eq_error hslot with ⟨-, hnull⟩ | ⟨value, hvalue, hne, hconvert⟩
    · cases hnull
    · exact ⟨hobject, before, slot, after, value, hsplit, not_fails_iff.mpr hnone, hvalue, hne,
        hconvert, (added_failed hsplit hnone hslot).mp hadded⟩

/-- When an activation, after any others, sends the JSON as it should be or fails and leaves it
alone. -/
theorem exact_iff (J : JavaLang) (title : U16String) (slots : JSONArray Double)
    (slotTypes original : JSONObject Double)
    (hs : (machine J title slots slotTypes original).Reachable json) (a : Activation) :
    Exact J title slots slotTypes original json a ↔
      ExactWhen J title slots slotTypes original json a := by
  have hinv := Inv.of_reachable hs
  unfold Exact ExactWhen
  cases hcontrol : a.control with
  | false =>
    rw [activate_of_no_control hcontrol]
    constructor
    · rintro (⟨_, _, hsent, -⟩ | ⟨hfails, -⟩)
      · cases hsent
      · exact .inr ⟨hfails, .inl rfl⟩
    · rintro (⟨hfalse, -⟩ | ⟨hfails, -⟩)
      · cases hfalse
      · exact .inr ⟨hfails, rfl, fun _ _ => rfl, .inl rfl⟩
  | true =>
    rw [activate_of_control hcontrol, onSlotFillingActivated_eq]
    cases hfailure : failure J slotTypes (typedValues title a.typed) slots with
    | none =>
      have hnot := not_fails_iff.mpr hfailure
      constructor
      · rintro (⟨sentTitle, sentJson, hsent, hexact⟩ | ⟨hfails, -⟩)
        · cases hsent
          exact .inl ⟨rfl, hnot, (sentExactly_iff hinv hfailure).mp hexact⟩
        · exact absurd hfails hnot
      · rintro (⟨-, -, hstale⟩ | ⟨hfails, -⟩)
        · exact .inl ⟨_, _, rfl, (sentExactly_iff hinv hfailure).mpr hstale⟩
        · exact absurd hfails hnot
    | some e =>
      have hfails : Fails J slots slotTypes (typedValues title a.typed) := by
        by_contra hnot
        rw [not_fails_iff.mp hnot] at hfailure
        cases hfailure
      have hclean := failsCleanly_iff hfailure json
      constructor
      · rintro (⟨sentTitle, sentJson, hsent, -⟩ | ⟨-, hquiet, hsame⟩)
        · cases e with
          | jsonException => cases hsent
          | nullPointerException => cases hsent
          | numberFormatException => cases hsent
        · refine .inr ⟨hfails, .inr (hclean.mpr ⟨?_, hsame⟩)⟩
          cases e with
          | jsonException => rfl
          | nullPointerException => cases hquiet
          | numberFormatException => cases hquiet
      · rintro (⟨-, hnot, -⟩ | ⟨-, hnever | hcleanly⟩)
        · exact absurd hfails hnot
        · cases hnever
        · obtain ⟨rfl, hsame⟩ := hclean.mp hcleanly
          exact .inr ⟨hfails, rfl, hsame⟩

end

def oneSlot : JSONArray Double := [.string (u16 "a")]

def oneSlotType : JSONObject Double := [(u16 "a", .string (u16 "String"))]

def oneSlotJson : JSONObject Double :=
  [(u16 "slots", .array oneSlot), (u16 "slotTypes", .object oneSlotType)]

/-- The slot is filled twice. -/
theorem exact_again : ∃ json,
    (machine noNumbers (u16 "$a") oneSlot oneSlotType oneSlotJson).Reachable json ∧
      (entitiesOf json).opt (slotId 0) = some (.string (u16 "x")) ∧
      Exact noNumbers (u16 "$a") oneSlot oneSlotType oneSlotJson json ⟨true, fun _ => u16 "y"⟩ := by
  have hs : (machine noNumbers (u16 "$a") oneSlot oneSlotType oneSlotJson).Reachable
      (activate noNumbers (u16 "$a") oneSlot oneSlotType oneSlotJson ⟨true, fun _ => u16 "x"⟩).2 :=
    Machine.Reachable.step (.start rfl) rfl
  refine ⟨_, hs, rfl, (exact_iff _ _ _ _ _ hs _).mpr (.inl ⟨rfl, not_fails_iff.mpr rfl, ?_⟩)⟩
  intro i slot hslot hempty
  cases i with
  | zero =>
    cases hslot
    cases hempty
  | succ i => cases hslot

/-- The slot is filled, and then left empty: its value is sent again. -/
theorem sends_stale : ¬ ∀ (J : JavaLang) (title : U16String) (slots : JSONArray Double)
    (slotTypes original json : JSONObject Double) (a : Activation),
    original.getJSONArray (u16 "slots") = some slots →
    original.getJSONObject (u16 "slotTypes") = some slotTypes →
    (machine J title slots slotTypes original).Reachable json →
      Exact J title slots slotTypes original json a := by
  intro h
  have hs : (machine noNumbers (u16 "$a") oneSlot oneSlotType oneSlotJson).Reachable
      (activate noNumbers (u16 "$a") oneSlot oneSlotType oneSlotJson ⟨true, fun _ => u16 "x"⟩).2 :=
    Machine.Reachable.step (.start rfl) rfl
  rcases h noNumbers (u16 "$a") oneSlot oneSlotType oneSlotJson _ ⟨true, fun _ => []⟩ rfl rfl hs
    with ⟨sentTitle, sentJson, hsent, hexact⟩ | ⟨hfails, -⟩
  · have hstale := hexact.empty 0 _ rfl rfl
    cases hsent
    cases hstale
  · exact not_fails_iff.mpr rfl hfails

end AlmondAndroid.Ui.SlotFilling
