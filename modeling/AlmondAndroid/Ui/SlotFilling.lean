import AlmondAndroid.Assistant.Dispatcher
import AlmondAndroid.Library.Replace
import AlmondAndroid.Library.Utf16
import Mathlib.Data.List.Nodup
import Mathlib.Data.List.SplitBy

/-!
# Filling slots

A slot filling message shows its title word by word, with a field in the place of every word
`$name`. `onSlotFillingActivated` replaces the text `$name` in the title, one slot after the
other, and collects the values in the entities of the JSON it sends.
-/

namespace AlmondAndroid.Ui

open Library Bridge

/-- `String.valueOf` of JSON data, and `Double.valueOf`, where `none` is a
`NumberFormatException`. -/
structure JavaLang where
  valueOf : JsonTree Double → U16String
  doubleValueOf : U16String → Option Double

namespace SlotFilling

def dollar : UInt16 := 0x24

/-- `\s`, which on Android is Unicode's white space. -/
def isSpace (c : UInt16) : Bool := Utf16.isWhiteSpace c

/-! ## `bind` -/

/-- The words of a text, which `split("\\s+")` gives, and the white space between them. -/
def runs (t : U16String) : List U16String := t.splitBy fun a b => isSpace a == isSpace b

def slotName : U16String → Option U16String
  | [] => none
  | c :: name => if c = dollar ∧ name ≠ [] then some name else none

/-- The keys of `slots`. -/
def slotNames (title : U16String) : List U16String := (runs title).filterMap slotName

/-- What is typed, for the words that are slots. -/
def typedValues (title : U16String) (typed : U16String → U16String) (name : U16String) :
    Option U16String :=
  if name ∈ slotNames title then some (typed name) else none

/-! ## `onSlotFillingActivated` -/

/-- `JSONObject.put`; `none` is a `JSONException`. -/
def put (o : JSONObject Double) (name : U16String) :
    JsonTree Double → Option (JSONObject Double)
  | .number n =>
    if Assistant.AssistantDispatcher.isFinite n then some (o.put name (.number n)) else none
  | value => some (o.put name value)

def slotId (i : Nat) : U16String := u16 "SLOT_" ++ u16 i.repr

/-- `none` is a `NumberFormatException`. -/
def getArgValue (J : JavaLang) (value type : U16String) : Option (JsonTree Double) :=
  if type = u16 "Number" then (J.doubleValueOf value).map .number
  else if type = u16 "Boolean" then some (.boolean (value = u16 "on"))
  else if u16 "Measure" <+: type ∨ u16 "Currency" <+: type then
    (J.doubleValueOf value).map .number
  else some (.string value)

inductive JavaException
  | jsonException
  | nullPointerException
  | numberFormatException
  deriving DecidableEq

/-- The local variable `title`, and the entities, which are written in place. -/
structure Filling where
  title : U16String
  entities : JSONObject Double

def blank : U16String := u16 "____"

def fill (value : U16String) : U16String := if value = [] then blank else value

def replaceSlot (title slotName value : U16String) : U16String :=
  Replace.replace (dollar :: slotName) (fill value) title

/-- The body of the loop, and the exception that leaves it. -/
def fillSlot (J : JavaLang) (slotTypes : JSONObject Double)
    (values : U16String → Option U16String) (i : Nat) (slot : JsonTree Double) (s : Filling) :
    Filling × Option JavaException :=
  let slotName := getString J.valueOf slot
  match values slotName with
  | none => (s, some .nullPointerException)
  | some slotValue =>
    let title := replaceSlot s.title slotName slotValue
    if slotValue = [] then ({ s with title := title }, none)
    else
      match slotTypes.opt slotName with
      | none => ({ s with title := title }, some .jsonException)
      | some slotType =>
        match getArgValue J slotValue (getString J.valueOf slotType) with
        | none => ({ s with title := title }, some .numberFormatException)
        | some value =>
          match put s.entities (slotId i) value with
          | none => ({ s with title := title }, some .jsonException)
          | some entities => (⟨title, entities⟩, none)

def fillSlots (J : JavaLang) (slotTypes : JSONObject Double)
    (values : U16String → Option U16String) :
    Nat → JSONArray Double → Filling → Filling × Option JavaException
  | _, [], s => (s, none)
  | i, slot :: slots, s =>
    match fillSlot J slotTypes values i slot s with
    | (s, some e) => (s, some e)
    | (s, none) => fillSlots J slotTypes values (i + 1) slots s

/-- How an activation ends. A `JSONException` is caught and printed. -/
inductive Activated
  | ignored
  | sent (title : U16String) (json : JSONObject Double)
  | printed
  | threw (e : JavaException)

/-- How the activation ends, and the JSON of the message then. -/
def onSlotFillingActivated (J : JavaLang) (control : Bool) (title : U16String)
    (json : JSONObject Double) (slots : JSONArray Double) (slotTypes : JSONObject Double)
    (values : U16String → Option U16String) : Activated × JSONObject Double :=
  if !control then (.ignored, json)
  else
    let entities := (json.optJSONObject (u16 "entities")).getD []
    let filled := fillSlots J slotTypes values 0 slots ⟨title, entities⟩
    let json := json.put (u16 "entities") (.object filled.1.entities)
    match filled.2 with
    | none => (.sent filled.1.title json, json)
    | some .jsonException => (.printed, json)
    | some e => (.threw e, json)

/-! ## What a slot adds to the entities -/

def accepted : JsonTree Double → Bool
  | .number n => Assistant.AssistantDispatcher.isFinite n
  | _ => true

def convert (J : JavaLang) (slotTypes : JSONObject Double) (slotName slotValue : U16String) :
    Except JavaException (JsonTree Double) :=
  match slotTypes.opt slotName with
  | none => .error .jsonException
  | some slotType =>
    match getArgValue J slotValue (getString J.valueOf slotType) with
    | none => .error .numberFormatException
    | some value => if accepted value then .ok value else .error .jsonException

def entity (J : JavaLang) (slotTypes : JSONObject Double)
    (values : U16String → Option U16String) (slot : JsonTree Double) :
    Except JavaException (Option (JsonTree Double)) :=
  match values (getString J.valueOf slot) with
  | none => .error .nullPointerException
  | some [] => .ok none
  | some value => (convert J slotTypes (getString J.valueOf slot) value).map some

def added (J : JavaLang) (slotTypes : JSONObject Double)
    (values : U16String → Option U16String) : Nat → JSONArray Double → JSONObject Double
  | _, [] => []
  | i, slot :: slots =>
    match entity J slotTypes values slot with
    | .error _ => []
    | .ok none => added J slotTypes values (i + 1) slots
    | .ok (some value) => (slotId i, value) :: added J slotTypes values (i + 1) slots

def failure (J : JavaLang) (slotTypes : JSONObject Double)
    (values : U16String → Option U16String) (slots : JSONArray Double) : Option JavaException :=
  slots.findSome? fun slot =>
    match entity J slotTypes values slot with
    | .error e => some e
    | .ok _ => none

def entitiesOf (json : JSONObject Double) : JSONObject Double :=
  (json.optJSONObject (u16 "entities")).getD []

def written (J : JavaLang) (slotTypes : JSONObject Double)
    (values : U16String → Option U16String) (slots : JSONArray Double)
    (json : JSONObject Double) : JSONObject Double :=
  json.put (u16 "entities") (.object (entitiesOf json ++ added J slotTypes values 0 slots))

theorem put_eq (o : JSONObject Double) (name : U16String) (value : JsonTree Double) :
    put o name value = if accepted value then some (o.put name value) else none := by
  cases value with
  | number n => rfl
  | null => rfl
  | boolean b => rfl
  | string s => rfl
  | array elements => rfl
  | object members => rfl

section

variable {J : JavaLang} {slotTypes : JSONObject Double} {values : U16String → Option U16String}
  {slot : JsonTree Double}

theorem fillSlot_eq (i : Nat) (s : Filling) :
    fillSlot J slotTypes values i slot s =
      let title := (values (getString J.valueOf slot)).elim s.title
        (replaceSlot s.title (getString J.valueOf slot))
      match entity J slotTypes values slot with
      | .error e => (⟨title, s.entities⟩, some e)
      | .ok none => (⟨title, s.entities⟩, none)
      | .ok (some value) => (⟨title, s.entities ++ [(slotId i, value)]⟩, none) := by
  unfold fillSlot entity
  dsimp only
  cases values (getString J.valueOf slot) with
  | none => rfl
  | some value =>
    cases value with
    | nil => rfl
    | cons c value =>
      dsimp only [Option.elim_some]
      rw [if_neg (List.cons_ne_nil c value), convert]
      cases slotTypes.opt (getString J.valueOf slot) with
      | none => rfl
      | some slotType =>
        dsimp only
        cases getArgValue J (c :: value) (getString J.valueOf slotType) with
        | none => rfl
        | some v =>
          dsimp only
          rw [put_eq]
          by_cases haccepted : accepted v = true
          · rw [if_pos haccepted, if_pos haccepted]
            rfl
          · rw [if_neg haccepted, if_neg haccepted]
            rfl

theorem fillSlots_eq (slots : JSONArray Double) : ∀ (i : Nat) (s : Filling),
    (fillSlots J slotTypes values i slots s).1.entities =
        s.entities ++ added J slotTypes values i slots ∧
      (fillSlots J slotTypes values i slots s).2 = failure J slotTypes values slots := by
  induction slots with
  | nil => exact fun i s => ⟨(List.append_nil _).symm, rfl⟩
  | cons slot slots ih =>
    intro i s
    rw [fillSlots, fillSlot_eq, added, failure, List.findSome?_cons]
    dsimp only
    cases entity J slotTypes values slot with
    | error e => exact ⟨(List.append_nil _).symm, rfl⟩
    | ok o =>
      cases o with
      | none => exact ih (i + 1) _
      | some value =>
        obtain ⟨hentities, hfailure⟩ := ih (i + 1) ⟨(values (getString J.valueOf slot)).elim s.title
          (replaceSlot s.title (getString J.valueOf slot)), s.entities ++ [(slotId i, value)]⟩
        refine ⟨hentities.trans ?_, hfailure⟩
        rw [List.append_assoc, List.singleton_append]

theorem failure_eq_none_iff {slots : JSONArray Double} :
    failure J slotTypes values slots = none ↔
      ∀ slot ∈ slots, ∃ o, entity J slotTypes values slot = .ok o := by
  rw [failure, List.findSome?_eq_none_iff]
  refine forall₂_congr fun slot _ => ?_
  cases entity J slotTypes values slot with
  | error e => exact ⟨fun h => (Option.some_ne_none e h).elim, fun ⟨o, h⟩ => by cases h⟩
  | ok o => exact ⟨fun _ => ⟨o, rfl⟩, fun _ => rfl⟩

theorem onSlotFillingActivated_eq (title : U16String) (json : JSONObject Double)
    (slots : JSONArray Double) :
    onSlotFillingActivated J true title json slots slotTypes values =
      (match failure J slotTypes values slots with
        | none => .sent (fillSlots J slotTypes values 0 slots ⟨title, entitiesOf json⟩).1.title
          (written J slotTypes values slots json)
        | some .jsonException => .printed
        | some e => .threw e,
        written J slotTypes values slots json) := by
  obtain ⟨hentities, hfailure⟩ : (fillSlots J slotTypes values 0 slots
      ⟨title, entitiesOf json⟩).1.entities =
        entitiesOf json ++ added J slotTypes values 0 slots ∧ _ := fillSlots_eq slots 0 _
  rw [written, ← hentities, ← hfailure, onSlotFillingActivated, if_neg (by decide), entitiesOf]
  dsimp only
  generalize fillSlots J slotTypes values 0 slots _ = filled
  obtain ⟨s, e⟩ := filled
  cases e with
  | none => rfl
  | some e =>
    cases e with
    | jsonException => rfl
    | nullPointerException => rfl
    | numberFormatException => rfl

end

/-! ## The title -/

/-- The word in the title once the named slots are filled in. -/
def fillWord (values : U16String → Option U16String) (names : List U16String)
    (word : U16String) : U16String :=
  match slotName word with
  | none => word
  | some name => if name ∈ names then (values name).elim word fill else word

def fillWords (values : U16String → Option U16String) (names : List U16String)
    (words : List U16String) : U16String :=
  (words.map (fillWord values names)).flatten

/-- The title with every word of the named slots replaced at the same time. -/
def substitute (values : U16String → Option U16String) (names : List U16String)
    (title : U16String) : U16String :=
  fillWords values names (runs title)

/-- With the slots before it filled in, `$name` begins nowhere but in the words `$name` of the
title. -/
def OnlyWords (values : U16String → Option U16String) (title : U16String)
    (filled : List U16String) (name : U16String) : Prop :=
  ∀ before word after, runs title = before ++ word :: after → slotName word = some name ∨
    Replace.BeginsNowhere (dollar :: name) (fillWord values filled word)
      (fillWords values filled after)

theorem forall_append_cons_iff {α : Type} {P : List α → α → List α → Prop} {l : List α} :
    (∀ before x after, l = before ++ x :: after → P before x after) ↔
      ∀ i (hi : i < l.length), P (l.take i) l[i] (l.drop (i + 1)) := by
  constructor
  · intro h i hi
    exact h _ _ _ (by rw [List.getElem_cons_drop, List.take_append_drop])
  · rintro h before x after rfl
    have hmid := h before.length (by rw [List.length_append, List.length_cons]; omega)
    rw [List.take_left, List.getElem_append_right (Nat.le_refl _)] at hmid
    simpa using hmid

instance {values : U16String → Option U16String} {title : U16String} {filled : List U16String}
    {name : U16String} : Decidable (OnlyWords values title filled name) :=
  decidable_of_iff' _ forall_append_cons_iff

theorem slotName_eq_some {word name : U16String} (h : slotName word = some name) :
    word = dollar :: name ∧ name ≠ [] := by
  cases word with
  | nil => cases h
  | cons c rest =>
    rw [slotName] at h
    split at h
    · rename_i hslot
      cases h
      exact ⟨by rw [hslot.1], hslot.2⟩
    · cases h

section

variable {values : U16String → Option U16String} {names : List U16String}

theorem fillWord_of_slotName {word name : U16String} (h : slotName word = some name) :
    fillWord values names word =
      if name ∈ names then (values name).elim word fill else word := by
  rw [fillWord, h]

theorem fillWords_cons (word : U16String) (words : List U16String) :
    fillWords values names (word :: words) =
      fillWord values names word ++ fillWords values names words := rfl

theorem fillWords_append (words more : List U16String) :
    fillWords values names (words ++ more) =
      fillWords values names words ++ fillWords values names more := by
  rw [fillWords, List.map_append, List.flatten_append, fillWords, fillWords]

theorem fillWord_append_of_ne {word name : U16String} (h : slotName word ≠ some name) :
    fillWord values (names ++ [name]) word = fillWord values names word := by
  cases hword : slotName word with
  | none => rw [fillWord, fillWord, hword]
  | some other =>
    rw [fillWord_of_slotName hword, fillWord_of_slotName hword]
    have hne : other ≠ name := fun heq => h (by rw [hword, heq])
    have hiff : other ∈ names ++ [name] ↔ other ∈ names := by
      rw [List.mem_append, List.mem_singleton]
      exact ⟨fun hmem => hmem.resolve_right hne, .inl⟩
    simp only [hiff]

/-- One slot, with those before it filled in. -/
theorem replaceSlot_fillWords {filled : List U16String} {name value : U16String}
    (hvalue : values name = some value) (hnew : name ∉ filled) (words : List U16String)
    (hwords : ∀ before word after, words = before ++ word :: after →
      slotName word = some name ∨ Replace.BeginsNowhere (dollar :: name)
        (fillWord values filled word) (fillWords values filled after)) :
    replaceSlot (fillWords values filled words) name value =
      fillWords values (filled ++ [name]) words := by
  induction words with
  | nil => rfl
  | cons word words ih =>
    have hrest := ih fun before other after h =>
      hwords (word :: before) other after (by rw [h, List.cons_append])
    rw [replaceSlot] at hrest ⊢
    rw [fillWords_cons, fillWords_cons, ← hrest]
    by_cases hword : slotName word = some name
    · rw [fillWord_of_slotName hword, if_neg hnew, fillWord_of_slotName hword,
        if_pos (List.mem_append_right _ (List.mem_singleton_self name)), hvalue,
        (slotName_eq_some hword).1, Replace.replace_append_self (List.cons_ne_nil _ _)]
      rfl
    · rw [fillWord_append_of_ne hword]
      exact Replace.replace_append ((hwords [] word words rfl).resolve_left hword)

theorem fillWords_nil (words : List U16String) : fillWords values [] words = words.flatten := by
  have hword : ∀ word, fillWord values [] word = word := by
    intro word
    cases h : slotName word with
    | none => rw [fillWord, h]
    | some name => rw [fillWord_of_slotName h, if_neg List.not_mem_nil]
  rw [fillWords, funext hword, List.map_id']

end

/-! ## What is sent -/

def names (J : JavaLang) (slots : JSONArray Double) : List U16String :=
  slots.map (getString J.valueOf)

def replaceSlots (values : U16String → Option U16String) (names : List U16String)
    (title : U16String) : U16String :=
  names.foldl (fun title name => replaceSlot title name ((values name).getD [])) title

section

variable {J : JavaLang} {title : U16String} {slots : JSONArray Double}
  {slotTypes : JSONObject Double} {values : U16String → Option U16String}

theorem fillSlot_title {i : Nat} {slot : JsonTree Double} {s t : Filling}
    (h : fillSlot J slotTypes values i slot s = (t, none)) :
    ∃ value, values (getString J.valueOf slot) = some value ∧
      t.title = replaceSlot s.title (getString J.valueOf slot) value := by
  rw [fillSlot_eq] at h
  dsimp only at h
  cases hvalue : values (getString J.valueOf slot) with
  | none =>
    rw [entity, hvalue] at h
    cases h
  | some value =>
    refine ⟨value, rfl, ?_⟩
    rw [hvalue, Option.elim_some] at h
    split at h
    · cases h
    · cases h
      rfl
    · cases h
      rfl

theorem fillSlots_title (slots : JSONArray Double) : ∀ (i : Nat) {s t : Filling},
    fillSlots J slotTypes values i slots s = (t, none) →
      (∀ name ∈ names J slots, ∃ value, values name = some value) ∧
        t.title = replaceSlots values (names J slots) s.title := by
  induction slots with
  | nil =>
    intro i s t h
    cases h
    exact ⟨fun name hname => (List.not_mem_nil hname).elim, rfl⟩
  | cons slot slots ih =>
    intro i s t h
    rw [fillSlots] at h
    split at h
    · cases h
    · rename_i u hslot
      obtain ⟨value, hvalue, hu⟩ := fillSlot_title hslot
      obtain ⟨hvalues, ht⟩ := ih (i + 1) h
      constructor
      · intro name hname
        rcases List.mem_cons.mp hname with rfl | hname
        · exact ⟨value, hvalue⟩
        · exact hvalues name hname
      · rw [ht, hu, names, names, List.map_cons, replaceSlots, replaceSlots, List.foldl_cons,
          hvalue, Option.getD_some]

theorem sent_title {control : Bool} {json : JSONObject Double} {sentTitle : U16String}
    {sentJson : JSONObject Double}
    (hsent : (onSlotFillingActivated J control title json slots slotTypes values).1 =
      .sent sentTitle sentJson) :
    (∀ name ∈ names J slots, ∃ value, values name = some value) ∧
      sentTitle = replaceSlots values (names J slots) title := by
  rw [onSlotFillingActivated] at hsent
  split at hsent
  · cases hsent
  · dsimp only at hsent
    split at hsent
    · rename_i hfilled
      cases hsent
      exact fillSlots_title slots 0 (Prod.ext rfl hfilled : fillSlots J slotTypes values 0 slots
        ⟨title, (json.optJSONObject (u16 "entities")).getD []⟩ = (_, none))
    · cases hsent
    · cases hsent

theorem replaceSlots_fillWords (rest : List U16String) : ∀ (filled : List U16String),
    (filled ++ rest).Nodup → (∀ name ∈ rest, ∃ value, values name = some value) →
    (∀ before name after, rest = before ++ name :: after →
      OnlyWords values title (filled ++ before) name) →
    replaceSlots values rest (fillWords values filled (runs title)) =
      fillWords values (filled ++ rest) (runs title) := by
  induction rest with
  | nil =>
    intro filled _ _ _
    rw [List.append_nil]
    rfl
  | cons name rest ih =>
    intro filled hdistinct hvalues hwords
    obtain ⟨value, hvalue⟩ := hvalues name List.mem_cons_self
    have hnew : name ∉ filled := fun hmem =>
      List.disjoint_of_nodup_append hdistinct hmem List.mem_cons_self
    have hfirst := hwords [] name rest rfl
    rw [List.append_nil] at hfirst
    have hassoc : filled ++ name :: rest = filled ++ [name] ++ rest := by
      rw [List.append_assoc, List.singleton_append]
    rw [hassoc] at hdistinct ⊢
    have hrest := ih (filled ++ [name]) hdistinct
      (fun other hother => hvalues other (List.mem_cons_of_mem _ hother))
      (fun before other after hsplit => by
        have hlater := hwords (name :: before) other after (by rw [hsplit, List.cons_append])
        rw [List.append_assoc, List.singleton_append]
        exact hlater)
    rw [← hrest, ← replaceSlot_fillWords hvalue hnew _ hfirst, replaceSlots, List.foldl_cons,
      hvalue, Option.getD_some]
    rfl

/-- The title that is sent has every word of a slot replaced by the value of that slot, if
`$name` is found nowhere but in the words `$name` when the slot's turn comes. -/
theorem substitutes_faithfully (J : JavaLang) {control : Bool} {json : JSONObject Double}
    {sentTitle : U16String} {sentJson : JSONObject Double} (hdistinct : (names J slots).Nodup)
    (hwords : ∀ filled name rest, names J slots = filled ++ name :: rest →
      OnlyWords values title filled name)
    (hsent : (onSlotFillingActivated J control title json slots slotTypes values).1 =
      .sent sentTitle sentJson) :
    sentTitle = substitute values (names J slots) title := by
  obtain ⟨hvalues, hsentTitle⟩ := sent_title hsent
  have hstart : fillWords values [] (runs title) = title := by
    rw [fillWords_nil, runs, List.flatten_splitBy]
  have hreplace := replaceSlots_fillWords (names J slots) [] hdistinct hvalues
    hwords
  rw [hstart] at hreplace
  rw [hsentTitle, hreplace]
  rfl

end

def noNumbers : JavaLang := ⟨fun _ => [], fun _ => none⟩

def stringSlots : JSONObject Double :=
  [(u16 "a", .string (u16 "String")), (u16 "ab", .string (u16 "String"))]

/-- The longer name first, with one slot left empty. -/
theorem substitutes_faithfully_two :
    ∃ sentTitle sentJson, (onSlotFillingActivated noNumbers true (u16 "$ab $a") []
        [.string (u16 "ab"), .string (u16 "a")] stringSlots
        (typedValues (u16 "$ab $a") fun name => if name = u16 "a" then [] else u16 "y")).1 =
          .sent sentTitle sentJson ∧
      sentTitle = u16 "y ____" ∧
      sentTitle = substitute
        (typedValues (u16 "$ab $a") fun name => if name = u16 "a" then [] else u16 "y")
        (names noNumbers [.string (u16 "ab"), .string (u16 "a")]) (u16 "$ab $a") := by
  obtain ⟨sentJson, hsent⟩ : ∃ sentJson, (onSlotFillingActivated noNumbers true (u16 "$ab $a") []
      [.string (u16 "ab"), .string (u16 "a")] stringSlots
      (typedValues (u16 "$ab $a") fun name => if name = u16 "a" then [] else u16 "y")).1 =
        .sent (u16 "y ____") sentJson := ⟨_, rfl⟩
  refine ⟨_, sentJson, hsent, rfl, substitutes_faithfully noNumbers (by decide) ?_ hsent⟩
  exact forall_append_cons_iff.mpr (by decide)

/-- The shorter name first, which is found in the longer one. -/
theorem prefix_replaced :
    ¬ ∀ (J : JavaLang) (control : Bool) (title : U16String) (json : JSONObject Double)
      (slots : JSONArray Double) (slotTypes : JSONObject Double) (typed : U16String → U16String)
      (sentTitle : U16String) (sentJson : JSONObject Double), (names J slots).Nodup →
      (onSlotFillingActivated J control title json slots slotTypes (typedValues title typed)).1 =
        .sent sentTitle sentJson →
      sentTitle = substitute (typedValues title typed) (names J slots) title := by
  intro h
  have hsent := h noNumbers true (u16 "$a $ab") [] [.string (u16 "a"), .string (u16 "ab")]
    stringSlots (fun name => if name = u16 "a" then u16 "x" else u16 "y") _ _ (by decide) rfl
  exact absurd hsent (by decide)

/-! ## Where `$name` begins elsewhere -/

theorem runs_uniform {t run : U16String} (hrun : run ∈ runs t) {c d : UInt16} (hc : c ∈ run)
    (hd : d ∈ run) : isSpace c = isSpace d := by
  let R := fun a b : UInt16 => isSpace a = isSpace b
  have hchain : run.IsChain R :=
    (List.isChain_of_mem_splitBy hrun).imp fun _ _ hab => beq_iff_eq.mp hab
  have htrans : IsTrans UInt16 R := ⟨fun _ _ _ => Eq.trans⟩
  have hsymm : Std.Symm R := ⟨fun _ _ => Eq.symm⟩
  have hall : ∀ a ∈ run, R a a := fun _ _ => rfl
  exact (List.isChain_iff_pairwise.mp hchain).forall_of_forall hall hc hd

theorem runs_alternate {t run next : U16String} {before after : List U16String}
    (h : runs t = before ++ run :: next :: after) :
    ∃ c ∈ run, ∃ d rest, next = d :: rest ∧ isSpace c ≠ isSpace d := by
  have hchain := List.isChain_getLast_head_splitBy (fun a b => isSpace a == isSpace b) t
  rw [← runs, h] at hchain
  obtain ⟨⟨hrun, hnext, hdiffer⟩, -⟩ := List.isChain_cons_cons.mp hchain.right_of_append
  refine ⟨_, List.getLast_mem hrun, next.head hnext, next.tail,
    (List.cons_head_tail hnext).symm, beq_eq_false_iff_ne.mp hdiffer⟩

theorem slotName_of_space {c : UInt16} (hc : isSpace c = true) (rest : U16String) :
    slotName (c :: rest) = none := by
  refine if_neg fun h => ?_
  rw [h.1] at hc
  exact absurd hc (by decide)

def occurrences (name : U16String) (words : List U16String) : Nat :=
  words.countP fun word => slotName word = some name

theorem occurrences_cons_self {name word : U16String} (h : slotName word = some name)
    (words : List U16String) : occurrences name (word :: words) = occurrences name words + 1 :=
  List.countP_cons_of_pos (decide_eq_true h)

theorem occurrences_cons_of_ne {name word : U16String} (h : slotName word ≠ some name)
    (words : List U16String) : occurrences name (word :: words) = occurrences name words :=
  List.countP_cons_of_neg fun hword => h (of_decide_eq_true hword)

theorem occurrences_append (name : U16String) (words more : List U16String) :
    occurrences name (words ++ more) = occurrences name words + occurrences name more :=
  List.countP_append

section

variable {values : U16String → Option U16String} {filled : List U16String} {name : U16String}

theorem fillWord_of_space {c : UInt16} (hc : isSpace c = true) (rest : U16String) :
    fillWord values filled (c :: rest) = c :: rest := by
  rw [fillWord, slotName_of_space hc]

theorem occurrences_le_count (hnew : name ∉ filled) (words : List U16String) (t : U16String) :
    occurrences name words + Replace.count (dollar :: name) t ≤
      Replace.count (dollar :: name) (fillWords values filled words ++ t) := by
  have hne : dollar :: name ≠ [] := List.cons_ne_nil _ _
  induction words with
  | nil => exact Nat.le_of_eq (Nat.zero_add _)
  | cons word words ih =>
    rw [fillWords_cons, List.append_assoc]
    by_cases hword : slotName word = some name
    · rw [occurrences_cons_self hword, fillWord_of_slotName hword,
        if_neg hnew, (slotName_eq_some hword).1, Replace.count_append_self hne]
      omega
    · rw [occurrences_cons_of_ne hword]
      exact Nat.le_trans ih (Replace.count_le_append hne _ _)

/-- A match that begins in a word and ends behind it has white space. -/
theorem exists_space_of_span {title word : U16String} {before after : List U16String}
    (hsplit : runs title = before ++ word :: after) {k : Nat}
    (hk : k < (fillWord values filled word).length)
    (hmatch : dollar :: name <+: (fillWord values filled word).drop k ++
      fillWords values filled after)
    (hspan : ((fillWord values filled word).drop k).length < (dollar :: name).length) :
    ∃ c ∈ dollar :: name, isSpace c = true := by
  obtain ⟨u, hu⟩ := List.prefix_of_prefix_length_le (List.prefix_append _ _) hmatch
    (Nat.le_of_lt hspan)
  rw [← hu, List.prefix_append_right_inj] at hmatch
  rw [← hu, List.length_append] at hspan
  have hune : u ≠ [] := List.length_pos_iff.mp (by omega)
  obtain ⟨c, u, rfl⟩ := List.exists_cons_of_ne_nil hune
  obtain ⟨more, hmore⟩ := hmatch
  cases after with
  | nil => cases hmore
  | cons next after =>
    obtain ⟨a, ha, d, rest, rfl, hdiffer⟩ := runs_alternate hsplit
    cases hspace : isSpace a with
    | false =>
      have hd : isSpace d = true := by
        rw [hspace] at hdiffer
        exact eq_true_of_ne_false hdiffer.symm
      rw [fillWords_cons, fillWord_of_space hd rest] at hmore
      refine ⟨d, ?_, hd⟩
      rw [← hu, ← (List.cons.inj hmore).1]
      exact List.mem_append_right _ List.mem_cons_self
    | true =>
      -- a match does not begin with white space
      have hword : word ∈ runs title := by
        rw [hsplit]
        exact List.mem_append_right _ List.mem_cons_self
      have hspaces : ∀ e ∈ word, isSpace e = true := fun e he =>
        (runs_uniform hword he ha).trans hspace
      obtain ⟨e, w, rfl⟩ := List.exists_cons_of_ne_nil (List.ne_nil_of_mem ha)
      rw [fillWord_of_space (hspaces e List.mem_cons_self)] at hu hk
      obtain ⟨f, x, hx⟩ := List.exists_cons_of_ne_nil
        (fun hnil => absurd (List.drop_eq_nil_iff.mp hnil) (Nat.not_le_of_lt hk) :
          (e :: w).drop k ≠ [])
      rw [hx] at hu
      have hf : f ∈ e :: w := List.mem_of_mem_drop (hx ▸ List.mem_cons_self)
      exact ⟨f, by rw [← hu]; exact List.mem_cons_self, hspaces f hf⟩

theorem occurrences_lt_count {title : U16String} (hnew : name ∉ filled)
    (hfails : ¬ OnlyWords values title filled name) :
    occurrences name (runs title) <
      Replace.count (dollar :: name) (fillWords values filled (runs title)) := by
  have hne : dollar :: name ≠ [] := List.cons_ne_nil _ _
  rw [OnlyWords] at hfails
  push Not at hfails
  obtain ⟨before, word, after, hsplit, hword, hbegins⟩ := hfails
  rw [Replace.BeginsNowhere] at hbegins
  push Not at hbegins
  obtain ⟨k, hk, hmatch⟩ := hbegins
  have htail : occurrences name after < Replace.count (dollar :: name)
      (fillWord values filled word ++ fillWords values filled after) := by
    refine Nat.lt_of_lt_of_le ?_ (Nat.le_trans (Replace.count_le_append hne
      ((fillWord values filled word).take k) _) (Nat.le_of_eq (by
        rw [← List.append_assoc, List.take_append_drop])))
    obtain ⟨more, hmore⟩ := hmatch
    rw [← hmore, Replace.count_append_self hne, Nat.lt_succ_iff]
    by_cases hspan : ((fillWord values filled word).drop k).length < (dollar :: name).length
    · obtain ⟨c, hc, hspace⟩ := exists_space_of_span hsplit hk ⟨more, hmore⟩ hspan
      have hnone : occurrences name after = 0 := by
        refine List.countP_eq_zero.mpr fun other hother hslot => ?_
        have hrun : dollar :: name ∈ runs title := by
          rw [← (slotName_eq_some (of_decide_eq_true hslot)).1, hsplit]
          exact List.mem_append_right _ (List.mem_cons_of_mem _ hother)
        have hdollar := runs_uniform hrun hc List.mem_cons_self
        rw [hspace] at hdollar
        exact absurd hdollar (by decide)
      rw [hnone]
      exact Nat.zero_le _
    · obtain ⟨u, hu⟩ := List.prefix_of_prefix_length_le ⟨more, hmore⟩ (List.prefix_append _ _)
        (Nat.le_of_not_lt hspan)
      rw [← hu, List.append_assoc, List.append_cancel_left_eq] at hmore
      rw [hmore]
      have hafter : occurrences name after + Replace.count (dollar :: name) [] ≤
          Replace.count (dollar :: name) (fillWords values filled after) := by
        rw [← List.append_nil (fillWords values filled after)]
        exact occurrences_le_count hnew after []
      exact Nat.le_trans (Nat.le_trans (Nat.le_add_right _ _) hafter)
        (Replace.count_le_append hne _ _)
  rw [hsplit, fillWords_append, fillWords_cons, occurrences_append,
    occurrences_cons_of_ne hword]
  exact Nat.lt_of_lt_of_le (Nat.add_lt_add_left htail _) (occurrences_le_count hnew before _)

theorem fillWord_congr {values' : U16String → Option U16String}
    (h : ∀ n ∈ filled, values' n = values n) :
    fillWord values' filled = fillWord values filled := by
  funext word
  cases hslot : slotName word with
  | none => rw [fillWord, fillWord, hslot]
  | some n =>
    rw [fillWord_of_slotName hslot, fillWord_of_slotName hslot]
    split
    · rename_i hmem
      rw [h n hmem]
    · rfl

theorem fillWords_congr {values' : U16String → Option U16String}
    (h : ∀ n ∈ filled, values' n = values n) :
    fillWords values' filled = fillWords values filled := by
  funext words
  rw [fillWords, fillWords, fillWord_congr h]

/-- The value of one slot is longer by one than its text, and those of the slots behind it are
as long as theirs. -/
structure Longer (values : U16String → Option U16String) (name : U16String)
    (rest : List U16String) : Prop where
  name : ∃ value, values name = some value ∧ (fill value).length = name.length + 2
  rest : ∀ n ∈ rest, ∃ value, values n = some value ∧ (fill value).length = n.length + 1

theorem length_fillWords {rest : List U16String} (h : Longer values name rest)
    (hdistinct : (filled ++ name :: rest).Nodup) (words : List U16String) :
    (fillWords values (filled ++ name :: rest) words).length =
      (fillWords values filled words).length + occurrences name words := by
  have hnew : ∀ n ∈ name :: rest, n ∉ filled := fun n hn hmem =>
    List.disjoint_of_nodup_append hdistinct hmem hn
  induction words with
  | nil => rfl
  | cons word words ih =>
    rw [fillWords_cons, fillWords_cons, List.length_append, List.length_append, ih]
    by_cases hword : slotName word = some name
    · obtain ⟨value, hvalue, hlength⟩ := h.name
      rw [occurrences_cons_self hword, fillWord_of_slotName hword, fillWord_of_slotName hword,
        if_pos (List.mem_append_right _ List.mem_cons_self), if_neg (hnew _ List.mem_cons_self),
        hvalue, Option.elim_some, hlength, (slotName_eq_some hword).1, List.length_cons]
      omega
    · rw [occurrences_cons_of_ne hword, ← Nat.add_assoc]
      congr 2
      cases hslot : slotName word with
      | none => rw [fillWord, fillWord, hslot]
      | some n =>
        rw [fillWord_of_slotName hslot, fillWord_of_slotName hslot]
        by_cases hfilled : n ∈ filled
        · rw [if_pos hfilled, if_pos (List.mem_append_left _ hfilled)]
        · rw [if_neg hfilled]
          split
          · rename_i hmem
            have hne : n ≠ name := fun heq => hword (by rw [hslot, heq])
            have hrest : n ∈ rest := by
              rcases List.mem_append.mp hmem with hmem | hmem
              · exact absurd hmem hfilled
              · exact (List.mem_cons.mp hmem).resolve_left hne
            obtain ⟨value, hvalue, hlength⟩ := h.rest n hrest
            rw [hvalue, Option.elim_some, hlength, (slotName_eq_some hslot).1, List.length_cons]
          · rfl

theorem length_replaceSlots {rest : List U16String}
    (h : ∀ n ∈ rest, ∃ value, values n = some value ∧ (fill value).length = n.length + 1) :
    ∀ title, (replaceSlots values rest title).length = title.length := by
  induction rest with
  | nil => exact fun _ => rfl
  | cons n rest ih =>
    intro title
    obtain ⟨value, hvalue, hlength⟩ := h n List.mem_cons_self
    have hreplaced := Replace.length_replace (List.cons_ne_nil dollar n) (v := fill value) title
    have hrest := ih (fun m hm => h m (List.mem_cons_of_mem _ hm))
      (replaceSlot title n value)
    rw [replaceSlots, List.foldl_cons, hvalue, Option.getD_some]
    rw [hlength, List.length_cons] at hreplaced
    exact hrest.trans (Nat.add_right_cancel hreplaced)

/-- Where a slot's text is found in another place, some values of this slot and of those behind
it are not what takes the place of the words. -/
theorem replaceSlots_ne {title : U16String} {rest : List U16String}
    (h : Longer values name rest) (hdistinct : (filled ++ name :: rest).Nodup)
    (hfilled : ∀ n ∈ filled, ∃ value, values n = some value)
    (hwords : ∀ before n after, filled = before ++ n :: after → OnlyWords values title before n)
    (hfails : ¬ OnlyWords values title filled name) :
    replaceSlots values (filled ++ name :: rest) title ≠
      substitute values (filled ++ name :: rest) title := by
  have hnew : name ∉ filled := fun hmem =>
    List.disjoint_of_nodup_append hdistinct hmem List.mem_cons_self
  have hbefore : replaceSlots values filled title = fillWords values filled (runs title) := by
    have hreplace := replaceSlots_fillWords filled [] hdistinct.of_append_left hfilled
      hwords
    rw [fillWords_nil, runs, List.flatten_splitBy] at hreplace
    exact hreplace
  obtain ⟨value, hvalue, hlength⟩ := h.name
  have hafter : replaceSlots values (filled ++ name :: rest) title = replaceSlots values rest
      (replaceSlot (fillWords values filled (runs title)) name value) := by
    rw [← hbefore, replaceSlots, List.foldl_append, List.foldl_cons, hvalue, Option.getD_some]
    rfl
  intro heq
  have hsent := congrArg List.length hafter
  rw [length_replaceSlots h.rest, heq, substitute, length_fillWords h hdistinct] at hsent
  have hreplaced := Replace.length_replace (List.cons_ne_nil dollar name) (v := fill value)
    (fillWords values filled (runs title))
  have hmore := occurrences_lt_count hnew hfails
  rw [replaceSlot] at hsent
  rw [hlength, List.length_cons, Nat.mul_add _ (name.length + 1) 1] at hreplaced
  omega

end

section

variable {J : JavaLang} {title : U16String} {slots : JSONArray Double}
  {slotTypes : JSONObject Double} {values : U16String → Option U16String}

theorem entity_string {slot : JsonTree Double} {value : U16String}
    (htype : slotTypes.opt (getString J.valueOf slot) = some (.string (u16 "String")))
    (hvalue : values (getString J.valueOf slot) = some value) :
    ∃ o, entity J slotTypes values slot = .ok o := by
  have harg : getArgValue J value (u16 "String") = some (.string value) := by
    have hstart : ¬ (u16 "Measure" <+: u16 "String" ∨ u16 "Currency" <+: u16 "String") := by decide
    rw [getArgValue, if_neg (by decide), if_neg (by decide), if_neg hstart]
  have hconvert : convert J slotTypes (getString J.valueOf slot) value = .ok (.string value) := by
    rw [convert, htype]
    dsimp only [getString]
    rw [harg]
    rfl
  rw [entity, hvalue]
  cases value with
  | nil => exact ⟨none, rfl⟩
  | cons c value =>
    dsimp only
    rw [hconvert]
    exact ⟨_, rfl⟩

/-- The condition on the text of a slot cannot be dropped: if it fails for a slot, and not for
those before it, then some values of this slot and of those behind it give another title. -/
theorem exists_unfaithful (J : JavaLang) (json : JSONObject Double)
    {typed : U16String → U16String} {filled rest : List U16String} {name : U16String}
    (hnames : names J slots = filled ++ name :: rest) (hdistinct : (names J slots).Nodup)
    (hslots : ∀ n ∈ names J slots, n ∈ slotNames title)
    (htypes : ∀ n ∈ names J slots, slotTypes.opt n = some (.string (u16 "String")))
    (hwords : ∀ before n after, filled = before ++ n :: after →
      OnlyWords (typedValues title typed) title before n)
    (hfails : ¬ OnlyWords (typedValues title typed) title filled name) :
    ∃ (typed' : U16String → U16String) (sentTitle : U16String) (sentJson : JSONObject Double),
      (∀ n ∈ filled, typed' n = typed n) ∧
      (onSlotFillingActivated J true title json slots slotTypes (typedValues title typed')).1 =
        .sent sentTitle sentJson ∧
      sentTitle ≠ substitute (typedValues title typed') (names J slots) title := by
  have hnew : ∀ n ∈ name :: rest, n ∉ filled := by
    rw [hnames] at hdistinct
    exact fun n hn hmem => List.disjoint_of_nodup_append hdistinct hmem hn
  have hne : ∀ n ∈ rest, n ≠ name := by
    rw [hnames] at hdistinct
    rintro n hn rfl
    exact (List.nodup_cons.mp hdistinct.of_append_right).1 hn
  obtain ⟨typed', htyped⟩ : ∃ typed' : U16String → U16String, ∀ n, typed' n =
      if n ∈ filled then typed n
      else List.replicate (if n = name then n.length + 2 else n.length + 1) dollar :=
    ⟨_, fun _ => rfl⟩
  have hvalue : ∀ n ∈ names J slots, typedValues title typed' n = some (typed' n) :=
    fun n hn => if_pos (hslots n hn)
  have hlonger : Longer (typedValues title typed') name rest := by
    refine ⟨⟨typed' name, hvalue _ ?_, ?_⟩, fun n hn => ⟨typed' n, hvalue _ ?_, ?_⟩⟩
    · rw [hnames]
      exact List.mem_append_right _ List.mem_cons_self
    · rw [htyped, if_neg (hnew name List.mem_cons_self), if_pos rfl, fill, if_neg (by simp),
        List.length_replicate]
    · rw [hnames]
      exact List.mem_append_right _ (List.mem_cons_of_mem _ hn)
    · rw [htyped, if_neg (hnew n (List.mem_cons_of_mem _ hn)), if_neg (hne n hn), fill,
        if_neg (by simp), List.length_replicate]
  have hnone : failure J slotTypes (typedValues title typed') slots = none := by
    refine failure_eq_none_iff.mpr fun slot hslot => ?_
    have hname : getString J.valueOf slot ∈ names J slots := List.mem_map_of_mem hslot
    exact entity_string (htypes _ hname) (hvalue _ hname)
  have hsent : ∃ sentTitle sentJson, (onSlotFillingActivated J true title json slots slotTypes
      (typedValues title typed')).1 = .sent sentTitle sentJson := by
    rw [onSlotFillingActivated_eq, hnone]
    exact ⟨_, _, rfl⟩
  obtain ⟨sentTitle, sentJson, hsent⟩ := hsent
  refine ⟨typed', sentTitle, sentJson, fun n hn => by rw [htyped, if_pos hn], hsent, ?_⟩
  rw [(sent_title hsent).2, hnames]
  have hagree : ∀ n ∈ filled, typedValues title typed' n = typedValues title typed n := by
    intro n hn
    rw [typedValues, typedValues, htyped, if_pos hn]
  have honly : ∀ before n, (∀ m ∈ before, m ∈ filled) →
      (OnlyWords (typedValues title typed') title before n ↔
        OnlyWords (typedValues title typed) title before n) := by
    intro before n hbefore
    have hcongr := fillWords_congr fun m hm => hagree m (hbefore m hm)
    have hcongrWord := fillWord_congr fun m hm => hagree m (hbefore m hm)
    rw [OnlyWords, OnlyWords, hcongr, hcongrWord]
  rw [hnames] at hdistinct hvalue
  refine replaceSlots_ne hlonger hdistinct
    (fun n hn => ⟨_, hvalue n (List.mem_append_left _ hn)⟩) (fun before n after hsplit => ?_) ?_
  · refine (honly before n fun m hm => ?_).mpr (hwords before n after hsplit)
    rw [hsplit]
    exact List.mem_append_left _ hm
  · rw [honly filled name fun m hm => hm]
    exact hfails

end

end SlotFilling

end AlmondAndroid.Ui
