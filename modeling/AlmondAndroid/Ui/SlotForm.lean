import AlmondAndroid.Ui.SlotFilling
import Mathlib.Algebra.Ring.Nat

/-!
# The form of a slot filling message

`bind` adds a child for every word of the title, a field in the place of a slot, and behind the
field of a measure another child for its unit. It counts the children, and remembers where it
has added the last field that can be edited.
-/

namespace AlmondAndroid.Ui

open Library Bridge

inductive InputType
  | number
  | phone
  | webEmailAddress
  | uri
  | autoCorrect
  deriving DecidableEq

/-- A child of the layout. An input type is `none` as long as it is not set. -/
inductive SlotView
  | editText (inputType : Option InputType) (focusable : Bool)
  | spinner (options : List U16String)
  | textView (text : U16String)
  deriving DecidableEq

def SlotView.isFocusableEditText : SlotView → Bool
  | .editText _ focusable => focusable
  | .spinner _ => false
  | .textView _ => false

namespace SlotForm

/-- `String.split("\\s+")`: the white space in front leaves an empty word. -/
def split (t : U16String) : List U16String :=
  let words := (SlotFilling.runs t).filter fun run => run.all fun c => !SlotFilling.isSpace c
  if t = [] then [[]]
  else if words ≠ [] ∧ t.head?.all SlotFilling.isSpace then [] :: words
  else words

/-- `String.substring`; `none` is a `StringIndexOutOfBoundsException`. -/
def substring (s : U16String) (beginIndex endIndex : Nat) : Option U16String :=
  if beginIndex ≤ endIndex ∧ endIndex ≤ s.length then some ((s.take endIndex).drop beginIndex)
  else none

/-- `String.split(",")`: a text without a comma is left as it is, and empty parts at the end are
dropped. -/
def splitComma (s : U16String) : List U16String :=
  let parts := s.splitOn 0x2c
  if parts.length = 1 then parts else parts.rdropWhile (· = [])

def enumSpinner (type : U16String) : Option SlotView :=
  (substring type 5 (type.length - 1)).map fun options => .spinner (splitComma options)

/-- Nothing can be typed for the types before the last cases. -/
def slotByType (type : U16String) : Option SlotView :=
  if type = u16 "Number" then some (.editText (some .number) true)
  else if type = u16 "Entity(tt:phone_number)" then some (.editText (some .phone) true)
  else if type = u16 "Entity(tt:email_address)" then some (.editText (some .webEmailAddress) true)
  else if type = u16 "Entity(tt:url)" then some (.editText (some .uri) true)
  else if type = u16 "Boolean" then enumSpinner (u16 "Enum(on,off)")
  else if type ∈ [u16 "Location", u16 "Date", u16 "Time", u16 "Entity(tt:picture)",
    u16 "UNKNOWN"] then some (.editText none false)
  else if u16 "Enum" <+: type then enumSpinner type
  else if u16 "Measure" <+: type ∨ u16 "Currency" <+: type then
    some (.editText (some .number) true)
  else some (.editText (some .autoCorrect) true)

def btnStyleText (word : U16String) : SlotView := .textView (word ++ [0x20])

def optString (J : JavaLang) (o : JSONObject Double) (name fallback : U16String) : U16String :=
  (o.opt name).elim fallback (getString J.valueOf)

structure Binding where
  idx : Nat
  lastEditable : Int
  slots : U16String → Option SlotView
  children : List SlotView

namespace Binding

def initial : Binding := ⟨0, -1, fun _ => none, []⟩

def addView (s : Binding) (view : SlotView) : Binding :=
  { s with children := s.children ++ [view] }

def count (s : Binding) : Binding := { s with idx := s.idx + 1 }

def remember (s : Binding) (slot : SlotView) : Binding :=
  if slot.isFocusableEditText then { s with lastEditable := s.idx } else s

def putSlot (s : Binding) (slotName : U16String) (slot : SlotView) : Binding :=
  { s with slots := Function.update s.slots slotName (some slot) }

end Binding

def bindSlot (J : JavaLang) (slotTypes : JSONObject Double) (s : Binding)
    (slotName : U16String) : Option Binding :=
  let slotType := optString J slotTypes slotName (u16 "UNKNOWN")
  (slotByType slotType).bind fun slot =>
    let s := ((s.remember slot).putSlot slotName slot).addView slot
    if u16 "Measure" <+: slotType then
      (substring slotType (u16 "Measure(").length (slotType.length - 1)).map fun unit =>
        (s.addView (btnStyleText unit)).count.count
    else some s.count

def bindWord (J : JavaLang) (slotTypes : JSONObject Double) (s : Binding) (word : U16String) :
    Option Binding :=
  match SlotFilling.slotName word with
  | some slotName => bindSlot J slotTypes s slotName
  | none => some (s.addView (btnStyleText word)).count

/-- The loop over these words; `none` is an exception. -/
def bindWords (J : JavaLang) (slotTypes : JSONObject Double) (words : List U16String) :
    Option Binding :=
  words.foldlM (bindWord J slotTypes) .initial

/-- The cast of `(EditText) slotFilling.getChildAt(lastEditable)`. -/
def castLastEditable (s : Binding) : Bool :=
  match s.children[s.lastEditable.toNat]? with
  | some (.editText _ _) => true
  | _ => false

/-- Measures have a unit and enumerations have values, in parentheses. -/
def WellFormed (type : U16String) : Prop :=
  (u16 "Measure" <+: type → ∃ unit, type = u16 "Measure(" ++ unit ++ u16 ")") ∧
    (u16 "Enum" <+: type → ∃ values, type = u16 "Enum(" ++ values ++ u16 ")")

/-- No field that can be edited is behind the remembered one, which can be edited, and there is
none at all if none is remembered. -/
def LastEditable (s : Binding) : Prop :=
  (s.lastEditable = -1 ∧ ∀ child ∈ s.children, child.isFocusableEditText = false) ∨
    ∃ i inputType, s.lastEditable = Int.ofNat i ∧
      s.children[i]? = some (.editText inputType true) ∧
      ∀ j child, i < j → s.children[j]? = some child → child.isFocusableEditText = false

/-- The counter is that of the children, and the remembered field is the last one. -/
structure Aligned (s : Binding) : Prop where
  idx : s.idx = s.children.length
  lastEditable : LastEditable s

/-! ## Fields -/

theorem substring_between (front middle back : U16String) (hback : back.length = 1) :
    substring (front ++ middle ++ back) front.length ((front ++ middle ++ back).length - 1) =
      some middle := by
  have hlength : (front ++ middle ++ back).length - 1 = (front ++ middle).length := by
    rw [List.length_append, hback, Nat.add_sub_cancel]
  have hbegin : front.length ≤ (front ++ middle).length := (List.prefix_append _ _).length_le
  have hend : (front ++ middle).length ≤ (front ++ middle ++ back).length :=
    (List.prefix_append _ _).length_le
  rw [substring, hlength, if_pos ⟨hbegin, hend⟩, List.take_left, List.drop_left]

theorem enumSpinner_isSome {type : U16String} (h : WellFormed type) (henum : u16 "Enum" <+: type) :
    (enumSpinner type).isSome := by
  obtain ⟨values, rfl⟩ := h.2 henum
  have hsubstring := substring_between (u16 "Enum(") values (u16 ")") rfl
  change substring _ 5 _ = some values at hsubstring
  rw [enumSpinner, hsubstring]
  rfl

theorem exists_slotByType {type : U16String} (h : WellFormed type) :
    ∃ slot, slotByType type = some slot := by
  rw [← Option.isSome_iff_exists, slotByType]
  split
  · rfl
  · split
    · rfl
    · split
      · rfl
      · split
        · rfl
        · split
          · decide
          · split
            · rfl
            · split
              · rename_i henum
                exact enumSpinner_isSome h henum
              · split
                · rfl
                · rfl

theorem exists_unit {type : U16String} (h : WellFormed type) (hmeasure : u16 "Measure" <+: type) :
    ∃ unit, substring type (u16 "Measure(").length (type.length - 1) = some unit := by
  obtain ⟨unit, rfl⟩ := h.1 hmeasure
  exact ⟨unit, substring_between (u16 "Measure(") unit (u16 ")") rfl⟩

theorem wellFormed_optString {J : JavaLang} {slotTypes : JSONObject Double}
    (h : ∀ name value, slotTypes.opt name = some value → WellFormed (getString J.valueOf value))
    (name : U16String) : WellFormed (optString J slotTypes name (u16 "UNKNOWN")) := by
  rw [optString]
  cases hvalue : slotTypes.opt name with
  | none =>
    have hmeasure : ¬u16 "Measure" <+: u16 "UNKNOWN" := by decide
    have henum : ¬u16 "Enum" <+: u16 "UNKNOWN" := by decide
    exact ⟨fun hprefix => absurd hprefix hmeasure, fun hprefix => absurd hprefix henum⟩
  | some value => exact h name value hvalue

/-! ## One word -/

section

variable {s : Binding}

theorem LastEditable.addView {view : SlotView} (h : LastEditable s)
    (hview : view.isFocusableEditText = false) : LastEditable (s.addView view) := by
  rcases h with ⟨hlast, hnone⟩ | ⟨i, inputType, hlast, hget, hbehind⟩
  · refine .inl ⟨hlast, fun child hchild => ?_⟩
    rcases List.mem_append.mp hchild with hchild | hchild
    · exact hnone child hchild
    · cases List.mem_singleton.mp hchild
      exact hview
  · have hlt : i < s.children.length := (List.getElem?_eq_some_iff.mp hget).1
    refine .inr ⟨i, inputType, hlast, (List.getElem?_append_left hlt).trans hget, ?_⟩
    intro j child hj hchild
    rcases Nat.lt_or_ge j s.children.length with hlt | hge
    · exact hbehind j child hj ((List.getElem?_append_left hlt).symm.trans hchild)
    · have hmem := List.mem_of_getElem? ((List.getElem?_append_right hge).symm.trans hchild)
      cases List.mem_singleton.mp hmem
      exact hview

theorem LastEditable.remember {view : SlotView} (h : Aligned s) :
    LastEditable ((s.remember view).addView view) := by
  rw [Binding.remember]
  cases hview : view.isFocusableEditText with
  | false => exact h.lastEditable.addView hview
  | true =>
    obtain ⟨inputType, rfl⟩ : ∃ inputType, view = .editText inputType true := by
      cases view with
      | editText inputType focusable =>
        exact ⟨inputType, congrArg (SlotView.editText inputType) hview⟩
      | spinner options => cases hview
      | textView text => cases hview
    refine .inr ⟨s.children.length, inputType, congrArg Int.ofNat h.idx, ?_, ?_⟩
    · exact List.getElem?_concat_length ..
    · intro j child hj hchild
      have hlt := (List.getElem?_eq_some_iff.mp hchild).1
      change j < (s.children ++ [SlotView.editText inputType true]).length at hlt
      rw [List.length_append, List.length_singleton] at hlt
      omega

theorem Aligned.text (h : Aligned s) (word : U16String) :
    Aligned (s.addView (btnStyleText word)).count where
  idx := by
    change s.idx + 1 = (s.children ++ [btnStyleText word]).length
    rw [List.length_append, List.length_singleton, h.idx]
  lastEditable := h.lastEditable.addView rfl

@[simp] theorem remember_idx (s : Binding) (slot : SlotView) : (s.remember slot).idx = s.idx := by
  rw [Binding.remember]
  split <;> rfl

@[simp] theorem remember_children (s : Binding) (slot : SlotView) :
    (s.remember slot).children = s.children := by
  rw [Binding.remember]
  split <;> rfl

theorem Aligned.slot (h : Aligned s) (slotName : U16String) (slot : SlotView) :
    Aligned (((s.remember slot).putSlot slotName slot).addView slot).count where
  idx := by
    change (s.remember slot).idx + 1 = ((s.remember slot).children ++ [slot]).length
    rw [List.length_append, List.length_singleton, remember_idx, remember_children, h.idx]
  lastEditable := LastEditable.remember h

end

section

variable {J : JavaLang} {slotTypes : JSONObject Double}
  (htypes : ∀ name value, slotTypes.opt name = some value →
    WellFormed (getString J.valueOf value))
include htypes

theorem Aligned.bindWord {s : Binding} (h : Aligned s) (word : U16String) :
    ∃ t, bindWord J slotTypes s word = some t ∧ Aligned t := by
  rw [SlotForm.bindWord]
  cases SlotFilling.slotName word with
  | none => exact ⟨_, rfl, h.text word⟩
  | some slotName =>
    have hwellFormed := wellFormed_optString htypes slotName
    obtain ⟨slot, hslot⟩ := exists_slotByType hwellFormed
    have hfield := h.slot slotName slot
    dsimp only
    rw [bindSlot, hslot]
    dsimp only [Option.bind_some]
    split
    · rename_i hmeasure
      obtain ⟨unit, hunit⟩ := exists_unit hwellFormed hmeasure
      rw [hunit]
      exact ⟨_, rfl, hfield.text unit⟩
    · exact ⟨_, rfl, hfield⟩

theorem bindWords_aligned (words : List U16String) :
    ∃ s, bindWords J slotTypes words = some s ∧ Aligned s := by
  induction words using List.reverseRecOn with
  | nil => exact ⟨.initial, rfl, rfl, .inl ⟨rfl, List.forall_mem_nil _⟩⟩
  | append_singleton words word ih =>
    obtain ⟨s, hs, haligned⟩ := ih
    obtain ⟨t, ht, hnext⟩ := haligned.bindWord htypes word
    refine ⟨t, ?_, hnext⟩
    rw [bindWords] at hs ⊢
    rw [List.foldlM_append, hs]
    exact (bind_pure _).trans ht

end

/-- At the head of every iteration the counter is the number of children, and after the loop
the last field that can be edited is the remembered one, so that the cast is valid. -/
theorem bind_aligned (J : JavaLang) (slotTypes : JSONObject Double)
    (htypes : ∀ name value, slotTypes.opt name = some value →
      WellFormed (getString J.valueOf value)) (title : U16String) :
    (∀ before word after, split title = before ++ word :: after →
      ∃ s, bindWords J slotTypes before = some s ∧ s.idx = s.children.length) ∧
    ∃ s, bindWords J slotTypes (split title) = some s ∧ LastEditable s ∧
      (s.lastEditable ≠ -1 → castLastEditable s = true) := by
  constructor
  · intro before word after _
    obtain ⟨s, hs, haligned⟩ := bindWords_aligned htypes before
    exact ⟨s, hs, haligned.idx⟩
  · obtain ⟨s, hs, haligned⟩ := bindWords_aligned htypes (split title)
    refine ⟨s, hs, haligned.lastEditable, fun hne => ?_⟩
    rcases haligned.lastEditable with ⟨hlast, -⟩ | ⟨i, inputType, hlast, hget, -⟩
    · exact absurd hlast hne
    · have hchild : s.children[s.lastEditable.toNat]? = some (.editText inputType true) := by
        rw [hlast]
        exact hget
      rw [castLastEditable, hchild]

def lampTypes : JSONObject Double :=
  [(u16 "t", .string (u16 "Measure(C)")), (u16 "mode", .string (u16 "Enum(on,off)"))]

theorem wellFormed_lampTypes (J : JavaLang) (name : U16String) (value : JsonTree Double)
    (h : lampTypes.opt name = some value) : WellFormed (getString J.valueOf value) := by
  obtain ⟨member, hfind, rfl⟩ := Option.map_eq_some_iff.mp h
  have hmember := List.mem_reverse.mp (List.mem_of_find?_eq_some hfind)
  rcases List.mem_cons.mp hmember with rfl | hmember
  · have henum : ¬u16 "Enum" <+: u16 "Measure(C)" := by decide
    exact ⟨fun _ => ⟨u16 "C", rfl⟩, fun h => absurd h henum⟩
  · cases List.mem_singleton.mp hmember
    have hmeasure : ¬u16 "Measure" <+: u16 "Enum(on,off)" := by decide
    exact ⟨fun h => absurd h hmeasure, fun _ => ⟨u16 "on,off", rfl⟩⟩

def lampLang : JavaLang where
  valueOf _ := []
  doubleValueOf _ := none

theorem bind_aligned_lampTypes :
    (∀ name value, lampTypes.opt name = some value →
      WellFormed (getString lampLang.valueOf value)) ∧
    ∃ s, bindWords lampLang lampTypes (split (u16 "set $t as $mode")) = some s ∧
      LastEditable s ∧ (s.lastEditable ≠ -1 → castLastEditable s = true) :=
  ⟨wellFormed_lampTypes lampLang,
    (bind_aligned lampLang lampTypes (wellFormed_lampTypes lampLang) _).2⟩

/-! ## The range of the counter -/

theorem length_children_bindWord {J : JavaLang} {slotTypes : JSONObject Double} {s t : Binding}
    {word : U16String} (h : bindWord J slotTypes s word = some t) :
    t.children.length ≤ s.children.length + max 1 word.length := by
  rw [bindWord] at h
  split at h
  · rename_i slotName hname
    have hword : 2 ≤ word.length := by
      cases word with
      | nil => cases hname
      | cons c name =>
        rw [SlotFilling.slotName] at hname
        split at hname
        · rename_i hslot
          exact Nat.succ_le_succ (List.length_pos_iff.mpr hslot.2)
        · cases hname
    obtain ⟨slot, -, h⟩ := Option.bind_eq_some_iff.mp h
    split at h
    · obtain ⟨unit, -, rfl⟩ := Option.map_eq_some_iff.mp h
      change (((s.remember slot).children ++ [slot]) ++ [btnStyleText unit]).length ≤ _
      rw [List.length_append, List.length_append, remember_children, List.length_singleton,
        List.length_singleton]
      omega
    · cases h
      change ((s.remember slot).children ++ [slot]).length ≤ _
      rw [List.length_append, remember_children, List.length_singleton]
      omega
  · cases h
    change (s.children ++ [btnStyleText word]).length ≤ _
    rw [List.length_append, List.length_singleton]
    omega

theorem length_children_bindWords {J : JavaLang} {slotTypes : JSONObject Double}
    (words : List U16String) : ∀ s, bindWords J slotTypes words = some s →
      s.children.length ≤ (words.map fun word => max 1 word.length).sum := by
  induction words using List.reverseRecOn with
  | nil =>
    intro s h
    cases h
    exact Nat.le_refl 0
  | append_singleton words word ih =>
    intro t h
    rw [bindWords, List.foldlM_append] at h
    obtain ⟨s, hs, hword⟩ := Option.bind_eq_some_iff.mp h
    have hbefore := ih s hs
    have hadded := length_children_bindWord ((bind_pure _).symm.trans hword)
    rw [List.map_append, List.sum_append, List.map_singleton, List.sum_singleton]
    omega

theorem sum_words_le (t : U16String) :
    (((SlotFilling.runs t).filter fun run => run.all fun c => !SlotFilling.isSpace c).map
      fun word => max 1 word.length).sum ≤ t.countP fun c => !SlotFilling.isSpace c := by
  generalize hwords : ((SlotFilling.runs t).filter fun run => run.all fun c =>
    !SlotFilling.isSpace c) = words
  have hmem : ∀ word ∈ words, word ≠ [] ∧ ∀ c ∈ word, (!SlotFilling.isSpace c) = true := by
    intro word hword
    rw [← hwords, List.mem_filter] at hword
    exact ⟨List.ne_nil_of_mem_splitBy hword.1, List.all_eq_true.mp hword.2⟩
  have hsum : (words.map fun word => max 1 word.length).sum = words.flatten.length := by
    rw [List.length_flatten]
    congr 1
    refine List.map_congr_left fun word hword => ?_
    exact Nat.max_eq_right (List.length_pos_iff.mpr (hmem word hword).1)
  have hspace : words.flatten.countP (fun c => !SlotFilling.isSpace c) = words.flatten.length := by
    rw [List.countP_eq_length]
    intro c hc
    obtain ⟨word, hword, hcword⟩ := List.mem_flatten.mp hc
    exact (hmem word hword).2 c hcword
  have hsublist : words.flatten.Sublist t := by
    have hflatten := (List.filter_sublist (p := fun run : U16String =>
      run.all fun c => !SlotFilling.isSpace c) (l := SlotFilling.runs t)).flatten
    rw [hwords, SlotFilling.runs, List.flatten_splitBy] at hflatten
    exact hflatten
  rw [hsum, ← hspace]
  exact hsublist.countP_le

/-- There are no more children than characters of the title, and an `int` can count them. -/
theorem length_children_le {J : JavaLang} {slotTypes : JSONObject Double} {title : U16String}
    {s : Binding} (h : bindWords J slotTypes (split title) = some s) :
    s.children.length ≤ max 1 title.length := by
  refine (length_children_bindWords _ s h).trans ?_
  have hwords := sum_words_le title
  have hcount : (title.countP fun c => !SlotFilling.isSpace c) ≤ title.length :=
    List.countP_le_length
  rw [split]
  split
  · exact Nat.le_max_left _ _
  · split
    · rename_i hne hspace
      obtain ⟨c, rest, rfl⟩ := List.exists_cons_of_ne_nil hne
      have hc : (!SlotFilling.isSpace c) ≠ true := by
        rw [show SlotFilling.isSpace c = true from hspace.2]
        exact Bool.false_ne_true
      have hhead : ((c :: rest).countP fun c => !SlotFilling.isSpace c) =
          rest.countP fun c => !SlotFilling.isSpace c := List.countP_cons_of_neg hc
      have hrest : (rest.countP fun c => !SlotFilling.isSpace c) ≤ rest.length :=
        List.countP_le_length
      rw [List.map_cons, List.sum_cons, List.length_cons]
      change max 1 0 + _ ≤ _
      omega
    · omega

end SlotForm

end AlmondAndroid.Ui
