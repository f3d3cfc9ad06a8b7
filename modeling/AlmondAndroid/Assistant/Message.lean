import AlmondAndroid.Bridge.OrgJson

/-!
# Messages of the assistant

`AssistantMessage` and its subclasses. A Java string may be null, and a slot filling
message carries the two members of its JSON that its constructor has found.
-/

namespace AlmondAndroid.Assistant

open Library Bridge

abbrev JavaString := Option U16String

inductive Direction
  | fromSabrina
  | fromUser
  deriving DecidableEq

inductive MessageType
  | text
  | picture
  | rdl
  | choice
  | link
  | button
  | askSpecial
  | slotFilling
  deriving DecidableEq

/-- Sabrina prompts the user to click something instead of typing. -/
def MessageType.isInteraction : MessageType → Bool
  | choice | button | askSpecial | slotFilling => true
  | text | picture | rdl | link => false

inductive AskSpecialType
  | yesNo
  | location
  | picture
  | phoneNumber
  | emailAddress
  | number
  | date
  | time
  | generic
  | password
  | rawString
  | choice
  | null
  | unknown
  deriving DecidableEq

namespace AskSpecialType

def isChooser : AskSpecialType → Bool
  | number | date | time | password | rawString | choice | generic | null | unknown => false
  | yesNo | location | picture | phoneNumber | emailAddress => true

def names : List (U16String × AskSpecialType) :=
  [(u16 "YESNO", yesNo), (u16 "LOCATION", location), (u16 "PICTURE", picture),
    (u16 "PHONE_NUMBER", phoneNumber), (u16 "EMAIL_ADDRESS", emailAddress),
    (u16 "NUMBER", number), (u16 "DATE", date), (u16 "TIME", time), (u16 "GENERIC", generic),
    (u16 "PASSWORD", password), (u16 "RAW_STRING", rawString), (u16 "CHOICE", choice),
    (u16 "NULL", null), (u16 "UNKNOWN", unknown)]

/-- `none` is an `IllegalArgumentException`. -/
def valueOf (name : U16String) : Option AskSpecialType :=
  (names.find? fun entry => entry.1 = name).map Prod.snd

end AskSpecialType

structure AskSpecial where
  direction : Direction
  what : AskSpecialType
  deriving DecidableEq

structure Button where
  direction : Direction
  title : JavaString
  json : JSONObject Double

/-- Both members are those of the JSON. -/
structure SlotFilling where
  direction : Direction
  title : JavaString
  json : JSONObject Double
  slots : JSONArray Double
  slotTypes : JSONObject Double
  slots_eq : json.getJSONArray (u16 "slots") = some slots
  slotTypes_eq : json.getJSONObject (u16 "slotTypes") = some slotTypes

/-- The constructor; `none` is a `JSONException`. -/
def SlotFilling.new (direction : Direction) (title : JavaString) (json : JSONObject Double) :
    Option SlotFilling :=
  match hslots : json.getJSONArray (u16 "slots") with
  | none => none
  | some slots =>
      match hslotTypes : json.getJSONObject (u16 "slotTypes") with
      | none => none
      | some slotTypes => some ⟨direction, title, json, slots, slotTypes, hslots, hslotTypes⟩

section SlotFilling

variable {direction : Direction} {title : JavaString} {json : JSONObject Double}

theorem SlotFilling.new_of_some {slots : JSONArray Double} {slotTypes : JSONObject Double}
    (hslots : json.getJSONArray (u16 "slots") = some slots)
    (hslotTypes : json.getJSONObject (u16 "slotTypes") = some slotTypes) :
    SlotFilling.new direction title json =
      some ⟨direction, title, json, slots, slotTypes, hslots, hslotTypes⟩ := by
  rw [SlotFilling.new]
  split
  · rename_i hnone
    rw [hslots] at hnone
    cases hnone
  · rename_i hsome
    cases hslots.symm.trans hsome
    split
    · rename_i hnone
      rw [hslotTypes] at hnone
      cases hnone
    · rename_i hsome
      cases hslotTypes.symm.trans hsome
      rfl

theorem SlotFilling.new_of_slots_none (hslots : json.getJSONArray (u16 "slots") = none) :
    SlotFilling.new direction title json = none := by
  rw [SlotFilling.new]
  split
  · rfl
  · rename_i hsome
    rw [hslots] at hsome
    cases hsome

theorem SlotFilling.new_of_slotTypes_none
    (hslotTypes : json.getJSONObject (u16 "slotTypes") = none) :
    SlotFilling.new direction title json = none := by
  rw [SlotFilling.new]
  split
  · rfl
  · split
    · rfl
    · rename_i hsome
      rw [hslotTypes] at hsome
      cases hsome

end SlotFilling

inductive AssistantMessage
  | text (direction : Direction) (icon : JavaString) (msg : JavaString)
  | picture (direction : Direction) (icon : JavaString) (url : JavaString)
  | rdl (direction : Direction) (icon : JavaString) (rdl : JSONObject Double)
  | choice (direction : Direction) (idx : Int32) (title : JavaString) (text : JavaString)
  | link (direction : Direction) (title : JavaString) (url : JavaString)
  | button (button : Button)
  | askSpecial (askSpecial : AskSpecial)
  | slotFilling (slotFilling : SlotFilling)

namespace AssistantMessage

def direction : AssistantMessage → Direction
  | text direction _ _ => direction
  | picture direction _ _ => direction
  | rdl direction _ _ => direction
  | choice direction _ _ _ => direction
  | link direction _ _ => direction
  | button b => b.direction
  | askSpecial a => a.direction
  | slotFilling s => s.direction

def type : AssistantMessage → MessageType
  | text _ _ _ => .text
  | picture _ _ _ => .picture
  | rdl _ _ _ => .rdl
  | choice _ _ _ _ => .choice
  | link _ _ _ => .link
  | button _ => .button
  | askSpecial _ => .askSpecial
  | slotFilling _ => .slotFilling

def isInteraction (msg : AssistantMessage) : Bool := msg.type.isInteraction

def shouldNotify : AssistantMessage → Bool
  | askSpecial a => a.what.isChooser
  | _ => true

def isFiltered : AssistantMessage → Bool
  | askSpecial a => !a.what.isChooser
  | _ => false

end AssistantMessage

end AlmondAndroid.Assistant
