import AlmondAndroid.Library.Json
import AlmondAndroid.Library.Table
import AlmondAndroid.Bridge.Values

/-!
# JSON objects in Java

What the Java code calls of `org.json`, on trees. An exception is `none`, and
`String.valueOf` of data other than a string is a parameter.
-/

namespace AlmondAndroid.Bridge

open Library

universe u

variable {Num : Type u}

abbrev JSONArray (Num : Type u) := List (JsonTree Num)

/-- The pairs in the order in which they were put. -/
abbrev JSONObject (Num : Type u) := List (U16String × JsonTree Num)

/-- `JSONArray.getString` and `JSONObject.getString` of a value that is there. -/
def getString (valueOf : JsonTree Num → U16String) : JsonTree Num → U16String
  | .string s => s
  | x => valueOf x

namespace JSONObject

def opt (o : JSONObject Num) (name : U16String) : Option (JsonTree Num) :=
  Table.lastWrite o name

def has (o : JSONObject Num) (name : U16String) : Bool :=
  (o.opt name).isSome

def getJSONArray (o : JSONObject Num) (name : U16String) : Option (JSONArray Num) :=
  match o.opt name with
  | some (.array elements) => some elements
  | _ => none

def getJSONObject (o : JSONObject Num) (name : U16String) : Option (JSONObject Num) :=
  match o.opt name with
  | some (.object members) => some members
  | _ => none

/-- Null where `getJSONObject` throws. -/
def optJSONObject (o : JSONObject Num) (name : U16String) : Option (JSONObject Num) :=
  o.getJSONObject name

/-- Putting null for a string removes the name. -/
def putString (o : JSONObject Num) (name : U16String) : Option U16String → JSONObject Num
  | some s => o ++ [(name, .string s)]
  | none => o.filter fun member => member.1 ≠ name

def put (o : JSONObject Num) (name : U16String) (value : JsonTree Num) : JSONObject Num :=
  o ++ [(name, value)]

theorem opt_put (o : JSONObject Num) (name key : U16String) (value : JsonTree Num) :
    (o.put name value).opt key = if name = key then some value else o.opt key :=
  Table.lastWrite_append_singleton o (name, value) key

theorem opt_putString (o : JSONObject Num) (name key : U16String) (s : Option U16String) :
    (o.putString name s).opt key = if name = key then s.map .string else o.opt key := by
  cases s with
  | some s => exact Table.lastWrite_append_singleton o (name, .string s) key
  | none =>
    change Table.lastWrite (o.filter fun member => member.1 ≠ name) key = _
    rw [Table.lastWrite_filter fun key => decide (key ≠ name)]
    by_cases hkey : name = key
    · have hremoved : ¬ decide (key ≠ name) = true := fun h => of_decide_eq_true h hkey.symm
      rw [if_pos hkey, if_neg hremoved, Option.map_none]
    · have hkept : decide (key ≠ name) = true := decide_eq_true fun h => hkey h.symm
      rw [if_neg hkey, if_pos hkept, opt]

end JSONObject

end AlmondAndroid.Bridge
