import WardSweep.Rust.Utf8

/-!
# JSON values

A JSON value as a parser gives it: an object is the list of its fields in the order they were
written.  What is said about a value is said about the strings in it and about what is left when
every string is taken out.
-/

namespace WardSweep.Json

open Utf8

/-- A JSON value.  A number is the text it was written as. -/
inductive Value where
  | null
  | bool (value : Bool)
  | number (digits : Text)
  | string (text : Text)
  | array (items : List Value)
  | object (fields : List (Text × Value))

namespace Value

/-- What holds of every item of an array and of every field of an object holds of the array and of
the object. -/
@[elab_as_elim]
theorem induct {motive : Value → Prop} (null : motive .null) (bool : ∀ value, motive (.bool value))
    (number : ∀ digits, motive (.number digits)) (string : ∀ text, motive (.string text))
    (array : ∀ items, (∀ item ∈ items, motive item) → motive (.array items))
    (object : ∀ fields, (∀ field ∈ fields, motive field.2) → motive (.object fields))
    (value : Value) : motive value := by
  apply @Value.rec motive (fun items ↦ ∀ item ∈ items, motive item)
    (fun fields ↦ ∀ field ∈ fields, motive field.2) (fun field ↦ motive field.2)
    null bool number string array object
  · exact fun item hitem ↦ absurd hitem List.not_mem_nil
  · intro first rest hfirst hrest item hitem
    cases hitem with
    | head => exact hfirst
    | tail _ hitem => exact hrest item hitem
  · exact fun field hfield ↦ absurd hfield List.not_mem_nil
  · intro first rest hfirst hrest field hfield
    cases hfield with
    | head => exact hfirst
    | tail _ hfield => exact hrest field hfield
  · exact fun _ _ hvalue ↦ hvalue

/-! ## The strings of a value -/

mutual

/-- The string values, in the order they were written.  The keys of objects are not among them. -/
def strings : Value → List Text
  | .string text => [text]
  | .array items => stringsOfItems items
  | .object fields => stringsOfFields fields
  | .null | .bool _ | .number _ => []

def stringsOfItems : List Value → List Text
  | [] => []
  | item :: items => item.strings ++ stringsOfItems items

def stringsOfFields : List (Text × Value) → List Text
  | [] => []
  | (_, field) :: fields => field.strings ++ stringsOfFields fields

end

mutual

/-- The keys of the objects in a value. -/
def keys : Value → List Text
  | .array items => keysOfItems items
  | .object fields => keysOfFields fields
  | .string _ | .null | .bool _ | .number _ => []

def keysOfItems : List Value → List Text
  | [] => []
  | item :: items => item.keys ++ keysOfItems items

def keysOfFields : List (Text × Value) → List Text
  | [] => []
  | (key, field) :: fields => key :: field.keys ++ keysOfFields fields

end

mutual

/-- The fields of each object in a value. -/
def objects : Value → List (List (Text × Value))
  | .array items => objectsOfItems items
  | .object fields => fields :: objectsOfFields fields
  | .string _ | .null | .bool _ | .number _ => []

def objectsOfItems : List Value → List (List (Text × Value))
  | [] => []
  | item :: items => item.objects ++ objectsOfItems items

def objectsOfFields : List (Text × Value) → List (List (Text × Value))
  | [] => []
  | (_, field) :: fields => field.objects ++ objectsOfFields fields

end

mutual

/-- A value with every string left blank. -/
def shape : Value → Value
  | .string _ => .string []
  | .array items => .array (shapeOfItems items)
  | .object fields => .object (shapeOfFields fields)
  | .null => .null
  | .bool value => .bool value
  | .number digits => .number digits

def shapeOfItems : List Value → List Value
  | [] => []
  | item :: items => item.shape :: shapeOfItems items

def shapeOfFields : List (Text × Value) → List (Text × Value)
  | [] => []
  | (key, field) :: fields => (key, field.shape) :: shapeOfFields fields

end

mutual

/-- A value with every string changed. -/
def mapStrings (change : Text → Text) : Value → Value
  | .string text => .string (change text)
  | .array items => .array (mapStringsOfItems change items)
  | .object fields => .object (mapStringsOfFields change fields)
  | .null => .null
  | .bool value => .bool value
  | .number digits => .number digits

def mapStringsOfItems (change : Text → Text) : List Value → List Value
  | [] => []
  | item :: items => item.mapStrings change :: mapStringsOfItems change items

def mapStringsOfFields (change : Text → Text) : List (Text × Value) → List (Text × Value)
  | [] => []
  | (key, field) :: fields => (key, field.mapStrings change) :: mapStringsOfFields change fields

end

/-- `Value::as_str`. -/
def asStr : Value → Option Text
  | .string text => some text
  | _ => none

/-- `Map::get`: the field under a key. -/
def field (fields : List (Text × Value)) (key : Text) : Option Value :=
  (fields.find? fun entry ↦ entry.1 == key).map Prod.snd

/-! ## Changing every string -/

section MapStrings

variable (change : Text → Text)

theorem mapStringsOfItems_eq_map (items : List Value) :
    mapStringsOfItems change items = items.map (mapStrings change) := by
  induction items with
  | nil => rfl
  | cons item items ih => rw [mapStringsOfItems, ih, List.map_cons]

theorem mapStringsOfFields_eq_map (fields : List (Text × Value)) :
    mapStringsOfFields change fields = fields.map fun field ↦
      (field.1, field.2.mapStrings change) := by
  induction fields with
  | nil => rfl
  | cons field fields ih => rw [mapStringsOfFields, ih, List.map_cons]

theorem stringsOfItems_eq_flatMap (items : List Value) :
    stringsOfItems items = items.flatMap strings := by
  induction items with
  | nil => rfl
  | cons item items ih => rw [stringsOfItems, ih, List.flatMap_cons]

theorem stringsOfFields_eq_flatMap (fields : List (Text × Value)) :
    stringsOfFields fields = fields.flatMap fun field ↦ field.2.strings := by
  induction fields with
  | nil => rfl
  | cons field fields ih => rw [stringsOfFields, ih, List.flatMap_cons]

theorem shapeOfItems_eq_map (items : List Value) : shapeOfItems items = items.map shape := by
  induction items with
  | nil => rfl
  | cons item items ih => rw [shapeOfItems, ih, List.map_cons]

theorem shapeOfFields_eq_map (fields : List (Text × Value)) :
    shapeOfFields fields = fields.map fun field ↦ (field.1, field.2.shape) := by
  induction fields with
  | nil => rfl
  | cons field fields ih => rw [shapeOfFields, ih, List.map_cons]

/-- The strings are changed one by one. -/
theorem strings_mapStrings (value : Value) :
    (value.mapStrings change).strings = value.strings.map change := by
  induction value using induct with
  | null => rfl
  | bool value => rfl
  | number digits => rfl
  | string text => rfl
  | array items ih =>
    rw [mapStrings, strings, strings, mapStringsOfItems_eq_map, stringsOfItems_eq_flatMap,
      stringsOfItems_eq_flatMap, List.flatMap_map, List.map_flatMap]
    exact List.flatMap_congr ih
  | object fields ih =>
    rw [mapStrings, strings, strings, mapStringsOfFields_eq_map, stringsOfFields_eq_flatMap,
      stringsOfFields_eq_flatMap, List.flatMap_map, List.map_flatMap]
    exact List.flatMap_congr ih

/-- Nothing but the strings is changed. -/
theorem shape_mapStrings (value : Value) : (value.mapStrings change).shape = value.shape := by
  induction value using induct with
  | null => rfl
  | bool value => rfl
  | number digits => rfl
  | string text => rfl
  | array items ih =>
    rw [mapStrings, shape, shape, mapStringsOfItems_eq_map, shapeOfItems_eq_map,
      shapeOfItems_eq_map,
      List.map_map]
    exact congrArg Value.array (List.map_congr_left ih)
  | object fields ih =>
    rw [mapStrings, shape, shape, mapStringsOfFields_eq_map, shapeOfFields_eq_map,
      shapeOfFields_eq_map, List.map_map]
    exact congrArg Value.object
      (List.map_congr_left fun field hfield ↦ Prod.ext rfl (ih field hfield))

end MapStrings

end Value

end WardSweep.Json
