import WardSweep.Redact.Document

/-!
# The passes over a document

Rewriting a document masks the identifiers in its objects and then rewrites each string on its own.
The names of the table have their turns one after the other on what the rules, and then the names
before them, have left of a string.
-/

namespace WardSweep.Redact

open Utf8 Str Json

/-! ## Masking -/

mutual

/-- A value with the identifiers in its objects masked. -/
def masked : Value → Value
  | .array items => .array (maskedItems items)
  | .object fields => .object (maskedFields (maskTargets fields) fields)
  | .string text => .string text
  | .null => .null
  | .bool value => .bool value
  | .number digits => .number digits

def maskedItems : List Value → List Value
  | [] => []
  | item :: items => masked item :: maskedItems items

def maskedFields (targets : List Text × Bool) : List (Text × Value) → List (Text × Value)
  | [] => []
  | (key, .string text) :: fields =>
    (key, .string ((maskField targets key text).getD text)) :: maskedFields targets fields
  | (key, field) :: fields => (key, masked field) :: maskedFields targets fields

end

/-- A string after the rules and the names, unless nothing in it is replaced. -/
def redactString (names : List (Text × Text)) (text : Text) : Text :=
  if (redactTextWith text names).2.isEmpty then text else (redactTextWith text names).1

theorem rewriteString_fst (names : List (Text × Text)) (text : Text) (mask : Option Text) :
    (rewriteString names text mask).1 = redactString names (mask.getD text) := by
  cases mask <;> rfl

theorem rewriteItems_fst {names : List (Text × Text)} {items : List Value}
    (h : ∀ item ∈ items, (rewrite names item).1 = (masked item).mapStrings (redactString names)) :
    (rewriteItems names items).1 =
      Value.mapStringsOfItems (redactString names) (maskedItems items) := by
  induction items with
  | nil => rfl
  | cons item items ih =>
    rw [rewriteItems, maskedItems, Value.mapStringsOfItems, h item List.mem_cons_self,
      ih fun other hother ↦ h other (List.mem_cons_of_mem item hother)]

theorem rewriteFields_fst {names : List (Text × Text)} {fields : List (Text × Value)}
    (h : ∀ field ∈ fields,
      (rewrite names field.2).1 = (masked field.2).mapStrings (redactString names))
    (targets : List Text × Bool) :
    (rewriteFields names targets fields).1 =
      Value.mapStringsOfFields (redactString names) (maskedFields targets fields) := by
  induction fields with
  | nil => rfl
  | cons field fields ih =>
    have hfield := h field List.mem_cons_self
    have hrest := ih fun other hother ↦ h other (List.mem_cons_of_mem field hother)
    obtain ⟨key, value⟩ := field
    cases value with
    | string text =>
      rw [rewriteFields, maskedFields, Value.mapStringsOfFields, hrest, rewriteString_fst]
      rfl
    | null => exact congrArg₂ List.cons (Prod.ext rfl hfield) hrest
    | bool value => exact congrArg₂ List.cons (Prod.ext rfl hfield) hrest
    | number digits => exact congrArg₂ List.cons (Prod.ext rfl hfield) hrest
    | array items => exact congrArg₂ List.cons (Prod.ext rfl hfield) hrest
    | object inner => exact congrArg₂ List.cons (Prod.ext rfl hfield) hrest

/-- Rewriting masks the identifiers and then rewrites every string on its own. -/
theorem rewrite_fst (names : List (Text × Text)) (value : Value) :
    (rewrite names value).1 = (masked value).mapStrings (redactString names) := by
  induction value using Value.induct with
  | null => rfl
  | bool value => rfl
  | number digits => rfl
  | string text => rfl
  | array items ih => exact congrArg Value.array (rewriteItems_fst ih)
  | object fields ih => exact congrArg Value.object (rewriteFields_fst ih (maskTargets fields))

theorem strings_rewrite (names : List (Text × Text)) (value : Value) :
    (rewrite names value).1.strings = (masked value).strings.map (redactString names) := by
  rw [rewrite_fst, Value.strings_mapStrings]

end WardSweep.Redact
