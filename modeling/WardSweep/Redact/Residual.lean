import WardSweep.Redact.Document
import WardSweep.Redact.Encoding

/-!
# What the residual reports

The residual is the last thing that is looked at before a document is published.  A name occurs in a
text in any ASCII case, as text or as bytes of the value the text spells in hex.  Every name that is
learned or long enough to be applied is searched for in every string and key of the redacted
document under some spelling, and is listed when it occurs.
-/

namespace WardSweep.Redact

open Utf8 Str Json

/-! ## Occurrences -/

/-- A name occurs in a text, in any ASCII case: in the text itself, or as UTF-8 or UTF-16LE at any
offset of the bytes it spells in hex. -/
def OccursIn (name text : Text) : Prop :=
  toAsciiLowercase name <:+: toAsciiLowercase text ∨
    ∃ bytes, decodeHex (splitBinary text).2 = some bytes ∧
      ∃ wide spelling, toAsciiLowercase spelling = toAsciiLowercase name ∧
        encode spelling wide <:+: bytes

/-- A name occurs in a string value or in an object key of a document. -/
def Occurs (name : Text) (value : Value) : Prop :=
  ∃ text ∈ value.strings ++ value.keys, OccursIn name text

/-- A drive-rooted profile path of a document teaches a name. -/
def IsTaught (value : Value) (name : Text) : Prop :=
  ∃ text ∈ value.strings, profileName text = some name

/-- A caller supplied a name, and it is long enough to be applied. -/
def IsSupplied (extra : Extra) (name : Text) : Prop :=
  minNameLen ≤ byteLen name ∧
    ∃ supplied ∈ extra.accounts ++ extra.computers ++ extra.identifiers, trim supplied = name

/-! ## Finding a name -/

theorem findIgnoringCase_eq_nil_iff {name : Text} (hname : name ≠ []) (text : Text) :
    findIgnoringCase text name = [] ↔ ¬ toAsciiLowercase name <:+: toAsciiLowercase text := by
  have hlower : toAsciiLowercase name ≠ [] := by
    rw [toAsciiLowercase, ne_eq, List.map_eq_nil_iff]
    exact hname
  have hempty : name.isEmpty = false := List.isEmpty_eq_false_iff.mpr hname
  simp only [findIgnoringCase, hempty, Bool.false_or, decide_eq_true_eq]
  split
  · next hlong =>
    rw [eq_self, true_iff]
    intro hinner
    have hle := byteLen_le_of_infix hinner
    rw [byteLen_toAsciiLowercase, byteLen_toAsciiLowercase] at hle
    omega
  · exact matchIndices_eq_nil_iff hlower _

/-- An unbounded search misses a pattern only where it is not. -/
theorem encodedFrom_eq_nil_iff {accepts : ℕ → Bool} (haccepts : ∀ offset, accepts offset = true)
    {pattern : List UInt8} (hpattern : pattern ≠ []) (offset : ℕ) (bytes : List UInt8) :
    encodedFrom accepts pattern offset 0 bytes = [] ↔
      ¬ pattern.map lowerByte <:+: bytes.map lowerByte := by
  have hlower : pattern.map lowerByte ≠ [] := by
    rw [ne_eq, List.map_eq_nil_iff]
    exact hpattern
  induction bytes generalizing offset with
  | nil => simp [encodedFrom, hlower]
  | cons byte rest ih =>
    rw [encodedFrom, haccepts, Bool.and_true]
    by_cases hbegin : pattern.map lowerByte <+: (byte :: rest).map lowerByte
    · rw [if_pos (List.isPrefixOf_iff_prefix.mpr hbegin)]
      exact iff_of_false (List.cons_ne_nil _ _) (not_not.mpr hbegin.isInfix)
    · rw [if_neg (fun h ↦ hbegin (List.isPrefixOf_iff_prefix.mp h)), List.map_cons,
        List.infix_cons_iff, not_or, ← List.map_cons, and_iff_right hbegin]
      exact ih (offset + 1)

theorem findEncoded_eq_nil_iff {name : Text} (hname : name ≠ []) (bytes : List UInt8)
    (wide : Bool) :
    findEncoded bytes name wide false = [] ↔
      ¬ (encode name wide).map lowerByte <:+: bytes.map lowerByte := by
  have hencode : encode name wide ≠ [] := (encode_eq_nil_iff name wide).not.mpr hname
  have hempty : (encode name wide).isEmpty = false := List.isEmpty_eq_false_iff.mpr hencode
  simp only [findEncoded, hempty, Bool.false_or, decide_eq_true_eq]
  split
  · next hlong =>
    rw [eq_self, true_iff]
    intro hinner
    have hle := hinner.length_le
    rw [List.length_map, List.length_map] at hle
    omega
  · exact encodedFrom_eq_nil_iff (fun _ ↦ rfl) hencode 0 bytes

/-- Nothing is recorded for a name that does not occur, up to the case of bytes that are no
letters of the name. -/
theorem recordOccurrences_eq_nil_iff {name : Text} (hname : name ≠ []) (text : Text) :
    recordOccurrences text name = [] ↔
      ¬ toAsciiLowercase name <:+: toAsciiLowercase text ∧
        ∀ bytes, decodeHex (splitBinary text).2 = some bytes → ∀ wide,
          ¬ (encode name wide).map lowerByte <:+: bytes.map lowerByte := by
  rw [recordOccurrences, List.append_eq_nil_iff, List.map_eq_nil_iff,
    findIgnoringCase_eq_nil_iff hname]
  refine and_congr_right fun _ ↦ ?_
  cases decodeHex (splitBinary text).2 with
  | none => simp
  | some bytes =>
    simp only [List.flatMap_eq_nil_iff, List.map_eq_nil_iff, findEncoded_eq_nil_iff hname,
      Option.some.injEq, forall_eq']
    simp

/-- A name that occurs in a text is recorded there under every spelling. -/
theorem recordOccurrences_ne_nil {name spelling text : Text} (hname : spelling ≠ [])
    (hspelling : toAsciiLowercase spelling = toAsciiLowercase name) (h : OccursIn name text) :
    recordOccurrences text spelling ≠ [] := by
  rw [ne_eq, recordOccurrences_eq_nil_iff hname, hspelling]
  rintro ⟨htext, hbytes⟩
  cases h with
  | inl hinner => exact htext hinner
  | inr hencoded =>
    obtain ⟨bytes, hdecode, wide, other, hother, hinner⟩ := hencoded
    apply hbytes bytes hdecode wide
    rw [map_lowerByte_encode_congr (hspelling.trans hother.symm)]
    exact hinner.map lowerByte

/-- An ASCII name that is recorded in a text occurs there. -/
theorem occursIn_of_recordOccurrences {name text : Text} (hname : name ≠ [])
    (hascii : ∀ c ∈ name, c.toNat < 128) (h : recordOccurrences text name ≠ []) :
    OccursIn name text := by
  rw [ne_eq, recordOccurrences_eq_nil_iff hname, not_and_or, not_not] at h
  refine h.imp_right fun hbytes ↦ ?_
  push Not at hbytes
  obtain ⟨bytes, hdecode, wide, before, after, hinner⟩ := hbytes
  obtain ⟨front, after', rfl, hfront, -⟩ := List.map_eq_append_iff.mp hinner.symm
  obtain ⟨before', found, rfl, -, hfound⟩ := List.map_eq_append_iff.mp hfront
  obtain ⟨spelling, hspelling, rfl⟩ := exists_spelling hascii hfound
  exact ⟨_, hdecode, wide, spelling, hspelling, before', after', rfl⟩

/-! ## The audit -/

theorem auditItems_eq_nil_iff (name : Text) {items : List Value}
    (h : ∀ item ∈ items, audit name item = [] ↔
      ∀ text ∈ item.strings ++ item.keys, recordOccurrences text name = []) :
    auditItems name items = [] ↔
      ∀ text ∈ Value.stringsOfItems items ++ Value.keysOfItems items,
        recordOccurrences text name = [] := by
  induction items with
  | nil => simp [auditItems, Value.stringsOfItems, Value.keysOfItems]
  | cons item items ih =>
    rw [auditItems, List.append_eq_nil_iff, h item List.mem_cons_self,
      ih fun other hother ↦ h other (List.mem_cons_of_mem item hother), Value.stringsOfItems,
      Value.keysOfItems]
    simp only [List.forall_mem_append]
    tauto

theorem auditFields_eq_nil_iff (name : Text) {fields : List (Text × Value)}
    (h : ∀ field ∈ fields, audit name field.2 = [] ↔
      ∀ text ∈ field.2.strings ++ field.2.keys, recordOccurrences text name = []) :
    auditFields name fields = [] ↔
      ∀ text ∈ Value.stringsOfFields fields ++ Value.keysOfFields fields,
        recordOccurrences text name = [] := by
  induction fields with
  | nil => simp [auditFields, Value.stringsOfFields, Value.keysOfFields]
  | cons field fields ih =>
    rw [auditFields, List.append_eq_nil_iff, List.append_eq_nil_iff, h field List.mem_cons_self,
      ih fun other hother ↦ h other (List.mem_cons_of_mem field hother), Value.stringsOfFields,
      Value.keysOfFields]
    simp only [List.forall_mem_append, List.forall_mem_cons]
    tauto

/-- The audit of a name finds nothing exactly when nothing is recorded in any string or key. -/
theorem audit_eq_nil_iff (name : Text) (value : Value) :
    audit name value = [] ↔
      ∀ text ∈ value.strings ++ value.keys, recordOccurrences text name = [] := by
  induction value using Value.induct with
  | null => simp [audit, Value.strings, Value.keys]
  | bool value => simp [audit, Value.strings, Value.keys]
  | number digits => simp [audit, Value.strings, Value.keys]
  | string text => simp [audit, Value.strings, Value.keys]
  | array items ih => exact auditItems_eq_nil_iff name ih
  | object fields ih => exact auditFields_eq_nil_iff name ih

theorem mem_residuals_iff {value : Value} {names : List Text} {name : Text}
    {residual : Residual} :
    (name, residual) ∈ residuals value names ↔
      name ∈ names ∧ residual = residualOf value name ∧ audit name value ≠ [] := by
  simp only [residuals, List.mem_filterMap, Ordered.mem_sortedKeys, Option.ite_none_right_eq_some,
    Option.some.injEq, Prod.mk.injEq, residualOf, List.length_pos_iff]
  constructor
  · rintro ⟨other, hmem, haudit, rfl, hresidual⟩
    exact ⟨hmem, hresidual.symm, haudit⟩
  · rintro ⟨hmem, hresidual, haudit⟩
    exact ⟨name, hmem, haudit, rfl, hresidual.symm⟩

/-! ## The table of names -/

/-- A name that is known stays known. -/
theorem mem_supply_of_mem {supplied into skipped : List Text} {name : Text} (h : name ∈ into) :
    name ∈ (supply supplied into skipped).1 := by
  induction supplied generalizing into skipped with
  | nil => exact h
  | cons first rest ih =>
    rw [supply]
    split
    · exact ih h
    · split
      · exact ih h
      · split
        · exact ih h
        · exact ih (List.mem_append_left _ h)

/-- A supplied name that is long enough is known afterwards, in some letter case. -/
theorem exists_mem_supply {supplied into skipped : List Text} {text : Text} (h : text ∈ supplied)
    (hlong : minNameLen ≤ byteLen (trim text)) :
    ∃ known ∈ (supply supplied into skipped).1,
      toAsciiLowercase known = toAsciiLowercase (trim text) := by
  induction supplied generalizing into skipped with
  | nil => exact absurd h List.not_mem_nil
  | cons first rest ih =>
    rw [supply]
    cases h with
    | tail _ h =>
      split
      · exact ih h
      · split
        · exact ih h
        · split
          · exact ih h
          · exact ih h
    | head =>
      have hne : (trim text).isEmpty = false := by
        cases htrim : trim text with
        | nil =>
          rw [htrim] at hlong
          exact absurd hlong (by decide)
        | cons c rest => rfl
      rw [if_neg (by rw [hne]; exact Bool.false_ne_true), if_neg (Nat.not_lt.mpr hlong)]
      split
      · next hknown =>
        obtain ⟨known, hmem, hsame⟩ := List.any_eq_true.mp hknown
        exact ⟨known, mem_supply_of_mem hmem, eqIgnoreAsciiCase_eq_true_iff.mp hsame⟩
      · exact ⟨trim text, mem_supply_of_mem (List.mem_append_right _ List.mem_cons_self), rfl⟩

/-- What is known after a supply was known before, or is a supplied name that is long enough. -/
theorem mem_supply {supplied into skipped : List Text} {name : Text}
    (h : name ∈ (supply supplied into skipped).1) :
    name ∈ into ∨ minNameLen ≤ byteLen name ∧ ∃ text ∈ supplied, trim text = name := by
  induction supplied generalizing into skipped with
  | nil => exact .inl h
  | cons first rest ih =>
    have hrest {into skipped : List Text} (h : name ∈ (supply rest into skipped).1) :
        name ∈ into ∨ minNameLen ≤ byteLen name ∧ ∃ text ∈ first :: rest, trim text = name :=
      (ih h).imp_right fun ⟨hlong, text, htext, hname⟩ ↦
        ⟨hlong, text, List.mem_cons_of_mem first htext, hname⟩
    rw [supply] at h
    split at h
    · exact hrest h
    · split at h
      · exact hrest h
      · next hlong =>
        split at h
        · exact hrest h
        · obtain hmem | hnew := hrest h
          · rcases List.mem_append.mp hmem with hmem | hmem
            · exact .inl hmem
            · obtain rfl := List.mem_singleton.mp hmem
              exact .inr ⟨Nat.not_lt.mp hlong, first, List.mem_cons_self, rfl⟩
          · exact .inr hnew

theorem mem_discoverNames_iff {value : Value} {name : Text} :
    name ∈ discoverNames value ↔ IsTaught value name := by
  rw [discoverNames, Ordered.mem_sortedKeys, List.mem_filterMap]
  rfl

theorem map_fst_table (names : Names) :
    names.table.map Prod.fst = names.accounts ++ names.computers ++ names.identifiers := by
  simp [Names.table, Function.comp_def]

/-- Every name that is learned or applied is replaced and searched for under some spelling. -/
theorem exists_mem_table {value : Value} {extra : Extra} {name : Text}
    (h : IsTaught value name ∨ IsSupplied extra name) :
    ∃ spelling ∈ (gatherNames value extra).table.map Prod.fst,
      toAsciiLowercase spelling = toAsciiLowercase name := by
  rw [map_fst_table]
  cases h with
  | inl htaught =>
    have hmem := mem_discoverNames_iff.mpr htaught
    exact ⟨name, List.mem_append_left _ (List.mem_append_left _ (mem_supply_of_mem hmem)), rfl⟩
  | inr hsupplied =>
    obtain ⟨hlong, supplied, hmem, rfl⟩ := hsupplied
    rcases List.mem_append.mp hmem with hmem | hmem
    · rcases List.mem_append.mp hmem with hmem | hmem
      · obtain ⟨known, hknown, hsame⟩ := exists_mem_supply hmem hlong
        exact ⟨known, List.mem_append_left _ (List.mem_append_left _ hknown), hsame⟩
      · obtain ⟨known, hknown, hsame⟩ := exists_mem_supply hmem hlong
        exact ⟨known, List.mem_append_left _ (List.mem_append_right _ hknown), hsame⟩
    · obtain ⟨known, hknown, hsame⟩ := exists_mem_supply hmem hlong
      exact ⟨known, List.mem_append_right _ hknown, hsame⟩

/-- A name of the table was learned or supplied. -/
theorem isTaught_or_isSupplied_of_mem_table {value : Value} {extra : Extra} {name : Text}
    (h : name ∈ (gatherNames value extra).table.map Prod.fst) :
    IsTaught value name ∨ IsSupplied extra name := by
  have hsupplied : ∀ {supplied : List Text},
      supplied ⊆ extra.accounts ++ extra.computers ++ extra.identifiers →
        (minNameLen ≤ byteLen name ∧ ∃ text ∈ supplied, trim text = name) →
          IsSupplied extra name := by
    rintro supplied hsub ⟨hlong, text, htext, htrim⟩
    exact ⟨hlong, text, hsub htext, htrim⟩
  rw [map_fst_table] at h
  rcases List.mem_append.mp h with h | hidentifier
  · rcases List.mem_append.mp h with haccount | hcomputer
    · rcases mem_supply haccount with htaught | hname
      · exact .inl (mem_discoverNames_iff.mp htaught)
      · exact .inr (hsupplied (fun _ hmem ↦ by simp [hmem]) hname)
    · rcases mem_supply hcomputer with hnil | hname
      · exact absurd hnil List.not_mem_nil
      · exact .inr (hsupplied (fun _ hmem ↦ by simp [hmem]) hname)
  · rcases mem_supply hidentifier with hnil | hname
    · exact absurd hnil List.not_mem_nil
    · exact .inr (hsupplied (fun _ hmem ↦ by simp [hmem]) hname)

theorem ne_nil_of_profileName {text name : Text} (h : profileName text = some name) :
    name ≠ [] := by
  rintro rfl
  unfold profileName at h
  split at h
  · split at h
    · simp only [Option.ite_none_left_eq_some] at h
      obtain ⟨hcond, hname⟩ := h
      rw [Option.some.inj hname] at hcond
      simp at hcond
    · cases h
  · cases h

/-- No name of the table is empty. -/
theorem ne_nil_of_mem_table {value : Value} {extra : Extra} {name : Text}
    (h : name ∈ (gatherNames value extra).table.map Prod.fst) : name ≠ [] := by
  have hlong {text : Text} (hlong : minNameLen ≤ byteLen text) : text ≠ [] := by
    rintro rfl
    exact absurd hlong (by decide)
  rw [map_fst_table] at h
  rcases List.mem_append.mp h with h | h
  · rcases List.mem_append.mp h with h | h
    · rcases mem_supply h with hmem | hnew
      · obtain ⟨text, -, hname⟩ := mem_discoverNames_iff.mp hmem
        exact ne_nil_of_profileName hname
      · exact hlong hnew.1
    · rcases mem_supply h with hmem | hnew
      · exact absurd hmem List.not_mem_nil
      · exact hlong hnew.1
  · rcases mem_supply h with hmem | hnew
    · exact absurd hmem List.not_mem_nil
    · exact hlong hnew.1

/-! ## The residual -/

/-- Each name that the document teaches and each supplied name that is long enough occurs nowhere in
the redacted document or is listed under some spelling, and an ASCII name that occurs nowhere is not
listed. -/
theorem residual_reports_what_is_left (value : Value) (extra : Extra) :
    (∀ name, IsTaught value name ∨ IsSupplied extra name →
      ¬ Occurs name (redactDocument value extra).1 ∨
        ∃ spelling residual, (spelling, residual) ∈ (redactDocument value extra).2.residual ∧
          eqIgnoreAsciiCase spelling name = true) ∧
      ∀ name, (∀ c ∈ name, c.toNat < 128) → ¬ Occurs name (redactDocument value extra).1 →
        ∀ residual, (name, residual) ∉ (redactDocument value extra).2.residual := by
  constructor
  · intro name hname
    obtain ⟨spelling, hmem, hsame⟩ := exists_mem_table hname
    by_cases hoccurs : Occurs name (redactDocument value extra).1
    · right
      obtain ⟨text, htext, hin⟩ := hoccurs
      refine ⟨spelling, _, mem_residuals_iff.mpr ⟨hmem, rfl, ?_⟩,
        eqIgnoreAsciiCase_eq_true_iff.mpr hsame⟩
      rw [ne_eq, audit_eq_nil_iff]
      intro hnothing
      exact recordOccurrences_ne_nil (ne_nil_of_mem_table hmem) hsame hin (hnothing text htext)
    · exact .inl hoccurs
  · intro name hascii hnowhere residual hlisted
    obtain ⟨hmem, -, haudit⟩ := mem_residuals_iff.mp hlisted
    rw [ne_eq, audit_eq_nil_iff] at haudit
    push Not at haudit
    obtain ⟨text, htext, hrecorded⟩ := haudit
    exact hnowhere ⟨text, htext,
      occursIn_of_recordOccurrences (ne_nil_of_mem_table hmem) hascii hrecorded⟩

/-- A document that teaches a name and holds it once more, glued to other characters. -/
def gluedDocument : Value :=
  .object [("files".toList, .array
    [.object [("path".toList, .string r"C:\Users\Anon\x".toList)],
      .object [("path".toList, .string r"D:\ANONb7\y".toList)]])]

def noExtra : Extra := ⟨[], [], []⟩

/-- The name is left beside the other characters, and is listed. -/
theorem gluedDocument_lists_its_name :
    ∃ spelling residual,
      (spelling, residual) ∈ (redactDocument gluedDocument noExtra).2.residual ∧
        eqIgnoreAsciiCase spelling "Anon".toList = true := by
  have htaught : IsTaught gluedDocument "Anon".toList :=
    ⟨r"C:\Users\Anon\x".toList, by decide +kernel, by decide +kernel⟩
  have hoccurs : Occurs "Anon".toList (redactDocument gluedDocument noExtra).1 :=
    ⟨r"D:\ANONb7\y".toList, by decide +kernel, .inl (by decide +kernel)⟩
  have hreport := (residual_reports_what_is_left gluedDocument noExtra).1 _ (.inl htaught)
  exact hreport.resolve_left (not_not.mpr hoccurs)

end WardSweep.Redact
