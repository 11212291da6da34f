import WardSweep.Rust.Str

/-!
# Path templates

A catalog path may hold `%VAR%` placeholders.  A template expands to one path for each way of
choosing values for them; a variable without values leaves no path at all.
-/

namespace WardSweep.Expand

open Utf8 Str

/-- The variables a catalog may use. -/
def knownVariables : List Text :=
  ["ProgramFiles", "ProgramFiles(x86)", "ProgramData", "LOCALAPPDATA", "APPDATA", "USERPROFILE",
    "SystemRoot", "PUBLIC", "STEAM_LIBRARY", "EPIC_LIBRARY"].map String.toList

/-- Why a template could not be expanded. -/
inductive ExpandError where
  /-- A `%NAME%` the schema does not define. -/
  | unknownVariable (name : Text)
  /-- A lone `%` with no closing delimiter. -/
  | unterminatedVariable
  deriving DecidableEq, Repr

/-- The text of an error. -/
def ExpandError.message : ExpandError → Text
  | .unknownVariable name => "unknown path variable `%".toList ++ name ++ "%`".toList
  | .unterminatedVariable => "unterminated `%` in path template".toList

/-- The loop over the placeholders of a template, on the pieces between its `%`s: a literal, and
then the name of a variable and what follows it as often as there are two more. -/
def expandPieces (values : Text → Option (List Text)) (results : List Text) :
    List Text → Except ExpandError (List Text)
  | [] => .ok results
  | [rest] => .ok (results.map (· ++ rest))
  | [_, _] => .error .unterminatedVariable
  | literal :: name :: rest :: more =>
    if knownVariables.any fun known ↦ eqIgnoreAsciiCase known name then
      expandPieces values
        (results.flatMap fun before ↦
          ((values name).getD []).map fun value ↦ before ++ literal ++ value)
        (rest :: more)
    else .error (.unknownVariable name)

/-- Expand a template with the values a caller supplies. -/
def expandWith (template : Text) (values : Text → Option (List Text)) :
    Except ExpandError (List Text) :=
  expandPieces values [[]] (template.splitOn '%')

/-- Representative values of each variable, by its upper-case name. -/
def candidates : List (Text × List Text) :=
  [("PROGRAMFILES", [r"C:\Program Files"]),
    ("PROGRAMFILES(X86)", [r"C:\Program Files (x86)"]),
    ("PROGRAMDATA", [r"C:\ProgramData"]),
    ("LOCALAPPDATA", [r"C:\Users\ExampleUser\AppData\Local"]),
    ("APPDATA", [r"C:\Users\ExampleUser\AppData\Roaming"]),
    ("USERPROFILE", [r"C:\Users\ExampleUser"]),
    ("SYSTEMROOT", [r"C:\Windows"]),
    ("PUBLIC", [r"C:\Users\Public"]),
    ("STEAM_LIBRARY", [r"C:\Program Files (x86)\Steam", r"D:\SteamLibrary"]),
    ("EPIC_LIBRARY", [r"C:\Program Files\Epic Games", r"D:\Epic Games"])].map fun entry ↦
      (entry.1.toList, entry.2.map String.toList)

/-- The representative values of a variable: `candidates_for`. -/
def candidatesFor (name : Text) : Option (List Text) :=
  (candidates.find? fun entry ↦ entry.1 == toAsciiUppercase name).map Prod.snd

/-- Expand a template into every path it could denote. -/
def expandForValidation (template : Text) : Except ExpandError (List Text) :=
  expandWith template candidatesFor

/-- A template without a placeholder expands to itself. -/
theorem expandWith_of_not_mem {template : Text} (h : '%' ∉ template)
    (values : Text → Option (List Text)) : expandWith template values = .ok [template] := by
  rw [expandWith, List.splitOn_eq_singleton h]
  rfl

/-- Each expansion goes on after one of the texts that were there before. -/
theorem exists_prefix_of_expandPieces {values : Text → Option (List Text)}
    {results pieces expansions : List Text}
    (h : expandPieces values results pieces = .ok expansions)
    {expansion : Text} (hmem : expansion ∈ expansions) :
    ∃ before ∈ results, before <+: expansion := by
  fun_induction expandPieces values results pieces with
  | case1 =>
    obtain rfl := Except.ok.inj h
    exact ⟨expansion, hmem, List.prefix_rfl⟩
  | case2 results rest =>
    obtain rfl := Except.ok.inj h
    obtain ⟨before, hbefore, rfl⟩ := List.mem_map.mp hmem
    exact ⟨before, hbefore, List.prefix_append _ _⟩
  | case3 => cases h
  | case4 results literal name rest more hknown ih =>
    obtain ⟨between, hbetween, hbegin⟩ := ih h
    obtain ⟨before, hbefore, hvalue⟩ := List.mem_flatMap.mp hbetween
    obtain ⟨value, -, rfl⟩ := List.mem_map.mp hvalue
    rw [List.append_assoc] at hbegin
    exact ⟨before, hbefore, (List.prefix_append _ _).trans hbegin⟩
  | case5 => cases h

/-- The placeholder that comes first in a text that expands. -/
theorem exists_placeholder {values : Text → Option (List Text)} {results expansions : List Text}
    {text : Text} (hpercent : '%' ∈ text)
    (h : expandPieces values results (text.splitOn '%') = .ok expansions) :
    ∃ lead name rest, text = lead ++ '%' :: (name ++ '%' :: rest) ∧ '%' ∉ lead ∧ '%' ∉ name ∧
      (knownVariables.any fun known ↦ eqIgnoreAsciiCase known name) = true ∧
      expandPieces values (results.flatMap fun before ↦
        ((values name).getD []).map fun value ↦ before ++ lead ++ value) (rest.splitOn '%') =
          .ok expansions := by
  obtain ⟨lead, behind, rfl, hlead⟩ := List.eq_append_cons_of_mem hpercent
  rw [List.splitOn_append_cons_self_of_not_mem hlead] at h
  by_cases hmore : '%' ∈ behind
  · obtain ⟨name, rest, rfl, hname⟩ := List.eq_append_cons_of_mem hmore
    rw [List.splitOn_append_cons_self_of_not_mem hname] at h
    obtain ⟨first, more, hsplit⟩ := List.exists_cons_of_ne_nil (List.splitOn_ne_nil '%' rest)
    rw [hsplit, expandPieces] at h
    split_ifs at h with hknown
    exact ⟨lead, name, rest, rfl, hlead, hname, hknown, hsplit ▸ h⟩
  · rw [List.splitOn_eq_singleton hmore] at h
    cases h

end WardSweep.Expand
