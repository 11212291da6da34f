import WardSweep.Rust.Alike
import WardSweep.Safety.Panics
import WardSweep.Scan.Ledger

/-!
# The spelling of a registry key

The deny-list judges a canonical key, and the audit takes the views to read from the text of the
catalog.  Two spellings of one key are read alike exactly when the text says the same about its
views.
-/

namespace WardSweep.Scan

open Utf8 Str Paths Denylist Schema

/-- The text of a key begins below `HKLM\SOFTWARE`, which is redirected for a 32-bit installer. -/
def isRedirected (key : Text) : Bool :=
  match splitAtByte key 14 with
  | some (head, _) => eqIgnoreAsciiCase head r"HKLM\SOFTWARE\".toList
  | none => false

theorem views_eq (key : Text) (view : View) :
    views key view =
      match view with
      | .bits32 => [.bits32]
      | .both => if isRedirected key then [.bits64, .bits32] else [.bits64]
      | .bits64 => [.bits64] := rfl

/-- The machine's answers about the registry depend on the canonical key and the view only. -/
def AnswersByKey (machine : MachineView) : Prop :=
  ∀ key key' view, canonicaliseRegKey key = canonicaliseRegKey key' →
    machine.registryKey key view = machine.registryKey key' view

/-! ## The same up to the spelling -/

section Respelled

variable (key key' : Text)

/-- The same artifact, or the key in its two spellings. -/
def Artifact.Respelled (artifact artifact' : Artifact) : Prop :=
  artifact = artifact' ∨
    ∃ view, artifact = .registryKey key view ∧ artifact' = .registryKey key' view

/-- The same finding, up to the spelling of its artifact. -/
structure Finding.Respelled (finding finding' : Finding) : Prop where
  artifact : finding.artifact.Respelled key key' finding'.artifact
  other : { finding with artifact := finding'.artifact } = finding'

/-- The same finding before it is settled, up to the spelling of its artifact. -/
structure Pending.Respelled (pending pending' : Pending) : Prop where
  artifact : pending.artifact.Respelled key key' pending'.artifact
  other : { pending with artifact := pending'.artifact } = pending'

def Protected.Respelled (record record' : Protected) : Prop :=
  record = record' ∨ record.target = key ∧ { record with target := key' } = record'

/-- The same record, or one whose item begins with the key in its two spellings. -/
def Unreadable.Respelled (record record' : Unreadable) : Prop :=
  record = record' ∨
    ∃ more, record.item = key ++ more ∧ { record with item := key' ++ more } = record'

def Query.Respelled (query query' : Query) : Prop :=
  query = query' ∨ ∃ view, query = .registryKey key view ∧ query' = .registryKey key' view

/-- The same thing done in the audit of an entry, up to the spelling. -/
inductive Note.Respelled : Note → Note → Prop
  | asked {query query' : Query} (h : query.Respelled key key' query') :
      Note.Respelled (.asked query) (.asked query')
  | found {pending pending' : Pending} (h : pending.Respelled key key' pending') :
      Note.Respelled (.found pending) (.found pending')
  | protectedTarget {record record' : Protected} (h : record.Respelled key key' record') :
      Note.Respelled (.protectedTarget record) (.protectedTarget record')
  | disbelieved (record : Disbelieved) : Note.Respelled (.disbelieved record) (.disbelieved record)
  | unreadable {record record' : Unreadable} (h : record.Respelled key key' record') :
      Note.Respelled (.unreadable record) (.unreadable record')

/-- The same report up to the spelling. -/
structure Report.Respelled (report report' : Report) : Prop where
  v : report.v = report'.v
  findings : List.Forall₂ (Finding.Respelled key key') report.findings report'.findings
  protectedTargets :
    List.Forall₂ (Protected.Respelled key key') report.protectedTargets report'.protectedTargets
  disbelieved : report.disbelieved = report'.disbelieved
  unreadable : List.Forall₂ (Unreadable.Respelled key key') report.unreadable report'.unreadable

end Respelled

/-! ## Where an entry is read -/

/-- A catalog without one registry entry of one anti-cheat. -/
structure Place where
  catalog : Catalog
  before : List AntiCheat
  anticheat : AntiCheat
  after : List AntiCheat
  above : List RegistryEntry
  below : List RegistryEntry

/-- The anti-cheat of the place, with an entry in it. -/
def Place.anticheatWith (place : Place) (entry : RegistryEntry) : AntiCheat :=
  { place.anticheat with registry := place.above ++ entry :: place.below }

/-- The catalog of the place, with an entry in it. -/
def Place.catalogWith (place : Place) (entry : RegistryEntry) : Catalog :=
  { place.catalog with
    anticheat := place.before ++ place.anticheatWith entry :: place.after }

/-- What the audit does for one registry entry: the views it asks the machine about, in order, and
what it makes of the answers. -/
def Audit.registryEntry (audit : Audit) (entry : RegistryEntry) : Outcome Empty (List Note) :=
  Outcome.flatTraverse (audit.registryKey entry.key) (views entry.key entry.view)

/-- Two registry entries are read alike: wherever one of them stands in a catalog, the audit does
the same for the other in its place, and reports the same, up to the spelling. -/
def ReadAlike (entry entry' : RegistryEntry) : Prop :=
  ∀ (machine : MachineView) (environment : Environment) (place : Place), AnswersByKey machine →
    ((auditOf machine environment (place.anticheatWith entry)).registryEntry entry).Alike
        (List.Forall₂ (Note.Respelled entry.key entry'.key))
        ((auditOf machine environment (place.anticheatWith entry')).registryEntry entry') ∧
      (audit (place.catalogWith entry) machine environment).Alike
        (Report.Respelled entry.key entry'.key)
        (audit (place.catalogWith entry') machine environment)

/-! ## The same is the same up to the spelling -/

section Respelled

variable {key key' : Text}

theorem Pending.Respelled.refl (pending : Pending) : pending.Respelled key key' pending :=
  ⟨.inl rfl, rfl⟩

theorem Note.Respelled.refl (note : Note) : note.Respelled key key' note := by
  cases note with
  | asked query => exact .asked (.inl rfl)
  | found pending => exact .found (.refl pending)
  | protectedTarget record => exact .protectedTarget (.inl rfl)
  | disbelieved record => exact .disbelieved record
  | unreadable record => exact .unreadable (.inl rfl)

theorem forall₂_noteRespelled_refl (notes : List Note) :
    List.Forall₂ (Note.Respelled key key') notes notes :=
  List.forall₂_same.mpr fun note _ ↦ .refl note

/-- Alike notes give alike findings before settling, and alike records. -/
theorem Note.Respelled.pending? {note note' : Note} (h : note.Respelled key key' note') :
    Option.Rel (Pending.Respelled key key') note.pending? note'.pending? := by
  cases h with
  | found h => exact .some h
  | asked h => exact .none
  | protectedTarget h => exact .none
  | disbelieved record => exact .none
  | unreadable h => exact .none

theorem Note.Respelled.protected? {note note' : Note} (h : note.Respelled key key' note') :
    Option.Rel (Protected.Respelled key key') note.protected? note'.protected? := by
  cases h with
  | protectedTarget h => exact .some h
  | asked h => exact .none
  | found h => exact .none
  | disbelieved record => exact .none
  | unreadable h => exact .none

theorem Note.Respelled.disbelieved? {note note' : Note} (h : note.Respelled key key' note') :
    Option.Rel Eq note.disbelieved? note'.disbelieved? := by
  cases h with
  | disbelieved record => exact .some rfl
  | asked h => exact .none
  | found h => exact .none
  | protectedTarget h => exact .none
  | unreadable h => exact .none

theorem Note.Respelled.unreadable? {note note' : Note} (h : note.Respelled key key' note') :
    Option.Rel (Unreadable.Respelled key key') note.unreadable? note'.unreadable? := by
  cases h with
  | unreadable h => exact .some h
  | asked h => exact .none
  | found h => exact .none
  | protectedTarget h => exact .none
  | disbelieved record => exact .none

/-! ## Settling -/

theorem map_judged_respelled {found found' : List Pending}
    (h : List.Forall₂ (Pending.Respelled key key') found found') :
    found.map Pending.judged = found'.map Pending.judged := by
  induction h with
  | nil => rfl
  | cons hfirst _ ih => rw [List.map_cons, List.map_cons, ih, ← hfirst.other]

theorem any_judged_respelled {found found' : List Pending}
    (h : List.Forall₂ (Pending.Respelled key key') found found')
    (classification : Classification) :
    (found.any fun pending ↦ pending.judged == some classification) =
      found'.any fun pending ↦ pending.judged == some classification := by
  have hany (pendings : List Pending) :
      (pendings.any fun pending ↦ pending.judged == some classification) =
        (pendings.map Pending.judged).any (· == some classification) := by
    rw [List.any_map]
    rfl
  rw [hany, hany, map_judged_respelled h]

/-- What settles alike findings of two versions of an entry settles them alike. -/
theorem settle_respelled {entry entry' : AntiCheat} (hid : entry.id = entry'.id)
    (hrisk : entry.risk = entry'.risk) {found found' : List Pending}
    (h : List.Forall₂ (Pending.Respelled key key') found found') :
    List.Forall₂ (Finding.Respelled key key') (settle entry found) (settle entry' found') := by
  unfold settle
  rw [any_judged_respelled h, any_judged_respelled h, hid, hrisk]
  refine List.rel_map (fun pending pending' hpending ↦ ?_) h
  obtain ⟨hartifact, hother⟩ := hpending
  refine ⟨hartifact, ?_⟩
  rw [← hother]

theorem forall₂_zip {α β γ δ : Type*} {related : α → β → Prop} {related' : γ → δ → Prop}
    {left : List α} {left' : List β} {right : List γ} {right' : List δ}
    (hleft : List.Forall₂ related left left') (hright : List.Forall₂ related' right right') :
    List.Forall₂ (fun pair pair' ↦ related pair.1 pair'.1 ∧ related' pair.2 pair'.2)
      (left.zip right) (left'.zip right') := by
  induction hleft generalizing right right' with
  | nil => exact .nil
  | cons hfirst _ ih =>
    cases hright with
    | nil => exact .nil
    | cons hfirst' hrest' => exact .cons ⟨hfirst, hfirst'⟩ (ih hrest')

/-! ## The audit -/

theorem refusedKey_congr (hkey : canonicaliseRegKey key = canonicaliseRegKey key')
    (exceptions : Exceptions) : refusedKey key exceptions = refusedKey key' exceptions := by
  unfold refusedKey
  rw [hkey]

/-- In one view the two spellings are read alike. -/
theorem registryKey_respelled (hkey : canonicaliseRegKey key = canonicaliseRegKey key')
    {audit audit' : Audit} (hid : audit.entry.id = audit'.entry.id)
    (hexceptions : audit.exceptions = audit'.exceptions) (hmachine : audit.machine = audit'.machine)
    (hanswers : AnswersByKey audit.machine) (view : RegView) :
    (audit.registryKey key view).Alike (List.Forall₂ (Note.Respelled key key'))
      (audit'.registryKey key' view) := by
  unfold Audit.registryKey
  rw [refusedKey_congr hkey, hexceptions]
  apply (Outcome.Alike.refl (fun _ ↦ rfl) (refusedKey key' audit'.exceptions)).bind
  intro refused refused' hsame
  obtain rfl : refused = refused' := hsame
  cases refused with
  | some reason =>
    refine .ok (.cons (.protectedTarget (.inr ⟨rfl, ?_⟩)) .nil)
    rw [hid]
  | none =>
    refine .ok (.cons (.asked (.inr ⟨view, rfl, rfl⟩)) ?_)
    rw [hanswers key key' view hkey, hmachine]
    cases audit'.machine.registryKey key' view with
    | found present => exact .cons (.found ⟨.inr ⟨view, rfl, rfl⟩, rfl⟩) .nil
    | absent => exact .nil
    | unreadable reason =>
      refine .cons (.unreadable (.inr ⟨_, (List.append_assoc _ _ _).trans (List.append_assoc _ _ _),
        ?_⟩)) .nil
      · rw [hid]
        exact congrArg (fun item ↦ Unreadable.mk (some audit'.entry.id) item reason)
          ((List.append_assoc _ _ _).trans (List.append_assoc _ _ _)).symm

end Respelled

section Reading

variable {entry entry' : RegistryEntry} {machine : MachineView}

theorem registryEntry_respelled
    (hkey : canonicaliseRegKey entry.key = canonicaliseRegKey entry'.key)
    (hviews : views entry.key entry.view = views entry'.key entry'.view)
    (hanswers : AnswersByKey machine) (environment : Environment) (place : Place) :
    ((auditOf machine environment (place.anticheatWith entry)).registryEntry entry).Alike
      (List.Forall₂ (Note.Respelled entry.key entry'.key))
      ((auditOf machine environment (place.anticheatWith entry')).registryEntry entry') := by
  unfold Audit.registryEntry
  rw [hviews]
  apply Outcome.Alike.flatTraverse
  apply List.forall₂_same.mpr
  intro view _
  exact registryKey_respelled hkey rfl rfl rfl hanswers view

/-- The keys and views of an entry that is in a place: those of the entries above and below it, and
its own. -/
theorem keyViews_anticheatWith (environment : Environment) (place : Place) :
    (auditOf machine environment (place.anticheatWith entry)).keyViews =
      place.above.flatMap (fun other ↦ (views other.key other.view).map (other.key, ·)) ++
        ((views entry.key entry.view).map (entry.key, ·) ++
          place.below.flatMap fun other ↦ (views other.key other.view).map (other.key, ·)) := by
  simp [Audit.keyViews, auditOf, Place.anticheatWith]

theorem run_respelled (hkey : canonicaliseRegKey entry.key = canonicaliseRegKey entry'.key)
    (hviews : views entry.key entry.view = views entry'.key entry'.view)
    (hanswers : AnswersByKey machine) (environment : Environment) (place : Place) :
    (auditOf machine environment (place.anticheatWith entry)).run.Alike
      (List.Forall₂ (Note.Respelled entry.key entry'.key))
      (auditOf machine environment (place.anticheatWith entry')).run := by
  let goesAlike := fun pair pair' : Text × RegView ↦
    ((auditOf machine environment (place.anticheatWith entry)).registryKey pair.1 pair.2).Alike
      (List.Forall₂ (Note.Respelled entry.key entry'.key))
      ((auditOf machine environment (place.anticheatWith entry')).registryKey pair'.1 pair'.2)
  have hsame (pairs : List (Text × RegView)) : List.Forall₂ goesAlike pairs pairs :=
    List.forall₂_same.mpr fun pair _ ↦ Outcome.Alike.refl forall₂_noteRespelled_refl _
  have hown : List.Forall₂ goesAlike ((views entry.key entry.view).map (entry.key, ·))
      ((views entry'.key entry'.view).map (entry'.key, ·)) := by
    rw [hviews, List.forall₂_map_left_iff, List.forall₂_map_right_iff]
    exact List.forall₂_same.mpr fun view _ ↦ registryKey_respelled hkey rfl rfl rfl hanswers view
  have hkeys : List.Forall₂ goesAlike
      (auditOf machine environment (place.anticheatWith entry)).keyViews
      (auditOf machine environment (place.anticheatWith entry')).keyViews := by
    rw [keyViews_anticheatWith, keyViews_anticheatWith]
    exact List.rel_append (hsame _) (List.rel_append hown (hsame _))
  unfold Audit.run
  apply (Outcome.Alike.flatTraverse hkeys).bind
  intro keys keys' hkeys
  apply (Outcome.Alike.refl forall₂_noteRespelled_refl (Outcome.flatTraverse (fun other ↦
    (auditOf machine environment (place.anticheatWith entry)).path other.path)
      place.anticheat.paths)).bind
  intro paths paths' hpaths
  exact .ok (List.rel_append (List.rel_append (forall₂_noteRespelled_refl _) hkeys) hpaths)

/-- Every anti-cheat of the two catalogs is audited alike. -/
theorem audit_respelled (hkey : canonicaliseRegKey entry.key = canonicaliseRegKey entry'.key)
    (hviews : views entry.key entry.view = views entry'.key entry'.view)
    (hanswers : AnswersByKey machine) (environment : Environment) (place : Place) :
    (audit (place.catalogWith entry) machine environment).Alike
      (Report.Respelled entry.key entry'.key)
      (audit (place.catalogWith entry') machine environment) := by
  let sameOwner := fun anticheat anticheat' : AntiCheat ↦
    anticheat.id = anticheat'.id ∧ anticheat.risk = anticheat'.risk
  have howners : List.Forall₂ sameOwner (place.catalogWith entry).anticheat
      (place.catalogWith entry').anticheat :=
    List.rel_append (List.forall₂_same.mpr fun _ _ ↦ ⟨rfl, rfl⟩)
      (.cons ⟨rfl, rfl⟩ (List.forall₂_same.mpr fun _ _ ↦ ⟨rfl, rfl⟩))
  let runsAlike := fun anticheat anticheat' : AntiCheat ↦
    (auditOf machine environment anticheat).run.Alike
      (List.Forall₂ (Note.Respelled entry.key entry'.key))
      (auditOf machine environment anticheat').run
  have hothers (others : List AntiCheat) : List.Forall₂ runsAlike others others :=
    List.forall₂_same.mpr fun _ _ ↦ Outcome.Alike.refl forall₂_noteRespelled_refl _
  have hruns : List.Forall₂ runsAlike (place.catalogWith entry).anticheat
      (place.catalogWith entry').anticheat :=
    List.rel_append (hothers _)
      (.cons (run_respelled hkey hviews hanswers environment place) (hothers _))
  unfold audit auditNotes
  apply (Outcome.Alike.traverse hruns).bind
  intro notes notes' hnotes
  have hflat := List.rel_flatten hnotes
  refine .ok ⟨rfl, ?_, ?_, ?_, ?_⟩
  · apply List.rel_flatten
    refine List.rel_map (fun pair pair' hpair ↦ ?_) (forall₂_zip howners hnotes)
    exact settle_respelled hpair.1.1 hpair.1.2
      (List.rel_filterMap (fun _ _ hnote ↦ hnote.pending?) hpair.2)
  · exact List.rel_filterMap (fun _ _ hnote ↦ hnote.protected?) hflat
  · have hdisbelieved :=
      List.rel_filterMap (fun _ _ hnote ↦ Note.Respelled.disbelieved? hnote) hflat
    rwa [List.forall₂_eq_eq_eq] at hdisbelieved
  · exact List.rel_append (List.forall₂_same.mpr fun _ _ ↦ .inl rfl)
      (List.rel_filterMap (fun _ _ hnote ↦ hnote.unreadable?) hflat)

end Reading

/-! ## A machine on which every key exists -/

/-- A machine that has every registry key and nothing else. -/
def keysEverywhere : MachineView where
  service _ := .absent
  serviceKey _ := .absent
  driverKeys := .absent
  registryKey _ _ := .found ()
  path _ := .absent
  signature _ := .unsigned

/-- In each view the audit does as many things for a key, on such a machine. -/
theorem length_registryKey {audit : Audit} (hmachine : audit.machine = keysEverywhere) {key : Text}
    {refused : Option Text} (hrefused : refusedKey key audit.exceptions = .ok refused)
    (view : RegView) : ∃ notes, audit.registryKey key view = .ok notes ∧
      notes.length = if refused.isSome then 1 else 2 := by
  unfold Audit.registryKey
  rw [hrefused, Outcome.bind_ok, hmachine]
  cases refused with
  | some reason => exact ⟨_, rfl, rfl⟩
  | none => exact ⟨_, rfl, rfl⟩

theorem length_flatTraverse {α β : Type*} {call : α → Outcome Empty (List β)} {count : ℕ}
    (h : ∀ element, ∃ values, call element = .ok values ∧ values.length = count)
    (elements : List α) : ∃ values, Outcome.flatTraverse call elements = .ok values ∧
      values.length = count * elements.length := by
  induction elements with
  | nil => exact ⟨[], rfl, rfl⟩
  | cons element elements ih =>
    obtain ⟨first, hfirst, hcount⟩ := h element
    obtain ⟨rest, hrest, hlength⟩ := ih
    obtain ⟨parts, hparts, hflat⟩ := (Outcome.bind_eq_ok_iff _ _ _).mp hrest
    refine ⟨first ++ rest, ?_, ?_⟩
    · rw [Outcome.flatTraverse, Outcome.traverse_cons, hfirst, Outcome.bind_ok, hparts,
        Outcome.bind_ok, Outcome.bind_ok, List.flatten_cons, Outcome.ok.inj hflat]
    · rw [List.length_append, hcount, hlength, List.length_cons, Nat.mul_succ, Nat.add_comm]

/-! ## The text that names the redirected root -/

/-- A text that is redirected names the hive and `SOFTWARE` before it names anything else. -/
theorem exists_of_isRedirected {key : Text} (h : isRedirected key = true) :
    ∃ hive software rest, key = hive ++ '\\' :: (software ++ '\\' :: rest) ∧
      toAsciiUppercase hive = "HKLM".toList ∧ toAsciiUppercase software = "SOFTWARE".toList := by
  unfold isRedirected at h
  split at h
  · next head tail hsplit =>
    obtain ⟨rfl, -⟩ := (splitAtByte_eq_some_iff _ _ _ _).mp hsplit
    rw [eqIgnoreAsciiCase_iff] at h
    have hupper : head.map Char.toUpper =
        "HKLM".toList ++ '\\' :: ("SOFTWARE".toList ++ ['\\']) := h.trans (by decide)
    obtain ⟨hive, below, rfl, hhive, hbelow⟩ := List.map_eq_append_iff.mp hupper
    obtain ⟨slash, below, rfl, hslash, hbelow⟩ := List.map_eq_cons_iff.mp hbelow
    obtain ⟨software, last, rfl, hsoftware, hlast⟩ := List.map_eq_append_iff.mp hbelow
    obtain ⟨slash', last, rfl, hslash', hlast⟩ := List.map_eq_cons_iff.mp hlast
    obtain rfl := List.map_eq_nil_iff.mp hlast
    obtain rfl := (toUpper_eq_iff (by decide)).mp hslash
    obtain rfl := (toUpper_eq_iff (by decide)).mp hslash'
    exact ⟨hive, software, tail, by simp, hhive, hsoftware⟩
  · cases h

/-- A fixed name in some case holds no separator and no space. -/
theorem not_mem_of_upper {name upper : Text} (h : toAsciiUppercase name = upper) {c : Char}
    (hc : isAsciiAlphabetic c.toNat = false) (hupper : c ∉ upper) : c ∉ name := by
  rwa [← mem_toAsciiUppercase_iff hc, h]

theorem not_isWhitespace_of_upper {name upper : Text} (h : toAsciiUppercase name = upper)
    (hupper : ∀ c ∈ upper, isWhitespace c = false) : ∀ c ∈ name, isWhitespace c = false := by
  intro c hc
  rw [← isWhitespace_toUpper]
  exact hupper _ (h ▸ List.mem_map_of_mem hc)

/-- Trimming at both ends starts at the first kept character and ends after the last. -/
theorem trimMatches_of_kept (drops : Char → Bool) {first last : Char} (hfirst : drops first = false)
    (hlast : drops last = false) (middle rest : Text) :
    trimMatches drops (first :: (middle ++ last :: rest)) =
      first :: (middle ++ last :: trimEndMatches drops rest) := by
  rw [trimMatches, List.dropWhile_cons_of_neg (Bool.eq_false_iff.mp hfirst), ← List.cons_append,
    trimEndMatches_append_cons drops _ _ hlast, List.cons_append]

/-- The pieces of a redirected key. -/
theorem keyPieces_of_isRedirected {key : Text} (h : isRedirected key = true) :
    ∃ hive software more, keyPieces key = hive :: software :: more ∧
      toAsciiUppercase software = "SOFTWARE".toList := by
  obtain ⟨hive, software, rest, rfl, hhive, hsoftware⟩ := exists_of_isRedirected h
  obtain ⟨first, hive, rfl⟩ := List.exists_cons_of_ne_nil
    (fun hnil : hive = [] ↦ by rw [hnil] at hhive; exact absurd hhive (by decide))
  obtain ⟨front, last, rfl⟩ := (List.eq_nil_or_concat' software).resolve_left
    (fun hnil ↦ by rw [hnil] at hsoftware; exact absurd hsoftware (by decide))
  have hslash : '/' ∉ first :: (hive ++ '\\' :: (front ++ [last])) := by
    have hinHive := not_mem_of_upper hhive (c := '/') (by decide) (by decide)
    have hinSoftware := not_mem_of_upper hsoftware (c := '/') (by decide) (by decide)
    rw [← List.cons_append]
    intro hmem
    rcases List.mem_append.mp hmem with hmem | hmem
    · exact hinHive hmem
    · rcases List.mem_cons.mp hmem with hslash | hmem
      · exact absurd hslash (by decide)
      · exact hinSoftware hmem
  have hwhole := not_mem_of_upper hhive (c := '\\') (by decide) (by decide)
  have hwhole' := not_mem_of_upper hsoftware (c := '\\') (by decide) (by decide)
  have hfirstWhite := not_isWhitespace_of_upper hhive (by decide) first List.mem_cons_self
  have hfirst : (first == '\\') = false := by
    rw [beq_eq_false_iff_ne]
    exact fun heq ↦ hwhole (heq ▸ List.mem_cons_self)
  have hlast : (last == '\\') = false := by
    rw [beq_eq_false_iff_ne]
    exact fun heq ↦ hwhole' (heq ▸ List.mem_append_right _ List.mem_cons_self)
  have hunify : unify (first :: hive ++ '\\' :: (front ++ [last] ++ '\\' :: rest)) =
      first :: ((hive ++ '\\' :: (front ++ [last])) ++ '\\' :: unify rest) := by
    have hsplit : first :: hive ++ '\\' :: (front ++ [last] ++ '\\' :: rest) =
        (first :: (hive ++ '\\' :: (front ++ [last]))) ++ '\\' :: rest := by simp
    rw [hsplit, unify_append, unify_eq_self hslash]
    rfl
  have htrim : trimMatches (· == '\\')
      (trim (unify (first :: hive ++ '\\' :: (front ++ [last] ++ '\\' :: rest)))) =
        (first :: hive) ++ '\\' :: (front ++ last :: trimEndMatches (· == '\\')
          ('\\' :: trimEndMatches isWhitespace (unify rest))) := by
    rw [hunify, trim, trimMatches_of_kept _ hfirstWhite (by decide)]
    have hagain := trimMatches_of_kept (· == '\\') hfirst hlast (hive ++ '\\' :: front)
      ('\\' :: trimEndMatches isWhitespace (unify rest))
    simpa using hagain
  have hnames : ∃ more, (front ++ last :: trimEndMatches (· == '\\')
      ('\\' :: trimEndMatches isWhitespace (unify rest))).splitOn '\\' =
        (front ++ [last]) :: more := by
    have hbegin := prefix_trimEndMatches (· == '\\')
      ('\\' :: trimEndMatches isWhitespace (unify rest))
    cases hend : trimEndMatches (· == '\\')
        ('\\' :: trimEndMatches isWhitespace (unify rest)) with
    | nil => exact ⟨[], List.splitOn_eq_singleton hwhole'⟩
    | cons slash more =>
      rw [hend] at hbegin
      obtain ⟨rfl, -⟩ := List.cons_prefix_cons.mp hbegin
      refine ⟨more.splitOn '\\', ?_⟩
      rw [List.append_cons, List.splitOn_append_cons_self_of_not_mem hwhole']
  obtain ⟨more, hmore⟩ := hnames
  refine ⟨first :: hive, front ++ [last], more, ?_, hsoftware⟩
  rw [keyPieces, htrim, List.splitOn_append_cons_self_of_not_mem hwhole, hmore]

/-- Below `HKLM\SOFTWARE` there is no control set. -/
theorem cutsKey_of_isRedirected {key : Text} (h : isRedirected key = true) : CutsKey key := by
  obtain ⟨hive, software, more, hpieces, hsoftware⟩ := keyPieces_of_isRedirected h
  intro head parts system controlSet services rest hkey _ hnames hsystem _
  rw [hpieces] at hkey
  obtain ⟨rfl, rfl⟩ := List.cons.inj hkey
  have hwhite := not_isWhitespace_of_upper hsoftware (by decide)
  have htrim : trim software = software := trimMatches_eq_self _
    (fun c hc ↦ hwhite c (List.mem_of_mem_head? hc)) fun c hc ↦
      hwhite c (List.mem_of_mem_getLast? hc)
  have hne : software.isEmpty = false := by
    rw [List.isEmpty_eq_false_iff]
    rintro rfl
    exact absurd hsoftware (by decide)
  rw [keyNames, List.map_cons, htrim, List.filter_cons_of_pos (by rw [hne]; rfl)] at hnames
  obtain ⟨rfl, -⟩ := List.cons.inj hnames
  rw [eqIgnoreAsciiCase_iff, hsoftware] at hsystem
  exact absurd hsystem (by decide)

/-! ## When two spellings are read alike -/

/-- A catalog of one anti-cheat that names one registry entry. -/
def barePlace : Place where
  catalog :=
    { schemaVersion := 1, catalogVersion := "1".toList, minimumAppVersion := "1".toList
      anticheat := [], game := [], launcher := [] }
  before := []
  anticheat :=
    { id := "ac".toList, display := "AC".toList, vendor := none, kind := .usermode, shared := true
      sharedEvidence := none, risk := .medium, authenticodeCn := [], fileHashes := []
      services := [], drivers := [], paths := [], registry := [], tasks := [], firewallRules := []
      eventSources := [], officialUninstall := none }
  after := []
  above := []
  below := []

section Reading

variable {entry entry' : RegistryEntry}

/-- The deny-list can judge a key when one of its spellings begins below the redirected root. -/
theorem refusedKey_of_isRedirected
    (hkey : canonicaliseRegKey entry.key = canonicaliseRegKey entry'.key)
    (h : isRedirected entry.key = true ∨ isRedirected entry'.key = true) (exceptions : Exceptions) :
    ∃ refused, refusedKey entry.key exceptions = .ok refused := by
  have hreturns : (refusedKey entry.key exceptions).Returns := by
    cases h with
    | inl hredirected =>
      exact (refusedKey_returns_iff _ _).mpr (cutsKey_of_isRedirected hredirected)
    | inr hredirected =>
      rw [refusedKey_congr hkey]
      exact (refusedKey_returns_iff _ _).mpr (cutsKey_of_isRedirected hredirected)
  cases hrefused : refusedKey entry.key exceptions with
  | ok refused => exact ⟨refused, rfl⟩
  | err error => exact error.elim
  | panic =>
    rw [hrefused] at hreturns
    exact absurd hreturns Outcome.not_returns_panic

/-- Two spellings that are read alike are read in as many views. -/
theorem length_views_of_readAlike
    (hkey : canonicaliseRegKey entry.key = canonicaliseRegKey entry'.key)
    (h : isRedirected entry.key = true ∨ isRedirected entry'.key = true)
    (halike : ReadAlike entry entry') :
    (views entry.key entry.view).length = (views entry'.key entry'.view).length := by
  have hanswers : AnswersByKey keysEverywhere := fun _ _ _ _ ↦ rfl
  obtain ⟨hentry, -⟩ := halike keysEverywhere ⟨fun _ ↦ none, []⟩ barePlace hanswers
  obtain ⟨refused, hrefused⟩ :=
    refusedKey_of_isRedirected hkey h (exceptionsFor barePlace.anticheat)
  have hrefused' := hrefused
  rw [refusedKey_congr hkey] at hrefused'
  let audit := auditOf keysEverywhere ⟨fun _ ↦ none, []⟩ (barePlace.anticheatWith entry)
  let audit' := auditOf keysEverywhere ⟨fun _ ↦ none, []⟩ (barePlace.anticheatWith entry')
  have hmachine : audit.machine = keysEverywhere ∧ audit'.machine = keysEverywhere := ⟨rfl, rfl⟩
  obtain ⟨notes, hnotes, hlength⟩ := length_flatTraverse
    (length_registryKey hmachine.1 hrefused) (views entry.key entry.view)
  obtain ⟨notes', hnotes', hlength'⟩ := length_flatTraverse
    (length_registryKey hmachine.2 hrefused') (views entry'.key entry'.view)
  rw [Audit.registryEntry, Audit.registryEntry, hnotes, hnotes'] at hentry
  cases hentry with
  | ok hsame =>
    have hcount := hsame.length_eq
    rw [hlength, hlength'] at hcount
    refine Nat.eq_of_mul_eq_mul_left ?_ hcount
    split <;> decide

/-- Two spellings of one key with one view setting are read alike exactly when they are read in one
view anyway, or both or neither begin below `HKLM\SOFTWARE` as the text stands. -/
theorem readAlike_iff (hview : entry.view = entry'.view)
    (hkey : canonicaliseRegKey entry.key = canonicaliseRegKey entry'.key) :
    ReadAlike entry entry' ↔
      (entry.view = .both → isRedirected entry.key = isRedirected entry'.key) := by
  constructor
  · intro halike hboth
    by_cases h : isRedirected entry.key = true ∨ isRedirected entry'.key = true
    · have hlength := length_views_of_readAlike hkey h halike
      rw [views_eq, views_eq, ← hview, hboth] at hlength
      cases hredirected : isRedirected entry.key <;>
        cases hredirected' : isRedirected entry'.key <;> simp_all
    · rw [not_or, Bool.not_eq_true, Bool.not_eq_true] at h
      rw [h.1, h.2]
  · intro hsame machine environment place hanswers
    have hviews : views entry.key entry.view = views entry'.key entry'.view := by
      rw [views_eq, views_eq, ← hview]
      cases hboth : entry.view with
      | both => rw [hsame hboth]
      | bits64 => rfl
      | bits32 => rfl
    exact ⟨registryEntry_respelled hkey hviews hanswers environment place,
      audit_respelled hkey hviews hanswers environment place⟩

end Reading

/-- Another case and another separator at the end change nothing. -/
theorem readAlike_lowerCase :
    ReadAlike ⟨r"HKLM\SOFTWARE\Acme".toList, .both, .config⟩
      ⟨r"hklm\software\acme\".toList, .both, .config⟩ := by
  refine (readAlike_iff ?_ ?_).mpr ?_
  · rfl
  · decide +kernel
  · decide +kernel

/-- The long name of the hive is one key for the deny-list, and is not read as a 32-bit installer
wrote it. -/
theorem not_readAlike_longHive :
    ¬ ∀ entry entry' : RegistryEntry, entry.view = entry'.view →
      canonicaliseRegKey entry.key = canonicaliseRegKey entry'.key → ReadAlike entry entry' := by
  intro h
  have halike := h ⟨r"HKLM\SOFTWARE\Acme".toList, .both, .config⟩
    ⟨r"HKEY_LOCAL_MACHINE\SOFTWARE\Acme".toList, .both, .config⟩ rfl (by decide +kernel)
  have hlength := length_views_of_readAlike (by decide +kernel) (.inl (by decide)) halike
  revert hlength
  decide

end WardSweep.Scan
