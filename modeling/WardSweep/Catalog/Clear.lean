import WardSweep.Catalog.Validate
import WardSweep.Safety.CarveOuts

/-!
# Catalogs that the deny-list has nothing against

The checks of a catalog give every problem they find, so a catalog without problems is one in which
each path and each key, one by one, is accepted.
-/

namespace WardSweep.Validate

open Utf8 Str Paths Denylist Schema Expand

/-- A check that looks at each entry of a list with its place finds nothing exactly when it finds
nothing in any entry. -/
theorem flatTraverse_zipIdx_eq_nil_iff {α β : Type*} {call : α × ℕ → Outcome Empty (List β)}
    {clear : α → Prop} (hcall : ∀ entry index, call (entry, index) = .ok [] ↔ clear entry)
    (entries : List α) :
    Outcome.flatTraverse call entries.zipIdx = .ok [] ↔ ∀ entry ∈ entries, clear entry := by
  rw [Outcome.flatTraverse_eq_nil_iff]
  have hfst : (entries.zipIdx).map Prod.fst = entries := List.zipIdx_map_fst 0 entries
  constructor
  · intro h entry hentry
    rw [← hfst] at hentry
    obtain ⟨numbered, hnumbered, rfl⟩ := List.mem_map.mp hentry
    exact (hcall _ _).mp (h numbered hnumbered)
  · intro h numbered hnumbered
    apply (hcall _ _).mpr
    apply h
    rw [← hfst]
    exact List.mem_map_of_mem hnumbered

/-- Two checks one after the other find nothing exactly when neither does. -/
theorem bind_append_eq_nil_iff {β : Type*} (first second : Outcome Empty (List β)) :
    (first.bind fun found ↦ second.bind fun more ↦ .ok (found ++ more)) = .ok [] ↔
      first = .ok [] ∧ second = .ok [] := by
  constructor
  · intro h
    obtain ⟨found, hfirst, hrest⟩ := (Outcome.bind_eq_ok_iff _ _ _).mp h
    obtain ⟨more, hsecond, hboth⟩ := (Outcome.bind_eq_ok_iff _ _ _).mp hrest
    obtain ⟨rfl, rfl⟩ := List.append_eq_nil_iff.mp (Outcome.ok.inj hboth)
    exact ⟨hfirst, hsecond⟩
  · intro h
    rw [h.1, h.2]
    rfl

/-! ## Paths and keys -/

/-- A template expands, and the deny-list accepts every path it expands to. -/
def PathClear (exceptions : Exceptions) (entry : PathEntry) : Prop :=
  ∃ expansions, expandForValidation entry.path = .ok expansions ∧ ∀ expansion ∈ expansions,
    ∃ canonical, canonicaliseSyntactic expansion = .ok canonical ∧
      checkPath canonical exceptions .catalogLoad = .ok ()

/-- The deny-list accepts a key. -/
def KeyClear (exceptions : Exceptions) (entry : RegistryEntry) : Prop :=
  ∃ canonical, canonicaliseRegKey entry.key = .ok canonical ∧
    checkRegistryKey canonical exceptions = .ok ()

theorem checkDenylistExpansion_eq_nil_iff (place template : Text) (exceptions : Exceptions)
    (expansion : Text) :
    checkDenylistExpansion place template exceptions expansion = .ok [] ↔
      ∃ canonical, canonicaliseSyntactic expansion = .ok canonical ∧
        checkPath canonical exceptions .catalogLoad = .ok () := by
  unfold checkDenylistExpansion
  cases canonicaliseSyntactic expansion with
  | ok canonical =>
    rw [Outcome.handle_ok]
    cases hcheck : checkPath canonical exceptions .catalogLoad <;> simp [Outcome.handle, hcheck]
  | err error => simp
  | panic => simp [Outcome.handle]

theorem checkDenylistPath_eq_nil_iff (place : Text) (exceptions : Exceptions) (entry : PathEntry) :
    checkDenylistPath place exceptions entry = .ok [] ↔ PathClear exceptions entry := by
  unfold checkDenylistPath PathClear
  cases expandForValidation entry.path with
  | error error => simp
  | ok expansions =>
    dsimp only
    rw [Outcome.flatTraverse_eq_nil_iff]
    simp only [checkDenylistExpansion_eq_nil_iff, Except.ok.injEq, exists_eq_left']

theorem checkDenylistKey_eq_nil_iff (place : Text) (exceptions : Exceptions)
    (entry : RegistryEntry) :
    checkDenylistKey place exceptions entry = .ok [] ↔ KeyClear exceptions entry := by
  unfold checkDenylistKey KeyClear
  cases canonicaliseRegKey entry.key with
  | ok canonical =>
    rw [Outcome.handle_ok]
    cases hcheck : checkRegistryKey canonical exceptions <;> simp [Outcome.handle, hcheck]
  | err error => simp
  | panic => simp [Outcome.handle]

theorem checkDenylistPaths_eq_nil_iff (owner : Text) (field : String) (entries : List PathEntry)
    (exceptions : Exceptions) :
    checkDenylistPaths owner field entries exceptions = .ok [] ↔
      ∀ entry ∈ entries, PathClear exceptions entry :=
  flatTraverse_zipIdx_eq_nil_iff
    (fun entry _ ↦ checkDenylistPath_eq_nil_iff _ exceptions entry) entries

theorem checkDenylistKeys_eq_nil_iff (owner : Text) (entries : List RegistryEntry)
    (exceptions : Exceptions) :
    checkDenylistKeys owner entries exceptions = .ok [] ↔
      ∀ entry ∈ entries, KeyClear exceptions entry :=
  flatTraverse_zipIdx_eq_nil_iff
    (fun entry _ ↦ checkDenylistKey_eq_nil_iff _ exceptions entry) entries

/-! ## Entries -/

/-- The paths of a game entry. -/
def gamePaths (game : Game) : List PathEntry := game.installHints ++ game.residue ++ game.saves

theorem clear_of_checkDenylistAnticheat {ac : AntiCheat} (h : checkDenylistAnticheat ac = .ok []) :
    (∀ entry ∈ ac.paths, PathClear (exceptionsFor ac) entry) ∧
      ∀ entry ∈ ac.registry, KeyClear (exceptionsFor ac) entry := by
  obtain ⟨paths, hpaths, h⟩ := (Outcome.bind_eq_ok_iff _ _ _).mp h
  obtain ⟨keys, hkeys, h⟩ := (Outcome.bind_eq_ok_iff _ _ _).mp h
  obtain ⟨hfront, rfl⟩ := List.append_eq_nil_iff.mp (Outcome.ok.inj h)
  obtain ⟨-, rfl⟩ := List.append_eq_nil_iff.mp hfront
  exact ⟨(checkDenylistPaths_eq_nil_iff _ _ _ _).mp hpaths,
    (checkDenylistKeys_eq_nil_iff _ _ _).mp hkeys⟩

theorem clear_of_checkDenylistGame {game : Game} (h : checkDenylistGame game = .ok []) :
    (∀ entry ∈ gamePaths game, PathClear .none entry) ∧
      ∀ entry ∈ game.registry, KeyClear .none entry := by
  obtain ⟨hints, hhints, h⟩ := (Outcome.bind_eq_ok_iff _ _ _).mp h
  obtain ⟨residue, hresidue, h⟩ := (Outcome.bind_eq_ok_iff _ _ _).mp h
  obtain ⟨saves, hsaves, h⟩ := (Outcome.bind_eq_ok_iff _ _ _).mp h
  obtain ⟨keys, hkeys, h⟩ := (Outcome.bind_eq_ok_iff _ _ _).mp h
  obtain ⟨hlocations, rfl⟩ := List.append_eq_nil_iff.mp (Outcome.ok.inj h)
  obtain ⟨hfront, rfl⟩ := List.append_eq_nil_iff.mp hlocations
  obtain ⟨rfl, rfl⟩ := List.append_eq_nil_iff.mp hfront
  rw [checkDenylistPaths_eq_nil_iff] at hhints hresidue hsaves
  refine ⟨fun entry hentry ↦ ?_, (checkDenylistKeys_eq_nil_iff _ _ _).mp hkeys⟩
  cases List.mem_append.mp hentry with
  | inl hfront =>
    cases List.mem_append.mp hfront with
    | inl hhint => exact hhints entry hhint
    | inr hrest => exact hresidue entry hrest
  | inr hsave => exact hsaves entry hsave

theorem clear_of_checkDenylist {catalog : Catalog} (h : checkDenylist catalog = .ok []) :
    (∀ ac ∈ catalog.anticheat, (∀ entry ∈ ac.paths, PathClear (exceptionsFor ac) entry) ∧
        ∀ entry ∈ ac.registry, KeyClear (exceptionsFor ac) entry) ∧
      ∀ game ∈ catalog.game, (∀ entry ∈ gamePaths game, PathClear .none entry) ∧
        ∀ entry ∈ game.registry, KeyClear .none entry := by
  obtain ⟨hanticheat, hgame⟩ := (bind_append_eq_nil_iff _ _).mp h
  rw [Outcome.flatTraverse_eq_nil_iff] at hanticheat hgame
  exact ⟨fun ac hac ↦ clear_of_checkDenylistAnticheat (hanticheat ac hac),
    fun game hgames ↦ clear_of_checkDenylistGame (hgame game hgames)⟩

end WardSweep.Validate
