import WardSweep.Broker.Database

/-!
# Brokers that share a database

Each session has a broker of its own, and all of them write to the same file.  What the file holds
of a job, and what the thread of that job has done, is at every moment what they would be on a
machine that runs no other session.
-/

namespace WardSweep.Broker

open Utf8 Ordered

/-! ## The brokers -/

/-- What was committed to the shared database, and the jobs of the brokers that are running. -/
structure Fleet where
  commits : List Commit
  jobs : Text → Option JobThread

/-- No session has run a job. -/
def Fleet.idle : Fleet := ⟨[], fun _ ↦ none⟩

/-- Something that happens to the broker of a job, and the clock's time then. -/
structure Occurrence where
  jobId : Text
  millis : ℕ
  incident : Incident
  deriving DecidableEq, Repr

/-- What an action of the job thread writes. -/
def Action.change (lastSeq : ℕ) : Action → Option Change
  | .stageStarted stage => some (.stageStarted stage)
  | .stageFinished stage =>
    some (.stageFinished stage "ok".toList "synthetic".toList lastSeq)
  | .jobFinished => some (.jobFinished "completed".toList lastSeq)
  | _ => none

/-- What something that happens to one broker makes of them all. -/
def Fleet.step (fleet : Fleet) (occurrence : Occurrence) : Option Fleet :=
  let commit := fun change ↦ (⟨occurrence.jobId, occurrence.millis, change⟩ : Commit)
  let jobs := Function.update fleet.jobs occurrence.jobId
  match occurrence.incident with
  | .applyPlan ticksPerStage catalogVersion =>
    match fleet.jobs occurrence.jobId with
    | some _ => some fleet
    | none =>
      some ⟨fleet.commits ++ [commit (.openJob catalogVersion)],
        jobs (some (.start occurrence.jobId ticksPerStage))⟩
  | .act lands =>
    (fleet.jobs occurrence.jobId).bind fun job ↦ job.step.map fun (action, next) ↦
      ⟨fleet.commits ++
          if lands then ((action.change job.lastSeq).map commit).toList else [],
        jobs (some next)⟩
  | .kill => some ⟨fleet.commits, jobs none⟩

/-- All that happens to the brokers, one thing after the other. -/
def Fleet.run (fleet : Fleet) (occurrences : List Occurrence) : Option Fleet :=
  occurrences.foldlM Fleet.step fleet

/-- What happens to the broker of one job. -/
def incidentsOf (jobId : Text) (occurrences : List Occurrence) : List Incident :=
  (occurrences.filter fun occurrence ↦ occurrence.jobId = jobId).map Occurrence.incident

/-! ## The part of one job -/

abbrev JobRecord.toRow (row : JobRecord) : JobRow :=
  ⟨row.id, row.status, row.catalogVersion, row.lastSeq⟩

abbrev StageRecord.toRow (row : StageRecord) : StageRow := ⟨row.stage, row.result, row.notes⟩

/-- The rows of the stages of one job. -/
def stagesOf (table : Table StageRecord.key) (jobId : Text) : List StageRow :=
  (table.rows.filter fun row ↦ row.jobId = jobId).map StageRecord.toRow

/-- What the database holds of one job. -/
def Database.storeOf (database : Database) (jobId : Text) : JobStore where
  job := (database.jobs.find jobId).map JobRecord.toRow
  stages := stagesOf database.stages jobId

/-- What a transaction leaves of its job's part. -/
def JobStore.commit (store : JobStore) (commit : Commit) : JobStore :=
  match commit.change with
  | .openJob catalogVersion => store.openJob commit.jobId catalogVersion
  | .stageStarted stage => store.stageStarted stage
  | .stageFinished stage result notes lastSeq => store.stageFinished stage result notes lastSeq
  | .jobFinished status lastSeq => store.jobFinished status lastSeq

/-- The machine that runs one job alone. -/
def Fleet.machine (fleet : Fleet) (jobId : Text) : Machine :=
  ⟨(Database.run fleet.commits).storeOf jobId, fleet.jobs jobId⟩

/-! ## What a transaction does to the parts -/

section Stages

variable {table : Table StageRecord.key} {jobId jobId' : Text} {stage : ℕ}
  {change : StageRecord → StageRecord} {hkey : ∀ row, (change row).key = row.key}

/-- A change of a stage is one of its job's part, and of no other. -/
theorem stagesOf_update {own : StageRow → StageRow}
    (hown : ∀ row, (change row).toRow = own row.toRow) :
    stagesOf (table.update (jobId, stage) change hkey) jobId' =
      if jobId = jobId' then
        (stagesOf table jobId').map fun row ↦ if row.stage = stage then own row else row
      else stagesOf table jobId' := by
  have hjob : (fun row : StageRecord ↦ decide (row.jobId = jobId')) ∘
      (fun row ↦ if row.key = (jobId, stage) then change row else row) =
        fun row ↦ decide (row.jobId = jobId') := by
    funext row
    simp only [Function.comp_apply]
    split_ifs
    · have hsame : (change row).jobId = row.jobId := congrArg Prod.fst (hkey row)
      rw [hsame]
    · rfl
  unfold stagesOf Table.update
  rw [List.filter_map, hjob, List.map_map]
  split_ifs with hmine
  · rw [List.map_map]
    refine List.map_congr_left fun row hrow ↦ ?_
    have hrowJob : row.jobId = jobId' := of_decide_eq_true (List.mem_filter.mp hrow).2
    have hkeys : row.key = (jobId, stage) ↔ row.stage = stage := by
      rw [StageRecord.key, hrowJob, hmine, Prod.mk.injEq, eq_self, true_and]
    change (if row.key = (jobId, stage) then change row else row).toRow =
      if row.stage = stage then own row.toRow else row.toRow
    by_cases hstage : row.stage = stage
    · rw [if_pos hstage, if_pos (hkeys.mpr hstage)]
      exact hown row
    · rw [if_neg hstage, if_neg (mt hkeys.mp hstage)]
  · refine List.map_congr_left fun row hrow ↦ ?_
    have hrowJob : row.jobId = jobId' := of_decide_eq_true (List.mem_filter.mp hrow).2
    rw [Function.comp_apply, if_neg]
    intro hkeys
    exact hmine ((congrArg Prod.fst hkeys).symm.trans hrowJob)

theorem any_stagesOf_iff : ((stagesOf table jobId).any fun row ↦ row.stage == stage) = true ↔
    (jobId, stage) ∈ table.rows.map StageRecord.key := by
  simp only [stagesOf, List.any_map, List.any_filter, List.any_eq_true, List.mem_map,
    Bool.and_eq_true, decide_eq_true_iff, Function.comp_apply, beq_iff_eq, Prod.mk.injEq]

/-- A stage is put into its job's part, unless it is there. -/
theorem stagesOf_upsert {new : StageRecord} (hsame : ∀ row, (change row).toRow = row.toRow) :
    stagesOf (table.upsert new change hkey) jobId' =
      if new.jobId = jobId' then
        if (stagesOf table jobId').any fun row ↦ row.stage == new.stage then stagesOf table jobId'
        else stagesOf table jobId' ++ [new.toRow]
      else stagesOf table jobId' := by
  unfold Table.upsert
  split_ifs with htaken hmine hthere hmine hthere
  · rw [@stagesOf_update _ _ _ _ _ _ id hsame, if_pos hmine]
    simp
  · rw [← hmine] at hthere
    exact absurd (any_stagesOf_iff.mpr htaken) hthere
  · rw [@stagesOf_update _ _ _ _ _ _ id hsame, if_neg hmine]
  · rw [← hmine] at hthere
    exact absurd (any_stagesOf_iff.mp hthere) htaken
  · simp [stagesOf, hmine]
  · simp [stagesOf, hmine]

end Stages

/-- A transaction for a job changes that job's part alone. -/
theorem storeOf_execute (database : Database) (commit : Commit) (jobId : Text) :
    (database.execute commit).storeOf jobId =
      if commit.jobId = jobId then (database.storeOf jobId).commit commit
      else database.storeOf jobId := by
  have hjob := find_execute database commit jobId
  unfold Database.storeOf
  rw [hjob]
  unfold Database.execute JobStore.commit rowAfter
  cases commit.change with
  | openJob catalogVersion =>
    split_ifs
    · cases database.jobs.find jobId <;> rfl
    · rfl
  | stageStarted stage =>
    dsimp only
    rw [stagesOf_upsert]
    · unfold JobStore.stageStarted
      split_ifs <;> rfl
    · exact fun _ ↦ rfl
  | stageFinished stage result notes lastSeq =>
    dsimp only
    rw [@stagesOf_update _ _ _ _ _ _ fun row ↦ { row with result := result, notes := some notes }]
    · split_ifs
      · cases database.jobs.find jobId <;> rfl
      · rfl
    · exact fun _ ↦ rfl
  | jobFinished status lastSeq =>
    split_ifs
    · cases database.jobs.find jobId <;> rfl
    · rfl

theorem storeOf_run_concat (commits : List Commit) (commit : Commit) (jobId : Text) :
    (Database.run (commits ++ [commit])).storeOf jobId =
      if commit.jobId = jobId then ((Database.run commits).storeOf jobId).commit commit
      else (Database.run commits).storeOf jobId := by
  rw [run_concat_commit, storeOf_execute]

/-! ## What the brokers do to each other -/

/-- What an action writes is written to its job's part. -/
theorem commit_change {store : JobStore} {action : Action} {change : Change} {lastSeq millis : ℕ}
    {jobId : Text} (h : action.change lastSeq = some change) :
    store.commit ⟨jobId, millis, change⟩ = store.act lastSeq action := by
  cases action <;> cases h <;> rfl

theorem act_of_change {store : JobStore} {action : Action} {lastSeq : ℕ}
    (h : action.change lastSeq = none) : store.act lastSeq action = store := by
  cases action with
  | stageStarted stage => exact nomatch h
  | stageFinished stage => exact nomatch h
  | jobFinished => exact nomatch h
  | push payload => rfl
  | readLastSeq => rfl
  | complete payload => rfl

/-- What an action writes, if it lands, is what it writes to its job's part. -/
theorem storeOf_act (commits : List Commit) (jobId jobId' : Text) (millis lastSeq : ℕ)
    (action : Action) (lands : Bool) :
    (Database.run (commits ++ if lands then
      ((action.change lastSeq).map fun change ↦ (⟨jobId, millis, change⟩ : Commit)).toList
        else [])).storeOf jobId' =
      if jobId = jobId' ∧ lands then ((Database.run commits).storeOf jobId').act lastSeq action
      else (Database.run commits).storeOf jobId' := by
  cases lands with
  | false => simp
  | true =>
    rw [if_pos rfl]
    cases hchange : action.change lastSeq with
    | none =>
      rw [act_of_change hchange, ite_self, Option.map_none, Option.toList_none, List.append_nil]
    | some change =>
      rw [Option.map_some, Option.toList_some, storeOf_run_concat, commit_change hchange]
      simp

/-- What happens to one broker happens to its job's machine, and to no other. -/
theorem machine_step {fleet next : Fleet} {occurrence : Occurrence}
    (h : fleet.step occurrence = some next) (jobId : Text) :
    if occurrence.jobId = jobId then
      (fleet.machine jobId).step jobId occurrence.incident = some (next.machine jobId)
    else next.machine jobId = fleet.machine jobId := by
  obtain ⟨jobId', millis, incident⟩ := occurrence
  unfold Fleet.machine
  dsimp only
  cases incident with
  | applyPlan ticksPerStage catalogVersion =>
    cases hjob : fleet.jobs jobId' with
    | some job =>
      simp only [Fleet.step, hjob] at h
      obtain rfl := Option.some.inj h
      split_ifs with hmine
      · subst hmine
        simp only [Machine.step, hjob]
      · rfl
    | none =>
      simp only [Fleet.step, hjob] at h
      obtain rfl := Option.some.inj h
      dsimp only
      rw [storeOf_run_concat]
      split_ifs with hmine
      · subst hmine
        simp only [Machine.step, hjob, Function.update_self]
        rfl
      · rw [Function.update_of_ne (Ne.symm hmine)]
  | act lands =>
    obtain ⟨job, hjob, hmap⟩ := Option.bind_eq_some_iff.mp h
    obtain ⟨⟨action, thread⟩, hstep, rfl⟩ := Option.map_eq_some_iff.mp hmap
    dsimp only at hjob ⊢
    rw [storeOf_act]
    split_ifs with hmine hboth hboth
    · subst hmine
      rw [Machine.step, hjob, Option.bind_some, hstep, Option.map_some, Function.update_self]
      dsimp only
      rw [if_pos hboth.2]
    · subst hmine
      rw [Machine.step, hjob, Option.bind_some, hstep, Option.map_some, Function.update_self]
      dsimp only
      rw [if_neg fun hlands ↦ hboth ⟨rfl, hlands⟩]
    · exact absurd hboth.1 hmine
    · rw [Function.update_of_ne (Ne.symm hmine)]
  | kill =>
    obtain rfl := Option.some.inj h
    dsimp only
    split_ifs with hmine
    · subst hmine
      rw [Machine.step, Function.update_self]
    · rw [Function.update_of_ne (Ne.symm hmine)]

/-! ## Runs -/

/-- A stage that is finished gets its notes with its end. -/
theorem notes_stageAfter {jobId nowUtc : Text} {stage : ℕ} {row : Option StageRecord}
    {change : Change} {after : StageRecord}
    (hrow : ∀ before, row = some before → before.notes.isSome = before.endedUtc.isSome)
    (h : stageAfter jobId nowUtc stage row change = some after) :
    after.notes.isSome = after.endedUtc.isSome := by
  unfold stageAfter at h
  cases change with
  | openJob catalogVersion => exact hrow after h
  | stageStarted started =>
    dsimp only at h
    split_ifs at h
    · obtain rfl := Option.some.inj h
      cases row with
      | none => rfl
      | some before => exact hrow before rfl
    · exact hrow after h
  | stageFinished finished result notes lastSeq =>
    dsimp only at h
    split_ifs at h
    · obtain ⟨before, -, rfl⟩ := Option.map_eq_some_iff.mp h
      rfl
    · exact hrow after h
  | jobFinished status lastSeq => exact hrow after h

/-- A stage has notes when it has an end. -/
theorem notes_isSome_run (commits : List Commit) {row : StageRecord}
    (h : row ∈ (Database.run commits).stages.rows) : row.notes.isSome = row.endedUtc.isSome := by
  rw [Table.mem_rows_iff] at h
  generalize row.key = key at h
  induction commits using List.reverseRecOn generalizing row with
  | nil => exact nomatch h
  | append_singleton commits commit ih =>
    rw [run_concat_commit, find_stages_execute] at h
    split_ifs at h
    · exact notes_stageAfter (fun _ hbefore ↦ ih hbefore) h
    · exact ih h

/-- What a read returns is the row of the machine's job, and how many of its stages have notes. -/
def Machine.Reports (machine : Machine) (state : JobState) : Prop :=
  (∃ row ∈ machine.store.job,
    row.id = state.jobId ∧ row.status = state.status ∧ row.lastSeq = state.lastSeq) ∧
  (machine.store.stages.filter fun row ↦ row.notes.isSome).length = state.stagesCompleted

theorem reports_of_mem_reads {fleet : Fleet} {state : JobState}
    (h : state ∈ (Database.run fleet.commits).reads) :
    (fleet.machine state.jobId).Reports state := by
  obtain ⟨row, hrow, rfl⟩ := List.mem_map.mp h
  have hfound := Table.mem_rows_iff.mp (List.mem_filter.mp hrow).1
  constructor
  · refine ⟨row.toRow, ?_, rfl, rfl, rfl⟩
    exact congrArg (Option.map JobRecord.toRow) hfound
  · change ((stagesOf _ row.id).filter _).length = (List.filter _ _).length
    rw [stagesOf, List.filter_map, List.length_map, List.filter_filter]
    refine congrArg List.length (List.filter_congr fun stage hstage ↦ ?_)
    rw [Function.comp_apply, Bool.and_comm, ← notes_isSome_run _ hstage]

theorem machine_idle (jobId : Text) : Fleet.idle.machine jobId = Machine.fresh := rfl

/-- In any run of any number of brokers each job's rows and thread are what its own broker makes of
them on a machine alone, and a read tells of such a machine. -/
theorem run_apart {occurrences : List Occurrence} {fleet : Fleet}
    (h : Fleet.idle.run occurrences = some fleet) :
    (∀ jobId, Machine.fresh.run jobId (incidentsOf jobId occurrences) =
      some (fleet.machine jobId)) ∧
      ∀ state ∈ (Database.run fleet.commits).reads, (fleet.machine state.jobId).Reports state := by
  refine ⟨fun jobId ↦ ?_, fun state hstate ↦ reports_of_mem_reads hstate⟩
  rw [Machine.run, incidentsOf, List.foldlM_map, ← machine_idle jobId]
  exact @foldlM_apart _ _ _ _ _ Fleet.machine Occurrence.jobId Fleet.step
    (fun jobId machine occurrence ↦ machine.step jobId occurrence.incident)
    (fun _ _ _ hstep ↦ machine_step hstep) _ _ _ h jobId

/-- Two brokers take turns, the first is killed after its first stage and is started again behind
the second, whose write of the start of a stage fails. -/
def takingTurns : List Occurrence :=
  [⟨"s3-a".toList, 1000, .applyPlan 0 "0".toList⟩, ⟨"s3-b".toList, 1001, .applyPlan 0 "0".toList⟩,
    ⟨"s3-a".toList, 1002, .act true⟩, ⟨"s3-b".toList, 1003, .act false⟩,
    ⟨"s3-a".toList, 1004, .act true⟩, ⟨"s3-a".toList, 1005, .act true⟩,
    ⟨"s3-b".toList, 1006, .act true⟩, ⟨"s3-a".toList, 1007, .act true⟩,
    ⟨"s3-a".toList, 1008, .kill⟩, ⟨"s3-a".toList, 2000, .applyPlan 0 "0".toList⟩]

theorem run_apart_takingTurns : ∃ fleet, Fleet.idle.run takingTurns = some fleet ∧
    (∀ jobId, Machine.fresh.run jobId (incidentsOf jobId takingTurns) =
      some (fleet.machine jobId)) ∧
      ∀ state ∈ (Database.run fleet.commits).reads, (fleet.machine state.jobId).Reports state := by
  have hruns : (Fleet.idle.run takingTurns).isSome := by decide +kernel
  obtain ⟨fleet, hfleet⟩ := Option.isSome_iff_exists.mp hruns
  exact ⟨fleet, hfleet, run_apart hfleet⟩

end WardSweep.Broker
