import Mathlib.Data.Set.Card
import WardSweep.Broker.Store
import WardSweep.Observe.Clock
import WardSweep.Ordered.Table

/-!
# The job database, read without a broker

All brokers of a user write to one database, each to the rows of its own job.  A user interface
whose broker is gone reads it: it asks for the job that was created last, by the text of its
timestamp, and is told how far that job had got.  A job that is opened again keeps the time it was
created at, and the ends of its stages.
-/

namespace WardSweep.Broker

open Utf8 Ordered Observe

/-! ## The tables -/

/-- A row of `jobs`. -/
structure JobRecord where
  id : Text
  createdUtc : Text
  completedUtc : Option Text
  status : Text
  catalogVersion : Text
  lastSeq : ℕ
  deriving DecidableEq, Repr

/-- A row of `job_stages`. -/
structure StageRecord where
  jobId : Text
  stage : ℕ
  startedUtc : Text
  endedUtc : Option Text
  result : Text
  notes : Option Text
  deriving DecidableEq, Repr

/-- `PRIMARY KEY (job_id, stage)`. -/
abbrev StageRecord.key (row : StageRecord) : Text × ℕ := (row.jobId, row.stage)

/-- The database of the jobs. -/
structure Database where
  jobs : Table JobRecord.id
  stages : Table StageRecord.key

/-- A database to which the schema has just been applied. -/
def Database.fresh : Database := ⟨Table.empty, Table.empty⟩

/-- What a broker writes in one transaction. -/
inductive Change where
  | openJob (catalogVersion : Text)
  | stageStarted (stage : ℕ)
  | stageFinished (stage : ℕ) (result notes : Text) (lastSeq : ℕ)
  | jobFinished (status : Text) (lastSeq : ℕ)
  deriving DecidableEq, Repr

/-- A transaction that was committed, for which job, and the clock's time then. -/
structure Commit where
  jobId : Text
  millis : ℕ
  change : Change
  deriving DecidableEq, Repr

/-- What a transaction leaves.  The clock is the one of the observer, line for line. -/
def Database.execute (database : Database) (commit : Commit) : Database :=
  let nowUtc := fromUnixMillis commit.millis
  match commit.change with
  | .openJob catalogVersion =>
    { database with
      jobs := database.jobs.upsert
        ⟨commit.jobId, nowUtc, none, "running".toList, catalogVersion, 0⟩
        (fun row ↦ { row with status := "running".toList }) fun _ ↦ rfl }
  | .stageStarted stage =>
    { database with
      stages := database.stages.upsert
        ⟨commit.jobId, stage, nowUtc, none, "running".toList, none⟩
        (fun row ↦ { row with startedUtc := nowUtc }) fun _ ↦ rfl }
  | .stageFinished stage result notes lastSeq =>
    { stages := database.stages.update (commit.jobId, stage)
        (fun row ↦ { row with endedUtc := some nowUtc, result := result, notes := some notes })
        fun _ ↦ rfl
      jobs := database.jobs.update commit.jobId
        (fun row ↦ { row with lastSeq := JobStore.column lastSeq }) fun _ ↦ rfl }
  | .jobFinished status lastSeq =>
    { database with
      jobs := database.jobs.update commit.jobId
        (fun row ↦ { row with
          completedUtc := some nowUtc
          status := status
          lastSeq := JobStore.column lastSeq }) fun _ ↦ rfl }

/-- What all transactions leave, in the order in which they were committed. -/
def Database.run (commits : List Commit) : Database := commits.foldl Database.execute Database.fresh

/-! ## The reader -/

/-- What the database says about a job. -/
structure JobState where
  jobId : Text
  status : Text
  lastSeq : ℕ
  /-- How many stages have an end timestamp. -/
  stagesCompleted : ℕ
  deriving DecidableEq, Repr

/-- The columns that are selected for a row of `jobs`. -/
def Database.stateOf (database : Database) (row : JobRecord) : JobState :=
  ⟨row.id, row.status, row.lastSeq,
    (database.stages.rows.filter fun stage ↦
      decide (stage.jobId = row.id) && stage.endedUtc.isSome).length⟩

/-- All that `JobStateReader.Read` may return: the order of two rows that were created at the same
time is not said.  It throws when there is nothing to return. -/
def Database.reads (database : Database) : List JobState :=
  (database.jobs.rows.filter fun row ↦
    database.jobs.rows.all fun other ↦ !decide (row.createdUtc < other.createdUtc)).map
      database.stateOf

/-! ## What was committed -/

/-- The status that a transaction gives to its job. -/
def Change.status : Change → Option Text
  | .openJob _ => some "running".toList
  | .jobFinished status _ => some status
  | _ => none

/-- The resume point that a transaction records. -/
def Change.lastSeq : Change → Option ℕ
  | .stageFinished _ _ _ lastSeq => some (JobStore.column lastSeq)
  | .jobFinished _ lastSeq => some (JobStore.column lastSeq)
  | _ => none

/-- Whether a transaction opens its job. -/
def Change.isOpenJob : Change → Bool
  | .openJob _ => true
  | _ => false

/-- What was committed for a job since it was first opened. -/
def historyOf (jobId : Text) (commits : List Commit) : List Commit :=
  (commits.filter fun commit ↦ commit.jobId = jobId).dropWhile fun commit ↦ !commit.change.isOpenJob

/-- The clock's time when a job was first opened. -/
def createdAt (commits : List Commit) (jobId : Text) : Option ℕ :=
  (historyOf jobId commits).head?.map Commit.millis

/-- A transaction starts a stage of a job. -/
def Commit.Starts (jobId : Text) (stage : ℕ) (commit : Commit) : Prop :=
  commit.jobId = jobId ∧ commit.change = .stageStarted stage

/-- A transaction finishes a stage of a job. -/
def Commit.Finishes (jobId : Text) (stage : ℕ) (commit : Commit) : Prop :=
  commit.jobId = jobId ∧ ∃ result notes lastSeq,
    commit.change = .stageFinished stage result notes lastSeq

/-- A stage was started, and after that it was finished. -/
def Completes (commits : List Commit) (jobId : Text) (stage : ℕ) : Prop :=
  ∃ before after, commits = before ++ after ∧ (∃ commit ∈ before, commit.Starts jobId stage) ∧
    ∃ commit ∈ after, commit.Finishes jobId stage

/-- What a job was last said to be by the transactions for it. -/
structure JobState.IsLastOf (commits : List Commit) (state : JobState) : Prop where
  status : ((historyOf state.jobId commits).filterMap fun commit ↦ commit.change.status).getLast? =
    some state.status
  lastSeq : ((historyOf state.jobId commits).filterMap fun commit ↦
    commit.change.lastSeq).getLast?.getD 0 = state.lastSeq
  stagesCompleted : {stage | Completes commits state.jobId stage}.ncard = state.stagesCompleted

/-! ## The rows of the jobs -/

/-- What a transaction makes of the row of its job. -/
def rowAfter (row : Option JobRecord) (commit : Commit) : Option JobRecord :=
  match commit.change with
  | .openJob catalogVersion =>
    some (row.elim
      ⟨commit.jobId, fromUnixMillis commit.millis, none, "running".toList, catalogVersion, 0⟩
      fun row ↦ { row with status := "running".toList })
  | .stageStarted _ => row
  | .stageFinished _ _ _ lastSeq =>
    row.map fun row ↦ { row with lastSeq := JobStore.column lastSeq }
  | .jobFinished status lastSeq =>
    row.map fun row ↦ { row with
      completedUtc := some (fromUnixMillis commit.millis)
      status := status
      lastSeq := JobStore.column lastSeq }

theorem find_execute (database : Database) (commit : Commit) (jobId : Text) :
    (database.execute commit).jobs.find jobId =
      if commit.jobId = jobId then rowAfter (database.jobs.find jobId) commit
      else database.jobs.find jobId := by
  unfold Database.execute rowAfter
  cases commit.change with
  | openJob catalogVersion => exact Table.find_upsert ..
  | stageStarted stage => rw [ite_self]
  | stageFinished stage result notes lastSeq =>
    dsimp only
    rw [Table.find_update]
  | jobFinished status lastSeq =>
    dsimp only
    rw [Table.find_update]

theorem find_run (commits : List Commit) (jobId : Text) :
    (Database.run commits).jobs.find jobId =
      (commits.filter fun commit ↦ commit.jobId = jobId).foldl rowAfter none :=
  @foldl_apart _ _ _ _ _ (fun database jobId ↦ database.jobs.find jobId) Commit.jobId _
    (fun _ ↦ rowAfter) find_execute Database.fresh commits jobId

/-- A row once put in keeps the time it was created at, and has the last that was said. -/
theorem foldl_rowAfter_some (row : JobRecord) (commits : List Commit) :
    ∃ row', commits.foldl rowAfter (some row) = some row' ∧ row'.createdUtc = row.createdUtc ∧
      row'.status =
        ((commits.filterMap fun commit ↦ commit.change.status).getLast?.getD row.status) ∧
      row'.lastSeq =
        ((commits.filterMap fun commit ↦ commit.change.lastSeq).getLast?.getD row.lastSeq) := by
  induction commits generalizing row with
  | nil => exact ⟨row, rfl, rfl, rfl, rfl⟩
  | cons commit commits ih =>
    obtain ⟨next, hnext, hcreated, hstatus, hlastSeq⟩ : ∃ next,
        rowAfter (some row) commit = some next ∧
          next.createdUtc = row.createdUtc ∧ next.status = commit.change.status.getD row.status ∧
          next.lastSeq = commit.change.lastSeq.getD row.lastSeq := by
      unfold rowAfter
      cases commit.change <;> exact ⟨_, rfl, rfl, rfl, rfl⟩
    obtain ⟨last, hlast, hcreated', hstatus', hlastSeq'⟩ := ih next
    refine ⟨last, by rw [List.foldl_cons, hnext, hlast], hcreated'.trans hcreated, ?_, ?_⟩
    · rw [hstatus', hstatus, List.filterMap_cons]
      cases commit.change.status with
      | none => rfl
      | some status => rw [List.getLast?_cons, Option.getD_some, Option.getD_some]
    · rw [hlastSeq', hlastSeq, List.filterMap_cons]
      cases commit.change.lastSeq with
      | none => rfl
      | some lastSeq => rw [List.getLast?_cons, Option.getD_some, Option.getD_some]

/-- Before a job is opened nothing is written of it. -/
theorem foldl_rowAfter_none (commits : List Commit) :
    commits.foldl rowAfter none =
      (commits.dropWhile fun commit ↦ !commit.change.isOpenJob).foldl rowAfter none := by
  induction commits with
  | nil => rfl
  | cons commit commits ih =>
    rw [List.dropWhile_cons]
    split_ifs with hopen
    · have hnone : rowAfter none commit = none := by
        unfold rowAfter
        cases hchange : commit.change with
        | openJob catalogVersion => simp [hchange, Change.isOpenJob] at hopen
        | stageStarted stage => rfl
        | stageFinished stage result notes lastSeq => rfl
        | jobFinished status lastSeq => rfl
      rw [List.foldl_cons, hnone, ih]
    · rfl

/-- A job that was never opened has no row. -/
theorem find_run_of_none {commits : List Commit} {jobId : Text}
    (h : createdAt commits jobId = none) :
    (Database.run commits).jobs.find jobId = none := by
  rw [createdAt, Option.map_eq_none_iff, List.head?_eq_none_iff, historyOf] at h
  rw [find_run, foldl_rowAfter_none, h, List.foldl_nil]

/-- A job that was opened has a row with the time of its first opening, and with the last that was
said. -/
theorem exists_find_run {commits : List Commit} {jobId : Text} {millis : ℕ}
    (h : createdAt commits jobId = some millis) :
    ∃ row, (Database.run commits).jobs.find jobId = some row ∧
      row.createdUtc = fromUnixMillis millis ∧
      ((historyOf jobId commits).filterMap fun commit ↦ commit.change.status).getLast? =
        some row.status ∧
      ((historyOf jobId commits).filterMap fun commit ↦ commit.change.lastSeq).getLast?.getD 0 =
        row.lastSeq := by
  rw [createdAt, Option.map_eq_some_iff] at h
  obtain ⟨first, hfirst, rfl⟩ := h
  obtain ⟨rest, hhistory⟩ : ∃ rest, historyOf jobId commits = first :: rest :=
    ⟨_, (List.eq_cons_of_mem_head? hfirst)⟩
  obtain ⟨catalogVersion, hopen⟩ : ∃ catalogVersion, first.change = .openJob catalogVersion := by
    have hhead := List.head?_dropWhile_not (fun commit : Commit ↦ !commit.change.isOpenJob)
      (commits.filter fun commit ↦ commit.jobId = jobId)
    unfold historyOf at hfirst
    rw [hfirst] at hhead
    cases hchange : first.change with
    | openJob catalogVersion => exact ⟨catalogVersion, rfl⟩
    | stageStarted stage => simp [hchange, Change.isOpenJob] at hhead
    | stageFinished stage result notes lastSeq => simp [hchange, Change.isOpenJob] at hhead
    | jobFinished status lastSeq => simp [hchange, Change.isOpenJob] at hhead
  have hopened : rowAfter none first = some
      ⟨first.jobId, fromUnixMillis first.millis, none, "running".toList, catalogVersion, 0⟩ := by
    rw [rowAfter, hopen]
    rfl
  obtain ⟨row, hrow, hcreated, hstatus, hlastSeq⟩ := foldl_rowAfter_some
    ⟨first.jobId, fromUnixMillis first.millis, none, "running".toList, catalogVersion, 0⟩ rest
  refine ⟨row, ?_, hcreated, ?_, ?_⟩
  · rw [find_run, foldl_rowAfter_none]
    change (historyOf jobId commits).foldl rowAfter none = _
    rw [hhistory, List.foldl_cons, hopened, hrow]
  · rw [hhistory, List.filterMap_cons, hopen, hstatus]
    exact List.getLast?_cons
  · rw [hhistory, List.filterMap_cons, hopen, hlastSeq]
    rfl

/-! ## The rows of the stages -/

theorem completes_concat {commits : List Commit} {commit : Commit} {jobId : Text} {stage : ℕ} :
    Completes (commits ++ [commit]) jobId stage ↔ Completes commits jobId stage ∨
      (∃ earlier ∈ commits, earlier.Starts jobId stage) ∧ commit.Finishes jobId stage := by
  constructor
  · rintro ⟨before, after, hcommits, hstart, last, hlast, hfinish⟩
    rcases List.eq_nil_or_concat after with rfl | ⟨after, final, rfl⟩
    · exact absurd hlast List.not_mem_nil
    · rw [List.concat_eq_append] at hlast
      rw [List.concat_eq_append, ← List.append_assoc] at hcommits
      obtain ⟨rfl, hfinal⟩ := List.append_inj' hcommits rfl
      obtain rfl := List.singleton_inj.mp hfinal
      rcases List.mem_append.mp hlast with hafter | hfinal
      · exact Or.inl ⟨before, after, rfl, hstart, last, hafter, hfinish⟩
      · obtain rfl := List.mem_singleton.mp hfinal
        obtain ⟨earlier, hearlier, hstarts⟩ := hstart
        exact Or.inr ⟨⟨earlier, List.mem_append_left _ hearlier, hstarts⟩, hfinish⟩
  · rintro (⟨before, after, rfl, hstart, last, hlast, hfinish⟩ | ⟨hstart, hfinish⟩)
    · exact ⟨before, after ++ [commit], List.append_assoc .., hstart, last,
        List.mem_append_left _ hlast, hfinish⟩
    · exact ⟨commits, [commit], rfl, hstart, commit, List.mem_singleton_self _, hfinish⟩

/-- What a transaction for a job makes of the row of one of its stages. -/
def stageAfter (jobId nowUtc : Text) (stage : ℕ) (row : Option StageRecord) :
    Change → Option StageRecord
  | .stageStarted started =>
    if started = stage then
      some (row.elim ⟨jobId, stage, nowUtc, none, "running".toList, none⟩
        fun row ↦ { row with startedUtc := nowUtc })
    else row
  | .stageFinished finished result notes _ =>
    if finished = stage then
      row.map fun row ↦ { row with endedUtc := some nowUtc, result := result, notes := some notes }
    else row
  | _ => row

theorem find_stages_execute (database : Database) (commit : Commit) (jobId : Text) (stage : ℕ) :
    (database.execute commit).stages.find (jobId, stage) =
      if commit.jobId = jobId then
        stageAfter jobId (fromUnixMillis commit.millis) stage
          (database.stages.find (jobId, stage)) commit.change
      else database.stages.find (jobId, stage) := by
  unfold Database.execute stageAfter
  cases commit.change with
  | openJob catalogVersion => rw [ite_self]
  | stageStarted started =>
    dsimp only
    rw [Table.find_upsert]
    by_cases hjob : commit.jobId = jobId <;> by_cases hstage : started = stage <;>
      simp [hjob, hstage]
  | stageFinished finished result notes lastSeq =>
    dsimp only
    rw [Table.find_update]
    by_cases hjob : commit.jobId = jobId <;> by_cases hstage : finished = stage <;>
      simp [hjob, hstage]
  | jobFinished status lastSeq => rw [ite_self]

theorem run_concat_commit (commits : List Commit) (commit : Commit) :
    Database.run (commits ++ [commit]) = (Database.run commits).execute commit := by
  rw [Database.run, List.foldl_append, List.foldl_cons, List.foldl_nil, Database.run]

/-- A stage has a row once it was started. -/
theorem find_stages_run_isSome_iff (commits : List Commit) (jobId : Text) (stage : ℕ) :
    ((Database.run commits).stages.find (jobId, stage)).isSome ↔
      ∃ commit ∈ commits, commit.Starts jobId stage := by
  induction commits using List.reverseRecOn with
  | nil => simp [Database.run, Database.fresh]
  | append_singleton commits commit ih =>
    have hstep : (((Database.run commits).execute commit).stages.find (jobId, stage)).isSome ↔
        ((Database.run commits).stages.find (jobId, stage)).isSome ∨ commit.Starts jobId stage := by
      rw [find_stages_execute]
      unfold stageAfter Commit.Starts
      cases commit.change <;> grind
    rw [run_concat_commit, hstep, ih]
    simp [List.mem_append, or_and_right, exists_or]

/-- A stage that has a row gets an end when it is finished, and keeps the one it has. -/
theorem endedUtc_stageAfter_iff {jobId nowUtc : Text} {stage : ℕ} {row : Option StageRecord}
    {change : Change} :
    (∃ after, stageAfter jobId nowUtc stage row change = some after ∧ after.endedUtc.isSome) ↔
      (∃ before, row = some before ∧ before.endedUtc.isSome) ∨
        row.isSome ∧ ∃ result notes lastSeq,
          change = .stageFinished stage result notes lastSeq := by
  cases change with
  | openJob catalogVersion => simp [stageAfter]
  | stageStarted started =>
    cases row <;> by_cases hstage : started = stage <;> simp [stageAfter, hstage]
  | stageFinished finished result notes lastSeq =>
    cases row <;> by_cases hstage : finished = stage <;> simp [stageAfter, hstage]
  | jobFinished status lastSeq => simp [stageAfter]

/-- A stage has an end once it was finished after it was started. -/
theorem endedUtc_run_iff (commits : List Commit) (jobId : Text) (stage : ℕ) :
    (∃ row, (Database.run commits).stages.find (jobId, stage) = some row ∧ row.endedUtc.isSome) ↔
      Completes commits jobId stage := by
  induction commits using List.reverseRecOn with
  | nil =>
    constructor
    · rintro ⟨row, hrow, -⟩
      exact nomatch hrow
    · rintro ⟨before, after, hnil, ⟨commit, hcommit, -⟩, -⟩
      rw [(List.append_eq_nil_iff.mp hnil.symm).1] at hcommit
      exact absurd hcommit List.not_mem_nil
  | append_singleton commits commit ih =>
    have hstarted := find_stages_run_isSome_iff commits jobId stage
    rw [run_concat_commit, completes_concat, ← ih, ← hstarted, find_stages_execute]
    unfold Commit.Finishes
    split_ifs with hjob
    · rw [endedUtc_stageAfter_iff, hjob, eq_self, true_and]
    · simp [hjob]

/-! ## What a reader is told -/

theorem length_ended (commits : List Commit) (jobId : Text) :
    ((Database.run commits).stages.rows.filter fun stage ↦
      decide (stage.jobId = jobId) && stage.endedUtc.isSome).length =
        {stage | Completes commits jobId stage}.ncard := by
  generalize hended : ((Database.run commits).stages.rows.filter fun stage ↦
    decide (stage.jobId = jobId) && stage.endedUtc.isSome) = ended
  have hmem {row : StageRecord} : row ∈ ended ↔ row ∈ (Database.run commits).stages.rows ∧
      row.jobId = jobId ∧ row.endedUtc.isSome := by
    rw [← hended, List.mem_filter, Bool.and_eq_true, decide_eq_true_iff]
  have hstages : {stage | Completes commits jobId stage} =
      ((ended.map StageRecord.stage).toFinset : Set ℕ) := by
    ext stage
    change Completes commits jobId stage ↔ _
    rw [← endedUtc_run_iff, Finset.mem_coe, List.mem_toFinset, List.mem_map]
    constructor
    · rintro ⟨row, hrow, hend⟩
      have hkey : row.key = (jobId, stage) := Table.key_of_find hrow
      obtain ⟨hjob, hstage⟩ := Prod.mk.inj hkey
      have hkept := Table.mem_rows_iff.mpr (hkey.symm ▸ hrow)
      exact ⟨row, hmem.mpr ⟨hkept, hjob, hend⟩, hstage⟩
    · rintro ⟨row, hrow, rfl⟩
      obtain ⟨hkept, rfl, hend⟩ := hmem.mp hrow
      exact ⟨row, Table.mem_rows_iff.mp hkept, hend⟩
  have hnodup : (ended.map StageRecord.stage).Nodup := by
    have hkeys : (ended.map StageRecord.key).Nodup := by
      rw [← hended]
      exact ((List.filter_sublist).map _).nodup (Database.run commits).stages.nodup
    refine (List.nodup_map_iff_inj_on hkeys.of_map).mpr fun row hrow other hother hsame ↦ ?_
    have hjobs := (hmem.mp hrow).2.1.trans (hmem.mp hother).2.1.symm
    exact List.inj_on_of_nodup_map hkeys hrow hother (Prod.ext hjobs hsame)
  rw [hstages, Set.ncard_coe_finset, List.toFinset_card_of_nodup hnodup, List.length_map]

theorem millis_lt_of_createdAt {commits : List Commit} {jobId : Text} {millis bound : ℕ}
    (hbound : ∀ commit ∈ commits, commit.millis < bound)
    (h : createdAt commits jobId = some millis) :
    millis < bound := by
  obtain ⟨first, hfirst, rfl⟩ := Option.map_eq_some_iff.mp h
  have hlisted := (List.dropWhile_sublist _).subset (List.mem_of_mem_head? hfirst)
  exact hbound first (List.mem_filter.mp hlisted).1

/-- Until the year 10000 the later timestamp is the later time. -/
theorem fromUnixMillis_lt_iff {days millis later : ℕ}
    (hdays : Time.Date.next^[days] epoch = ⟨10000, 1, 1⟩) (hmillis : millis < days * 86400000)
    (hlater : later < days * 86400000) : fromUnixMillis millis < fromUnixMillis later ↔
      millis < later := by
  rw [fromUnixMillis_eq_iso hdays hmillis, fromUnixMillis_eq_iso hdays hlater]
  constructor
  · intro h
    by_contra hle
    rcases Nat.eq_or_lt_of_not_lt hle with rfl | hless
    · exact lt_irrefl _ h
    · exact lt_asymm h (iso_lt_iso hless (fits_instantOf hdays hmillis))
  · exact fun h ↦ iso_lt_iso h (fits_instantOf hdays hlater)

/-- Whatever the brokers of any number of jobs committed, in whatever order, a read may return just
the last that was committed for a job than which no other was first opened later. -/
theorem mem_reads_iff {days : ℕ} {commits : List Commit} {state : JobState}
    (hdays : Time.Date.next^[days] epoch = ⟨10000, 1, 1⟩)
    (hclock : ∀ commit ∈ commits, commit.millis < days * 86400000) :
    state ∈ (Database.run commits).reads ↔
      (∃ millis, createdAt commits state.jobId = some millis ∧
        ∀ jobId other, createdAt commits jobId = some other → other ≤ millis) ∧
      state.IsLastOf commits := by
  have hrow {row : JobRecord} : row ∈ (Database.run commits).jobs.rows ↔
      (Database.run commits).jobs.find row.id = some row := Table.mem_rows_iff
  rw [Database.reads, List.mem_map]
  constructor
  · rintro ⟨row, hmem, rfl⟩
    rw [List.mem_filter, List.all_eq_true] at hmem
    obtain ⟨hrows, hlast⟩ := hmem
    have hfound := hrow.mp hrows
    cases hcreated : createdAt commits row.id with
    | none =>
      rw [find_run_of_none hcreated] at hfound
      exact nomatch hfound
    | some millis =>
      obtain ⟨row', hfound', hutc, hstatus, hlastSeq⟩ := exists_find_run hcreated
      obtain rfl := Option.some.inj (hfound.symm.trans hfound')
      refine ⟨⟨millis, hcreated, fun jobId other hother ↦ ?_⟩, hstatus, hlastSeq,
        (length_ended commits row.id).symm⟩
      obtain ⟨row', hfound', hutc', -, -⟩ := exists_find_run hother
      have hnot := hlast row' (Table.mem_rows_iff.mpr ((Table.key_of_find hfound').symm ▸ hfound'))
      rw [Bool.not_eq_true', decide_eq_false_iff_not, hutc, hutc', fromUnixMillis_lt_iff hdays
        (millis_lt_of_createdAt hclock hcreated) (millis_lt_of_createdAt hclock hother)] at hnot
      exact Nat.not_lt.mp hnot
  · rintro ⟨⟨millis, hcreated, hlatest⟩, hstatus, hlastSeq, hstages⟩
    obtain ⟨row, hfound, hutc, hstatus', hlastSeq'⟩ := exists_find_run hcreated
    have hid := Table.key_of_find hfound
    refine ⟨row, ?_, ?_⟩
    · rw [List.mem_filter, List.all_eq_true]
      refine ⟨Table.mem_rows_iff.mpr (hid.symm ▸ hfound), fun other hother ↦ ?_⟩
      cases hcreated' : createdAt commits other.id with
      | none =>
        have hfound' := hrow.mp hother
        rw [find_run_of_none hcreated'] at hfound'
        exact nomatch hfound'
      | some millis' =>
        obtain ⟨other', hfound', hutc', -, -⟩ := exists_find_run hcreated'
        obtain rfl := Option.some.inj ((hrow.mp hother).symm.trans hfound')
        rw [Bool.not_eq_true', decide_eq_false_iff_not, hutc, hutc', fromUnixMillis_lt_iff hdays
          (millis_lt_of_createdAt hclock hcreated) (millis_lt_of_createdAt hclock hcreated')]
        exact Nat.not_lt.mpr (hlatest other.id millis' hcreated')
    · obtain ⟨jobId, status, lastSeq, stagesCompleted⟩ := state
      dsimp only at hid hstatus hlastSeq hstages hstatus' hlastSeq'
      subst hid
      rw [hstatus] at hstatus'
      rw [Database.stateOf, length_ended, ← Option.some.inj hstatus', ← hlastSeq',
        hlastSeq, hstages]

/-- A broker that is started again on its job, after another job was opened. -/
def reopenedBehind : List Commit :=
  [⟨"s3-a".toList, 1000, .openJob "0".toList⟩, ⟨"s3-a".toList, 1001, .stageStarted 0⟩,
    ⟨"s3-a".toList, 1002, .stageFinished 0 "ok".toList "synthetic".toList 1⟩,
    ⟨"s3-b".toList, 2000, .openJob "0".toList⟩, ⟨"s3-a".toList, 3000, .openJob "0".toList⟩]

/-- The reader is told of the job that was created last, not of the one that is running. -/
theorem mem_reads_reopenedBehind :
    (⟨"s3-b".toList, "running".toList, 0, 0⟩ : JobState) ∈ (Database.run reopenedBehind).reads ↔
      (∃ millis, createdAt reopenedBehind "s3-b".toList = some millis ∧
        ∀ jobId other, createdAt reopenedBehind jobId = some other → other ≤ millis) ∧
      JobState.IsLastOf reopenedBehind ⟨"s3-b".toList, "running".toList, 0, 0⟩ :=
  mem_reads_iff iterate_next_yearTenThousand (by simp [reopenedBehind])

example : (Database.run reopenedBehind).reads = [⟨"s3-b".toList, "running".toList, 0, 0⟩] := by
  decide +kernel

end WardSweep.Broker
