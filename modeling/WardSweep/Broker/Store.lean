import WardSweep.Broker.Job

/-!
# The stored resume point

The job's row outlives the broker and the event log does not: a broker that is started again finds
the row where the last commit left it, and an empty log.  Transactions of the store are atomic, and
one that fails is logged and passed over.
-/

namespace WardSweep.Broker

open Utf8

/-! ## The store -/

/-- The row of the job.  Its times are left out. -/
structure JobRow where
  id : Text
  status : Text
  catalogVersion : Text
  /-- How far the event stream had got at the last commit. -/
  lastSeq : ℕ
  deriving DecidableEq, Repr

/-- The row of one of its stages. -/
structure StageRow where
  stage : ℕ
  result : Text
  notes : Option Text
  deriving DecidableEq, Repr

/-- What the database holds of one job. -/
structure JobStore where
  job : Option JobRow
  stages : List StageRow
  deriving DecidableEq, Repr

namespace JobStore

variable (store : JobStore)

/-- A number as the column stores it. -/
def column (number : ℕ) : ℕ := min number (2 ^ 63 - 1)

/-- Open the database and start a job row: on a conflict only the status changes. -/
def openJob (jobId catalogVersion : Text) : JobStore :=
  { store with
    job := some <| match store.job with
      | none => ⟨jobId, "running".toList, catalogVersion, 0⟩
      | some row => { row with status := "running".toList } }

def stageStarted (stage : ℕ) : JobStore :=
  if store.stages.any fun row ↦ row.stage == stage then store
  else { store with stages := store.stages ++ [⟨stage, "running".toList, none⟩] }

/-- Record that a stage finished, and how far the event stream has got. -/
def stageFinished (stage : ℕ) (result notes : Text) (lastSeq : ℕ) : JobStore where
  job := store.job.map fun row ↦ { row with lastSeq := column lastSeq }
  stages := store.stages.map fun row ↦
    if row.stage = stage then { row with result := result, notes := some notes } else row

def jobFinished (status : Text) (lastSeq : ℕ) : JobStore :=
  { store with
    job := store.job.map fun row ↦ { row with status := status, lastSeq := column lastSeq } }

/-- What an action of the job thread writes. -/
def act (lastSeq : ℕ) : Action → JobStore
  | .stageStarted stage => store.stageStarted stage
  | .stageFinished stage => store.stageFinished stage "ok".toList "synthetic".toList lastSeq
  | .jobFinished => store.jobFinished "completed".toList lastSeq
  | _ => store

end JobStore

/-! ## Runs -/

/-- The database, and the job of the broker that is running, if it was given one. -/
structure Machine where
  store : JobStore
  job : Option JobThread
  deriving DecidableEq, Repr

/-- A machine on which the session has run no job. -/
def Machine.fresh : Machine := ⟨⟨none, []⟩, none⟩

/-- One thing that happens to the machine. -/
inductive Incident where
  /-- `ApplyPlan`, to a broker started with these options. -/
  | applyPlan (ticksPerStage : ℕ) (catalogVersion : Text)
  /-- The job thread does the next thing; what it writes to the store lands or fails. -/
  | act (lands : Bool)
  /-- The broker is killed. -/
  | kill
  deriving DecidableEq, Repr

/-- What an incident makes of the machine.  A broker that has a job starts no other. -/
def Machine.step (jobId : Text) (machine : Machine) : Incident → Option Machine
  | .applyPlan ticksPerStage catalogVersion =>
    match machine.job with
    | some _ => some machine
    | none =>
      some ⟨machine.store.openJob jobId catalogVersion, some (.start jobId ticksPerStage)⟩
  | .act lands =>
    machine.job.bind fun job ↦ job.step.map fun (action, next) ↦
      ⟨if lands then machine.store.act job.lastSeq action else machine.store, some next⟩
  | .kill => some { machine with job := none }

/-- All that happens to the machine, one incident after the other. -/
def Machine.run (jobId : Text) (machine : Machine) (incidents : List Incident) : Option Machine :=
  incidents.foldlM (Machine.step jobId) machine

/-- The recorded resume point is not ahead of the stream of the current run. -/
def Machine.ResumesInStream (machine : Machine) : Prop :=
  ∀ job ∈ machine.job, ∀ row ∈ machine.store.job, row.lastSeq ≤ job.log.events.length

/-- Nothing that a run committed is recorded. -/
def JobStore.RecordsNothing (store : JobStore) : Prop := ∀ row ∈ store.job, row.lastSeq = 0

/-- At every moment of a run the resume point is within the stream. -/
def AlwaysResumesInStream (jobId : Text) (incidents : List Incident) : Prop :=
  ∀ before after machine, incidents = before ++ after →
    Machine.fresh.run jobId before = some machine → machine.ResumesInStream

/-- No job of a run is started over a record that an earlier run left. -/
def StartsOverNothing (jobId : Text) (incidents : List Incident) : Prop :=
  ∀ before after ticksPerStage catalogVersion machine,
    incidents = before ++ .applyPlan ticksPerStage catalogVersion :: after →
      Machine.fresh.run jobId before = some machine → machine.job = none →
        machine.store.RecordsNothing

/-! ## What every step keeps -/

/-- What a running job has read from its log, and what it has committed, is in the log. -/
structure Machine.Holds (machine : Machine) : Prop where
  read : ∀ job ∈ machine.job, job.lastSeq ≤ job.log.events.length
  committed : machine.ResumesInStream

theorem column_le (number : ℕ) : JobStore.column number ≤ number := Nat.min_le_left _ _

/-- The resume point that an action leaves is the one before, or what the thread had read. -/
theorem lastSeq_act {store : JobStore} {lastSeq : ℕ} {action : Action} {row : JobRow}
    (h : row ∈ (store.act lastSeq action).job) :
    (∃ old ∈ store.job, row.lastSeq = old.lastSeq) ∨ row.lastSeq ≤ lastSeq := by
  cases action with
  | stageStarted stage =>
    simp only [JobStore.act, JobStore.stageStarted] at h
    split_ifs at h
    · exact .inl ⟨row, h, rfl⟩
    · exact .inl ⟨row, h, rfl⟩
  | stageFinished stage =>
    obtain ⟨old, -, rfl⟩ := Option.map_eq_some_iff.mp h
    exact .inr (column_le lastSeq)
  | jobFinished =>
    obtain ⟨old, -, rfl⟩ := Option.map_eq_some_iff.mp h
    exact .inr (column_le lastSeq)
  | push payload => exact .inl ⟨row, h, rfl⟩
  | readLastSeq => exact .inl ⟨row, h, rfl⟩
  | complete payload => exact .inl ⟨row, h, rfl⟩

namespace Machine.Holds

variable {jobId : Text} {machine machine' : Machine}

theorem fresh : Machine.fresh.Holds where
  read _ hjob := nomatch hjob
  committed _ hjob := nomatch hjob

/-- The thread commits what it has read, and what it has read stays in the log. -/
theorem act (h : machine.Holds) {lands : Bool}
    (hstep : machine.step jobId (.act lands) = some machine') : machine'.Holds := by
  obtain ⟨job, hjob, hmap⟩ := Option.bind_eq_some_iff.mp hstep
  obtain ⟨⟨action, next⟩, hnext, rfl⟩ := Option.map_eq_some_iff.mp hmap
  obtain ⟨rest, -, rfl⟩ := JobThread.step_eq_some_iff.mp hnext
  have hgrows := (events_prefix_act job.log action).length_le
  have hread := h.read job hjob
  constructor
  · intro other hother
    obtain rfl := Option.some.inj hother
    dsimp only
    split_ifs
    · exact hgrows
    · exact hread.trans hgrows
  · intro other hother row hrow
    obtain rfl := Option.some.inj hother
    cases lands with
    | false => exact (h.committed job hjob row hrow).trans hgrows
    | true =>
      cases lastSeq_act hrow with
      | inl hkept =>
        obtain ⟨old, hold, hsame⟩ := hkept
        rw [hsame]
        exact (h.committed job hjob old hold).trans hgrows
      | inr hcommitted => exact (hcommitted.trans hread).trans hgrows

/-- A job that starts over nothing starts in step with its log. -/
theorem applyPlan (h : machine.Holds) {ticksPerStage : ℕ} {catalogVersion : Text}
    (hnothing : machine.job = none → machine.store.RecordsNothing)
    (hstep : machine.step jobId (.applyPlan ticksPerStage catalogVersion) = some machine') :
    machine'.Holds := by
  unfold Machine.step at hstep
  dsimp only at hstep
  cases hjob : machine.job with
  | some job =>
    rw [hjob] at hstep
    obtain rfl := Option.some.inj hstep
    exact h
  | none =>
    rw [hjob] at hstep
    obtain rfl := Option.some.inj hstep
    constructor
    · intro job hstarted
      obtain rfl := Option.some.inj hstarted
      exact Nat.le_refl 0
    · intro job hstarted row hrow
      obtain rfl := Option.some.inj hstarted
      obtain rfl := Option.some.inj hrow
      cases hold : machine.store.job with
      | none => exact Nat.le_refl 0
      | some old => exact (hnothing hjob old hold).le

theorem kill : ({ machine with job := none } : Machine).Holds where
  read _ hjob := nomatch hjob
  committed _ hjob := nomatch hjob

end Machine.Holds

theorem run_concat (jobId : Text) (machine : Machine) (before : List Incident)
    (incident : Incident) : machine.run jobId (before ++ [incident]) =
      (machine.run jobId before).bind fun next ↦ next.step jobId incident := by
  unfold Machine.run
  rw [List.foldlM_append]
  apply congrArg (Option.bind _)
  funext next
  exact bind_pure (next.step jobId incident)

/-- The resume point is within the stream at every moment exactly when no broker starts its job over
a resume point that an earlier one committed. -/
theorem alwaysResumesInStream_iff (jobId : Text) (incidents : List Incident) :
    AlwaysResumesInStream jobId incidents ↔ StartsOverNothing jobId incidents := by
  constructor
  · intro halways before after ticksPerStage catalogVersion machine hincidents hrun hjob row hrow
    have hstarted : Machine.fresh.run jobId (before ++ [.applyPlan ticksPerStage catalogVersion]) =
        some ⟨machine.store.openJob jobId catalogVersion, some (.start jobId ticksPerStage)⟩ := by
      rw [run_concat, hrun, Option.bind_some, Machine.step, hjob]
    have hresumes := halways _ after _ (by rw [hincidents, List.append_assoc]; rfl) hstarted
    have hkept : { row with status := "running".toList } ∈
        (machine.store.openJob jobId catalogVersion).job := by
      rw [JobStore.openJob, Option.mem_def.mp hrow]
      rfl
    have hle : ({ row with status := "running".toList } : JobRow).lastSeq ≤ 0 :=
      hresumes _ rfl _ hkept
    exact Nat.le_zero.mp hle
  · intro hstarts before
    have hholds : ∀ after machine, incidents = before ++ after →
        Machine.fresh.run jobId before = some machine → machine.Holds := by
      induction before using List.reverseRecOn with
      | nil =>
        intro after machine _ hrun
        obtain rfl := Option.some.inj hrun
        exact Machine.Holds.fresh
      | append_singleton before incident ih =>
        intro after machine hincidents hrun
        rw [run_concat] at hrun
        obtain ⟨previous, hprevious, hstep⟩ := Option.bind_eq_some_iff.mp hrun
        rw [List.append_assoc, List.singleton_append] at hincidents
        have hbefore := ih (incident :: after) previous hincidents hprevious
        cases incident with
        | applyPlan ticksPerStage catalogVersion =>
          exact hbefore.applyPlan (hstarts before after ticksPerStage catalogVersion previous
            hincidents hprevious) hstep
        | act lands => exact hbefore.act hstep
        | kill =>
          obtain rfl := Option.some.inj hstep
          exact Machine.Holds.kill
    intro after machine hincidents hrun
    exact (hholds after machine hincidents hrun).committed

/-- A broker that is killed after its first stage was committed, and one that is started after
it. -/
def killedAfterFirstStage : List Incident :=
  [.applyPlan 0 "1".toList, .act true, .act true, .act true, .act true, .kill,
    .applyPlan 0 "1".toList]

/-- The row says that one event was pushed, and the new log is empty. -/
theorem not_alwaysResumesInStream_killedAfterFirstStage :
    ¬ ∀ incidents, AlwaysResumesInStream "s3-a".toList incidents := by
  intro halways
  have hahead : ((Machine.fresh.run "s3-a".toList killedAfterFirstStage).map fun machine ↦
      (machine.job.map fun job ↦ job.log.events.length, machine.store.job.map JobRow.lastSeq)) =
        some (some 0, some 1) := by decide
  obtain ⟨machine, hrun, hpair⟩ := Option.map_eq_some_iff.mp hahead
  obtain ⟨hjob, hrow⟩ := Prod.mk.inj hpair
  obtain ⟨job, hjob, hpushed⟩ := Option.map_eq_some_iff.mp hjob
  obtain ⟨row, hrow, hrecorded⟩ := Option.map_eq_some_iff.mp hrow
  have hle := halways killedAfterFirstStage killedAfterFirstStage [] machine (by simp) hrun job hjob
    row hrow
  omega

end WardSweep.Broker
