import WardSweep.Ordered.Numbered
import WardSweep.Rust.Str

/-!
# The job and its event log

The job runs on a thread of its own: it records each stage in the store, and pushes an event for
everything it does to a log that readers slice.  The log restarts empty with every broker.
-/

namespace WardSweep.Broker

open Utf8 Str Ordered

/-! ## Events -/

/-- Protocol version carried in every envelope. -/
def protocolVersion : ℕ := 1

/-- What an event tells.  The arguments of a progress event are its tick and the number of them. -/
inductive Payload where
  | stageEvent (jobId : Text) (stage : ℕ) (state messageKey : Text) (args : Option (ℕ × ℕ))
  | jobComplete (jobId status : Text) (residualCount : ℕ)
  deriving DecidableEq, Repr

/-- The type of an event on the wire. -/
def Payload.kind : Payload → Text
  | .stageEvent .. => "StageEvent".toList
  | .jobComplete .. => "JobComplete".toList

/-- One event on the wire. -/
structure Envelope where
  v : ℕ
  id : Option Text
  kind : Text
  /-- Monotonic event sequence number, absent on commands and responses. -/
  seq : Option ℕ
  payload : Payload
  deriving DecidableEq, Repr

/-- An event: its id is null and its sequence number is set. -/
def Envelope.event (seq : ℕ) (payload : Payload) : Envelope :=
  ⟨protocolVersion, none, payload.kind, some seq, payload⟩

/-! ## The log -/

/-- Everything a reader needs, guarded by one lock. -/
structure EventLog where
  /-- Every event produced so far.  The sequence number is the index plus one. -/
  events : List Envelope
  finished : Bool
  deriving DecidableEq, Repr

/-- The log of a job that has done nothing yet. -/
def EventLog.empty : EventLog := ⟨[], false⟩

/-- Push an event under the next sequence number. -/
def EventLog.push (log : EventLog) (payload : Payload) : EventLog :=
  { log with events := log.events ++ [.event (log.events.length + 1) payload] }

/-- Push the last event and finish, in one critical section. -/
def EventLog.complete (log : EventLog) (payload : Payload) : EventLog :=
  { log.push payload with finished := true }

/-- The highest sequence number produced so far. -/
def EventLog.lastSeq (log : EventLog) : ℕ := log.events.length

/-- Events with a sequence number greater than `after`, and whether the job has finished.  The wait
before this ends when there is such an event, when the job ends, or at a timeout. -/
def EventLog.eventsAfter (log : EventLog) (after : ℕ) : List Envelope × Bool :=
  (log.events.drop (min after log.events.length), log.finished)

/-! ## The thread -/

/-- One thing the job thread does. -/
inductive Action where
  | stageStarted (stage : ℕ)
  | push (payload : Payload)
  /-- The number of events so far is read under the lock, for the commit that follows. -/
  | readLastSeq
  | stageFinished (stage : ℕ)
  | jobFinished
  | complete (payload : Payload)
  deriving DecidableEq, Repr

/-- The names of the stages, in order. -/
def stageKeys : List Text :=
  ["preflight", "plan", "vendor_uninstall", "services", "reboot", "residue_sweep",
    "verify"].map String.toList

/-- What a stage does.  A checkpoint only moves what is committed, so it is left out. -/
def stageActions (jobId : Text) (ticksPerStage stage : ℕ) (key : Text) : List Action :=
  let event := fun (state : String) (args : Option (ℕ × ℕ)) ↦
    Action.push (.stageEvent jobId stage state.toList
      ("stage.".toList ++ key ++ '.' :: state.toList) args)
  [.stageStarted stage, event "started" none] ++
    ((List.range ticksPerStage).map fun tick ↦
      event "progress" (some (tick + 1, ticksPerStage))) ++
    [.readLastSeq, .stageFinished stage, event "done" none]

/-- What the thread does, from the first stage to the end of the job. -/
def script (jobId : Text) (ticksPerStage : ℕ) : List Action :=
  (stageKeys.zipIdx.flatMap fun stage ↦ stageActions jobId ticksPerStage stage.2 stage.1) ++
    [.readLastSeq, .jobFinished, .complete (.jobComplete jobId "completed".toList 0)]

/-- A running job: its log, the number last read from it, and what the thread has yet to do. -/
structure JobThread where
  log : EventLog
  lastSeq : ℕ
  rest : List Action
  deriving DecidableEq, Repr

/-- Start the job on its own thread. -/
def JobThread.start (jobId : Text) (ticksPerStage : ℕ) : JobThread :=
  ⟨.empty, 0, script jobId ticksPerStage⟩

/-- What an action does to the log. -/
def EventLog.act (log : EventLog) : Action → EventLog
  | .push payload => log.push payload
  | .complete payload => log.complete payload
  | _ => log

/-- The thread does the next thing. -/
def JobThread.step (job : JobThread) : Option (Action × JobThread) :=
  match job.rest with
  | [] => none
  | action :: rest =>
    some (action,
      { log := job.log.act action
        lastSeq := if action = .readLastSeq then job.log.lastSeq else job.lastSeq
        rest := rest })

/-- The log of a job that has done everything. -/
def finalLog (jobId : Text) (ticksPerStage : ℕ) : EventLog :=
  (script jobId ticksPerStage).foldl EventLog.act .empty

/-! ## What the thread keeps -/

theorem events_prefix_act (log : EventLog) (action : Action) :
    log.events <+: (log.act action).events := by
  cases action with
  | push payload => exact List.prefix_append _ _
  | complete payload => exact List.prefix_append _ _
  | stageStarted stage => exact List.prefix_rfl
  | readLastSeq => exact List.prefix_rfl
  | stageFinished stage => exact List.prefix_rfl
  | jobFinished => exact List.prefix_rfl

theorem events_prefix_foldl_act (log : EventLog) (actions : List Action) :
    log.events <+: (actions.foldl EventLog.act log).events := by
  induction actions generalizing log with
  | nil => exact List.prefix_rfl
  | cons action actions ih => exact (events_prefix_act log action).trans (ih _)

theorem numbered_push {log : EventLog} (h : Numbered Envelope.seq log.events) (payload : Payload) :
    Numbered Envelope.seq (log.push payload).events := h.concat rfl

theorem numbered_act {log : EventLog} (h : Numbered Envelope.seq log.events) (action : Action) :
    Numbered Envelope.seq (log.act action).events := by
  cases action with
  | push payload => exact numbered_push h payload
  | complete payload => exact numbered_push h payload
  | stageStarted stage => exact h
  | readLastSeq => exact h
  | stageFinished stage => exact h
  | jobFinished => exact h

/-- The action ends the job. -/
def Action.IsComplete (action : Action) : Prop := ∃ payload, action = .complete payload

theorem act_finished_of_not_isComplete {action : Action} (h : ¬ action.IsComplete)
    (log : EventLog) : (log.act action).finished = log.finished := by
  cases action with
  | complete payload => exact absurd ⟨payload, rfl⟩ h
  | push payload => rfl
  | stageStarted stage => rfl
  | readLastSeq => rfl
  | stageFinished stage => rfl
  | jobFinished => rfl

/-- The job ends with the last action, and only with it. -/
def EndsLast (log : EventLog) (rest : List Action) : Prop :=
  rest = [] ∧ log.finished = true ∨
    log.finished = false ∧ ∃ front payload, rest = front ++ [.complete payload] ∧
      ∀ action ∈ front, ¬ action.IsComplete

theorem EndsLast.step {log : EventLog} {action : Action} {rest : List Action}
    (h : EndsLast log (action :: rest)) : EndsLast (log.act action) rest := by
  cases h with
  | inl hended => exact absurd hended.1 (List.cons_ne_nil _ _)
  | inr hrunning =>
    obtain ⟨hfinished, front, payload, hrest, hfront⟩ := hrunning
    cases front with
    | nil =>
      obtain ⟨rfl, rfl⟩ := List.cons.inj hrest
      exact .inl ⟨rfl, rfl⟩
    | cons first front =>
      obtain ⟨rfl, rfl⟩ := List.cons.inj hrest
      have hfirst := hfront action List.mem_cons_self
      refine .inr ⟨?_, front, payload, rfl, fun other hother ↦
        hfront other (List.mem_cons_of_mem _ hother)⟩
      rw [act_finished_of_not_isComplete hfirst, hfinished]

/-- Nothing a stage does ends the job. -/
theorem not_isComplete_of_mem_stageActions {jobId : Text} {ticksPerStage stage : ℕ} {key : Text}
    {action : Action} (h : action ∈ stageActions jobId ticksPerStage stage key) :
    ¬ action.IsComplete := by
  rintro ⟨payload, rfl⟩
  simp [stageActions] at h

theorem endsLast_script (jobId : Text) (ticksPerStage : ℕ) :
    EndsLast .empty (script jobId ticksPerStage) := by
  refine .inr ⟨rfl, (stageKeys.zipIdx.flatMap fun stage ↦
    stageActions jobId ticksPerStage stage.2 stage.1) ++ [.readLastSeq, .jobFinished],
      .jobComplete jobId "completed".toList 0, by simp [script], ?_⟩
  intro action haction
  rcases List.mem_append.mp haction with hstages | hend
  · obtain ⟨stage, -, hstage⟩ := List.mem_flatMap.mp hstages
    exact not_isComplete_of_mem_stageActions hstage
  · rintro ⟨payload, rfl⟩
    simp at hend

/-- What holds of a job at any point of its run. -/
structure JobThread.OnTrack (jobId : Text) (ticksPerStage : ℕ) (job : JobThread) : Prop where
  numbered : Numbered Envelope.seq job.log.events
  endsLast : EndsLast job.log job.rest
  leads : job.rest.foldl EventLog.act job.log = finalLog jobId ticksPerStage

namespace JobThread

variable {jobId : Text} {ticksPerStage : ℕ} {job job' : JobThread} {action : Action}

theorem onTrack_start (jobId : Text) (ticksPerStage : ℕ) :
    (start jobId ticksPerStage).OnTrack jobId ticksPerStage where
  numbered := numbered_nil
  endsLast := endsLast_script jobId ticksPerStage
  leads := rfl

theorem step_eq_some_iff : job.step = some (action, job') ↔
    ∃ rest, job.rest = action :: rest ∧ job' =
      { log := job.log.act action
        lastSeq := if action = .readLastSeq then job.log.lastSeq else job.lastSeq
        rest := rest } := by
  unfold step
  cases hrest : job.rest with
  | nil => simp
  | cons first rest =>
    simp only [Option.some.injEq, Prod.mk.injEq, List.cons.injEq]
    constructor
    · rintro ⟨rfl, rfl⟩
      exact ⟨rest, ⟨rfl, rfl⟩, rfl⟩
    · rintro ⟨_, ⟨rfl, rfl⟩, rfl⟩
      exact ⟨rfl, rfl⟩

theorem OnTrack.step (h : job.OnTrack jobId ticksPerStage)
    (hstep : job.step = some (action, job')) :
    job'.OnTrack jobId ticksPerStage := by
  obtain ⟨rest, hrest, rfl⟩ := step_eq_some_iff.mp hstep
  have hends := h.endsLast
  have hleads := h.leads
  rw [hrest] at hends hleads
  exact ⟨numbered_act h.numbered action, hends.step, hleads⟩

/-- The log grows towards that of the whole job. -/
theorem OnTrack.events_grow (h : job.OnTrack jobId ticksPerStage) :
    job.log.events <+: (finalLog jobId ticksPerStage).events := by
  rw [← h.leads]
  exact events_prefix_foldl_act _ _

/-- A finished job has nothing left to do. -/
theorem OnTrack.rest_eq_nil (h : job.OnTrack jobId ticksPerStage)
    (hfinished : job.log.finished = true) : job.rest = [] := by
  cases h.endsLast with
  | inl hended => exact hended.1
  | inr hrunning => exact absurd (hfinished.symm.trans hrunning.1) (by decide)

/-- The log of a finished job is that of the whole job. -/
theorem OnTrack.log_eq (h : job.OnTrack jobId ticksPerStage)
    (hfinished : job.log.finished = true) : job.log = finalLog jobId ticksPerStage := by
  have hleads := h.leads
  rwa [h.rest_eq_nil hfinished] at hleads

end JobThread

/-- The last event of the whole job says that it is complete. -/
theorem getLast?_finalLog (jobId : Text) (ticksPerStage : ℕ) :
    ∃ last, (finalLog jobId ticksPerStage).events.getLast? = some last ∧
      last.payload = .jobComplete jobId "completed".toList 0 := by
  unfold finalLog script
  rw [List.foldl_append]
  simp only [List.foldl_cons, List.foldl_nil, EventLog.act, EventLog.complete, EventLog.push,
    List.getLast?_append, List.getLast?_singleton, Option.some_or]
  exact ⟨_, rfl, rfl⟩

end WardSweep.Broker
