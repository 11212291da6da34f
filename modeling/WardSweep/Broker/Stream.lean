import WardSweep.Broker.Job

/-!
# The event stream across reconnects

One client at a time is served.  It asks for the stream from the last event it received, the broker
slices the log there and writes what it sliced, one event after the other, and the connection can
break at any point: what was written and not received yet is then lost.
-/

namespace WardSweep.Broker

open Utf8 Ordered

/-! ## Connections -/

/-- How a client asks for the stream: the resume point of its `Hello`, if it sent one, and then one
of the two commands that stream. -/
inductive Opening where
  | applyPlan (resumeFrom : Option ℕ)
  | jobResume (resumeFrom fromSeq : Option ℕ)
  deriving DecidableEq, Repr

/-- Where the stream starts: `serve_client`'s cursor. -/
def Opening.cursor : Opening → ℕ
  | .applyPlan resumeFrom => resumeFrom.getD 0
  | .jobResume resumeFrom fromSeq => fromSeq.getD (resumeFrom.getD 0)

/-- Where the loop of `stream` is. -/
inductive Phase where
  | fetching
  /-- What the slice still holds, and whether the job had finished when it was taken. -/
  | writing (pending : List Envelope) (finished : Bool)
  | complete
  deriving DecidableEq, Repr

/-- A client being served.  The wire holds what was written and not received yet. -/
structure Connection where
  cursor : ℕ
  phase : Phase
  wire : List Envelope
  deriving DecidableEq, Repr

/-- The broker's job, the client it serves, and what that client received over all its
connections. -/
structure Session where
  job : Option JobThread
  connection : Option Connection
  received : List Envelope
  deriving DecidableEq, Repr

/-- A broker without a job, and a client that has received nothing. -/
def Session.idle : Session := ⟨none, none, []⟩

/-- The log of the job, when there is one. -/
def Session.log (session : Session) : EventLog := session.job.elim .empty JobThread.log

/-- One thing that happens. -/
inductive Event where
  /-- The job thread does the next thing. -/
  | job
  | connect (opening : Opening)
  | fetch
  | write
  /-- The completion test, in a critical section of its own. -/
  | check
  | deliver
  | disconnect
  deriving DecidableEq, Repr

/-- A client connects and asks for the stream from the last event it received.  Without a job
`ApplyPlan` starts one, and there is nothing to resume. -/
def Session.connect (jobId : Text) (ticksPerStage : ℕ) (session : Session) (opening : Opening) :
    Option Session :=
  if session.connection.isSome ∨ opening.cursor ≠ lastNumber Envelope.seq session.received then none
  else
    match session.job, opening with
    | none, .jobResume .. => some session
    | none, .applyPlan .. =>
      some { session with
        job := some (.start jobId ticksPerStage)
        connection := some ⟨opening.cursor, .fetching, []⟩ }
    | some _, _ => some { session with connection := some ⟨opening.cursor, .fetching, []⟩ }

/-- One step of the loop of `stream`. -/
def Connection.stream (connection : Connection) (log : EventLog) : Event → Option Connection
  | .fetch =>
    match connection.phase with
    | .fetching =>
      some { connection with
        phase := .writing (log.eventsAfter connection.cursor).1
          (log.eventsAfter connection.cursor).2 }
    | _ => none
  | .write =>
    match connection.phase with
    | .writing (event :: pending) finished =>
      some
        { cursor := event.seq.getD (connection.cursor + 1)
          phase := .writing pending finished
          wire := connection.wire ++ [event] }
    | _ => none
  | .check =>
    match connection.phase with
    | .writing [] finished =>
      some { connection with
        phase := if finished ∧ log.lastSeq ≤ connection.cursor then .complete else .fetching }
    | _ => none
  | _ => none

/-- The broker and its client take a step. -/
def Session.step (jobId : Text) (ticksPerStage : ℕ) (session : Session) (event : Event) :
    Option Session :=
  match event with
  | .job =>
    (session.job.bind JobThread.step).map fun next ↦ { session with job := some next.2 }
  | .connect opening => session.connect jobId ticksPerStage opening
  | .deliver =>
    session.connection.bind fun connection ↦
      match connection.wire with
      | [] => none
      | event :: wire =>
        some { session with
          connection := some { connection with wire := wire }
          received := session.received ++ [event] }
  | .disconnect => some { session with connection := none }
  | event =>
    (session.connection.bind fun connection ↦ connection.stream session.log event).map
      fun connection ↦ { session with connection := some connection }

/-- Everything that happens, one step after the other. -/
def Session.run (jobId : Text) (ticksPerStage : ℕ) (session : Session) (events : List Event) :
    Option Session :=
  events.foldlM (Session.step jobId ticksPerStage) session

/-! ## What every step keeps -/

/-- What the loop knows of the log. -/
def Phase.Holds (log : EventLog) (cursor : ℕ) : Phase → Prop
  | .fetching => True
  | .writing pending finished =>
    pending <+: log.events.drop cursor ∧ (finished = true → log.finished = true)
  | .complete => log.finished = true ∧ log.events.length ≤ cursor

/-- What was received and what is on the wire is the log up to the cursor. -/
structure Connection.Holds (log : EventLog) (received : List Envelope) (connection : Connection) :
    Prop where
  cursor_le : connection.cursor ≤ log.events.length
  sent : received ++ connection.wire = log.events.take connection.cursor
  phase : connection.phase.Holds log connection.cursor

/-- What holds of the broker and its client at any time. -/
structure Session.Holds (jobId : Text) (ticksPerStage : ℕ) (session : Session) : Prop where
  onTrack : ∀ job ∈ session.job, job.OnTrack jobId ticksPerStage
  received : session.received <+: session.log.events
  connection : ∀ connection ∈ session.connection, connection.Holds session.log session.received

variable {jobId : Text} {ticksPerStage : ℕ}

theorem Phase.Holds.mono {log log' : EventLog} {cursor : ℕ} {phase : Phase}
    (h : phase.Holds log cursor) (hevents : log.events <+: log'.events)
    (hfinished : log.finished = true → log' = log) : phase.Holds log' cursor := by
  cases phase with
  | fetching => trivial
  | writing pending finished =>
    refine ⟨h.1.trans ?_, fun hended ↦ ?_⟩
    · obtain ⟨more, hmore⟩ := hevents
      rw [← hmore, List.drop_append]
      exact List.prefix_append _ _
    · rw [hfinished (h.2 hended)]
      exact h.2 hended
  | complete =>
    rw [hfinished h.1]
    exact h

theorem Connection.Holds.mono {log log' : EventLog} {received : List Envelope}
    {connection : Connection} (h : connection.Holds log received)
    (hevents : log.events <+: log'.events) (hfinished : log.finished = true → log' = log) :
    connection.Holds log' received where
  cursor_le := h.cursor_le.trans hevents.length_le
  sent := by
    obtain ⟨more, hmore⟩ := hevents
    rw [h.sent, ← hmore, List.take_append_of_le_length h.cursor_le]
  phase := h.phase.mono hevents hfinished

namespace Session.Holds

variable {session session' : Session}

theorem idle : Session.idle.Holds jobId ticksPerStage where
  onTrack _ hjob := nomatch hjob
  received := List.nil_prefix
  connection _ hconnection := nomatch hconnection

theorem numbered (h : session.Holds jobId ticksPerStage) :
    Numbered Envelope.seq session.log.events := by
  unfold Session.log
  cases hjob : session.job with
  | none => exact numbered_nil
  | some job => exact (h.onTrack job hjob).numbered

/-- The thread pushes beyond what any reader has seen. -/
theorem job (h : session.Holds jobId ticksPerStage)
    (hstep : session.step jobId ticksPerStage .job = some session') :
    session'.Holds jobId ticksPerStage := by
  obtain ⟨⟨action, next⟩, hnext, rfl⟩ := Option.map_eq_some_iff.mp hstep
  obtain ⟨job, hjob, hthread⟩ := Option.bind_eq_some_iff.mp hnext
  have htrack := h.onTrack job hjob
  have hlog : session.log = job.log := by rw [Session.log, hjob, Option.elim_some]
  obtain ⟨rest, hrest, rfl⟩ := JobThread.step_eq_some_iff.mp hthread
  have hevents : session.log.events <+: (job.log.act action).events := by
    rw [hlog]
    exact events_prefix_act job.log action
  have hrunning : session.log.finished ≠ true := by
    intro hfinished
    rw [hlog] at hfinished
    exact absurd (htrack.rest_eq_nil hfinished) (hrest ▸ List.cons_ne_nil _ _)
  exact
    { onTrack := fun other hother ↦ by
        obtain rfl := Option.some.inj hother
        exact htrack.step hthread
      received := h.received.trans hevents
      connection := fun connection hconnection ↦ (h.connection connection hconnection).mono hevents
        fun hfinished ↦ absurd hfinished hrunning }

/-- A client that resumes from the last event it received resumes from the length of what it
received. -/
theorem connect (h : session.Holds jobId ticksPerStage) {opening : Opening}
    (hstep : session.step jobId ticksPerStage (.connect opening) = some session') :
    session'.Holds jobId ticksPerStage := by
  change session.connect jobId ticksPerStage opening = some session' at hstep
  unfold Session.connect at hstep
  split_ifs at hstep with hbusy
  rw [not_or, not_not] at hbusy
  have hcursor : opening.cursor = session.received.length := by
    rw [hbusy.2]
    exact (h.numbered.of_prefix h.received).lastNumber_eq
  have hopened : ∀ log : EventLog, session.received <+: log.events →
      (Connection.mk opening.cursor .fetching []).Holds log session.received := by
    intro log hbegin
    refine ⟨hcursor ▸ hbegin.length_le, ?_, trivial⟩
    rw [List.append_nil, hcursor]
    exact List.prefix_iff_eq_take.mp hbegin
  split at hstep
  · obtain rfl := Option.some.inj hstep
    exact h
  · next hjob =>
    obtain rfl := Option.some.inj hstep
    have hnothing : session.received = [] := by
      have hbegin := h.received
      rw [Session.log, hjob] at hbegin
      exact List.prefix_nil.mp hbegin
    exact
      { onTrack := fun job hjob ↦ by
          obtain rfl := Option.some.inj hjob
          exact JobThread.onTrack_start jobId ticksPerStage
        received := hnothing ▸ List.nil_prefix
        connection := fun connection hconnection ↦ by
          obtain rfl := Option.some.inj hconnection
          exact hopened _ (hnothing ▸ List.nil_prefix) }
  · obtain rfl := Option.some.inj hstep
    exact
      { onTrack := h.onTrack
        received := h.received
        connection := fun connection hconnection ↦ by
          obtain rfl := Option.some.inj hconnection
          exact hopened _ h.received }

/-- The client receives what was written first. -/
theorem deliver (h : session.Holds jobId ticksPerStage)
    (hstep : session.step jobId ticksPerStage .deliver = some session') :
    session'.Holds jobId ticksPerStage := by
  obtain ⟨connection, hconnection, hreceives⟩ := Option.bind_eq_some_iff.mp hstep
  have hholds := h.connection connection hconnection
  have hsent := hholds.sent
  cases hwire : connection.wire with
  | nil => simp [hwire] at hreceives
  | cons event wire =>
    rw [hwire] at hreceives hsent
    obtain rfl := Option.some.inj hreceives
    have hnext : (session.received ++ [event]) ++ wire =
        session.log.events.take connection.cursor := by
      rw [List.append_assoc]
      exact hsent
    have hreceived : session.received ++ [event] <+: session.log.events.take connection.cursor := by
      rw [← hnext]
      exact List.prefix_append _ _
    exact
      { onTrack := h.onTrack
        received := hreceived.trans (List.take_prefix _ _)
        connection := fun other hother ↦ by
          obtain rfl := Option.some.inj hother
          exact ⟨hholds.cursor_le, hnext, hholds.phase⟩ }

theorem disconnect (h : session.Holds jobId ticksPerStage)
    (hstep : session.step jobId ticksPerStage .disconnect = some session') :
    session'.Holds jobId ticksPerStage := by
  obtain rfl := Option.some.inj hstep
  exact
    { onTrack := h.onTrack
      received := h.received
      connection := fun _ hconnection ↦ nomatch hconnection }

end Session.Holds

/-- The loop of `stream` keeps the connection in step with the log. -/
theorem Connection.Holds.stream {log : EventLog} {received : List Envelope}
    {connection connection' : Connection} (h : connection.Holds log received)
    (hnumbered : Numbered Envelope.seq log.events) {event : Event}
    (hstep : connection.stream log event = some connection') : connection'.Holds log received := by
  have hcursor := h.cursor_le
  have hphase := h.phase
  cases event with
  | fetch =>
    simp only [Connection.stream] at hstep
    split at hstep
    · obtain rfl := Option.some.inj hstep
      have hslice : (log.eventsAfter connection.cursor).1 = log.events.drop connection.cursor := by
        rw [EventLog.eventsAfter, Nat.min_eq_left hcursor]
      exact ⟨hcursor, h.sent, ⟨[], by rw [hslice, List.append_nil]⟩, id⟩
    · cases hstep
  | write =>
    simp only [Connection.stream] at hstep
    split at hstep
    · next event pending finished hwriting =>
      obtain rfl := Option.some.inj hstep
      rw [hwriting] at hphase
      obtain ⟨⟨more, hmore⟩, hfinished⟩ := hphase
      -- The event written is the one right after the cursor, so its number is the next cursor.
      have hhead : log.events[connection.cursor]? = some event := by
        have hfirst := congrArg List.head? hmore
        rw [List.head?_drop] at hfirst
        simpa using hfirst.symm
      have hseq := hnumbered.number_getElem? hhead
      have hlt := (List.getElem?_eq_some_iff.mp hhead).1
      simp only [hseq, Option.getD_some]
      refine ⟨hlt, ?_, ⟨⟨more, ?_⟩, hfinished⟩⟩
      · rw [← List.append_assoc, h.sent, List.take_add_one, hhead, Option.toList_some]
      · rw [← List.tail_drop, ← hmore]
        rfl
    · cases hstep
  | check =>
    simp only [Connection.stream] at hstep
    split at hstep
    · next finished hwriting =>
      obtain rfl := Option.some.inj hstep
      rw [hwriting] at hphase
      refine ⟨hcursor, h.sent, ?_⟩
      dsimp only
      split_ifs with hcomplete
      · exact ⟨hphase.2 hcomplete.1, hcomplete.2⟩
      · trivial
    · cases hstep
  | job => cases hstep
  | connect opening => cases hstep
  | deliver => cases hstep
  | disconnect => cases hstep

namespace Session.Holds

variable {session session' : Session}

theorem stream (h : session.Holds jobId ticksPerStage) {event : Event}
    (hstep : ((session.connection.bind fun connection ↦ connection.stream session.log event).map
      fun connection ↦ { session with connection := some connection }) = some session') :
    session'.Holds jobId ticksPerStage := by
  obtain ⟨next, hnext, rfl⟩ := Option.map_eq_some_iff.mp hstep
  obtain ⟨connection, hconnection, hloop⟩ := Option.bind_eq_some_iff.mp hnext
  exact
    { onTrack := h.onTrack
      received := h.received
      connection := fun other hother ↦ by
        obtain rfl := Option.some.inj hother
        exact (h.connection connection hconnection).stream h.numbered hloop }

/-- Every step keeps the client in step with the log. -/
theorem step (h : session.Holds jobId ticksPerStage) {event : Event}
    (hstep : session.step jobId ticksPerStage event = some session') :
    session'.Holds jobId ticksPerStage := by
  cases event with
  | job => exact h.job hstep
  | connect opening => exact h.connect hstep
  | fetch => exact h.stream hstep
  | write => exact h.stream hstep
  | check => exact h.stream hstep
  | deliver => exact h.deliver hstep
  | disconnect => exact h.disconnect hstep

theorem run (h : session.Holds jobId ticksPerStage) {events : List Event}
    (hrun : session.run jobId ticksPerStage events = some session') :
    session'.Holds jobId ticksPerStage := by
  induction events generalizing session with
  | nil =>
    obtain rfl := Option.some.inj hrun
    exact h
  | cons event events ih =>
    obtain ⟨next, hnext, hrest⟩ := Option.bind_eq_some_iff.mp hrun
    exact ih (h.step hnext) hrest

end Session.Holds

/-- However pushes, reconnects and breaks interleave, the client has received a beginning of the
job's events, numbered from one without a gap; and a stream that is complete has passed them all,
up to the one that ends the job. -/
theorem delivered_exactly_once {session : Session} {events : List Event}
    (hrun : Session.idle.run jobId ticksPerStage events = some session) :
    session.received <+: session.log.events ∧
      session.log.events <+: (finalLog jobId ticksPerStage).events ∧
      session.received.map Envelope.seq =
        (List.range session.received.length).map (fun place ↦ some (place + 1)) ∧
      ∀ connection ∈ session.connection, connection.phase = .complete →
        session.log = finalLog jobId ticksPerStage ∧
          (∃ last, session.log.events.getLast? = some last ∧
            last.payload = .jobComplete jobId "completed".toList 0) ∧
          ∀ event ∈ session.log.events, ∃ seq ≤ connection.cursor, event.seq = some seq := by
  have hholds : session.Holds jobId ticksPerStage := Session.Holds.idle.run hrun
  refine ⟨hholds.received, ?_, hholds.numbered.of_prefix hholds.received, ?_⟩
  · unfold Session.log
    cases hjob : session.job with
    | none => exact List.nil_prefix
    | some job => exact (hholds.onTrack job hjob).events_grow
  · intro connection hconnection hcomplete
    have hphase := (hholds.connection connection hconnection).phase
    rw [hcomplete] at hphase
    have hlog : session.log = finalLog jobId ticksPerStage := by
      unfold Session.log at hphase ⊢
      cases hjob : session.job with
      | none =>
        rw [hjob] at hphase
        exact absurd hphase.1 (by decide)
      | some job =>
        rw [hjob] at hphase
        exact (hholds.onTrack job hjob).log_eq hphase.1
    refine ⟨hlog, hlog ▸ getLast?_finalLog jobId ticksPerStage, ?_⟩
    intro event hevent
    obtain ⟨place, hplace⟩ := List.mem_iff_getElem?.mp hevent
    have hlt := (List.getElem?_eq_some_iff.mp hplace).1
    exact ⟨place + 1, hlt.trans_le hphase.2, hholds.numbered.number_getElem? hplace⟩

/-- A client that is cut off after two events were written and one received, and comes back for the
second. -/
def cutOffAfterOne : List Event :=
  [.connect (.applyPlan none), .job, .job, .job, .job, .job, .fetch, .write, .write, .deliver,
    .disconnect, .job, .connect (.jobResume (some 1) none), .fetch, .write, .deliver]

theorem delivered_exactly_once_cutOff :
    ∃ session, Session.idle.run "s3-a".toList 0 cutOffAfterOne = some session ∧
      session.received.map Envelope.seq = [some 1, some 2] := by
  have hruns : ((Session.idle.run "s3-a".toList 0 cutOffAfterOne).map fun session ↦
      session.received.length) = some 2 := by decide
  obtain ⟨session, hsession, hlength⟩ := Option.map_eq_some_iff.mp hruns
  have hnumbers := (delivered_exactly_once hsession).2.2.1
  rw [hlength] at hnumbers
  exact ⟨session, hsession, hnumbers⟩

end WardSweep.Broker
