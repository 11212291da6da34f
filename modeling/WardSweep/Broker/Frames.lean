import WardSweep.Broker.Job
import WardSweep.Json.Read

/-!
# Frames of a client

A client writes frames, each as one message of the pipe.  The broker reads one after the other and
answers, and a frame it refuses is no reason to stop.  A message that is too long is refused before
it is read to its end.
-/

namespace WardSweep.Broker

open Utf8 Str Json

/-! ## Frames -/

/-- "Max frame 16 MiB." -/
def maxFrame : ℕ := 16 * 1024 * 1024

/-- What one read can hold. -/
def chunkSize : ℕ := 64 * 1024

/-- A command on the wire. -/
structure Command where
  v : ℕ
  id : Option Text
  kind : Text
  seq : Option ℕ
  payload : Value

/-- Why a frame could not be read. -/
inductive FrameError where
  /-- The peer closed between frames. -/
  | closed
  | broken (error : Text)
  | tooLarge (size : ℕ)
  | malformed (message : Text)
  deriving DecidableEq, Repr

/-- A frame that is refused, while the client goes on being served. -/
def FrameError.IsRefusal : FrameError → Prop
  | .tooLarge _ | .malformed _ => True
  | .closed | .broken _ => False

/-- A declared frame length that may be allocated. -/
def checkLen (len : ℕ) : Except FrameError ℕ :=
  if maxFrame < len then .error (.tooLarge len) else .ok len

/-- A number in four bytes, the low one first. -/
def fromLeBytes (b₀ b₁ b₂ b₃ : UInt8) : ℕ :=
  b₀.toNat + 2 ^ 8 * b₁.toNat + 2 ^ 16 * b₂.toNat + 2 ^ 24 * b₃.toNat

/-- The command in a whole message. -/
def parseFrame (decode : List UInt8 → Except Text Command) :
    List UInt8 → Except FrameError Command
  | [] => .error .closed
  | b₀ :: b₁ :: b₂ :: b₃ :: body => do
    let declared ← checkLen (fromLeBytes b₀ b₁ b₂ b₃)
    if body.length = declared then (decode body).mapError .malformed
    else .error (.malformed ("length prefix says ".toList ++ decimal declared ++
      " bytes, message carried ".toList ++ decimal body.length))
  | message => .error (.malformed (decimal message.length ++
      " byte message cannot hold a length prefix".toList))

/-! ## Reading a message -/

/-- What a client has written and the broker has not read, message by message, and what a read meets
behind it: a client that has gone, or an error of the pipe. -/
structure Pipe where
  queue : List (List UInt8)
  failure : Option Text
  deriving DecidableEq, Repr

/-- What a read of a pipe gives. -/
inductive ReadFile where
  | done (bytes : List UInt8)
  /-- The message is longer than the buffer. -/
  | moreData (bytes : List UInt8)
  | failed (failure : Option Text)
  deriving DecidableEq, Repr

/-- Read at most one message.  What a read leaves of it stays at the front. -/
def Pipe.readFile (pipe : Pipe) (size : ℕ) : ReadFile × Pipe :=
  match pipe.queue with
  | [] => (.failed pipe.failure, pipe)
  | message :: queue =>
    if message.length ≤ size then (.done message, { pipe with queue := queue })
    else (.moreData (message.take size), { pipe with queue := message.drop size :: queue })

/-- What one read can hold more is read of one message, behind what was read of it before, up to the
end of the message or to more than a frame may hold. -/
def Pipe.readMessage (pipe : Pipe) (message : List UInt8) : Except FrameError (List UInt8) × Pipe :=
  match hread : pipe.readFile chunkSize with
  | (.done bytes, pipe') => (.ok (message ++ bytes), pipe')
  | (.moreData bytes, pipe') =>
    if maxFrame < (message ++ bytes).length then (.error (.tooLarge (2 ^ 32 - 1)), pipe')
    else pipe'.readMessage (message ++ bytes)
  | (.failed none, pipe') => (.error .closed, pipe')
  | (.failed (some error), pipe') => (.error (.broken error), pipe')
termination_by (pipe.queue.headD []).length
decreasing_by
  unfold Pipe.readFile at hread
  split at hread
  · cases hread
  · next first queue hqueue =>
    split_ifs at hread with hfits
    · cases (Prod.mk.inj hread).1
    · obtain rfl := (Prod.mk.inj hread).2
      rw [hqueue, List.headD_cons, List.headD_cons, List.length_drop]
      have hpos : 0 < chunkSize := by decide
      omega

/-- Read one message and parse it. -/
def Pipe.readFrame (decode : List UInt8 → Except Text Command) (pipe : Pipe) :
    Except FrameError Command × Pipe :=
  ((pipe.readMessage []).1.bind (parseFrame decode), (pipe.readMessage []).2)

/-! ## Serving a client -/

/-- What becomes of a frame that is written. -/
inductive Written where
  | taken
  | gone
  | failed
  deriving DecidableEq, Repr

/-- Something written to the client. -/
inductive Reply where
  | response (id : Option Text) (kind : Text) (payload : Value)
  | event (event : Envelope)

/-- How serving a client ends. -/
inductive Served where
  | shutdown
  | clientGone (atSeq : ℕ)
  | failed
  deriving DecidableEq, Repr

/-- What stays the same while the broker runs. -/
structure Settings where
  session : Text
  version : Text
  elevated : Bool
  pid : ℕ
  database : Text
  ticksPerStage : ℕ

/-- A client being served: the pipe, the cursor, the id of the job, what becomes of everything that
will be written, what the log of the job holds each time it is asked, whether a store of jobs
opens, and what was written. -/
structure Server where
  pipe : Pipe
  cursor : ℕ
  job : Option Text
  writes : List Written
  logs : List EventLog
  opens : Bool
  sent : List Reply

/-- A field of a payload.  Of two with one name, the last one counts. -/
def field (payload : Value) (key : Text) : Option Value :=
  match payload with
  | .object fields => (fields.reverse.find? (·.1 == key)).map Prod.snd
  | _ => none

/-- `Value::as_str`. -/
def asText : Value → Option Text
  | .string text => some text
  | _ => none

/-- `Value::as_u64`. -/
def asNumber : Value → Option ℕ
  | .number digits =>
    if !digits.isEmpty && digits.all (fun c ↦ isAsciiDigit c.toNat) &&
      digitsValue digits < 2 ^ 64 then
      some (digitsValue digits)
    else none
  | _ => none

namespace Server

variable (broker : Settings)

/-- Write one frame.  Nothing reaches a client that has gone. -/
def write (server : Server) (reply : Reply) : Except Served Server :=
  match server.writes with
  | .taken :: writes => .ok { server with writes := writes, sent := server.sent ++ [reply] }
  | .failed :: _ => .error .failed
  | .gone :: _ | [] => .error (.clientGone server.cursor)

def ack (server : Server) (command : Command) : Except Served Server :=
  server.write (.response command.id "Ack".toList (.object []))

/-- The last number and the end of the job, each read under the lock. -/
def status (server : Server) : (ℕ × Bool) × Server :=
  match server.job with
  | none => ((0, false), server)
  | some _ =>
    (((server.logs.headD .empty).lastSeq, ((server.logs.drop 1).headD .empty).finished),
      { server with logs := server.logs.drop 2 })

/-- `serve_client`'s answer to `Hello`. -/
def helloAck (server : Server) (command : Command) : Reply :=
  .response command.id "HelloAck".toList (.object
    [("broker_version".toList, .string broker.version),
      ("catalog_version".toList, .string "0 (spike, no catalog loaded)".toList),
      ("elevated".toList, .bool broker.elevated),
      ("broker_pid".toList, .number (decimal broker.pid)),
      ("protocol".toList, .number (decimal protocolVersion)),
      ("job_id".toList, server.job.elim .null .string),
      ("job_last_seq".toList, .number (decimal server.status.1.1)),
      ("job_finished".toList, .bool server.status.1.2),
      ("database".toList, .string broker.database),
      ("resumed_from".toList, .number (decimal server.cursor))])

/-- The session a client claims decides whether it is served, and its resume point is the cursor. -/
def hello (server : Server) (command : Command) : Except Served Server :=
  if eqIgnoreAsciiCase (((field command.payload "session".toList).bind asText).getD [])
      broker.session then
    let resumed := { server with
      cursor := ((field command.payload "resume_from".toList).bind asNumber).getD 0 }
    resumed.status.2.write (helloAck broker resumed command)
  else .error (.clientGone server.cursor)

/-- The made-up findings of one batch. -/
def scanBatch (batch : ℕ) : Reply :=
  .response none "ScanBatch".toList (.object
    [("findings".toList, .array ((List.range 5).map fun n ↦ .object
        [("id".toList,
            .string ("finding-".toList ++ decimal batch ++ '-' :: decimal n)),
          ("kind".toList, .string "synthetic".toList),
          ("message_key".toList, .string "finding.synthetic".toList)])),
      ("scanned_count".toList, .number (decimal ((batch + 1) * 5))),
      ("elapsed_ms".toList, .number (decimal 0))])

/-- A scan that scans nothing. -/
def syntheticScan (server : Server) : Except Served Server :=
  ((List.range 3).map scanBatch ++ [Reply.response none "ScanComplete".toList (.object
    [("total".toList, .number (decimal 15)), ("partial".toList, .bool false),
      ("access_denied_paths".toList, .array [])])]).foldlM write server

/-- Write what the log of a job will hold behind the cursor, up to the event that ends the job. -/
def stream (server : Server) (jobId : Text) : Except Served Server :=
  ((finalLog jobId broker.ticksPerStage).events.drop server.cursor).foldlM
    (fun server event ↦ do
      let written ← server.write (.event event)
      return { written with cursor := event.seq.getD (server.cursor + 1) })
    server

/-- The first plan starts the job; every plan streams its events. -/
def applyPlan (server : Server) (command : Command) : Except Served Server :=
  match server.job with
  | some jobId => do
    let acked ← server.ack command
    acked.stream broker jobId
  | none =>
    if server.opens then do
      let jobId := "s3-".toList ++ broker.session
      let acked ← { server with job := some jobId }.ack command
      acked.stream broker jobId
    else .error .failed

/-- Resume the stream where the client says, or at the cursor. -/
def jobResume (server : Server) (command : Command) : Except Served Server := do
  let acked ← { server with
    cursor := ((field command.payload "from_seq".toList).bind asNumber).getD server.cursor }.ack
      command
  match acked.job with
  | none => return acked
  | some jobId => acked.stream broker jobId

def jobStatus (server : Server) (command : Command) : Except Served Server :=
  server.status.2.write (.response command.id "JobState".toList (.object
    [("job_id".toList, server.job.elim .null .string),
      ("last_seq".toList, .number (decimal server.status.1.1)),
      ("finished".toList, .bool server.status.1.2)]))

/-- An error that the client may recover from. -/
def recoverable (id : Option Text) (code messageKey : String)
    (args : List (Text × Value)) : Reply :=
  .response id "Error".toList (.object
    [("code".toList, .string code.toList), ("message_key".toList, .string messageKey.toList),
      ("args".toList, .object args), ("recoverable".toList, .bool true)])

/-- What a command asks for. -/
def dispatch (server : Server) (command : Command) : Except Served Server :=
  if command.kind = "Hello".toList then server.hello broker command
  else if command.kind = "ScanStart".toList then do
    let acked ← server.ack command
    acked.syntheticScan
  else if command.kind = "ApplyPlan".toList then server.applyPlan broker command
  else if command.kind = "JobResume".toList then server.jobResume broker command
  else if command.kind = "JobStatus".toList then server.jobStatus command
  else if command.kind = "Shutdown".toList then do
    match server.ack command with
    | .error .failed => .error .failed
    | _ => .error .shutdown
  else server.write (recoverable command.id "E_UNKNOWN_COMMAND" "err.ipc.unknown_command"
    [("type".toList, .string command.kind)])

/-- A frame that was read is answered.  A malformed or oversized one is refused, and no reason to
stop. -/
def answer (server : Server) : Except FrameError Command → Except Served Server
  | .ok command => server.dispatch broker command
  | .error .closed | .error (.broken _) => .error (.clientGone server.cursor)
  | .error (.tooLarge _) | .error (.malformed _) =>
    server.write (recoverable none "E_BAD_FRAME" "err.ipc.bad_frame" [])

/-- One turn of the loop of `serve_client`. -/
def turn (decode : List UInt8 → Except Text Command) (server : Server) : Except Served Server :=
  { server with pipe := (server.pipe.readFrame decode).2 }.answer broker
    (server.pipe.readFrame decode).1

/-- The server after so many turns, while the client is being served. -/
def after (decode : List UInt8 → Except Text Command) (server : Server) : ℕ → Except Served Server
  | 0 => .ok server
  | turns + 1 => (server.after decode turns).bind (turn broker decode)

/-- The next frame is refused as too large or malformed. -/
def RefusesNext (decode : List UInt8 → Except Text Command) (server : Server) : Prop :=
  ∃ error, (server.pipe.readFrame decode).1 = .error error ∧ error.IsRefusal

/-- Whenever a frame is refused and the client goes on being served, what is read next begins with
the next message the client sent. -/
def Resynchronises (decode : List UInt8 → Except Text Command) (server : Server) : Prop :=
  ∀ turns before next, server.after broker decode turns = .ok before → before.RefusesNext decode →
    server.after broker decode (turns + 1) = .ok next →
      next.pipe.queue = server.pipe.queue.drop (turns + 1)

end Server

/-! ## What a read leaves -/

/-- What can be read of a message before it is too long: the last read may be past what a frame may
hold. -/
def readLimit : ℕ := maxFrame + chunkSize

section Reading

variable {failure : Option Text} {left : List UInt8} {queue : List (List UInt8)}

theorem readFile_of_le {size : ℕ} (h : left.length ≤ size) :
    Pipe.readFile ⟨left :: queue, failure⟩ size = (.done left, ⟨queue, failure⟩) :=
  if_pos h

theorem readFile_of_lt {size : ℕ} (h : size < left.length) :
    Pipe.readFile ⟨left :: queue, failure⟩ size =
      (.moreData (left.take size), ⟨left.drop size :: queue, failure⟩) :=
  if_neg (Nat.not_le.mpr h)

theorem readMessage_done (h : left.length ≤ chunkSize) (message : List UInt8) :
    Pipe.readMessage ⟨left :: queue, failure⟩ message =
      (.ok (message ++ left), ⟨queue, failure⟩) := by
  have hread : Pipe.readFile ⟨left :: queue, failure⟩ chunkSize = (.done left, ⟨queue, failure⟩) :=
    readFile_of_le h
  rw [Pipe.readMessage]
  split <;> simp_all

theorem readMessage_moreData (h : chunkSize < left.length) (message : List UInt8) :
    Pipe.readMessage ⟨left :: queue, failure⟩ message =
      if maxFrame < message.length + chunkSize then
        (.error (.tooLarge (2 ^ 32 - 1)), ⟨left.drop chunkSize :: queue, failure⟩)
      else Pipe.readMessage ⟨left.drop chunkSize :: queue, failure⟩
        (message ++ left.take chunkSize) := by
  have hread : Pipe.readFile ⟨left :: queue, failure⟩ chunkSize =
      (.moreData (left.take chunkSize), ⟨left.drop chunkSize :: queue, failure⟩) := readFile_of_lt h
  have hlength : (message ++ left.take chunkSize).length = message.length + chunkSize := by
    rw [List.length_append, List.length_take, Nat.min_eq_left h.le]
  rw [Pipe.readMessage]
  split <;> simp_all

/-- A message is read to its end, unless it is longer than what the reads that are left can take. -/
theorem readMessage_eq (more : ℕ) (left : List UInt8) (queue : List (List UInt8))
    {message : List UInt8}
    (hroom : message.length + (more + 1) * chunkSize = readLimit) :
    Pipe.readMessage ⟨left :: queue, failure⟩ message =
      if message.length + left.length ≤ readLimit then (.ok (message ++ left), ⟨queue, failure⟩)
      else (.error (.tooLarge (2 ^ 32 - 1)),
        ⟨left.drop (readLimit - message.length) :: queue, failure⟩) := by
  induction more generalizing left message with
  | zero =>
    rw [Nat.zero_add, Nat.one_mul] at hroom
    rcases Nat.lt_or_ge chunkSize left.length with hlong | hfits
    · have hover : maxFrame < message.length + chunkSize := by
        rw [hroom, readLimit]
        exact Nat.lt_add_of_pos_right (by decide)
      have hdrop : readLimit - message.length = chunkSize := by omega
      rw [readMessage_moreData hlong, if_pos hover, if_neg (by omega), hdrop]
    · rw [readMessage_done hfits, if_pos (by omega)]
  | succ more ih =>
    rw [Nat.add_mul, Nat.one_mul] at hroom
    rcases Nat.lt_or_ge chunkSize left.length with hlong | hfits
    · have hwithin : ¬ maxFrame < message.length + chunkSize := by
        rw [Nat.add_mul, readLimit] at hroom
        omega
      have hlength : (message ++ left.take chunkSize).length = message.length + chunkSize := by
        rw [List.length_append, List.length_take, Nat.min_eq_left hlong.le]
      have hsum : message.length + chunkSize + (left.length - chunkSize) =
          message.length + left.length := by omega
      have hdrop : chunkSize + (readLimit - (message.length + chunkSize)) =
          readLimit - message.length := by omega
      rw [readMessage_moreData hlong, if_neg hwithin, ih _ (by omega), hlength, List.length_drop,
        List.append_assoc, List.take_append_drop, List.drop_drop, hsum, hdrop]
    · rw [readMessage_done hfits, if_pos (by omega)]

variable (decode : List UInt8 → Except Text Command)

theorem readFrame_eq (failure : Option Text) (left : List UInt8) (queue : List (List UInt8)) :
    Pipe.readFrame decode ⟨left :: queue, failure⟩ =
      if left.length ≤ readLimit then (parseFrame decode left, ⟨queue, failure⟩)
      else (.error (.tooLarge (2 ^ 32 - 1)), ⟨left.drop readLimit :: queue, failure⟩) := by
  have hroom : ([] : List UInt8).length + (256 + 1) * chunkSize = readLimit := by decide
  have hread : Pipe.readMessage ⟨left :: queue, failure⟩ [] = _ :=
    readMessage_eq 256 left queue hroom
  rw [List.length_nil, Nat.zero_add, List.nil_append, Nat.sub_zero] at hread
  rw [Pipe.readFrame, hread]
  split_ifs <;> rfl

/-- Without a message there is no frame to refuse. -/
theorem readFrame_nil (failure : Option Text) : ∃ error,
    Pipe.readFrame decode ⟨[], failure⟩ = (.error error, ⟨[], failure⟩) ∧ ¬ error.IsRefusal := by
  have hread : Pipe.readFile ⟨[], failure⟩ chunkSize = (.failed failure, ⟨[], failure⟩) := rfl
  rw [Pipe.readFrame, Pipe.readMessage]
  cases failure with
  | none => exact ⟨.closed, by split <;> simp_all [Except.bind], id⟩
  | some error => exact ⟨.broken error, by split <;> simp_all [Except.bind], id⟩

end Reading

/-! ## What answers leave -/

/-- What goes on being served has the same pipe. -/
def KeepsPipe (pipe : Pipe) (result : Except Served Server) : Prop :=
  ∀ server, result = .ok server → server.pipe = pipe

namespace KeepsPipe

variable {pipe : Pipe} {broker : Settings} {server : Server} {command : Command}

theorem ok (h : server.pipe = pipe) : KeepsPipe pipe (.ok server) := by
  intro other hother
  obtain rfl := Except.ok.inj hother
  exact h

theorem error (served : Served) : KeepsPipe pipe (.error served) :=
  fun _ h ↦ nomatch h

theorem bind {result : Except Served Server} {call : Server → Except Served Server}
    (h : KeepsPipe pipe result)
    (hcall : ∀ server, server.pipe = pipe → KeepsPipe pipe (call server)) :
    KeepsPipe pipe (result >>= call) := by
  cases result with
  | error served => exact error served
  | ok server => exact hcall server (h server rfl)

theorem foldlM {α : Type*} {call : Server → α → Except Served Server}
    (hcall : ∀ server item, server.pipe = pipe → KeepsPipe pipe (call server item)) (items : List α)
    (h : server.pipe = pipe) : KeepsPipe pipe (items.foldlM call server) := by
  induction items generalizing server with
  | nil => exact ok h
  | cons item items ih => exact bind (hcall server item h) fun _ hnext ↦ ih hnext

theorem write (h : server.pipe = pipe) (reply : Reply) : KeepsPipe pipe (server.write reply) := by
  unfold Server.write
  split
  · exact ok h
  · exact error _
  · exact error _
  · exact error _

theorem status (h : server.pipe = pipe) : server.status.2.pipe = pipe := by
  unfold Server.status
  split <;> exact h

theorem stream (h : server.pipe = pipe) (jobId : Text) :
    KeepsPipe pipe (server.stream broker jobId) := by
  apply foldlM _ _ h
  intro server event hserver
  exact (write hserver _).bind fun written hwritten ↦ ok hwritten

theorem hello (h : server.pipe = pipe) : KeepsPipe pipe (server.hello broker command) := by
  unfold Server.hello
  dsimp only
  split_ifs
  · apply write
    exact status h
  · exact error _

theorem applyPlan (h : server.pipe = pipe) : KeepsPipe pipe (server.applyPlan broker command) := by
  unfold Server.applyPlan
  split
  · exact (write h _).bind fun acked hacked ↦ stream hacked _
  · dsimp only
    split_ifs
    · apply bind
      · apply write
        exact h
      · exact fun acked hacked ↦ stream hacked _
    · exact error _

theorem jobResume (h : server.pipe = pipe) : KeepsPipe pipe (server.jobResume broker command) := by
  unfold Server.jobResume
  apply bind
  · apply write
    exact h
  · intro acked hacked
    split
    · exact ok hacked
    · exact stream hacked _

/-- Whatever is asked, the pipe is read no further. -/
theorem dispatch (h : server.pipe = pipe) : KeepsPipe pipe (server.dispatch broker command) := by
  unfold Server.dispatch
  split_ifs
  · exact hello h
  · exact (write h _).bind fun acked hacked ↦ foldlM (fun _ _ hserver ↦ write hserver _) _ hacked
  · exact applyPlan h
  · exact jobResume h
  · exact write (status h) _
  · split
    · exact error _
    · exact error _
  · exact write h _

theorem answer (h : server.pipe = pipe) (read : Except FrameError Command) :
    KeepsPipe pipe (server.answer broker read) := by
  unfold Server.answer
  split
  · exact dispatch h
  · exact error _
  · exact error _
  · exact write h _
  · exact write h _

end KeepsPipe

/-! ## Boundaries of messages -/

namespace Server

variable {broker : Settings} {decode : List UInt8 → Except Text Command} {server next : Server}

theorem writes_of_write {reply : Reply} (h : server.write reply = .ok next) :
    server.writes.head? = some .taken := by
  unfold write at h
  split at h
  · next hwrites => rw [hwrites, List.head?_cons]
  · cases h
  · cases h
  · cases h

/-- A turn takes one message whole, or refuses one that is too long and leaves the rest of it. -/
theorem turn_eq_ok (h : server.turn broker decode = .ok next) :
    ∃ message queue, server.pipe.queue = message :: queue ∧
      (message.length ≤ readLimit ∧ next.pipe.queue = queue ∨
        readLimit < message.length ∧ server.writes.head? = some .taken ∧
          server.RefusesNext decode ∧ next.pipe.queue = message.drop readLimit :: queue) := by
  have hpipe : next.pipe = (server.pipe.readFrame decode).2 := KeepsPipe.answer rfl _ next h
  unfold turn at h
  unfold RefusesNext
  generalize server.pipe = pipe at h hpipe ⊢
  obtain ⟨queue, failure⟩ := pipe
  cases queue with
  | nil =>
    obtain ⟨error, hread, hrefusal⟩ := readFrame_nil decode failure
    rw [hread] at h
    cases error with
    | closed => cases h
    | broken error => cases h
    | tooLarge size => exact absurd trivial hrefusal
    | malformed message => exact absurd trivial hrefusal
  | cons message queue =>
    refine ⟨message, queue, rfl, ?_⟩
    rw [readFrame_eq] at h hpipe ⊢
    rcases Nat.lt_or_ge readLimit message.length with hlong | hfits
    · rw [if_neg (Nat.not_le.mpr hlong)] at h hpipe ⊢
      have htaken := writes_of_write h
      exact .inr ⟨hlong, htaken, ⟨_, rfl, trivial⟩, by rw [hpipe]⟩
    · rw [if_pos hfits] at hpipe
      exact .inl ⟨hfits, by rw [hpipe]⟩

/-- A message that is too long is refused, and the rest of it stays, while the client takes the
refusal. -/
theorem exists_turn_of_long (broker : Settings) (decode : List UInt8 → Except Text Command)
    (server : Server) {message : List UInt8} {queue : List (List UInt8)}
    (hqueue : server.pipe.queue = message :: queue) (hlong : readLimit < message.length)
    (htaken : server.writes.head? = some .taken) :
    ∃ next, server.turn broker decode = .ok next := by
  have hpipe : server.pipe = ⟨message :: queue, server.pipe.failure⟩ := by rw [← hqueue]
  obtain ⟨rest, hwrites⟩ := List.head?_eq_some_iff.mp htaken
  unfold turn
  rw [hpipe, readFrame_eq, if_neg (Nat.not_le.mpr hlong)]
  unfold answer write
  rw [hwrites]
  exact ⟨_, rfl⟩

theorem after_succ_eq_ok {turns : ℕ} (h : server.after broker decode (turns + 1) = .ok next) :
    ∃ before, server.after broker decode turns = .ok before ∧
      before.turn broker decode = .ok next := by
  rw [after] at h
  cases hbefore : server.after broker decode turns with
  | error served => rw [hbefore] at h; cases h
  | ok before => exact ⟨before, rfl, by rwa [hbefore] at h⟩

/-- While every message that is too long ends the service, each turn begins with the next
message. -/
theorem queue_after {turns : ℕ}
    (hlong : ∀ turn < turns, ∀ before next, server.after broker decode turn = .ok before →
      before.RefusesNext decode → server.after broker decode (turn + 1) = .ok next →
        next.pipe.queue = server.pipe.queue.drop (turn + 1))
    (h : server.after broker decode turns = .ok next) :
    next.pipe.queue = server.pipe.queue.drop turns := by
  induction turns generalizing next with
  | zero =>
    obtain rfl := Except.ok.inj h
    rfl
  | succ turns ih =>
    obtain ⟨before, hbefore, hturn⟩ := after_succ_eq_ok h
    have hqueue := ih (fun turn hlt ↦ hlong turn (by omega)) hbefore
    obtain ⟨message, queue, hhead, hread | hleft⟩ := turn_eq_ok hturn
    · rw [hread.2, ← List.tail_drop, ← hqueue, hhead, List.tail_cons]
    · exact hlong turns (by omega) before next hbefore hleft.2.2.1 h

/-- After every refusal the next message is read from its beginning, exactly when no message the
broker gets to is too long while the client still takes what is written. -/
theorem resynchronises_iff (broker : Settings) (decode : List UInt8 → Except Text Command)
    (server : Server) :
    server.Resynchronises broker decode ↔
      ∀ turns before message, server.after broker decode turns = .ok before →
        server.pipe.queue[turns]? = some message → before.writes.head? = some .taken →
          message.length ≤ readLimit := by
  constructor
  · intro hresync turns before message hbefore hmessage htaken
    by_contra hlong
    rw [Nat.not_le] at hlong
    have hqueue := queue_after (fun turn _ ↦ hresync turn) hbefore
    have hhead : before.pipe.queue = message :: server.pipe.queue.drop (turns + 1) := by
      obtain ⟨hlt, rfl⟩ := List.getElem?_eq_some_iff.mp hmessage
      rw [hqueue, List.drop_eq_getElem_cons hlt]
    obtain ⟨next, hturn⟩ := exists_turn_of_long broker decode before hhead hlong htaken
    have hnext : server.after broker decode (turns + 1) = .ok next := by
      rw [after, hbefore]
      exact hturn
    obtain ⟨first, queue, hfirst, hread | hleft⟩ := turn_eq_ok hturn
    · obtain ⟨rfl, rfl⟩ := List.cons.inj (hhead.symm.trans hfirst)
      exact absurd hread.1 (Nat.not_le.mpr hlong)
    · obtain ⟨rfl, rfl⟩ := List.cons.inj (hhead.symm.trans hfirst)
      have hsame := hleft.2.2.2.symm.trans (hresync turns before next hbefore hleft.2.2.1 hnext)
      have hlength := congrArg List.length hsame
      rw [List.length_cons] at hlength
      omega
  · intro hfits turns
    induction turns using Nat.strong_induction_on with
    | _ turns ih =>
      intro before next hbefore hrefuses hnext
      have hqueue := queue_after (fun turn hlt ↦ ih turn hlt) hbefore
      obtain ⟨last, hlast, hturn⟩ := after_succ_eq_ok hnext
      obtain rfl := Except.ok.inj (hbefore.symm.trans hlast)
      obtain ⟨message, queue, hhead, hread | hleft⟩ := turn_eq_ok hturn
      · rw [hread.2, ← List.tail_drop, ← hqueue, hhead, List.tail_cons]
      · have hmessage : server.pipe.queue[turns]? = some message := by
          rw [← List.head?_drop, ← hqueue, hhead, List.head?_cons]
        exact absurd (hfits turns before message hbefore hmessage hleft.2.1)
          (Nat.not_le.mpr hleft.1)

end Server

/-! ## A command inside a message -/

/-- The JSON of a command that ends the broker. -/
def shutdownText : Text := "\x7b\"v\":1,\"type\":\"Shutdown\",\"payload\":null\x7d".toList

def shutdownCommand : Command := ⟨1, none, "Shutdown".toList, none, .null⟩

/-- The command in a frame of its own. -/
def shutdownFrame : List UInt8 := [40, 0, 0, 0] ++ bytes shutdownText

/-- Reads this JSON and nothing else. -/
def decodeShutdown (body : List UInt8) : Except Text Command :=
  if body = bytes shutdownText then .ok shutdownCommand
  else .error "expected value at line 1 column 1".toList

/-- A client that writes one message, which ends in the frame of a command. -/
def smuggling (lead : List UInt8) : Server where
  pipe := ⟨[lead ++ shutdownFrame], none⟩
  cursor := 0
  job := none
  writes := [.taken]
  logs := []
  opens := true
  sent := []

def spikeSettings : Settings where
  session := "b7c1".toList
  version := "0.0.0".toList
  elevated := true
  pid := 4242
  database := r"C:\s3\jobs.db".toList
  ticksPerStage := 4

/-- The message is refused, and the command is read from the inside of it, when what stands before
it is as much as can be read. -/
theorem reads_inside_of_smuggling {lead : List UInt8} (h : lead.length = readLimit) :
    (∃ next, (smuggling lead).after spikeSettings decodeShutdown 1 = .ok next ∧
        (next.pipe.readFrame decodeShutdown).1 = .ok shutdownCommand) ∧
      ¬ (smuggling lead).Resynchronises spikeSettings decodeShutdown := by
  have hframe : shutdownFrame.length = 44 := by decide
  have hlong : readLimit < (lead ++ shutdownFrame).length := by
    rw [List.length_append, h, hframe]
    exact Nat.lt_add_of_pos_right (by decide)
  obtain ⟨next, hturn⟩ :=
    Server.exists_turn_of_long spikeSettings decodeShutdown (smuggling lead) rfl hlong rfl
  have hafter : (smuggling lead).after spikeSettings decodeShutdown 1 = .ok next := hturn
  obtain ⟨message, queue, hhead, hread | hleft⟩ := Server.turn_eq_ok hturn
  · obtain ⟨rfl, -⟩ := List.cons.inj hhead
    exact absurd hread.1 (Nat.not_le.mpr hlong)
  · obtain ⟨rfl, rfl⟩ := List.cons.inj hhead
    obtain ⟨-, -, hrefuses, hqueue⟩ := hleft
    rw [List.drop_left' h] at hqueue
    refine ⟨⟨next, hafter, ?_⟩, ?_⟩
    · have hpipe : next.pipe = ⟨[shutdownFrame], next.pipe.failure⟩ := by rw [← hqueue]
      have hfits : shutdownFrame.length ≤ readLimit := by
        rw [hframe]
        exact Nat.le_of_ble_eq_true rfl
      rw [hpipe, readFrame_eq, if_pos hfits]
      rfl
    · intro hresync
      have hnone := hresync 0 (smuggling lead) next rfl hrefuses hafter
      rw [hqueue] at hnone
      cases hnone

/-- A message of blanks and a command. -/
theorem not_resynchronises_smuggling :
    (∃ next, (smuggling (List.replicate readLimit 32)).after spikeSettings decodeShutdown 1 =
        .ok next ∧ (next.pipe.readFrame decodeShutdown).1 = .ok shutdownCommand) ∧
      ¬ (smuggling (List.replicate readLimit 32)).Resynchronises spikeSettings decodeShutdown :=
  reads_inside_of_smuggling List.length_replicate

end WardSweep.Broker
