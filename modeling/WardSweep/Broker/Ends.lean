import WardSweep.Broker.Frames

/-!
# The two ends of the pipe

Frames are written and read by two programs: the broker, and the client with its own length prefix,
its own cap and its own loop of reads.  The broker counts what stands behind the prefix towards the
cap and looks at a message that goes on, while the client counts the prefix and looks after every
read.
-/

namespace WardSweep.Broker

open Utf8 Str

/-! ## Writing -/

/-- The four bytes of a number, the low one first. -/
def toLeBytes (n : ℕ) : List UInt8 :=
  [.ofNat n, .ofNat (n / 2 ^ 8), .ofNat (n / 2 ^ 16), .ofNat (n / 2 ^ 24)]

/-- The frame of an envelope, from its JSON: `proto::encode`. -/
def encode (json : Except Text (List UInt8)) : Except FrameError (List UInt8) := do
  let json ← json.mapError .malformed
  if 2 ^ 32 ≤ json.length then .error (.tooLarge (2 ^ 32 - 1))
  else if maxFrame < json.length then .error (.tooLarge json.length)
  else .ok (toLeBytes json.length ++ json)

/-- What the client throws. -/
inductive Thrown where
  | invalidOperation (message : Text)
  | io (message : Text)
  | json (message : Text)
  deriving DecidableEq, Repr

/-- The frame the client writes: `BrokerPipe.Send`. -/
def send (body : List UInt8) : Except Thrown (List UInt8) :=
  if maxFrame < body.length then
    .error (.invalidOperation ("frame of ".toList ++ decimal body.length ++
      " bytes exceeds the cap".toList))
  else .ok (toLeBytes body.length ++ body)

/-! ## Reading -/

/-- What one read of the pipe brings, and whether the message ends with it. -/
structure Read where
  bytes : List UInt8
  complete : Bool
  deriving DecidableEq, Repr

/-- The reads in which a message arrives, however it is split over them. -/
inductive Arrives : List UInt8 → List Read → Prop
  | last {bytes : List UInt8} : bytes ≠ [] → bytes.length ≤ chunkSize →
      Arrives bytes [⟨bytes, true⟩]
  | more {bytes message : List UInt8} {reads : List Read} : bytes ≠ [] → bytes.length ≤ chunkSize →
      Arrives message reads → Arrives (bytes ++ message) (⟨bytes, false⟩ :: reads)

/-- The broker's loop of reads, with what was read of the message before.  Behind the last read
comes an error, or none from a client that has gone. -/
def gather (failure : Option Text) (message : List UInt8) :
    List Read → Except FrameError (List UInt8)
  | [] => .error (failure.elim .closed .broken)
  | read :: reads =>
    if read.complete then .ok (message ++ read.bytes)
    else if maxFrame < (message ++ read.bytes).length then .error (.tooLarge (2 ^ 32 - 1))
    else gather failure (message ++ read.bytes) reads

/-- `Pipe::read_frame` over the reads of a message. -/
def readFrame (decode : List UInt8 → Except Text Command) (failure : Option Text)
    (reads : List Read) : Except FrameError Command :=
  (gather failure [] reads).bind (parseFrame decode)

/-- The client's loop of reads.  Nothing is read of a broker that has gone. -/
def receiveMessage (message : List UInt8) : List Read → Except Thrown (Option (List UInt8))
  | [] => .ok none
  | read :: reads =>
    if read.bytes = [] then
      if message = [] then .ok none else .error (.io "truncated message".toList)
    else if maxFrame < (message ++ read.bytes).length then
      .error (.invalidOperation "message exceeds the 16 MiB cap".toList)
    else if read.complete then .ok (some (message ++ read.bytes))
    else receiveMessage (message ++ read.bytes) reads

/-- Four bytes as a signed number: `BitConverter.ToInt32`. -/
def toInt32 (b₀ b₁ b₂ b₃ : UInt8) : ℤ :=
  Int.bmod (fromLeBytes b₀ b₁ b₂ b₃) (2 ^ 32)

def signedDecimal (n : ℤ) : Text :=
  if n < 0 then '-' :: decimal n.natAbs else decimal n.natAbs

/-- What the client takes from a whole message. -/
def parseMessage {α : Type} (deserialize : List UInt8 → Except Text (Option α)) :
    List UInt8 → Except Thrown (Option α)
  | b₀ :: b₁ :: b₂ :: b₃ :: body =>
    if toInt32 b₀ b₁ b₂ b₃ ≠ body.length then
      .error (.io ("length prefix says ".toList ++ signedDecimal (toInt32 b₀ b₁ b₂ b₃) ++
        " bytes, message carried ".toList ++ decimal body.length))
    else (deserialize body).mapError .json
  | message =>
    .error (.io (decimal message.length ++ " byte message cannot hold a length prefix".toList))

/-- `BrokerPipe.Receive` over the reads of a message. -/
def receive {α : Type} (deserialize : List UInt8 → Except Text (Option α)) (reads : List Read) :
    Except Thrown (Option α) := do
  match ← receiveMessage [] reads with
  | none => return none
  | some message => parseMessage deserialize message

/-! ## What the two ends promise each other -/

/-- A frame the broker writes with this body is read by the client, which takes this body from it
however it arrives. -/
def ReachesClient (body : List UInt8) : Prop :=
  ∀ frame reads, encode (.ok body) = .ok frame → Arrives frame reads →
    ∀ (α : Type) (deserialize : List UInt8 → Except Text (Option α)),
      receive deserialize reads = (deserialize body).mapError .json

/-- A frame the client writes with this body is read by the broker, which takes this body from it
however it arrives. -/
def ReachesBroker (body : List UInt8) : Prop :=
  ∀ frame reads, send body = .ok frame → Arrives frame reads →
    ∀ decode failure, readFrame decode failure reads = (decode body).mapError .malformed

def FramesAgree (body : List UInt8) : Prop :=
  ReachesClient body ∧ ReachesBroker body

/-! ## A frame by itself -/

theorem fromLeBytes_toLeBytes {n : ℕ} (h : n < 2 ^ 32) :
    fromLeBytes (.ofNat n) (.ofNat (n / 2 ^ 8)) (.ofNat (n / 2 ^ 16)) (.ofNat (n / 2 ^ 24)) =
      n := by
  simp only [fromLeBytes, UInt8.toNat_ofNat']
  omega

theorem toInt32_toLeBytes {n : ℕ} (h : n < 2 ^ 31) :
    toInt32 (.ofNat n) (.ofNat (n / 2 ^ 8)) (.ofNat (n / 2 ^ 16)) (.ofNat (n / 2 ^ 24)) = n := by
  have hread := fromLeBytes_toLeBytes (h.trans (by omega : 2 ^ 31 < 2 ^ 32))
  unfold toInt32
  rw [hread]
  exact Int.bmod_eq_of_le_mul_two (by omega) (by omega)

variable {body frame message : List UInt8} {reads : List Read}

theorem length_frame (body : List UInt8) :
    (toLeBytes body.length ++ body).length = body.length + 4 := by
  rw [List.length_append, Nat.add_comm]
  rfl

theorem encode_eq_ok_iff :
    encode (.ok body) = .ok frame ↔ body.length ≤ maxFrame ∧
      frame = toLeBytes body.length ++ body := by
  have hcap : maxFrame < 2 ^ 32 := by decide
  have hencode : encode (.ok body) = if 2 ^ 32 ≤ body.length then .error (.tooLarge (2 ^ 32 - 1))
      else if maxFrame < body.length then .error (.tooLarge body.length)
      else .ok (toLeBytes body.length ++ body) := rfl
  rw [hencode]
  split_ifs with hwide hlong
  · exact ⟨(nomatch ·), fun h ↦ absurd h.1 (by omega)⟩
  · exact ⟨(nomatch ·), fun h ↦ absurd h.1 (Nat.not_le.mpr hlong)⟩
  · exact ⟨fun h ↦ ⟨Nat.not_lt.mp hlong, (Except.ok.inj h).symm⟩, fun h ↦ congrArg _ h.2.symm⟩

/-- Both ends write the same frames. -/
theorem send_eq_ok_iff :
    send body = .ok frame ↔ body.length ≤ maxFrame ∧ frame = toLeBytes body.length ++ body := by
  rw [send]
  split_ifs with hlong
  · exact ⟨(nomatch ·), fun h ↦ absurd h.1 (Nat.not_le.mpr hlong)⟩
  · exact ⟨fun h ↦ ⟨Nat.not_lt.mp hlong, (Except.ok.inj h).symm⟩, fun h ↦ congrArg _ h.2.symm⟩

theorem parseFrame_frame (decode : List UInt8 → Except Text Command) (h : body.length ≤ maxFrame) :
    parseFrame decode (toLeBytes body.length ++ body) = (decode body).mapError .malformed := by
  have hcap : maxFrame < 2 ^ 32 := by decide
  have hlen : checkLen body.length = .ok body.length := if_neg (Nat.not_lt.mpr h)
  simp only [toLeBytes, List.cons_append, List.nil_append, parseFrame]
  rw [fromLeBytes_toLeBytes (by omega), hlen]
  exact if_pos rfl

theorem parseMessage_frame {α : Type} (deserialize : List UInt8 → Except Text (Option α))
    (h : body.length ≤ maxFrame) :
    parseMessage deserialize (toLeBytes body.length ++ body) =
      (deserialize body).mapError .json := by
  have hcap : maxFrame < 2 ^ 31 := by decide
  simp only [toLeBytes, List.cons_append, List.nil_append, parseMessage]
  rw [toInt32_toLeBytes (by omega)]
  exact if_neg (not_not_intro rfl)

/-! ## A message over its reads -/

theorem gather_more (failure : Option Text) (before bytes : List UInt8) (reads : List Read) :
    gather failure before (⟨bytes, false⟩ :: reads) =
      if maxFrame < (before ++ bytes).length then .error (.tooLarge (2 ^ 32 - 1))
      else gather failure (before ++ bytes) reads := rfl

theorem receiveMessage_more {bytes : List UInt8} (h : bytes ≠ []) (before : List UInt8)
    (reads : List Read) :
    receiveMessage before (⟨bytes, false⟩ :: reads) =
      if maxFrame < (before ++ bytes).length then
        .error (.invalidOperation "message exceeds the 16 MiB cap".toList)
      else receiveMessage (before ++ bytes) reads :=
  if_neg h

theorem Arrives.ne_nil (h : Arrives message reads) : message ≠ [] := by
  cases h with
  | last hbytes _ => exact hbytes
  | more hbytes _ _ => exact fun happend ↦ hbytes (List.append_eq_nil_iff.mp happend).1

/-- The client looks at all of the message, so that its reads make no difference. -/
theorem receiveMessage_of_arrives (h : Arrives message reads) (before : List UInt8) :
    receiveMessage before reads =
      if maxFrame < (before ++ message).length then
        .error (.invalidOperation "message exceeds the 16 MiB cap".toList)
      else .ok (some (before ++ message)) := by
  induction h generalizing before with
  | last hbytes _ => rw [receiveMessage, if_neg hbytes, if_pos rfl]
  | @more bytes message reads hbytes _ _ ih =>
    rw [receiveMessage_more hbytes, ih, List.append_assoc]
    split_ifs with hsofar hall
    · rfl
    · rw [← List.append_assoc, List.length_append] at hall
      omega
    · rfl
    · rfl

/-- The broker does not look at the last read, which brings a byte or more. -/
theorem gather_of_arrives (h : Arrives message reads) (failure : Option Text)
    {before : List UInt8} (hfits : (before ++ message).length ≤ maxFrame + 1) :
    gather failure before reads = .ok (before ++ message) := by
  induction h generalizing before with
  | last => rfl
  | @more bytes message reads hbytes _ hrest ih =>
    have hpos := List.length_pos_of_ne_nil hrest.ne_nil
    rw [← List.append_assoc, List.length_append] at hfits
    rw [gather_more, if_neg (by omega), ih (by rw [List.length_append]; omega), List.append_assoc]

/-- What stands before a message that arrives can arrive before it.  The broker goes on to the
message, unless what stands before it is already too much. -/
theorem Arrives.exists_behind (hrest : Arrives message reads) (failure : Option Text)
    (front : List UInt8) : ∃ reads', Arrives (front ++ message) reads' ∧
      ∀ before : List UInt8, before.length ≤ maxFrame → gather failure before reads' =
        if maxFrame < (before ++ front).length then .error (.tooLarge (2 ^ 32 - 1))
        else gather failure (before ++ front) reads := by
  induction hlength : front.length using Nat.strong_induction_on generalizing front with
  | _ n ih =>
    rcases Nat.lt_or_ge chunkSize front.length with hlong | hfits
    · have hpos : 0 < chunkSize := by decide
      have htake : (front.take chunkSize).length = chunkSize := List.length_take_of_le hlong.le
      have hshorter : (front.drop chunkSize).length < n := by
        rw [List.length_drop]
        omega
      obtain ⟨reads', harrives, hgather⟩ := ih _ hshorter (front.drop chunkSize) rfl
      have hfirst : front.take chunkSize ≠ [] := List.ne_nil_of_length_pos (by omega)
      refine ⟨⟨front.take chunkSize, false⟩ :: reads', ?_, ?_⟩
      · have hall := Arrives.more hfirst htake.le harrives
        rwa [← List.append_assoc, List.take_append_drop] at hall
      · intro before hbefore
        rw [gather_more]
        split_ifs with hsofar hfront hfront
        · rfl
        · rw [List.length_append] at hsofar hfront
          omega
        · rw [hgather _ (Nat.not_lt.mp hsofar), List.append_assoc, List.take_append_drop,
            if_pos hfront]
        · rw [hgather _ (Nat.not_lt.mp hsofar), List.append_assoc, List.take_append_drop,
            if_neg hfront]
    · rcases eq_or_ne front [] with rfl | hfront
      · refine ⟨reads, hrest, ?_⟩
        intro before hbefore
        rw [List.append_nil, if_neg (Nat.not_lt.mpr hbefore)]
      · exact ⟨_, .more hfront hfits hrest, fun before _ ↦ gather_more failure before front reads⟩

theorem arrives_singleton (byte : UInt8) : Arrives [byte] [⟨[byte], true⟩] :=
  .last (List.cons_ne_nil byte []) (Nat.le_of_ble_eq_true rfl)

/-- Every message arrives in some reads. -/
theorem exists_arrives (h : message ≠ []) : ∃ reads, Arrives message reads := by
  obtain ⟨front, last, rfl⟩ := List.eq_nil_or_concat' message |>.resolve_left h
  obtain ⟨reads, harrives, -⟩ := (arrives_singleton last).exists_behind none front
  exact ⟨reads, harrives⟩

/-- A message whose last byte comes by itself is refused when it is two bytes longer than a frame
may be. -/
theorem exists_arrives_tooLarge (failure : Option Text) (h : maxFrame + 1 < message.length) :
    ∃ reads, Arrives message reads ∧
      gather failure [] reads = .error (.tooLarge (2 ^ 32 - 1)) := by
  have hne : message ≠ [] := List.ne_nil_of_length_pos (by omega)
  obtain ⟨front, last, rfl⟩ := List.eq_nil_or_concat' message |>.resolve_left hne
  obtain ⟨reads, harrives, hgather⟩ := (arrives_singleton last).exists_behind failure front
  rw [List.length_append, List.length_singleton] at h
  refine ⟨reads, harrives, ?_⟩
  rw [hgather [] (Nat.zero_le _), List.nil_append, if_pos (by omega)]

/-- A read of the pipe brings as much as it can hold, unless the message ends with it.  Then the
loop of reads over the pipe is the loop over the reads of its message. -/
theorem readMessage_eq_gather (h : Arrives message reads)
    (hfull : ∀ read ∈ reads, read.complete = false → read.bytes.length = chunkSize)
    (queue : List (List UInt8)) (failure : Option Text) (before : List UInt8) :
    (Pipe.readMessage ⟨message :: queue, failure⟩ before).1 = gather failure before reads := by
  induction h generalizing before with
  | last _ hfits => rw [readMessage_done hfits]; rfl
  | @more bytes message reads _ hfits hrest ih =>
    have hlength : bytes.length = chunkSize := hfull _ List.mem_cons_self rfl
    have hpos := List.length_pos_of_ne_nil hrest.ne_nil
    have hlong : chunkSize < (bytes ++ message).length := by
      rw [List.length_append]
      omega
    rw [readMessage_moreData hlong, gather_more, List.length_append, hlength,
      List.take_left' hlength, List.drop_left' hlength]
    split_ifs
    · rfl
    · exact ih (fun read hread ↦ hfull read (List.mem_cons_of_mem _ hread)) _

theorem receive_of_arrives {α : Type} (deserialize : List UInt8 → Except Text (Option α))
    (h : Arrives message reads) :
    receive deserialize reads =
      if maxFrame < message.length then
        .error (.invalidOperation "message exceeds the 16 MiB cap".toList)
      else parseMessage deserialize message := by
  rw [receive, receiveMessage_of_arrives h, List.nil_append]
  split_ifs <;> rfl

/-! ## What both ends take -/

/-- The client takes a frame unless its own prefix is what makes it too long. -/
theorem reachesClient_iff :
    ReachesClient body ↔ body.length + 4 ≤ maxFrame ∨ maxFrame < body.length := by
  constructor
  · intro hreaches
    by_contra! hcap
    have hencode : encode (.ok body) = .ok (toLeBytes body.length ++ body) :=
      encode_eq_ok_iff.mpr ⟨hcap.2, rfl⟩
    have hne : toLeBytes body.length ++ body ≠ [] := List.cons_ne_nil _ _
    obtain ⟨reads, harrives⟩ := exists_arrives hne
    have hreceive := hreaches _ reads hencode harrives Unit fun _ ↦ .ok none
    rw [receive_of_arrives _ harrives, length_frame, if_pos hcap.1] at hreceive
    cases hreceive
  · intro hcap frame reads hencode harrives α deserialize
    obtain ⟨hbody, rfl⟩ := encode_eq_ok_iff.mp hencode
    have hfits : ¬ maxFrame < (toLeBytes body.length ++ body).length := by
      rw [length_frame]
      omega
    rw [receive_of_arrives deserialize harrives, if_neg hfits, parseMessage_frame deserialize hbody]

/-- The broker takes a frame unless it is two bytes longer than a body may be. -/
theorem reachesBroker_iff :
    ReachesBroker body ↔ body.length + 4 ≤ maxFrame + 1 ∨ maxFrame < body.length := by
  constructor
  · intro hreaches
    by_contra! hcap
    have hsend : send body = .ok (toLeBytes body.length ++ body) :=
      send_eq_ok_iff.mpr ⟨hcap.2, rfl⟩
    have hlong : maxFrame + 1 < (toLeBytes body.length ++ body).length := by
      rw [length_frame]
      exact hcap.1
    obtain ⟨reads, harrives, hgather⟩ := exists_arrives_tooLarge none hlong
    have hread := hreaches _ reads hsend harrives (fun _ ↦ .error []) none
    rw [readFrame, hgather] at hread
    cases hread
  · intro hcap frame reads hsend harrives decode failure
    obtain ⟨hbody, rfl⟩ := send_eq_ok_iff.mp hsend
    have hfits : ([] ++ (toLeBytes body.length ++ body)).length ≤ maxFrame + 1 := by
      rw [List.nil_append, length_frame]
      omega
    rw [readFrame, gather_of_arrives harrives failure hfits]
    exact parseFrame_frame decode hbody

/-- The ends agree on a body when its prefix fits under the cap with it. -/
theorem framesAgree_iff (body : List UInt8) :
    FramesAgree body ↔ body.length + 4 ≤ maxFrame ∨ maxFrame < body.length := by
  rw [FramesAgree, reachesClient_iff, reachesBroker_iff]
  omega

/-- A read that brings as much as it can hold leaves the broker no frame of the client to refuse. -/
theorem readFrame_send (decode : List UInt8 → Except Text Command) (failure : Option Text)
    (queue : List (List UInt8)) (h : send body = .ok frame) :
    Pipe.readFrame decode ⟨frame :: queue, failure⟩ =
      ((decode body).mapError .malformed, ⟨queue, failure⟩) := by
  obtain ⟨hbody, rfl⟩ := send_eq_ok_iff.mp h
  have hfits : (toLeBytes body.length ++ body).length ≤ readLimit := by
    have hchunk : 4 ≤ chunkSize := by decide
    rw [length_frame, readLimit]
    omega
  rw [readFrame_eq, if_pos hfits, parseFrame_frame decode hbody]

/-! ## The longest event -/

/-- The JSON of an event up to its text. -/
def eventStart : Text :=
  "\x7b\"v\":1,\"id\":null,\"type\":\"StageEvent\",\"seq\":1,\"payload\":\"".toList

/-- An event whose JSON is as long as a frame may be. -/
def longestEvent : List UInt8 :=
  bytes eventStart ++ List.replicate (maxFrame - 58) 97 ++ bytes "\"\x7d".toList

theorem length_longestEvent : longestEvent.length = maxFrame := by
  have hstart : (bytes eventStart).length = 56 := by decide
  have hend : (bytes "\"\x7d".toList).length = 2 := by decide
  have hroom : 58 ≤ maxFrame := by decide
  rw [longestEvent, List.length_append, List.length_append, List.length_replicate, hstart, hend]
  omega

/-- The broker writes it, and the client takes it for a message that is too long. -/
theorem not_framesAgree_longestEvent :
    (∃ frame, encode (.ok longestEvent) = .ok frame ∧
      ∀ reads, Arrives frame reads → ∀ deserialize : List UInt8 → Except Text (Option Command),
        receive deserialize reads =
          .error (.invalidOperation "message exceeds the 16 MiB cap".toList)) ∧
      ¬ FramesAgree longestEvent := by
  refine ⟨⟨_, encode_eq_ok_iff.mpr ⟨length_longestEvent.le, rfl⟩, ?_⟩, ?_⟩
  · intro reads harrives deserialize
    have hlong : maxFrame < (toLeBytes longestEvent.length ++ longestEvent).length := by
      rw [length_frame, length_longestEvent]
      exact Nat.lt_add_of_pos_right (by decide)
    rw [receive_of_arrives deserialize harrives, if_pos hlong]
  · rw [framesAgree_iff, length_longestEvent]
    omega

end WardSweep.Broker
