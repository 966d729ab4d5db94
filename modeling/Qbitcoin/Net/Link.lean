import Qbitcoin.Net.Receive
import Qbitcoin.Lib.Simulation

/-!
# A v1 connection, end to end

One direction of a connection between two nodes: the sending node's queue and
transport, the bytes its socket took that the other side has not read, and the
receiving node's transport with the messages it handed on for processing.
Three things happen, in any order and any number of times: the sender pushes a
message (`CConnman::PushMessage`), its socket handler sends what the socket
takes (`CConnman::SocketSendData`), and the receiver reads some of the bytes in
flight (`CNode::ReceiveMsgBytes`, disconnecting when it fails).

Over every run in which the pushed messages are within the protocol's limits,
the receiver never drops the connection and has handed on the pushed messages
in order, each once, up to some point; once everything is sent and read, it
has handed on all of them (`link_delivers_pushed_in_order`).  The proof keeps
one invariant (`Link.Carries`): the bytes read, those in flight and those the
sender holds are the frames of the pushed messages, and the receiver is where
the bytes read brought it.
-/

namespace Qbitcoin

/-- One direction of a connection. -/
structure Link where
  sender : CNodeSend
  inFlight : List UInt8
  receiver : V1Recv
  delivered : List CNetMessage
  disconnected : Bool

/-- A new connection: empty queue, new transports, nothing in flight. -/
def Link.initial : Link := ⟨⟨[], V1Send.init⟩, [], V1Recv.init, [], false⟩

/-- What can happen on a connection. -/
inductive LinkOp where
  /-- `PushMessage`, whose optimistic send the socket takes `accepted` bytes of. -/
  | push (msg : CSerializedNetMsg) (accepted : List Nat)
  /-- `SocketSendData` from the socket handler. -/
  | send (accepted : List Nat)
  /-- A read of up to `n` bytes in flight, handed to `ReceiveMsgBytes`. -/
  | recv (n : Nat)

/-- One event on the connection.  A read that finds nothing does nothing; a
failed `ReceiveMsgBytes` disconnects, and a disconnected receiver reads no more. -/
def Link.step (hashes : Hashes) (magic : MessageStartChars) : LinkOp → Link → Link
  | .push msg accepted, link =>
    let sent := pushMessage hashes magic link.sender msg accepted
    { link with sender := sent.1, inFlight := link.inFlight ++ sent.2 }
  | .send accepted, link =>
    let sent := socketSendData hashes magic link.sender accepted
    { link with sender := sent.1, inFlight := link.inFlight ++ sent.2 }
  | .recv n, link =>
    let bytes := link.inFlight.take n
    if link.disconnected || bytes.isEmpty then link
    else
      match receiveMsgBytes hashes magic link.receiver bytes with
      | none => { link with inFlight := link.inFlight.drop n, disconnected := true }
      | some (msgs, receiver) =>
        { link with inFlight := link.inFlight.drop n, receiver, delivered := link.delivered ++ msgs }

/-- The messages a run pushes, in order. -/
def LinkOp.pushed : List LinkOp → List CSerializedNetMsg
  | [] => []
  | .push msg _ :: ops => msg :: LinkOp.pushed ops
  | _ :: ops => LinkOp.pushed ops

/-- Everything pushed was sent and read: the queue is empty, the transport
offers nothing, and nothing is in flight. -/
def Link.Drained (link : Link) : Prop :=
  link.sender.vSendMsg = [] ∧ (link.sender.transport.getBytesToSend false).1 = [] ∧ link.inFlight = []

/-- The connection carries the messages `pushed`: the bytes read so far, those
in flight and those the sender holds are their frames, in order, and the bytes
read brought a new receiver to this receiver and these delivered messages. -/
structure Link.Carries (hashes : Hashes) (magic : MessageStartChars) (pushed : List CSerializedNetMsg) (link : Link) :
    Prop where
  consistent : link.sender.transport.Consistent
  connected : link.disconnected = false
  stream : ∃ read, read ++ link.inFlight ++ link.sender.pending hashes magic = streamBytes hashes magic pushed ∧
    receiveMsgBytes hashes magic V1Recv.init read = some (link.delivered, link.receiver)

section Carries

variable {hashes : Hashes} {magic : MessageStartChars} {pushed : List CSerializedNetMsg} {link : Link}

theorem Link.initial_carries : Link.initial.Carries hashes magic [] :=
  ⟨V1Send.init_consistent, rfl, [], rfl, receiveMsgBytes_nil hashes magic _⟩

/-- What the receiver will make of the bytes still to come: the rest of the
pushed messages, from a pending state. -/
theorem Link.Carries.remaining (sendable : ∀ msg ∈ pushed, msg.Sendable) (carries : link.Carries hashes magic pushed) :
    link.receiver.Pending ∧ ∃ rest last,
      receiveMsgBytes hashes magic link.receiver (link.inFlight ++ link.sender.pending hashes magic) = some (rest, last) ∧
        pushed.map CSerializedNetMsg.received = link.delivered ++ rest := by
  obtain ⟨read, joined, readSoFar⟩ := carries.stream
  have chunked := receiveMsgBytes_chunked hashes magic
  obtain ⟨last, whole⟩ := receiveMsgBytes_stream hashes magic sendable CMessageHeader.unset
  rw [← joined, List.append_assoc] at whole
  obtain ⟨first, middle, rest, firstPart, restPart, split⟩ :=
    (chunked.append_eq_some V1Recv.init_bounded.pending).mp whole
  rw [readSoFar, Option.some.injEq, Prod.mk.injEq] at firstPart
  obtain ⟨rfl, rfl⟩ := firstPart
  exact ⟨receiveMsgBytes_pending hashes magic V1Recv.init_bounded.pending readSoFar, rest, V1Recv.reset last, restPart,
    split⟩

/-- A push puts the message's frame behind everything in flight or held. -/
theorem Link.Carries.push (carries : link.Carries hashes magic pushed) (msg : CSerializedNetMsg) (accepted : List Nat) :
    (Link.step hashes magic (.push msg accepted) link).Carries hashes magic (pushed ++ [msg]) := by
  obtain ⟨sent, consistentSent⟩ := pushMessage_pending hashes magic msg accepted carries.consistent
  obtain ⟨read, joined, readSoFar⟩ := carries.stream
  refine ⟨consistentSent, carries.connected, read, ?_, readSoFar⟩
  simp only [Link.step, List.append_assoc, sent, streamBytes_append, ← joined]
  simp [CSerializedNetMsg.wire, streamBytes]

/-- A send moves bytes from the sender into flight, in order. -/
theorem Link.Carries.send (carries : link.Carries hashes magic pushed) (accepted : List Nat) :
    (Link.step hashes magic (.send accepted) link).Carries hashes magic pushed := by
  obtain ⟨sent, consistentSent⟩ := socketSendData_pending hashes magic accepted carries.consistent
  obtain ⟨read, joined, readSoFar⟩ := carries.stream
  refine ⟨consistentSent, carries.connected, read, ?_, readSoFar⟩
  simp only [Link.step, List.append_assoc, sent, ← joined]

/-- A read hands the first bytes in flight to the receiver, which takes them
without failing: they are part of the frames of messages it accepts. -/
theorem Link.Carries.recv (sendable : ∀ msg ∈ pushed, msg.Sendable) (carries : link.Carries hashes magic pushed)
    (n : Nat) : (Link.step hashes magic (.recv n) link).Carries hashes magic pushed := by
  obtain ⟨pending, rest, last, remaining, -⟩ := carries.remaining sendable
  obtain ⟨read, joined, readSoFar⟩ := carries.stream
  have chunked := receiveMsgBytes_chunked hashes magic
  rw [← List.take_append_drop n link.inFlight, List.append_assoc] at remaining
  obtain ⟨msgs, receiver, -, taken, -, -⟩ := (chunked.append_eq_some pending).mp remaining
  by_cases nothing : (link.inFlight.take n).isEmpty = true
  · simpa [Link.step, carries.connected, nothing] using carries
  · have readMore : receiveMsgBytes hashes magic V1Recv.init (read ++ link.inFlight.take n) =
        some (link.delivered ++ msgs, receiver) :=
      (chunked.append_eq_some V1Recv.init_bounded.pending).mpr ⟨_, _, _, readSoFar, taken, rfl⟩
    simp only [Link.step, carries.connected, Bool.false_or, nothing, Bool.false_eq_true, if_false, taken]
    refine ⟨carries.consistent, rfl, read ++ link.inFlight.take n, ?_, readMore⟩
    rw [← joined, List.append_assoc read, List.take_append_drop]

/-- The invariant over a whole run: the induction is on the events, each kept
by its lemma. -/
theorem Link.Carries.runOps (ops : List LinkOp) (sendable : ∀ msg ∈ pushed ++ LinkOp.pushed ops, msg.Sendable)
    (carries : link.Carries hashes magic pushed) :
    (runOps (Link.step hashes magic) ops link).Carries hashes magic (pushed ++ LinkOp.pushed ops) := by
  induction ops generalizing pushed link with
  | nil => simpa [LinkOp.pushed] using carries
  | cons op ops inductionHypothesis =>
    have before : ∀ msg ∈ pushed, msg.Sendable := fun msg member => sendable msg (List.mem_append_left _ member)
    cases op with
    | push msg accepted =>
      have next := inductionHypothesis (by simpa [LinkOp.pushed] using sendable) (carries.push msg accepted)
      simpa [LinkOp.pushed] using next
    | send accepted =>
      exact inductionHypothesis (by simpa [LinkOp.pushed] using sendable) (carries.send accepted)
    | recv n =>
      exact inductionHypothesis (by simpa [LinkOp.pushed] using sendable) (carries.recv before n)

/-- Once the sender holds nothing and nothing is in flight, everything pushed
was handed on. -/
theorem Link.Carries.delivered_of_drained (sendable : ∀ msg ∈ pushed, msg.Sendable)
    (carries : link.Carries hashes magic pushed) (drained : link.Drained) :
    link.delivered = pushed.map CSerializedNetMsg.received := by
  obtain ⟨pending, rest, last, remaining, split⟩ := carries.remaining sendable
  obtain ⟨queueEmpty, nothingOffered, nothingInFlight⟩ := drained
  have held : link.sender.pending hashes magic = [] := by
    simp [CNodeSend.pending, queueEmpty, V1Send.pending_eq_nil carries.consistent nothingOffered]
  rw [nothingInFlight, held, List.append_nil, receiveMsgBytes_nil, Option.some.injEq, Prod.mk.injEq] at remaining
  rw [split, ← remaining.1, List.append_nil]

end Carries

/-- Over every run of a connection in which the pushed messages have valid
types and payloads within `MAX_PROTOCOL_MESSAGE_LENGTH`, whatever the sockets
take and however the reads cut the stream: the receiver never disconnects, the
messages it handed on are the pushed ones, in order and each once, up to some
point, and once everything is sent and read they are all of them. -/
theorem link_delivers_pushed_in_order (hashes : Hashes) (magic : MessageStartChars) (ops : List LinkOp)
    (sendable : ∀ msg ∈ LinkOp.pushed ops, msg.Sendable) :
    (runOps (Link.step hashes magic) ops Link.initial).disconnected = false ∧
      (runOps (Link.step hashes magic) ops Link.initial).delivered <+:
        (LinkOp.pushed ops).map CSerializedNetMsg.received ∧
      ((runOps (Link.step hashes magic) ops Link.initial).Drained →
        (runOps (Link.step hashes magic) ops Link.initial).delivered =
          (LinkOp.pushed ops).map CSerializedNetMsg.received) := by
  have carries := (Link.initial_carries : Link.initial.Carries hashes magic []).runOps ops (by simpa using sendable)
  rw [List.nil_append] at carries
  obtain ⟨-, rest, -, -, split⟩ := carries.remaining sendable
  exact ⟨carries.connected, split ▸ List.prefix_append _ _, carries.delivered_of_drained sendable⟩

theorem link_delivers_pushed_in_order_ping :
    (∀ msg ∈ LinkOp.pushed [.push ⟨[], [0x70, 0x69, 0x6e, 0x67]⟩ [10, 14], .recv 7, .recv 17], msg.Sendable) ∧
      (runOps (Link.step Hashes.zeros (Vector.replicate 4 0))
          [.push ⟨[], [0x70, 0x69, 0x6e, 0x67]⟩ [10, 14], .recv 7, .recv 17] Link.initial).disconnected = false ∧
      (runOps (Link.step Hashes.zeros (Vector.replicate 4 0))
          [.push ⟨[], [0x70, 0x69, 0x6e, 0x67]⟩ [10, 14], .recv 7, .recv 17] Link.initial).delivered <+:
        (LinkOp.pushed [.push ⟨[], [0x70, 0x69, 0x6e, 0x67]⟩ [10, 14], .recv 7, .recv 17]).map
          CSerializedNetMsg.received ∧
      ((runOps (Link.step Hashes.zeros (Vector.replicate 4 0))
          [.push ⟨[], [0x70, 0x69, 0x6e, 0x67]⟩ [10, 14], .recv 7, .recv 17] Link.initial).Drained →
        (runOps (Link.step Hashes.zeros (Vector.replicate 4 0))
          [.push ⟨[], [0x70, 0x69, 0x6e, 0x67]⟩ [10, 14], .recv 7, .recv 17] Link.initial).delivered =
          (LinkOp.pushed [.push ⟨[], [0x70, 0x69, 0x6e, 0x67]⟩ [10, 14], .recv 7, .recv 17]).map
            CSerializedNetMsg.received) :=
  have sendable : ∀ msg ∈ LinkOp.pushed [.push ⟨[], [0x70, 0x69, 0x6e, 0x67]⟩ [10, 14], .recv 7, .recv 17],
      msg.Sendable := by
    simp only [LinkOp.pushed, List.mem_singleton, forall_eq]
    exact ⟨⟨by decide, by simp⟩, by decide⟩
  ⟨sendable, link_delivers_pushed_in_order Hashes.zeros (Vector.replicate 4 0) _ sendable⟩

end Qbitcoin
