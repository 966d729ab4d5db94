import Qbitcoin.Net.V1Transport

/-!
# The v1 sender and the node's send queue

The sending half of `V1Transport` (`net.cpp`) holds one message at a time: its
serialized header and its payload, whether the header is still going out, and
how many bytes of the current part the socket took.  `CConnman::SocketSendData`
moves messages from the node's queue `vSendMsg` into the transport and offers
the transport's next bytes to the socket, which takes as many as it can;
`CConnman::PushMessage` queues a message and, when nothing was waiting, sends at
once.

Whatever the socket takes, the bytes that leave are the frames of the queued
messages, in order: the bytes sent so far followed by what the node still holds
is the same stream before and after every call (`socketSendData_pending`,
`pushMessage_pending`).
-/

namespace Qbitcoin

/-- `CSerializedNetMsg`: a message to send, its payload and its type. -/
structure CSerializedNetMsg where
  data : List UInt8
  msgType : List UInt8
  deriving DecidableEq, Repr

/-- The frame `V1Transport` sends for a message: its header, then its payload. -/
def CSerializedNetMsg.wire (hashes : Hashes) (magic : MessageStartChars) (msg : CSerializedNetMsg) : List UInt8 :=
  wireBytes hashes magic msg.msgType msg.data

/-- The message a receiver hands out for it. -/
def CSerializedNetMsg.received (msg : CSerializedNetMsg) : CNetMessage :=
  ⟨msg.msgType, msg.data⟩

/-- The frames of several messages, one after another. -/
def streamBytes (hashes : Hashes) (magic : MessageStartChars) (msgs : List CSerializedNetMsg) : List UInt8 :=
  msgs.flatMap (CSerializedNetMsg.wire hashes magic)

@[simp] theorem streamBytes_nil (hashes : Hashes) (magic : MessageStartChars) : streamBytes hashes magic [] = [] :=
  rfl

@[simp] theorem streamBytes_cons (hashes : Hashes) (magic : MessageStartChars) (msg : CSerializedNetMsg)
    (msgs : List CSerializedNetMsg) :
    streamBytes hashes magic (msg :: msgs) = msg.wire hashes magic ++ streamBytes hashes magic msgs :=
  List.flatMap_cons

@[simp] theorem streamBytes_append (hashes : Hashes) (magic : MessageStartChars) (msgs more : List CSerializedNetMsg) :
    streamBytes hashes magic (msgs ++ more) = streamBytes hashes magic msgs ++ streamBytes hashes magic more :=
  List.flatMap_append

/-- A message its peer takes: a type of at most twelve printable characters, and
a payload within `MAX_PROTOCOL_MESSAGE_LENGTH`. -/
structure CSerializedNetMsg.Sendable (msg : CSerializedNetMsg) : Prop where
  validType : ValidMessageType msg.msgType
  fits : msg.data.length ≤ MAX_PROTOCOL_MESSAGE_LENGTH

instance (msg : CSerializedNetMsg) : Decidable msg.Sendable :=
  decidable_of_iff (ValidMessageType msg.msgType ∧ msg.data.length ≤ MAX_PROTOCOL_MESSAGE_LENGTH)
    ⟨fun ⟨valid, fits⟩ => ⟨valid, fits⟩, fun sendable => ⟨sendable.validType, sendable.fits⟩⟩

/-- The sending half of `V1Transport`. -/
structure V1Send where
  headerToSend : List UInt8
  messageToSend : CSerializedNetMsg
  sendingHeader : Bool
  bytesSent : Nat

/-- The sending half of a new `V1Transport`: no message. -/
def V1Send.init : V1Send := ⟨[], ⟨[], []⟩, false, 0⟩

/-- `V1Transport::SetMessageToSend`: `none` (false) while the current message is
not all sent; otherwise the new message with its header, which carries the
first four bytes of the payload's double SHA-256. -/
def V1Send.setMessageToSend (hashes : Hashes) (magic : MessageStartChars) (send : V1Send) (msg : CSerializedNetMsg) :
    Option V1Send :=
  if send.sendingHeader || decide (send.bytesSent < send.messageToSend.data.length) then none
  else some
    { headerToSend := (sentHeader hashes magic msg.msgType msg.data).serialize
      messageToSend := msg
      sendingHeader := true
      bytesSent := 0 }

/-- `V1Transport::GetBytesToSend`: the bytes to send next, whether more follow
them, and the type of the message they belong to. -/
def V1Send.getBytesToSend (send : V1Send) (haveNextMessage : Bool) : List UInt8 × Bool × List UInt8 :=
  if send.sendingHeader then
    (send.headerToSend.drop send.bytesSent, haveNextMessage || !send.messageToSend.data.isEmpty,
      send.messageToSend.msgType)
  else (send.messageToSend.data.drop send.bytesSent, haveNextMessage, send.messageToSend.msgType)

/-- `V1Transport::MarkBytesSent`: once the payload is out, `ClearShrink`
empties it. -/
def V1Send.markBytesSent (send : V1Send) (bytesSent : Nat) : V1Send :=
  let sent := send.bytesSent + bytesSent
  if send.sendingHeader && sent == send.headerToSend.length then
    { send with sendingHeader := false, bytesSent := 0 }
  else if !send.sendingHeader && sent == send.messageToSend.data.length then
    { send with messageToSend := { send.messageToSend with data := [] }, bytesSent := 0 }
  else { send with bytesSent := sent }

/-- The send side of a `CNode`: the queue `vSendMsg` and the transport. -/
structure CNodeSend where
  vSendMsg : List CSerializedNetMsg
  transport : V1Send

/-- The first step of a round of `SocketSendData`: the queue's first message
moves into the transport if the transport takes it. -/
def CNodeSend.moveToTransport (hashes : Hashes) (magic : MessageStartChars) (node : CNodeSend) : CNodeSend :=
  match node.vSendMsg with
  | [] => node
  | msg :: rest =>
    match node.transport.setMessageToSend hashes magic msg with
    | some transport => ⟨rest, transport⟩
    | none => node

/-- `CConnman::SocketSendData`: rounds of moving a message into the transport
and offering its next bytes to the socket.  The socket's successive `Send`
calls take `accepted` bytes, at most what they are offered; the loop stops when
the socket takes less than offered or nothing, or has nothing more to take.
The node afterwards, and the bytes that went out. -/
def socketSendData (hashes : Hashes) (magic : MessageStartChars) (node : CNodeSend) (accepted : List Nat) :
    CNodeSend × List UInt8 :=
  let node := node.moveToTransport hashes magic
  let data := (node.transport.getBytesToSend !node.vSendMsg.isEmpty).1
  match accepted with
  | [] => (node, [])
  | taken :: later =>
    let nBytes := min taken data.length
    if nBytes = 0 then (node, [])
    else
      let node := { node with transport := node.transport.markBytesSent nBytes }
      if nBytes = data.length then
        let sent := socketSendData hashes magic node later
        (sent.1, data.take nBytes ++ sent.2)
      else (node, data.take nBytes)

/-- `CConnman::PushMessage`: queue the message; if neither the transport nor the
queue held anything, send at once ("optimistic write"). -/
def pushMessage (hashes : Hashes) (magic : MessageStartChars) (node : CNodeSend) (msg : CSerializedNetMsg)
    (accepted : List Nat) : CNodeSend × List UInt8 :=
  let (toSend, more, _) := node.transport.getBytesToSend true
  let queueWasEmpty := toSend.isEmpty && node.vSendMsg.isEmpty
  let node := { node with vSendMsg := node.vSendMsg ++ [msg] }
  if queueWasEmpty && more then socketSendData hashes magic node accepted else (node, [])

/-! ### The bytes a node still has to send -/

/-- The bytes of the current message the transport has not sent. -/
def V1Send.pending (send : V1Send) : List UInt8 :=
  if send.sendingHeader then send.headerToSend.drop send.bytesSent ++ send.messageToSend.data
  else send.messageToSend.data.drop send.bytesSent

/-- Every byte the node still has to send: the transport's, then the queue's. -/
def CNodeSend.pending (hashes : Hashes) (magic : MessageStartChars) (node : CNodeSend) : List UInt8 :=
  node.transport.pending ++ streamBytes hashes magic node.vSendMsg

/-- While the transport sends a header, part of it is left. -/
def V1Send.Consistent (send : V1Send) : Prop :=
  send.sendingHeader = true → send.bytesSent < send.headerToSend.length

theorem V1Send.init_consistent : V1Send.init.Consistent := fun impossible => absurd impossible Bool.false_ne_true

@[simp] theorem V1Send.init_pending : V1Send.init.pending = [] := rfl

/-- What the transport offers is the front of what it has pending; behind it
is the payload, while the header goes out. -/
theorem V1Send.pending_eq (send : V1Send) (haveNextMessage : Bool) :
    send.pending =
      (send.getBytesToSend haveNextMessage).1 ++ if send.sendingHeader then send.messageToSend.data else [] := by
  unfold pending getBytesToSend
  split <;> simp

/-- A consistent transport that offers nothing has nothing pending. -/
theorem V1Send.pending_eq_nil {send : V1Send} (consistent : send.Consistent) {haveNextMessage : Bool}
    (nothing : (send.getBytesToSend haveNextMessage).1 = []) : send.pending = [] := by
  cases header : send.sendingHeader
  · rw [pending_eq send haveNextMessage, nothing, header]
    rfl
  · have left := consistent header
    simp only [getBytesToSend, header, if_true, List.drop_eq_nil_iff] at nothing
    omega

/-- The transport takes a new message only when it has nothing pending, and
then it has the message's frame pending. -/
theorem V1Send.setMessageToSend_eq_some {hashes : Hashes} {magic : MessageStartChars} {send next : V1Send}
    {msg : CSerializedNetMsg} (set : send.setMessageToSend hashes magic msg = some next) :
    send.pending = [] ∧ next.pending = msg.wire hashes magic ∧ next.Consistent := by
  unfold setMessageToSend at set
  split at set
  · cases set
  · rename_i idle
    cases set
    simp only [Bool.or_eq_true, decide_eq_true_eq, not_or, Bool.not_eq_true, not_lt] at idle
    refine ⟨?_, ?_, ?_⟩
    · simp [pending, idle.1, List.drop_eq_nil_of_le idle.2]
    · simp [pending, CSerializedNetMsg.wire, wireBytes]
    · intro
      simp [HEADER_SIZE]

/-- Marking `n` of the offered bytes sent drops them from what is pending. -/
theorem V1Send.markBytesSent_pending {send : V1Send} (consistent : send.Consistent) {haveNextMessage : Bool}
    {n : Nat} (offered : n ≤ (send.getBytesToSend haveNextMessage).1.length) :
    (send.markBytesSent n).pending = send.pending.drop n ∧ (send.markBytesSent n).Consistent := by
  cases header : send.sendingHeader
  · simp only [getBytesToSend, header] at offered
    by_cases done : send.bytesSent + n = send.messageToSend.data.length
    · simp [markBytesSent, pending, header, done, Consistent]
    · simp [markBytesSent, pending, header, done, Consistent]
  · have left := consistent header
    simp only [getBytesToSend, header, if_true, List.length_drop] at offered
    by_cases done : send.bytesSent + n = send.headerToSend.length
    · have dropped : (send.headerToSend.drop send.bytesSent).length = n := by
        rw [List.length_drop]
        omega
      simp only [markBytesSent, pending, header, done, beq_self_eq_true, Bool.and_self, if_true, Bool.false_eq_true,
        if_false, List.drop_zero]
      refine ⟨?_, fun impossible => absurd impossible Bool.false_ne_true⟩
      rw [List.drop_append_of_le_length (by omega), List.drop_eq_nil_of_le (by omega)]
      rfl
    · have short : send.bytesSent + n < send.headerToSend.length := by omega
      simp [markBytesSent, pending, header, done]
      refine ⟨?_, fun _ => short⟩
      rw [List.drop_append_of_le_length (by rw [List.length_drop]; omega), List.drop_drop]

/-- Moving a message into the transport keeps every pending byte where it was. -/
theorem CNodeSend.moveToTransport_pending (hashes : Hashes) (magic : MessageStartChars) {node : CNodeSend}
    (consistent : node.transport.Consistent) :
    (node.moveToTransport hashes magic).pending hashes magic = node.pending hashes magic ∧
      (node.moveToTransport hashes magic).transport.Consistent := by
  unfold moveToTransport
  split
  · exact ⟨rfl, consistent⟩
  · rename_i msg rest queue
    split
    · rename_i next set
      obtain ⟨empty, full, consistentNext⟩ := V1Send.setMessageToSend_eq_some set
      refine ⟨?_, consistentNext⟩
      simp [pending, queue, empty, full]
    · exact ⟨rfl, consistent⟩

/-- Sending `n` of the bytes the transport offers: they leave, and the rest is
still pending. -/
theorem CNodeSend.take_append_pending_markBytesSent (hashes : Hashes) (magic : MessageStartChars)
    {node : CNodeSend} (consistent : node.transport.Consistent) {haveNextMessage : Bool} {n : Nat}
    (offered : n ≤ (node.transport.getBytesToSend haveNextMessage).1.length) :
    (node.transport.getBytesToSend haveNextMessage).1.take n ++
        ({ node with transport := node.transport.markBytesSent n } : CNodeSend).pending hashes magic =
      node.pending hashes magic ∧ (node.transport.markBytesSent n).Consistent := by
  obtain ⟨marked, consistentMarked⟩ := V1Send.markBytesSent_pending consistent offered
  refine ⟨?_, consistentMarked⟩
  have front := V1Send.pending_eq node.transport haveNextMessage
  simp only [pending, marked, ← List.append_assoc]
  rw [front, List.drop_append_of_le_length offered, ← List.append_assoc,
    List.take_append_drop]

/-- The bytes `SocketSendData` sends, followed by what the node holds after it,
are what the node held before.  The induction is on the socket's answers, one
round each. -/
theorem socketSendData_pending (hashes : Hashes) (magic : MessageStartChars) (accepted : List Nat) {node : CNodeSend}
    (consistent : node.transport.Consistent) :
    (socketSendData hashes magic node accepted).2 ++ (socketSendData hashes magic node accepted).1.pending hashes magic =
        node.pending hashes magic ∧
      (socketSendData hashes magic node accepted).1.transport.Consistent := by
  induction accepted generalizing node with
  | nil =>
    exact CNodeSend.moveToTransport_pending hashes magic consistent
  | cons taken later inductionHypothesis =>
    obtain ⟨moved, consistentMoved⟩ := CNodeSend.moveToTransport_pending hashes magic consistent
    simp only [socketSendData]
    generalize node.moveToTransport hashes magic = next at moved consistentMoved ⊢
    have offered : min taken (next.transport.getBytesToSend !next.vSendMsg.isEmpty).1.length ≤
        (next.transport.getBytesToSend !next.vSendMsg.isEmpty).1.length :=
      Nat.min_le_right _ _
    obtain ⟨sent, consistentSent⟩ :=
      CNodeSend.take_append_pending_markBytesSent hashes magic consistentMoved offered
    generalize (next.transport.getBytesToSend !next.vSendMsg.isEmpty).1 = data at sent offered consistentSent ⊢
    generalize min taken data.length = nBytes at sent offered consistentSent ⊢
    by_cases nothing : nBytes = 0
    · simp only [if_pos nothing, List.nil_append]
      exact ⟨moved, consistentMoved⟩
    · by_cases all : nBytes = data.length
      · simp only [if_neg nothing, if_pos all]
        obtain ⟨rest, consistentRest⟩ :=
          inductionHypothesis
            (show ({ next with transport := next.transport.markBytesSent nBytes } : CNodeSend).transport.Consistent
              from consistentSent)
        refine ⟨?_, consistentRest⟩
        rw [List.append_assoc, rest, sent, moved]
      · simp only [if_neg nothing, if_neg all]
        exact ⟨sent.trans moved, consistentSent⟩

/-- `PushMessage` puts the message's frame behind every byte the node held,
whether it sends at once or not. -/
theorem pushMessage_pending (hashes : Hashes) (magic : MessageStartChars) (msg : CSerializedNetMsg)
    (accepted : List Nat) {node : CNodeSend} (consistent : node.transport.Consistent) :
    (pushMessage hashes magic node msg accepted).2 ++ (pushMessage hashes magic node msg accepted).1.pending hashes magic =
        node.pending hashes magic ++ msg.wire hashes magic ∧
      (pushMessage hashes magic node msg accepted).1.transport.Consistent := by
  have queued : ({ node with vSendMsg := node.vSendMsg ++ [msg] } : CNodeSend).pending hashes magic =
      node.pending hashes magic ++ msg.wire hashes magic := by
    simp [CNodeSend.pending]
  unfold pushMessage
  split
  dsimp only
  split
  · rw [← queued]
    exact socketSendData_pending hashes magic accepted consistent
  · exact ⟨queued, consistent⟩

end Qbitcoin
