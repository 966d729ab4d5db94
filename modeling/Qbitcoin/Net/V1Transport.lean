import Qbitcoin.Primitives.Transaction
import Qbitcoin.Crypto.Hashes

/-!
# The v1 P2P transport

The framing of `V1Transport` (`net.cpp`, `protocol.h`): a message is sent as a
24-byte header (network magic, message type, payload size and checksum)
followed by the payload; the receiver is a state machine that collects the
header, checks its magic and size, collects the payload and hands the message
out when the checksum and the type are good.

`CNode::ReceiveMsgBytes` drives the receiver over the bytes of one read.  The
sender's bytes reach the receiver intact (`receiveMsgBytes_wireBytes`) exactly
when the payload fits both `MAX_SIZE` and `MAX_PROTOCOL_MESSAGE_LENGTH`; a
larger payload makes the receiver drop the connection.
-/

namespace Qbitcoin

open ByteCodec

/-- `MAX_PROTOCOL_MESSAGE_LENGTH`. -/
def MAX_PROTOCOL_MESSAGE_LENGTH : Nat := 4 * 1000 * 1000

/-- `MessageStartChars`, the network magic. -/
abbrev MessageStartChars := Vector UInt8 4

/-- `CMessageHeader::MESSAGE_TYPE_SIZE`. -/
def MESSAGE_TYPE_SIZE : Nat := 12
/-- `CMessageHeader::HEADER_SIZE`. -/
def HEADER_SIZE : Nat := 24

/-- `CMessageHeader`. -/
structure CMessageHeader where
  pchMessageStart : MessageStartChars
  msgType : Vector UInt8 12
  nMessageSize : UInt32
  pchChecksum : Vector UInt8 4
  deriving DecidableEq, Repr

/-- The bytes of a `Vector` read from a list of the right length. -/
def vectorOfList {n : Nat} (bytes : List UInt8) (sized : bytes.length = n) : Vector UInt8 n :=
  ⟨bytes.toArray, by simpa using sized⟩

/-- The message type field: the name, zero-padded to `MESSAGE_TYPE_SIZE` bytes. -/
def messageTypeField (msgType : List UInt8) : Vector UInt8 12 :=
  vectorOfList ((msgType ++ List.replicate 12 0).take 12) (by simp)

/-- `CMessageHeader(pchMessageStart, msg_type, nMessageSize)`.  The C++ asserts
that the name has at most 12 characters and no zero byte. -/
def CMessageHeader.mk' (pchMessageStart : MessageStartChars) (msgType : List UInt8)
    (nMessageSize : Nat) (pchChecksum : Vector UInt8 4) : CMessageHeader :=
  ⟨pchMessageStart, messageTypeField msgType, UInt32.ofNat nMessageSize, pchChecksum⟩

/-- The header serialization: the four fields in order, 24 bytes. -/
def CMessageHeader.serialize (hdr : CMessageHeader) : List UInt8 :=
  hdr.pchMessageStart.toList ++ hdr.msgType.toList ++ leBytes 4 hdr.nMessageSize.toNat ++
    hdr.pchChecksum.toList

/-- Reading a header back from 24 bytes. -/
def CMessageHeader.deserialize (bytes : List UInt8) (sized : bytes.length = HEADER_SIZE) :
    CMessageHeader :=
  ⟨vectorOfList (bytes.take 4) (by simp [sized, HEADER_SIZE]),
    vectorOfList ((bytes.drop 4).take 12) (by simp [sized, HEADER_SIZE]),
    UInt32.ofNat (readLE ((bytes.drop 16).take 4)),
    vectorOfList (bytes.drop 20) (by simp [sized, HEADER_SIZE])⟩

/-- `CMessageHeader::GetMessageType`: the name up to the first zero byte. -/
def CMessageHeader.getMessageType (hdr : CMessageHeader) : List UInt8 :=
  hdr.msgType.toList.takeWhile (· != 0)

/-- `CMessageHeader::IsMessageTypeValid`: printable characters, then only zeros. -/
def CMessageHeader.isMessageTypeValid (hdr : CMessageHeader) : Bool :=
  let name := hdr.getMessageType
  name.all (fun c => decide (0x20 ≤ c ∧ c ≤ 0x7e)) && (hdr.msgType.toList.drop name.length).all (· == 0)

/-- A received message, `CNetMessage`: its type and payload. -/
structure CNetMessage where
  msgType : List UInt8
  payload : List UInt8
  deriving DecidableEq, Repr

/-- The receiving half of `V1Transport`: the header bytes so far (`nHdrPos` of
them), the parsed header, and the payload bytes so far (`nDataPos` of them). -/
structure V1Recv where
  inData : Bool
  hdrbuf : List UInt8
  hdr : CMessageHeader
  vRecv : List UInt8

/-- `V1Transport::Reset`. -/
def V1Recv.reset (hdr : CMessageHeader) : V1Recv := ⟨false, [], hdr, []⟩

/-- `V1Transport::readHeader`: the number of bytes taken, or `none` for `-1`,
which rejects a wrong magic and messages larger than `MAX_SIZE` or
`MAX_PROTOCOL_MESSAGE_LENGTH`. -/
def V1Recv.readHeader (magic : MessageStartChars) (recv : V1Recv) (msgBytes : List UInt8) :
    Option (Nat × V1Recv) :=
  let nCopy := min (HEADER_SIZE - recv.hdrbuf.length) msgBytes.length
  let hdrbuf := recv.hdrbuf ++ msgBytes.take nCopy
  if complete : hdrbuf.length = HEADER_SIZE then
    let hdr := CMessageHeader.deserialize hdrbuf complete
    if hdr.pchMessageStart != magic then none
    else if hdr.nMessageSize.toNat > MAX_SIZE ∨ hdr.nMessageSize.toNat > MAX_PROTOCOL_MESSAGE_LENGTH then none
    else some (nCopy, { recv with inData := true, hdrbuf, hdr })
  else some (nCopy, { recv with hdrbuf })

/-- `V1Transport::readData`. -/
def V1Recv.readData (recv : V1Recv) (msgBytes : List UInt8) : Nat × V1Recv :=
  let nCopy := min (recv.hdr.nMessageSize.toNat - recv.vRecv.length) msgBytes.length
  (nCopy, { recv with vRecv := recv.vRecv ++ msgBytes.take nCopy })

/-- `V1Transport::ReceivedBytes`: one step of the receiver, `none` when the
peer is to be disconnected. -/
def V1Recv.receivedBytes (magic : MessageStartChars) (recv : V1Recv) (msgBytes : List UInt8) :
    Option (Nat × V1Recv) :=
  if recv.inData then some (recv.readData msgBytes) else recv.readHeader magic msgBytes

/-- `V1Transport::ReceivedMessageComplete`. -/
def V1Recv.receivedMessageComplete (recv : V1Recv) : Bool :=
  recv.inData && recv.hdr.nMessageSize.toNat == recv.vRecv.length

/-- `V1Transport::GetReceivedMessage`: the message, whether to reject it for a
bad checksum or type, and the reset receiver. -/
def V1Recv.getReceivedMessage (hashes : Hashes) (recv : V1Recv) : CNetMessage × Bool × V1Recv :=
  let hash := hashes.hash256 recv.vRecv
  let reject := hash.take 4 != recv.hdr.pchChecksum.toList || !recv.hdr.isMessageTypeValid
  (⟨recv.hdr.getMessageType, recv.vRecv⟩, reject, V1Recv.reset recv.hdr)

/-- The loop of `CNode::ReceiveMsgBytes`: the messages delivered, or `none`
when the peer is disconnected.  A step that takes no byte cannot happen, since
a complete message is always taken out; the model stops there. -/
def receiveMsgBytes (hashes : Hashes) (magic : MessageStartChars) (recv : V1Recv)
    (msgBytes : List UInt8) : Option (List CNetMessage × V1Recv) :=
  if empty : msgBytes = [] then some ([], recv)
  else
    match recv.receivedBytes magic msgBytes with
    | none => none
    | some (nCopy, recv) =>
        if progress : 0 < nCopy then
          if recv.receivedMessageComplete then
            let (msg, reject, recv) := recv.getReceivedMessage hashes
            (receiveMsgBytes hashes magic recv (msgBytes.drop nCopy)).map fun (msgs, recv) =>
              (if reject then msgs else msg :: msgs, recv)
          else receiveMsgBytes hashes magic recv (msgBytes.drop nCopy)
        else some ([], recv)
termination_by msgBytes.length
decreasing_by
  all_goals
    have nonempty := List.length_pos_iff.mpr empty
    simp only [List.length_drop]
    omega

/-- A message type the C++ accepts as a name: at most 12 printable characters. -/
def ValidMessageType (msgType : List UInt8) : Prop :=
  msgType.length ≤ MESSAGE_TYPE_SIZE ∧ ∀ c ∈ msgType, 0x20 ≤ c ∧ c ≤ 0x7e

instance (msgType : List UInt8) : Decidable (ValidMessageType msgType) :=
  inferInstanceAs (Decidable (_ ∧ _))

/-- The header `V1Transport::SetMessageToSend` builds for a payload: its size,
and the first four bytes of its double SHA-256 as the checksum. -/
def sentHeader (hashes : Hashes) (magic : MessageStartChars) (msgType payload : List UInt8) :
    CMessageHeader :=
  CMessageHeader.mk' magic msgType payload.length (vectorOfList ((hashes.hash256 payload).take 4) (by simp))

/-- The bytes `V1Transport` sends for one message: the header, then the payload. -/
def wireBytes (hashes : Hashes) (magic : MessageStartChars) (msgType payload : List UInt8) : List UInt8 :=
  (sentHeader hashes magic msgType payload).serialize ++ payload

theorem vectorOfList_toList {n : Nat} (v : Vector UInt8 n) (sized : v.toList.length = n) :
    vectorOfList v.toList sized = v := by
  cases v
  simp [vectorOfList]

@[simp]
theorem toList_vectorOfList {n : Nat} (bytes : List UInt8) (sized : bytes.length = n) :
    (vectorOfList bytes sized).toList = bytes := by
  simp [vectorOfList]

@[simp]
theorem CMessageHeader.serialize_length (hdr : CMessageHeader) : hdr.serialize.length = HEADER_SIZE := by
  simp [CMessageHeader.serialize, HEADER_SIZE]

theorem CMessageHeader.deserialize_serialize (hdr : CMessageHeader) :
    CMessageHeader.deserialize hdr.serialize hdr.serialize_length = hdr := by
  obtain ⟨magic, msgType, size, checksum⟩ := hdr
  have sizeBytes : readLE (leBytes 4 size.toNat) = size.toNat := readLE_leBytes 4 _ size.toNat_lt
  have magicLength : magic.toList.length = 4 := by simp
  have typeLength : msgType.toList.length = 12 := by simp
  simp [CMessageHeader.deserialize, CMessageHeader.serialize, vectorOfList_toList, List.drop_append,
    List.drop_eq_nil_of_le, magicLength, typeLength, sizeBytes]

theorem CMessageHeader.deserialize_eq {bytes : List UInt8} {hdr : CMessageHeader}
    (sized : bytes.length = HEADER_SIZE) (serialized : bytes = hdr.serialize) :
    CMessageHeader.deserialize bytes sized = hdr := by
  subst serialized
  exact hdr.deserialize_serialize

/-- A receiver that holds no header bytes, given a whole header, takes its 24
bytes and checks its magic and size. -/
theorem V1Recv.readHeader_serialize (magic : MessageStartChars) {recv : V1Recv} (fresh : recv.hdrbuf = [])
    (hdr : CMessageHeader) (rest : List UInt8) :
    recv.readHeader magic (hdr.serialize ++ rest) =
      if hdr.pchMessageStart != magic then none
      else if hdr.nMessageSize.toNat > MAX_SIZE ∨ hdr.nMessageSize.toNat > MAX_PROTOCOL_MESSAGE_LENGTH then none
      else some (HEADER_SIZE, { recv with inData := true, hdrbuf := hdr.serialize, hdr }) := by
  have nCopy : min (HEADER_SIZE - recv.hdrbuf.length) (hdr.serialize ++ rest).length = HEADER_SIZE := by
    simp [fresh]
  have taken : recv.hdrbuf ++ (hdr.serialize ++ rest).take HEADER_SIZE = hdr.serialize := by
    simp [fresh]
  have complete : (recv.hdrbuf ++ (hdr.serialize ++ rest).take HEADER_SIZE).length = HEADER_SIZE := by
    rw [taken, CMessageHeader.serialize_length]
  unfold V1Recv.readHeader
  dsimp only
  simp only [nCopy]
  rw [dif_pos complete, CMessageHeader.deserialize_eq complete taken, taken]

theorem messageTypeField_toList {msgType : List UInt8} (short : msgType.length ≤ MESSAGE_TYPE_SIZE) :
    (messageTypeField msgType).toList = msgType ++ List.replicate (12 - msgType.length) 0 := by
  have fits : msgType.length ≤ 12 := short
  rw [messageTypeField, toList_vectorOfList, List.take_append, List.take_of_length_le fits,
    List.take_replicate, Nat.min_eq_left (Nat.sub_le _ _)]

/-- The name written into a header is the name read back, and it is valid. -/
theorem messageType_of_messageTypeField {msgType : List UInt8} (valid : ValidMessageType msgType)
    {hdr : CMessageHeader} (written : hdr.msgType = messageTypeField msgType) :
    hdr.getMessageType = msgType ∧ hdr.isMessageTypeValid = true := by
  have field := messageTypeField_toList valid.1
  have nonzero : ∀ c ∈ msgType, (c != 0) = true := by
    intro c member
    have printable := (valid.2 c member).1
    simp only [bne_iff_ne, ne_eq]
    rintro rfl
    exact absurd printable (by decide)
  have name : hdr.getMessageType = msgType := by
    rw [CMessageHeader.getMessageType, written, field, List.takeWhile_append_of_pos nonzero]
    cases h : 12 - msgType.length with
    | zero => simp
    | succ k => simp [List.replicate_succ]
  refine ⟨name, ?_⟩
  simp only [CMessageHeader.isMessageTypeValid, name, written, field, List.drop_left]
  simpa [List.all_eq_true] using valid.2

/-- The receiver holding the sent header and the whole payload hands out the
sent message and resets. -/
theorem getReceivedMessage_sent (hashes : Hashes) {magic : MessageStartChars} {msgType : List UInt8}
    (valid : ValidMessageType msgType) {payload : List UInt8} {recv : V1Recv}
    (header : recv.hdr = sentHeader hashes magic msgType payload) (received : recv.vRecv = payload) :
    recv.getReceivedMessage hashes =
      (⟨msgType, payload⟩, false, V1Recv.reset (sentHeader hashes magic msgType payload)) := by
  have named := messageType_of_messageTypeField valid
    (show (sentHeader hashes magic msgType payload).msgType = messageTypeField msgType from rfl)
  have checksum : (sentHeader hashes magic msgType payload).pchChecksum.toList = (hashes.hash256 payload).take 4 := by
    simp [sentHeader, CMessageHeader.mk']
  simp [V1Recv.getReceivedMessage, header, received, named.1, named.2, checksum]

/-- The receiver with no bytes left to read delivers nothing. -/
theorem receiveMsgBytes_nil (hashes : Hashes) (magic : MessageStartChars) (recv : V1Recv) :
    receiveMsgBytes hashes magic recv [] = some ([], recv) := by
  rw [receiveMsgBytes, dif_pos rfl]

/-- The framing round trip: a fresh receiver fed with the bytes the sender
writes for one message delivers that message and is fresh again, if the
payload is within both size limits; otherwise it drops the peer. -/
theorem receiveMsgBytes_wireBytes (hashes : Hashes) (magic : MessageStartChars) {msgType : List UInt8}
    (valid : ValidMessageType msgType) {payload : List UInt8} (fits : payload.length < 2 ^ 32)
    (previous : CMessageHeader) :
    receiveMsgBytes hashes magic (V1Recv.reset previous) (wireBytes hashes magic msgType payload) =
      if payload.length ≤ MAX_SIZE ∧ payload.length ≤ MAX_PROTOCOL_MESSAGE_LENGTH then
        some ([⟨msgType, payload⟩], V1Recv.reset (sentHeader hashes magic msgType payload))
      else none := by
  let hdr := sentHeader hashes magic msgType payload
  let waiting : V1Recv := ⟨true, hdr.serialize, hdr, []⟩
  have sizeField : hdr.nMessageSize.toNat = payload.length := by
    have small : payload.length < 4294967296 := fits
    simp [hdr, sentHeader, CMessageHeader.mk', Nat.mod_eq_of_lt small]
  have headerStep : (V1Recv.reset previous).receivedBytes magic (wireBytes hashes magic msgType payload) =
      if payload.length ≤ MAX_SIZE ∧ payload.length ≤ MAX_PROTOCOL_MESSAGE_LENGTH then
        some (HEADER_SIZE, waiting) else none := by
    have read := V1Recv.readHeader_serialize magic (show (V1Recv.reset previous).hdrbuf = [] from rfl) hdr payload
    have sameMagic : hdr.pchMessageStart = magic := rfl
    rw [V1Recv.receivedBytes, if_neg (by simp [V1Recv.reset]), wireBytes, read]
    simp only [sameMagic, bne_self_eq_false, Bool.false_eq_true, if_false, sizeField, gt_iff_lt, ← not_le,
      ← not_and_or]
    by_cases within : payload.length ≤ MAX_SIZE ∧ payload.length ≤ MAX_PROTOCOL_MESSAGE_LENGTH
    · simp only [within]
      rfl
    · simp [within]
  have delivered : ({ waiting with vRecv := payload } : V1Recv).getReceivedMessage hashes =
      (⟨msgType, payload⟩, false, V1Recv.reset hdr) := getReceivedMessage_sent hashes valid rfl rfl
  have nonempty : wireBytes hashes magic msgType payload ≠ [] := by
    simp [wireBytes, ← List.length_pos_iff, HEADER_SIZE]
  have afterHeader : (wireBytes hashes magic msgType payload).drop HEADER_SIZE = payload := by
    simp [wireBytes]
  rw [receiveMsgBytes, dif_neg nonempty, headerStep]
  by_cases within : payload.length ≤ MAX_SIZE ∧ payload.length ≤ MAX_PROTOCOL_MESSAGE_LENGTH
  · rw [if_pos within, if_pos within]
    simp only [dif_pos (show 0 < HEADER_SIZE by decide), afterHeader]
    by_cases empty : payload = []
    · subst empty
      have complete : waiting.receivedMessageComplete = true := by
        simp [V1Recv.receivedMessageComplete, waiting, sizeField]
      have emptyDelivered : waiting.getReceivedMessage hashes = (⟨msgType, []⟩, false, V1Recv.reset hdr) :=
        delivered
      simp [complete, emptyDelivered, receiveMsgBytes_nil, hdr]
    · have incomplete : waiting.receivedMessageComplete = false := by
        simp [V1Recv.receivedMessageComplete, waiting, sizeField, empty]
      have payloadStep : waiting.receivedBytes magic payload = some (payload.length, { waiting with vRecv := payload }) := by
        simp [V1Recv.receivedBytes, V1Recv.readData, waiting, sizeField]
      have complete : ({ waiting with vRecv := payload } : V1Recv).receivedMessageComplete = true := by
        simp [V1Recv.receivedMessageComplete, waiting, sizeField]
      rw [if_neg (by simp [incomplete]), receiveMsgBytes, dif_neg empty, payloadStep]
      simp [List.length_pos_iff.mpr empty, complete, delivered, receiveMsgBytes_nil, hdr]
  · rw [if_neg within, if_neg within]

end Qbitcoin
