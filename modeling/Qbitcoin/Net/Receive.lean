import Qbitcoin.Net.Send
import Qbitcoin.Lib.Transducer

/-!
# The v1 receiver over any cut of the stream

`CNode::ReceiveMsgBytes` runs once for each read of the socket, and the kernel
cuts the peer's bytes into reads as it likes.  Between two reads the receiver
holds part of a header, or a whole header and part of its payload
(`V1Recv.Pending`).  From such a state the receiver is chunked
(`receiveMsgBytes_chunked`): what it hands out and the state it is left in
depend on the bytes only, not on how they were cut.  Over the frames of
messages within the limits, a fresh receiver hands out exactly those messages
(`receiveMsgBytes_stream`); over any bytes at all, it never holds more than one
header and one payload of at most `MAX_PROTOCOL_MESSAGE_LENGTH` bytes.
-/

namespace Qbitcoin

/-- The header of a new `V1Transport`, `CMessageHeader()`: zeros, but for the
size, which is `std::numeric_limits<uint32_t>::max()`. -/
def CMessageHeader.unset : CMessageHeader :=
  ⟨Vector.replicate 4 0, Vector.replicate 12 0, 0xFFFFFFFF, Vector.replicate 4 0⟩

/-- The receiving half of a new `V1Transport`, which its constructor `Reset`s. -/
def V1Recv.init : V1Recv := V1Recv.reset CMessageHeader.unset

/-- The receiver between two reads: a header not yet whole and no payload
bytes, or a payload not yet whole. -/
structure V1Recv.Pending (recv : V1Recv) : Prop where
  header : recv.inData = false → recv.hdrbuf.length < HEADER_SIZE ∧ recv.vRecv = []
  payload : recv.inData = true → recv.vRecv.length < recv.hdr.nMessageSize.toNat

/-- The most bytes the receiver's next step takes: the rest of the header, or
the rest of the payload. -/
def V1Recv.need (recv : V1Recv) : Nat :=
  if recv.inData then recv.hdr.nMessageSize.toNat - recv.vRecv.length else HEADER_SIZE - recv.hdrbuf.length

/-- The receiver with `bytes` added to the part it collects. -/
def V1Recv.absorb (recv : V1Recv) (bytes : List UInt8) : V1Recv :=
  if recv.inData then { recv with vRecv := recv.vRecv ++ bytes } else { recv with hdrbuf := recv.hdrbuf ++ bytes }

/-- The rest of `readHeader` once its buffer holds `hdrbuf`: a whole header is
read and checked, and the receiver goes on to the payload. -/
def V1Recv.headerFilled (magic : MessageStartChars) (recv : V1Recv) (hdrbuf : List UInt8) : Option V1Recv :=
  if complete : hdrbuf.length = HEADER_SIZE then
    let hdr := CMessageHeader.deserialize hdrbuf complete
    if hdr.pchMessageStart != magic then none
    else if hdr.nMessageSize.toNat > MAX_SIZE ∨ hdr.nMessageSize.toNat > MAX_PROTOCOL_MESSAGE_LENGTH then none
    else some { recv with inData := true, hdrbuf, hdr }
  else some { recv with hdrbuf }

/-- The rest of a turn of the `ReceiveMsgBytes` loop after a step that took
bytes and left the receiver at `next`: a complete message is taken out, then
the loop goes on with the `rest` of the read. -/
def afterStep (hashes : Hashes) (magic : MessageStartChars) (next : V1Recv) (rest : List UInt8) :
    Option (List CNetMessage × V1Recv) :=
  if next.receivedMessageComplete then
    let (msg, reject, fresh) := next.getReceivedMessage hashes
    (receiveMsgBytes hashes magic fresh rest).map fun (msgs, last) => (if reject then msgs else msg :: msgs, last)
  else receiveMsgBytes hashes magic next rest

/-! ### One step of the receiver -/

theorem V1Recv.reset_pending (hdr : CMessageHeader) : (V1Recv.reset hdr).Pending :=
  ⟨fun _ => ⟨by simp [V1Recv.reset, HEADER_SIZE], rfl⟩, fun impossible => absurd impossible Bool.false_ne_true⟩

theorem V1Recv.receivedBytes_of_header (magic : MessageStartChars) {recv : V1Recv} (inData : recv.inData = false)
    (bytes : List UInt8) : recv.receivedBytes magic bytes = recv.readHeader magic bytes := by
  simp only [receivedBytes, inData, Bool.false_eq_true, if_false]

theorem V1Recv.receivedBytes_of_payload (magic : MessageStartChars) {recv : V1Recv} (inData : recv.inData = true)
    (bytes : List UInt8) : recv.receivedBytes magic bytes = some (recv.readData bytes) := by
  simp only [receivedBytes, inData, if_true]

theorem V1Recv.absorb_of_header {recv : V1Recv} (inData : recv.inData = false) (bytes : List UInt8) :
    recv.absorb bytes = { recv with hdrbuf := recv.hdrbuf ++ bytes } := by
  simp only [V1Recv.absorb, inData, Bool.false_eq_true, if_false]

theorem V1Recv.absorb_of_payload {recv : V1Recv} (inData : recv.inData = true) (bytes : List UInt8) :
    recv.absorb bytes = { recv with vRecv := recv.vRecv ++ bytes } := by
  simp only [V1Recv.absorb, inData, if_true]

theorem V1Recv.need_of_header {recv : V1Recv} (inData : recv.inData = false) :
    recv.need = HEADER_SIZE - recv.hdrbuf.length := by
  simp only [need, inData, Bool.false_eq_true, if_false]

theorem V1Recv.need_of_payload {recv : V1Recv} (inData : recv.inData = true) :
    recv.need = recv.hdr.nMessageSize.toNat - recv.vRecv.length := by
  simp only [need, inData, if_true]

/-- The header buffer a receiver held before does not matter once it is replaced. -/
theorem V1Recv.headerFilled_hdrbuf (magic : MessageStartChars) (recv : V1Recv) (before hdrbuf : List UInt8) :
    ({ recv with hdrbuf := before } : V1Recv).headerFilled magic hdrbuf = recv.headerFilled magic hdrbuf :=
  rfl

theorem V1Recv.Pending.need_pos {recv : V1Recv} (pending : recv.Pending) : 0 < recv.need := by
  cases inData : recv.inData
  · have left := (pending.header inData).1
    rw [need_of_header inData]
    omega
  · have left := pending.payload inData
    rw [need_of_payload inData]
    omega

theorem V1Recv.Pending.complete_eq_false {recv : V1Recv} (pending : recv.Pending) :
    recv.receivedMessageComplete = false := by
  unfold receivedMessageComplete
  cases inData : recv.inData
  · rfl
  · have := pending.payload inData
    simp only [Bool.true_and, beq_eq_false_iff_ne, ne_eq]
    omega

theorem V1Recv.Pending.absorb {recv : V1Recv} (pending : recv.Pending) {bytes : List UInt8}
    (short : bytes.length < recv.need) : (recv.absorb bytes).Pending := by
  cases inData : recv.inData
  · have left := pending.header inData
    rw [need_of_header inData] at short
    rw [absorb_of_header inData]
    refine ⟨fun _ => ⟨?_, left.2⟩, fun stillPayload => absurd (inData.symm.trans stillPayload) Bool.false_ne_true⟩
    simp only [List.length_append]
    omega
  · rw [need_of_payload inData] at short
    rw [absorb_of_payload inData]
    refine ⟨fun stillHeader => absurd (inData.symm.trans stillHeader) Bool.false_ne_true.symm, fun _ => ?_⟩
    simp only [List.length_append]
    omega

theorem V1Recv.readHeader_eq (magic : MessageStartChars) (recv : V1Recv) (bytes : List UInt8) :
    recv.readHeader magic bytes =
      (recv.headerFilled magic (recv.hdrbuf ++ bytes.take (min (HEADER_SIZE - recv.hdrbuf.length) bytes.length))).map
        fun next => (min (HEADER_SIZE - recv.hdrbuf.length) bytes.length, next) := by
  unfold readHeader headerFilled
  dsimp only
  split
  · split
    · rfl
    · split <;> rfl
  · rfl

/-- Everything a step that does not drop the peer can do: it takes what it
needs or all it is given, and adds it to the part it collects, or completes a
header within the size limits and goes on to its payload. -/
theorem V1Recv.receivedBytes_eq_some {magic : MessageStartChars} {recv : V1Recv} {bytes : List UInt8} {k : Nat}
    {next : V1Recv} (stepped : recv.receivedBytes magic bytes = some (k, next)) :
    k = min recv.need bytes.length ∧
      ((next = recv.absorb (bytes.take k) ∧
          (recv.inData = false → (recv.hdrbuf ++ bytes.take k).length ≠ HEADER_SIZE)) ∨
        recv.inData = false ∧ (recv.hdrbuf ++ bytes.take k).length = HEADER_SIZE ∧
          ∃ hdr : CMessageHeader, hdr.nMessageSize.toNat ≤ MAX_PROTOCOL_MESSAGE_LENGTH ∧
            next = { recv with inData := true, hdrbuf := recv.hdrbuf ++ bytes.take k, hdr }) := by
  unfold receivedBytes at stepped
  cases inData : recv.inData
  · simp only [inData, Bool.false_eq_true, if_false, readHeader_eq] at stepped
    obtain ⟨filled, headerStep, taken⟩ := Option.map_eq_some_iff.mp stepped
    cases taken
    refine ⟨by simp [need, inData], ?_⟩
    unfold headerFilled at headerStep
    split at headerStep
    · rename_i complete
      dsimp only at headerStep
      split at headerStep
      · cases headerStep
      · split at headerStep
        · cases headerStep
        · rename_i _ withinLimits
          cases headerStep
          exact Or.inr ⟨rfl, complete, _, by omega, rfl⟩
    · rename_i incomplete
      cases headerStep
      exact Or.inl ⟨by simp [absorb, inData], fun _ => incomplete⟩
  · simp only [inData, if_true, readData, Option.some.injEq, Prod.mk.injEq] at stepped
    obtain ⟨rfl, rfl⟩ := stepped
    exact ⟨by simp [need, inData], Or.inl ⟨by simp [absorb, inData], fun impossible => absurd impossible Bool.false_ne_true.symm⟩⟩

/-- From a pending receiver, a step given bytes takes some. -/
theorem V1Recv.receivedBytes_progress {magic : MessageStartChars} {recv : V1Recv} (pending : recv.Pending)
    {bytes : List UInt8} (nonempty : bytes ≠ []) {k : Nat} {next : V1Recv}
    (stepped : recv.receivedBytes magic bytes = some (k, next)) : 0 < k := by
  have needed := pending.need_pos
  have given := List.length_pos_iff.mpr nonempty
  rw [(receivedBytes_eq_some stepped).1]
  omega

/-- A step from a pending receiver that does not complete a message leaves it pending. -/
theorem V1Recv.Pending.step {magic : MessageStartChars} {recv : V1Recv} (pending : recv.Pending)
    {bytes : List UInt8} {k : Nat} {next : V1Recv} (stepped : recv.receivedBytes magic bytes = some (k, next))
    (incomplete : next.receivedMessageComplete = false) : next.Pending := by
  obtain ⟨taken, absorbed | ⟨inData, _, hdr, _, rfl⟩⟩ := receivedBytes_eq_some stepped
  · obtain ⟨rfl, notWhole⟩ := absorbed
    apply pending.absorb
    have within : (bytes.take k).length ≤ recv.need := by
      simp only [List.length_take]
      omega
    refine Nat.lt_of_le_of_ne within fun whole => ?_
    cases inData : recv.inData
    · have left := (pending.header inData).1
      rw [need_of_header inData] at whole
      exact notWhole inData (by simp only [List.length_append]; omega)
    · have left := pending.payload inData
      rw [need_of_payload inData] at whole
      rw [absorb_of_payload inData] at incomplete
      simp only [receivedMessageComplete, inData, Bool.true_and, beq_eq_false_iff_ne, List.length_append] at incomplete
      omega
  · have empty := (pending.header inData).2
    simp only [receivedMessageComplete, Bool.true_and, beq_eq_false_iff_ne, ne_eq, empty,
      List.length_nil] at incomplete
    exact ⟨fun impossible => absurd impossible Bool.false_ne_true.symm, fun _ => by simp only [empty, List.length_nil]; omega⟩

/-- A pending receiver given no bytes stays as it is. -/
theorem V1Recv.receivedBytes_nil (magic : MessageStartChars) {recv : V1Recv} (pending : recv.Pending) :
    recv.receivedBytes magic [] = some (0, recv) := by
  unfold receivedBytes
  cases inData : recv.inData
  · have left := (pending.header inData).1
    simp only [Bool.false_eq_true, if_false, readHeader_eq, List.length_nil, Nat.min_zero, List.take_zero,
      List.append_nil, headerFilled, Nat.ne_of_lt left, dif_neg, not_false_eq_true, Option.map_some]
  · simp [readData]

/-- A step given at least what it needs takes the same bytes whatever follows. -/
theorem V1Recv.receivedBytes_long (magic : MessageStartChars) {recv : V1Recv} {a : List UInt8}
    (long : recv.need ≤ a.length) (b : List UInt8) :
    recv.receivedBytes magic (a ++ b) = recv.receivedBytes magic a := by
  have within : min recv.need (a ++ b).length = min recv.need a.length := by
    simp only [List.length_append]
    omega
  cases inData : recv.inData
  · rw [need_of_header inData] at long within
    rw [receivedBytes_of_header magic inData, receivedBytes_of_header magic inData, readHeader_eq, readHeader_eq,
      within, List.take_append_of_le_length (by omega)]
  · rw [need_of_payload inData] at long within
    rw [receivedBytes_of_payload magic inData, receivedBytes_of_payload magic inData, readData, readData]
    rw [within, List.take_append_of_le_length (Nat.min_le_right _ _)]

/-- A step given less than it needs, then more, takes the first bytes whole and
goes on as the receiver that absorbed them. -/
theorem V1Recv.receivedBytes_short (magic : MessageStartChars) {recv : V1Recv} {a : List UInt8}
    (short : a.length < recv.need) (b : List UInt8) :
    recv.receivedBytes magic (a ++ b) =
      ((recv.absorb a).receivedBytes magic b).map fun (k, next) => (a.length + k, next) := by
  cases inData : recv.inData
  · rw [need_of_header inData] at short
    have count : min (HEADER_SIZE - recv.hdrbuf.length) (a ++ b).length =
        a.length + min (HEADER_SIZE - (recv.hdrbuf ++ a).length) b.length := by
      simp only [List.length_append]
      omega
    have filled : recv.hdrbuf ++ (a ++ b).take (a.length + min (HEADER_SIZE - (recv.hdrbuf ++ a).length) b.length) =
        (recv.hdrbuf ++ a) ++ b.take (min (HEADER_SIZE - (recv.hdrbuf ++ a).length) b.length) := by
      rw [List.take_append, List.take_of_length_le (by omega), Nat.add_sub_cancel_left, List.append_assoc]
    rw [absorb_of_header inData, receivedBytes_of_header magic inData,
      receivedBytes_of_header magic (show ({ recv with hdrbuf := recv.hdrbuf ++ a } : V1Recv).inData = false from inData),
      readHeader_eq, readHeader_eq]
    dsimp only
    rw [headerFilled_hdrbuf, count, filled, Option.map_map]
    rfl
  · rw [need_of_payload inData] at short
    have count : min (recv.hdr.nMessageSize.toNat - recv.vRecv.length) (a ++ b).length =
        a.length + min (recv.hdr.nMessageSize.toNat - (recv.vRecv ++ a).length) b.length := by
      simp only [List.length_append]
      omega
    rw [absorb_of_payload inData, receivedBytes_of_payload magic inData,
      receivedBytes_of_payload magic (show ({ recv with vRecv := recv.vRecv ++ a } : V1Recv).inData = true from inData),
      readData, readData, Option.map_some]
    dsimp only
    rw [count, List.take_append, List.take_of_length_le (by omega), Nat.add_sub_cancel_left, List.append_assoc]

/-- A step given less than it needs takes all of it. -/
theorem V1Recv.receivedBytes_of_short (magic : MessageStartChars) {recv : V1Recv} (pending : recv.Pending)
    {a : List UInt8} (short : a.length < recv.need) :
    recv.receivedBytes magic a = some (a.length, recv.absorb a) := by
  have alone := receivedBytes_short magic short []
  rw [List.append_nil, receivedBytes_nil magic (pending.absorb short), Option.map_some] at alone
  exact alone

/-! ### The loop of `ReceiveMsgBytes` -/

theorem receiveMsgBytes_step (hashes : Hashes) (magic : MessageStartChars) {recv : V1Recv} {bytes : List UInt8}
    (nonempty : bytes ≠ []) {k : Nat} {next : V1Recv} (stepped : recv.receivedBytes magic bytes = some (k, next))
    (progress : 0 < k) :
    receiveMsgBytes hashes magic recv bytes = afterStep hashes magic next (bytes.drop k) := by
  rw [receiveMsgBytes, dif_neg nonempty, stepped]
  simp only [dif_pos progress]
  rfl

theorem receiveMsgBytes_refused (hashes : Hashes) (magic : MessageStartChars) {recv : V1Recv} {bytes : List UInt8}
    (nonempty : bytes ≠ []) (refused : recv.receivedBytes magic bytes = none) :
    receiveMsgBytes hashes magic recv bytes = none := by
  rw [receiveMsgBytes, dif_neg nonempty, refused]

/-- Hand-over after a step commutes with joining a further read, given that the
loop from any pending state does. -/
theorem afterStep_append (hashes : Hashes) (magic : MessageStartChars) {next : V1Recv} {rest b : List UInt8}
    (stepPending : next.receivedMessageComplete = false → next.Pending)
    (appended : ∀ recv : V1Recv, recv.Pending →
      receiveMsgBytes hashes magic recv (rest ++ b) =
        (receiveMsgBytes hashes magic recv rest).bind fun (msgs, last) =>
          (receiveMsgBytes hashes magic last b).map fun (more, final) => (msgs ++ more, final)) :
    afterStep hashes magic next (rest ++ b) =
      (afterStep hashes magic next rest).bind fun (msgs, last) =>
        (receiveMsgBytes hashes magic last b).map fun (more, final) => (msgs ++ more, final) := by
  unfold afterStep
  cases complete : next.receivedMessageComplete
  · exact appended next (stepPending complete)
  · have fresh : (next.getReceivedMessage hashes).2.2 = V1Recv.reset next.hdr := rfl
    simp only [if_true]
    generalize next.getReceivedMessage hashes = got at fresh ⊢
    obtain ⟨msg, reject, restart⟩ := got
    dsimp only at fresh ⊢
    rw [appended restart (fresh ▸ V1Recv.reset_pending next.hdr)]
    cases first : receiveMsgBytes hashes magic restart rest with
    | none => rfl
    | some result =>
      obtain ⟨msgs, last⟩ := result
      cases second : receiveMsgBytes hashes magic last b <;> cases reject <;> simp [second]

/-- The loop from a pending receiver leaves it pending. -/
theorem receiveMsgBytes_pending (hashes : Hashes) (magic : MessageStartChars) {recv : V1Recv} (pending : recv.Pending)
    {bytes : List UInt8} {msgs : List CNetMessage} {final : V1Recv}
    (received : receiveMsgBytes hashes magic recv bytes = some (msgs, final)) : final.Pending := by
  fun_induction receiveMsgBytes hashes magic recv bytes generalizing msgs final with
  | case1 recv =>
    cases received
    exact pending
  | case2 => cases received
  | case3 recv bytes nonempty k next stepped progress complete msg reject fresh got inductionHypothesis =>
    obtain ⟨⟨rest, last⟩, restReceived, joined⟩ := Option.map_eq_some_iff.mp received
    cases joined
    have restart : fresh = V1Recv.reset next.hdr := (congrArg (fun got => got.2.2) got).symm
    exact inductionHypothesis (restart ▸ V1Recv.reset_pending next.hdr) restReceived
  | case4 recv bytes nonempty k next stepped progress incomplete inductionHypothesis =>
    exact inductionHypothesis (pending.step stepped (Bool.eq_false_iff.mpr incomplete)) received
  | case5 recv bytes nonempty k next stepped noProgress =>
    exact absurd (V1Recv.receivedBytes_progress pending nonempty stepped) noProgress

/-- The loop over two reads joined is the loop over the first, then over the
second from where the first left the receiver.  The recursion is on the first
read, as the loop's own: each turn takes some of its bytes. -/
theorem receiveMsgBytes_append (hashes : Hashes) (magic : MessageStartChars) {recv : V1Recv} (pending : recv.Pending)
    (a b : List UInt8) :
    receiveMsgBytes hashes magic recv (a ++ b) =
      (receiveMsgBytes hashes magic recv a).bind fun (msgs, next) =>
        (receiveMsgBytes hashes magic next b).map fun (more, last) => (msgs ++ more, last) := by
  by_cases empty : a = []
  · subst empty
    rw [List.nil_append, receiveMsgBytes_nil, Option.bind_some]
    cases alone : receiveMsgBytes hashes magic recv b <;> simp [alone]
  have nonempty : a ++ b ≠ [] := by simp [empty]
  have sized := List.length_pos_iff.mpr empty
  by_cases short : a.length < recv.need
  · have absorbed := pending.absorb short
    have onlyA : receiveMsgBytes hashes magic recv a = some ([], recv.absorb a) := by
      rw [receiveMsgBytes_step hashes magic empty (V1Recv.receivedBytes_of_short magic pending short) sized,
        afterStep, if_neg (by rw [absorbed.complete_eq_false]; decide), List.drop_length, receiveMsgBytes_nil]
    rw [onlyA, Option.bind_some]
    dsimp only
    by_cases emptyB : b = []
    · subst emptyB
      rw [List.append_nil, onlyA, receiveMsgBytes_nil]
      rfl
    · have joined := V1Recv.receivedBytes_short magic short b
      cases stepB : (recv.absorb a).receivedBytes magic b with
      | none =>
        rw [stepB, Option.map_none] at joined
        rw [receiveMsgBytes_refused hashes magic nonempty joined, receiveMsgBytes_refused hashes magic emptyB stepB]
        rfl
      | some result =>
        obtain ⟨k, next⟩ := result
        have progress := V1Recv.receivedBytes_progress absorbed emptyB stepB
        rw [stepB, Option.map_some] at joined
        rw [receiveMsgBytes_step hashes magic nonempty joined (by omega),
          receiveMsgBytes_step hashes magic emptyB stepB progress, List.drop_append, List.drop_eq_nil_of_le (by omega),
          Nat.add_sub_cancel_left, List.nil_append]
        cases afterStep hashes magic next (b.drop k) <;> simp
  · have same := V1Recv.receivedBytes_long magic (Nat.le_of_not_lt short) b
    cases stepA : recv.receivedBytes magic a with
    | none =>
      rw [receiveMsgBytes_refused hashes magic nonempty (same.trans stepA),
        receiveMsgBytes_refused hashes magic empty stepA]
      rfl
    | some result =>
      obtain ⟨k, next⟩ := result
      have progress := V1Recv.receivedBytes_progress pending empty stepA
      have within : k ≤ a.length := by
        rw [(V1Recv.receivedBytes_eq_some stepA).1]
        exact Nat.min_le_right _ _
      rw [receiveMsgBytes_step hashes magic nonempty (same.trans stepA) progress,
        receiveMsgBytes_step hashes magic empty stepA progress, List.drop_append_of_le_length within]
      exact afterStep_append hashes magic (pending.step stepA) fun fresh freshPending =>
        receiveMsgBytes_append hashes magic freshPending (a.drop k) b
termination_by a.length
decreasing_by
  simp only [List.length_drop]
  omega

/-- `ReceiveMsgBytes` takes the stream in pieces: between reads the receiver is
pending, and the cut does not matter. -/
theorem receiveMsgBytes_chunked (hashes : Hashes) (magic : MessageStartChars) :
    Chunked (receiveMsgBytes hashes magic) V1Recv.Pending where
  nil _ := receiveMsgBytes_nil hashes magic _
  stays pending received := receiveMsgBytes_pending hashes magic pending received
  append a b pending := receiveMsgBytes_append hashes magic pending a b

/-- The frames of messages within the limits, read by a receiver that was just
reset, give those messages, in order, and leave it reset. -/
theorem receiveMsgBytes_stream (hashes : Hashes) (magic : MessageStartChars) {msgs : List CSerializedNetMsg}
    (sendable : ∀ msg ∈ msgs, msg.Sendable) (previous : CMessageHeader) :
    ∃ last, receiveMsgBytes hashes magic (V1Recv.reset previous) (streamBytes hashes magic msgs) =
      some (msgs.map CSerializedNetMsg.received, V1Recv.reset last) := by
  induction msgs generalizing previous with
  | nil => exact ⟨previous, receiveMsgBytes_nil hashes magic _⟩
  | cons msg msgs inductionHypothesis =>
    have first := sendable msg List.mem_cons_self
    have fits := first.fits
    unfold MAX_PROTOCOL_MESSAGE_LENGTH at fits
    have within : msg.data.length ≤ MAX_SIZE ∧ msg.data.length ≤ MAX_PROTOCOL_MESSAGE_LENGTH :=
      ⟨by unfold MAX_SIZE; omega, first.fits⟩
    have one := receiveMsgBytes_wireBytes hashes magic first.validType (show msg.data.length < 2 ^ 32 by omega)
      previous
    rw [if_pos within] at one
    obtain ⟨last, rest⟩ := inductionHypothesis (fun other member => sendable other (List.mem_cons_of_mem _ member))
      (sentHeader hashes magic msg.msgType msg.data)
    refine ⟨last, ?_⟩
    rw [streamBytes_cons, receiveMsgBytes_append hashes magic (V1Recv.reset_pending previous),
      CSerializedNetMsg.wire, one, Option.bind_some]
    dsimp only
    rw [rest, Option.map_some]
    rfl

/-! ### What a receiver holds, whatever it is sent -/

/-- A receiver within its memory limits: pending, at most one header's bytes,
and once it has read a header, one whose size passed the check against
`MAX_PROTOCOL_MESSAGE_LENGTH`. -/
structure V1Recv.Bounded (recv : V1Recv) : Prop where
  pending : recv.Pending
  header : recv.hdrbuf.length ≤ HEADER_SIZE
  sized : recv.inData = true → recv.hdr.nMessageSize.toNat ≤ MAX_PROTOCOL_MESSAGE_LENGTH

/-- A message as a receiver may hand it on: a type of at most twelve printable
characters, and a payload within `MAX_PROTOCOL_MESSAGE_LENGTH`. -/
structure CNetMessage.WithinLimits (msg : CNetMessage) : Prop where
  validType : ValidMessageType msg.msgType
  fits : msg.payload.length ≤ MAX_PROTOCOL_MESSAGE_LENGTH

theorem V1Recv.reset_bounded (hdr : CMessageHeader) : (V1Recv.reset hdr).Bounded :=
  ⟨V1Recv.reset_pending hdr, by simp [V1Recv.reset], fun impossible => absurd impossible Bool.false_ne_true⟩

/-- A type field that `IsMessageTypeValid` accepts names a valid type. -/
theorem CMessageHeader.validMessageType_getMessageType {hdr : CMessageHeader} (valid : hdr.isMessageTypeValid = true) :
    ValidMessageType hdr.getMessageType := by
  simp only [isMessageTypeValid, Bool.and_eq_true, List.all_eq_true, decide_eq_true_eq] at valid
  refine ⟨?_, valid.1⟩
  calc hdr.getMessageType.length ≤ hdr.msgType.toList.length := (List.takeWhile_prefix _).length_le
    _ = MESSAGE_TYPE_SIZE := by simp [MESSAGE_TYPE_SIZE]

/-- A step from a bounded receiver that does not complete a message keeps it
bounded; one that completes it keeps the header and the size limits. -/
theorem V1Recv.Bounded.step {magic : MessageStartChars} {recv : V1Recv} (bounded : recv.Bounded)
    {bytes : List UInt8} {k : Nat} {next : V1Recv} (stepped : recv.receivedBytes magic bytes = some (k, next)) :
    next.hdrbuf.length ≤ HEADER_SIZE ∧
      (next.inData = true → next.hdr.nMessageSize.toNat ≤ MAX_PROTOCOL_MESSAGE_LENGTH) := by
  obtain ⟨taken, absorbed | ⟨_, whole, hdr, small, rfl⟩⟩ := receivedBytes_eq_some stepped
  · obtain ⟨rfl, -⟩ := absorbed
    cases inData : recv.inData
    · have filled := bounded.header
      rw [need_of_header inData] at taken
      rw [absorb_of_header inData]
      refine ⟨?_, fun stillHeader => absurd (inData.symm.trans stillHeader) (by decide)⟩
      simp only [List.length_append, List.length_take]
      omega
    · rw [absorb_of_payload inData]
      exact ⟨bounded.header, fun _ => bounded.sized inData⟩
  · exact ⟨whole.le, fun _ => small⟩

/-- The message a bounded receiver hands on when it is complete and not
rejected is within the limits. -/
theorem V1Recv.getReceivedMessage_withinLimits (hashes : Hashes) {next : V1Recv}
    (sized : next.inData = true → next.hdr.nMessageSize.toNat ≤ MAX_PROTOCOL_MESSAGE_LENGTH)
    (complete : next.receivedMessageComplete = true) (accepted : (next.getReceivedMessage hashes).2.1 = false) :
    (next.getReceivedMessage hashes).1.WithinLimits := by
  simp only [receivedMessageComplete, Bool.and_eq_true, beq_iff_eq] at complete
  simp only [getReceivedMessage, Bool.or_eq_false_iff, Bool.not_eq_false'] at accepted ⊢
  exact ⟨CMessageHeader.validMessageType_getMessageType accepted.2, complete.2 ▸ sized complete.1⟩

/-- The loop from a bounded receiver leaves it bounded, and hands on only
messages within the limits. -/
theorem receiveMsgBytes_bounded (hashes : Hashes) (magic : MessageStartChars) {recv : V1Recv} (bounded : recv.Bounded)
    {bytes : List UInt8} {msgs : List CNetMessage} {final : V1Recv}
    (received : receiveMsgBytes hashes magic recv bytes = some (msgs, final)) :
    final.Bounded ∧ ∀ msg ∈ msgs, msg.WithinLimits := by
  fun_induction receiveMsgBytes hashes magic recv bytes generalizing msgs final with
  | case1 recv =>
    cases received
    exact ⟨bounded, fun _ member => absurd member List.not_mem_nil⟩
  | case2 => cases received
  | case3 recv bytes nonempty k next stepped progress complete msg reject fresh got inductionHypothesis =>
    obtain ⟨⟨rest, last⟩, restReceived, joined⟩ := Option.map_eq_some_iff.mp received
    cases joined
    have restart : fresh = V1Recv.reset next.hdr := (congrArg (fun got => got.2.2) got).symm
    obtain ⟨lastBounded, restWithin⟩ := inductionHypothesis (restart ▸ V1Recv.reset_bounded next.hdr) restReceived
    refine ⟨lastBounded, ?_⟩
    cases rejected : reject
    · have handed := V1Recv.getReceivedMessage_withinLimits hashes (bounded.step stepped).2 complete
        (by rw [got, rejected])
      rw [got] at handed
      simpa [rejected] using And.intro handed restWithin
    · simpa [rejected] using restWithin
  | case4 recv bytes nonempty k next stepped progress incomplete inductionHypothesis =>
    obtain ⟨header, sized⟩ := bounded.step stepped
    exact inductionHypothesis ⟨bounded.pending.step stepped (Bool.eq_false_iff.mpr incomplete), header, sized⟩ received
  | case5 recv bytes nonempty k next stepped noProgress =>
    exact absurd (V1Recv.receivedBytes_progress bounded.pending nonempty stepped) noProgress

theorem V1Recv.init_bounded : V1Recv.init.Bounded := V1Recv.reset_bounded _

/-- Whatever bytes a peer sends, cut into reads in any way, a new receiver
never holds more than one header's bytes and fewer payload bytes than
`MAX_PROTOCOL_MESSAGE_LENGTH`, and every message it hands on has a valid type
and a payload within that limit. -/
theorem receiveMsgBytes_memory_bounded (hashes : Hashes) (magic : MessageStartChars) (reads : List (List UInt8))
    {msgs : List CNetMessage} {recv : V1Recv}
    (received : feedAll (receiveMsgBytes hashes magic) V1Recv.init reads = some (msgs, recv)) :
    recv.hdrbuf.length ≤ HEADER_SIZE ∧ recv.vRecv.length < MAX_PROTOCOL_MESSAGE_LENGTH ∧
      ∀ msg ∈ msgs, msg.WithinLimits := by
  rw [(receiveMsgBytes_chunked hashes magic).feedAll_eq V1Recv.init_bounded.pending] at received
  obtain ⟨bounded, handed⟩ := receiveMsgBytes_bounded hashes magic V1Recv.init_bounded received
  refine ⟨bounded.header, ?_, handed⟩
  cases inData : recv.inData
  · rw [(bounded.pending.header inData).2]
    decide
  · exact Nat.lt_of_lt_of_le (bounded.pending.payload inData) (bounded.sized inData)

/-- Two reads that hold part of a header: nothing is handed on, and the three
bytes wait in the header buffer. -/
theorem receiveMsgBytes_memory_bounded_partialHeader :
    feedAll (receiveMsgBytes Hashes.zeros (Vector.replicate 4 0)) V1Recv.init [[1, 2], [3]] =
        some ([], V1Recv.init.absorb [1, 2, 3]) ∧
      ((V1Recv.init.absorb [1, 2, 3]).hdrbuf.length ≤ HEADER_SIZE ∧
        (V1Recv.init.absorb [1, 2, 3]).vRecv.length < MAX_PROTOCOL_MESSAGE_LENGTH ∧
        ∀ msg ∈ ([] : List CNetMessage), msg.WithinLimits) := by
  have received : feedAll (receiveMsgBytes Hashes.zeros (Vector.replicate 4 0)) V1Recv.init [[1, 2], [3]] =
      some ([], V1Recv.init.absorb [1, 2, 3]) := by
    rw [(receiveMsgBytes_chunked _ _).feedAll_eq V1Recv.init_bounded.pending]
    have short : [1, 2, 3].length < V1Recv.init.need := by decide
    rw [List.flatten_cons, List.flatten_cons, List.flatten_nil, List.append_nil, List.cons_append, List.cons_append,
      List.nil_append, receiveMsgBytes_step _ _ (List.cons_ne_nil _ _)
        (V1Recv.receivedBytes_of_short _ V1Recv.init_bounded.pending short) (by decide)]
    simp [afterStep, receiveMsgBytes_nil, V1Recv.receivedMessageComplete, V1Recv.absorb, V1Recv.init, V1Recv.reset]
  exact ⟨received, receiveMsgBytes_memory_bounded _ _ _ received⟩

end Qbitcoin
