import Qbitcoin.Lib.MsbBits
import Mathlib.Data.Nat.ModEq

/-!
# Bit streams and Golomb-Rice codes

`BitStreamWriter` and `BitStreamReader` of `streams.h`, which fill and read
each byte from its top bit, and `GolombRiceEncode` and `GolombRiceDecode` of
`util/golombrice.h`.  A writer stands for the bits it has written (`bits`), a
reader for the bits it has not read yet; each operation appends bits to the
first or takes them from the second, so that a code written is read back.
-/

namespace Qbitcoin

open MsbBits

/-! ## `BitStreamWriter` -/

/-- A `BitStreamWriter` on a byte stream: the bytes of the stream, the byte
`m_buffer` being filled, and `m_offset`, how many of its high bits are written. -/
structure BitStreamWriter where
  stream : List UInt8
  buffer : UInt8
  offset : Nat
  offset_lt : offset < 8

namespace BitStreamWriter

/-- A writer on a stream that holds `stream`, its buffer empty. -/
def init (stream : List UInt8) : BitStreamWriter := ⟨stream, 0, 0, Nat.zero_lt_succ 7⟩

/-- The bits written: the bytes of the stream, then the high `offset` bits of
the buffer. -/
def bits (w : BitStreamWriter) : List Bool := bytesBits w.stream ++ lowBits (w.buffer.toNat / 2 ^ (8 - w.offset)) w.offset

/-- The bits of the buffer below the written ones are clear. -/
def Clear (w : BitStreamWriter) : Prop := w.buffer.toNat % 2 ^ (8 - w.offset) = 0

/-- One round of the loop of `Write` with `nbits` bits of `data` to go: as many
of them as fit go into the buffer below the written bits, and a full buffer is
flushed to the stream. -/
def writeRound (w : BitStreamWriter) (data : UInt64) (nbits : Nat) : BitStreamWriter :=
  let buffer := w.buffer ||| ((data <<< UInt64.ofNat (64 - nbits)) >>> UInt64.ofNat (64 - 8 + w.offset)).toUInt8
  if full : w.offset + min (8 - w.offset) nbits = 8 then ⟨w.stream ++ [buffer], 0, 0, Nat.zero_lt_succ 7⟩
  else ⟨w.stream, buffer, w.offset + min (8 - w.offset) nbits, by have := w.offset_lt; omega⟩

/-- The loop of `Write` over the `nbits` low bits of `data`, highest first. -/
def writeLoop (w : BitStreamWriter) (data : UInt64) (nbits : Nat) : BitStreamWriter :=
  if nbits = 0 then w
  else (w.writeRound data nbits).writeLoop data (nbits - min (8 - w.offset) nbits)
termination_by nbits
decreasing_by have := w.offset_lt; omega

/-- `BitStreamWriter::Write`: the `nbits` low bits of `data`, at most 64. -/
def write (w : BitStreamWriter) (data : UInt64) (nbits : Nat) : Except String BitStreamWriter :=
  if nbits > 64 then throw "nbits must be between 0 and 64" else pure (w.writeLoop data nbits)

/-- `BitStreamWriter::Flush`: a buffer holding written bits goes to the stream,
padded with zeros. -/
def flush (w : BitStreamWriter) : BitStreamWriter :=
  if w.offset = 0 then w else ⟨w.stream ++ [w.buffer], 0, 0, Nat.zero_lt_succ 7⟩

theorem clear_init (stream : List UInt8) : (init stream).Clear := rfl

/-- A clear buffer holds its written bits above `8 - offset` zeros. -/
theorem Clear.exists_top {w : BitStreamWriter} (clear : w.Clear) : ∃ top, w.buffer.toNat = top * 2 ^ (8 - w.offset) :=
  ⟨_, (Nat.div_mul_cancel (Nat.dvd_of_mod_eq_zero clear)).symm⟩

@[simp] theorem bits_init (stream : List UInt8) : (init stream).bits = bytesBits stream := by
  simp [init, bits, lowBits]

/-- What a round ors into the buffer: the bits of `data` it writes, below the
`offset` written ones. -/
theorem toNat_writeChunk (data : UInt64) {offset nbits : Nat} (offsetFits : offset < 8) (positive : 0 < nbits)
    (atMost : nbits ≤ 64) :
    ((data <<< UInt64.ofNat (64 - nbits)) >>> UInt64.ofNat (64 - 8 + offset)).toUInt8.toNat =
      data.toNat / 2 ^ (nbits - min (8 - offset) nbits) % 2 ^ min (8 - offset) nbits *
        2 ^ (8 - offset - min (8 - offset) nbits) := by
  have upShift : (UInt64.ofNat (64 - nbits)).toNat % 64 = 64 - nbits := by
    rw [UInt64.toNat_ofNat', Nat.mod_eq_of_lt (by omega), Nat.mod_eq_of_lt (by omega)]
  have downShift : (UInt64.ofNat (64 - 8 + offset)).toNat % 64 = 64 - 8 + offset := by
    rw [UInt64.toNat_ofNat', Nat.mod_eq_of_lt (by omega), Nat.mod_eq_of_lt (by omega)]
  have cut : data.toNat * 2 ^ (64 - nbits) % 2 ^ 64 = data.toNat % 2 ^ nbits * 2 ^ (64 - nbits) := by
    rw [show 2 ^ 64 = 2 ^ nbits * 2 ^ (64 - nbits) by rw [← pow_add]; congr 1; omega, Nat.mul_mod_mul_right]
  rw [UInt64.toNat_toUInt8, UInt64.toNat_shiftRight, UInt64.toNat_shiftLeft, upShift, downShift, Nat.shiftLeft_eq,
    Nat.shiftRight_eq_div_pow, cut]
  by_cases short : nbits ≤ 8 - offset
  · rw [show min (8 - offset) nbits = nbits by omega, Nat.sub_self, pow_zero, Nat.div_one,
      show 2 ^ (64 - nbits) = 2 ^ (8 - offset - nbits) * 2 ^ (64 - 8 + offset) by rw [← pow_add]; congr 1; omega,
      ← Nat.mul_assoc, Nat.mul_div_cancel _ (Nat.two_pow_pos _)]
    apply Nat.mod_eq_of_lt
    calc data.toNat % 2 ^ nbits * 2 ^ (8 - offset - nbits) < 2 ^ nbits * 2 ^ (8 - offset - nbits) :=
          Nat.mul_lt_mul_of_pos_right (Nat.mod_lt _ (Nat.two_pow_pos _)) (Nat.two_pow_pos _)
      _ = 2 ^ (8 - offset) := by rw [← pow_add]; congr 1; omega
      _ ≤ 2 ^ 8 := Nat.pow_le_pow_right (by norm_num) (by omega)
  · rw [show min (8 - offset) nbits = 8 - offset by omega, Nat.sub_self, pow_zero, Nat.mul_one,
      show 2 ^ (64 - 8 + offset) = 2 ^ (nbits - (8 - offset)) * 2 ^ (64 - nbits) by
        rw [← pow_add]; congr 1; omega,
      Nat.mul_div_mul_right _ _ (Nat.two_pow_pos _), mod_two_pow_div (by omega)]
    exact Nat.mod_eq_of_lt (lt_of_lt_of_le (Nat.mod_lt _ (Nat.two_pow_pos _)) (Nat.pow_le_pow_right (by norm_num) (by omega)))

/-- A round appends the bits it writes, the highest of those still to go. -/
theorem bits_writeRound {w : BitStreamWriter} (clear : w.Clear) (data : UInt64) {nbits : Nat} (positive : 0 < nbits)
    (atMost : nbits ≤ 64) :
    (w.writeRound data nbits).bits =
        w.bits ++ lowBits (data.toNat / 2 ^ (nbits - min (8 - w.offset) nbits)) (min (8 - w.offset) nbits) ∧
      (w.writeRound data nbits).Clear := by
  have offsetFits := w.offset_lt
  have clearBits : w.buffer.toNat % 2 ^ (8 - w.offset) = 0 := clear
  have chunk := toNat_writeChunk data offsetFits positive atMost
  have writtenFits : min (8 - w.offset) nbits ≤ 8 - w.offset := min_le_left _ _
  simp only [writeRound]
  set written := min (8 - w.offset) nbits
  set value := data.toNat / 2 ^ (nbits - written)
  obtain ⟨top, buffered⟩ := clear.exists_top
  have room : 2 ^ (8 - w.offset) = 2 ^ written * 2 ^ (8 - w.offset - written) := by
    rw [← pow_add]
    congr 1
    omega
  have chunkFits : value % 2 ^ written * 2 ^ (8 - w.offset - written) < 2 ^ (8 - w.offset) := by
    rw [room]
    exact Nat.mul_lt_mul_of_pos_right (Nat.mod_lt _ (Nat.two_pow_pos _)) (Nat.two_pow_pos _)
  have filled : (w.buffer ||| ((data <<< UInt64.ofNat (64 - nbits)) >>> UInt64.ofNat (64 - 8 + w.offset)).toUInt8).toNat =
      (top * 2 ^ written + value % 2 ^ written) * 2 ^ (8 - w.offset - written) := by
    rw [UInt8.toNat_or, chunk, or_eq_add_of_mod_eq_zero clearBits chunkFits, buffered, room]
    ring
  have newBits : lowBits (top * 2 ^ written + value % 2 ^ written) (w.offset + written) =
      lowBits top w.offset ++ lowBits value written := by
    rw [lowBits_mul_add (Nat.mod_lt _ (Nat.two_pow_pos _)), lowBits_mod le_rfl]
  have oldBits : w.bits = bytesBits w.stream ++ lowBits top w.offset := by
    rw [bits, buffered, Nat.mul_div_cancel _ (Nat.two_pow_pos _)]
  split_ifs with full
  · have filledUp : w.offset + written = 8 := full
    have newByte : lowBits (top * 2 ^ written + value % 2 ^ written) 8 =
        lowBits top w.offset ++ lowBits value written := by
      rw [← newBits, filledUp]
    refine ⟨?_, rfl⟩
    rw [bits, bytesBits_append, bytesBits_cons, bytesBits_nil, byteBits, filled,
      show 8 - w.offset - written = 0 by omega, pow_zero, Nat.mul_one, newByte, oldBits]
    simp only [lowBits, List.append_nil, List.append_assoc]
    rfl
  · refine ⟨?_, ?_⟩
    · rw [bits, filled, show 8 - (w.offset + written) = 8 - w.offset - written by omega,
        Nat.mul_div_cancel _ (Nat.two_pow_pos _), newBits, oldBits, List.append_assoc]
    · show (w.buffer ||| _).toNat % 2 ^ (8 - (w.offset + written)) = 0
      rw [filled, show 8 - (w.offset + written) = 8 - w.offset - written by omega]
      exact Nat.mul_mod_left _ _

/-- The loop of `Write` appends the `nbits` low bits of `data`, highest first. -/
theorem bits_writeLoop {w : BitStreamWriter} (clear : w.Clear) (data : UInt64) {nbits : Nat} (atMost : nbits ≤ 64) :
    (w.writeLoop data nbits).bits = w.bits ++ lowBits data.toNat nbits ∧ (w.writeLoop data nbits).Clear := by
  induction nbits using Nat.strong_induction_on generalizing w with
  | _ nbits inductionHypothesis =>
    rw [writeLoop]
    split_ifs with done
    · subst done
      exact ⟨by simp [lowBits], clear⟩
    · obtain ⟨roundBits, roundClear⟩ := bits_writeRound clear data (Nat.pos_of_ne_zero done) atMost
      have fewer : nbits - min (8 - w.offset) nbits < nbits := by have := w.offset_lt; omega
      obtain ⟨restBits, restClear⟩ := inductionHypothesis _ fewer roundClear (by omega)
      refine ⟨?_, restClear⟩
      rw [restBits, roundBits, List.append_assoc, ← lowBits_add, Nat.add_sub_of_le (min_le_right _ _)]

theorem write_eq {nbits : Nat} (atMost : nbits ≤ 64) (w : BitStreamWriter) (data : UInt64) :
    w.write data nbits = .ok (w.writeLoop data nbits) := by
  simp [write, show ¬ nbits > 64 by omega, pure, Except.pure]

/-- `Flush` leaves the written bits followed by the zeros that pad them to a byte. -/
theorem bytesBits_flush {w : BitStreamWriter} (clear : w.Clear) :
    bytesBits w.flush.stream = w.bits ++ List.replicate ((8 - w.offset) % 8) false := by
  unfold flush bits
  split_ifs with empty
  · simp [empty, lowBits]
  · have offsetFits := w.offset_lt
    obtain ⟨top, buffered⟩ := clear.exists_top
    have padded : lowBits (top * 2 ^ (8 - w.offset) + 0) (w.offset + (8 - w.offset)) =
        lowBits top w.offset ++ lowBits 0 (8 - w.offset) := lowBits_mul_add (Nat.two_pow_pos _)
    rw [Nat.add_zero, Nat.add_sub_of_le offsetFits.le, lowBits_zero] at padded
    rw [bytesBits_append, bytesBits_cons, bytesBits_nil, byteBits, buffered, padded,
      Nat.mul_div_cancel _ (Nat.two_pow_pos _), Nat.mod_eq_of_lt (show 8 - w.offset < 8 by omega)]
    simp

end BitStreamWriter

/-! ## `BitStreamReader` -/

/-- A `BitStreamReader` on a `SpanReader`: the bytes not yet taken from the
stream, the byte `m_buffer` taken last, and `m_offset`, how many of its high bits
are read. -/
structure BitStreamReader where
  stream : List UInt8
  buffer : UInt8
  offset : Nat
  offset_le : offset ≤ 8

namespace BitStreamReader

/-- A reader on `stream` that has taken no byte yet. -/
def init (stream : List UInt8) : BitStreamReader := ⟨stream, 0, 8, le_rfl⟩

/-- The bits not read yet: the low `8 - offset` bits of the buffer, then the
bytes of the stream. -/
def bits (r : BitStreamReader) : List Bool := lowBits r.buffer.toNat (8 - r.offset) ++ bytesBits r.stream

theorem offset_add_min_le (r : BitStreamReader) (nbits : Nat) : r.offset + min (8 - r.offset) nbits ≤ 8 := by
  have := r.offset_le
  omega

/-- The loop of `Read` with `nbits` bits to go: a used-up buffer takes the next
byte of the stream, and otherwise as many of its bits as are left and wanted are
shifted into `data`. -/
def readLoop (r : BitStreamReader) (data : UInt64) (nbits : Nat) : Except String (UInt64 × BitStreamReader) :=
  if done : nbits = 0 then .ok (data, r)
  else if used : r.offset = 8 then
    match r.stream with
    | [] => .error "SpanReader::read(): end of data"
    | byte :: rest => readLoop ⟨rest, byte, 0, Nat.zero_le _⟩ data nbits
  else
    let bits := min (8 - r.offset) nbits
    let data := (data <<< UInt64.ofNat bits) ||| ((r.buffer <<< UInt8.ofNat r.offset) >>> UInt8.ofNat (8 - bits)).toUInt64
    readLoop ⟨r.stream, r.buffer, r.offset + bits, offset_add_min_le r nbits⟩ data (nbits - bits)
termination_by 2 * nbits + r.offset / 8
decreasing_by
  all_goals
    have fits := r.offset_le
    omega

/-- `BitStreamReader::Read`: the next `nbits` bits, at most 64, as a number. -/
def read (r : BitStreamReader) (nbits : Nat) : Except String (UInt64 × BitStreamReader) :=
  if nbits > 64 then .error "nbits must be between 0 and 64" else r.readLoop 0 nbits

@[simp] theorem bits_init (stream : List UInt8) : (init stream).bits = bytesBits stream := by
  simp [init, bits, lowBits]

/-- What a round of `Read` shifts into `data`: the next `bits` bits of the buffer. -/
theorem toNat_readChunk (buffer : UInt8) {offset bits : Nat} (positive : 0 < bits) (within : offset + bits ≤ 8) :
    ((buffer <<< UInt8.ofNat offset) >>> UInt8.ofNat (8 - bits)).toUInt64.toNat =
      buffer.toNat % 2 ^ (8 - offset) / 2 ^ (8 - offset - bits) := by
  have raised : buffer.toNat * 2 ^ offset % 2 ^ 8 = buffer.toNat % 2 ^ (8 - offset) * 2 ^ offset := by
    rw [show 2 ^ 8 = 2 ^ (8 - offset) * 2 ^ offset by rw [← pow_add]; congr 1; omega, Nat.mul_mod_mul_right]
  have upShift : (UInt8.ofNat offset).toNat % 8 = offset := by
    rw [UInt8.toNat_ofNat', Nat.mod_eq_of_lt (by omega), Nat.mod_eq_of_lt (by omega)]
  have downShift : (UInt8.ofNat (8 - bits)).toNat % 8 = 8 - bits := by
    rw [UInt8.toNat_ofNat', Nat.mod_eq_of_lt (by omega), Nat.mod_eq_of_lt (by omega)]
  rw [UInt8.toNat_toUInt64, UInt8.toNat_shiftRight, UInt8.toNat_shiftLeft, upShift, downShift,
    Nat.shiftLeft_eq, Nat.shiftRight_eq_div_pow, raised,
    show 2 ^ (8 - bits) = 2 ^ offset * 2 ^ (8 - offset - bits) by rw [← pow_add]; congr 1; omega,
    ← Nat.div_div_eq_div_mul, Nat.mul_div_cancel _ (Nat.two_pow_pos _)]

/-- Taking a byte into a used-up buffer keeps the bits to read. -/
theorem bits_takeByte {r : BitStreamReader} (used : r.offset = 8) {byte : UInt8} {rest : List UInt8}
    (taken : r.stream = byte :: rest) (fresh : (0 : Nat) ≤ 8) : (⟨rest, byte, 0, fresh⟩ : BitStreamReader).bits = r.bits := by
  simp [bits, used, taken, lowBits, byteBits]

/-- The bits to read are the `b` bits a round takes from the buffer, then the
bits of the reader it leaves. -/
theorem bits_eq_readChunk {r next : BitStreamReader} {b : Nat} (sameStream : next.stream = r.stream)
    (sameBuffer : next.buffer = r.buffer) (advanced : next.offset = r.offset + b) :
    r.bits = lowBits (r.buffer.toNat % 2 ^ (8 - r.offset) / 2 ^ (8 - r.offset - b)) b ++ next.bits := by
  have within := next.offset_le
  have taken : lowBits r.buffer.toNat (8 - r.offset) =
      lowBits (r.buffer.toNat / 2 ^ (8 - r.offset - b)) b ++ lowBits r.buffer.toNat (8 - (r.offset + b)) := by
    rw [Nat.sub_sub, ← lowBits_add, show b + (8 - (r.offset + b)) = 8 - r.offset by omega]
  rw [bits, bits, sameStream, sameBuffer, advanced, mod_two_pow_div (by omega), lowBits_mod le_rfl, taken,
    List.append_assoc]

/-- Shifting `data` up by `b` bits and oring in a chunk of `b` bits adds it. -/
theorem toNat_shiftIn (data chunk : UInt64) {b : Nat} (small : b < 64) (chunkFits : chunk.toNat < 2 ^ b) :
    (data <<< UInt64.ofNat b ||| chunk).toNat = data.toNat * 2 ^ b % 2 ^ 64 + chunk.toNat := by
  have shift : (UInt64.ofNat b).toNat % 64 = b := by
    rw [UInt64.toNat_ofNat', Nat.mod_eq_of_lt (show b < 2 ^ 64 by omega), Nat.mod_eq_of_lt small]
  have aligned : data.toNat * 2 ^ b % 2 ^ 64 % 2 ^ b = 0 := by
    rw [show 2 ^ 64 = 2 ^ (64 - b) * 2 ^ b by rw [← pow_add]; congr 1; omega, Nat.mul_mod_mul_right,
      Nat.mul_mod_left]
  rw [UInt64.toNat_or, UInt64.toNat_shiftLeft, shift, Nat.shiftLeft_eq, or_eq_add_of_mod_eq_zero aligned chunkFits]

/-- Numbers equal modulo `2 ^ 64` are one `uint64_t`. -/
theorem ofNat_mod_add_mul_add (a m k v : Nat) :
    UInt64.ofNat ((a % 2 ^ 64 + m) * k + v) = UInt64.ofNat ((a + m) * k + v) := by
  apply UInt64.toNat_inj.mp
  rw [UInt64.toNat_ofNat', UInt64.toNat_ofNat']
  exact (((Nat.mod_modEq a _).add_right m).mul_right k).add_right v

theorem readLoop_spec (r : BitStreamReader) (data : UInt64) (nbits : Nat) :
    if nbits ≤ r.bits.length then
      ∃ next, r.readLoop data nbits =
          .ok (UInt64.ofNat (data.toNat * 2 ^ nbits + bitsValue (r.bits.take nbits)), next) ∧
        next.bits = r.bits.drop nbits
    else r.readLoop data nbits = .error "SpanReader::read(): end of data" := by
  fun_induction r.readLoop data nbits with
  | case1 r data => simp [UInt64.ofNat_toNat]
  | case2 r data nbits unfinished used empty =>
    have nothing : r.bits = [] := by simp [bits, used, empty, lowBits]
    rw [if_neg (by rw [nothing, List.length_nil]; omega)]
  | case3 r data nbits unfinished used byte rest taken inductionHypothesis =>
    rwa [bits_takeByte used taken] at inductionHypothesis
  | case4 r data nbits unfinished unused b shifted inductionHypothesis =>
    revert inductionHypothesis
    generalize_proofs fits
    intro inductionHypothesis
    set next : BitStreamReader := ⟨r.stream, r.buffer, r.offset + b, fits⟩
    have positive : 0 < b := by have := r.offset_le; omega
    have within : b ≤ nbits := min_le_right _ _
    set chunk := r.buffer.toNat % 2 ^ (8 - r.offset) / 2 ^ (8 - r.offset - b)
    have split : r.bits = lowBits chunk b ++ next.bits := bits_eq_readChunk rfl rfl rfl
    have chunkFits : chunk < 2 ^ b := by
      apply Nat.div_lt_of_lt_mul
      rw [← pow_add, show 8 - r.offset - b + b = 8 - r.offset by omega]
      exact Nat.mod_lt _ (Nat.two_pow_pos _)
    have shiftedValue : shifted.toNat = data.toNat * 2 ^ b % 2 ^ 64 + chunk := by
      rw [toNat_shiftIn _ _ (by omega) (by rw [toNat_readChunk _ positive fits]; exact chunkFits),
        toNat_readChunk _ positive fits]
    have sizes : r.bits.length = b + next.bits.length := by rw [split, List.length_append, length_lowBits]
    by_cases enough : nbits ≤ r.bits.length
    · rw [if_pos (by omega)] at inductionHypothesis
      obtain ⟨last, read, left⟩ := inductionHypothesis
      rw [if_pos enough]
      refine ⟨last, ?_, ?_⟩
      · have taken : r.bits.take nbits = lowBits chunk b ++ next.bits.take (nbits - b) := by
          rw [split, List.take_append, List.take_of_length_le (by simp [within]), length_lowBits]
        rw [read, shiftedValue, ofNat_mod_add_mul_add, taken, bitsValue_append, bitsValue_lowBits,
          Nat.mod_eq_of_lt chunkFits, List.length_take, min_eq_left (by omega)]
        congr 1
        rw [Nat.add_mul, Nat.mul_assoc, ← pow_add, Nat.add_sub_of_le within, Nat.add_assoc]
      · rw [left, split, show nbits = b + (nbits - b) by omega, ← length_lowBits chunk b, List.drop_append]
        simp
    · rw [if_neg (by omega)] at inductionHypothesis
      rwa [if_neg enough]

/-- A read of `nbits` bits, at most 64, from bits that start with `pre`: the
value of `pre`, and a reader on what follows it. -/
theorem read_of_bits {r : BitStreamReader} {nbits : Nat} (atMost : nbits ≤ 64) {pre rest : List Bool}
    (split : r.bits = pre ++ rest) (length : pre.length = nbits) :
    ∃ next, r.read nbits = .ok (UInt64.ofNat (bitsValue pre), next) ∧ next.bits = rest := by
  have spec := readLoop_spec r 0 nbits
  rw [if_pos (by rw [split, List.length_append]; omega)] at spec
  obtain ⟨next, read, left⟩ := spec
  refine ⟨next, ?_, ?_⟩
  · rw [BitStreamReader.read, if_neg (by omega), read, split, ← length, List.take_left]
    simp
  · rw [left, split, ← length, List.drop_left]

/-- A read that succeeds took `nbits` bits. -/
theorem length_bits_of_read {r next : BitStreamReader} {nbits : Nat} {value : UInt64}
    (read : r.read nbits = .ok (value, next)) : next.bits.length + nbits = r.bits.length := by
  unfold BitStreamReader.read at read
  split_ifs at read
  have spec := readLoop_spec r 0 nbits
  split_ifs at spec with enough
  · obtain ⟨last, readLast, left⟩ := spec
    rw [readLast, Except.ok.injEq, Prod.mk.injEq] at read
    rw [← read.2, left, List.length_drop]
    omega
  · rw [spec] at read
    contradiction

end BitStreamReader

/-! ## Golomb-Rice codes -/

/-- The Golomb-Rice code of `x` with parameter `P`: the quotient `x >> P` in
unary, ones closed by a zero, then the low `P` bits of `x`. -/
def golombRiceBits (P x : Nat) : List Bool := List.replicate (x / 2 ^ P) true ++ false :: lowBits x P

theorem toNat_sub_ofNat {q : UInt64} {n : Nat} (within : n ≤ q.toNat) : (q - UInt64.ofNat n).toNat = q.toNat - n := by
  have exact : (UInt64.ofNat n).toNat = n := by
    rw [UInt64.toNat_ofNat', Nat.mod_eq_of_lt (lt_of_le_of_lt within q.toNat_lt)]
  rw [UInt64.toNat_sub_of_le _ _ (UInt64.le_iff_toNat_le.mpr (by omega)), exact]

/-- A round of the unary loop writes between one and `q` ones, and at most 64. -/
theorem unaryChunk_bounds {q : UInt64} (positive : q > 0) :
    0 < (if q ≤ 64 then q.toNat else 64) ∧ (if q ≤ 64 then q.toNat else 64) ≤ q.toNat ∧
      (if q ≤ 64 then q.toNat else 64) ≤ 64 := by
  have nonzero : 0 < q.toNat := positive
  split_ifs with short
  · have : q.toNat ≤ 64 := UInt64.le_iff_toNat_le.mp short
    omega
  · have : ¬ q.toNat ≤ 64 := fun within => short (UInt64.le_iff_toNat_le.mpr within)
    omega

/-- The loop of `GolombRiceEncode` writing the quotient `q` in unary, at most 64
ones at a time. -/
def writeUnary (bitwriter : BitStreamWriter) (q : UInt64) : Except String BitStreamWriter :=
  if q > 0 then do
    let nbits := if q ≤ 64 then q.toNat else 64
    let bitwriter ← bitwriter.write (~~~0) nbits
    writeUnary bitwriter (q - UInt64.ofNat nbits)
  else pure bitwriter
termination_by q.toNat
decreasing_by
  change (q - UInt64.ofNat nbits).toNat < q.toNat
  have ones : 0 < nbits ∧ nbits ≤ q.toNat ∧ nbits ≤ 64 := unaryChunk_bounds ‹q > 0›
  rw [toNat_sub_ofNat ones.2.1]
  omega

/-- `~0ULL`, all of whose bits are set. -/
theorem lowBits_allOnes {nbits : Nat} (atMost : nbits ≤ 64) :
    lowBits (~~~(0 : UInt64)).toNat nbits = List.replicate nbits true :=
  lowBits_two_pow_sub_one atMost

/-- The unary loop appends `q` ones. -/
theorem bits_writeUnary (w : BitStreamWriter) (q : UInt64) :
    w.Clear → ∃ next, writeUnary w q = .ok next ∧ next.bits = w.bits ++ List.replicate q.toNat true ∧ next.Clear := by
  fun_induction writeUnary w q with
  | case1 w q positive nbits inductionHypothesis =>
    intro clear
    have ones : 0 < nbits ∧ nbits ≤ q.toNat ∧ nbits ≤ 64 := unaryChunk_bounds positive
    obtain ⟨written, wroteClear⟩ := BitStreamWriter.bits_writeLoop clear (~~~0) ones.2.2
    obtain ⟨last, run, lastBits, lastClear⟩ := inductionHypothesis _ wroteClear
    refine ⟨last, ?_, ?_, lastClear⟩
    · rw [BitStreamWriter.write_eq ones.2.2]
      exact run
    · rw [lastBits, written, lowBits_allOnes ones.2.2, toNat_sub_ofNat ones.2.1, List.append_assoc,
        ← List.replicate_add, Nat.add_sub_of_le ones.2.1]
  | case2 w q done =>
    intro clear
    have none : q.toNat = 0 := Nat.eq_zero_of_not_pos fun positive => done (UInt64.lt_iff_toNat_lt.mpr positive)
    exact ⟨w, rfl, by simp [none], clear⟩

/-- `GolombRiceEncode`: the quotient `x >> P` in unary, a zero, then the low `P`
bits of `x`. -/
def golombRiceEncode (bitwriter : BitStreamWriter) (P : UInt8) (x : UInt64) : Except String BitStreamWriter := do
  let bitwriter ← writeUnary bitwriter (x >>> P.toUInt64)
  let bitwriter ← bitwriter.write 0 1
  bitwriter.write x P.toNat

theorem toNat_shiftRight_P (x : UInt64) {P : UInt8} (small : P.toNat < 64) :
    (x >>> P.toUInt64).toNat = x.toNat / 2 ^ P.toNat := by
  rw [UInt64.toNat_shiftRight, UInt8.toNat_toUInt64, Nat.mod_eq_of_lt small, Nat.shiftRight_eq_div_pow]

/-- `GolombRiceEncode` appends the Golomb-Rice code of `x`. -/
theorem bits_golombRiceEncode {w : BitStreamWriter} (clear : w.Clear) {P : UInt8} (small : P.toNat < 64)
    (x : UInt64) :
    ∃ next, golombRiceEncode w P x = .ok next ∧ next.bits = w.bits ++ golombRiceBits P.toNat x.toNat ∧ next.Clear := by
  obtain ⟨unary, wroteUnary, unaryBits, unaryClear⟩ := bits_writeUnary w (x >>> P.toUInt64) clear
  obtain ⟨stopBits, stopClear⟩ := BitStreamWriter.bits_writeLoop unaryClear 0 (show 1 ≤ 64 by norm_num)
  obtain ⟨remainderBits, remainderClear⟩ := BitStreamWriter.bits_writeLoop stopClear x (show P.toNat ≤ 64 by omega)
  refine ⟨_, ?_, ?_, remainderClear⟩
  · rw [golombRiceEncode, wroteUnary]
    simp only [bind, Except.bind, BitStreamWriter.write_eq (show 1 ≤ 64 by norm_num), BitStreamWriter.write_eq (show P.toNat ≤ 64 by omega)]
  · rw [remainderBits, stopBits, unaryBits, golombRiceBits, toNat_shiftRight_P x small]
    simp [lowBits]

/-- The loop of `GolombRiceDecode` reading the unary quotient: ones are counted
into `q` up to the first zero. -/
def readUnary (bitreader : BitStreamReader) (q : UInt64) : Except String (UInt64 × BitStreamReader) :=
  match read : bitreader.read 1 with
  | .error e => .error e
  | .ok (bit, bitreader') => if bit = 1 then readUnary bitreader' (q + 1) else .ok (q, bitreader')
termination_by bitreader.bits.length
decreasing_by have := BitStreamReader.length_bits_of_read read; omega

/-- `GolombRiceDecode`: the unary quotient, then `P` bits of remainder. -/
def golombRiceDecode (bitreader : BitStreamReader) (P : UInt8) : Except String (UInt64 × BitStreamReader) := do
  let (q, bitreader) ← readUnary bitreader 0
  let (r, bitreader) ← bitreader.read P.toNat
  pure ((q <<< P.toUInt64) + r, bitreader)

theorem readUnary_of_read {r next : BitStreamReader} {bit : UInt64} (read : r.read 1 = .ok (bit, next))
    (q : UInt64) : readUnary r q = if bit = 1 then readUnary next (q + 1) else .ok (q, next) := by
  rw [readUnary]
  split <;> simp_all

/-- The unary loop on `n` ones and a zero counts the ones and leaves what follows. -/
theorem readUnary_of_bits {n : Nat} {r : BitStreamReader} {rest : List Bool}
    (split : r.bits = List.replicate n true ++ false :: rest) {q : UInt64} (fits : q.toNat + n < 2 ^ 64) :
    ∃ next, readUnary r q = .ok (q + UInt64.ofNat n, next) ∧ next.bits = rest := by
  induction n generalizing r q with
  | zero =>
    obtain ⟨next, read, left⟩ :=
      BitStreamReader.read_of_bits (by norm_num) (show r.bits = [false] ++ rest from split) rfl
    refine ⟨next, ?_, left⟩
    rw [readUnary_of_read read, if_neg (by decide)]
    simp
  | succ n inductionHypothesis =>
    obtain ⟨next, read, left⟩ :=
      BitStreamReader.read_of_bits (by norm_num) (show r.bits = [true] ++ _ from split) rfl
    have counted : (q + 1).toNat = q.toNat + 1 := by
      rw [UInt64.toNat_add, UInt64.toNat_one, Nat.mod_eq_of_lt (by omega)]
    obtain ⟨last, readRest, lastBits⟩ := inductionHypothesis (q := q + 1) left (by omega)
    refine ⟨last, ?_, lastBits⟩
    rw [readUnary_of_read read, if_pos (by decide), readRest]
    congr 2
    rw [UInt64.ofNat_add, UInt64.add_assoc, UInt64.add_comm 1]
    rfl

/-- The quotient shifted back up, plus the remainder, is the value coded. -/
theorem golombRice_value {P : UInt8} (small : P.toNat < 64) (x : UInt64) :
    (UInt64.ofNat (x.toNat / 2 ^ P.toNat) <<< P.toUInt64) + UInt64.ofNat (x.toNat % 2 ^ P.toNat) = x := by
  have quotientFits : x.toNat / 2 ^ P.toNat < 2 ^ 64 := lt_of_le_of_lt (Nat.div_le_self _ _) x.toNat_lt
  have remainderFits : x.toNat % 2 ^ P.toNat < 2 ^ 64 :=
    lt_of_le_of_lt (Nat.mod_le _ _) x.toNat_lt
  have roundedFits : x.toNat / 2 ^ P.toNat * 2 ^ P.toNat < 2 ^ 64 :=
    lt_of_le_of_lt (Nat.div_mul_le_self _ _) x.toNat_lt
  apply UInt64.toNat_inj.mp
  rw [UInt64.toNat_add, UInt64.toNat_shiftLeft, UInt8.toNat_toUInt64, Nat.mod_eq_of_lt small, UInt64.toNat_ofNat',
    UInt64.toNat_ofNat', Nat.mod_eq_of_lt quotientFits, Nat.mod_eq_of_lt remainderFits, Nat.shiftLeft_eq,
    Nat.mod_eq_of_lt roundedFits, Nat.div_add_mod', Nat.mod_eq_of_lt x.toNat_lt]

/-- `GolombRiceDecode` reads back the value whose code starts the bits. -/
theorem golombRiceDecode_of_bits {P : UInt8} (small : P.toNat < 64) (x : UInt64) {r : BitStreamReader}
    {rest : List Bool} (split : r.bits = golombRiceBits P.toNat x.toNat ++ rest) :
    ∃ next, golombRiceDecode r P = .ok (x, next) ∧ next.bits = rest := by
  have quotientFits : x.toNat / 2 ^ P.toNat < 2 ^ 64 := lt_of_le_of_lt (Nat.div_le_self _ _) x.toNat_lt
  obtain ⟨unary, readQuotient, unaryBits⟩ := readUnary_of_bits (q := 0)
    (show r.bits = List.replicate (x.toNat / 2 ^ P.toNat) true ++ false :: (lowBits x.toNat P.toNat ++ rest) by
      rw [split, golombRiceBits]
      simp)
    (by simpa using quotientFits)
  obtain ⟨last, readRemainder, lastBits⟩ :=
    BitStreamReader.read_of_bits (show P.toNat ≤ 64 by omega) unaryBits (length_lowBits _ _)
  refine ⟨last, ?_, lastBits⟩
  rw [golombRiceDecode, readQuotient]
  simp only [bind, Except.bind, readRemainder, pure, Except.pure, UInt64.zero_add, bitsValue_lowBits,
    golombRice_value small]

/-- A value coded into a fresh writer and flushed is read back by a reader on
the bytes written. -/
theorem golombRice_roundTrip {P : UInt8} (small : P.toNat < 64) (x : UInt64) :
    ∃ bitwriter, golombRiceEncode (BitStreamWriter.init []) P x = .ok bitwriter ∧
      ∃ bitreader, golombRiceDecode (BitStreamReader.init bitwriter.flush.stream) P = .ok (x, bitreader) := by
  obtain ⟨coded, encoded, codedBits, codedClear⟩ := bits_golombRiceEncode (BitStreamWriter.clear_init []) small x
  obtain ⟨left, decoded, -⟩ := golombRiceDecode_of_bits small x
    (show (BitStreamReader.init coded.flush.stream).bits = _ by
      rw [BitStreamReader.bits_init, BitStreamWriter.bytesBits_flush codedClear, codedBits,
        BitStreamWriter.bits_init, bytesBits_nil, List.nil_append])
  exact ⟨coded, encoded, left, decoded⟩

end Qbitcoin
