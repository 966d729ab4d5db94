import Qbitcoin.Lib.MsbDigits
import Mathlib.Data.UInt

/-!
# Regrouping digits: `ConvertBits`

`ConvertBits<frombits, tobits, pad>` of `util/strencodings.h` reads digits of
`frombits` bits into an accumulator and hands `outfn` a digit of `tobits` bits
each time that many are waiting, the highest bits first.  At the end it either
pads what is left with zeros into one more digit, or, without padding, refuses
a remainder of `frombits` bits or more, or one with a bit set.

Read as bit strings, the digits it emits are its input's bits
(`loop_spec`): with padding followed by fewer than `tobits` zeros
(`convertBits_pad`), and without padding it succeeds exactly when the input is
the output followed by such zeros (`convertBits_noPad_eq_some_iff`).  The two
directions undo each other (`convertBits_roundTrip`,
`convertBits_pad_of_noPad`).

The callers pass the identity as `infn` and read `unsigned char`, so the
refusal of a negative digit never happens and is not modelled.  The
accumulator is a `size_t` that is masked to `frombits + tobits - 1` bits after
each digit, so it never wraps for the widths used (at most 8).
-/

namespace Qbitcoin

namespace ConvertBits

/-- The inner loop `while (bits >= tobits)`: the digits emitted while at least
`tobits` bits of `acc` are waiting, and the count of bits left.  `tobits` is a
positive template argument; the guard on it only makes the recursion
terminate. -/
def emitGroups (tobits acc bits : Nat) : List UInt8 × Nat :=
  if tobits ≤ bits ∧ 0 < tobits then
    let next := emitGroups tobits acc (bits - tobits)
    (((acc >>> (bits - tobits)) &&& ((1 <<< tobits) - 1)).toUInt8 :: next.1, next.2)
  else ([], bits)
termination_by bits

/-- The outer loop over the input, from an accumulator `acc` with `bits`
unread bits: the digits emitted, and the final `acc` and `bits`. -/
def loop (frombits tobits acc bits : Nat) : List UInt8 → List UInt8 × Nat × Nat
  | [] => ([], acc, bits)
  | v :: rest =>
    let acc := ((acc <<< frombits) ||| v.toNat) &&& ((1 <<< (frombits + tobits - 1)) - 1)
    let emitted := emitGroups tobits acc (bits + frombits)
    let next := loop frombits tobits acc emitted.2 rest
    (emitted.1 ++ next.1, next.2)

end ConvertBits

/-- `ConvertBits<frombits, tobits, pad>(outfn, it, end)`: the digits handed to
`outfn`, or `none` where it returns `false`. -/
def convertBits (frombits tobits : Nat) (pad : Bool) (input : List UInt8) : Option (List UInt8) :=
  let run := ConvertBits.loop frombits tobits 0 0 input
  let acc := run.2.1
  let bits := run.2.2
  let maxv := (1 <<< tobits) - 1
  if pad then
    if bits ≠ 0 then some (run.1 ++ [((acc <<< (tobits - bits)) &&& maxv).toUInt8]) else some run.1
  else if bits ≥ frombits ∨ (acc <<< (tobits - bits)) &&& maxv ≠ 0 then none
  else some run.1

namespace ConvertBits

open MsbBits

/-- The bit string that digits of width `w` stand for. -/
def digitBits (w : Nat) (xs : List UInt8) : List Bool := (xs.map UInt8.toNat).flatMap (lowBits · w)

/-- Every digit is under `2 ^ w`. -/
def Fits (w : Nat) (xs : List UInt8) : Prop := ∀ x ∈ xs, x.toNat < 2 ^ w

instance (w : Nat) (xs : List UInt8) : Decidable (Fits w xs) :=
  inferInstanceAs (Decidable (∀ x ∈ xs, x.toNat < 2 ^ w))

@[simp]
theorem digitBits_nil (w : Nat) : digitBits w [] = [] := rfl

@[simp]
theorem digitBits_append (w : Nat) (xs ys : List UInt8) :
    digitBits w (xs ++ ys) = digitBits w xs ++ digitBits w ys := by
  simp [digitBits]

@[simp]
theorem digitBits_cons (w : Nat) (x : UInt8) (xs : List UInt8) :
    digitBits w (x :: xs) = lowBits x.toNat w ++ digitBits w xs := rfl

@[simp]
theorem length_digitBits (w : Nat) (xs : List UInt8) : (digitBits w xs).length = w * xs.length := by
  rw [digitBits, length_flatMap_lowBits, List.length_map]

theorem fits_eight (xs : List UInt8) : Fits 8 xs := fun x _ => x.toNat_lt

theorem Fits.append {w : Nat} {xs ys : List UInt8} (hx : Fits w xs) (hy : Fits w ys) : Fits w (xs ++ ys) := by
  intro x member
  rcases List.mem_append.mp member with inXs | inYs
  · exact hx x inXs
  · exact hy x inYs

theorem Fits.map_toNat {w : Nat} {xs : List UInt8} (fits : Fits w xs) : ∀ x ∈ xs.map UInt8.toNat, x < 2 ^ w := by
  intro x member
  obtain ⟨y, inXs, rfl⟩ := List.mem_map.mp member
  exact fits y inXs

/-- Digits of one positive width are read back from their bits. -/
theorem eq_of_digitBits_eq {w : Nat} (positive : 0 < w) {xs ys : List UInt8} (hx : Fits w xs) (hy : Fits w ys)
    (same : digitBits w xs = digitBits w ys) : xs = ys :=
  List.map_injective_iff.mpr (fun _ _ equal => UInt8.toNat_inj.mp equal)
    (flatMap_lowBits_inj positive hx.map_toNat hy.map_toNat same)

/-- A digit masked to `tobits ≤ 8` bits keeps its value as a byte. -/
theorem toNat_toUInt8_mask {tobits : Nat} (narrow : tobits ≤ 8) (x : Nat) :
    (x &&& (2 ^ tobits - 1)).toUInt8.toNat = x &&& (2 ^ tobits - 1) := by
  have below : x &&& (2 ^ tobits - 1) < 2 ^ tobits := Nat.and_lt_two_pow x (Nat.sub_lt (Nat.two_pow_pos _) Nat.one_pos)
  have byte : 2 ^ tobits ≤ 2 ^ 8 := Nat.pow_le_pow_right (by decide) narrow
  rw [Nat.toUInt8_eq, UInt8.toNat_ofNat', Nat.mod_eq_of_lt (Nat.lt_of_lt_of_le below byte)]

/-! ## The two loops -/

/-- What the inner loop emits are the waiting bits, highest first, and it
leaves fewer than `tobits`. -/
theorem emitGroups_spec {tobits : Nat} (positive : 0 < tobits) (narrow : tobits ≤ 8) (acc bits : Nat) :
    lowBits acc bits = digitBits tobits (emitGroups tobits acc bits).1 ++ lowBits acc (emitGroups tobits acc bits).2 ∧
      (emitGroups tobits acc bits).2 < tobits ∧ Fits tobits (emitGroups tobits acc bits).1 := by
  fun_induction emitGroups tobits acc bits with
  | case1 bits guard next inductionHypothesis =>
    obtain ⟨split, left, fits⟩ := inductionHypothesis
    rw [Nat.one_shiftLeft]
    refine ⟨?_, left, ?_⟩
    · have width : bits = tobits + (bits - tobits) := by omega
      rw [digitBits_cons, toNat_toUInt8_mask narrow, lowBits_and_two_pow_sub_one (Nat.le_refl _),
        Nat.shiftRight_eq_div_pow, List.append_assoc, ← split, ← lowBits_add, ← width]
    · intro x member
      rcases List.mem_cons.mp member with rfl | later
      · rw [toNat_toUInt8_mask narrow]
        exact Nat.and_lt_two_pow _ (Nat.sub_lt (Nat.two_pow_pos _) Nat.one_pos)
      · exact fits x later
  | case2 bits guard =>
    exact ⟨rfl, by omega, fun _ impossible => absurd impossible List.not_mem_nil⟩

/-- Shifting a digit into the masked accumulator appends its bits to the
`bits` waiting there, while fewer than `tobits` were. -/
theorem lowBits_shiftIn {frombits tobits bits : Nat} (short : bits < tobits) {v : Nat} (fits : v < 2 ^ frombits)
    (acc : Nat) :
    lowBits (((acc <<< frombits) ||| v) &&& (2 ^ (frombits + tobits - 1) - 1)) (bits + frombits) =
      lowBits acc bits ++ lowBits v frombits := by
  rw [lowBits_and_two_pow_sub_one (by omega), lowBits_shiftLeft_or fits]

/-- The run invariant of the outer loop: the bits waiting and the input's bits
are the emitted digits' bits and the bits waiting at the end.  The induction
is on the input, from any accumulator with fewer than `tobits` waiting. -/
theorem loop_spec {frombits tobits : Nat} (positive : 0 < tobits) (narrow : tobits ≤ 8) :
    ∀ (input : List UInt8) (acc bits : Nat), Fits frombits input → bits < tobits →
      lowBits acc bits ++ digitBits frombits input =
          digitBits tobits (loop frombits tobits acc bits input).1 ++
            lowBits (loop frombits tobits acc bits input).2.1 (loop frombits tobits acc bits input).2.2 ∧
        (loop frombits tobits acc bits input).2.2 < tobits ∧ Fits tobits (loop frombits tobits acc bits input).1
  | [], acc, bits, _, short => ⟨by simp [loop], short, fun _ impossible => absurd impossible List.not_mem_nil⟩
  | v :: rest, acc, bits, fits, short => by
    simp only [loop, Nat.one_shiftLeft]
    set shifted := ((acc <<< frombits) ||| v.toNat) &&& (2 ^ (frombits + tobits - 1) - 1)
    obtain ⟨emitted, left, emittedFit⟩ := emitGroups_spec positive narrow shifted (bits + frombits)
    obtain ⟨run, final, restFit⟩ := loop_spec positive narrow rest shifted _
      (fun x member => fits x (List.mem_cons_of_mem v member)) left
    refine ⟨?_, final, emittedFit.append restFit⟩
    rw [digitBits_cons, ← List.append_assoc, ← lowBits_shiftIn short (fits v List.mem_cons_self), emitted,
      List.append_assoc, run, digitBits_append, List.append_assoc]

/-! ## `ConvertBits` -/

/-- The digit the padding emits: the bits left, then zeros. -/
theorem lowBits_padDigit {tobits bits : Nat} (le : bits ≤ tobits) (acc : Nat) :
    lowBits ((acc <<< (tobits - bits)) &&& (2 ^ tobits - 1)) tobits =
      lowBits acc bits ++ List.replicate (tobits - bits) false := by
  rw [lowBits_and_two_pow_sub_one (Nat.le_refl _)]
  obtain ⟨zeros, rfl⟩ : ∃ zeros, tobits = bits + zeros := ⟨tobits - bits, by omega⟩
  rw [Nat.add_sub_cancel_left, ← Nat.or_zero (acc <<< zeros), lowBits_shiftLeft_or (Nat.two_pow_pos _), lowBits_zero]

/-- The padding digit is zero exactly when the bits left are. -/
theorem padDigit_eq_zero_iff {tobits bits : Nat} (le : bits ≤ tobits) (acc : Nat) :
    (acc <<< (tobits - bits)) &&& (2 ^ tobits - 1) = 0 ↔ lowBits acc bits = List.replicate bits false := by
  have below : (acc <<< (tobits - bits)) &&& (2 ^ tobits - 1) < 2 ^ tobits :=
    Nat.and_lt_two_pow _ (Nat.sub_lt (Nat.two_pow_pos _) Nat.one_pos)
  have zeros : List.replicate tobits false = List.replicate bits false ++ List.replicate (tobits - bits) false := by
    rw [← List.replicate_add, Nat.add_sub_cancel' le]
  constructor
  · intro zero
    have digit := lowBits_padDigit le acc
    rw [zero, lowBits_zero, zeros] at digit
    exact (List.append_inj digit.symm (by simp)).1
  · intro clear
    apply eq_of_lowBits_eq below (Nat.two_pow_pos _)
    rw [lowBits_padDigit le, clear, lowBits_zero, zeros]

/-- With padding `ConvertBits` always succeeds: its digits carry the input's
bits followed by fewer than `tobits` zeros. -/
theorem convertBits_pad {frombits tobits : Nat} (positive : 0 < tobits) (narrow : tobits ≤ 8) {input : List UInt8}
    (fits : Fits frombits input) :
    ∃ out, convertBits frombits tobits true input = some out ∧ Fits tobits out ∧
      ∃ p < tobits, digitBits tobits out = digitBits frombits input ++ List.replicate p false := by
  obtain ⟨run, short, fitsOut⟩ := loop_spec positive narrow input 0 0 fits positive
  rw [lowBits_zero_width, List.nil_append] at run
  unfold convertBits
  simp only [Nat.one_shiftLeft, if_true]
  split_ifs with leftover
  · refine ⟨_, rfl, fitsOut.append ?_, _, Nat.sub_lt positive (Nat.pos_of_ne_zero leftover), ?_⟩
    · intro x member
      rw [List.mem_singleton.mp member, toNat_toUInt8_mask narrow]
      exact Nat.and_lt_two_pow _ (Nat.sub_lt (Nat.two_pow_pos _) Nat.one_pos)
    · rw [digitBits_append, run, digitBits_cons, toNat_toUInt8_mask narrow, lowBits_padDigit short.le, digitBits_nil,
        List.append_nil, List.append_assoc]
  · refine ⟨_, rfl, fitsOut, 0, positive, ?_⟩
    rw [run, not_not.mp leftover, lowBits_zero_width, List.replicate_zero, List.append_nil, List.append_nil]

/-- Without padding `ConvertBits` succeeds exactly when the input's bits are
the output's followed by fewer than `frombits` (and `tobits`) zeros. -/
theorem convertBits_noPad_eq_some_iff {frombits tobits : Nat} (positive : 0 < tobits) (narrow : tobits ≤ 8)
    {input out : List UInt8} (fits : Fits frombits input) :
    convertBits frombits tobits false input = some out ↔
      Fits tobits out ∧ ∃ b, b < frombits ∧ b < tobits ∧
        digitBits frombits input = digitBits tobits out ++ List.replicate b false := by
  obtain ⟨run, short, fitsRun⟩ := loop_spec positive narrow input 0 0 fits positive
  rw [lowBits_zero_width, List.nil_append] at run
  unfold convertBits
  simp only [Nat.one_shiftLeft, Bool.false_eq_true, if_false]
  constructor
  · intro accepted
    split_ifs at accepted with refused
    cases accepted
    rw [not_or, not_le, not_not, padDigit_eq_zero_iff short.le] at refused
    exact ⟨fitsRun, _, refused.1, short, by rw [run, refused.2]⟩
  · rintro ⟨fitsOut, b, belowFrom, belowTo, bits⟩
    rw [run] at bits
    obtain ⟨digits, zeros⟩ := flatMap_lowBits_append_inj positive fitsRun.map_toNat fitsOut.map_toNat
      (by simpa using short) (by simpa using belowTo) bits
    have sameOut := List.map_injective_iff.mpr (fun _ _ equal => UInt8.toNat_inj.mp equal) digits
    have sameCount : (loop frombits tobits 0 0 input).2.2 = b := by
      simpa using congrArg List.length zeros
    rw [if_neg, sameOut]
    rw [not_or, not_le, not_not, padDigit_eq_zero_iff short.le, zeros, sameCount]
    exact ⟨sameCount ▸ belowFrom, rfl⟩

/-- Regrouping into narrower digits with padding, then back without padding,
gives back the input. -/
theorem convertBits_roundTrip {frombits tobits : Nat} (positive : 0 < tobits) (narrower : tobits ≤ frombits)
    (narrow : frombits ≤ 8) {input : List UInt8} (fits : Fits frombits input) :
    (convertBits frombits tobits true input).bind (convertBits tobits frombits false) = some input := by
  obtain ⟨out, encoded, fitsOut, p, short, bits⟩ := convertBits_pad positive (by omega) fits
  rw [encoded, Option.bind_some]
  exact (convertBits_noPad_eq_some_iff (by omega) narrow fitsOut).mpr ⟨fits, p, short, by omega, bits⟩

/-- What `ConvertBits` accepts without padding is the padded regrouping of
what it returns: the remainder it accepts is the padding the other direction
adds. -/
theorem convertBits_pad_of_noPad {frombits tobits : Nat} (positiveFrom : 0 < frombits) (positive : 0 < tobits)
    (narrowFrom : frombits ≤ 8) (narrow : tobits ≤ 8) {input out : List UInt8} (fits : Fits frombits input)
    (decoded : convertBits frombits tobits false input = some out) :
    convertBits tobits frombits true out = some input := by
  obtain ⟨fitsOut, b, belowFrom, -, bits⟩ := (convertBits_noPad_eq_some_iff positive narrow fits).mp decoded
  obtain ⟨encoded, reencoded, fitsEncoded, p, short, encodedBits⟩ := convertBits_pad positiveFrom narrowFrom fitsOut
  have sameCount : b = p := by
    have input_dvd := congrArg List.length bits
    have encoded_dvd := congrArg List.length encodedBits
    simp only [length_digitBits, List.length_append, List.length_replicate] at input_dvd encoded_dvd
    exact eq_of_dvd_add_of_lt belowFrom short (input_dvd ▸ Nat.dvd_mul_right _ _)
      (encoded_dvd ▸ Nat.dvd_mul_right _ _)
  rw [reencoded, eq_of_digitBits_eq positiveFrom fitsEncoded fits (by rw [encodedBits, bits, sameCount])]

end ConvertBits

end Qbitcoin
