import Qbitcoin.Consensus.Compact

/-!
# Difficulty retargeting

`CalculateNextWorkRequired` and `PermittedDifficultyTransition` (`pow.cpp`):
the new target of a difficulty period, and the check that a new `nBits` is
within the bounds a period may move the target.

Both scale the old target by a timespan and cap it at `powLimit`
(`scaleTarget`); the check then rounds its two bounds through `GetCompact`, so
the new target lies between them because rounding through the compact
encoding is monotone (`compactRound_mono`).

`base_uint::operator*=` is called with an `int64_t` timespan, which C++
converts to the `uint32_t` overload, and the product keeps 256 bits
(`mulUInt32`).  `CalculateNextWorkRequired` reads of `pindexLast` its `nBits`
and time, and, for BIP94, the `nBits` of its ancestor at the period's first
height; these are its arguments here.
-/

namespace Qbitcoin

open ByteCodec

/-- The proof-of-work fields of `Consensus::Params`.  Every chain's timespan
and spacing are positive and four timespans fit an `int64_t`, so the model's
integers never wrap. -/
structure PowParams extends ConsensusParams where
  nPowTargetSpacing : Int
  nPowTargetTimespan : Int
  fPowAllowMinDifficultyBlocks : Bool
  fPowNoRetargeting : Bool
  enforce_BIP94 : Bool
  spacing_pos : 0 < nPowTargetSpacing
  timespan_pos : 0 < nPowTargetTimespan
  timespan_fits : nPowTargetTimespan * 4 < 2 ^ 63

namespace PowParams

/-- `DifficultyAdjustmentInterval`. -/
def difficultyAdjustmentInterval (params : PowParams) : Int :=
  params.nPowTargetTimespan.tdiv params.nPowTargetSpacing

/-- The main network's parameters of `CMainParams`: `powLimit` is
`00000000ff…ff`, stored little-endian, a two-week timespan of ten-minute
blocks, and retargeting on every period without the testnet rules. -/
def main : PowParams where
  powLimit := ⟨(List.replicate 28 (0xff : UInt8) ++ List.replicate 4 0).toArray, rfl⟩
  signetBlocks := false
  nPowTargetSpacing := 10 * 60
  nPowTargetTimespan := 14 * 24 * 60 * 60
  fPowAllowMinDifficultyBlocks := false
  fPowNoRetargeting := false
  enforce_BIP94 := false
  spacing_pos := by decide
  timespan_pos := by decide
  timespan_fits := by decide

theorem uintToArith256_main_powLimit : uintToArith256 main.powLimit = 2 ^ 224 - 1 := by
  decide

end PowParams

/-- `base_uint<256>::operator*=(uint32_t)` on an `int64_t` argument: C++
converts it modulo `2 ^ 32`, and the product keeps its low 256 bits. -/
def mulUInt32 (a : Nat) (b : Int) : Nat := a * (b % 2 ^ 32).toNat % 2 ^ 256

/-- The clamp of `CalculateNextWorkRequired`: the actual timespan limited to a
quarter and four times the target timespan. -/
def clampTimespan (params : PowParams) (nActualTimespan : Int) : Int :=
  let nActualTimespan :=
    if nActualTimespan < params.nPowTargetTimespan.tdiv 4 then params.nPowTargetTimespan.tdiv 4
    else nActualTimespan
  if nActualTimespan > params.nPowTargetTimespan * 4 then params.nPowTargetTimespan * 4 else nActualTimespan

/-- The target scaled by `timespan` over the target timespan, capped at
`powLimit`: `bnNew *= timespan; bnNew /= nPowTargetTimespan;` and the cap. -/
def scaleTarget (params : PowParams) (target : Nat) (timespan : Int) : Nat :=
  let bnNew := mulUInt32 target timespan / params.nPowTargetTimespan.toNat
  if bnNew > uintToArith256 params.powLimit then uintToArith256 params.powLimit else bnNew

/-- `CalculateNextWorkRequired`.  BIP94 scales the target of the period's
first block, which the min-difficulty exception cannot lower. -/
def calculateNextWorkRequired (params : PowParams) (nBitsLast nTimeLast : UInt32) (nFirstBlockTime : Int)
    (nBitsFirst : UInt32) : UInt32 :=
  if params.fPowNoRetargeting then nBitsLast
  else
    let nActualTimespan := clampTimespan params ((nTimeLast.toNat : Int) - nFirstBlockTime)
    let bnNew := (setCompact (if params.enforce_BIP94 then nBitsFirst else nBitsLast)).1
    getCompact (scaleTarget params bnNew nActualTimespan) false

/-- `PermittedDifficultyTransition`: each bound is rounded through
`GetCompact` before the comparison. -/
def permittedDifficultyTransition (params : PowParams) (height : Int) (old_nbits new_nbits : UInt32) : Bool :=
  if params.fPowAllowMinDifficultyBlocks then true
  else if height.tmod params.difficultyAdjustmentInterval = 0 then
    let smallest_timespan := params.nPowTargetTimespan.tdiv 4
    let largest_timespan := params.nPowTargetTimespan * 4
    let observed_new_target := (setCompact new_nbits).1
    let maximum_new_target :=
      (setCompact (getCompact (scaleTarget params (setCompact old_nbits).1 largest_timespan) false)).1
    if maximum_new_target < observed_new_target then false
    else
      let minimum_new_target :=
        (setCompact (getCompact (scaleTarget params (setCompact old_nbits).1 smallest_timespan) false)).1
      if minimum_new_target > observed_new_target then false else true
  else if old_nbits ≠ new_nbits then false
  else true

section

variable {params : PowParams}

theorem tdiv_four_nonneg (params : PowParams) : 0 ≤ params.nPowTargetTimespan.tdiv 4 := by
  rw [Int.tdiv_eq_ediv_of_nonneg params.timespan_pos.le]
  have := params.timespan_pos
  omega

/-- The clamped timespan lies between a quarter and four times the target
timespan. -/
theorem clampTimespan_bounds (params : PowParams) (nActualTimespan : Int) :
    params.nPowTargetTimespan.tdiv 4 ≤ clampTimespan params nActualTimespan ∧
      clampTimespan params nActualTimespan ≤ params.nPowTargetTimespan * 4 := by
  have quarter : params.nPowTargetTimespan.tdiv 4 ≤ params.nPowTargetTimespan * 4 := by
    rw [Int.tdiv_eq_ediv_of_nonneg params.timespan_pos.le]
    have := params.timespan_pos
    omega
  unfold clampTimespan
  dsimp only
  split_ifs <;> omega

/-- A multiplier that fits the `uint32_t` it is converted to, and a product
that fits 256 bits, multiply without wrapping. -/
theorem mulUInt32_eq {a : Nat} {b : Int} (nonneg : 0 ≤ b) (word : b < 2 ^ 32) (noWrap : a * b.toNat < 2 ^ 256) :
    mulUInt32 a b = a * b.toNat := by
  rw [mulUInt32, Int.emod_eq_of_lt nonneg word, Nat.mod_eq_of_lt noWrap]

theorem scaleTarget_le_powLimit (params : PowParams) (target : Nat) (timespan : Int) :
    scaleTarget params target timespan ≤ uintToArith256 params.powLimit := by
  unfold scaleTarget
  dsimp only
  split_ifs with capped <;> omega

theorem uintToArith256_lt (value : uint256) : uintToArith256 value < 2 ^ 256 := by
  have bound := readLE_lt value.toList
  rw [Vector.length_toList] at bound
  calc uintToArith256 value < 256 ^ 32 := bound
    _ = 2 ^ 256 := by norm_num

/-- Scaling a target is monotone in the timespan while the product does not
wrap. -/
theorem scaleTarget_mono {target : Nat} {shorter longer : Int} (nonneg : 0 ≤ shorter) (le : shorter ≤ longer)
    (word : longer < 2 ^ 32) (noWrap : target * longer.toNat < 2 ^ 256) :
    scaleTarget params target shorter ≤ scaleTarget params target longer := by
  have products : target * shorter.toNat ≤ target * longer.toNat :=
    Nat.mul_le_mul_left _ (Int.toNat_le_toNat le)
  have quotients : target * shorter.toNat / params.nPowTargetTimespan.toNat ≤
      target * longer.toNat / params.nPowTargetTimespan.toNat := Nat.div_le_div_right products
  unfold scaleTarget
  rw [mulUInt32_eq nonneg (by omega) (by omega), mulUInt32_eq (by omega) word noWrap]
  dsimp only
  split_ifs <;> omega

/-- A target at most `powLimit`, scaled by a clamped timespan, does not wrap
when four timespans, scaled from `powLimit`, do not. -/
theorem mul_clampTimespan_lt {target : Nat} {timespan : Int} (inRange : target ≤ uintToArith256 params.powLimit)
    (atMost : timespan ≤ params.nPowTargetTimespan * 4)
    (noWrap : uintToArith256 params.powLimit * (params.nPowTargetTimespan * 4).toNat < 2 ^ 256) :
    target * timespan.toNat < 2 ^ 256 :=
  calc target * timespan.toNat ≤ uintToArith256 params.powLimit * (params.nPowTargetTimespan * 4).toNat :=
        Nat.mul_le_mul inRange (Int.toNat_le_toNat atMost)
    _ < 2 ^ 256 := noWrap

/-- Outside the testnet rules, a retarget from a target at most `powLimit` is a
permitted transition at every period boundary: the new target is the old one
scaled by a clamped timespan, which lies between the scalings by the shortest
and the longest timespan, and rounding through the compact encoding keeps the
order. -/
theorem permittedDifficultyTransition_of_retarget (noMinDifficulty : params.fPowAllowMinDifficultyBlocks = false)
    (retargets : params.fPowNoRetargeting = false) (noBIP94 : params.enforce_BIP94 = false)
    (word : params.nPowTargetTimespan * 4 < 2 ^ 32)
    (noWrap : uintToArith256 params.powLimit * (params.nPowTargetTimespan * 4).toNat < 2 ^ 256)
    {height : Int} (period : params.difficultyAdjustmentInterval ∣ height) {nBits : UInt32}
    (inRange : (setCompact nBits).1 ≤ uintToArith256 params.powLimit) (nTimeLast : UInt32)
    (nFirstBlockTime : Int) (nBitsFirst : UInt32) :
    permittedDifficultyTransition params height nBits
      (calculateNextWorkRequired params nBits nTimeLast nFirstBlockTime nBitsFirst) = true := by
  obtain ⟨atLeast, atMost⟩ := clampTimespan_bounds params ((nTimeLast.toNat : Int) - nFirstBlockTime)
  have quarter := tdiv_four_nonneg params
  have belowLimit := uintToArith256_lt params.powLimit
  have upper := compactRound_mono
    (scaleTarget_mono (le_trans quarter atLeast) atMost word (mul_clampTimespan_lt inRange le_rfl noWrap))
    (lt_of_le_of_lt (scaleTarget_le_powLimit params _ _) belowLimit)
  have lower := compactRound_mono
    (scaleTarget_mono quarter atLeast (by omega) (mul_clampTimespan_lt inRange atMost noWrap))
    (lt_of_le_of_lt (scaleTarget_le_powLimit params _ _) belowLimit)
  unfold permittedDifficultyTransition calculateNextWorkRequired
  simp only [noMinDifficulty, retargets, noBIP94, Bool.false_eq_true, if_false]
  rw [if_pos (Int.tmod_eq_zero_of_dvd period), if_neg (not_lt.mpr upper), if_neg (not_lt.mpr lower)]

end

/-- On the main network, every retarget at a period boundary from a target at
most `powLimit` is a permitted transition, and the target times the clamped
timespan stays below `2 ^ 256`. -/
theorem retarget_permitted_main (h : Nat) (nBits nTimeLast nTimeFirst nBitsFirst : UInt32)
    (period : PowParams.main.difficultyAdjustmentInterval ∣ ((h + 1 : Nat) : Int))
    (inRange : (setCompact nBits).1 ≤ uintToArith256 PowParams.main.powLimit) :
    permittedDifficultyTransition PowParams.main (h + 1 : Nat) nBits
        (calculateNextWorkRequired PowParams.main nBits nTimeLast nTimeFirst.toNat nBitsFirst) = true ∧
      (setCompact nBits).1 * (clampTimespan PowParams.main (nTimeLast.toNat - nTimeFirst.toNat : Int)).toNat
        < 2 ^ 256 := by
  have noWrap : uintToArith256 PowParams.main.powLimit * (PowParams.main.nPowTargetTimespan * 4).toNat < 2 ^ 256 := by
    rw [PowParams.uintToArith256_main_powLimit]
    decide
  constructor
  · exact permittedDifficultyTransition_of_retarget rfl rfl rfl (by decide) noWrap period inRange nTimeLast _ nBitsFirst
  · exact mul_clampTimespan_lt inRange (clampTimespan_bounds _ _).2 noWrap

/-- The first retarget of the main chain, from the genesis `nBits`. -/
theorem retarget_permitted_main_genesisBits :
    PowParams.main.difficultyAdjustmentInterval ∣ ((2015 + 1 : Nat) : Int) ∧
      (setCompact 0x1d00ffff).1 ≤ uintToArith256 PowParams.main.powLimit ∧
      (permittedDifficultyTransition PowParams.main (2015 + 1 : Nat) 0x1d00ffff
          (calculateNextWorkRequired PowParams.main 0x1d00ffff 1209600 (0 : UInt32).toNat 0) = true ∧
        (setCompact 0x1d00ffff).1 * (clampTimespan PowParams.main ((1209600 : UInt32).toNat - (0 : UInt32).toNat : Int)).toNat
          < 2 ^ 256) := by
  have period : PowParams.main.difficultyAdjustmentInterval ∣ ((2015 + 1 : Nat) : Int) := by decide
  have inRange : (setCompact 0x1d00ffff).1 ≤ uintToArith256 PowParams.main.powLimit := by
    rw [PowParams.uintToArith256_main_powLimit]
    decide
  exact ⟨period, inRange, retarget_permitted_main 2015 0x1d00ffff 1209600 0 0 period inRange⟩

end Qbitcoin
