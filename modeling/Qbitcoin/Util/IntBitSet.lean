import Qbitcoin.Util.Bits
import Qbitcoin.Lib.BoundedSet
import Mathlib.Algebra.BigOperators.Group.Finset.Piecewise

/-!
# IntBitSet

`bitset_detail::IntBitSet<I>` of `util/bitset.h`: a set of the positions below
the width `w` of an unsigned integer type, kept as the bits of one word.  Each
operation is translated from the source on `BitVec w`.  The set a word stands
for is the positions of its set bits (`elems`), and `refines` proves that the
operations act on it as the set operations of `BoundedSet.Ops.Refines`: all of
them for any width, `Count` for the widths of the C++ unsigned integer types.
-/

namespace Qbitcoin

open Finset BoundedSet Bits
open scoped symmDiff

/-- `IntBitSet<I>` for an unsigned type of `w` bits: the word `m_val`. -/
@[ext]
structure IntBitSet (w : Nat) where
  val : BitVec w
deriving DecidableEq

namespace IntBitSet

variable {w : Nat}

/-! ## The operations -/

/-- `Singleton(i)`. -/
def singleton (i : Nat) : IntBitSet w := ⟨1#w <<< i⟩

/-- `Fill(count)`: bits `0 .. count - 1`. -/
def fill (count : Nat) : IntBitSet w :=
  if count ≠ 0 then ⟨BitVec.allOnes w >>> (w - count)⟩ else ⟨0#w⟩

/-- `Set(pos)`. -/
def set (s : IntBitSet w) (pos : Nat) : IntBitSet w := ⟨s.val ||| 1#w <<< pos⟩

/-- `Set(pos, val)`. -/
def setTo (s : IntBitSet w) (pos : Nat) (val : Bool) : IntBitSet w :=
  ⟨(s.val &&& ~~~(1#w <<< pos)) ||| BitVec.ofNat w val.toNat <<< pos⟩

/-- `Reset(pos)`. -/
def reset (s : IntBitSet w) (pos : Nat) : IntBitSet w := ⟨s.val &&& ~~~(1#w <<< pos)⟩

/-- `operator[](pos)`. -/
def get (s : IntBitSet w) (pos : Nat) : Bool := (s.val >>> pos) &&& 1#w != 0#w

/-- `Count()`. -/
def count (s : IntBitSet w) : Nat := popCount s.val

/-- `None()`. -/
def none (s : IntBitSet w) : Bool := s.val == 0#w

/-- `Any()`. -/
def any (s : IntBitSet w) : Bool := !s.none

/-- `First()`, for a nonempty set. -/
def first (s : IntBitSet w) : Nat := countrZero s.val

/-- `Last()`, for a nonempty set. -/
def last (s : IntBitSet w) : Nat := bitWidth s.val - 1

/-- `operator|=`. -/
def orAssign (s a : IntBitSet w) : IntBitSet w := ⟨s.val ||| a.val⟩

/-- `operator&=`. -/
def andAssign (s a : IntBitSet w) : IntBitSet w := ⟨s.val &&& a.val⟩

/-- `operator-=`. -/
def subAssign (s a : IntBitSet w) : IntBitSet w := ⟨s.val &&& ~~~a.val⟩

/-- `operator^=`. -/
def xorAssign (s a : IntBitSet w) : IntBitSet w := ⟨s.val ^^^ a.val⟩

/-- `Overlaps(a)`. -/
def overlaps (s a : IntBitSet w) : Bool := s.val &&& a.val != 0#w

/-- `operator&`. -/
def andOp (a b : IntBitSet w) : IntBitSet w := ⟨a.val &&& b.val⟩

/-- `operator|`. -/
def orOp (a b : IntBitSet w) : IntBitSet w := ⟨a.val ||| b.val⟩

/-- `operator-`. -/
def subOp (a b : IntBitSet w) : IntBitSet w := ⟨a.val &&& ~~~b.val⟩

/-- `operator^`. -/
def xorOp (a b : IntBitSet w) : IntBitSet w := ⟨a.val ^^^ b.val⟩

/-- `operator==`, defaulted: the words are equal. -/
def beq (a b : IntBitSet w) : Bool := a.val == b.val

/-- `IsSupersetOf(a)`. -/
def isSupersetOf (s a : IntBitSet w) : Bool := a.val &&& ~~~s.val == 0#w

/-- `IsSubsetOf(a)`. -/
def isSubsetOf (s a : IntBitSet w) : Bool := s.val &&& ~~~a.val == 0#w

/-- `IntBitSet::Iterator`: the bits not reported yet (`m_val`) and the last reported position (`m_pos`). -/
structure Iterator (w : Nat) where
  val : BitVec w
  pos : Nat

/-- `begin()`. -/
def begin (s : IntBitSet w) : Iterator w := ⟨s.val, if s.val ≠ 0#w then countrZero s.val else 0⟩

namespace Iterator

/-- `operator==` against `end()`. -/
def atEnd (it : Iterator w) : Bool := it.val == 0#w

/-- `operator++`. -/
def next (it : Iterator w) : Iterator w :=
  let val := it.val &&& (it.val - 1#w)
  ⟨val, if val ≠ 0#w then countrZero val else it.pos⟩

/-- The positions `*it` reports from `it` up to `end()`. -/
def visit (it : Iterator w) : List Nat :=
  if _stop : it.atEnd then [] else it.pos :: it.next.visit
termination_by it.val.toNat
decreasing_by exact and_sub_one_lt (by simpa [atEnd] using _stop)

end Iterator

/-! ## The set of a word -/

/-- The positions of the set bits. -/
def elems (s : IntBitSet w) : Finset Nat := (range w).filter (s.val.getLsbD ·)

@[simp] theorem mem_elems {s : IntBitSet w} {i : Nat} : i ∈ s.elems ↔ s.val.getLsbD i = true := by
  simp only [elems, mem_filter, mem_range, and_iff_right_iff_imp]
  exact BitVec.lt_of_getLsbD

theorem elems_subset (s : IntBitSet w) : s.elems ⊆ range w := filter_subset _ _

theorem eq_zero_iff {v : BitVec w} : v = 0#w ↔ ∀ i, v.getLsbD i = false :=
  ⟨fun zero i => zero ▸ BitVec.getLsbD_zero, fun bits => BitVec.eq_of_getLsbD_eq fun i _ => by simp [bits]⟩

theorem elems_eq_empty {s : IntBitSet w} : s.elems = ∅ ↔ s.val = 0#w := by
  rw [eq_zero_iff, eq_empty_iff_forall_notMem]
  simp

theorem elems_injective {s t : IntBitSet w} : s.elems = t.elems ↔ s = t := by
  refine ⟨fun same => IntBitSet.ext (BitVec.eq_of_getLsbD_eq fun i _ => ?_), fun same => same ▸ rfl⟩
  have := congrArg (i ∈ ·) same
  simp only [mem_elems, eq_iff_iff] at this
  exact Bool.eq_iff_iff.mpr this

/-- The bit of a position, `I{1U} << pos`. -/
theorem getLsbD_bit {pos : Nat} (below : pos < w) (i : Nat) : (1#w <<< pos).getLsbD i = decide (i = pos) := by
  simp only [BitVec.getLsbD_shiftLeft, BitVec.getLsbD_one]
  by_cases at_pos : i = pos
  · simp [at_pos, below, show 0 < w by omega]
  · by_cases lower : i < pos
    · simp [at_pos, lower]
    · simp [at_pos, lower]
      omega

/-! ## One position -/

variable {s t : IntBitSet w} {pos : Nat}

theorem elems_set (below : pos < w) : (s.set pos).elems = insert pos s.elems := by
  ext i
  simp [set, getLsbD_bit below, or_comm]

theorem elems_reset (below : pos < w) : (s.reset pos).elems = s.elems.erase pos := by
  ext i
  by_cases at_pos : i = pos
  · simp [reset, getLsbD_bit below, at_pos]
  · simp [reset, getLsbD_bit below, at_pos]
    exact BitVec.lt_of_getLsbD

/-- `Set(pos, false)` writes the word of `Reset(pos)`. -/
theorem setTo_false : s.setTo pos false = s.reset pos := by
  have noBit : BitVec.ofNat w false.toNat <<< pos = 0#w := BitVec.zero_shiftLeft pos
  rw [setTo, noBit, BitVec.or_zero]
  rfl

/-- `Set(pos, true)` clears the bit and sets it again: the word of `Set(pos)`. -/
theorem setTo_true (below : pos < w) : s.setTo pos true = s.set pos := by
  refine IntBitSet.ext (BitVec.eq_of_getLsbD_eq fun i inside => ?_)
  simp only [setTo, set, BitVec.getLsbD_or, BitVec.getLsbD_and, BitVec.getLsbD_not, Bool.toNat_true,
    getLsbD_bit below, inside, decide_true, Bool.true_and]
  cases s.val.getLsbD i <;> cases decide (i = pos) <;> rfl

theorem elems_setTo (below : pos < w) (val : Bool) :
    (s.setTo pos val).elems = if val then insert pos s.elems else s.elems.erase pos := by
  cases val
  · rw [if_neg Bool.false_ne_true, setTo_false, elems_reset below]
  · rw [if_pos rfl, setTo_true below, elems_set below]

theorem get_iff (below : pos < w) : s.get pos = true ↔ pos ∈ s.elems := by
  have one : (1#w).toNat = 1 := by rw [BitVec.toNat_ofNat, Nat.one_mod_two_pow (by omega)]
  have low : ((s.val >>> pos) &&& 1#w).toNat = (s.val.toNat >>> pos) % 2 := by
    rw [BitVec.toNat_and, BitVec.toNat_ushiftRight, one, Nat.and_one_is_mod]
  rw [get, bne_iff_ne, ne_eq, ← BitVec.toNat_inj, low, BitVec.toNat_ofNat, Nat.zero_mod, mem_elems,
    ← BitVec.testBit_toNat, Nat.testBit_eq_decide_div_mod_eq, Nat.shiftRight_eq_div_pow, decide_eq_true_eq]
  omega

theorem elems_singleton (below : pos < w) : (singleton pos : IntBitSet w).elems = {pos} := by
  ext i
  simp [singleton, getLsbD_bit below]

theorem elems_fill {c : Nat} (within : c ≤ w) : (fill c : IntBitSet w).elems = range c := by
  ext i
  unfold fill
  split_ifs with nonzero
  · simp only [mem_elems, BitVec.getLsbD_ushiftRight, BitVec.getLsbD_allOnes, decide_eq_true_eq, mem_range]
    omega
  · simp [show c = 0 by simpa using nonzero]

/-! ## The whole set -/

theorem count_eq (standard : UnsignedWidth w) (s : IntBitSet w) : s.count = s.elems.card := by
  rw [count, popCount_eq_sum standard, elems, card_filter]
  exact sum_congr rfl fun i _ => by unfold bitsOf; rw [BitVec.testBit_toNat]; cases s.val.getLsbD i <;> rfl

theorem none_iff : s.none = true ↔ s.elems = ∅ := by
  rw [none, beq_iff_eq, elems_eq_empty]

theorem any_iff : s.any = true ↔ s.elems.Nonempty := by
  rw [any, Bool.not_eq_true', ← Bool.not_eq_true, none_iff, nonempty_iff_ne_empty]

theorem val_ne_zero (nonempty : s.elems.Nonempty) : s.val ≠ 0#w :=
  fun zero => nonempty.ne_empty (elems_eq_empty.mpr zero)

theorem first_eq (nonempty : s.elems.Nonempty) : s.first = s.elems.min' nonempty :=
  le_antisymm (le_min' _ _ _ fun _ mem => countrZero_le_of_getLsbD (mem_elems.mp mem))
    (min'_le _ _ (mem_elems.mpr (getLsbD_countrZero (val_ne_zero nonempty))))

theorem last_eq (nonempty : s.elems.Nonempty) : s.last = s.elems.max' nonempty :=
  le_antisymm (le_max' _ _ (mem_elems.mpr (getLsbD_bitWidth_sub_one (val_ne_zero nonempty))))
    (max'_le _ _ _ fun _ mem => le_bitWidth_sub_one_of_getLsbD (mem_elems.mp mem))

/-! ## Two sets -/

theorem elems_orOp : (s.orOp t).elems = s.elems ∪ t.elems := by
  ext i
  simp [orOp]

theorem elems_andOp : (s.andOp t).elems = s.elems ∩ t.elems := by
  ext i
  simp [andOp]

theorem elems_subOp : (s.subOp t).elems = s.elems \ t.elems := by
  ext i
  simp only [subOp, mem_elems, BitVec.getLsbD_and, BitVec.getLsbD_not, mem_sdiff, Bool.and_eq_true,
    Bool.not_eq_true', decide_eq_true_eq, Bool.not_eq_true]
  constructor
  · exact fun ⟨set, _, clear⟩ => ⟨set, clear⟩
  · exact fun ⟨set, clear⟩ => ⟨set, BitVec.lt_of_getLsbD set, clear⟩

theorem elems_xorOp : (s.xorOp t).elems = s.elems ∆ t.elems := by
  ext i
  simp only [xorOp, mem_elems, BitVec.getLsbD_xor, mem_symmDiff]
  cases s.val.getLsbD i <;> cases t.val.getLsbD i <;> decide

theorem overlaps_iff : s.overlaps t = true ↔ ¬Disjoint s.elems t.elems := by
  rw [overlaps, bne_iff_ne, ne_eq, eq_zero_iff, not_disjoint_iff]
  simp only [BitVec.getLsbD_and, Bool.and_eq_false_iff, not_forall, not_or, Bool.not_eq_false, mem_elems]

theorem and_not_eq_zero_iff : s.val &&& ~~~t.val = 0#w ↔ s.elems ⊆ t.elems := by
  rw [eq_zero_iff]
  constructor
  · intro clear i inS
    have := clear i
    simp only [BitVec.getLsbD_and, BitVec.getLsbD_not, mem_elems.mp inS, BitVec.lt_of_getLsbD (mem_elems.mp inS),
      decide_true, Bool.true_and, Bool.not_eq_false'] at this
    exact mem_elems.mpr this
  · intro sub i
    cases inS : s.val.getLsbD i
    · simp [inS]
    · simp [mem_elems.mp (sub (mem_elems.mpr inS))]

theorem isSubsetOf_iff : s.isSubsetOf t = true ↔ s.elems ⊆ t.elems := by
  rw [isSubsetOf, beq_iff_eq, and_not_eq_zero_iff]

theorem isSupersetOf_iff : s.isSupersetOf t = true ↔ t.elems ⊆ s.elems := by
  rw [isSupersetOf, beq_iff_eq, and_not_eq_zero_iff]

theorem beq_iff : s.beq t = true ↔ s.elems = t.elems := by
  rw [beq, beq_iff_eq, elems_injective, IntBitSet.ext_iff]

/-! ## Iteration -/

namespace Iterator

/-- The positions not reported yet. -/
def remaining (it : Iterator w) : Finset Nat := (IntBitSet.mk it.val).elems

/-- `m_pos` is the lowest bit of `m_val` while the iteration is not at its end. -/
def Valid (it : Iterator w) : Prop := it.val ≠ 0#w → it.pos = countrZero it.val

theorem visit_of_atEnd {it : Iterator w} (stop : it.atEnd = true) : it.visit = [] := by
  rw [visit, dif_pos stop]

theorem visit_of_not_atEnd {it : Iterator w} (going : it.atEnd = false) : it.visit = it.pos :: it.next.visit := by
  rw [visit, dif_neg (by simp [going])]

/-- One step reports the least remaining position and leaves the others. -/
theorem step (it : Iterator w) (valid : it.Valid) (nonempty : it.remaining.Nonempty) :
    ∃ next : Iterator w, next.Valid ∧ next.remaining = it.remaining.erase (it.remaining.min' nonempty) ∧
      it.visit = it.remaining.min' nonempty :: next.visit := by
  have nonzero := val_ne_zero nonempty
  have least : it.pos = it.remaining.min' nonempty := (valid nonzero).trans (first_eq nonempty)
  refine ⟨it.next, fun nextNonzero => ?_, ?_, ?_⟩
  · simp only [next] at nextNonzero ⊢
    rw [if_pos nextNonzero]
  · rw [← least, valid nonzero]
    ext i
    simp only [remaining, next, mem_elems, getLsbD_and_sub_one nonzero, mem_erase]
    simp [and_comm]
  · rw [visit_of_not_atEnd (by simpa [atEnd] using nonzero), least]

theorem visit_sorted (it : Iterator w) (valid : it.Valid) :
    it.visit.Pairwise (· < ·) ∧ ∀ i, i ∈ it.visit ↔ i ∈ it.remaining :=
  visit_of_min remaining visit Valid
    (fun _ _ empty => visit_of_atEnd (by simpa [atEnd] using elems_eq_empty.mp empty)) step it valid

end Iterator

theorem begin_valid (s : IntBitSet w) : s.begin.Valid := fun nonzero => by
  simp only [begin] at nonzero ⊢
  rw [if_pos nonzero]

theorem visit_begin (s : IntBitSet w) :
    s.begin.visit.Pairwise (· < ·) ∧ ∀ i, i ∈ s.begin.visit ↔ i ∈ s.elems :=
  s.begin.visit_sorted s.begin_valid

/-! ## Refinement -/

/-- The operations of `IntBitSet<I>` for a type of `w` bits. -/
def ops (w : Nat) : Ops (IntBitSet w) where
  size := w
  elems := elems
  set := set
  setTo := setTo
  reset := reset
  get := get
  singleton := singleton
  fill := fill
  count := count
  none := none
  any := any
  first := first
  last := last
  union := orOp
  inter := andOp
  diff := subOp
  symmDiff := xorOp
  unionAssign := orAssign
  interAssign := andAssign
  diffAssign := subAssign
  symmDiffAssign := xorAssign
  overlaps := overlaps
  isSubsetOf := isSubsetOf
  isSupersetOf := isSupersetOf
  beq := beq
  visit := fun s => s.begin.visit

/-- `IntBitSet<I>` implements the sets of positions below the width of `I`. -/
theorem refines (standard : UnsignedWidth w) : (ops w).Refines where
  elems_subset := elems_subset
  elems_set _ _ := elems_set
  elems_setTo _ _ val below := elems_setTo below val
  elems_reset _ _ := elems_reset
  get_iff _ _ := get_iff
  elems_singleton _ := elems_singleton
  elems_fill _ := elems_fill
  count_eq := count_eq standard
  none_iff _ := none_iff
  any_iff _ := any_iff
  first_eq _ := first_eq
  last_eq _ := last_eq
  elems_union _ _ := elems_orOp
  elems_inter _ _ := elems_andOp
  elems_diff _ _ := elems_subOp
  elems_symmDiff _ _ := elems_xorOp
  unionAssign_eq _ _ := rfl
  interAssign_eq _ _ := rfl
  diffAssign_eq _ _ := rfl
  symmDiffAssign_eq _ _ := rfl
  overlaps_iff _ _ := overlaps_iff
  isSubsetOf_iff _ _ := isSubsetOf_iff
  isSupersetOf_iff _ _ := isSupersetOf_iff
  beq_iff _ _ := beq_iff
  visit_sorted s := (visit_begin s).1
  mem_visit s := (visit_begin s).2

end IntBitSet

end Qbitcoin
