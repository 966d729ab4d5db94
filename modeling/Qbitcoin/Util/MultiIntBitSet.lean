import Qbitcoin.Util.IntBitSet
import Qbitcoin.Lib.VectorLoop
import Mathlib.Algebra.BigOperators.Fin

/-!
# MultiIntBitSet

`bitset_detail::MultiIntBitSet<I, N>` of `util/bitset.h`: a set of the
positions below `w * N`, kept in `N` limbs of `w` bits, position `p` as bit
`p % w` of limb `p / w`.  The loops of the source are translated as they run:
the loops over the limbs of the set operations (`VectorLoop.updateEach`), the
scans of `First()` and `Last()`, the limb loop of `Fill()`, and the iterator,
which skips the empty limbs.  `refines` proves that the operations act on the
set of the limbs as the set operations of `BoundedSet.Ops.Refines`.
-/

namespace Qbitcoin

open Finset BoundedSet Bits VectorLoop
open scoped symmDiff

/-- `MultiIntBitSet<I, N>` for an unsigned type of `w` bits: the limbs `m_val`. -/
@[ext]
structure MultiIntBitSet (w N : Nat) where
  val : Vector (BitVec w) N
deriving DecidableEq

namespace MultiIntBitSet

variable {w N : Nat}

/-! ## The operations -/

/-- `m_val[i]`.  The source reads only limbs below `N`. -/
def limb (s : MultiIntBitSet w N) (i : Nat) : BitVec w := if h : i < N then s.val[i] else 0#w

/-- `m_val[i] = x`. -/
def write (s : MultiIntBitSet w N) (i : Nat) (x : BitVec w) : MultiIntBitSet w N := ⟨s.val.setIfInBounds i x⟩

/-- `MultiIntBitSet()`: all limbs zero. -/
def empty : MultiIntBitSet w N := ⟨Vector.replicate N 0#w⟩

/-- `Set(pos)`. -/
def set (s : MultiIntBitSet w N) (pos : Nat) : MultiIntBitSet w N :=
  s.write (pos / w) (s.limb (pos / w) ||| 1#w <<< (pos % w))

/-- `Set(pos, val)`. -/
def setTo (s : MultiIntBitSet w N) (pos : Nat) (val : Bool) : MultiIntBitSet w N :=
  s.write (pos / w) ((s.limb (pos / w) &&& ~~~(1#w <<< (pos % w))) ||| BitVec.ofNat w val.toNat <<< (pos % w))

/-- `Reset(pos)`. -/
def reset (s : MultiIntBitSet w N) (pos : Nat) : MultiIntBitSet w N :=
  s.write (pos / w) (s.limb (pos / w) &&& ~~~(1#w <<< (pos % w)))

/-- `operator[](pos)`. -/
def get (s : MultiIntBitSet w N) (pos : Nat) : Bool := (s.limb (pos / w) >>> (pos % w)) &&& 1#w != 0#w

/-- `Singleton(pos)`. -/
def singleton (pos : Nat) : MultiIntBitSet w N := empty.write (pos / w) (1#w <<< (pos % w))

/-- The loop of `Fill(count)` from limb `i`: whole limbs while more than a limb's bits are left, then the low
bits of one more limb.  Under `Assume(count <= MAX_SIZE)` it writes at most `N` limbs, the steps it is given. -/
def fillLoop : Nat → MultiIntBitSet w N → Nat → Nat → MultiIntBitSet w N
  | steps + 1, ret, i, count =>
    if w < count then fillLoop steps (ret.write i (BitVec.allOnes w)) (i + 1) (count - w)
    else ret.write i (BitVec.allOnes w >>> (w - count))
  | 0, ret, _, _ => ret

/-- `Fill(count)`: positions `0 .. count - 1`. -/
def fill (count : Nat) : MultiIntBitSet w N := if count ≠ 0 then fillLoop N empty 0 count else empty

/-- `Count()`. -/
def count (s : MultiIntBitSet w N) : Nat := s.val.foldl (fun ret v => ret + popCount v) 0

/-- `None()`. -/
def none (s : MultiIntBitSet w N) : Bool := s.val.all (· == 0#w)

/-- `Any()`. -/
def any (s : MultiIntBitSet w N) : Bool := !s.none

/-- The loop of `First()` from limb `p`: the lowest bit of the first nonzero limb.  Past the last limb the
source's `Assume(p < N)` fails. -/
def firstFrom (s : MultiIntBitSet w N) (p : Nat) : Nat :=
  if p < N then
    if s.limb p = 0#w then s.firstFrom (p + 1) else countrZero (s.limb p) + p * w
  else 0
termination_by N - p

/-- `First()`, for a nonempty set. -/
def first (s : MultiIntBitSet w N) : Nat := s.firstFrom 0

/-- The loop of `Last()` from limb `p` downwards: the highest bit of the last nonzero limb.  Below the first
limb the source's `Assume(p > 0)` fails. -/
def lastFrom (s : MultiIntBitSet w N) (p : Nat) : Nat :=
  if s.limb p = 0#w then
    match p with
    | 0 => 0
    | p + 1 => s.lastFrom p
  else bitWidth (s.limb p) - 1 + p * w

/-- `Last()`, for a nonempty set. -/
def last (s : MultiIntBitSet w N) : Nat := s.lastFrom (N - 1)

/-- The loop of the compound assignments: `for (i = 0; i < N; ++i) m_val[i] = op(m_val[i], a.m_val[i]);` -/
def assignLoop (op : BitVec w → BitVec w → BitVec w) (s a : MultiIntBitSet w N) : MultiIntBitSet w N :=
  ⟨updateEach (fun i x => op x (a.limb i)) N s.val⟩

/-- `operator|=`. -/
def orAssign (s a : MultiIntBitSet w N) : MultiIntBitSet w N := assignLoop (· ||| ·) s a

/-- `operator&=`. -/
def andAssign (s a : MultiIntBitSet w N) : MultiIntBitSet w N := assignLoop (· &&& ·) s a

/-- `operator-=`. -/
def subAssign (s a : MultiIntBitSet w N) : MultiIntBitSet w N := assignLoop (fun x y => x &&& ~~~y) s a

/-- `operator^=`. -/
def xorAssign (s a : MultiIntBitSet w N) : MultiIntBitSet w N := assignLoop (· ^^^ ·) s a

/-- The loop of the binary operators: `MultiIntBitSet r; for (i = 0; i < N; ++i) r.m_val[i] = op(a.m_val[i],
b.m_val[i]);` -/
def binaryLoop (op : BitVec w → BitVec w → BitVec w) (a b : MultiIntBitSet w N) : MultiIntBitSet w N :=
  ⟨updateEach (fun i _ => op (a.limb i) (b.limb i)) N empty.val⟩

/-- `operator&`. -/
def andOp (a b : MultiIntBitSet w N) : MultiIntBitSet w N := binaryLoop (· &&& ·) a b

/-- `operator|`. -/
def orOp (a b : MultiIntBitSet w N) : MultiIntBitSet w N := binaryLoop (· ||| ·) a b

/-- `operator-`. -/
def subOp (a b : MultiIntBitSet w N) : MultiIntBitSet w N := binaryLoop (fun x y => x &&& ~~~y) a b

/-- `operator^`. -/
def xorOp (a b : MultiIntBitSet w N) : MultiIntBitSet w N := binaryLoop (· ^^^ ·) a b

/-- `Overlaps(a)`. -/
def overlaps (s a : MultiIntBitSet w N) : Bool := (List.range N).any fun i => s.limb i &&& a.limb i != 0#w

/-- `IsSupersetOf(a)`. -/
def isSupersetOf (s a : MultiIntBitSet w N) : Bool := (List.range N).all fun i => a.limb i &&& ~~~s.limb i == 0#w

/-- `IsSubsetOf(a)`. -/
def isSubsetOf (s a : MultiIntBitSet w N) : Bool := (List.range N).all fun i => s.limb i &&& ~~~a.limb i == 0#w

/-- `operator==`, defaulted: the limbs are equal. -/
def beq (a b : MultiIntBitSet w N) : Bool := a.val == b.val

/-! ## The set of the limbs -/

/-- The positions of the set bits. -/
def elems (s : MultiIntBitSet w N) : Finset Nat := (range (w * N)).filter fun p => (s.limb (p / w)).getLsbD (p % w)

theorem limb_eq_zero {s : MultiIntBitSet w N} {i : Nat} (outside : N ≤ i) : s.limb i = 0#w := by
  rw [limb, dif_neg (by omega)]

theorem lt_of_getLsbD_limb {s : MultiIntBitSet w N} {p : Nat} (set : (s.limb (p / w)).getLsbD (p % w) = true) :
    p < w * N := by
  have positive : 0 < w := Nat.lt_of_le_of_lt (Nat.zero_le _) (BitVec.lt_of_getLsbD set)
  have inside : p / w < N := Nat.lt_of_not_le fun outside => by
    rw [limb_eq_zero outside, BitVec.getLsbD_zero] at set
    contradiction
  rw [Nat.mul_comm]
  exact (Nat.div_lt_iff_lt_mul positive).mp inside

@[simp] theorem mem_elems {s : MultiIntBitSet w N} {p : Nat} :
    p ∈ s.elems ↔ (s.limb (p / w)).getLsbD (p % w) = true := by
  simp only [elems, mem_filter, mem_range, and_iff_right_iff_imp]
  exact lt_of_getLsbD_limb

theorem elems_subset (s : MultiIntBitSet w N) : s.elems ⊆ range (w * N) := filter_subset _ _

theorem limb_write {s : MultiIntBitSet w N} {i : Nat} (inside : i < N) (x : BitVec w) (j : Nat) :
    (s.write i x).limb j = if j = i then x else s.limb j := by
  unfold limb write
  split
  · rename_i below
    rw [Vector.getElem_setIfInBounds below]
    by_cases same : j = i
    · simp [same]
    · simp [same, Ne.symm same]
  · rename_i outside
    simp [show j ≠ i by omega]

/-- Positions in one limb are equal when their bits are. -/
theorem eq_iff_mod_eq {p pos : Nat} (same : p / w = pos / w) : p = pos ↔ p % w = pos % w :=
  ⟨congrArg (· % w), fun bits => by rw [← Nat.div_add_mod p w, ← Nat.div_add_mod pos w, same, bits]⟩

theorem limb_lt {pos : Nat} (below : pos < w * N) : pos / w < N :=
  (Nat.div_lt_iff_lt_mul (Nat.pos_of_ne_zero fun zero => by simp [zero] at below)).mpr
    (by rwa [Nat.mul_comm] at below)

theorem width_pos {pos : Nat} (below : pos < w * N) : 0 < w :=
  Nat.pos_of_ne_zero fun zero => by simp [zero] at below

variable {s t : MultiIntBitSet w N} {pos : Nat}

/-- Writing limb `pos / w` with a word whose set is that of the old limb with bit `pos % w` added (`b`) or
removed. -/
theorem elems_write_at (below : pos < w * N) {x : IntBitSet w} {b : Bool}
    (word : x.elems = if b then insert (pos % w) (IntBitSet.mk (s.limb (pos / w))).elems
      else (IntBitSet.mk (s.limb (pos / w))).elems.erase (pos % w)) :
    (s.write (pos / w) x.val).elems = if b then insert pos s.elems else s.elems.erase pos := by
  have inWord : ∀ j, x.val.getLsbD j = true ↔ if b then j = pos % w ∨ (s.limb (pos / w)).getLsbD j = true
      else j ≠ pos % w ∧ (s.limb (pos / w)).getLsbD j = true := fun j => by
    rw [← IntBitSet.mem_elems, word]
    cases b <;> simp
  ext p
  rw [mem_elems, limb_write (limb_lt below)]
  by_cases same : p / w = pos / w
  · rw [if_pos same, inWord, ← same, ← mem_elems]
    have positions := eq_iff_mod_eq same
    cases b <;> simp [positions]
  · have other : p ≠ pos := fun equal => same (congrArg (· / w) equal)
    rw [if_neg same, ← mem_elems]
    cases b <;> simp [other]

/-! ## One position -/

theorem elems_set (below : pos < w * N) : (s.set pos).elems = insert pos s.elems :=
  elems_write_at (b := true) below (IntBitSet.elems_set (Nat.mod_lt pos (width_pos below)))

theorem elems_reset (below : pos < w * N) : (s.reset pos).elems = s.elems.erase pos :=
  elems_write_at (b := false) below (IntBitSet.elems_reset (Nat.mod_lt pos (width_pos below)))

theorem elems_setTo (below : pos < w * N) (val : Bool) :
    (s.setTo pos val).elems = if val then insert pos s.elems else s.elems.erase pos :=
  elems_write_at below (IntBitSet.elems_setTo (Nat.mod_lt pos (width_pos below)) val)

theorem get_iff (below : pos < w * N) : s.get pos = true ↔ pos ∈ s.elems := by
  rw [mem_elems, ← IntBitSet.mem_elems, ← IntBitSet.get_iff (Nat.mod_lt pos (width_pos below))]
  rfl

theorem elems_empty : (empty : MultiIntBitSet w N).elems = ∅ := by
  ext p
  simp [empty, limb]

theorem elems_singleton (below : pos < w * N) : (singleton pos : MultiIntBitSet w N).elems = {pos} := by
  have emptyLimb : (IntBitSet.mk ((empty : MultiIntBitSet w N).limb (pos / w))).elems = ∅ := by
    rw [IntBitSet.elems_eq_empty]
    simp [empty, limb]
  have word := IntBitSet.elems_singleton (w := w) (Nat.mod_lt pos (width_pos below))
  rw [← insert_empty, ← emptyLimb] at word
  rw [singleton, show (1#w <<< (pos % w)) = (IntBitSet.singleton (pos % w) : IntBitSet w).val from rfl,
    elems_write_at (b := true) below word, if_pos rfl, elems_empty]
  rfl

/-! ## Fill -/

theorem mem_write {s : MultiIntBitSet w N} {i : Nat} (inside : i < N) (x : BitVec w) (p : Nat) :
    p ∈ (s.write i x).elems ↔ if p / w = i then x.getLsbD (p % w) = true else p ∈ s.elems := by
  rw [mem_elems, limb_write inside]
  split <;> simp

/-- The positions of limb `i`. -/
theorem div_eq_iff {p i : Nat} (positive : 0 < w) : p / w = i ↔ i * w ≤ p ∧ p < i * w + w := by
  rw [Nat.div_eq_iff positive]
  constructor <;> rintro ⟨low, high⟩ <;> constructor <;> omega

/-- Each step of the loop fills one more limb; the limbs from `i` on are still zero. -/
theorem mem_fillLoop (positive : 0 < w) (steps : Nat) (ret : MultiIntBitSet w N) (i count : Nat)
    (zeroFrom : ∀ j, i ≤ j → ret.limb j = 0#w) (enough : count ≤ w * steps) (fits : i + steps ≤ N) (p : Nat) :
    p ∈ (fillLoop steps ret i count).elems ↔ p ∈ ret.elems ∨ (i * w ≤ p ∧ p < i * w + count) := by
  induction steps generalizing ret i count with
  | zero =>
    have : count = 0 := by simpa using enough
    simp [fillLoop, this]
  | succ steps inductionHypothesis =>
    have limbRange := div_eq_iff (p := p) (i := i) positive
    have notInRet : p / w = i → p ∉ ret.elems := fun same => by
      rw [mem_elems, zeroFrom _ (by omega), BitVec.getLsbD_zero]
      exact Bool.false_ne_true
    unfold fillLoop
    split
    · rename_i more
      have zeroFrom' : ∀ j, i + 1 ≤ j → (ret.write i (BitVec.allOnes w)).limb j = 0#w := fun j above => by
        rw [limb_write (by omega), if_neg (by omega), zeroFrom j (by omega)]
      rw [inductionHypothesis _ (i + 1) (count - w) zeroFrom' (by rw [Nat.mul_succ] at enough; omega) (by omega),
        mem_write (by omega), Nat.add_mul, Nat.one_mul]
      by_cases same : p / w = i
      · have within := limbRange.mp same
        rw [if_pos same, BitVec.getLsbD_allOnes, decide_eq_true (Nat.mod_lt p positive)]
        simp only [true_or, true_iff]
        exact Or.inr ⟨within.1, by omega⟩
      · have outside := fun within => same (limbRange.mpr within)
        rw [if_neg same]
        constructor <;> rintro (old | ⟨low, high⟩)
        · exact Or.inl old
        · exact Or.inr ⟨by omega, by omega⟩
        · exact Or.inl old
        · exact Or.inr ⟨by omega, by omega⟩
    · rename_i last
      rw [mem_write (by omega)]
      by_cases same : p / w = i
      · have split : i * w + p % w = p := by rw [← same, Nat.mul_comm]; exact Nat.div_add_mod p w
        have := Nat.mod_lt p positive
        rw [if_pos same, BitVec.getLsbD_ushiftRight, BitVec.getLsbD_allOnes, decide_eq_true_iff]
        simp only [notInRet same, false_or]
        omega
      · have outside := fun within => same (limbRange.mpr within)
        rw [if_neg same]
        constructor
        · exact Or.inl
        · rintro (old | ⟨low, high⟩)
          · exact old
          · exact absurd ⟨low, by omega⟩ outside

theorem elems_fill {c : Nat} (within : c ≤ w * N) : (fill c : MultiIntBitSet w N).elems = range c := by
  unfold fill
  split
  · rename_i nonzero
    have positive : 0 < w := Nat.pos_of_ne_zero fun zero => by simp [zero] at within; exact nonzero within
    ext p
    rw [mem_fillLoop positive N empty 0 c (fun j _ => by simp [empty, limb]) within (by omega), elems_empty]
    simp
  · rename_i zero
    rw [show c = 0 by simpa using zero, elems_empty, range_zero]

/-! ## Positions limb by limb -/

theorem div_mod_position {i j : Nat} (inside : j < w) : (i * w + j) / w = i ∧ (i * w + j) % w = j := by
  have positive : 0 < w := by omega
  constructor
  · rw [Nat.add_comm, Nat.add_mul_div_right _ _ positive, Nat.div_eq_of_lt inside, Nat.zero_add]
  · rw [Nat.add_comm, Nat.add_mul_mod_self_right, Nat.mod_eq_of_lt inside]

/-- Position `i * w + j` is bit `j` of limb `i`. -/
theorem mem_position {i j : Nat} (inside : j < w) :
    i * w + j ∈ s.elems ↔ j ∈ (IntBitSet.mk (s.limb i)).elems := by
  rw [mem_elems, (div_mod_position inside).1, (div_mod_position inside).2, IntBitSet.mem_elems]

theorem position_eq (p : Nat) : p / w * w + p % w = p := by
  rw [Nat.mul_comm]
  exact Nat.div_add_mod p w

theorem limb_of_mem {p : Nat} (mem : p ∈ s.elems) : p % w ∈ (IntBitSet.mk (s.limb (p / w))).elems := by
  rwa [IntBitSet.mem_elems, ← mem_elems]

theorem mem_of_limb {i j : Nat} (mem : j ∈ (IntBitSet.mk (s.limb i)).elems) : i * w + j ∈ s.elems :=
  (mem_position (List.mem_range.mp (IntBitSet.elems_subset _ mem))).mpr mem

theorem limb_ne_zero_of_mem {p : Nat} (mem : p ∈ s.elems) : s.limb (p / w) ≠ 0#w := fun zero => by
  rw [mem_elems, zero, BitVec.getLsbD_zero] at mem
  contradiction

theorem elems_eq_empty : s.elems = ∅ ↔ ∀ i < N, s.limb i = 0#w := by
  constructor
  · intro empty i _
    refine IntBitSet.elems_eq_empty.mp (eq_empty_iff_forall_notMem.mpr fun j mem => ?_)
    exact (eq_empty_iff_forall_notMem.mp empty) _ (mem_of_limb mem)
  · intro zeros
    refine eq_empty_iff_forall_notMem.mpr fun p mem => limb_ne_zero_of_mem mem ?_
    by_cases inside : p / w < N
    · exact zeros _ inside
    · exact limb_eq_zero (by omega)

/-! ## The whole set -/

/-- Summing over the positions, limb by limb. -/
theorem sum_positions (f : Nat → Nat → Nat) (n : Nat) :
    ∑ p ∈ range (w * n), f (p / w) (p % w) = ∑ i ∈ range n, ∑ j ∈ range w, f i j := by
  induction n with
  | zero => simp
  | succ n inductionHypothesis =>
    rw [Nat.mul_succ, sum_range_add, inductionHypothesis, sum_range_succ]
    refine congrArg _ (sum_congr rfl fun j mem => ?_)
    rw [Nat.mul_comm, (div_mod_position (mem_range.mp mem)).1, (div_mod_position (mem_range.mp mem)).2]

theorem card_elems (s : MultiIntBitSet w N) :
    s.elems.card = ∑ i ∈ range N, (IntBitSet.mk (s.limb i)).elems.card := by
  rw [elems, card_filter, sum_positions (fun i j => if (s.limb i).getLsbD j = true then 1 else 0)]
  exact sum_congr rfl fun i _ => by rw [IntBitSet.elems, card_filter]

theorem count_eq_sum (s : MultiIntBitSet w N) : s.count = ∑ i ∈ range N, popCount (s.limb i) := by
  have limbs : s.val = Vector.ofFn fun i => s.val[i] := Vector.ofFn_getElem.symm
  rw [count, ← Vector.foldl_toList, ← List.foldl_map (g := (· + ·)), ← List.sum_eq_foldl_nat, limbs,
    Vector.toList_ofFn, List.map_ofFn, List.sum_ofFn, ← Fin.sum_univ_eq_sum_range]
  exact Fintype.sum_congr _ _ fun i => by rw [Function.comp_apply, limb, dif_pos i.isLt, Fin.getElem_fin]

theorem count_eq (standard : UnsignedWidth w) (s : MultiIntBitSet w N) : s.count = s.elems.card := by
  rw [count_eq_sum, card_elems]
  exact sum_congr rfl fun i _ => IntBitSet.count_eq standard _

theorem none_iff : s.none = true ↔ s.elems = ∅ := by
  rw [none, Vector.all_eq_true, elems_eq_empty]
  exact forall_congr' fun i => forall_congr' fun inside => by rw [beq_iff_eq, limb, dif_pos inside]

theorem any_iff : s.any = true ↔ s.elems.Nonempty := by
  rw [any, Bool.not_eq_true', ← Bool.not_eq_true, none_iff, nonempty_iff_ne_empty]

/-! ## First and Last -/

theorem limb_le_of_zeros_below {p q : Nat} (zerosBelow : ∀ i < p, s.limb i = 0#w) (mem : q ∈ s.elems) :
    p ≤ q / w :=
  Nat.le_of_not_lt fun below => limb_ne_zero_of_mem mem (zerosBelow _ below)

/-- The scan of `First()` from limb `p`, past zero limbs only, ends at the least position. -/
theorem firstFrom_least (p : Nat) (zerosBelow : ∀ i < p, s.limb i = 0#w) (nonempty : s.elems.Nonempty) :
    s.firstFrom p ∈ s.elems ∧ ∀ q ∈ s.elems, s.firstFrom p ≤ q := by
  fun_induction s.firstFrom p with
  | case1 p inside zero inductionHypothesis =>
    refine inductionHypothesis fun i below => ?_
    rcases Nat.lt_succ_iff_lt_or_eq.mp below with below | rfl
    · exact zerosBelow i below
    · exact zero
  | case2 p inside nonzero =>
    have lowest := countrZero_lt nonzero
    refine ⟨?_, fun q mem => ?_⟩
    · rw [Nat.add_comm]
      exact mem_of_limb (IntBitSet.mem_elems.mpr (getLsbD_countrZero nonzero))
    · have atOrAbove := limb_le_of_zeros_below zerosBelow mem
      have := position_eq (w := w) q
      rcases Nat.eq_or_lt_of_le atOrAbove with same | above
      · have split : p * w + q % w = q := by rw [same]; exact position_eq q
        have := countrZero_le_of_getLsbD (by rw [same]; exact mem_elems.mp mem : (s.limb p).getLsbD (q % w) = true)
        omega
      · have := Nat.mul_le_mul_right w (Nat.succ_le_of_lt above)
        rw [Nat.succ_mul] at this
        omega
  | case3 p outside =>
    exfalso
    refine nonempty.ne_empty (elems_eq_empty.mpr fun i inside => zerosBelow i (by omega))

theorem first_eq (nonempty : s.elems.Nonempty) : s.first = s.elems.min' nonempty := by
  obtain ⟨mem, least⟩ := s.firstFrom_least 0 (fun _ below => absurd below (Nat.not_lt_zero _)) nonempty
  exact le_antisymm (le_min' _ _ _ least) (min'_le _ _ mem)

/-- The scan of `Last()` from limb `p` downwards, past zero limbs only, ends at the greatest position. -/
theorem lastFrom_greatest (p : Nat) (zerosAbove : ∀ i, p < i → s.limb i = 0#w) (nonempty : s.elems.Nonempty) :
    s.lastFrom p ∈ s.elems ∧ ∀ q ∈ s.elems, q ≤ s.lastFrom p := by
  induction p with
  | zero =>
    rw [lastFrom]
    split
    · rename_i zero
      exfalso
      refine nonempty.ne_empty (elems_eq_empty.mpr fun i _ => ?_)
      rcases Nat.eq_zero_or_pos i with rfl | above
      · exact zero
      · exact zerosAbove i above
    · rename_i nonzero
      exact highest_of_nonzero zerosAbove nonzero
  | succ p inductionHypothesis =>
    rw [lastFrom]
    split
    · rename_i zero
      refine inductionHypothesis fun i above => ?_
      rcases Nat.lt_or_ge (p + 1) i with higher | atMost
      · exact zerosAbove i higher
      · rw [show i = p + 1 by omega]
        exact zero
    · rename_i nonzero
      exact highest_of_nonzero zerosAbove nonzero
where
  /-- A nonzero limb with only zero limbs above it holds the greatest position at its highest bit. -/
  highest_of_nonzero {p : Nat} (zerosAbove : ∀ i, p < i → s.limb i = 0#w) (nonzero : s.limb p ≠ 0#w) :
      bitWidth (s.limb p) - 1 + p * w ∈ s.elems ∧ ∀ q ∈ s.elems, q ≤ bitWidth (s.limb p) - 1 + p * w := by
    have top := getLsbD_bitWidth_sub_one nonzero
    have inside := BitVec.lt_of_getLsbD top
    refine ⟨?_, fun q mem => ?_⟩
    · rw [Nat.add_comm]
      exact mem_of_limb (IntBitSet.mem_elems.mpr top)
    · have atOrBelow : q / w ≤ p := Nat.le_of_not_lt fun above => limb_ne_zero_of_mem mem (zerosAbove _ above)
      have := position_eq (w := w) q
      have := Nat.mod_lt q (by omega : 0 < w)
      rcases Nat.eq_or_lt_of_le atOrBelow with same | below
      · have split : p * w + q % w = q := by rw [← same]; exact position_eq q
        have := le_bitWidth_sub_one_of_getLsbD (by rw [← same]; exact mem_elems.mp mem :
          (s.limb p).getLsbD (q % w) = true)
        omega
      · have := Nat.mul_le_mul_right w (Nat.succ_le_of_lt below)
        rw [Nat.succ_mul] at this
        omega

theorem last_eq (nonempty : s.elems.Nonempty) : s.last = s.elems.max' nonempty := by
  obtain ⟨mem, greatest⟩ := s.lastFrom_greatest (N - 1) (fun i above => limb_eq_zero (by omega)) nonempty
  exact le_antisymm (le_max' _ _ mem) (max'_le _ _ _ greatest)

/-! ## Two sets -/

theorem limb_binaryLoop {op : BitVec w → BitVec w → BitVec w} (zero : op 0#w 0#w = 0#w) (a b : MultiIntBitSet w N)
    (i : Nat) : (binaryLoop op a b).limb i = op (a.limb i) (b.limb i) := by
  by_cases inside : i < N
  · simp only [limb, dif_pos inside, binaryLoop, getElem_updateEach _ _ _ inside, if_pos inside]
  · rw [limb_eq_zero (by omega), limb_eq_zero (by omega), limb_eq_zero (by omega), zero]

/-- A compound assignment leaves the limbs its binary operator returns. -/
theorem assignLoop_eq (op : BitVec w → BitVec w → BitVec w) (s a : MultiIntBitSet w N) :
    assignLoop op s a = binaryLoop op s a :=
  MultiIntBitSet.ext (Vector.ext fun i inside => by
    simp only [assignLoop, binaryLoop, getElem_updateEach _ _ _ inside, if_pos inside, limb, dif_pos inside])

/-- A binary operator that acts bit by bit as `g` acts on the positions as `g` on membership. -/
theorem mem_binaryLoop (op : BitVec w → BitVec w → BitVec w) (zero : op 0#w 0#w = 0#w) {g : Bool → Bool → Bool}
    (bits : ∀ x y : BitVec w, ∀ j < w, (op x y).getLsbD j = g (x.getLsbD j) (y.getLsbD j)) (none : g false false = false)
    (a b : MultiIntBitSet w N) (p : Nat) :
    p ∈ (binaryLoop op a b).elems ↔ g (decide (p ∈ a.elems)) (decide (p ∈ b.elems)) = true := by
  simp only [mem_elems, limb_binaryLoop zero, Bool.decide_eq_true]
  by_cases inside : p % w < w
  · rw [bits _ _ _ inside]
  · rw [BitVec.getLsbD_of_ge _ _ (by omega), BitVec.getLsbD_of_ge _ _ (by omega), BitVec.getLsbD_of_ge _ _ (by omega),
      none]

theorem elems_orOp : (s.orOp t).elems = s.elems ∪ t.elems := by
  ext p
  rw [orOp, mem_binaryLoop _ BitVec.or_self (g := (· || ·)) (fun _ _ _ _ => BitVec.getLsbD_or) rfl]
  simp

theorem elems_andOp : (s.andOp t).elems = s.elems ∩ t.elems := by
  ext p
  rw [andOp, mem_binaryLoop _ BitVec.and_self (g := (· && ·)) (fun _ _ _ _ => BitVec.getLsbD_and) rfl]
  simp

theorem elems_subOp : (s.subOp t).elems = s.elems \ t.elems := by
  ext p
  rw [subOp, mem_binaryLoop (fun x y => x &&& ~~~y) BitVec.zero_and (g := fun x y => x && !y)
    (fun _ _ _ inside => by rw [BitVec.getLsbD_and, BitVec.getLsbD_not, decide_eq_true inside, Bool.true_and]) rfl]
  simp

theorem elems_xorOp : (s.xorOp t).elems = s.elems ∆ t.elems := by
  ext p
  rw [xorOp, mem_binaryLoop _ BitVec.xor_self (g := (· ^^ ·)) (fun _ _ _ _ => BitVec.getLsbD_xor) rfl, mem_symmDiff]
  by_cases inS : p ∈ s.elems <;> by_cases inT : p ∈ t.elems <;> simp [inS, inT]

theorem not_disjoint_iff_limbs : ¬Disjoint s.elems t.elems ↔
    ∃ i < N, ¬Disjoint (IntBitSet.mk (s.limb i)).elems (IntBitSet.mk (t.limb i)).elems := by
  simp only [not_disjoint_iff]
  constructor
  · rintro ⟨p, inS, inT⟩
    exact ⟨p / w, limb_lt (lt_of_getLsbD_limb (mem_elems.mp inS)), p % w, limb_of_mem inS, limb_of_mem inT⟩
  · rintro ⟨i, _, j, inS, inT⟩
    exact ⟨i * w + j, mem_of_limb inS, mem_of_limb inT⟩

theorem subset_iff_limbs : s.elems ⊆ t.elems ↔
    ∀ i < N, (IntBitSet.mk (s.limb i)).elems ⊆ (IntBitSet.mk (t.limb i)).elems := by
  constructor
  · intro sub i _ j mem
    have := sub (mem_of_limb mem)
    rwa [mem_position (List.mem_range.mp (IntBitSet.elems_subset _ mem))] at this
  · intro sub p mem
    rw [← position_eq p]
    exact mem_of_limb (sub _ (limb_lt (lt_of_getLsbD_limb (mem_elems.mp mem))) (limb_of_mem mem))

theorem overlaps_iff : s.overlaps t = true ↔ ¬Disjoint s.elems t.elems := by
  rw [overlaps, List.any_eq_true, not_disjoint_iff_limbs]
  simp only [List.mem_range]
  exact exists_congr fun i => and_congr_right fun _ => IntBitSet.overlaps_iff

theorem isSubsetOf_iff : s.isSubsetOf t = true ↔ s.elems ⊆ t.elems := by
  rw [isSubsetOf, List.all_eq_true, subset_iff_limbs]
  simp only [List.mem_range]
  exact forall_congr' fun i => forall_congr' fun _ => IntBitSet.isSubsetOf_iff

theorem isSupersetOf_iff : s.isSupersetOf t = true ↔ t.elems ⊆ s.elems := by
  rw [isSupersetOf, List.all_eq_true, subset_iff_limbs]
  simp only [List.mem_range]
  exact forall_congr' fun i => forall_congr' fun _ => IntBitSet.isSupersetOf_iff

theorem beq_iff : s.beq t = true ↔ s.elems = t.elems := by
  rw [beq, beq_iff_eq]
  constructor
  · intro same
    rw [MultiIntBitSet.ext same]
  · intro same
    refine Vector.ext fun i inside => ?_
    have limbs := subset_antisymm (subset_iff_limbs.mp same.subset i inside) (subset_iff_limbs.mp same.symm.subset i inside)
    have := congrArg IntBitSet.val (IntBitSet.elems_injective.mp limbs)
    simpa [limb, inside] using this

/-! ## Iteration -/

/-- A position in a later limb is above every position of limb `i`. -/
theorem position_lt_of_limb_lt {i j q : Nat} (inside : j < w) (later : i < q / w) : i * w + j < q := by
  have above := Nat.mul_le_mul_right w (Nat.succ_le_of_lt later)
  have := position_eq (w := w) q
  rw [Nat.succ_mul] at above
  omega

/-- `MultiIntBitSet::Iterator`: the limbs (`*m_ptr`), the bits of limb `m_idx` not reported yet (`m_val`), the
last reported position (`m_pos`) and the limb it is in (`m_idx`). -/
structure Iterator (w N : Nat) where
  limbs : MultiIntBitSet w N
  val : BitVec w
  pos : Nat
  idx : Nat

namespace Iterator

/-- The loop of the constructor and of `operator++` from limb `idx`: it stops at the first nonzero limb and
reports its lowest bit, or stops at `N`. -/
def seek (limbs : MultiIntBitSet w N) (val : BitVec w) (pos idx : Nat) : Iterator w N :=
  if idx < N then
    if limbs.limb idx ≠ 0#w then ⟨limbs, limbs.limb idx, countrZero (limbs.limb idx) + idx * w, idx⟩
    else seek limbs (limbs.limb idx) pos (idx + 1)
  else ⟨limbs, val, pos, idx⟩
termination_by N - idx

/-- `operator++`. -/
def next (it : Iterator w N) : Iterator w N :=
  let val := it.val &&& (it.val - 1#w)
  if val = 0#w then seek it.limbs val it.pos (it.idx + 1)
  else ⟨it.limbs, val, countrZero val + it.idx * w, it.idx⟩

/-- `operator==` against `end()`. -/
def atEnd (it : Iterator w N) : Bool := it.idx == N

theorem le_idx_seek (limbs : MultiIntBitSet w N) (val : BitVec w) (pos idx : Nat) :
    idx ≤ (seek limbs val pos idx).idx := by
  fun_induction seek limbs val pos idx with
  | case1 => exact Nat.le_refl _
  | case2 val idx inside zero inductionHypothesis => exact Nat.le_of_succ_le inductionHypothesis
  | case3 => exact Nat.le_refl _

/-- `operator++` moves to a later limb, or stays in its limb with fewer bits left. -/
theorem next_decreasing (it : Iterator w N) (going : it.idx < N) :
    Prod.Lex (· < ·) (· < ·) (N - it.next.idx, it.next.val.toNat) (N - it.idx, it.val.toNat) := by
  dsimp only [next]
  split
  · have := le_idx_seek it.limbs (it.val &&& (it.val - 1#w)) it.pos (it.idx + 1)
    exact Prod.Lex.left _ _ (by omega)
  · rename_i cleared
    have nonzero : it.val ≠ 0#w := fun zero => cleared (by rw [zero]; exact BitVec.zero_and)
    exact Prod.Lex.right _ (and_sub_one_lt nonzero)

/-- The positions `*it` reports from `it` up to `end()`.  For an iterator reached from `begin()`, `it != end()`
is `m_idx < N` (`atEnd_iff`). -/
def visit (it : Iterator w N) : List Nat :=
  if it.idx < N then it.pos :: it.next.visit else []
termination_by (N - it.idx, it.val.toNat)
decreasing_by exact next_decreasing it ‹_›

/-- The positions not reported yet: the bits left in limb `m_idx`, and the bits of the limbs after it. -/
def remaining (it : Iterator w N) : Finset Nat :=
  (range (w * N)).filter fun p =>
    (p / w = it.idx ∧ it.val.getLsbD (p % w) = true) ∨ (it.idx < p / w ∧ p ∈ it.limbs.elems)

/-- What holds of every iterator reached from `begin()`: `m_idx` is at most `N`, and below `N` the bits left are
not empty and `m_pos` is the lowest of them. -/
def Valid (it : Iterator w N) : Prop :=
  it.idx ≤ N ∧ (it.idx < N → it.val ≠ 0#w ∧ it.pos = countrZero it.val + it.idx * w)

theorem atEnd_iff {it : Iterator w N} (valid : it.Valid) : it.atEnd = true ↔ ¬it.idx < N := by
  rw [atEnd, beq_iff_eq]
  have := valid.1
  omega

theorem mem_remaining {it : Iterator w N} {p : Nat} (going : it.idx < N) :
    p ∈ it.remaining ↔ (p / w = it.idx ∧ it.val.getLsbD (p % w) = true) ∨ (it.idx < p / w ∧ p ∈ it.limbs.elems) := by
  rw [remaining, mem_filter, mem_range, and_iff_right_iff_imp]
  rintro (⟨same, bit⟩ | ⟨_, mem⟩)
  · rw [← position_eq p, same, Nat.mul_comm]
    have := BitVec.lt_of_getLsbD bit
    have := Nat.mul_le_mul_left w (Nat.succ_le_of_lt going)
    rw [Nat.mul_succ] at this
    omega
  · exact lt_of_getLsbD_limb (mem_elems.mp mem)

theorem remaining_of_end {it : Iterator w N} (stop : ¬it.idx < N) : it.remaining = ∅ := by
  refine eq_empty_iff_forall_notMem.mpr fun p mem => ?_
  rw [remaining, mem_filter, mem_range] at mem
  obtain ⟨below, (⟨same, _⟩ | ⟨later, _⟩)⟩ := mem
  · have := limb_lt below
    omega
  · have := limb_lt below
    omega

/-- The scan from limb `idx` leaves a valid iterator whose remaining positions are those from limb `idx` on. -/
theorem seek_spec (limbs : MultiIntBitSet w N) (val : BitVec w) (pos idx : Nat) (start : idx ≤ N) :
    (seek limbs val pos idx).Valid ∧ (seek limbs val pos idx).remaining = limbs.elems.filter (idx ≤ · / w) := by
  fun_induction seek limbs val pos idx with
  | case1 val idx inside nonzero =>
    refine ⟨⟨start, fun _ => ⟨nonzero, rfl⟩⟩, ?_⟩
    ext q
    rw [mem_remaining inside, mem_filter]
    dsimp only
    constructor
    · rintro (⟨same, bit⟩ | ⟨later, mem⟩)
      · exact ⟨mem_elems.mpr (by rw [same]; exact bit), by omega⟩
      · exact ⟨mem, by omega⟩
    · rintro ⟨mem, atOrAfter⟩
      rcases Nat.eq_or_lt_of_le atOrAfter with same | later
      · exact Or.inl ⟨same.symm, by rw [same]; exact mem_elems.mp mem⟩
      · exact Or.inr ⟨later, mem⟩
  | case2 val idx inside zero inductionHypothesis =>
    obtain ⟨valid, rest⟩ := inductionHypothesis (by omega)
    refine ⟨valid, rest.trans (filter_congr fun q mem => ?_)⟩
    have : q / w ≠ idx := fun same => limb_ne_zero_of_mem mem (by rw [same]; exact not_not.mp zero)
    omega
  | case3 val idx outside =>
    refine ⟨⟨start, fun below => absurd below outside⟩, ?_⟩
    rw [remaining_of_end outside]
    refine (filter_false_of_mem fun q mem => ?_).symm
    have := limb_lt (lt_of_getLsbD_limb (mem_elems.mp mem))
    omega

theorem pos_div {it : Iterator w N} (valid : it.Valid) (going : it.idx < N) : it.pos / w = it.idx := by
  obtain ⟨nonzero, atPos⟩ := valid.2 going
  rw [atPos, Nat.add_comm]
  exact (div_mod_position (countrZero_lt nonzero)).1

theorem pos_mem_remaining {it : Iterator w N} (valid : it.Valid) (going : it.idx < N) : it.pos ∈ it.remaining := by
  obtain ⟨nonzero, atPos⟩ := valid.2 going
  have lowest := countrZero_lt nonzero
  rw [mem_remaining going, atPos, Nat.add_comm, (div_mod_position lowest).1, (div_mod_position lowest).2]
  exact Or.inl ⟨rfl, getLsbD_countrZero nonzero⟩

/-- `m_pos` is the least remaining position. -/
theorem pos_eq_min {it : Iterator w N} (valid : it.Valid) (going : it.idx < N) (nonempty : it.remaining.Nonempty) :
    it.pos = it.remaining.min' nonempty := by
  obtain ⟨nonzero, atPos⟩ := valid.2 going
  refine le_antisymm (le_min' _ _ _ fun q mem => ?_) (min'_le _ _ (pos_mem_remaining valid going))
  rw [atPos, Nat.add_comm]
  rcases (mem_remaining going).mp mem with ⟨same, bit⟩ | ⟨later, _⟩
  · have := countrZero_le_of_getLsbD bit
    have := position_eq (w := w) q
    rw [same] at this
    omega
  · exact Nat.le_of_lt (position_lt_of_limb_lt (countrZero_lt nonzero) later)

/-- `m_val &= m_val - 1` removes the reported position from the bits left in limb `m_idx`. -/
theorem getLsbD_cleared {it : Iterator w N} (valid : it.Valid) (going : it.idx < N) {q : Nat}
    (same : q / w = it.idx) :
    (it.val &&& (it.val - 1#w)).getLsbD (q % w) = true ↔ q ≠ it.pos ∧ it.val.getLsbD (q % w) = true := by
  obtain ⟨nonzero, atPos⟩ := valid.2 going
  have split := position_eq (w := w) q
  rw [same] at split
  have positions : q ≠ it.pos ↔ q % w ≠ countrZero it.val := by
    rw [atPos]
    omega
  rw [getLsbD_and_sub_one nonzero, Bool.and_eq_true, decide_eq_true_iff, positions, and_comm]

theorem next_valid {it : Iterator w N} (valid : it.Valid) (going : it.idx < N) : it.next.Valid := by
  dsimp only [next]
  split
  · exact (seek_spec _ _ _ _ (by omega)).1
  · rename_i nonzero
    exact ⟨valid.1, fun _ => ⟨nonzero, rfl⟩⟩

theorem remaining_next {it : Iterator w N} (valid : it.Valid) (going : it.idx < N) :
    it.next.remaining = it.remaining.erase it.pos := by
  have posLimb := pos_div valid going
  dsimp only [next]
  split
  · rename_i empty
    rw [(seek_spec _ _ _ _ (by omega)).2]
    ext q
    rw [mem_filter, mem_erase, mem_remaining going]
    constructor
    · rintro ⟨mem, later⟩
      exact ⟨fun equal => by rw [equal] at later; omega, Or.inr ⟨by omega, mem⟩⟩
    · rintro ⟨other, ⟨same, bit⟩ | ⟨later, mem⟩⟩
      · have := (getLsbD_cleared valid going same).mpr ⟨other, bit⟩
        rw [empty, BitVec.getLsbD_zero] at this
        contradiction
      · exact ⟨mem, later⟩
  · ext q
    have stays : (⟨it.limbs, it.val &&& (it.val - 1#w), countrZero (it.val &&& (it.val - 1#w)) + it.idx * w,
      it.idx⟩ : Iterator w N).idx < N := going
    rw [mem_erase, mem_remaining going, mem_remaining stays]
    dsimp only
    by_cases same : q / w = it.idx
    · rw [getLsbD_cleared valid going same]
      simp [same]
    · have other : q ≠ it.pos := fun equal => same (by rw [equal, posLimb])
      simp [same, other]

theorem visit_of_going {it : Iterator w N} (going : it.idx < N) : it.visit = it.pos :: it.next.visit := by
  rw [visit, if_pos going]

theorem visit_of_empty {it : Iterator w N} (valid : it.Valid) (empty : it.remaining = ∅) : it.visit = [] := by
  rw [visit, if_neg fun going => (eq_empty_iff_forall_notMem.mp empty) _ (pos_mem_remaining valid going)]

/-- One step reports the least remaining position and leaves the others. -/
theorem step (it : Iterator w N) (valid : it.Valid) (nonempty : it.remaining.Nonempty) :
    ∃ next : Iterator w N, next.Valid ∧ next.remaining = it.remaining.erase (it.remaining.min' nonempty) ∧
      it.visit = it.remaining.min' nonempty :: next.visit := by
  have going : it.idx < N := Nat.lt_of_not_le fun stop => nonempty.ne_empty (remaining_of_end (by omega))
  rw [← pos_eq_min valid going nonempty]
  exact ⟨it.next, next_valid valid going, remaining_next valid going, visit_of_going going⟩

theorem visit_sorted (it : Iterator w N) (valid : it.Valid) :
    it.visit.Pairwise (· < ·) ∧ ∀ i, i ∈ it.visit ↔ i ∈ it.remaining :=
  visit_of_min remaining visit Valid (fun _ valid empty => visit_of_empty valid empty) step it valid

end Iterator

/-- `begin()`: the scan from limb `0`; `m_val` and `m_pos` are written by the scan when it finds a bit. -/
def begin (s : MultiIntBitSet w N) : Iterator w N := Iterator.seek s 0#w 0 0

theorem visit_begin (s : MultiIntBitSet w N) :
    s.begin.visit.Pairwise (· < ·) ∧ ∀ i, i ∈ s.begin.visit ↔ i ∈ s.elems := by
  obtain ⟨valid, rest⟩ := Iterator.seek_spec s 0#w 0 0 (Nat.zero_le N)
  rw [begin, ← filter_true_of_mem (s := s.elems) (p := (0 ≤ · / w)) fun _ _ => Nat.zero_le _, ← rest]
  exact Iterator.visit_sorted _ valid

/-! ## Refinement -/

/-- The operations of `MultiIntBitSet<I, N>` for a type of `w` bits. -/
def ops (w N : Nat) : Ops (MultiIntBitSet w N) where
  size := w * N
  elems := elems
  set := set
  setTo := setTo
  reset := reset
  get := get
  singleton := singleton
  fill := fill
  count := count
  none := none
  any := any
  first := first
  last := last
  union := orOp
  inter := andOp
  diff := subOp
  symmDiff := xorOp
  unionAssign := orAssign
  interAssign := andAssign
  diffAssign := subAssign
  symmDiffAssign := xorAssign
  overlaps := overlaps
  isSubsetOf := isSubsetOf
  isSupersetOf := isSupersetOf
  beq := beq
  visit := fun s => s.begin.visit

/-- `MultiIntBitSet<I, N>` implements the sets of positions below `N` times the width of `I`. -/
theorem refines (standard : UnsignedWidth w) : (ops w N).Refines where
  elems_subset := elems_subset
  elems_set _ _ := elems_set
  elems_setTo _ _ val below := elems_setTo below val
  elems_reset _ _ := elems_reset
  get_iff _ _ := get_iff
  elems_singleton _ := elems_singleton
  elems_fill _ := elems_fill
  count_eq := count_eq standard
  none_iff _ := none_iff
  any_iff _ := any_iff
  first_eq _ := first_eq
  last_eq _ := last_eq
  elems_union _ _ := elems_orOp
  elems_inter _ _ := elems_andOp
  elems_diff _ _ := elems_subOp
  elems_symmDiff _ _ := elems_xorOp
  unionAssign_eq := assignLoop_eq _
  interAssign_eq := assignLoop_eq _
  diffAssign_eq := assignLoop_eq fun x y => x &&& ~~~y
  symmDiffAssign_eq := assignLoop_eq _
  overlaps_iff _ _ := overlaps_iff
  isSubsetOf_iff _ _ := isSubsetOf_iff
  isSupersetOf_iff _ _ := isSupersetOf_iff
  beq_iff _ _ := beq_iff
  visit_sorted s := (visit_begin s).1
  mem_visit s := (visit_begin s).2

end MultiIntBitSet

end Qbitcoin
