import Qbitcoin.Lib.Memory
import Qbitcoin.Lib.SeqOps
import Qbitcoin.Lib.Simulation

/-!
# VecDeque

`VecDeque<T>` of `util/vecdeque.h`: a deque in one ring buffer.  The buffer
holds `m_capacity` slots, the first element sits at slot `m_offset`, and
logical position `pos` is slot `BufferIndex(pos)`, which wraps once past the
end of the buffer.  A slot holds an object or none, so that a read of a slot
no object was constructed in would show in the model.  The code branches on
whether `T` is trivially copyable and trivially destructible; both branches
are kept, as `ElementTraits`.

Sizes are natural numbers: the `size_t` arithmetic of the code cannot wrap,
since a deque of `2 ^ 63` elements cannot be allocated.
-/

namespace Qbitcoin

open Memory

/-- What the code asks of the element type: `std::is_trivially_copyable_v<T>` and
`std::is_trivially_destructible_v<T>`. -/
structure ElementTraits where
  triviallyCopyable : Bool
  triviallyDestructible : Bool

/-- The four fields of a `VecDeque<T>`; `m_buffer` is the memory `m_buffer` points to. -/
structure VecDeque (T : Type) where
  m_buffer : Nat → Option T
  m_offset : Nat
  m_size : Nat
  m_capacity : Nat

namespace VecDeque

variable {T : Type} (traits : ElementTraits)

/-- `VecDeque()`: no buffer and no element. -/
def fresh : VecDeque T := ⟨alloc, 0, 0, 0⟩

/-- `FirstPart()`: the number of elements between `m_offset` and the end of the buffer. -/
def firstPart (d : VecDeque T) : Nat := min (d.m_capacity - d.m_offset) d.m_size

/-- `BufferIndex(pos)`: the slot of logical position `pos`, compared against `m_capacity - m_offset`
so that the addition cannot overflow. -/
def bufferIndex (d : VecDeque T) (pos : Nat) : Nat :=
  if pos ≥ d.m_capacity - d.m_offset then d.m_offset + pos - d.m_capacity else d.m_offset + pos

/-- `operator[](idx)`. -/
def get (d : VecDeque T) (idx : Nat) : Option T := d.m_buffer (d.bufferIndex idx)

/-- `front()`. -/
def front (d : VecDeque T) : Option T := d.m_buffer d.m_offset

/-- `back()`. -/
def back (d : VecDeque T) : Option T := d.m_buffer (d.bufferIndex (d.m_size - 1))

/-- `empty()`. -/
def empty (d : VecDeque T) : Bool := d.m_size == 0

/-- `size()`. -/
def size (d : VecDeque T) : Nat := d.m_size

/-- `capacity()`. -/
def capacity (d : VecDeque T) : Nat := d.m_capacity

/-- The two `memcpy` calls of `Reallocate` and of `operator=` for a trivially copyable `T`: the
`FirstPart()` elements from `m_offset` on, then the rest from the start of the buffer, into `dst` from
slot 0. -/
def unrollInto (dst : Nat → Option T) (src : VecDeque T) : Nat → Option T :=
  let first_part := src.firstPart
  let dst := if first_part ≠ 0 then copy dst 0 src.m_buffer src.m_offset first_part else dst
  if first_part ≠ src.m_size then copy dst first_part src.m_buffer 0 (src.m_size - first_part) else dst

/-- The loop of `Reallocate` for a `T` that is not trivially copyable: element `new_pos` is
move-constructed from slot `old_pos`, which wraps to 0 at the end of the old buffer.  The old slots it
destroys are freed with the old buffer right after, so only the new buffer is kept. -/
def moveLoop (d : VecDeque T) (new_buffer : Nat → Option T) (old_pos new_pos : Nat) : Nat → Option T :=
  if new_pos < d.m_size then
    let new_buffer := write new_buffer new_pos (d.m_buffer old_pos)
    let old_pos := old_pos + 1
    d.moveLoop new_buffer (if old_pos = d.m_capacity then 0 else old_pos) (new_pos + 1)
  else new_buffer
termination_by d.m_size - new_pos

/-- `Reallocate(capacity)`: the elements move to a new buffer of `capacity` slots, from slot 0 on. -/
def reallocate (d : VecDeque T) (capacity : Nat) : VecDeque T :=
  let new_buffer : Nat → Option T :=
    if capacity ≠ 0 then
      if traits.triviallyCopyable then unrollInto alloc d else d.moveLoop alloc d.m_offset 0
    else alloc
  { d with m_buffer := new_buffer, m_offset := 0, m_capacity := capacity }

/-- The loop of `ResizeDown` for a `T` that is not trivially destructible: the last element is destroyed
until `size` are left. -/
def destroyLoop (d : VecDeque T) (size : Nat) : VecDeque T :=
  if d.m_size > size then
    destroyLoop { d with m_buffer := write d.m_buffer (d.bufferIndex (d.m_size - 1)) none,
                         m_size := d.m_size - 1 } size
  else d
termination_by d.m_size

/-- `ResizeDown(size)`. -/
def resizeDown (d : VecDeque T) (size : Nat) : VecDeque T :=
  if traits.triviallyDestructible then { d with m_size := size } else d.destroyLoop size

/-- The loop of `resize` that grows the deque: a value-initialized element is constructed at the end until
there are `size`. -/
def constructLoop [Inhabited T] (d : VecDeque T) (size : Nat) : VecDeque T :=
  if d.m_size < size then
    constructLoop { d with m_buffer := write d.m_buffer (d.bufferIndex d.m_size) (some default),
                           m_size := d.m_size + 1 } size
  else d
termination_by size - d.m_size

/-- `resize(size)`. -/
def resize [Inhabited T] (d : VecDeque T) (size : Nat) : VecDeque T :=
  if size < d.m_size then d.resizeDown traits size
  else if size > d.m_size then
    (if size > d.m_capacity then d.reallocate traits size else d).constructLoop size
  else d

/-- `clear()`. -/
def clear (d : VecDeque T) : VecDeque T := d.resizeDown traits 0

/-- The loop of `operator=` for a `T` that is not trivially copyable: element `m_size` of `other` is
copy-constructed at the end until the sizes agree. -/
def copyLoop (d other : VecDeque T) : VecDeque T :=
  if d.m_size < other.m_size then
    copyLoop { d with m_buffer := write d.m_buffer (d.bufferIndex d.m_size) (other.get d.m_size),
                      m_size := d.m_size + 1 } other
  else d
termination_by other.m_size - d.m_size

/-- `operator=(const VecDeque& other)` once `&other != this`. -/
def copyAssign (d other : VecDeque T) : VecDeque T :=
  let d := (d.clear traits).reallocate traits other.m_size
  if traits.triviallyCopyable then { d with m_buffer := unrollInto d.m_buffer other, m_size := other.m_size }
  else d.copyLoop other

/-- `reserve(capacity)`. -/
def reserve (d : VecDeque T) (capacity : Nat) : VecDeque T :=
  if capacity > d.m_capacity then d.reallocate traits capacity else d

/-- `shrink_to_fit()`. -/
def shrinkToFit (d : VecDeque T) : VecDeque T :=
  if d.m_capacity > d.m_size then d.reallocate traits d.m_size else d

/-- `emplace_back(args...)`, with `x` the object `args` construct; `push_back` calls it. -/
def emplaceBack (d : VecDeque T) (x : T) : VecDeque T :=
  let d := if d.m_size = d.m_capacity then d.reallocate traits ((d.m_size + 1) * 2) else d
  { d with m_buffer := write d.m_buffer (d.bufferIndex d.m_size) (some x), m_size := d.m_size + 1 }

/-- `emplace_front(args...)`; `push_front` calls it. -/
def emplaceFront (d : VecDeque T) (x : T) : VecDeque T :=
  let d := if d.m_size = d.m_capacity then d.reallocate traits ((d.m_size + 1) * 2) else d
  let m_buffer := write d.m_buffer (d.bufferIndex (d.m_capacity - 1)) (some x)
  let m_offset := if d.m_offset = 0 then d.m_capacity else d.m_offset
  { d with m_buffer, m_offset := m_offset - 1, m_size := d.m_size + 1 }

/-- `pop_front()`. -/
def popFront (d : VecDeque T) : VecDeque T :=
  let m_offset := d.m_offset + 1
  { d with m_buffer := write d.m_buffer d.m_offset none, m_size := d.m_size - 1,
           m_offset := if m_offset = d.m_capacity then 0 else m_offset }

/-- `pop_back()`. -/
def popBack (d : VecDeque T) : VecDeque T :=
  { d with m_buffer := write d.m_buffer (d.bufferIndex (d.m_size - 1)) none, m_size := d.m_size - 1 }

/-- `operator==`: the sizes, then the elements in order. -/
def beq [BEq T] (a b : VecDeque T) : Bool :=
  if a.m_size ≠ b.m_size then false else (List.range a.m_size).all fun i => a.get i == b.get i

/-- The loop of `operator<=>` from position `pos` of both deques (`pos_a` and `pos_b` advance together). -/
def compareLoop [Ord T] (a b : VecDeque T) (pos : Nat) : Ordering :=
  if pos < a.m_size ∧ pos < b.m_size then
    let cmp := compare (a.get pos) (b.get pos)
    if cmp ≠ .eq then cmp else compareLoop a b (pos + 1)
  else compare a.m_size b.m_size
termination_by a.m_size - pos

/-- `operator<=>`. -/
def threeWay [Ord T] (a b : VecDeque T) : Ordering := compareLoop a b 0

/-! ## The invariant, and what a deque holds -/

variable {d : VecDeque T} {l : List T}

/-- The invariant the comments of the class state: `m_size ≤ m_capacity`, and `m_offset < m_capacity`
unless both are 0. -/
structure Wf (d : VecDeque T) : Prop where
  size_le : d.m_size ≤ d.m_capacity
  offset_lt : d.m_capacity = 0 ∧ d.m_offset = 0 ∨ d.m_offset < d.m_capacity

/-- `d` holds the elements of `l` in order: the invariant holds, `size()` is the length of `l`, and
`operator[](i)` reads the object `l[i]`. -/
structure Refines (d : VecDeque T) (l : List T) : Prop extends d.Wf where
  size_eq : d.m_size = l.length
  get_eq : ∀ i (inside : i < l.length), d.get i = some l[i]

theorem Wf.offset_lt_of_pos (wf : d.Wf) (positive : 0 < d.m_capacity) : d.m_offset < d.m_capacity := by
  rcases wf.offset_lt with ⟨empty, -⟩ | below
  · omega
  · exact below

theorem bufferIndex_lt (wf : d.Wf) {pos : Nat} (inside : pos < d.m_capacity) : d.bufferIndex pos < d.m_capacity := by
  have := wf.offset_lt_of_pos (by omega)
  unfold bufferIndex
  split <;> omega

theorem bufferIndex_inj (wf : d.Wf) {i j : Nat} (insideI : i < d.m_capacity) (insideJ : j < d.m_capacity)
    (same : d.bufferIndex i = d.bufferIndex j) : i = j := by
  have := wf.offset_lt_of_pos (by omega)
  unfold bufferIndex at same
  split at same <;> split at same <;> omega

theorem bufferIndex_zero (wf : d.Wf) (positive : 0 < d.m_capacity) : d.bufferIndex 0 = d.m_offset := by
  have := wf.offset_lt_of_pos positive
  unfold bufferIndex
  rw [if_neg (by omega), Nat.add_zero]

theorem bufferIndex_of_offset_zero (start : d.m_offset = 0) {pos : Nat} (inside : pos < d.m_capacity) :
    d.bufferIndex pos = pos := by
  unfold bufferIndex
  rw [if_neg (by omega), start, Nat.zero_add]

/-- The slot after the one of `pos`, wrapping at the end of the buffer. -/
theorem bufferIndex_succ (wf : d.Wf) {pos : Nat} (inside : pos + 1 < d.m_capacity) :
    d.bufferIndex (pos + 1) = if d.bufferIndex pos + 1 = d.m_capacity then 0 else d.bufferIndex pos + 1 := by
  have := wf.offset_lt_of_pos (by omega)
  unfold bufferIndex
  split_ifs <;> omega

@[simp] theorem popFront_m_offset :
    d.popFront.m_offset = if d.m_offset + 1 = d.m_capacity then 0 else d.m_offset + 1 := rfl

@[simp] theorem popFront_m_capacity : d.popFront.m_capacity = d.m_capacity := rfl

/-- After `pop_front` the first slot is one further on, so position `pos` is the old position `pos + 1`. -/
theorem bufferIndex_popFront (wf : d.Wf) {pos : Nat} (inside : pos + 1 < d.m_capacity) :
    d.popFront.bufferIndex pos = d.bufferIndex (pos + 1) := by
  have := wf.offset_lt_of_pos (by omega)
  simp only [bufferIndex, popFront_m_offset, popFront_m_capacity]
  split_ifs <;> omega

/-- With the first slot one back, as `emplace_front` leaves it, position `pos + 1` is the old position
`pos`. -/
theorem bufferIndex_succ_of_offset_pred (wf : d.Wf) (b : Nat → Option T) (size : Nat) {pos : Nat}
    (inside : pos + 1 < d.m_capacity) :
    (⟨b, (if d.m_offset = 0 then d.m_capacity else d.m_offset) - 1, size, d.m_capacity⟩ : VecDeque T).bufferIndex
      (pos + 1) = d.bufferIndex pos := by
  have := wf.offset_lt_of_pos (by omega)
  dsimp only [bufferIndex]
  split_ifs <;> omega

/-- With the first slot one back, position 0 is the slot before the old first one, `BufferIndex(m_capacity - 1)`. -/
theorem bufferIndex_zero_of_offset_pred (wf : d.Wf) (b : Nat → Option T) (size : Nat) (positive : 0 < d.m_capacity) :
    (⟨b, (if d.m_offset = 0 then d.m_capacity else d.m_offset) - 1, size, d.m_capacity⟩ : VecDeque T).bufferIndex 0 =
      d.bufferIndex (d.m_capacity - 1) := by
  have := wf.offset_lt_of_pos positive
  dsimp only [bufferIndex]
  split_ifs <;> omega

theorem Refines.capacity_pos (r : d.Refines l) (nonempty : l ≠ []) : 0 < d.m_capacity := by
  have := r.size_le
  have := List.length_pos_iff.mpr nonempty
  have := r.size_eq
  omega

/-! ## Reallocation -/

@[simp] theorem reallocate_m_size (c : Nat) : (d.reallocate traits c).m_size = d.m_size := rfl

@[simp] theorem reallocate_m_offset (c : Nat) : (d.reallocate traits c).m_offset = 0 := rfl

@[simp] theorem reallocate_m_capacity (c : Nat) : (d.reallocate traits c).m_capacity = c := rfl

/-- The two copies of a trivially copyable `T` put element `i` at slot `i`. -/
theorem unrollInto_apply {src : VecDeque T} (wf : src.Wf) (dst : Nat → Option T) {i : Nat}
    (inside : i < src.m_size) : unrollInto dst src i = src.m_buffer (src.bufferIndex i) := by
  have := wf.size_le
  have := wf.offset_lt_of_pos (by omega)
  simp only [unrollInto]
  rw [ite_copy (fun none => by simp only [firstPart] at none ⊢; omega), ite_copy (fun none => not_not.mp none)]
  by_cases first : i < src.firstPart
  · rw [copy_of_lt first, copy_of_mem ⟨Nat.zero_le i, by omega⟩]
    unfold bufferIndex
    unfold firstPart at first
    rw [if_neg (by omega), Nat.sub_zero]
  · unfold firstPart at first ⊢
    rw [copy_of_mem ⟨by omega, by omega⟩]
    unfold bufferIndex
    rw [if_pos (by omega)]
    congr 1
    omega

/-- The move loop puts element `j` at slot `j`, once it has passed `j`.  It starts at the first element,
and `old_pos` stays the slot of element `new_pos`. -/
theorem moveLoop_apply (wf : d.Wf) (new_buffer : Nat → Option T) (old_pos new_pos : Nat)
    (tracking : new_pos < d.m_size → old_pos = d.bufferIndex new_pos) {j : Nat} (inside : j < d.m_size) :
    d.moveLoop new_buffer old_pos new_pos j = if j < new_pos then new_buffer j else d.m_buffer (d.bufferIndex j) := by
  fun_induction moveLoop d new_buffer old_pos new_pos with
  | case1 new_buffer old_pos new_pos going moved advanced inductionHypothesis =>
    have := wf.size_le
    have next : new_pos + 1 < d.m_size →
        (if advanced = d.m_capacity then 0 else advanced) = d.bufferIndex (new_pos + 1) := by
      intro later
      rw [bufferIndex_succ wf (by omega), ← tracking going]
    simp only [dite_eq_ite] at inductionHypothesis
    rw [inductionHypothesis next]
    simp only [moved]
    by_cases before : j < new_pos
    · rw [if_pos (by omega), if_pos before, write_of_ne (by omega)]
    · by_cases here : j = new_pos
      · subst here
        rw [if_pos (by omega), if_neg before, write_same, tracking going]
      · rw [if_neg (by omega), if_neg before]
  | case2 new_buffer old_pos new_pos done =>
    rw [if_pos (by omega)]

/-- `Reallocate` keeps every element, now at the slot of its position. -/
theorem get_reallocate (wf : d.Wf) {c : Nat} (fits : d.m_size ≤ c) {i : Nat} (inside : i < d.m_size) :
    (d.reallocate traits c).get i = d.get i := by
  have moved : (d.reallocate traits c).bufferIndex i = i := bufferIndex_of_offset_zero rfl (by simp; omega)
  have := wf.size_le
  unfold get
  rw [moved]
  show (if c ≠ 0 then if traits.triviallyCopyable then unrollInto alloc d else d.moveLoop alloc d.m_offset 0
    else alloc) i = _
  rw [if_pos (by omega)]
  split
  · exact unrollInto_apply wf alloc inside
  · rw [moveLoop_apply wf alloc d.m_offset 0 (fun _ => (bufferIndex_zero wf (by omega)).symm) inside,
      if_neg (Nat.not_lt_zero i)]

theorem Refines.reallocate (r : d.Refines l) {c : Nat} (fits : d.m_size ≤ c) : (d.reallocate traits c).Refines l where
  size_le := fits
  offset_lt := by
    show c = 0 ∧ 0 = 0 ∨ 0 < c
    omega
  size_eq := r.size_eq
  get_eq i inside := by rw [get_reallocate traits r.toWf fits (r.size_eq ▸ inside), r.get_eq i inside]

/-! ## One element at either end -/

/-- An object constructed in the slot after the last element is the new last element. -/
theorem Refines.append (r : d.Refines l) (room : d.m_size < d.m_capacity) (x : T) :
    ({ d with m_buffer := write d.m_buffer (d.bufferIndex d.m_size) (some x), m_size := d.m_size + 1 } :
      VecDeque T).Refines (l ++ [x]) where
  size_le := room
  offset_lt := r.offset_lt
  size_eq := by rw [r.size_eq, List.length_append, List.length_singleton]
  get_eq i inside := by
    have := r.size_eq
    rw [List.length_append, List.length_singleton] at inside
    show write d.m_buffer (d.bufferIndex d.m_size) (some x) (d.bufferIndex i) = _
    by_cases old : i < l.length
    · rw [write_of_ne fun same => by have := bufferIndex_inj r.toWf (by omega) room same; omega,
        List.getElem_append_left old]
      exact r.get_eq i old
    · have last : i = d.m_size := by omega
      subst last
      rw [write_same, List.getElem_append_right (by omega)]
      simp [this]

/-- Destroying the last element leaves the others. -/
theorem Refines.dropLast (r : d.Refines l) :
    ({ d with m_buffer := write d.m_buffer (d.bufferIndex (d.m_size - 1)) none, m_size := d.m_size - 1 } :
      VecDeque T).Refines l.dropLast where
  size_le := by
    show d.m_size - 1 ≤ d.m_capacity
    have := r.size_le
    omega
  offset_lt := r.offset_lt
  size_eq := by rw [r.size_eq, List.length_dropLast]
  get_eq i inside := by
    have := r.size_eq
    have := r.size_le
    rw [List.length_dropLast] at inside
    show write d.m_buffer (d.bufferIndex (d.m_size - 1)) none (d.bufferIndex i) = _
    rw [write_of_ne fun same => by have := bufferIndex_inj r.toWf (by omega) (by omega) same; omega,
      List.getElem_dropLast]
    exact r.get_eq i (by omega)

/-- Forgetting the elements from `size` on leaves the first `size`. -/
theorem Refines.shrink (r : d.Refines l) {size : Nat} (within : size ≤ l.length) :
    ({ d with m_size := size } : VecDeque T).Refines (l.take size) where
  size_le := by
    show size ≤ d.m_capacity
    have := r.size_le
    have := r.size_eq
    omega
  offset_lt := r.offset_lt
  size_eq := by rw [List.length_take, Nat.min_eq_left within]
  get_eq i inside := by
    rw [List.length_take] at inside
    rw [List.getElem_take]
    exact r.get_eq i (by omega)

/-- Room for one more element, after `emplace_back` or `emplace_front` has reallocated if the buffer was
full. -/
theorem Refines.grow (r : d.Refines l) :
    (if d.m_size = d.m_capacity then d.reallocate traits ((d.m_size + 1) * 2) else d).Refines l ∧
      (if d.m_size = d.m_capacity then d.reallocate traits ((d.m_size + 1) * 2) else d).m_size <
        (if d.m_size = d.m_capacity then d.reallocate traits ((d.m_size + 1) * 2) else d).m_capacity := by
  split
  · exact ⟨r.reallocate traits (by omega), by simp only [reallocate_m_size, reallocate_m_capacity]; omega⟩
  · exact ⟨r, by have := r.size_le; omega⟩

theorem Refines.emplaceBack (r : d.Refines l) (x : T) : (d.emplaceBack traits x).Refines (l ++ [x]) := by
  obtain ⟨grown, room⟩ := r.grow traits
  exact grown.append room x

/-- An object constructed in the slot before the first element, which is the last slot when the first
element is at slot 0, is the new first element. -/
theorem Refines.prepend (r : d.Refines l) (room : d.m_size < d.m_capacity) (x : T) :
    ({ d with m_buffer := write d.m_buffer (d.bufferIndex (d.m_capacity - 1)) (some x),
              m_offset := (if d.m_offset = 0 then d.m_capacity else d.m_offset) - 1,
              m_size := d.m_size + 1 } : VecDeque T).Refines (x :: l) where
  size_le := room
  offset_lt := Or.inr (by
    show (if d.m_offset = 0 then d.m_capacity else d.m_offset) - 1 < d.m_capacity
    have := r.offset_lt_of_pos (by omega)
    split <;> omega)
  size_eq := by
    show d.m_size + 1 = _
    rw [r.size_eq, List.length_cons]
  get_eq i inside := by
    have := r.size_eq
    cases i with
    | zero =>
      show write d.m_buffer (d.bufferIndex (d.m_capacity - 1)) (some x) (bufferIndex _ 0) = _
      rw [bufferIndex_zero_of_offset_pred r.toWf _ _ (by omega), write_same, List.getElem_cons_zero]
    | succ i =>
      rw [List.length_cons] at inside
      show write d.m_buffer (d.bufferIndex (d.m_capacity - 1)) (some x) (bufferIndex _ (i + 1)) = _
      rw [bufferIndex_succ_of_offset_pred r.toWf _ _ (by omega),
        write_of_ne fun same => by have := bufferIndex_inj r.toWf (by omega) (by omega) same; omega,
        List.getElem_cons_succ]
      exact r.get_eq i (by omega)

theorem Refines.emplaceFront (r : d.Refines l) (x : T) : (d.emplaceFront traits x).Refines (x :: l) := by
  obtain ⟨grown, room⟩ := r.grow traits
  exact grown.prepend room x

/- `emplace_front` on an empty deque puts the element in the last slot of the new buffer, and the next
`emplace_back` wraps around to slot 0. -/
example : ((fresh.emplaceFront ⟨true, true⟩ 5).emplaceBack ⟨true, true⟩ 7 : VecDeque Nat).m_buffer 0 = some 7 := by
  decide

theorem Refines.popFront (r : d.Refines l) (nonempty : l ≠ []) : d.popFront.Refines l.tail where
  size_le := by
    show d.m_size - 1 ≤ d.m_capacity
    have := r.size_le
    omega
  offset_lt := Or.inr (by
    show (if d.m_offset + 1 = d.m_capacity then 0 else d.m_offset + 1) < d.m_capacity
    have := r.offset_lt_of_pos (r.capacity_pos nonempty)
    split <;> omega)
  size_eq := by
    show d.m_size - 1 = _
    rw [r.size_eq, List.length_tail]
  get_eq i inside := by
    have positive := r.capacity_pos nonempty
    have := r.offset_lt_of_pos positive
    have := r.size_le
    have := r.size_eq
    rw [List.length_tail] at inside
    show write d.m_buffer d.m_offset none (d.popFront.bufferIndex i) = _
    rw [bufferIndex_popFront r.toWf (by omega), ← bufferIndex_zero r.toWf positive,
      write_of_ne fun same => by have := bufferIndex_inj r.toWf (by omega) (by omega) same; omega,
      List.getElem_tail]
    exact r.get_eq (i + 1) (by omega)

theorem Refines.popBack (r : d.Refines l) : d.popBack.Refines l.dropLast := r.dropLast

/-! ## Resizing and assignment -/

/-- The destroy loop of `ResizeDown` drops the last element until `size` are left. -/
theorem Refines.destroyLoop (r : d.Refines l) {size : Nat} (within : size ≤ l.length) :
    (d.destroyLoop size).Refines (l.take size) := by
  fun_induction VecDeque.destroyLoop d size generalizing l with
  | case1 d above inductionHypothesis =>
    have := r.size_eq
    have shorter := inductionHypothesis r.dropLast (by rw [List.length_dropLast]; omega)
    rwa [List.dropLast_eq_take, List.take_take, Nat.min_eq_left (by omega)] at shorter
  | case2 d below =>
    have := r.size_eq
    rwa [List.take_of_length_le (by omega)]

theorem Refines.resizeDown (r : d.Refines l) {size : Nat} (within : size ≤ l.length) :
    (d.resizeDown traits size).Refines (l.take size) := by
  unfold VecDeque.resizeDown
  split
  · exact r.shrink within
  · exact r.destroyLoop within

theorem Refines.clear (r : d.Refines l) : (d.clear traits).Refines [] := by
  show (d.resizeDown traits 0).Refines []
  simpa using r.resizeDown traits (Nat.zero_le _)

/-- The construct loop of `resize` appends value-initialized elements up to `size`. -/
theorem Refines.constructLoop [Inhabited T] (r : d.Refines l) {size : Nat} (fits : size ≤ d.m_capacity) :
    (d.constructLoop size).Refines (l ++ List.replicate (size - l.length) default) := by
  fun_induction VecDeque.constructLoop d size generalizing l with
  | case1 d below inductionHypothesis =>
    have := r.size_eq
    have longer := inductionHypothesis (r.append (by omega) default) fits
    have count : size - l.length = size - (l ++ [default]).length + 1 := by
      rw [List.length_append, List.length_singleton]
      omega
    rwa [count, List.replicate_succ, ← List.singleton_append, ← List.append_assoc]
  | case2 d done =>
    have := r.size_eq
    rwa [Nat.sub_eq_zero_of_le (by omega), List.replicate_zero, List.append_nil]

theorem Refines.resize [Inhabited T] (r : d.Refines l) (size : Nat) :
    (d.resize traits size).Refines (SeqOps.resize l size default) := by
  have := r.size_eq
  unfold VecDeque.resize
  split
  · rw [SeqOps.resize_of_le (by omega)]
    exact r.resizeDown traits (by omega)
  · split
    · rw [SeqOps.resize_of_ge (by omega)]
      have grown : (if size > d.m_capacity then d.reallocate traits size else d).Refines l ∧
          size ≤ (if size > d.m_capacity then d.reallocate traits size else d).m_capacity := by
        split
        · exact ⟨r.reallocate traits (by omega), Nat.le_refl _⟩
        · exact ⟨r, by omega⟩
      exact grown.1.constructLoop grown.2
    · rw [SeqOps.resize_of_le (by omega), List.take_of_length_le (by omega)]
      exact r

theorem Refines.reserve (r : d.Refines l) (capacity : Nat) : (d.reserve traits capacity).Refines l := by
  unfold VecDeque.reserve
  split
  · exact r.reallocate traits (by have := r.size_le; omega)
  · exact r

theorem Refines.shrinkToFit (r : d.Refines l) : (d.shrinkToFit traits).Refines l := by
  unfold VecDeque.shrinkToFit
  split
  · exact r.reallocate traits (Nat.le_refl _)
  · exact r

/-- The copy loop of `operator=` copies the elements of `other` from position `m_size` on. -/
theorem Refines.copyLoop {other : VecDeque T} {m : List T} (source : other.Refines m)
    (r : d.Refines (m.take d.m_size)) (within : d.m_size ≤ m.length) (fits : m.length ≤ d.m_capacity) :
    (d.copyLoop other).Refines m := by
  fun_induction VecDeque.copyLoop d other with
  | case1 d below inductionHypothesis =>
    have := source.size_eq
    have copied := r.append (by omega) m[d.m_size]
    rw [← source.get_eq d.m_size (by omega), List.take_append_getElem] at copied
    exact inductionHypothesis copied (by dsimp only; omega) fits
  | case2 d done =>
    have := source.size_eq
    rwa [List.take_of_length_le (by omega)] at r

/-- The two copies of a trivially copyable `T` into a buffer of `other.m_size` slots. -/
theorem Refines.unroll {other : VecDeque T} {m : List T} (source : other.Refines m) (dst : Nat → Option T) :
    (⟨unrollInto dst other, 0, other.m_size, other.m_size⟩ : VecDeque T).Refines m where
  size_le := Nat.le_refl _
  offset_lt := by
    show other.m_size = 0 ∧ 0 = 0 ∨ 0 < other.m_size
    omega
  size_eq := source.size_eq
  get_eq i inside := by
    have := source.size_eq
    show unrollInto dst other (bufferIndex _ i) = _
    rw [bufferIndex_of_offset_zero rfl (by dsimp only; omega), unrollInto_apply source.toWf dst (by omega)]
    exact source.get_eq i inside

theorem Refines.copyAssign (r : d.Refines l) {other : VecDeque T} {m : List T} (source : other.Refines m) :
    (d.copyAssign traits other).Refines m := by
  have cleared := r.clear traits
  have empty := cleared.reallocate traits (c := other.m_size) (by rw [cleared.size_eq]; simp)
  unfold VecDeque.copyAssign
  dsimp only
  split
  · exact source.unroll _
  · have := source.size_eq
    exact source.copyLoop (by simpa [cleared.size_eq] using empty) (by simp [cleared.size_eq]) (by simp [this])

/-! ## Reading the ends -/

theorem Refines.front_eq (r : d.Refines l) (nonempty : l ≠ []) : d.front = some (l.head nonempty) := by
  have positive := List.length_pos_iff.mpr nonempty
  rw [front, ← bufferIndex_zero r.toWf (r.capacity_pos nonempty), List.head_eq_getElem]
  exact r.get_eq 0 positive

theorem Refines.back_eq (r : d.Refines l) (nonempty : l ≠ []) : d.back = some (l.getLast nonempty) := by
  have positive := List.length_pos_iff.mpr nonempty
  have := r.size_eq
  rw [back, List.getLast_eq_getElem, ← r.get_eq (l.length - 1) (by omega), ← this]
  rfl

/-! ## Comparisons -/

section Comparisons

variable {a b : VecDeque T} {la lb : List T}

/-- `operator==` is the equality of `std::deque`: equal sizes, and `==` at each position. -/
theorem Refines.beq_eq [BEq T] (ra : a.Refines la) (rb : b.Refines lb) : a.beq b = (la == lb) := by
  have := ra.size_eq
  have := rb.size_eq
  unfold VecDeque.beq
  split
  · rename_i differ
    symm
    rw [Bool.eq_false_iff]
    intro same
    exact differ (by rw [ra.size_eq, rb.size_eq, List.length_eq_of_beq same])
  · rw [SeqOps.beq_eq_all_range (by omega), ← ra.size_eq]
    apply SeqOps.all_range_congr
    intro i inside
    rw [ra.get_eq i (by omega), rb.get_eq i (by omega), List.getElem?_eq_getElem (show i < la.length by omega),
      List.getElem?_eq_getElem (show i < lb.length by omega)]

/-- The loop of `operator<=>` from position `pos` compares what is left of both deques
lexicographically.  The induction follows the loop. -/
theorem Refines.compareLoop_eq [Ord T] (ra : a.Refines la) (rb : b.Refines lb) {pos : Nat}
    (within : pos ≤ la.length ∧ pos ≤ lb.length) :
    a.compareLoop b pos = List.compareLex compare (la.drop pos) (lb.drop pos) := by
  have := ra.size_eq
  have := rb.size_eq
  fun_induction VecDeque.compareLoop a b pos with
  | case1 pos both cmp differ =>
    rw [List.drop_eq_getElem_cons (show pos < la.length by omega),
      List.drop_eq_getElem_cons (show pos < lb.length by omega), List.compareLex_cons_cons]
    have first : cmp = compare la[pos] lb[pos] := by
      simp only [cmp, ra.get_eq pos (by omega), rb.get_eq pos (by omega)]
      rfl
    rw [← first]
    cases decided : cmp with
    | lt => rfl
    | eq => exact absurd decided differ
    | gt => rfl
  | case2 pos both cmp same inductionHypothesis =>
    rw [List.drop_eq_getElem_cons (show pos < la.length by omega),
      List.drop_eq_getElem_cons (show pos < lb.length by omega), List.compareLex_cons_cons,
      inductionHypothesis ⟨by omega, by omega⟩]
    have first : cmp = compare la[pos] lb[pos] := by
      simp only [cmp, ra.get_eq pos (by omega), rb.get_eq pos (by omega)]
      rfl
    rw [← first, not_not.mp same]
    rfl
  | case3 pos ended =>
    rcases Nat.lt_trichotomy a.m_size b.m_size with shorter | equal | longer
    · rw [List.drop_of_length_le (show la.length ≤ pos by omega),
        List.drop_eq_getElem_cons (show pos < lb.length by omega), List.compareLex_nil_cons,
        Nat.compare_eq_lt.mpr shorter]
    · rw [List.drop_of_length_le (show la.length ≤ pos by omega),
        List.drop_of_length_le (show lb.length ≤ pos by omega), List.compareLex_nil_nil, Nat.compare_eq_eq.mpr equal]
    · rw [List.drop_eq_getElem_cons (show pos < la.length by omega),
        List.drop_of_length_le (show lb.length ≤ pos by omega), List.compareLex_cons_nil,
        Nat.compare_eq_gt.mpr longer]

/-- `operator<=>` is the lexicographic comparison of `std::deque`. -/
theorem Refines.threeWay_eq [Ord T] (ra : a.Refines la) (rb : b.Refines lb) : a.threeWay b = compare la lb := by
  rw [threeWay, ra.compareLoop_eq rb ⟨Nat.zero_le _, Nat.zero_le _⟩, List.drop_zero, List.drop_zero,
    List.compare_eq_compareLex]

end Comparisons

theorem fresh_refines : (fresh : VecDeque T).Refines [] where
  size_le := Nat.le_refl 0
  offset_lt := Or.inl ⟨rfl, rfl⟩
  size_eq := rfl
  get_eq _ inside := absurd inside (Nat.not_lt_zero _)

theorem Refines.nonempty (r : d.Refines l) (notEmpty : (!d.empty) = true) : l ≠ [] := by
  intro empty
  have := r.size_eq
  simp only [VecDeque.empty, Bool.not_eq_true', beq_eq_false_iff_ne, ne_eq] at notEmpty
  simp [empty] at this
  exact notEmpty this

/-! ## Deques side by side

A program holds several deques, indexed by `ι`, and calls their operations in
any order.  Copy construction is `*this = other` on a new deque and move
construction `swap(other)`, so with every deque starting empty they are
assignments.  `std::deque` is the specification: the same calls on lists,
except that a deque moved from is left valid but unspecified. -/

/-- The calls on the deques: `push_back`/`emplace_back`, `push_front`/`emplace_front`, `pop_front`,
`pop_back`, `resize`, `clear`, `reserve`, `shrink_to_fit`, `swap`, and copy and move assignment of deque `j`
to deque `i`. -/
inductive Op (ι T : Type) where
  | pushBack (i : ι) (x : T)
  | pushFront (i : ι) (x : T)
  | popFront (i : ι)
  | popBack (i : ι)
  | resize (i : ι) (size : Nat)
  | clear (i : ι)
  | reserve (i : ι) (capacity : Nat)
  | shrinkToFit (i : ι)
  | swap (i j : ι)
  | copyAssign (i j : ι)
  | moveAssign (i j : ι)

section Store

variable {ι : Type} [DecidableEq ι] {s : ι → VecDeque T} {A : ι → List T}

variable [Inhabited T]

/-- One call.  `operator=(const VecDeque&)` returns at once when `other` is `*this`, and
`operator=(VecDeque&&)` is `swap(other)`. -/
def exec : Op ι T → (ι → VecDeque T) → ι → VecDeque T
  | .pushBack i x, s => Function.update s i ((s i).emplaceBack traits x)
  | .pushFront i x, s => Function.update s i ((s i).emplaceFront traits x)
  | .popFront i, s => Function.update s i (s i).popFront
  | .popBack i, s => Function.update s i (s i).popBack
  | .resize i size, s => Function.update s i ((s i).resize traits size)
  | .clear i, s => Function.update s i ((s i).clear traits)
  | .reserve i capacity, s => Function.update s i ((s i).reserve traits capacity)
  | .shrinkToFit i, s => Function.update s i ((s i).shrinkToFit traits)
  | .swap i j, s => Function.update (Function.update s i (s j)) j (s i)
  | .copyAssign i j, s => if i = j then s else Function.update s i ((s i).copyAssign traits (s j))
  | .moveAssign i j, s => Function.update (Function.update s i (s j)) j (s i)

/-- `pop_front` and `pop_back` require `!empty()`. -/
def enabled : Op ι T → (ι → VecDeque T) → Bool
  | .popFront i, s | .popBack i, s => !(s i).empty
  | _, _ => true

/-- What `std::deque` does on the same calls. -/
def dequeStep (A : ι → List T) : Op ι T → (ι → List T) → Prop
  | .pushBack i x, A' => A' = Function.update A i (A i ++ [x])
  | .pushFront i x, A' => A' = Function.update A i (x :: A i)
  | .popFront i, A' => A i ≠ [] ∧ A' = Function.update A i (A i).tail
  | .popBack i, A' => A i ≠ [] ∧ A' = Function.update A i (A i).dropLast
  | .resize i size, A' => A' = Function.update A i (SeqOps.resize (A i) size default)
  | .clear i, A' => A' = Function.update A i []
  | .reserve _ _, A' => A' = A
  | .shrinkToFit _, A' => A' = A
  | .swap i j, A' => A' = Function.update (Function.update A i (A j)) j (A i)
  | .copyAssign i j, A' => A' = Function.update A i (A j)
  | .moveAssign i j, A' => ∀ k, k ≠ j → A' k = Function.update A i (A j) k

/-- One call of the program is one call of `std::deque`, to contents the deques hold again. -/
theorem exec_refines (op : Op ι T) (allowed : enabled op s = true) (related : ∀ k, (s k).Refines (A k)) :
    ∃ A', dequeStep A op A' ∧ ∀ k, (exec traits op s k).Refines (A' k) := by
  cases op with
  | pushBack i x => exact ⟨_, rfl, update_related related ((related i).emplaceBack traits x)⟩
  | pushFront i x => exact ⟨_, rfl, update_related related ((related i).emplaceFront traits x)⟩
  | popFront i =>
    have nonempty := (related i).nonempty allowed
    exact ⟨_, ⟨nonempty, rfl⟩, update_related related ((related i).popFront nonempty)⟩
  | popBack i =>
    exact ⟨_, ⟨(related i).nonempty allowed, rfl⟩, update_related related (related i).popBack⟩
  | resize i size => exact ⟨_, rfl, update_related related ((related i).resize traits size)⟩
  | clear i => exact ⟨_, rfl, update_related related ((related i).clear traits)⟩
  | reserve i capacity =>
    refine ⟨A, rfl, ?_⟩
    have := update_related related (i := i) ((related i).reserve traits capacity)
    rwa [Function.update_eq_self] at this
  | shrinkToFit i =>
    refine ⟨A, rfl, ?_⟩
    have := update_related related (i := i) ((related i).shrinkToFit traits)
    rwa [Function.update_eq_self] at this
  | swap i j => exact ⟨_, rfl, update_related (update_related related (related j)) (related i)⟩
  | copyAssign i j =>
    by_cases same : i = j
    · subst same
      refine ⟨A, (Function.update_eq_self i A).symm, ?_⟩
      simpa [exec] using related
    · refine ⟨_, rfl, ?_⟩
      simpa [exec, same] using update_related related ((related i).copyAssign traits (related j))
  | moveAssign i j =>
    refine ⟨_, fun k other => ?_, update_related (update_related related (related j)) (related i)⟩
    rw [Function.update_of_ne other]

end Store

end VecDeque

open VecDeque in
/-- `VecDeque` refines `std::deque`.  Whatever calls a program makes on its deques, starting empty, with
`pop_front` and `pop_back` only on a deque that is not empty, `std::deque` can make the same calls (a move may
leave its source with any contents) and end with lists that every deque holds: the invariant holds, and
`size()` and `operator[]` read the list.  On a deque that holds a list, `front()` and `back()` read its ends,
and `operator==` and `operator<=>` are the comparisons of `std::deque`. -/
theorem vecDeque_refines_deque :
    (∀ (ι T : Type) [DecidableEq ι] [Inhabited T] (traits : ElementTraits) (ops : List (Op ι T)),
      AllowedRun (exec traits) (fun op s => enabled op s = true) ops (fun _ => fresh) →
        ∃ A, SpecRun dequeStep ops (fun _ => []) A ∧
          ∀ i, (runOps (exec traits) ops (fun _ => fresh) i).Refines (A i)) ∧
    (∀ (T : Type) (d : VecDeque T) (l : List T), d.Refines l →
      d.size = l.length ∧ (∀ i (inside : i < l.length), d.get i = some l[i]) ∧
        ∀ nonempty : l ≠ [], d.front = some (l.head nonempty) ∧ d.back = some (l.getLast nonempty)) ∧
    (∀ (T : Type) [BEq T] (a b : VecDeque T) (la lb : List T), a.Refines la → b.Refines lb →
      a.beq b = (la == lb)) ∧
    (∀ (T : Type) [Ord T] (a b : VecDeque T) (la lb : List T), a.Refines la → b.Refines lb →
      a.threeWay b = compare la lb) := by
  refine ⟨fun ι T _ _ traits ops legal => ?_, fun T d l r => ?_, fun T _ a b la lb ra rb => ra.beq_eq rb,
    fun T _ a b la lb ra rb => ra.threeWay_eq rb⟩
  · exact exists_specRun (fun (s : ι → VecDeque T) (A : ι → List T) => ∀ i, (s i).Refines (A i))
      (fun op _ _ allowed related => exec_refines traits op allowed related) ops (fun _ => fresh_refines) legal
  · exact ⟨r.size_eq, r.get_eq, fun nonempty => ⟨r.front_eq nonempty, r.back_eq nonempty⟩⟩

open VecDeque in
theorem vecDeque_refines_deque_moves :
    AllowedRun (exec ⟨false, false⟩) (fun op s => enabled op s = true)
        [.pushBack true 1, .pushFront false 2, .moveAssign true false, .popFront true, .resize false 3]
        (fun _ => (fresh : VecDeque Nat)) ∧
      (∃ A, SpecRun dequeStep [.pushBack true 1, .pushFront false 2, .moveAssign true false, .popFront true,
          .resize false 3] (fun _ => []) A ∧
        ∀ i, (runOps (exec ⟨false, false⟩) [.pushBack true 1, .pushFront false 2, .moveAssign true false,
          .popFront true, .resize false 3] (fun _ => (fresh : VecDeque Nat)) i).Refines (A i)) ∧
      ((((fresh : VecDeque Nat).emplaceBack ⟨false, false⟩ 1).emplaceFront ⟨false, false⟩ 2).size = [2, 1].length ∧
        (∀ i (inside : i < [2, 1].length),
          (((fresh : VecDeque Nat).emplaceBack ⟨false, false⟩ 1).emplaceFront ⟨false, false⟩ 2).get i = some [2, 1][i]) ∧
        ∀ nonempty : [2, 1] ≠ [],
          (((fresh : VecDeque Nat).emplaceBack ⟨false, false⟩ 1).emplaceFront ⟨false, false⟩ 2).front =
            some ([2, 1].head nonempty) ∧
          (((fresh : VecDeque Nat).emplaceBack ⟨false, false⟩ 1).emplaceFront ⟨false, false⟩ 2).back =
            some ([2, 1].getLast nonempty)) ∧
      (((fresh : VecDeque Nat).emplaceBack ⟨false, false⟩ 1).emplaceFront ⟨false, false⟩ 2).beq
          (((fresh : VecDeque Nat).emplaceBack ⟨false, false⟩ 2).emplaceBack ⟨false, false⟩ 3) = ([2, 1] == [2, 3]) ∧
      (((fresh : VecDeque Nat).emplaceBack ⟨false, false⟩ 1).emplaceFront ⟨false, false⟩ 2).threeWay
          (((fresh : VecDeque Nat).emplaceBack ⟨false, false⟩ 2).emplaceBack ⟨false, false⟩ 3) = compare [2, 1] [2, 3] := by
  have legal : AllowedRun (exec ⟨false, false⟩) (fun op s => enabled op s = true)
      [.pushBack true 1, .pushFront false 2, .moveAssign true false, .popFront true, .resize false 3]
      (fun _ => (fresh : VecDeque Nat)) := by
    decide
  have front : (((fresh : VecDeque Nat).emplaceBack ⟨false, false⟩ 1).emplaceFront ⟨false, false⟩ 2).Refines [2, 1] :=
    (fresh_refines.emplaceBack _ 1).emplaceFront _ 2
  have back : (((fresh : VecDeque Nat).emplaceBack ⟨false, false⟩ 2).emplaceBack ⟨false, false⟩ 3).Refines [2, 3] :=
    (fresh_refines.emplaceBack _ 2).emplaceBack _ 3
  exact ⟨legal, vecDeque_refines_deque.1 Bool Nat ⟨false, false⟩ _ legal,
    vecDeque_refines_deque.2.1 Nat _ [2, 1] front,
    vecDeque_refines_deque.2.2.1 Nat _ _ [2, 1] [2, 3] front back,
    vecDeque_refines_deque.2.2.2 Nat _ _ [2, 1] [2, 3] front back⟩

end Qbitcoin
