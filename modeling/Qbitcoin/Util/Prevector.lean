import Qbitcoin.Lib.Memory
import Qbitcoin.Lib.SeqOps
import Qbitcoin.Lib.Simulation
import Mathlib.Algebra.Group.Nat.Defs

/-!
# prevector

`prevector<N, T>` of `prevector.h`, a drop-in replacement for `std::vector<T>`
that keeps up to `N` elements in the object itself.  The field `_size` is both
the element count and the tag: at most `N` means the elements are in
`_union.direct`, and otherwise they are in the heap block
`_union.indirect_contents.indirect` and `_size` is the count plus `N + 1`.

The union's two views are kept as two fields.  The code reads a view only
while `_size` selects it, so no write through one view is read through the
other; moving between them is the `memcpy` of `change_capacity`.

`size_type` is `uint32_t` (the default `Size`), and every assignment to a
`size_type` keeps its wrap modulo `2 ^ 32` (`toSizeType`).  The wrap is not
harmless: growing past `2 ^ 32` elements, or by half of a size above
`2 ^ 33 / 3`, gives a `_size` or a capacity that no longer describes the
storage.

The members take their `const T&` arguments as objects that are not elements
of the same prevector, except `insertRead`, which reads its argument where
`insert(pos, value)` does, after the tail has moved, and `pushBackOwn`, whose
argument is read after a reallocation may have freed it.
-/

namespace Qbitcoin

open Memory

/-- A value assigned to a `size_type`, which is `uint32_t`. -/
def toSizeType (x : Nat) : Nat := x % 2 ^ 32

theorem toSizeType_of_lt {x : Nat} (small : x < 2 ^ 32) : toSizeType x = x := Nat.mod_eq_of_lt small

/-- `_union.indirect_contents`: the heap block and the number of elements it has room for. -/
structure IndirectContents (T : Type) where
  indirect : Nat → Option T
  capacity : Nat

/-- The fields of a `prevector<N, T>`: the `N` inline slots of `_union.direct`, the heap view of the union,
and `_size`. -/
structure Prevector (N : Nat) (T : Type) where
  direct : Nat → Option T
  indirect_contents : IndirectContents T
  _size : Nat

namespace Prevector

variable {N : Nat} {T : Type}

/-- `prevector()`: a zeroed union and `_size = 0`. -/
def fresh : Prevector N T := ⟨alloc, ⟨alloc, 0⟩, 0⟩

/-- `is_direct()`. -/
def isDirect (v : Prevector N T) : Bool := decide (v._size ≤ N)

/-- `size()`. -/
def size (v : Prevector N T) : Nat := if v.isDirect then v._size else v._size - N - 1

/-- `capacity()`. -/
def capacity (v : Prevector N T) : Nat := if v.isDirect then N else v.indirect_contents.capacity

/-- `empty()`. -/
def empty (v : Prevector N T) : Bool := v.size == 0

/-- The storage `item_ptr` points into: the inline slots or the heap block, as `is_direct()` says. -/
def items (v : Prevector N T) : Nat → Option T :=
  if v.isDirect then v.direct else v.indirect_contents.indirect

/-- The object after a write through `item_ptr`, to the storage `is_direct()` selects. -/
def setItems (v : Prevector N T) (b : Nat → Option T) : Prevector N T :=
  if v.isDirect then { v with direct := b } else { v with indirect_contents.indirect := b }

/-- `operator[](pos)`. -/
def get (v : Prevector N T) (pos : Nat) : Option T := v.items pos

/-- `_size += n`. -/
def addSize (v : Prevector N T) (n : Nat) : Prevector N T := { v with _size := toSizeType (v._size + n) }

/-- `change_capacity(new_capacity)`.  Back to the inline slots, the elements are copied there and the heap
block freed; from the heap block to a larger or smaller one, `realloc` keeps what fits in both; from the
inline slots, the elements are copied to a new block and `_size` moves up by `N + 1`. -/
def changeCapacity (v : Prevector N T) (new_capacity : Nat) : Prevector N T :=
  if new_capacity ≤ N then
    if !v.isDirect then
      { v with direct := copy v.direct 0 v.indirect_contents.indirect 0 v.size, _size := v._size - (N + 1) }
    else v
  else if !v.isDirect then
    { v with indirect_contents :=
        ⟨copy alloc 0 v.indirect_contents.indirect 0 (min v.indirect_contents.capacity new_capacity), new_capacity⟩ }
  else
    { v with indirect_contents := ⟨copy alloc 0 v.direct 0 v.size, new_capacity⟩,
             _size := toSizeType (v._size + (N + 1)) }

/-- `erase(first, last)`, with positions for the iterators.  The pointers are taken before `_size` goes
down, and the tail moves down over the erased elements. -/
def erase (v : Prevector N T) (first last : Nat) : Prevector N T :=
  let moved := copy v.items first v.items last (v.size - last)
  { v.setItems moved with _size := v._size - (last - first) }

/-- `pop_back()`. -/
def popBack (v : Prevector N T) : Prevector N T := v.erase (v.size - 1) v.size

/-- `resize(new_size)`: new elements are value-initialized, `T{}`. -/
def resize [Inhabited T] (v : Prevector N T) (new_size : Nat) : Prevector N T :=
  let cur_size := v.size
  if cur_size = new_size then v
  else if cur_size > new_size then v.erase new_size cur_size
  else
    let v := if new_size > v.capacity then v.changeCapacity new_size else v
    let increase := new_size - cur_size
    (v.setItems (fill v.items cur_size increase default)).addSize increase

/-- `clear()`. -/
def clear [Inhabited T] (v : Prevector N T) : Prevector N T := v.resize 0

/-- `reserve(new_capacity)`. -/
def reserve (v : Prevector N T) (new_capacity : Nat) : Prevector N T :=
  if new_capacity > v.capacity then v.changeCapacity new_capacity else v

/-- `shrink_to_fit()`. -/
def shrinkToFit (v : Prevector N T) : Prevector N T := v.changeCapacity v.size

/-- `assign(n, val)`.  `fill` looks the storage up after `_size` has grown. -/
def assign [Inhabited T] (v : Prevector N T) (n : Nat) (val : T) : Prevector N T :=
  let v := v.clear
  let v := if v.capacity < n then v.changeCapacity n else v
  let v := v.addSize n
  v.setItems (fill v.items 0 n val)

/-- `assign(first, last)`, with the range as the `len` objects of the block `src`.  `n` is the length
converted to `size_type`; the copy takes the whole range. -/
def assignRange [Inhabited T] (v : Prevector N T) (src : Nat → Option T) (len : Nat) : Prevector N T :=
  let n := toSizeType len
  let v := v.clear
  let v := if v.capacity < n then v.changeCapacity n else v
  let v := v.addSize n
  v.setItems (copy v.items 0 src 0 len)

/-- `prevector(const prevector& other)`. -/
def copyConstruct (other : Prevector N T) : Prevector N T :=
  let n := other.size
  let v := (fresh : Prevector N T).changeCapacity n
  let v := v.addSize n
  v.setItems (copy v.items 0 other.items 0 n)

/-- What `insert` and `emplace_back` do before they write: grow by half when `new_size` does not fit. -/
def growFor (v : Prevector N T) (new_size : Nat) : Prevector N T :=
  if v.capacity < new_size then v.changeCapacity (toSizeType (new_size + new_size / 2)) else v

/-- `insert(pos, value)`, with `p` the position of `pos`: the tail moves one slot up and `value` is
constructed at `ptr`, which was taken before `_size` grew.  `value` is a reference, read where the code reads
it, after the tail has moved: `read` gives the object it refers to from the storage then.  A reference to an
object elsewhere reads as that object; one to this prevector's element `k` reads slot `k`, as long as the
storage has not been reallocated. -/
def insertRead (v : Prevector N T) (p : Nat) (read : (Nat → Option T) → Option T) : Prevector N T :=
  let v := v.growFor (toSizeType (v.size + 1))
  let moved := copy v.items (p + 1) v.items p (v.size - p)
  (v.setItems (write moved p (read moved))).addSize 1

/-- `insert(pos, value)` for a `value` that is not an element of this prevector. -/
def insert (v : Prevector N T) (p : Nat) (value : T) : Prevector N T := v.insertRead p fun _ => some value

/-- `insert(pos, count, value)`.  Here `fill` looks the storage up again, after `_size` has grown. -/
def insertCount (v : Prevector N T) (p count : Nat) (value : T) : Prevector N T :=
  let v := v.growFor (toSizeType (v.size + count))
  let v := (v.setItems (copy v.items (p + count) v.items p (v.size - p))).addSize count
  v.setItems (fill v.items p count value)

/-- `insert(pos, first, last)`, with the range as the `count` objects of the block `src`; the objects
are copied to `ptr`, taken before `_size` grew. -/
def insertRange (v : Prevector N T) (p : Nat) (src : Nat → Option T) (count : Nat) : Prevector N T :=
  let v := v.growFor (toSizeType (v.size + count))
  let moved := copy (copy v.items (p + count) v.items p (v.size - p)) p src 0 count
  (v.setItems moved).addSize count

/-- `resize_uninitialized(new_size)`: the new elements are left as the storage holds them. -/
def resizeUninitialized (v : Prevector N T) (new_size : Nat) : Prevector N T :=
  if v.capacity < new_size then
    let v := v.changeCapacity new_size
    v.addSize (new_size - v.size)
  else if new_size < v.size then v.erase new_size v.size
  else v.addSize (new_size - v.size)

/-- `emplace_back(args...)`, with `x` the object `args` construct; `push_back` calls it. -/
def emplaceBack (v : Prevector N T) (x : T) : Prevector N T :=
  let v := v.growFor (toSizeType (v.size + 1))
  (v.setItems (write v.items v.size (some x))).addSize 1

/-- `push_back(v[k])`, with a reference to this prevector's own element `k`: `emplace_back` reads it after
the growth step.  Without a reallocation the slot still holds the element.  With one, the reference points
into the heap block `realloc` freed, or into the inline slots the union now uses for the heap pointer: the
read is undefined behaviour, `none` here. -/
def pushBackOwn (v : Prevector N T) (k : Nat) : Option (Prevector N T) :=
  if v.capacity < toSizeType (v.size + 1) then none
  else (v.get k).map v.emplaceBack

/-- `operator[](pos) = x`. -/
def set (v : Prevector N T) (pos : Nat) (x : T) : Prevector N T := v.setItems (write v.items pos (some x))

/-- The caller's loop after `resize_uninitialized`: `v[pos + k] = xs[k]` for each `k`. -/
def setFrom (v : Prevector N T) (pos : Nat) : List T → Prevector N T
  | [] => v
  | x :: xs => (v.set pos x).setFrom (pos + 1) xs

/-- What `prevector(prevector&& other)` and `operator=(prevector&&)` leave in `other`: the object that
takes `other`'s union and `_size` is `other` itself, and `other._size` is set to 0. -/
def movedFrom (other : Prevector N T) : Prevector N T := { other with _size := 0 }

/-! ## The two storages -/

variable {v : Prevector N T} {b : Nat → Option T}

theorem size_of_direct (direct : v.isDirect = true) : v.size = v._size := if_pos direct

theorem size_of_indirect (indirect : v.isDirect = false) : v.size = v._size - N - 1 := if_neg (by simp [indirect])

theorem capacity_of_direct (direct : v.isDirect = true) : v.capacity = N := if_pos direct

theorem capacity_of_indirect (indirect : v.isDirect = false) : v.capacity = v.indirect_contents.capacity :=
  if_neg (by simp [indirect])

theorem items_of_direct (direct : v.isDirect = true) : v.items = v.direct := if_pos direct

theorem items_of_indirect (indirect : v.isDirect = false) : v.items = v.indirect_contents.indirect :=
  if_neg (by simp [indirect])

theorem isDirect_iff : v.isDirect = true ↔ v._size ≤ N := decide_eq_true_iff

/-- An indirect `_size` is the element count plus `N + 1`. -/
theorem size_add_of_indirect (indirect : v.isDirect = false) : v._size = v.size + N + 1 := by
  have above : ¬v._size ≤ N := fun below => by simp [isDirect, below] at indirect
  rw [size_of_indirect indirect]
  omega

@[simp] theorem isDirect_setItems : (v.setItems b).isDirect = v.isDirect := by
  unfold setItems
  split <;> rfl

@[simp] theorem _size_setItems : (v.setItems b)._size = v._size := by
  unfold setItems
  split <;> rfl

@[simp] theorem size_setItems : (v.setItems b).size = v.size := by
  unfold setItems
  split <;> rfl

@[simp] theorem capacity_setItems : (v.setItems b).capacity = v.capacity := by
  unfold setItems
  split <;> rfl

@[simp] theorem items_setItems : (v.setItems b).items = b := by
  unfold setItems
  cases direct : v.isDirect
  · exact items_of_indirect direct
  · exact items_of_direct direct

/-- `_size += n` keeps the storage, and adds `n` to the count, when the `n` elements fit the capacity and the
tagged count does not wrap. -/
theorem isDirect_addSize {n : Nat} (room : v.size + n ≤ v.capacity) (noWrap : v.size + n + N + 1 < 2 ^ 32) :
    (v.addSize n).isDirect = v.isDirect := by
  cases direct : v.isDirect
  · have tagged := size_add_of_indirect direct
    rw [Bool.eq_false_iff, ne_eq, isDirect_iff]
    simp only [addSize, toSizeType]
    omega
  · rw [size_of_direct direct, capacity_of_direct direct] at room
    rw [isDirect_iff]
    simp only [addSize, toSizeType]
    omega

theorem size_addSize {n : Nat} (room : v.size + n ≤ v.capacity) (noWrap : v.size + n + N + 1 < 2 ^ 32) :
    (v.addSize n).size = v.size + n := by
  have kept := isDirect_addSize room noWrap
  cases direct : v.isDirect
  · have tagged := size_add_of_indirect direct
    rw [size_of_indirect (kept.trans direct), size_of_indirect direct]
    simp only [addSize, toSizeType]
    omega
  · rw [size_of_direct (kept.trans direct), size_of_direct direct]
    simp only [addSize, toSizeType]
    rw [size_of_direct direct, capacity_of_direct direct] at room
    omega

theorem capacity_addSize {n : Nat} (room : v.size + n ≤ v.capacity) (noWrap : v.size + n + N + 1 < 2 ^ 32) :
    (v.addSize n).capacity = v.capacity := by
  have kept := isDirect_addSize room noWrap
  unfold capacity
  rw [kept]
  rfl

theorem items_addSize {n : Nat} (room : v.size + n ≤ v.capacity) (noWrap : v.size + n + N + 1 < 2 ^ 32) :
    (v.addSize n).items = v.items := by
  have kept := isDirect_addSize room noWrap
  unfold items
  rw [kept]
  rfl

/-- `change_capacity(c)` to at least `size()` elements keeps them, and leaves the storage `c` asks for:
inline for `c ≤ N`, with capacity `N`, and a heap block of `c` elements otherwise. -/
theorem changeCapacity_spec {c : Nat} (room : v.size ≤ v.capacity) (enough : v.size ≤ c)
    (noWrap : v.size + N + 1 < 2 ^ 32) :
    (v.changeCapacity c).isDirect = decide (c ≤ N) ∧ (v.changeCapacity c).size = v.size ∧
      (v.changeCapacity c).capacity = max c N ∧ ∀ k < v.size, (v.changeCapacity c).items k = v.items k := by
  generalize shape : v.changeCapacity c = w
  cases direct : v.isDirect
  · have tagged := size_add_of_indirect direct
    rw [capacity_of_indirect direct] at room
    rw [items_of_indirect direct]
    by_cases small : c ≤ N
    · simp only [changeCapacity, if_pos small, direct, Bool.not_false, if_true] at shape
      have back : w.isDirect = true := by
        rw [← shape, isDirect_iff]
        dsimp only
        omega
      rw [back, size_of_direct back, capacity_of_direct back, items_of_direct back, ← shape]
      dsimp only
      refine ⟨by simp [small], by omega, by omega, fun k inside => ?_⟩
      rw [copy_start (by omega)]
    · simp only [changeCapacity, if_neg small, direct, Bool.not_false, if_true] at shape
      have still : w.isDirect = false := by
        rw [← shape]
        exact direct
      rw [still, size_of_indirect still, capacity_of_indirect still, items_of_indirect still, ← shape]
      dsimp only
      refine ⟨by simp [small], by omega, by omega, fun k inside => ?_⟩
      rw [copy_start (by omega)]
  · have inline := size_of_direct direct
    rw [capacity_of_direct direct] at room
    by_cases small : c ≤ N
    · simp only [changeCapacity, if_pos small, direct, Bool.not_true, Bool.false_eq_true, if_false] at shape
      rw [← shape, direct, capacity_of_direct direct]
      exact ⟨by simp [small], rfl, by omega, fun k _ => rfl⟩
    · simp only [changeCapacity, if_neg small, direct, Bool.not_true, Bool.false_eq_true, if_false] at shape
      have moved : w.isDirect = false := by
        rw [Bool.eq_false_iff, ne_eq, isDirect_iff, ← shape]
        dsimp only [toSizeType]
        omega
      rw [moved, size_of_indirect moved, capacity_of_indirect moved, items_of_indirect moved, items_of_direct direct,
        ← shape]
      dsimp only [toSizeType]
      refine ⟨by simp [small], by omega, by omega, fun k inside => ?_⟩
      rw [copy_start (by omega)]

@[simp] theorem setItems_setItems {b' : Nat → Option T} : (v.setItems b).setItems b' = v.setItems b' := by
  rw [setItems, isDirect_setItems]
  unfold setItems
  cases v.isDirect <;> rfl

/-- Writing and then growing `_size` is growing and then writing, when the storage stays. -/
theorem addSize_setItems {n : Nat} (room : v.size + n ≤ v.capacity) (noWrap : v.size + n + N + 1 < 2 ^ 32) :
    (v.addSize n).setItems b = (v.setItems b).addSize n := by
  have kept := isDirect_addSize room noWrap
  unfold setItems
  rw [kept]
  cases v.isDirect <;> rfl

/-! ## What a prevector holds -/

/-- No `size_type` arithmetic on a prevector of `n` elements wraps: neither `n + (n >> 1)`, the capacity
`insert` and `emplace_back` grow to, nor the tagged `_size`, `n + N + 1`. -/
def SizeFits (N n : Nat) : Prop := n + n / 2 + N + 1 < 2 ^ 32

instance (N n : Nat) : Decidable (SizeFits N n) := inferInstanceAs (Decidable (_ < _))

/-- `v` holds the elements of `l`: `size() ≤ capacity()`, no `size_type` arithmetic wraps at this size,
`size()` is the length of `l`, and `operator[](i)` reads `l[i]` below it. -/
structure Refines (v : Prevector N T) (l : List T) : Prop where
  size_le : v.size ≤ v.capacity
  size_fits : SizeFits N v.size
  size_eq : v.size = l.length
  get_eq : ∀ i, i < l.length → v.get i = l[i]?

variable {l : List T}

theorem Refines.items_eq (r : v.Refines l) {i : Nat} (inside : i < l.length) : v.items i = l[i]? :=
  r.get_eq i inside

theorem SizeFits.mono {n m : Nat} (fits : SizeFits N n) (smaller : m ≤ n) : SizeFits N m := by
  unfold SizeFits at *
  omega

/-- The tagged `_size` of `n` elements on the heap, `n + N + 1`, does not wrap. -/
theorem SizeFits.tagged {n : Nat} (fits : SizeFits N n) : n + N + 1 < 2 ^ 32 := by
  unfold SizeFits at fits
  omega

/-- The capacity `insert` and `emplace_back` grow to, `n + (n >> 1)`, does not wrap. -/
theorem SizeFits.grown {n : Nat} (fits : SizeFits N n) : n + n / 2 < 2 ^ 32 := by
  unfold SizeFits at fits
  omega

theorem fresh_refines (inline : N + 1 < 2 ^ 32) : (fresh : Prevector N T).Refines [] where
  size_le := by simp [size, capacity, isDirect, fresh]
  size_fits := by simp only [SizeFits, size, isDirect, fresh]; simp; omega
  size_eq := by simp [size, isDirect, fresh]
  get_eq := fun i inside => absurd inside (Nat.not_lt_zero i)

/-- A moved-from prevector is empty. -/
theorem Refines.movedFrom (r : v.Refines l) : v.movedFrom.Refines [] where
  size_le := by simp [size, capacity, isDirect, Prevector.movedFrom]
  size_fits := r.size_fits.mono (by simp [size, isDirect, Prevector.movedFrom])
  size_eq := by simp [size, isDirect, Prevector.movedFrom]
  get_eq := fun i inside => absurd inside (Nat.not_lt_zero i)

theorem Refines.changeCapacity (r : v.Refines l) {c : Nat} (enough : l.length ≤ c) :
    (v.changeCapacity c).Refines l := by
  have length := r.size_eq
  obtain ⟨-, sized, capacity, kept⟩ := changeCapacity_spec r.size_le (r.size_eq ▸ enough) r.size_fits.tagged
  refine ⟨by omega, sized ▸ r.size_fits, sized.trans r.size_eq, fun i inside => ?_⟩
  rw [get, kept i (by rw [r.size_eq]; exact inside)]
  exact r.get_eq i inside

theorem Refines.capacity_changeCapacity (r : v.Refines l) {c : Nat} (enough : l.length ≤ c) :
    c ≤ (v.changeCapacity c).capacity := by
  have length := r.size_eq
  obtain ⟨-, -, capacity, -⟩ := changeCapacity_spec r.size_le (r.size_eq ▸ enough) r.size_fits.tagged
  omega

/-- The growth step of `insert` and `emplace_back` keeps the elements and leaves room for `n` more. -/
theorem Refines.growFor (r : v.Refines l) {n : Nat} (fits : SizeFits N (l.length + n)) :
    (v.growFor (toSizeType (v.size + n))).Refines l ∧ l.length + n ≤ (v.growFor (toSizeType (v.size + n))).capacity := by
  have exact : toSizeType (v.size + n) = l.length + n := by
    rw [r.size_eq, toSizeType_of_lt (by have := fits.tagged; omega)]
  unfold Prevector.growFor
  rw [exact]
  split_ifs with short
  · rw [toSizeType_of_lt fits.grown]
    refine ⟨r.changeCapacity (by omega), ?_⟩
    have := r.capacity_changeCapacity (c := l.length + n + (l.length + n) / 2) (by omega)
    omega
  · exact ⟨r, by omega⟩

/-- The shape of every member that writes new contents and then grows `_size` by `n`: the result holds
whatever list `b` reads below the new size. -/
theorem Refines.setItems_addSize {w : Prevector N T} (r : w.Refines l) {n : Nat} (room : l.length + n ≤ w.capacity)
    (fits : SizeFits N (l.length + n)) {l' : List T} (length : l'.length = l.length + n)
    (reads : ∀ k, k < l'.length → b k = l'[k]?) : ((w.setItems b).addSize n).Refines l' := by
  have room' : (w.setItems b).size + n ≤ (w.setItems b).capacity := by
    rw [size_setItems, capacity_setItems, r.size_eq]
    exact room
  have noWrap : (w.setItems b).size + n + N + 1 < 2 ^ 32 := by
    rw [size_setItems, r.size_eq]
    exact fits.tagged
  have sized : ((w.setItems b).addSize n).size = l'.length := by
    rw [size_addSize room' noWrap, size_setItems, r.size_eq, length]
  refine ⟨?_, ?_, sized, fun i inside => ?_⟩
  · rw [capacity_addSize room' noWrap, sized, length, capacity_setItems]
    exact room
  · rw [sized, length]
    exact fits
  · rw [get, items_addSize room' noWrap, items_setItems]
    exact reads i inside

/-! ## The members, one by one -/

theorem Refines.emplaceBack (r : v.Refines l) (x : T) (fits : SizeFits N (l.length + 1)) :
    (v.emplaceBack x).Refines (l ++ [x]) := by
  obtain ⟨grown, room⟩ := r.growFor fits
  dsimp only [Prevector.emplaceBack]
  apply grown.setItems_addSize room fits (by simp)
  intro k inside
  rw [List.length_append, List.length_singleton] at inside
  rw [grown.size_eq]
  by_cases old : k < l.length
  · rw [write_of_ne (by omega), grown.items_eq old, List.getElem?_append_left old]
  · have last : k = l.length := by omega
    subst last
    rw [write_same, List.getElem?_append_right (Nat.le_refl _), Nat.sub_self]
    rfl

/-- `std::vector::push_back(v[k])` appends element `k`.  The prevector does the same exactly when it has
room for one more element; on a full prevector the reference is read after the reallocation. -/
theorem Refines.pushBackOwn (r : v.Refines l) {k : Nat} (inside : k < l.length)
    (fits : SizeFits N (l.length + 1)) :
    (v.pushBackOwn k = none ↔ l.length = v.capacity) ∧
      ∀ w, v.pushBackOwn k = some w → w.Refines (l ++ [l[k]]) := by
  have exact : toSizeType (v.size + 1) = l.length + 1 := by
    rw [r.size_eq, toSizeType_of_lt (by have := fits.tagged; omega)]
  have room := r.size_le
  rw [r.size_eq] at room
  unfold Prevector.pushBackOwn
  rw [exact, r.get_eq k inside, List.getElem?_eq_getElem inside, Option.map_some]
  split_ifs with full
  · exact ⟨iff_of_true rfl (by omega), fun w undefined => absurd undefined (by simp)⟩
  · refine ⟨iff_of_false (by simp) (by omega), fun w pushed => ?_⟩
    obtain rfl := Option.some_inj.mp pushed
    exact r.emplaceBack _ fits

theorem Refines.insert (r : v.Refines l) {p : Nat} (within : p ≤ l.length) (value : T)
    (fits : SizeFits N (l.length + 1)) : (v.insert p value).Refines (SeqOps.insertAt l p [value]) := by
  obtain ⟨grown, room⟩ := r.growFor fits
  dsimp only [Prevector.insert, Prevector.insertRead]
  apply grown.setItems_addSize room fits (by rw [SeqOps.length_insertAt within, List.length_singleton])
  intro k inside
  rw [SeqOps.length_insertAt within, List.length_singleton] at inside
  rw [SeqOps.getElem?_insertAt within, grown.size_eq, List.length_singleton]
  split_ifs with before here
  · rw [write_of_ne (by omega), copy_of_lt (by omega), grown.items_eq (by omega)]
  · have atPos : k = p := by omega
    subst atPos
    rw [write_same, Nat.sub_self]
    rfl
  · rw [write_of_ne (by omega), copy_of_mem ⟨by omega, by omega⟩, grown.items_eq (by omega)]
    congr 1
    omega

theorem Refines.insertCount (r : v.Refines l) {p : Nat} (within : p ≤ l.length) (count : Nat) (value : T)
    (fits : SizeFits N (l.length + count)) :
    (v.insertCount p count value).Refines (SeqOps.insertAt l p (List.replicate count value)) := by
  obtain ⟨grown, room⟩ := r.growFor fits
  dsimp only [Prevector.insertCount]
  generalize v.growFor (toSizeType (v.size + count)) = g at grown room ⊢
  generalize moved : copy g.items (p + count) g.items p (g.size - p) = b
  have room' : (g.setItems b).size + count ≤ (g.setItems b).capacity := by
    rw [size_setItems, capacity_setItems, grown.size_eq]
    exact room
  have noWrap' : (g.setItems b).size + count + N + 1 < 2 ^ 32 := by
    rw [size_setItems, grown.size_eq]
    exact fits.tagged
  rw [items_addSize room' noWrap', items_setItems, addSize_setItems room' noWrap', setItems_setItems]
  apply grown.setItems_addSize room fits (by rw [SeqOps.length_insertAt within, List.length_replicate])
  intro k inside
  rw [SeqOps.length_insertAt within, List.length_replicate] at inside
  rw [SeqOps.getElem?_insertAt within, List.length_replicate, ← moved, grown.size_eq]
  split_ifs with before here
  · rw [fill_of_not_mem (by omega), copy_of_lt (by omega), grown.items_eq (by omega)]
  · rw [fill_of_mem ⟨by omega, here⟩, List.getElem?_replicate, if_pos (by omega)]
  · rw [fill_of_not_mem (by omega), copy_of_mem ⟨by omega, by omega⟩, grown.items_eq (by omega)]
    congr 1
    omega

/-- `insert(pos, first, last)` for a range whose objects `src` reads as the list `m`. -/
theorem Refines.insertRange (r : v.Refines l) {p : Nat} (within : p ≤ l.length) {m : List T}
    {src : Nat → Option T} (source : ∀ k, k < m.length → src k = m[k]?) (fits : SizeFits N (l.length + m.length)) :
    (v.insertRange p src m.length).Refines (SeqOps.insertAt l p m) := by
  obtain ⟨grown, room⟩ := r.growFor fits
  dsimp only [Prevector.insertRange]
  apply grown.setItems_addSize room fits (SeqOps.length_insertAt within)
  intro k inside
  rw [SeqOps.length_insertAt within] at inside
  rw [SeqOps.getElem?_insertAt within, grown.size_eq]
  split_ifs with before here
  · rw [copy_of_lt before, copy_of_lt (by omega), grown.items_eq (by omega)]
  · rw [copy_of_mem ⟨by omega, here⟩, Nat.zero_add, source _ (by omega)]
  · rw [copy_of_le (by omega), copy_of_mem ⟨by omega, by omega⟩, grown.items_eq (by omega)]
    congr 1
    omega

/-- `_size -= m`, for at most `size()` elements, keeps the storage. -/
theorem shrink_spec {m : Nat} (within : m ≤ v.size) :
    ({ v with _size := v._size - m } : Prevector N T).isDirect = v.isDirect ∧
      ({ v with _size := v._size - m } : Prevector N T).size = v.size - m ∧
      ({ v with _size := v._size - m } : Prevector N T).capacity = v.capacity ∧
      ({ v with _size := v._size - m } : Prevector N T).items = v.items := by
  generalize shape : ({ v with _size := v._size - m } : Prevector N T) = w
  cases direct : v.isDirect
  · have tagged := size_add_of_indirect direct
    have still : w.isDirect = false := by
      rw [Bool.eq_false_iff, ne_eq, isDirect_iff, ← shape]
      dsimp only
      omega
    rw [still, size_of_indirect still, capacity_of_indirect still, items_of_indirect still,
      capacity_of_indirect direct, items_of_indirect direct, ← shape]
    dsimp only
    exact ⟨rfl, by omega, rfl, rfl⟩
  · have inline := size_of_direct direct
    have still : w.isDirect = true := by
      rw [isDirect_iff, ← shape]
      rw [isDirect_iff] at direct
      dsimp only
      omega
    rw [still, size_of_direct still, capacity_of_direct still, items_of_direct still,
      capacity_of_direct direct, items_of_direct direct, ← shape]
    dsimp only
    exact ⟨rfl, by omega, rfl, rfl⟩

theorem Refines.erase (r : v.Refines l) {first last : Nat} (valid : first ≤ last) (within : last ≤ l.length) :
    (v.erase first last).Refines (SeqOps.eraseRange l first last) := by
  unfold Prevector.erase
  generalize moved : copy v.items first v.items last (v.size - last) = b
  dsimp only
  rw [← _size_setItems (b := b)]
  obtain ⟨-, sized, capacity, items⟩ :=
    shrink_spec (v := v.setItems b) (m := last - first) (by rw [size_setItems, r.size_eq]; omega)
  have length := SeqOps.length_eraseRange (l := l) valid within
  refine ⟨?_, ?_, ?_, fun k inside => ?_⟩
  · rw [sized, capacity, size_setItems, capacity_setItems]
    exact Nat.le_trans (Nat.sub_le _ _) r.size_le
  · rw [sized]
    exact r.size_fits.mono (by simp)
  · rw [sized, size_setItems, r.size_eq, length]
  · rw [length] at inside
    rw [get, items, items_setItems, ← moved, SeqOps.getElem?_eraseRange valid within]
    split_ifs with before
    · rw [copy_of_lt before, r.items_eq (by omega)]
    · rw [copy_of_mem ⟨by omega, by rw [r.size_eq]; omega⟩, r.items_eq (by omega)]
      congr 1
      omega

theorem Refines.popBack (r : v.Refines l) (nonempty : l ≠ []) : v.popBack.Refines l.dropLast := by
  have positive := List.length_pos_iff.mpr nonempty
  have erased := r.erase (show l.length - 1 ≤ l.length by omega) (Nat.le_refl l.length)
  rw [Prevector.popBack, r.size_eq]
  simpa [SeqOps.eraseRange, List.dropLast_eq_take] using erased

/-- The members that write before `_size` grows, in the other order: growing first keeps the storage. -/
theorem Refines.setItems_of_addSize {w : Prevector N T} (r : w.Refines l) {n : Nat} (room : l.length + n ≤ w.capacity)
    (fits : SizeFits N (l.length + n)) {l' : List T} (length : l'.length = l.length + n)
    (reads : ∀ k, k < l'.length → b k = l'[k]?) : ((w.addSize n).setItems b).Refines l' := by
  rw [addSize_setItems (by rw [r.size_eq]; exact room) (by rw [r.size_eq]; exact fits.tagged)]
  exact r.setItems_addSize room fits length reads

theorem Refines.resize [Inhabited T] (r : v.Refines l) {n : Nat} (fits : SizeFits N n) :
    (v.resize n).Refines (SeqOps.resize l n default) := by
  unfold Prevector.resize
  dsimp only
  rw [r.size_eq]
  by_cases same : l.length = n
  · rw [if_pos same, ← same, SeqOps.resize_of_le (Nat.le_refl _), List.take_length]
    exact r
  rw [if_neg same]
  by_cases shorter : l.length > n
  · rw [if_pos shorter, SeqOps.resize_of_le (by omega)]
    simpa [SeqOps.eraseRange] using r.erase (show n ≤ l.length by omega) (Nat.le_refl l.length)
  · rw [if_neg shorter]
    have grown : (if n > v.capacity then v.changeCapacity n else v).Refines l ∧
        n ≤ (if n > v.capacity then v.changeCapacity n else v).capacity := by
      split_ifs with short
      · exact ⟨r.changeCapacity (by omega), r.capacity_changeCapacity (by omega)⟩
      · exact ⟨r, by omega⟩
    generalize (if n > v.capacity then v.changeCapacity n else v) = g at grown ⊢
    obtain ⟨grown, room⟩ := grown
    apply grown.setItems_addSize (by omega) (fits.mono (by omega)) (by simp; omega)
    intro k inside
    rw [SeqOps.length_resize] at inside
    rw [SeqOps.getElem?_resize, if_pos inside]
    split_ifs with old
    · rw [fill_of_not_mem (by omega), grown.items_eq old]
    · rw [fill_of_mem ⟨by omega, by omega⟩]

theorem Refines.clear [Inhabited T] (r : v.Refines l) : v.clear.Refines [] := by
  have cleared := r.resize (n := 0) (r.size_fits.mono (Nat.zero_le _))
  rw [Prevector.clear]
  simpa [SeqOps.resize] using cleared

theorem Refines.reserve (r : v.Refines l) (c : Nat) : (v.reserve c).Refines l := by
  unfold Prevector.reserve
  split_ifs with larger
  · exact r.changeCapacity (by have := r.size_le; have := r.size_eq; omega)
  · exact r

theorem Refines.shrinkToFit (r : v.Refines l) : v.shrinkToFit.Refines l :=
  r.changeCapacity (Nat.le_of_eq r.size_eq.symm)

/-- `clear()` and then `change_capacity(n)` unless `n` elements fit: an empty prevector with room for `n`. -/
theorem Refines.clear_reserve [Inhabited T] (r : v.Refines l) {n : Nat} :
    (if v.clear.capacity < n then v.clear.changeCapacity n else v.clear).Refines [] ∧
      n ≤ (if v.clear.capacity < n then v.clear.changeCapacity n else v.clear).capacity := by
  have cleared := r.clear
  split_ifs with short
  · exact ⟨cleared.changeCapacity (Nat.zero_le n), cleared.capacity_changeCapacity (Nat.zero_le n)⟩
  · exact ⟨cleared, by omega⟩

theorem Refines.assign [Inhabited T] (r : v.Refines l) {n : Nat} (val : T) (fits : SizeFits N n) :
    (v.assign n val).Refines (List.replicate n val) := by
  obtain ⟨cleared, room⟩ := r.clear_reserve (n := n)
  dsimp only [Prevector.assign]
  generalize (if v.clear.capacity < n then v.clear.changeCapacity n else v.clear) = g at cleared room ⊢
  apply cleared.setItems_of_addSize (by simpa using room) (by simpa using fits) (by simp)
  intro k inside
  rw [List.length_replicate] at inside
  rw [fill_of_mem ⟨Nat.zero_le k, by omega⟩, List.getElem?_replicate, if_pos inside]

/-- `assign(first, last)` for a range whose objects `src` reads as the list `m`. -/
theorem Refines.assignRange [Inhabited T] (r : v.Refines l) {m : List T} {src : Nat → Option T}
    (source : ∀ k, k < m.length → src k = m[k]?) (fits : SizeFits N m.length) :
    (v.assignRange src m.length).Refines m := by
  have exact : toSizeType m.length = m.length := toSizeType_of_lt (by have := fits.tagged; omega)
  obtain ⟨cleared, room⟩ := r.clear_reserve (n := m.length)
  dsimp only [Prevector.assignRange]
  rw [exact]
  generalize (if v.clear.capacity < m.length then v.clear.changeCapacity m.length else v.clear) = g at cleared room ⊢
  apply cleared.setItems_of_addSize (by simpa using room) (by simpa using fits) (by simp)
  intro k inside
  rw [copy_start inside]
  exact source k inside

theorem Refines.copyConstruct {other : Prevector N T} (r : other.Refines l) : other.copyConstruct.Refines l := by
  have fits := r.size_fits
  rw [r.size_eq] at fits
  have empty := fresh_refines (N := N) (T := T) (by have := fits.tagged; omega)
  have room := empty.capacity_changeCapacity (Nat.zero_le l.length)
  dsimp only [Prevector.copyConstruct]
  rw [r.size_eq]
  apply (empty.changeCapacity (Nat.zero_le _)).setItems_of_addSize (by simpa using room) (by simpa using fits) (by simp)
  intro k inside
  rw [copy_start (by simpa using inside)]
  exact r.items_eq inside

theorem setItems_items : v.setItems v.items = v := by
  unfold setItems items
  cases v.isDirect <;> rfl

/-- The caller's loop writes the objects of `xs` from `pos` on, as one copy would. -/
theorem setFrom_eq : ∀ (xs : List T) (v : Prevector N T) (pos : Nat),
    v.setFrom pos xs = v.setItems (copy v.items pos (ofList xs) 0 xs.length)
  | [], v, pos => by rw [setFrom, List.length_nil, copy_zero, setItems_items]
  | x :: xs, v, pos => by
    rw [setFrom, setFrom_eq xs, set, items_setItems, setItems_setItems]
    congr 1
    funext k
    by_cases here : k = pos
    · subst here
      rw [copy_of_lt (by omega), write_same, copy_of_mem ⟨Nat.le_refl _, by simp⟩, Nat.sub_self]
      rfl
    · unfold copy
      rw [write_of_ne here]
      by_cases later : pos + 1 ≤ k ∧ k < pos + 1 + xs.length
      · rw [if_pos later, if_pos ⟨by omega, by simp; omega⟩, ofList_apply, ofList_apply, Nat.zero_add, Nat.zero_add,
          show k - pos = (k - (pos + 1)) + 1 by omega, List.getElem?_cons_succ]
      · rw [if_neg later, if_neg (by simp; omega)]

/-- `resize_uninitialized` to more elements, with the new ones then written from `xs`. -/
theorem Refines.addSize_setFrom {w : Prevector N T} (r : w.Refines l) {m : Nat} (room : l.length + m ≤ w.capacity)
    (fits : SizeFits N (l.length + m)) {xs : List T} (written : xs.length = m) :
    ((w.addSize m).setFrom l.length xs).Refines (l ++ xs) := by
  rw [setFrom_eq, items_addSize (by rw [r.size_eq]; exact room) (by rw [r.size_eq]; exact fits.tagged)]
  apply r.setItems_of_addSize room fits (by simp [written])
  intro k inside
  by_cases old : k < l.length
  · rw [copy_of_lt old, r.items_eq old, List.getElem?_append_left old]
  · rw [List.length_append] at inside
    rw [copy_of_mem ⟨by omega, by omega⟩, Nat.zero_add, ofList_apply, List.getElem?_append_right (by omega)]

theorem Refines.resizeUninitialized (r : v.Refines l) {n : Nat} (fits : SizeFits N n) {xs : List T}
    (written : xs.length = n - l.length) : ((v.resizeUninitialized n).setFrom l.length xs).Refines (l.take n ++ xs) := by
  unfold Prevector.resizeUninitialized
  split_ifs with short shorter
  · have length := r.size_eq
    have room := r.size_le
    have moved := r.changeCapacity (c := n) (by omega)
    have grown := r.capacity_changeCapacity (c := n) (by omega)
    dsimp only
    rw [moved.size_eq, List.take_of_length_le (by omega)]
    exact moved.addSize_setFrom (by omega) (fits.mono (by omega)) written
  · rw [r.size_eq] at shorter ⊢
    have nothing : xs = [] := List.eq_nil_of_length_eq_zero (by omega)
    subst nothing
    rw [setFrom, List.append_nil]
    simpa [SeqOps.eraseRange] using r.erase (show n ≤ l.length by omega) (Nat.le_refl l.length)
  · rw [r.size_eq] at shorter ⊢
    rw [List.take_of_length_le (by omega)]
    exact r.addSize_setFrom (by have := r.size_eq; omega) (fits.mono (by omega)) written

theorem Refines.nonempty (r : v.Refines l) (notEmpty : v.empty = false) : l ≠ [] := by
  intro nothing
  have := r.size_eq
  simp only [empty, beq_eq_false_iff_ne, ne_eq] at notEmpty
  simp [nothing] at this
  exact notEmpty this

/-! ## Programs over prevectors, against `std::vector` -/

/-- A call on one of a family of prevectors indexed by `ι`: `pushBack` is `push_back` and `emplace_back`,
`resizeUninitialized i n xs` is `resize_uninitialized(n)` followed by writing the new elements from `xs`,
and the range members take their range as a list. -/
inductive Op (ι T : Type) where
  | pushBack (i : ι) (x : T)
  | popBack (i : ι)
  | insert (i : ι) (pos : Nat) (x : T)
  | insertCount (i : ι) (pos count : Nat) (x : T)
  | insertRange (i : ι) (pos : Nat) (xs : List T)
  | erase (i : ι) (first last : Nat)
  | resize (i : ι) (new_size : Nat)
  | resizeUninitialized (i : ι) (new_size : Nat) (xs : List T)
  | assign (i : ι) (n : Nat) (val : T)
  | assignRange (i : ι) (xs : List T)
  | reserve (i : ι) (new_capacity : Nat)
  | shrinkToFit (i : ι)
  | clear (i : ι)
  | swap (i j : ι)
  | copyConstruct (i j : ι)
  | moveConstruct (i j : ι)
  | copyAssign (i j : ι)
  | moveAssign (i j : ι)

section Store

variable {ι : Type} [DecidableEq ι] {s : ι → Prevector N T} {A : ι → List T}

variable [Inhabited T]

/-- One call.  A constructor call replaces the object at `i`; the moves take `other`'s union and `_size` and
leave `other._size = 0`, and `operator=(const prevector&)` returns at once when `other` is `*this`. -/
def exec : Op ι T → (ι → Prevector N T) → ι → Prevector N T
  | .pushBack i x, s => Function.update s i ((s i).emplaceBack x)
  | .popBack i, s => Function.update s i (s i).popBack
  | .insert i pos x, s => Function.update s i ((s i).insert pos x)
  | .insertCount i pos count x, s => Function.update s i ((s i).insertCount pos count x)
  | .insertRange i pos xs, s => Function.update s i ((s i).insertRange pos (ofList xs) xs.length)
  | .erase i first last, s => Function.update s i ((s i).erase first last)
  | .resize i new_size, s => Function.update s i ((s i).resize new_size)
  | .resizeUninitialized i new_size xs, s =>
    Function.update s i (((s i).resizeUninitialized new_size).setFrom (s i).size xs)
  | .assign i n val, s => Function.update s i ((s i).assign n val)
  | .assignRange i xs, s => Function.update s i ((s i).assignRange (ofList xs) xs.length)
  | .reserve i new_capacity, s => Function.update s i ((s i).reserve new_capacity)
  | .shrinkToFit i, s => Function.update s i (s i).shrinkToFit
  | .clear i, s => Function.update s i (s i).clear
  | .swap i j, s => Function.update (Function.update s i (s j)) j (s i)
  | .copyConstruct i j, s => Function.update s i (s j).copyConstruct
  | .moveConstruct i j, s | .moveAssign i j, s =>
    let s := Function.update s i (s j)
    Function.update s j (s j).movedFrom
  | .copyAssign i j, s => if i = j then s else Function.update s i ((s i).assignRange (s j).items (s j).size)

/-- What the members ask of their caller: `pop_back` on a prevector that is not empty, an insert position
in `[begin, end]`, a valid range to erase, one new element written for each that `resize_uninitialized`
adds, and a constructor's source that is another object. -/
def enabled : Op ι T → (ι → Prevector N T) → Bool
  | .popBack i, s => !(s i).empty
  | .insert i pos _, s | .insertCount i pos _ _, s | .insertRange i pos _, s => decide (pos ≤ (s i).size)
  | .erase i first last, s => decide (first ≤ last ∧ last ≤ (s i).size)
  | .resizeUninitialized i new_size xs, s => xs.length == new_size - (s i).size
  | .copyConstruct i j, _ | .moveConstruct i j, _ => decide (i ≠ j)
  | _, _ => true

/-- The calls after which no `size_type` arithmetic wraps: every size a prevector grows to fits. -/
def sizesFit : Op ι T → (ι → Prevector N T) → Bool
  | .pushBack i _, s | .insert i _ _, s => decide (SizeFits N ((s i).size + 1))
  | .insertCount i _ count _, s => decide (SizeFits N ((s i).size + count))
  | .insertRange i _ xs, s => decide (SizeFits N ((s i).size + xs.length))
  | .resize _ new_size, _ | .resizeUninitialized _ new_size _, _ | .assign _ new_size _, _ =>
    decide (SizeFits N new_size)
  | .assignRange _ xs, _ => decide (SizeFits N xs.length)
  | _, _ => true

/-- What `std::vector` does on the same calls.  A vector moved from by construction is empty; one moved from
by assignment is valid but unspecified. -/
def vectorStep (A : ι → List T) : Op ι T → (ι → List T) → Prop
  | .pushBack i x, A' => A' = Function.update A i (A i ++ [x])
  | .popBack i, A' => A' = Function.update A i (A i).dropLast
  | .insert i pos x, A' => A' = Function.update A i (SeqOps.insertAt (A i) pos [x])
  | .insertCount i pos count x, A' => A' = Function.update A i (SeqOps.insertAt (A i) pos (List.replicate count x))
  | .insertRange i pos xs, A' => A' = Function.update A i (SeqOps.insertAt (A i) pos xs)
  | .erase i first last, A' => A' = Function.update A i (SeqOps.eraseRange (A i) first last)
  | .resize i new_size, A' => A' = Function.update A i (SeqOps.resize (A i) new_size default)
  | .resizeUninitialized i new_size xs, A' => A' = Function.update A i ((A i).take new_size ++ xs)
  | .assign i n val, A' => A' = Function.update A i (List.replicate n val)
  | .assignRange i xs, A' => A' = Function.update A i xs
  | .reserve _ _, A' | .shrinkToFit _, A' => A' = A
  | .clear i, A' => A' = Function.update A i []
  | .swap i j, A' => A' = Function.update (Function.update A i (A j)) j (A i)
  | .copyConstruct i j, A' | .copyAssign i j, A' => A' = Function.update A i (A j)
  | .moveConstruct i j, A' => A' = Function.update (Function.update A i (A j)) j []
  | .moveAssign i j, A' => ∀ k, k ≠ j → A' k = Function.update A i (A j) k

/-- Every call a caller may make, with no `size_type` wrap, is a call of `std::vector` on the lists the
prevectors hold. -/
theorem exec_refines (op : Op ι T) (allowed : enabled op s = true ∧ sizesFit op s = true)
    (related : ∀ k, (s k).Refines (A k)) : ∃ A', vectorStep A op A' ∧ ∀ k, (exec op s k).Refines (A' k) := by
  obtain ⟨legal, fits⟩ := allowed
  cases op with
  | pushBack i x =>
    have fits : SizeFits N ((A i).length + 1) := by simpa [sizesFit, (related i).size_eq] using fits
    exact ⟨_, rfl, update_related related ((related i).emplaceBack x fits)⟩
  | popBack i =>
    have nonempty := (related i).nonempty (by simpa [enabled] using legal)
    exact ⟨_, rfl, update_related related ((related i).popBack nonempty)⟩
  | insert i pos x =>
    have within : pos ≤ (A i).length := by simpa [enabled, (related i).size_eq] using legal
    have fits : SizeFits N ((A i).length + 1) := by simpa [sizesFit, (related i).size_eq] using fits
    exact ⟨_, rfl, update_related related ((related i).insert within x fits)⟩
  | insertCount i pos count x =>
    have within : pos ≤ (A i).length := by simpa [enabled, (related i).size_eq] using legal
    have fits : SizeFits N ((A i).length + count) := by simpa [sizesFit, (related i).size_eq] using fits
    exact ⟨_, rfl, update_related related ((related i).insertCount within count x fits)⟩
  | insertRange i pos xs =>
    have within : pos ≤ (A i).length := by simpa [enabled, (related i).size_eq] using legal
    have fits : SizeFits N ((A i).length + xs.length) := by simpa [sizesFit, (related i).size_eq] using fits
    exact ⟨_, rfl, update_related related ((related i).insertRange within (fun _ _ => rfl) fits)⟩
  | erase i first last =>
    have valid : first ≤ last ∧ last ≤ (A i).length := by simpa [enabled, (related i).size_eq] using legal
    exact ⟨_, rfl, update_related related ((related i).erase valid.1 valid.2)⟩
  | resize i new_size =>
    have fits : SizeFits N new_size := by simpa [sizesFit] using fits
    exact ⟨_, rfl, update_related related ((related i).resize fits)⟩
  | resizeUninitialized i new_size xs =>
    have written : xs.length = new_size - (A i).length := by simpa [enabled, (related i).size_eq] using legal
    have fits : SizeFits N new_size := by simpa [sizesFit] using fits
    refine ⟨_, rfl, ?_⟩
    simp only [exec, (related i).size_eq]
    exact update_related related ((related i).resizeUninitialized fits written)
  | assign i n val =>
    have fits : SizeFits N n := by simpa [sizesFit] using fits
    exact ⟨_, rfl, update_related related ((related i).assign val fits)⟩
  | assignRange i xs =>
    have fits : SizeFits N xs.length := by simpa [sizesFit] using fits
    exact ⟨_, rfl, update_related related ((related i).assignRange (fun _ _ => rfl) fits)⟩
  | reserve i new_capacity =>
    refine ⟨A, rfl, fun k => ?_⟩
    rw [← Function.update_eq_self i A]
    exact update_related related ((related i).reserve new_capacity) k
  | shrinkToFit i =>
    refine ⟨A, rfl, fun k => ?_⟩
    rw [← Function.update_eq_self i A]
    exact update_related related (related i).shrinkToFit k
  | clear i => exact ⟨_, rfl, update_related related (related i).clear⟩
  | swap i j => exact ⟨_, rfl, update_related (update_related related (related j)) (related i)⟩
  | copyConstruct i j => exact ⟨_, rfl, update_related related (related j).copyConstruct⟩
  | moveConstruct i j =>
    have taken := update_related related (related j) (i := i)
    exact ⟨_, rfl, update_related taken (taken j).movedFrom⟩
  | copyAssign i j =>
    refine ⟨_, rfl, ?_⟩
    by_cases self : i = j
    · subst self
      simp only [exec, if_true, Function.update_eq_self]
      exact related
    · simp only [exec, if_neg self]
      have fits := (related j).size_fits
      rw [(related j).size_eq] at fits ⊢
      exact update_related related ((related i).assignRange (fun k _ => (related j).items_eq ‹_›) fits)
  | moveAssign i j =>
    have taken := update_related related (related j) (i := i)
    refine ⟨Function.update (Function.update A i (A j)) j [], fun k other => Function.update_of_ne other _ _, ?_⟩
    exact update_related taken (taken j).movedFrom

end Store

end Prevector

end Qbitcoin
