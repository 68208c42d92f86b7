import Mathlib.Algebra.BigOperators.Group.List.Basic
import Mathlib.Data.List.Range
import Mathlib.Tactic

/-!
# Strided arrays

An array is a window on a memory: its elements lie where the strides say, and several arrays may share
one memory, transposed, sliced or reversed. What an array *says* is another matter: its element type,
its shape, and its elements in row-major order. The first is `Strided`, the second `ArrayValue`.

An array is C-contiguous if its strides are those of the row-major layout. Its elements then follow one
another in memory, so that a buffer on its memory holds them in row-major order; this is the one fact
about layouts in this module. A dimension of one element may have any stride, and an array without
elements any strides at all.
-/

section Ranges

variable {α : Type}

/-- Counting by rows of `m`. -/
theorem flatMap_range_mul (f : Nat → α) (n m : Nat) :
    ((List.range n).flatMap fun i => (List.range m).map fun j => f (i * m + j)) =
      (List.range (n * m)).map f := by
  induction n with
  | zero => simp
  | succ n ih =>
    rw [List.range_succ, List.flatMap_append, ih, Nat.succ_mul, List.range_add, List.map_append,
      List.map_map, List.flatMap_singleton]
    rfl

theorem map_getD_range (l : List α) (a : α) :
    ((List.range l.length).map fun i => l.getD i a) = l := by
  refine List.ext_getElem (by simp) fun i _ hi => ?_
  rw [List.getElem_map, List.getElem_range, List.getD_eq_getElem?_getD, List.getElem?_eq_getElem hi]
  rfl

end Ranges

/-- What an array says: its element type, its shape, and the bytes of its elements in row-major
order. -/
structure ArrayValue {δ : Type} (itemsize : δ → Nat) where
  dtype : δ
  shape : List Nat
  bytes : List UInt8
  length_bytes : bytes.length = shape.prod * itemsize dtype

/-- An array in a memory. The strides are in bytes. -/
structure Strided (δ : Type) where
  dtype : δ
  shape : List Nat
  strides : List Int
  base : Int
  mem : Int → UInt8
  rank : strides.length = shape.length

/-- `n` bytes of a memory. -/
def readBytes (mem : Int → UInt8) (a : Int) (n : Nat) : List UInt8 :=
  (List.range n).map fun j : Nat => mem (a + j)

@[simp] theorem length_readBytes (mem : Int → UInt8) (a : Int) (n : Nat) :
    (readBytes mem a n).length = n := by simp [readBytes]

/-- The addresses of the elements in row-major order, from the first element. -/
def offsets : List Nat → List Int → List Int
  | [], _ => [0]
  | _ :: _, [] => []
  | n :: shape, s :: strides =>
    (List.range n).flatMap fun i : Nat => (offsets shape strides).map fun o => i * s + o

/-- Every stride is that of the row-major layout, up to dimensions of one element. -/
def rowMajor (itemsize : Nat) : List Nat → List Int → Bool
  | [], _ => true
  | _ :: _, [] => false
  | n :: shape, s :: strides =>
    (decide (n = 1) || decide (s = (shape.prod * itemsize : Nat))) && rowMajor itemsize shape strides

/-- The strides of the row-major layout. -/
def rowMajorStrides (itemsize : Nat) : List Nat → List Int
  | [] => []
  | _ :: shape => (shape.prod * itemsize : Nat) :: rowMajorStrides itemsize shape

theorem length_offsets {shape : List Nat} {strides : List Int}
    (hrank : strides.length = shape.length) : (offsets shape strides).length = shape.prod := by
  induction shape generalizing strides with
  | nil => rfl
  | cons n shape ih =>
    cases strides with
    | nil => simp at hrank
    | cons s strides =>
      have hsize : (offsets shape strides).length = shape.prod := ih (by simpa using hrank)
      rw [offsets, List.length_flatMap]
      simp [hsize]

/-- In a row-major layout the elements follow one another. -/
theorem offsets_of_rowMajor {itemsize : Nat} {shape : List Nat} {strides : List Int}
    (h : rowMajor itemsize shape strides = true) :
    offsets shape strides = (List.range shape.prod).map fun i => ((i * itemsize : Nat) : Int) := by
  induction shape generalizing strides with
  | nil => simp [offsets]
  | cons n shape ih =>
    cases strides with
    | nil => simp [rowMajor] at h
    | cons s strides =>
      simp only [rowMajor, Bool.and_eq_true, Bool.or_eq_true, decide_eq_true_eq] at h
      obtain ⟨hs, h⟩ := h
      rw [offsets, ih h, List.prod_cons, ← flatMap_range_mul]
      refine List.flatMap_congr fun i hi => ?_
      rw [List.map_map]
      refine List.map_congr_left fun j _ => ?_
      -- a dimension of one element only has the index zero
      have hrow : (i : Int) * s = ((i * (shape.prod * itemsize) : Nat) : Int) := by
        rcases hs with rfl | rfl
        · obtain rfl : i = 0 := by simpa using hi
          simp
        · push_cast
          rfl
      change (i : Int) * s + ((j * itemsize : Nat) : Int) = _
      rw [hrow]
      push_cast
      ring

theorem rowMajor_rowMajorStrides (itemsize : Nat) (shape : List Nat) :
    rowMajor itemsize shape (rowMajorStrides itemsize shape) = true := by
  induction shape with
  | nil => rfl
  | cons n shape ih => simp [rowMajor, rowMajorStrides, ih]

@[simp] theorem length_rowMajorStrides (itemsize : Nat) (shape : List Nat) :
    (rowMajorStrides itemsize shape).length = shape.length := by
  induction shape with
  | nil => rfl
  | cons n shape ih => simp [rowMajorStrides, ih]

namespace Strided

variable {δ : Type} (itemsize : δ → Nat) (a : Strided δ)

/-- The bytes of the elements in row-major order. -/
def tobytes : List UInt8 :=
  (offsets a.shape a.strides).flatMap fun o => readBytes a.mem (a.base + o) (itemsize a.dtype)

/-- The size of the elements in bytes. -/
def nbytes : Nat := a.shape.prod * itemsize a.dtype

theorem length_tobytes : (a.tobytes itemsize).length = a.nbytes itemsize := by
  unfold tobytes nbytes
  rw [List.length_flatMap]
  simp [length_offsets a.rank]

/-- What the array says. -/
def value : ArrayValue itemsize :=
  { dtype := a.dtype
    shape := a.shape
    bytes := a.tobytes itemsize
    length_bytes := a.length_tobytes itemsize }

/-- The array is laid out in row-major order, or has no elements. -/
def cContiguous : Bool :=
  decide (0 ∈ a.shape) || rowMajor (itemsize a.dtype) a.shape a.strides

/-- A buffer on the memory of a contiguous array. -/
def data : List UInt8 := readBytes a.mem a.base (a.nbytes itemsize)

variable {itemsize a}

/-- **The buffer of a contiguous array** holds its elements in row-major order. -/
theorem data_eq_tobytes (h : a.cContiguous itemsize = true) :
    a.data itemsize = a.tobytes itemsize := by
  simp only [cContiguous, Bool.or_eq_true, decide_eq_true_eq] at h
  rcases h with h | h
  · -- no element, no byte
    have hzero : a.nbytes itemsize = 0 := by
      rw [nbytes, List.prod_eq_zero h, Nat.zero_mul]
    have hnil : a.tobytes itemsize = [] :=
      List.eq_nil_of_length_eq_zero ((a.length_tobytes itemsize).trans hzero)
    rw [data, hzero, hnil]
    rfl
  · rw [tobytes, offsets_of_rowMajor h, List.flatMap_map, data, readBytes, nbytes,
      ← flatMap_range_mul]
    refine List.flatMap_congr fun i _ => List.map_congr_left fun j _ => ?_
    push_cast
    rw [add_assoc]

end Strided

namespace ArrayValue

variable {δ : Type} {itemsize : δ → Nat}

@[ext] theorem ext {d e : ArrayValue itemsize} (hdtype : d.dtype = e.dtype) (hshape : d.shape = e.shape)
    (hbytes : d.bytes = e.bytes) : d = e := by
  cases d
  cases e
  subst hdtype hshape hbytes
  rfl

/-- A contiguous array in a memory of its own. -/
def strided (d : ArrayValue itemsize) : Strided δ :=
  { dtype := d.dtype
    shape := d.shape
    strides := rowMajorStrides (itemsize d.dtype) d.shape
    base := 0
    mem := fun i => d.bytes.getD i.toNat 0
    rank := length_rowMajorStrides _ _ }

theorem cContiguous_strided (d : ArrayValue itemsize) : d.strided.cContiguous itemsize = true := by
  simp [Strided.cContiguous, strided, rowMajor_rowMajorStrides]

@[simp] theorem value_strided (d : ArrayValue itemsize) : d.strided.value itemsize = d := by
  refine ArrayValue.ext rfl rfl ?_
  change d.strided.tobytes itemsize = d.bytes
  rw [← Strided.data_eq_tobytes d.cContiguous_strided, Strided.data, readBytes]
  have hsize : d.strided.nbytes itemsize = d.bytes.length := d.length_bytes.symm
  rw [hsize]
  simpa [strided] using map_getD_range d.bytes 0

end ArrayValue
