import InferenceServer.Lib.Delimited

/-!
# Keys for multi-modal inputs

`MultiModalHasher` turns a multi-modal item and the options of its processor into the key under which
the caches keep what was processed from it (`vllm/multimodal/hasher.py`). The hash function is fed a
stream of bytes: for every leaf of the nested value its path, then its serialisation, with nothing in
between and nothing that tells types apart. A list or a dictionary contributes its leaves only.

Arrays carry their type string and their shape in front of their data, which tells any two of them
apart as long as the type string determines the type and the buffer its elements. Neither holds of
every array: the type string of a record type leaves out its fields, and the buffer of an array of
objects holds addresses, as does the array that `np.array` makes of a large integer. NumPy is a
parameter of the development.
-/

namespace InferenceServer

/-- What the hasher uses of NumPy. -/
structure Numpy where
  DType : Type
  Elem : Type
  /-- `dtype.str`. -/
  str : DType → String
  itemsize : DType → Nat
  /-- An element in a buffer. -/
  elemBytes : DType → Elem → List UInt8
  /-- The address of an integer that fits no integer type. -/
  address : Int → Nat
  length_elemBytes : ∀ d e, (elemBytes d e).length = itemsize d
  /-- No type string starts with another one followed by an `n`: they end with a number, with the
  kind of the objects, or with a bracketed unit. -/
  str_delimited : ∀ d d' w,
    (str d).toByteArray.data.toList ≠ (str d').toByteArray.data.toList ++ 110 :: w

/-- A NumPy array, or a tensor as one. -/
structure NdArray (N : Numpy) where
  dtype : N.DType
  shape : List Nat
  /-- The elements in C order. -/
  elems : List N.Elem
  length_elems : elems.length = shape.prod
  shape_lt : ∀ n ∈ shape, n < 2 ^ 63

/-- An image in RGBA mode. -/
structure Image where
  height : Nat
  width : Nat
  pixels : List UInt8
  length_pixels : pixels.length = height * (width * 4)
  shape_lt : height < 2 ^ 63 ∧ width < 2 ^ 63

/-- The values that are hashed. Lists and tuples are one, floats are their 64 bits; the keys of a
dictionary come in the order of insertion. -/
inductive Datum (N : Numpy) where
  | str (s : String)
  | bytes (b : List UInt8)
  | bool (b : Bool)
  | int (n : Int)
  | float (bits : BitVec 64)
  | image (i : Image)
  | tensor (a : NdArray N)
  | ndarray (a : NdArray N)
  | list (elems : List (Datum N))
  | dict (entries : List (String × Datum N))

/-- `encode("utf-8")`. -/
def utf8 (s : String) : List UInt8 := s.toByteArray.data.toList

/-- The bytes of `np.array` of an integer. -/
def intBytes (N : Numpy) (n : Int) : List UInt8 :=
  if -2 ^ 63 ≤ n ∧ n < 2 ^ 63 then leBytes 8 (n % 2 ^ 64).toNat
  else if 0 ≤ n ∧ n < 2 ^ 64 then leBytes 8 n.toNat
  else leBytes 8 (N.address n)

/-- The leaves of the shape of an array. -/
def shapeBytes : Nat → List Nat → List UInt8
  | _, [] => []
  | i, n :: shape => utf8 ("ndarray.shape." ++ toString i) ++ leBytes 8 n ++ shapeBytes (i + 1) shape

/-- The leaves of an array: its type string, its shape and its data. -/
def arrayBytes (dtype : String) (shape : List Nat) (data : List UInt8) : List UInt8 :=
  utf8 "ndarray.dtype" ++ (utf8 dtype ++ (shapeBytes 0 shape ++ (utf8 "ndarray.data" ++ data)))

/-- The buffer of an array. -/
def NdArray.data {N : Numpy} (a : NdArray N) : List UInt8 := a.elems.flatMap (N.elemBytes a.dtype)

namespace Datum

variable {N : Numpy}

/-- `serialize_item`, for a value that is not a list or a dictionary. -/
def serializeItem : Datum N → List UInt8
  | str s => utf8 s
  | bytes b => b
  | bool b => [if b then 1 else 0]
  | int n => intBytes N n
  | float bits => leBytes 8 bits.toNat
  | image i => utf8 "image" ++ arrayBytes "|u1" [i.height, i.width, 4] i.pixels
  | tensor a => utf8 "tensor" ++ arrayBytes (N.str a.dtype) a.shape a.data
  | ndarray a => arrayBytes (N.str a.dtype) a.shape a.data
  | list _ => []
  | dict _ => []

mutual

/-- `iter_item_to_bytes`, the bytes of the paths and of the leaves put together. -/
def iterItemToBytes (key : String) : Datum N → List UInt8
  | list elems => iterElems key 0 elems
  | dict entries => iterEntries key entries
  | str s => utf8 key ++ serializeItem (str s : Datum N)
  | bytes b => utf8 key ++ serializeItem (bytes b : Datum N)
  | bool b => utf8 key ++ serializeItem (bool b : Datum N)
  | int n => utf8 key ++ serializeItem (int n : Datum N)
  | float bits => utf8 key ++ serializeItem (float bits : Datum N)
  | image i => utf8 key ++ serializeItem (image i : Datum N)
  | tensor a => utf8 key ++ serializeItem (tensor a)
  | ndarray a => utf8 key ++ serializeItem (ndarray a)

/-- The elements of a list, from the index `i` on. -/
def iterElems (key : String) : Nat → List (Datum N) → List UInt8
  | _, [] => []
  | i, elem :: elems =>
    iterItemToBytes (key ++ "." ++ toString i) elem ++ iterElems key (i + 1) elems

/-- The entries of a dictionary. -/
def iterEntries (key : String) : List (String × Datum N) → List UInt8
  | [] => []
  | (k, v) :: entries => iterItemToBytes (key ++ "." ++ k) v ++ iterEntries key entries

end

end Datum

/-- What `hash_kwargs` feeds to the hash function. -/
def hashKwargs {N : Numpy} (kwargs : List (String × Datum N)) : List UInt8 :=
  kwargs.flatMap fun e => e.2.iterItemToBytes e.1

/-- A multi-modal item with the options of its processor. A keyword is given once, and neither as
the model nor as the modality. -/
structure HashInput (N : Numpy) (modality : String) where
  item : Datum N
  kwargs : List (String × Datum N)
  nodup : (kwargs.map Prod.fst).Nodup
  fresh : ∀ k ∈ kwargs.map Prod.fst, k ≠ "model_id" ∧ k ≠ modality

/-- The stream of the call for an item and its options. -/
def HashInput.stream {N : Numpy} {modality : String} (modelId : String) (x : HashInput N modality) :
    List UInt8 :=
  hashKwargs (("model_id", .str modelId) :: (modality, x.item) :: x.kwargs)

/-! ## The leaves of arrays -/

theorem utf8_inj {s t : String} (h : utf8 s = utf8 t) : s = t :=
  String.toByteArray_inj.mp (ByteArray.ext (Array.toList_inj.mp h))

@[simp] theorem utf8_append (s t : String) : utf8 (s ++ t) = utf8 s ++ utf8 t := by
  simp [utf8]

end InferenceServer
