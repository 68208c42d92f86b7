import InferenceServer.MultiModal.Inputs

/-!
# Messages of the engine

`MsgpackEncoder` and `MsgpackDecoder` (`vllm/v1/serial_utils.py`) teach msgpack the types it does not
know: tensors, arrays, slices and the keyword arguments of multi-modal models. The data of an array
goes into the message if it is small, and into a buffer of its own otherwise, in whose place the
message has its index; the first buffer is the message. The decoder has the declared type of the
message and builds the objects again. Below a `MultiModalKwargs` it has no types, and tells a tensor
from a list of tensors by the string in front, and a slice from a list of slices by what is not a list.

Pickling is off, as it is by default. msgpack itself is not modelled: a packed buffer *is* the native
value that it carries, in which a tuple is a list. NumPy and torch are parameters.
-/

namespace InferenceServer.Serial

open Outcome

/-- Native values of msgpack. -/
inductive Wire where
  | nil
  | number (n : PyNumber)
  | str (s : String)
  | bin (b : List UInt8)
  | ext (code : Nat) (data : List UInt8)
  | array (elems : List Wire)
  | map (entries : List (String × Wire))

/-- A buffer: a packed value, or the data of an array. -/
inductive Bytestr where
  | packed (w : Wire)
  | raw (data : List UInt8)

/-- What is used of NumPy. -/
structure Numpy where
  DType : Type
  /-- `dtype.str`. -/
  str : DType → String
  /-- `np.dtype(s)`. -/
  dtype : String → Option DType
  kind : DType → Char
  itemsize : DType → Nat
  /-- The buffer protocol has a format for the elements. -/
  exportsBuffer : DType → Bool

/-- What is used of torch. -/
structure Torch where
  DType : Type
  /-- `str(dtype)` without the name of the module. -/
  str : DType → String
  /-- `getattr(torch, s)`, if it is a dtype. -/
  getattr : String → Option DType
  itemsize : DType → Nat
  /-- `torch.stack`. -/
  stack : List (ArrayValue itemsize) → Except PyError (ArrayValue itemsize)
  /-- `torch.concat`. -/
  concat : Int → List (ArrayValue itemsize) → Except PyError (ArrayValue itemsize)
  /-- The tensors of the first dimension. -/
  iter : ArrayValue itemsize → Except PyError (List (ArrayValue itemsize))
  getattr_str : ∀ d, getattr (str d) = some d
  itemsize_pos : ∀ d, 0 < itemsize d

/-- `CUSTOM_TYPE_RAW_VIEW`. -/
def customTypeRawView : Nat := 3

/-- The index of the factory of a field in `MMF_CLASS_TO_FACTORY`. -/
def factoryName : MultiModalField → String
  | .flat .. => "flat"
  | .shared _ => "shared"
  | .batched => "batched"

/-! ## Tensors in memory -/

section Tensors

variable (T : Torch)

/-- A dense tensor. -/
abbrev Torch.Tensor := Strided T.DType

/-- What a tensor says. -/
abbrev Torch.TensorValue := ArrayValue T.itemsize

/-- The operations on what tensors say. -/
def Torch.valueOps : TensorOps T.TensorValue where
  shape t := t.shape
  unsqueeze t := { t with shape := 1 :: t.shape, length_bytes := by simpa using t.length_bytes }
  contiguous t := t
  stack := T.stack
  concat := T.concat
  iter := T.iter

/-- The operations on tensors; the results are in memory of their own. -/
def Torch.ops : TensorOps T.Tensor where
  shape t := t.shape
  unsqueeze t := (T.valueOps.unsqueeze (t.value T.itemsize)).strided
  contiguous t := (t.value T.itemsize).strided
  stack ts := ArrayValue.strided <$> T.stack (ts.map (·.value T.itemsize))
  concat dim ts := ArrayValue.strided <$> T.concat dim (ts.map (·.value T.itemsize))
  iter t := List.map ArrayValue.strided <$> T.iter (t.value T.itemsize)

/-- The operations only depend on what the tensors say. -/
theorem Torch.value_hom : TensorOps.Hom (Strided.value T.itemsize) T.ops T.valueOps where
  shape _ := rfl
  unsqueeze t := (ArrayValue.value_strided _).symm
  contiguous t := (ArrayValue.value_strided _).symm
  stack ts := by
    change T.stack _ = _ <$> (ArrayValue.strided <$> T.stack _)
    cases T.stack (ts.map (·.value T.itemsize)) with
    | error => rfl
    | ok t => exact congrArg Except.ok (ArrayValue.value_strided t).symm
  concat dim ts := by
    change T.concat dim _ = _ <$> (ArrayValue.strided <$> T.concat dim _)
    cases T.concat dim (ts.map (·.value T.itemsize)) with
    | error => rfl
    | ok t => exact congrArg Except.ok (ArrayValue.value_strided t).symm
  iter t := by
    change T.iter _ = _ <$> (List.map ArrayValue.strided <$> T.iter _)
    cases T.iter (t.value T.itemsize) with
    | error => rfl
    | ok ts =>
      refine congrArg Except.ok ?_
      simp [Function.comp_def]

end Tensors

/-! ## The encoder -/

section Encoder

variable (N : Numpy) (T : Torch) (sizeThreshold : Int)

/-- The data of an array, inline or in a buffer of its own. -/
def stash (inline : Bool) (data : List UInt8) (auxBuffers : List Bytestr) : Wire × List Bytestr :=
  if inline then (.ext customTypeRawView data, auxBuffers)
  else (.number (.int auxBuffers.length), auxBuffers ++ [.raw data])

def shapeWire (shape : List Nat) : Wire := .array (shape.map fun n : Nat => .number (.int n))

/-- `_encode_ndarray`, and the exclusion of objects and records in `enc_hook`. -/
def encodeNdarray (a : Strided N.DType) (auxBuffers : List Bytestr) :
    Except PyError (Wire × List Bytestr) := do
  require (N.kind a.dtype ≠ 'O' ∧ N.kind a.dtype ≠ 'V') .typeError
  -- a memoryview of the array, for which there has to be a buffer format
  require (a.cContiguous N.itemsize = true → N.exportsBuffer a.dtype = true) .valueError
  let arrData := if a.cContiguous N.itemsize then a.data N.itemsize else a.tobytes N.itemsize
  let (data, auxBuffers) :=
    stash (a.shape.isEmpty || decide ((a.nbytes N.itemsize : Int) < sizeThreshold)) arrData auxBuffers
  return (.array [.str (N.str a.dtype), shapeWire a.shape, data], auxBuffers)

/-- `_encode_tensor`. The bytes of a flattened tensor are those of its elements in row-major order. -/
def encodeTensor (t : T.Tensor) (auxBuffers : List Bytestr) : Wire × List Bytestr :=
  let (data, auxBuffers) :=
    stash (decide ((t.nbytes T.itemsize : Int) < sizeThreshold)) (t.tobytes T.itemsize) auxBuffers
  (.array [.str (T.str t.dtype), shapeWire t.shape, data], auxBuffers)

mutual

/-- `_encode_nested_tensors`. -/
def encodeNestedTensors : NestedTensors T.Tensor → List Bytestr → Wire × List Bytestr
  | .tensor t, auxBuffers => encodeTensor T sizeThreshold t auxBuffers
  | .number n, auxBuffers => (.number n, auxBuffers)
  | .list elems, auxBuffers =>
    let (ws, auxBuffers) := encodeNestedElems elems auxBuffers
    (.array ws, auxBuffers)

def encodeNestedElems : List (NestedTensors T.Tensor) → List Bytestr → List Wire × List Bytestr
  | [], auxBuffers => ([], auxBuffers)
  | elem :: elems, auxBuffers =>
    let (w, auxBuffers) := encodeNestedTensors elem auxBuffers
    let (ws, auxBuffers) := encodeNestedElems elems auxBuffers
    (w :: ws, auxBuffers)

end

/-- An integer or `None`. -/
def boundWire : Option Int → Wire
  | none => .nil
  | some n => .number (.int n)

/-- A slice, by `enc_hook`. -/
def sliceWire (s : Slice) : Wire := .array [boundWire s.start, boundWire s.stop, boundWire s.step]

mutual

def slicesWire : NestedSlices → Wire
  | .slice s => sliceWire s
  | .list elems => .array (slicesWireElems elems)

def slicesWireElems : List NestedSlices → List Wire
  | [] => []
  | elem :: elems => slicesWire elem :: slicesWireElems elems

end

/-- `_encode_mm_field`: the factory of the field and the values of its fields. -/
def encodeMmField (field : MultiModalField) : Wire :=
  .array (.str (factoryName field) :: match field with
    | .flat slices dim => [slicesWire slices, .number (.int dim)]
    | .shared batchSize => [.number (.int batchSize)]
    | .batched => [])

/-- An element as a dictionary. -/
def encodeElem (elem : MultiModalFieldElem T.Tensor) (auxBuffers : List Bytestr) :
    Wire × List Bytestr :=
  let (data, auxBuffers) := encodeNestedTensors T sizeThreshold elem.data auxBuffers
  (.map [("modality", .str elem.modality), ("key", .str elem.key), ("data", data),
    ("field", encodeMmField elem.field)], auxBuffers)

/-- Encode the elements of a list in order. -/
def encodeEach {α β : Type} (f : α → List Bytestr → β × List Bytestr) :
    List α → List Bytestr → List β × List Bytestr
  | [], auxBuffers => ([], auxBuffers)
  | a :: l, auxBuffers =>
    let (w, auxBuffers) := f a auxBuffers
    let (ws, auxBuffers) := encodeEach f l auxBuffers
    (w :: ws, auxBuffers)

def encodeItem (item : MultiModalKwargsItem T.Tensor) (auxBuffers : List Bytestr) :
    Wire × List Bytestr :=
  let (ws, auxBuffers) := encodeEach (encodeElem T sizeThreshold) item.elems auxBuffers
  (.array ws, auxBuffers)

/-- An entry of the main dictionary. -/
def encodeKwarg (e : String × NestedTensors T.Tensor) (auxBuffers : List Bytestr) :
    (String × Wire) × List Bytestr :=
  let (w, auxBuffers) := encodeNestedTensors T sizeThreshold e.2 auxBuffers
  ((e.1, w), auxBuffers)

/-- `MultiModalKwargs` in `enc_hook`. With items, the main dictionary is left out. -/
def encodeMmKwargs (mm : MultiModalKwargs T.Tensor) (auxBuffers : List Bytestr) :
    Wire × List Bytestr :=
  if mm.itemsByModality.entries.isEmpty then
    let (entries, auxBuffers) := encodeEach (encodeKwarg T sizeThreshold) mm.data.entries auxBuffers
    (.map entries, auxBuffers)
  else
    let (ws, auxBuffers) := encodeEach (encodeItem T sizeThreshold) mm.items auxBuffers
    (.array ws, auxBuffers)

end Encoder

/-! ## The decoder -/

section Decoder

variable (N : Numpy) (T : Torch) (bufs : List Bytestr)

/-- The data of an array: `ext_hook` for what is inline, else the buffer at the index. -/
def readBuffer : Wire → Except PyError (List UInt8)
  | .number (.int i) =>
    match pyGet? bufs i with
    | some (.raw data) => .ok data
    | some (.packed _) => .error .valueError
    | none => .error .indexError
  | .ext code data => if code = customTypeRawView then .ok data else .error .notImplementedError
  | _ => .error .typeError

/-- A dimension. No encoder sends a negative one. -/
def decodeDim : Wire → Except PyError Nat
  | .number (.int n) => if 0 ≤ n then .ok n.toNat else .error .valueError
  | _ => .error .typeError

def decodeShape : Wire → Except PyError (List Nat)
  | .array dims => dims.mapM decodeDim
  | _ => .error .typeError

/-- A row-major array on a buffer. -/
def fromBuffer {δ : Type} (itemsize : δ → Nat) (e : PyError) (dtype : δ) (shape : List Nat)
    (buffer : List UInt8) : Except PyError (Strided δ) :=
  if h : 0 < itemsize dtype ∧ buffer.length = shape.prod * itemsize dtype then
    .ok (⟨dtype, shape, buffer, h.2⟩ : ArrayValue itemsize).strided
  else .error e

/-- `_decode_ndarray`: `np.frombuffer(buffer, dtype=dtype).reshape(shape)`. -/
def decodeNdarray : Wire → Except PyError (Strided N.DType)
  | .array [.str dtype, shape, data] => do
    let buffer ← readBuffer bufs data
    let some dtype := N.dtype dtype | .error .typeError
    let shape ← decodeShape shape
    fromBuffer N.itemsize .valueError dtype shape buffer
  | .array [_, _, _] => .error .typeError
  | .array _ => .error .valueError
  | _ => .error .typeError

/-- `_decode_tensor`. -/
def decodeTensor : Wire → Except PyError T.Tensor
  | .array [.str dtype, shape, data] => do
    let buffer ← readBuffer bufs data
    let some dtype := T.getattr dtype | .error .attributeError
    let shape ← decodeShape shape
    if buffer.isEmpty then
      require (0 ∈ shape) (.assertionError .decodeTensor)
    fromBuffer T.itemsize .runtimeError dtype shape buffer
  | .array [_, _, _] => .error .typeError
  | .array _ => .error .valueError
  | _ => .error .typeError

mutual

/-- `_decode_nested_tensors`. -/
def decodeNestedTensors : Wire → Except PyError (NestedTensors T.Tensor)
  | .number n => .ok (.number n)
  | .array (.str dtype :: elems) => .tensor <$> decodeTensor T bufs (.array (.str dtype :: elems))
  | .array elems => .list <$> decodeNestedElems elems
  | _ => .error .typeError

def decodeNestedElems : List Wire → Except PyError (List (NestedTensors T.Tensor))
  | [] => .ok []
  | elem :: elems => do
    let t ← decodeNestedTensors elem
    let ts ← decodeNestedElems elems
    return t :: ts

end

/-- An argument of `slice`. -/
def decodeBound : Wire → Except PyError (Option Int)
  | .nil => .ok none
  | .number (.int n) => .ok (some n)
  | _ => .error .typeError

/-- `slice(*obj)`. -/
def decodeSlice : List Wire → Except PyError Slice
  | [stop] => do
    let stop ← decodeBound stop
    return ⟨none, stop, none⟩
  | [start, stop] => do
    let start ← decodeBound start
    let stop ← decodeBound stop
    return ⟨start, stop, none⟩
  | [start, stop, step] => do
    let start ← decodeBound start
    let stop ← decodeBound stop
    let step ← decodeBound step
    return ⟨start, stop, step⟩
  | _ => .error .typeError

mutual

/-- `_decode_nested_slices`. -/
def decodeNestedSlices : Wire → Except PyError NestedSlices
  | .array [] => .ok (.list [])
  | .array (.array elem :: elems) => do
    let s ← decodeNestedSlices (.array elem)
    let ss ← decodeSlicesElems elems
    return .list (s :: ss)
  | .array elems => .slice <$> decodeSlice elems
  | _ => .error (.assertionError .decodeNestedSlices)

def decodeSlicesElems : List Wire → Except PyError (List NestedSlices)
  | [] => .ok []
  | elem :: elems => do
    let s ← decodeNestedSlices elem
    let ss ← decodeSlicesElems elems
    return s :: ss

end

/-- The field made by the factory of `MultiModalFieldConfig`. -/
def decodeMmField : Wire → Except PyError MultiModalField
  | .array (.str "flat" :: args) =>
    match args with
    | [slices, .number (.int dim)] => do
      let slices ← decodeNestedSlices slices
      return .flat slices dim
    | [slices] => do
      let slices ← decodeNestedSlices slices
      return .flat slices 0
    | [] => .error .indexError
    | _ => .error .typeError
  | .array (.str "shared" :: args) =>
    match args with
    | [.number (.int batchSize)] => .ok (.shared batchSize)
    | _ => .error .typeError
  | .array (.str "batched" :: args) => if args.isEmpty then .ok .batched else .error .typeError
  | .array (.str _ :: _) => .error .attributeError
  | .array [] => .error .valueError
  | _ => .error .typeError

/-- The value of a string argument of `MultiModalFieldElem`. -/
def stringArg (entries : List (String × Wire)) (key : String) : Except PyError String :=
  match Dict.find entries key with
  | some (.str s) => .ok s
  | _ => .error .typeError

/-- An element of an item, in `_decode_mm_items`. -/
def decodeElem : Wire → Except PyError (MultiModalFieldElem T.Tensor)
  | .map entries => do
    let some data := Dict.find entries "data" | .error .keyError
    let data ← decodeNestedTensors T bufs data
    let some field := Dict.find entries "field" | .error .keyError
    let field ← decodeMmField field
    require (∀ e ∈ entries, e.1 ∈ ["modality", "key", "data", "field"]) .typeError
    let modality ← stringArg entries "modality"
    let key ← stringArg entries "key"
    return { modality, key, data, field }
  | _ => .error .typeError

def decodeItem : Wire → Except PyError (MultiModalKwargsItem T.Tensor)
  | .array elems => MultiModalKwargsItem.fromElems <$> elems.mapM (decodeElem T bufs)
  | _ => .error .typeError

/-- `MultiModalKwargs` in `dec_hook`. -/
def decodeMmKwargs : Wire → Except PyError (MultiModalKwargs T.Tensor)
  | .array items => do
    let items ← items.mapM (decodeItem T bufs)
    MultiModalKwargs.fromItems T.ops items
  | .map entries => do
    let data ← entries.mapM fun e => do
      let v ← decodeNestedTensors T bufs e.2
      return (e.1, v)
    MultiModalKwargs.init (Dict.ofEntries data) []
  | _ => .error .attributeError

end Decoder

/-! ## Declared types -/

mutual

/-- The declared types of messages; the index says whether `None` is among the values. A structure
is an array of its fields. -/
inductive Ty : Bool → Type where
  | number : Ty false
  | str : Ty false
  | bytes : Ty false
  | tensor : Ty false
  | ndarray : Ty false
  | slice : Ty false
  | mmKwargs : Ty false
  | optional (t : Ty false) : Ty true
  | list {b : Bool} (t : Ty b) : Ty false
  | dict {b : Bool} (t : Ty b) : Ty false
  | struct (fields : Fields) : Ty false

inductive Fields : Type where
  | nil : Fields
  | cons {b : Bool} (t : Ty b) (fields : Fields) : Fields

end

section Typed

variable (N : Numpy) (T : Torch)

mutual

/-- The objects of a type. -/
def Ty.Value : {b : Bool} → Ty b → Type
  | _, .number => PyNumber
  | _, .str => String
  | _, .bytes => List UInt8
  | _, .tensor => T.Tensor
  | _, .ndarray => Strided N.DType
  | _, .slice => Slice
  | _, .mmKwargs => MultiModalKwargs T.Tensor
  | _, .optional t => Option t.Value
  | _, .list t => List t.Value
  | _, .dict t => Dict String t.Value
  | _, .struct fields => fields.Value

def Fields.Value : Fields → Type
  | .nil => Unit
  | .cons t fields => t.Value × fields.Value

end

variable {N T} (sizeThreshold : Int) (bufs : List Bytestr)

mutual

/-- `msgpack.Encoder.encode` with `enc_hook`. -/
def Ty.encode : {b : Bool} → (t : Ty b) → t.Value N T → List Bytestr →
    Except PyError (Wire × List Bytestr)
  | _, .number, n, auxBuffers => .ok (.number n, auxBuffers)
  | _, .str, s, auxBuffers => .ok (.str s, auxBuffers)
  | _, .bytes, b, auxBuffers => .ok (.bin b, auxBuffers)
  | _, .tensor, t, auxBuffers => .ok (encodeTensor T sizeThreshold t auxBuffers)
  | _, .ndarray, a, auxBuffers => encodeNdarray N sizeThreshold a auxBuffers
  | _, .slice, s, auxBuffers => .ok (sliceWire s, auxBuffers)
  | _, .mmKwargs, mm, auxBuffers => .ok (encodeMmKwargs T sizeThreshold mm auxBuffers)
  | _, .optional t, x, auxBuffers => match (x : Option (t.Value N T)) with
    | none => .ok (.nil, auxBuffers)
    | some x => t.encode x auxBuffers
  | _, .list t, xs, auxBuffers => do
    let (ws, auxBuffers) ← mapThreadM t.encode xs auxBuffers
    return (.array ws, auxBuffers)
  | _, .dict t, d, auxBuffers => do
    let (entries, auxBuffers) ← mapThreadM (fun e auxBuffers => do
      let (w, auxBuffers) ← t.encode e.2 auxBuffers
      return ((e.1, w), auxBuffers)) d.entries auxBuffers
    return (.map entries, auxBuffers)
  | _, .struct fields, x, auxBuffers => do
    let (ws, auxBuffers) ← fields.encode x auxBuffers
    return (.array ws, auxBuffers)

def Fields.encode : (fields : Fields) → fields.Value N T → List Bytestr →
    Except PyError (List Wire × List Bytestr)
  | .nil, _, auxBuffers => .ok ([], auxBuffers)
  | .cons t fields, (x, xs), auxBuffers => do
    let (w, auxBuffers) ← t.encode x auxBuffers
    let (ws, auxBuffers) ← fields.encode xs auxBuffers
    return (w :: ws, auxBuffers)

end

mutual

/-- `msgpack.Decoder.decode` with `dec_hook` and `ext_hook`. -/
def Ty.decode : {b : Bool} → (t : Ty b) → Wire → Except PyError (t.Value N T)
  | _, .number, w => match w with
    | .number n => .ok n
    | _ => .error .typeError
  | _, .str, w => match w with
    | .str s => .ok s
    | _ => .error .typeError
  | _, .bytes, w => match w with
    | .bin b => .ok b
    | _ => .error .typeError
  | _, .tensor, w => decodeTensor T bufs w
  | _, .ndarray, w => decodeNdarray N bufs w
  | _, .slice, w => match w with
    | .array ws => decodeSlice ws
    | _ => .error .typeError
  | _, .mmKwargs, w => decodeMmKwargs T bufs w
  | _, .optional t, w => match w with
    | .nil => .ok none
    | w => some <$> t.decode w
  | _, .list t, w => match w with
    | .array ws => ws.mapM t.decode
    | _ => .error .typeError
  | _, .dict t, w => match w with
    | .map entries => do
      let entries ← entries.mapM fun e => do
        let x ← t.decode e.2
        return (e.1, x)
      return Dict.ofEntries entries
    | _ => .error .typeError
  | _, .struct fields, w => match w with
    | .array ws => fields.decode ws
    | _ => .error .typeError

def Fields.decode : (fields : Fields) → List Wire → Except PyError (fields.Value N T)
  | .nil, _ => .ok ()
  | .cons t fields, ws => match ws with
    | w :: ws => do
      let x ← t.decode w
      let xs ← fields.decode ws
      return (x, xs)
    | [] => .error .typeError

end

/-- `MsgpackEncoder.encode`: the message, then the buffers it refers to. -/
def encode {b : Bool} (t : Ty b) (obj : t.Value N T) : Except PyError (List Bytestr) := do
  let (w, bufs) ← t.encode sizeThreshold obj [.raw []]
  return bufs.set 0 (.packed w)

/-- `MsgpackDecoder.decode`, for the type `t`. -/
def decode {b : Bool} (t : Ty b) (bufs : List Bytestr) : Except PyError (t.Value N T) :=
  match bufs with
  | .packed w :: _ => t.decode bufs w
  | _ => .error .valueError

end Typed

end InferenceServer.Serial
