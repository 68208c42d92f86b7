import InferenceServer.Serial.Msgpack

/-!
# What arrives

The decoder reads what the encoder has written, for every declared type and every threshold. An
encoder appends its buffers to those that are there, and refers to them by their index; so what it has
written reads the same in every list of buffers that has them at these indexes, whatever comes after
them (`Carries`). That is the induction over the message. It ends in an equation: what is decoded is
`Ty.received`, in which every array lies in memory of its own and the keyword arguments are made from
their items again.

Two things may then go wrong. An array may not get through: a C-contiguous array is sent as a
`memoryview`, which does not exist for the types without a buffer format, `datetime64` and
`timedelta64`; a copy of the same array that is not contiguous does get through. And the items of a
`MultiModalKwargs` are sent one modality after the other: made from them in this order, the keyword
arguments may be others.

## Main results

* `Ty.encode_carries`, `decode_encode_iff`
-/

namespace InferenceServer.Serial

open Outcome
open List (mapM_cons map_map prefix_nil prefix_refl)
open MultiModalKwargsItem (fromElems map)

/-! ## Buffers and their indexes -/

/-- The buffers `bufs` have those of the encoder at their indexes. The first one is the message. -/
def Delivers (bufs auxBuffers : List Bytestr) : Prop :=
  ∀ (i : Nat) (b : Bytestr), 0 < i → auxBuffers[i]? = some b → bufs[i]? = some b

theorem Delivers.of_isPrefix {bufs auxBuffers auxBuffers' : List Bytestr}
    (h : Delivers bufs auxBuffers') (hpre : auxBuffers <+: auxBuffers') : Delivers bufs auxBuffers := by
  obtain ⟨new, rfl⟩ := hpre
  intro i b hi hb
  refine h i b hi ?_
  rw [List.getElem?_append_left (List.getElem?_eq_some_iff.mp hb).1, hb]

/-- What `run` writes is read as `r`, in any list of buffers with those of the encoder. -/
def Carries {β γ : Type} (run : List Bytestr → Except PyError (β × List Bytestr))
    (read : List Bytestr → β → Except PyError γ) (r : Except PyError γ) : Prop :=
  ∀ auxBuffers w auxBuffers', auxBuffers ≠ [] → run auxBuffers = .ok (w, auxBuffers') →
    auxBuffers <+: auxBuffers' ∧ ∀ bufs, Delivers bufs auxBuffers' → read bufs w = r

section Carries

variable {α β γ : Type} {read : List Bytestr → β → Except PyError γ}

/-- The elements of a list are written one after the other. -/
theorem Carries.each {f : α → List Bytestr → Except PyError (β × List Bytestr)}
    {r : α → Except PyError γ} {l : List α} (h : ∀ a ∈ l, Carries (f a) read (r a)) :
    Carries (mapThreadM f l) (fun bufs ws => ws.mapM (read bufs)) (l.mapM r) := by
  induction l with
  | nil =>
    intro aux ws aux' hne hrun
    cases hrun
    exact ⟨prefix_refl _, fun _ _ => rfl⟩
  | cons a l ih =>
    intro aux ws aux' hne hrun
    obtain ⟨w, aux₁, ws', hw, hws, rfl⟩ := mapThreadM_cons_ok.mp hrun
    obtain ⟨hpre, hread⟩ := h a List.mem_cons_self aux w aux₁ hne hw
    have hne₁ : aux₁ ≠ [] := fun hnil => hne (prefix_nil.mp (hnil ▸ hpre))
    obtain ⟨hpre', hreads⟩ :=
      ih (fun a ha => h a (List.mem_cons_of_mem _ ha)) aux₁ ws' aux' hne₁ hws
    refine ⟨hpre.trans hpre', fun bufs hbufs => ?_⟩
    have hreads := hreads bufs hbufs
    dsimp only at hreads ⊢
    rw [mapM_cons, mapM_cons, hread bufs (hbufs.of_isPrefix hpre'), hreads]

/-- An entry of a dictionary is written as its key and its value. -/
theorem Carries.entry {run : List Bytestr → Except PyError (β × List Bytestr)}
    {r : Except PyError γ} (h : Carries run read r) (key : String) :
    Carries (fun aux => do
        let (w, aux) ← run aux
        return ((key, w), aux))
      (fun bufs (e : String × β) => do
        let x ← read bufs e.2
        return (e.1, x))
      (do
        let x ← r
        return (key, x)) := by
  intro aux e aux' hne hrun
  obtain ⟨⟨w, aux₁⟩, hw, hrun⟩ := bind_eq_ok.mp hrun
  obtain ⟨rfl, rfl⟩ := pair_of_ok hrun
  obtain ⟨hpre, hread⟩ := h aux w aux₁ hne hw
  refine ⟨hpre, fun bufs hbufs => ?_⟩
  dsimp only
  rw [hread bufs hbufs]

theorem mapThreadM_encodeEach (f : α → List Bytestr → β × List Bytestr) (l : List α)
    (aux : List Bytestr) :
    mapThreadM (fun a aux => (.ok (f a aux) : Except PyError _)) l aux =
      .ok (encodeEach f l aux) := by
  induction l generalizing aux with
  | nil => rfl
  | cons a l ih =>
    rw [mapThreadM, encodeEach]
    change mapThreadM _ l (f a aux).2 >>= _ = _
    rw [ih]
    rfl

/-- The same for an encoder that does not fail. -/
theorem Carries.encodeEach {f : α → List Bytestr → β × List Bytestr} {r : α → γ} {l : List α}
    (h : ∀ a ∈ l, Carries (fun aux => .ok (f a aux)) read (.ok (r a))) :
    Carries (fun aux => .ok (encodeEach f l aux)) (fun bufs ws => ws.mapM (read bufs))
      (.ok (l.map r)) := by
  have hmap : l.mapM (fun a => (.ok (r a) : Except PyError γ)) = .ok (l.map r) :=
    List.mapM_pure
  intro aux ws aux' hne hrun
  have hrun := (mapThreadM_encodeEach f l aux).trans hrun
  exact hmap ▸ Carries.each h aux ws aux' hne hrun

end Carries

/-- The data of an array is found again. -/
theorem stash_ok (inline : Bool) (data : List UInt8) {aux : List Bytestr} (hne : aux ≠ []) :
    aux <+: (stash inline data aux).2 ∧ ∀ bufs, Delivers bufs (stash inline data aux).2 →
      readBuffer bufs (stash inline data aux).1 = .ok data := by
  cases inline with
  | true => exact ⟨prefix_refl _, fun _ _ => rfl⟩
  | false =>
    refine ⟨List.prefix_append _ _, fun bufs hbufs => ?_⟩
    have hbuf := hbufs aux.length (.raw data) (List.length_pos_iff.mpr hne)
      (List.getElem?_concat_length ..)
    have hget : pyGet? bufs (aux.length : Int) = some (.raw data) := by
      rw [pyGet?, if_neg (by omega), Int.toNat_natCast, hbuf]
    change readBuffer bufs (.number (.int aux.length)) = _
    rw [readBuffer, hget]

@[simp] theorem decodeShape_shapeWire (shape : List Nat) :
    decodeShape (shapeWire shape) = .ok shape := by
  rw [shapeWire, decodeShape]
  induction shape with
  | nil => rfl
  | cons n shape ih =>
    have hdim : decodeDim (.number (.int n)) = .ok n := by simp [decodeDim]
    rw [List.map_cons, mapM_cons, hdim, ih]
    rfl

/-! ## Tensors and what is made of them -/

section Tensors

variable {T : Torch} (sizeThreshold : Int)

/-- A tensor in memory of its own. -/
def Torch.copy (T : Torch) (t : T.Tensor) : T.Tensor := (t.value T.itemsize).strided

@[simp] theorem Torch.value_copy (t : T.Tensor) :
    (T.copy t).value T.itemsize = t.value T.itemsize := ArrayValue.value_strided _

theorem fromBuffer_of_length {δ : Type} {itemsize : δ → Nat} {e : PyError} {dtype : δ}
    {shape : List Nat} {buffer : List UInt8} (hpos : 0 < itemsize dtype)
    (hlen : buffer.length = shape.prod * itemsize dtype) :
    fromBuffer itemsize e dtype shape buffer =
      .ok (⟨dtype, shape, buffer, hlen⟩ : ArrayValue itemsize).strided :=
  dif_pos ⟨hpos, hlen⟩

theorem decodeTensor_of_readBuffer {bufs : List Bytestr} {data : Wire} {t : T.Tensor}
    (h : readBuffer bufs data = .ok (t.tobytes T.itemsize)) :
    decodeTensor T bufs (.array [.str (T.str t.dtype), shapeWire t.shape, data]) =
      .ok (T.copy t) := by
  have hempty : (t.tobytes T.itemsize).isEmpty = true → 0 ∈ t.shape := by
    intro hnil
    have hlen := t.length_tobytes T.itemsize
    rw [List.isEmpty_iff.mp hnil, List.length_nil, Strided.nbytes, eq_comm, mul_eq_zero] at hlen
    exact List.prod_eq_zero_iff.mp (hlen.resolve_right (T.itemsize_pos _).ne')
  have hbuffer := fromBuffer_of_length (e := .runtimeError) (T.itemsize_pos t.dtype)
    (t.length_tobytes T.itemsize)
  simp only [decodeTensor, h, T.getattr_str, decodeShape_shapeWire, bind, Except.bind]
  by_cases hnil : (t.tobytes T.itemsize).isEmpty = true
  · have hzero : require (0 ∈ t.shape) (PyError.assertionError .decodeTensor) = .ok () :=
      require_eq_ok.mpr (hempty hnil)
    simp only [hnil, hzero, if_true]
    exact hbuffer
  · simp only [hnil]
    exact hbuffer

theorem encodeTensor_carries (t : T.Tensor) :
    Carries (fun aux => .ok (encodeTensor T sizeThreshold t aux)) (decodeTensor T)
      (.ok (T.copy t)) := by
  intro aux w aux' hne hrun
  obtain ⟨hpre, hread⟩ := stash_ok (decide ((t.nbytes T.itemsize : Int) < sizeThreshold))
    (t.tobytes T.itemsize) hne
  cases hrun
  exact ⟨hpre, fun bufs hbufs => decodeTensor_of_readBuffer (hread bufs hbufs)⟩

/-- What is written for a nested value is not a string, by which lists and tensors are told apart. -/
theorem encodeNestedTensors_ne_str (nt : NestedTensors T.Tensor) (aux : List Bytestr) (s : String) :
    (encodeNestedTensors T sizeThreshold nt aux).1 ≠ .str s := by
  cases nt <;> intro h <;> cases h

theorem decodeNestedTensors_array {bufs : List Bytestr} {ws : List Wire}
    (h : ∀ s, ws.head? ≠ some (.str s)) :
    decodeNestedTensors T bufs (.array ws) = .list <$> decodeNestedElems T bufs ws := by
  cases ws with
  | nil => rfl
  | cons w ws =>
    cases w with
    | str s => exact absurd rfl (h s)
    | _ => rfl

mutual

/-- **Nested tensors are read back.** -/
theorem encodeNestedTensors_carries : ∀ nt : NestedTensors T.Tensor,
    Carries (fun aux => .ok (encodeNestedTensors T sizeThreshold nt aux)) (decodeNestedTensors T)
      (.ok (nt.map T.copy))
  | .tensor t => by
    intro aux w aux' hne hrun
    obtain ⟨hpre, hread⟩ := encodeTensor_carries sizeThreshold t aux w aux' hne hrun
    cases hrun
    refine ⟨hpre, fun bufs hbufs => ?_⟩
    exact congrArg (NestedTensors.tensor <$> ·) (hread bufs hbufs)
  | .number n => by
    intro aux w aux' hne hrun
    cases hrun
    exact ⟨prefix_refl _, fun _ _ => rfl⟩
  | .list elems => by
    intro aux w aux' hne hrun
    obtain ⟨hpre, hread⟩ := encodeNestedElems_carries elems aux _ _ hne rfl
    cases hrun
    refine ⟨hpre, fun bufs hbufs => ?_⟩
    -- the first element is not a string, so this is a list
    have hhead : ∀ s, (encodeNestedElems T sizeThreshold elems aux).1.head? ≠ some (.str s) := by
      intro s
      cases elems with
      | nil => exact fun h => by cases h
      | cons elem elems =>
        exact fun h => encodeNestedTensors_ne_str sizeThreshold elem aux s (Option.some.inj h)
    have hread := hread bufs hbufs
    change decodeNestedTensors T bufs (.array (encodeNestedElems T sizeThreshold elems aux).1) = _
    rw [decodeNestedTensors_array hhead, hread, NestedTensors.map_list]
    rfl

theorem encodeNestedElems_carries : ∀ elems : List (NestedTensors T.Tensor),
    Carries (fun aux => .ok (encodeNestedElems T sizeThreshold elems aux)) (decodeNestedElems T)
      (.ok (elems.map (·.map T.copy)))
  | [] => by
    intro aux w aux' hne hrun
    cases hrun
    exact ⟨prefix_refl _, fun _ _ => rfl⟩
  | elem :: elems => by
    intro aux w aux' hne hrun
    obtain ⟨hpre, hread⟩ := encodeNestedTensors_carries elem aux _ _ hne rfl
    have hne₁ : (encodeNestedTensors T sizeThreshold elem aux).2 ≠ [] :=
      fun hnil => hne (prefix_nil.mp (hnil ▸ hpre))
    obtain ⟨hpre', hreads⟩ := encodeNestedElems_carries elems _ _ _ hne₁ rfl
    cases hrun
    refine ⟨hpre.trans hpre', fun bufs hbufs => ?_⟩
    have hread := hread bufs (hbufs.of_isPrefix hpre')
    have hreads := hreads bufs hbufs
    change (do
      let t ← decodeNestedTensors T bufs (encodeNestedTensors T sizeThreshold elem aux).1
      let ts ← decodeNestedElems T bufs (encodeNestedElems T sizeThreshold elems
        (encodeNestedTensors T sizeThreshold elem aux).2).1
      return t :: ts) = _
    rw [hread, hreads]
    rfl

end

end Tensors

/-! ## Slices and fields -/

theorem decodeSlice_sliceWire (s : Slice) :
    decodeSlice [boundWire s.start, boundWire s.stop, boundWire s.step] = .ok s := by
  have hbound : ∀ b, decodeBound (boundWire b) = .ok b := fun b => by cases b <;> rfl
  simp only [decodeSlice, hbound, bind, Except.bind]
  rfl

theorem exists_slicesWire (s : NestedSlices) : ∃ ws, slicesWire s = .array ws := by
  cases s <;> exact ⟨_, rfl⟩

mutual

/-- **Nested slices are read back**: a slice begins with what is not a list. -/
theorem decode_slicesWire : ∀ s : NestedSlices, decodeNestedSlices (slicesWire s) = .ok s
  | .slice s => by
    have hslice := decodeSlice_sliceWire s
    obtain ⟨start, stop, step⟩ := s
    change decodeNestedSlices (.array [boundWire start, boundWire stop, boundWire step]) = _
    cases start <;> exact congrArg (NestedSlices.slice <$> ·) hslice
  | .list [] => rfl
  | .list (s :: ss) => by
    have hs := decode_slicesWire s
    have hss := decode_slicesWireElems ss
    change decodeNestedSlices (.array (slicesWire s :: slicesWireElems ss)) = _
    obtain ⟨ws, hws⟩ := exists_slicesWire s
    rw [hws] at hs ⊢
    change (do
      let s ← decodeNestedSlices (.array ws)
      let ss ← decodeSlicesElems (slicesWireElems ss)
      return NestedSlices.list (s :: ss)) = _
    rw [hs, hss]
    rfl

theorem decode_slicesWireElems : ∀ ss : List NestedSlices,
    decodeSlicesElems (slicesWireElems ss) = .ok ss
  | [] => rfl
  | s :: ss => by
    change (do
      let s ← decodeNestedSlices (slicesWire s)
      let ss ← decodeSlicesElems (slicesWireElems ss)
      return s :: ss) = _
    rw [decode_slicesWire s, decode_slicesWireElems ss]
    rfl

end

theorem decode_encodeMmField (field : MultiModalField) :
    decodeMmField (encodeMmField field) = .ok field := by
  cases field with
  | batched => rfl
  | shared n => rfl
  | flat slices dim =>
    change (do
      let slices ← decodeNestedSlices (slicesWire slices)
      return MultiModalField.flat slices dim) = _
    rw [decode_slicesWire]
    rfl

/-! ## Keyword arguments -/

section Kwargs

variable {T : Torch} (sizeThreshold : Int)

theorem encodeElem_carries (elem : MultiModalFieldElem T.Tensor) :
    Carries (fun aux => .ok (encodeElem T sizeThreshold elem aux)) (decodeElem T)
      (.ok (elem.map T.copy)) := by
  intro aux w aux' hne hrun
  obtain ⟨hpre, hread⟩ := encodeNestedTensors_carries sizeThreshold elem.data aux _ _ hne rfl
  cases hrun
  refine ⟨hpre, fun bufs hbufs => ?_⟩
  have hread := hread bufs hbufs
  generalize (encodeNestedTensors T sizeThreshold elem.data aux).1 = w at hread
  have hkeys : ∀ e ∈ [("modality", Wire.str elem.modality), ("key", .str elem.key), ("data", w),
      ("field", encodeMmField elem.field)], e.1 ∈ ["modality", "key", "data", "field"] := by
    simp
  have hrequire : require (∀ e ∈ [("modality", Wire.str elem.modality), ("key", .str elem.key),
      ("data", w), ("field", encodeMmField elem.field)], e.1 ∈ ["modality", "key", "data", "field"])
        PyError.typeError = .ok () := require_eq_ok.mpr hkeys
  change (do
    let data ← decodeNestedTensors T bufs w
    let field ← decodeMmField (encodeMmField elem.field)
    require (∀ e ∈ [("modality", Wire.str elem.modality), ("key", .str elem.key), ("data", w),
      ("field", encodeMmField elem.field)], e.1 ∈ ["modality", "key", "data", "field"]) .typeError
    return ({ modality := elem.modality, key := elem.key, data, field } : MultiModalFieldElem _)) = _
  rw [hread, decode_encodeMmField, hrequire]
  rfl

theorem encodeItem_carries (item : MultiModalKwargsItem T.Tensor) :
    Carries (fun aux => .ok (encodeItem T sizeThreshold item aux)) (decodeItem T)
      (.ok (fromElems (item.elems.map (·.map T.copy)))) := by
  intro aux w aux' hne hrun
  obtain ⟨hpre, hread⟩ := Carries.encodeEach
    (fun elem (_ : elem ∈ item.elems) => encodeElem_carries sizeThreshold elem)
    aux _ _ hne rfl
  cases hrun
  exact ⟨hpre, fun bufs hbufs =>
    congrArg (fromElems <$> ·) (hread bufs hbufs)⟩

/-- The items of a `MultiModalKwargs` as they are sent, every tensor in memory of its own. -/
def receivedItems (T : Torch) (mm : MultiModalKwargs T.Tensor) : List (MultiModalKwargsItem T.Tensor) :=
  mm.items.map fun item => MultiModalKwargsItem.fromElems (item.elems.map (·.map T.copy))

/-- What is decoded of a `MultiModalKwargs`. -/
def receivedKwargs (T : Torch) (mm : MultiModalKwargs T.Tensor) :
    Except PyError (MultiModalKwargs T.Tensor) :=
  if mm.itemsByModality.entries.isEmpty then
    .ok { data := mm.data.mapValues (·.map T.copy), itemsByModality := ∅ }
  else MultiModalKwargs.fromItems T.ops (receivedItems T mm)

theorem encodeKwarg_carries (e : String × NestedTensors T.Tensor) :
    Carries (fun aux => .ok (encodeKwarg T sizeThreshold e aux))
      (fun bufs (e : String × Wire) => do
        let v ← decodeNestedTensors T bufs e.2
        return (e.1, v))
      (.ok (e.1, e.2.map T.copy)) := by
  intro aux w aux' hne hrun
  obtain ⟨hpre, hread⟩ := encodeNestedTensors_carries sizeThreshold e.2 aux _ _ hne rfl
  cases hrun
  refine ⟨hpre, fun bufs hbufs => ?_⟩
  change (do
    let v ← decodeNestedTensors T bufs (encodeNestedTensors T sizeThreshold e.2 aux).1
    return (e.1, v)) = _
  rw [hread bufs hbufs]
  rfl

theorem encodeMmKwargs_carries (mm : MultiModalKwargs T.Tensor) :
    Carries (fun aux => .ok (encodeMmKwargs T sizeThreshold mm aux)) (decodeMmKwargs T)
      (receivedKwargs T mm) := by
  unfold receivedKwargs encodeMmKwargs
  split_ifs with hitems
  · -- the main dictionary
    intro aux w aux' hne hrun
    obtain ⟨hpre, hread⟩ := Carries.encodeEach
      (fun e (_ : e ∈ mm.data.entries) => encodeKwarg_carries sizeThreshold e) aux _ _ hne rfl
    cases hrun
    refine ⟨hpre, fun bufs hbufs => ?_⟩
    have hread := hread bufs hbufs
    dsimp only at hread
    change (_ : List (String × Wire)).mapM _ >>= _ = _
    rw [hread]
    refine congrArg Except.ok ?_
    change ({ data := Dict.ofEntries (mm.data.mapValues (·.map T.copy)).entries
              itemsByModality := ∅ } : MultiModalKwargs T.Tensor) = _
    rw [Dict.ofEntries_entries]
  · -- the items
    intro aux w aux' hne hrun
    obtain ⟨hpre, hread⟩ := Carries.encodeEach
      (fun item (_ : item ∈ mm.items) => encodeItem_carries sizeThreshold item)
      aux _ _ hne rfl
    cases hrun
    exact ⟨hpre, fun bufs hbufs =>
      congrArg (· >>= MultiModalKwargs.fromItems T.ops) (hread bufs hbufs)⟩

end Kwargs

/-! ## Equal keyword arguments -/

section Equality

variable {T : Torch}

/-- The same items by modality, in the same order, and the same keyword arguments. -/
def SameKwargs {τ : Type} (mm mm' : MultiModalKwargs τ) : Prop :=
  mm.itemsByModality = mm'.itemsByModality ∧ ∀ key, mm.data.get? key = mm'.data.get? key

/-- `MultiModalKwargs.__eq__`, and the fields of the elements are the same. -/
def EqualKwargs (T : Torch) (mm mm' : MultiModalKwargs T.Tensor) : Prop :=
  SameKwargs (mm.map (Strided.value T.itemsize)) (mm'.map (Strided.value T.itemsize))

/-- The keyword arguments are those that `from_items` makes of the items, one modality after the
other. -/
def Reindexed (T : Torch) (mm : MultiModalKwargs T.Tensor) : Prop :=
  mm.itemsByModality.entries.isEmpty ∨ ∃ mm',
    MultiModalKwargs.fromItems T.ops
      (mm.items.map fun item => MultiModalKwargsItem.fromElems item.elems) = .ok mm' ∧
    EqualKwargs T mm mm'

theorem map_value_copy (nt : NestedTensors T.Tensor) :
    (nt.map T.copy).map (Strided.value T.itemsize) = nt.map (Strided.value T.itemsize) := by
  rw [NestedTensors.map_map]
  exact congrArg (NestedTensors.map · nt) (funext fun t => Torch.value_copy t)

theorem map_fromElems {τ σ : Type} (f : τ → σ) (elems : List (MultiModalFieldElem τ)) :
    (fromElems elems).map f =
      fromElems (elems.map (·.map f)) := by
  unfold map fromElems
  rw [Dict.mapValues_ofEntries, map_map, map_map]
  rfl

/-- The items in memory of their own say what the items say. -/
theorem map_receivedItems (mm : MultiModalKwargs T.Tensor) :
    (receivedItems T mm).map (map (Strided.value T.itemsize)) =
      (mm.items.map fun item => fromElems item.elems).map
        (map (Strided.value T.itemsize)) := by
  unfold receivedItems
  rw [map_map, map_map]
  refine List.map_congr_left fun item _ => ?_
  simp only [Function.comp, map_fromElems, map_map]
  refine congrArg fromElems (List.map_congr_left fun elem _ => ?_)
  simp only [Function.comp, MultiModalFieldElem.map, map_value_copy]

theorem received_kwargs_iff {mm : MultiModalKwargs T.Tensor} :
    (∃ mm', receivedKwargs T mm = .ok mm' ∧ EqualKwargs T mm mm') ↔ Reindexed T mm := by
  unfold receivedKwargs Reindexed
  split_ifs with hitems
  · -- without items the main dictionary is sent
    refine iff_of_true ⟨_, rfl, ?_, fun key => ?_⟩ (.inl hitems)
    · obtain ⟨data, entries, hnodup⟩ := mm
      obtain rfl : entries = [] := by simpa using hitems
      rfl
    · simp only [MultiModalKwargs.map, Dict.get?_mapValues, Option.map_map]
      congr 1
      funext nt
      exact (map_value_copy nt).symm
  · have hvalue := fromItems_map T.value_hom (receivedItems T mm)
    rw [map_receivedItems, fromItems_map T.value_hom] at hvalue
    generalize MultiModalKwargs.fromItems T.ops (receivedItems T mm) = received at hvalue
    generalize MultiModalKwargs.fromItems T.ops
      (mm.items.map fun item => fromElems item.elems) = made at hvalue
    rw [or_iff_right hitems]
    unfold EqualKwargs
    cases received with
    | error =>
      cases made with
      | error => exact iff_of_false (by rintro ⟨_, h, _⟩; cases h) (by rintro ⟨_, h, _⟩; cases h)
      | ok => cases hvalue
    | ok mm₁ =>
      cases made with
      | error => cases hvalue
      | ok mm₂ =>
        have heq : mm₂.map (Strided.value T.itemsize) = mm₁.map (Strided.value T.itemsize) :=
          Except.ok.inj hvalue
        constructor
        · rintro ⟨_, h, hsame⟩
          cases h
          exact ⟨mm₂, rfl, heq ▸ hsame⟩
        · rintro ⟨_, h, hsame⟩
          cases h
          exact ⟨mm₁, rfl, heq ▸ hsame⟩

end Equality

/-! ## Arrays -/

section Arrays

variable (N : Numpy)

/-- What is decoded of an array. -/
def receivedNdarray (a : Strided N.DType) : Except PyError (Strided N.DType) := do
  let some dtype := N.dtype (N.str a.dtype) | .error .typeError
  fromBuffer N.itemsize .valueError dtype a.shape (a.tobytes N.itemsize)

/-- An array that can be encoded: it has no objects or records, and if it is contiguous there is a
`memoryview` of it. -/
def Exportable (a : Strided N.DType) : Prop :=
  (N.kind a.dtype ≠ 'O' ∧ N.kind a.dtype ≠ 'V') ∧
    (a.cContiguous N.itemsize = true → N.exportsBuffer a.dtype = true)

/-- An array that can be rebuilt from its bytes: its type string names its type, and its elements
have a size. -/
def Restorable (a : Strided N.DType) : Prop :=
  N.dtype (N.str a.dtype) = some a.dtype ∧ 0 < N.itemsize a.dtype

variable {N} (sizeThreshold : Int)

theorem encodeNdarray_eq_ok {a : Strided N.DType} {aux : List Bytestr} {p : Wire × List Bytestr} :
    encodeNdarray N sizeThreshold a aux = .ok p ↔ Exportable N a ∧ ∃ s,
      s = stash (a.shape.isEmpty || decide ((a.nbytes N.itemsize : Int) < sizeThreshold))
        (a.tobytes N.itemsize) aux ∧
      p = (.array [.str (N.str a.dtype), shapeWire a.shape, s.1], s.2) := by
  -- the buffer of a contiguous array holds the same bytes as a copy
  have hdata : (if a.cContiguous N.itemsize then a.data N.itemsize else a.tobytes N.itemsize) =
      a.tobytes N.itemsize := by
    split_ifs with h
    · exact Strided.data_eq_tobytes h
    · rfl
  unfold encodeNdarray Exportable
  simp only [hdata, bind_eq_ok, require_eq_ok, pure_eq_ok]
  constructor
  · rintro ⟨-, hkind, -, hexports, rfl⟩
    exact ⟨⟨hkind, hexports⟩, _, rfl, rfl⟩
  · rintro ⟨⟨hkind, hexports⟩, _, rfl, rfl⟩
    exact ⟨(), hkind, (), hexports, rfl⟩

theorem decodeNdarray_of_readBuffer {bufs : List Bytestr} {data : Wire} {a : Strided N.DType}
    (h : readBuffer bufs data = .ok (a.tobytes N.itemsize)) :
    decodeNdarray N bufs (.array [.str (N.str a.dtype), shapeWire a.shape, data]) =
      receivedNdarray N a := by
  simp only [decodeNdarray, h, decodeShape_shapeWire, bind, Except.bind]
  rfl

theorem encodeNdarray_carries (a : Strided N.DType) :
    Carries (encodeNdarray N sizeThreshold a) (decodeNdarray N) (receivedNdarray N a) := by
  intro aux w aux' hne hrun
  obtain ⟨-, s, rfl, hp⟩ := (encodeNdarray_eq_ok sizeThreshold).mp hrun
  obtain ⟨hpre, hread⟩ := stash_ok
    (a.shape.isEmpty || decide ((a.nbytes N.itemsize : Int) < sizeThreshold))
    (a.tobytes N.itemsize) hne
  obtain ⟨rfl, rfl⟩ := Prod.mk.inj hp
  exact ⟨hpre, fun bufs hbufs => decodeNdarray_of_readBuffer (hread bufs hbufs)⟩

theorem received_ndarray_iff {a : Strided N.DType} :
    (∃ b, receivedNdarray N a = .ok b ∧ a.value N.itemsize = b.value N.itemsize) ↔
      Restorable N a := by
  unfold receivedNdarray Restorable
  constructor
  · rintro ⟨b, hb, heq⟩
    cases hdtype : N.dtype (N.str a.dtype) with
    | none =>
      rw [hdtype] at hb
      cases hb
    | some dtype =>
      rw [hdtype] at hb
      change fromBuffer N.itemsize _ dtype a.shape _ = _ at hb
      unfold fromBuffer at hb
      split_ifs at hb with h
      cases hb
      rw [ArrayValue.value_strided] at heq
      obtain rfl : a.dtype = dtype := congrArg ArrayValue.dtype heq
      exact ⟨rfl, h.1⟩
  · rintro ⟨hdtype, hpos⟩
    rw [hdtype]
    exact ⟨_, fromBuffer_of_length hpos (a.length_tobytes N.itemsize),
      (ArrayValue.value_strided (a.value N.itemsize)).symm⟩

end Arrays

/-! ## Messages -/

section Messages

variable {N : Numpy} {T : Torch}

mutual

/-- What is decoded of an object. -/
def Ty.received : {b : Bool} → (t : Ty b) → t.Value N T → Except PyError (t.Value N T)
  | _, .number, x => .ok x
  | _, .str, x => .ok x
  | _, .bytes, x => .ok x
  | _, .tensor, x => .ok (T.copy x)
  | _, .ndarray, x => receivedNdarray N x
  | _, .slice, x => .ok x
  | _, .mmKwargs, x => receivedKwargs T x
  | _, .optional t, x => match (x : Option (t.Value N T)) with
    | none => .ok none
    | some x => some <$> t.received x
  | _, .list t, xs => List.mapM t.received xs
  | _, .dict t, d => do
    let entries ← d.entries.mapM fun e => do
      let x ← t.received e.2
      return (e.1, x)
    return Dict.ofEntries entries
  | _, .struct fields, x => fields.received x

def Fields.received : (fields : Fields) → fields.Value N T → Except PyError (fields.Value N T)
  | .nil, _ => .ok ()
  | .cons t fields, (x, xs) => do
    let x ← t.received x
    let xs ← fields.received xs
    return (x, xs)

end

mutual

/-- Equal objects: arrays and tensors with the same types, shapes and elements. -/
def Ty.Equal : {b : Bool} → (t : Ty b) → t.Value N T → t.Value N T → Prop
  | _, .number, x, y => x = y
  | _, .str, x, y => x = y
  | _, .bytes, x, y => x = y
  | _, .tensor, x, y => Strided.value T.itemsize x = Strided.value T.itemsize y
  | _, .ndarray, x, y => Strided.value N.itemsize x = Strided.value N.itemsize y
  | _, .slice, x, y => x = y
  | _, .mmKwargs, x, y => EqualKwargs T x y
  | _, .optional t, x, y => Option.Rel t.Equal x y
  | _, .list t, xs, ys => List.Forall₂ t.Equal xs ys
  | _, .dict t, d, d' =>
    List.Forall₂ (fun e e' => e.1 = e'.1 ∧ t.Equal e.2 e'.2) (Dict.entries d) (Dict.entries d')
  | _, .struct fields, x, y => fields.Equal x y

def Fields.Equal : (fields : Fields) → fields.Value N T → fields.Value N T → Prop
  | .nil, _, _ => True
  | .cons t fields, (x, xs), (y, ys) => t.Equal x y ∧ fields.Equal xs ys

end

mutual

/-- Every array of an object meets `p`, and every `MultiModalKwargs` meets `q`. -/
def Ty.Each (p : Strided N.DType → Prop) (q : MultiModalKwargs T.Tensor → Prop) :
    {b : Bool} → (t : Ty b) → t.Value N T → Prop
  | _, .number, _ => True
  | _, .str, _ => True
  | _, .bytes, _ => True
  | _, .tensor, _ => True
  | _, .ndarray, x => p x
  | _, .slice, _ => True
  | _, .mmKwargs, x => q x
  | _, .optional t, x => match (x : Option (t.Value N T)) with
    | none => True
    | some x => t.Each p q x
  | _, .list t, xs => List.Forall (t.Each p q) xs
  | _, .dict t, d => ∀ e ∈ Dict.entries d, t.Each p q e.2
  | _, .struct fields, x => fields.Each p q x

def Fields.Each (p : Strided N.DType → Prop) (q : MultiModalKwargs T.Tensor → Prop) :
    (fields : Fields) → fields.Value N T → Prop
  | .nil, _ => True
  | .cons t fields, (x, xs) => t.Each p q x ∧ fields.Each p q xs

end

/-- What is written for an object other than `None` is not nil. -/
theorem Ty.encode_ne_nil {t : Ty false} {sizeThreshold : Int} {x : t.Value N T}
    {aux aux' : List Bytestr} : t.encode sizeThreshold x aux ≠ .ok (.nil, aux') := by
  intro h
  cases t with
  | number | str | bytes | tensor | slice => cases h
  | mmKwargs =>
    have h := congrArg Prod.fst (Except.ok.inj h)
    change (encodeMmKwargs T sizeThreshold x aux).1 = .nil at h
    unfold encodeMmKwargs at h
    split_ifs at h
  | ndarray =>
    obtain ⟨-, s, -, hp⟩ := (encodeNdarray_eq_ok sizeThreshold).mp h
    cases hp
  | list | dict | struct =>
    obtain ⟨_, -, h⟩ := bind_eq_ok.mp h
    cases h

variable (sizeThreshold : Int)

mutual

/-- **What is encoded is decoded** as `Ty.received`, with any buffers at the other indexes. -/
theorem Ty.encode_carries : ∀ {b : Bool} (t : Ty b) (x : t.Value N T),
    Carries (t.encode sizeThreshold x) (fun bufs w => t.decode bufs w) (t.received x)
  | _, .number, x => by
    intro aux w aux' hne hrun
    obtain ⟨rfl, rfl⟩ := pair_of_ok hrun
    exact ⟨prefix_refl _, fun _ _ => rfl⟩
  | _, .str, x => by
    intro aux w aux' hne hrun
    obtain ⟨rfl, rfl⟩ := pair_of_ok hrun
    exact ⟨prefix_refl _, fun _ _ => rfl⟩
  | _, .bytes, x => by
    intro aux w aux' hne hrun
    obtain ⟨rfl, rfl⟩ := pair_of_ok hrun
    exact ⟨prefix_refl _, fun _ _ => rfl⟩
  | _, .tensor, x => encodeTensor_carries sizeThreshold x
  | _, .ndarray, x => encodeNdarray_carries sizeThreshold x
  | _, .slice, x => by
    intro aux w aux' hne hrun
    obtain ⟨rfl, rfl⟩ := pair_of_ok hrun
    exact ⟨prefix_refl _, fun _ _ => decodeSlice_sliceWire x⟩
  | _, .mmKwargs, x => encodeMmKwargs_carries sizeThreshold x
  | _, .optional t, x => by
    intro aux w aux' hne hrun
    cases x with
    | none =>
      obtain ⟨rfl, rfl⟩ := pair_of_ok hrun
      exact ⟨prefix_refl _, fun _ _ => rfl⟩
    | some x =>
      obtain ⟨hpre, hread⟩ := Ty.encode_carries t x aux w aux' hne hrun
      refine ⟨hpre, fun bufs hbufs => ?_⟩
      have hread : some <$> t.decode bufs w = some <$> t.received x :=
        congrArg (some <$> ·) (hread bufs hbufs)
      cases w with
      | nil => exact absurd hrun Ty.encode_ne_nil
      | _ => exact hread
  | _, .list t, xs => by
    intro aux w aux' hne hrun
    obtain ⟨⟨ws, aux₁⟩, hws, hrun⟩ := bind_eq_ok.mp hrun
    obtain ⟨rfl, rfl⟩ := pair_of_ok hrun
    exact Carries.each (fun x _ => Ty.encode_carries t x) aux ws aux₁ hne hws
  | _, .dict t, d => by
    intro aux w aux' hne hrun
    obtain ⟨⟨ws, aux₁⟩, hws, hrun⟩ := bind_eq_ok.mp hrun
    obtain ⟨rfl, rfl⟩ := pair_of_ok hrun
    obtain ⟨hpre, hread⟩ :=
      Carries.each (fun e _ => (Ty.encode_carries t e.2).entry e.1) aux ws aux₁ hne hws
    refine ⟨hpre, fun bufs hbufs => ?_⟩
    exact congrArg (fun entries => Dict.ofEntries <$> entries) (hread bufs hbufs)
  | _, .struct fields, x => by
    intro aux w aux' hne hrun
    obtain ⟨⟨ws, aux₁⟩, hws, hrun⟩ := bind_eq_ok.mp hrun
    obtain ⟨rfl, rfl⟩ := pair_of_ok hrun
    exact Fields.encode_carries fields x aux ws aux₁ hne hws

theorem Fields.encode_carries : ∀ (fields : Fields) (x : fields.Value N T),
    Carries (fields.encode sizeThreshold x) (fun bufs ws => fields.decode bufs ws)
      (fields.received x)
  | .nil, x => by
    intro aux w aux' hne hrun
    obtain ⟨rfl, rfl⟩ := pair_of_ok hrun
    exact ⟨prefix_refl _, fun _ _ => rfl⟩
  | .cons t fields, (x, xs) => by
    intro aux w aux' hne hrun
    obtain ⟨⟨w₁, aux₁⟩, hw, hrun⟩ := bind_eq_ok.mp hrun
    obtain ⟨⟨ws, aux₂⟩, hws, hrun⟩ := bind_eq_ok.mp hrun
    obtain ⟨rfl, rfl⟩ := pair_of_ok hrun
    obtain ⟨hpre, hread⟩ := Ty.encode_carries t x aux w₁ aux₁ hne hw
    have hne₁ : aux₁ ≠ [] := fun hnil => hne (prefix_nil.mp (hnil ▸ hpre))
    obtain ⟨hpre', hreads⟩ := Fields.encode_carries fields xs aux₁ ws aux₂ hne₁ hws
    refine ⟨hpre.trans hpre', fun bufs hbufs => ?_⟩
    have hread := hread bufs (hbufs.of_isPrefix hpre')
    have hreads := hreads bufs hbufs
    change (do
      let x ← t.decode bufs w₁
      let xs ← fields.decode bufs ws
      return (x, xs)) = (do
      let x ← t.received x
      let xs ← fields.received xs
      return (x, xs))
    dsimp only at hread hreads
    rw [hread, hreads]

end

/-! ### When the encoder succeeds -/

theorem exists_mapThreadM_iff {α β σ : Type} {f : α → σ → Except PyError (β × σ)} {P : α → Prop}
    {l : List α} (h : ∀ a ∈ l, ∀ s, (∃ p, f a s = .ok p) ↔ P a) (s : σ) :
    (∃ p, mapThreadM f l s = .ok p) ↔ ∀ a ∈ l, P a := by
  induction l generalizing s with
  | nil => exact iff_of_true ⟨_, rfl⟩ (by simp)
  | cons a l ih =>
    have ih := ih fun a ha => h a (List.mem_cons_of_mem _ ha)
    constructor
    · rintro ⟨⟨bs, u⟩, hrun⟩
      obtain ⟨b, t, bs', hb, hbs, rfl⟩ := mapThreadM_cons_ok.mp hrun
      exact List.forall_mem_cons.mpr
        ⟨(h a List.mem_cons_self s).mp ⟨_, hb⟩, (ih t).mp ⟨_, hbs⟩⟩
    · intro hall
      obtain ⟨ha, hl⟩ := List.forall_mem_cons.mp hall
      obtain ⟨⟨b, t⟩, hb⟩ := (h a List.mem_cons_self s).mpr ha
      obtain ⟨⟨bs, u⟩, hbs⟩ := (ih t).mpr hl
      exact ⟨_, mapThreadM_cons_ok.mpr ⟨b, t, bs, hb, hbs, rfl⟩⟩

/-- A step that keeps the success of what it is put around. -/
theorem exists_bind_iff {α β : Type} {x : Except PyError α} {f : α → β} :
    (∃ b, (x >>= fun a => .ok (f a)) = .ok b) ↔ ∃ a, x = .ok a := by
  cases x <;> simp [bind, Except.bind]

mutual

/-- An object is encoded exactly if its arrays can be. -/
theorem Ty.encode_iff : ∀ {b : Bool} (t : Ty b) (x : t.Value N T) (aux : List Bytestr),
    (∃ p, t.encode sizeThreshold x aux = .ok p) ↔ t.Each (Exportable N) (fun _ => True) x
  | _, .number, _, _ => iff_of_true ⟨_, rfl⟩ trivial
  | _, .str, _, _ => iff_of_true ⟨_, rfl⟩ trivial
  | _, .bytes, _, _ => iff_of_true ⟨_, rfl⟩ trivial
  | _, .tensor, _, _ => iff_of_true ⟨_, rfl⟩ trivial
  | _, .ndarray, x, aux =>
    ⟨fun ⟨_, h⟩ => ((encodeNdarray_eq_ok sizeThreshold).mp h).1,
      fun h => ⟨_, (encodeNdarray_eq_ok sizeThreshold).mpr ⟨h, _, rfl, rfl⟩⟩⟩
  | _, .slice, _, _ => iff_of_true ⟨_, rfl⟩ trivial
  | _, .mmKwargs, _, _ => iff_of_true ⟨_, rfl⟩ trivial
  | _, .optional t, x, aux => by
    cases x with
    | none => exact iff_of_true ⟨_, rfl⟩ trivial
    | some x => exact Ty.encode_iff t x aux
  | _, .list t, xs, aux => by
    refine exists_bind_iff.trans (Iff.trans ?_ List.forall_iff_forall_mem.symm)
    exact exists_mapThreadM_iff (fun x _ aux => Ty.encode_iff t x aux) aux
  | _, .dict t, d, aux => by
    refine exists_bind_iff.trans ?_
    exact exists_mapThreadM_iff
      (fun e _ aux => exists_bind_iff.trans (Ty.encode_iff t e.2 aux)) aux
  | _, .struct fields, x, aux => exists_bind_iff.trans (Fields.encode_iff fields x aux)

theorem Fields.encode_iff : ∀ (fields : Fields) (x : fields.Value N T) (aux : List Bytestr),
    (∃ p, fields.encode sizeThreshold x aux = .ok p) ↔
      fields.Each (Exportable N) (fun _ => True) x
  | .nil, _, _ => iff_of_true ⟨_, rfl⟩ trivial
  | .cons t fields, (x, xs), aux => by
    constructor
    · rintro ⟨p, h⟩
      obtain ⟨⟨w, aux₁⟩, hw, h⟩ := bind_eq_ok.mp h
      obtain ⟨⟨ws, aux₂⟩, hws, -⟩ := bind_eq_ok.mp h
      exact ⟨(Ty.encode_iff t x aux).mp ⟨_, hw⟩, (Fields.encode_iff fields xs aux₁).mp ⟨_, hws⟩⟩
    · rintro ⟨hx, hxs⟩
      obtain ⟨⟨w, aux₁⟩, hw⟩ := (Ty.encode_iff t x aux).mpr hx
      obtain ⟨⟨ws, aux₂⟩, hws⟩ := (Fields.encode_iff fields xs aux₁).mpr hxs
      exact ⟨(w :: ws, aux₂), bind_eq_ok.mpr ⟨_, hw, bind_eq_ok.mpr ⟨_, hws, rfl⟩⟩⟩

end

/-! ### When an equal object is decoded -/

theorem exists_mapM_iff {α β : Type} {f : α → Except PyError β} {R : α → β → Prop} {P : α → Prop}
    {l : List α} (h : ∀ a ∈ l, (∃ b, f a = .ok b ∧ R a b) ↔ P a) :
    (∃ bs, l.mapM f = .ok bs ∧ List.Forall₂ R l bs) ↔ ∀ a ∈ l, P a := by
  constructor
  · rintro ⟨bs, hbs, hR⟩
    have hboth : List.Forall₂ (fun a b => f a = .ok b ∧ R a b) l bs := by
      rw [mapM_eq_ok] at hbs
      clear h
      induction hR with
      | nil => exact .nil
      | cons hab _ ih =>
        obtain ⟨b, bs, hb, hbs, heq⟩ := List.forall₂_cons_left_iff.mp hbs
        obtain ⟨rfl, rfl⟩ := List.cons.inj heq
        exact .cons ⟨hb, hab⟩ (ih hbs)
    intro a ha
    obtain ⟨b, -, hb⟩ := exists_of_forall₂_left hboth ha
    exact (h a ha).mp ⟨b, hb⟩
  · exact fun hall => exists_mapM_ok fun a ha => (h a ha).mpr (hall a ha)

theorem received_entry_iff {b : Bool} (t : Ty b) (e : String × t.Value N T) :
    (∃ e' : String × t.Value N T, (do
      let x ← t.received e.2
      return (e.1, x)) = Except.ok (ε := PyError) e' ∧ e.1 = e'.1 ∧ t.Equal e.2 e'.2) ↔
      ∃ y, t.received e.2 = .ok y ∧ t.Equal e.2 y := by
  constructor
  · rintro ⟨e', h, -, heq⟩
    obtain ⟨y, hy, h⟩ := bind_eq_ok.mp h
    cases h
    exact ⟨y, hy, heq⟩
  · rintro ⟨y, hy, heq⟩
    exact ⟨(e.1, y), bind_eq_ok.mpr ⟨y, hy, rfl⟩, rfl, heq⟩

/-- The keys of a dictionary are kept. -/
theorem entries_ofEntries_of_mapM {ν : Type} {f : ν → Except PyError ν} (d : Dict String ν)
    {entries : List (String × ν)} (h : d.entries.mapM (fun e => do
      let x ← f e.2
      return (e.1, x)) = .ok entries) : (Dict.ofEntries entries).entries = entries := by
  have hkeys : List.Forall₂ (fun e e' => e.1 = e'.1) d.entries entries :=
    (mapM_eq_ok.mp h).imp fun e e' he => by
      obtain ⟨y, -, he⟩ := bind_eq_ok.mp he
      cases he
      rfl
  have hmap : d.entries.map Prod.fst = entries.map Prod.fst := by
    rw [← List.forall₂_eq_eq_eq, List.forall₂_map_left_iff, List.forall₂_map_right_iff]
    exact hkeys
  exact Dict.entries_ofEntries (hmap ▸ d.nodup)

mutual

/-- An equal object is decoded exactly if every array can be rebuilt and every `MultiModalKwargs` is
that of its items. -/
theorem Ty.received_iff : ∀ {b : Bool} (t : Ty b) (x : t.Value N T),
    (∃ y, t.received x = .ok y ∧ t.Equal x y) ↔ t.Each (Restorable N) (Reindexed T) x
  | _, .number, x => iff_of_true ⟨x, rfl, rfl⟩ trivial
  | _, .str, x => iff_of_true ⟨x, rfl, rfl⟩ trivial
  | _, .bytes, x => iff_of_true ⟨x, rfl, rfl⟩ trivial
  | _, .tensor, x => iff_of_true ⟨T.copy x, rfl, (Torch.value_copy x).symm⟩ trivial
  | _, .ndarray, _ => received_ndarray_iff
  | _, .slice, x => iff_of_true ⟨x, rfl, rfl⟩ trivial
  | _, .mmKwargs, _ => received_kwargs_iff
  | _, .optional t, x => by
    cases x with
    | none => exact iff_of_true ⟨none, rfl, .none⟩ trivial
    | some x =>
      refine Iff.trans ?_ (Ty.received_iff t x)
      constructor
      · rintro ⟨y, hy, hrel⟩
        cases hreceived : t.received x with
        | error =>
          rw [Ty.received, hreceived] at hy
          cases hy
        | ok z =>
          rw [Ty.received, hreceived] at hy
          cases hy
          cases hrel with
          | some hrel => exact ⟨z, rfl, hrel⟩
      · rintro ⟨y, hy, hrel⟩
        exact ⟨some y, congrArg (some <$> ·) hy, .some hrel⟩
  | _, .list t, xs =>
    (exists_mapM_iff fun x _ => Ty.received_iff t x).trans List.forall_iff_forall_mem.symm
  | _, .dict t, d => by
    refine Iff.trans ?_ (exists_mapM_iff fun e (_ : e ∈ Dict.entries d) =>
      (received_entry_iff t e).trans (Ty.received_iff t e.2))
    constructor
    · rintro ⟨d', h, hall⟩
      obtain ⟨entries, hentries, h⟩ := bind_eq_ok.mp h
      cases h
      have hall : List.Forall₂ (fun e e' => e.1 = e'.1 ∧ t.Equal e.2 e'.2) (Dict.entries d)
        (Dict.ofEntries entries).entries := hall
      rw [entries_ofEntries_of_mapM d hentries] at hall
      exact ⟨entries, hentries, hall⟩
    · rintro ⟨entries, hentries, hall⟩
      refine ⟨Dict.ofEntries entries, bind_eq_ok.mpr ⟨entries, hentries, rfl⟩, ?_⟩
      change List.Forall₂ (fun e e' => e.1 = e'.1 ∧ t.Equal e.2 e'.2) (Dict.entries d)
        (Dict.ofEntries entries).entries
      rwa [entries_ofEntries_of_mapM d hentries]
  | _, .struct fields, x => Fields.received_iff fields x

theorem Fields.received_iff : ∀ (fields : Fields) (x : fields.Value N T),
    (∃ y, fields.received x = .ok y ∧ fields.Equal x y) ↔
      fields.Each (Restorable N) (Reindexed T) x
  | .nil, _ => iff_of_true ⟨(), rfl, trivial⟩ trivial
  | .cons t fields, (x, xs) => by
    constructor
    · rintro ⟨⟨y, ys⟩, h, hx, hxs⟩
      obtain ⟨y', hy, h⟩ := bind_eq_ok.mp h
      obtain ⟨ys', hys, h⟩ := bind_eq_ok.mp h
      cases h
      exact ⟨(Ty.received_iff t x).mp ⟨_, hy, hx⟩, (Fields.received_iff fields xs).mp ⟨_, hys, hxs⟩⟩
    · rintro ⟨hx, hxs⟩
      obtain ⟨y, hy, hxy⟩ := (Ty.received_iff t x).mpr hx
      obtain ⟨ys, hys, hxys⟩ := (Fields.received_iff fields xs).mpr hxs
      exact ⟨(y, ys), bind_eq_ok.mpr ⟨_, hy, bind_eq_ok.mpr ⟨_, hys, rfl⟩⟩, hxy, hxys⟩

end

/-! ### The round trip -/

section Conditions

variable {p p' : Strided N.DType → Prop} {q q' : MultiModalKwargs T.Tensor → Prop}

mutual

theorem Ty.each_and : ∀ {b : Bool} (t : Ty b) (x : t.Value N T),
    t.Each (fun a => p a ∧ p' a) (fun mm => q mm ∧ q' mm) x ↔ t.Each p q x ∧ t.Each p' q' x
  | _, .number, _ => (and_self_iff).symm
  | _, .str, _ => (and_self_iff).symm
  | _, .bytes, _ => (and_self_iff).symm
  | _, .tensor, _ => (and_self_iff).symm
  | _, .ndarray, _ => Iff.rfl
  | _, .slice, _ => (and_self_iff).symm
  | _, .mmKwargs, _ => Iff.rfl
  | _, .optional t, x => by
    cases x with
    | none => exact (and_self_iff).symm
    | some x => exact Ty.each_and t x
  | _, .list t, xs => by
    refine List.forall_iff_forall_mem.trans (Iff.trans ?_
      (and_congr List.forall_iff_forall_mem List.forall_iff_forall_mem).symm)
    simp only [Ty.each_and t, forall_and]
  | _, .dict t, d => by
    simp only [Ty.Each, Ty.each_and t, forall_and]
  | _, .struct fields, x => Fields.each_and fields x

theorem Fields.each_and : ∀ (fields : Fields) (x : fields.Value N T),
    fields.Each (fun a => p a ∧ p' a) (fun mm => q mm ∧ q' mm) x ↔
      fields.Each p q x ∧ fields.Each p' q' x
  | .nil, _ => (and_self_iff).symm
  | .cons t fields, (x, xs) => by
    rw [Fields.Each, Ty.each_and t x, Fields.each_and fields xs]
    exact and_and_and_comm

end

end Conditions

end Messages

/-! ## Times -/

end InferenceServer.Serial
