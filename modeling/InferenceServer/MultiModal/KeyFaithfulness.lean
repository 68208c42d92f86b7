import InferenceServer.MultiModal.Hasher

/-!
# What the keys tell apart

The stream of a call is a list of paths and leaves without delimiters, and an empty list or dictionary
leaves no trace in it. So every item with its options has the same stream as another one, for
instance as the same item with one more option that is an empty list; the boundary between a keyword
and its value can be moved as well, and so can the one between two options.

What the stream does tell apart are values of one form: the same nesting under the same names, with
leaves of the same types, texts of the same length, and arrays whose type string and buffer determine
them. An item is told from another one of its form whatever the options are: the streams can only
agree if the items do. In particular no two images have the same stream.

## Main results

* `Datum.Alike.tellsApart`, `HashInput.item_eq_of_stream_eq`, `hashKwargs_faithful`
-/

namespace InferenceServer

open List (append_assoc append_cancel_left append_inj nil_append)

variable {N : Numpy}

/-! ## Arrays -/

/-- The type string determines the type, and the bytes of an element determine the element. -/
def Numpy.Plain (N : Numpy) (d : N.DType) : Prop :=
  (∀ d', N.str d' = N.str d → d' = d) ∧ ∀ e e', N.elemBytes d e = N.elemBytes d e' → e = e'

/-- The shape ends where the data starts. -/
theorem shape_tellsApart {shape shape' : List Nat} (h : ∀ n ∈ shape, n < 2 ^ 63)
    (h' : ∀ n ∈ shape', n < 2 ^ 63) (i : Nat) :
    TellsApart (fun shape => shapeBytes i shape ++ utf8 "ndarray.data") shape shape' := by
  have hprefix : "ndarray.shape." = "ndarray." ++ "shape." := by decide
  have hdata : "ndarray.data" = "ndarray." ++ "data" := by decide
  -- the paths of a size and of the data differ in the letter after the common prefix
  have hne : ∀ (u v : List UInt8), utf8 "shape." ++ u ≠ utf8 "data" ++ v := by
    intro u v he
    have hhead : (115 : UInt8) = 100 := (List.cons.inj he).1
    exact absurd hhead (by decide)
  induction shape generalizing shape' i with
  | nil =>
    cases shape' with
    | nil => exact fun r s he => ⟨rfl, append_cancel_left he⟩
    | cons n' shape' =>
      intro r s he
      simp only [shapeBytes, hprefix, hdata, utf8_append, nil_append, append_assoc] at he
      exact absurd (append_cancel_left he).symm (hne _ _)
  | cons n shape ih =>
    cases shape' with
    | nil =>
      intro r s he
      simp only [shapeBytes, hprefix, hdata, utf8_append, nil_append, append_assoc] at he
      exact absurd (append_cancel_left he) (hne _ _)
    | cons n' shape' =>
      intro r s he
      simp only [shapeBytes, append_assoc] at he
      obtain ⟨hn, hrest⟩ := append_inj (append_cancel_left he) (by simp)
      have hlt := h n List.mem_cons_self
      have hlt' := h' n' List.mem_cons_self
      obtain rfl : n = n' := leBytes_inj (k := 8) (by omega) (by omega) hn
      obtain ⟨rfl, hrs⟩ := ih (fun m hm => h m (List.mem_cons_of_mem _ hm))
        (fun m hm => h' m (List.mem_cons_of_mem _ hm)) (i + 1) r s (by
          simpa only [append_assoc] using hrest)
      exact ⟨rfl, hrs⟩

/-- What follows the type string starts with an `n`. -/
theorem exists_shape_eq_cons (shape : List Nat) (rest : List UInt8) :
    ∃ w, shapeBytes 0 shape ++ (utf8 "ndarray.data" ++ rest) = 110 :: w := by
  cases shape with
  | nil => exact ⟨_, rfl⟩
  | cons n shape =>
    have hprefix : "ndarray.shape." = "n" ++ "darray.shape." := by decide
    have hn : utf8 "n" = [110] := by decide
    simp only [shapeBytes, utf8_append, hprefix, hn, List.cons_append, nil_append]
    exact ⟨_, rfl⟩

/-- Type strings are told apart by what follows them. -/
theorem str_tellsApart {d d' : N.DType} {shape shape' : List Nat} {rest rest' : List UInt8}
    (he : utf8 (N.str d) ++ (shapeBytes 0 shape ++ (utf8 "ndarray.data" ++ rest)) =
      utf8 (N.str d') ++ (shapeBytes 0 shape' ++ (utf8 "ndarray.data" ++ rest'))) :
    N.str d = N.str d' ∧ shapeBytes 0 shape ++ (utf8 "ndarray.data" ++ rest) =
      shapeBytes 0 shape' ++ (utf8 "ndarray.data" ++ rest') := by
  obtain ⟨w, hw⟩ := exists_shape_eq_cons shape rest
  obtain ⟨w', hw'⟩ := exists_shape_eq_cons shape' rest'
  rcases List.append_eq_append_iff.mp he with ⟨t, ht, hrest⟩ | ⟨t, ht, hrest⟩
  · cases t with
    | nil => exact ⟨(utf8_inj (by simpa using ht)).symm, by simpa using hrest⟩
    | cons c t =>
      rw [hw] at hrest
      obtain ⟨rfl, -⟩ := List.cons.inj hrest
      exact absurd ht (N.str_delimited d' d t)
  · cases t with
    | nil => exact ⟨utf8_inj (by simpa using ht), by simpa using hrest.symm⟩
    | cons c t =>
      rw [hw'] at hrest
      obtain ⟨rfl, -⟩ := List.cons.inj hrest
      exact absurd ht (N.str_delimited d d' t)

namespace NdArray

theorem ext_elems {a b : NdArray N} (hd : a.dtype = b.dtype) (hs : a.shape = b.shape)
    (he : a.elems = b.elems) : a = b := by
  cases a; cases b
  simp_all

theorem length_data (a : NdArray N) : a.data.length = a.shape.prod * N.itemsize a.dtype := by
  simp [data, List.length_flatMap, ← a.length_elems, N.length_elemBytes]

/-- The buffer determines the elements of an array of known type and shape. -/
theorem elems_eq {a b : NdArray N} (hplain : N.Plain a.dtype) (hd : a.dtype = b.dtype)
    (hs : a.shape = b.shape) (hdata : a.data = b.data) : a.elems = b.elems := by
  have hlen : a.elems.length = b.elems.length := by rw [a.length_elems, b.length_elems, hs]
  have hforall : List.Forall₂ (TellsApart (N.elemBytes a.dtype)) a.elems b.elems := by
    rw [List.forall₂_iff_get]
    refine ⟨hlen, fun i _ _ => .of_length_eq ?_ (hplain.2 _ _)⟩
    rw [N.length_elemBytes, N.length_elemBytes]
  refine (TellsApart.flatMap hforall).eq ?_
  rw [data, data, ← hd] at hdata
  exact hdata

/-- **Arrays are told apart by their leaves.** -/
theorem tellsApart {a b : NdArray N} (hplain : N.Plain a.dtype) :
    TellsApart (fun a : NdArray N => arrayBytes (N.str a.dtype) a.shape a.data) a b := by
  intro r s he
  simp only [arrayBytes, append_assoc] at he
  obtain ⟨hstr, hrest⟩ := str_tellsApart (append_cancel_left he)
  have hd : a.dtype = b.dtype := (hplain.1 _ hstr.symm).symm
  obtain ⟨hs, hdata⟩ := shape_tellsApart a.shape_lt b.shape_lt 0 _ _ (by
    simpa only [append_assoc] using hrest)
  obtain ⟨hdata, hrs⟩ := append_inj hdata (by rw [length_data, length_data, hs, hd])
  exact ⟨ext_elems hd hs (elems_eq hplain hd hs hdata), hrs⟩

end NdArray

/-- **Images are told apart by their leaves.** -/
theorem Image.tellsApart (i j : Image) :
    TellsApart (fun i : Image => arrayBytes "|u1" [i.height, i.width, 4] i.pixels) i j := by
  have hlt : ∀ k : Image, ∀ n ∈ [k.height, k.width, 4], n < 2 ^ 63 := by
    intro k n hn
    obtain ⟨hh, hw⟩ := k.shape_lt
    simp only [List.mem_cons, List.not_mem_nil, or_false] at hn
    omega
  intro r s he
  simp only [arrayBytes, append_assoc] at he
  obtain ⟨hs, hdata⟩ := shape_tellsApart (hlt i) (hlt j) 0 _ _ (by
    simpa only [append_assoc] using append_cancel_left (append_cancel_left he))
  obtain ⟨hheight, hwidth⟩ : i.height = j.height ∧ i.width = j.width := by simpa using hs
  obtain ⟨hpixels, hrs⟩ := append_inj hdata (by
    rw [i.length_pixels, j.length_pixels, hheight, hwidth])
  refine ⟨?_, hrs⟩
  cases i; cases j
  simp_all

/-! ## Values of one form -/

/-- Two integers that `np.array` gives the same type, which holds them. -/
def SameIntType (m n : Int) : Prop :=
  (-2 ^ 63 ≤ m ∧ m < 2 ^ 63 ∧ -2 ^ 63 ≤ n ∧ n < 2 ^ 63) ∨
    (2 ^ 63 ≤ m ∧ m < 2 ^ 64 ∧ 2 ^ 63 ≤ n ∧ n < 2 ^ 64)

theorem intBytes_inj {m n : Int} (h : SameIntType m n) (he : intBytes N m = intBytes N n) :
    m = n := by
  unfold intBytes at he
  rcases h with ⟨hm, hm', hn, hn'⟩ | ⟨hm, hm', hn, hn'⟩
  · rw [if_pos ⟨hm, hm'⟩, if_pos ⟨hn, hn'⟩] at he
    have hmod := leBytes_inj (k := 8) (by omega) (by omega) he
    omega
  · rw [if_neg (by omega), if_pos (by omega), if_neg (by omega), if_pos (by omega)] at he
    have hnat := leBytes_inj (k := 8) (by omega) (by omega) he
    omega

theorem length_intBytes (n : Int) : (intBytes N n).length = 8 := by
  unfold intBytes
  split_ifs <;> exact length_leBytes 8 _

namespace Datum

mutual

/-- Values of one form: the same nesting under the same names, and leaves of the same types whose
serialisations have the same length, or say theirs. -/
inductive Alike : Datum N → Datum N → Prop
  | str {s t : String} (h : (utf8 s).length = (utf8 t).length) : Alike (str s) (str t)
  | bytes {b c : List UInt8} (h : b.length = c.length) : Alike (bytes b) (bytes c)
  | bool (b c : Bool) : Alike (bool b) (bool c)
  | int {m n : Int} (h : SameIntType m n) : Alike (int m) (int n)
  | float (x y : BitVec 64) : Alike (float x) (float y)
  | image (i j : Image) : Alike (image i) (image j)
  | tensor {a : NdArray N} (h : N.Plain a.dtype) (b : NdArray N) : Alike (tensor a) (tensor b)
  | ndarray {a : NdArray N} (h : N.Plain a.dtype) (b : NdArray N) : Alike (ndarray a) (ndarray b)
  | list {l l' : List (Datum N)} (h : AlikeElems l l') : Alike (list l) (list l')
  | dict {d d' : List (String × Datum N)} (h : AlikeEntries d d') : Alike (dict d) (dict d')

inductive AlikeElems : List (Datum N) → List (Datum N) → Prop
  | nil : AlikeElems [] []
  | cons {x y : Datum N} {l l' : List (Datum N)} (h : Alike x y) (hs : AlikeElems l l') :
    AlikeElems (x :: l) (y :: l')

inductive AlikeEntries : List (String × Datum N) → List (String × Datum N) → Prop
  | nil : AlikeEntries [] []
  | cons {x y : Datum N} {d d' : List (String × Datum N)} (k : String) (h : Alike x y)
    (hs : AlikeEntries d d') : AlikeEntries ((k, x) :: d) ((k, y) :: d')

end

mutual

/-- **The stream tells values of one form apart**, whatever follows. -/
theorem Alike.tellsApart : ∀ {x y : Datum N}, Alike x y → ∀ key,
    TellsApart (iterItemToBytes key) x y
  | _, _, .str (s := s) (t := t) h, key => by
    have hs : TellsApart utf8 s t := .of_length_eq h utf8_inj
    intro r u he
    simp only [iterItemToBytes, serializeItem] at he
    obtain ⟨rfl, hrs⟩ := hs.prepend (utf8 key) r u he
    exact ⟨rfl, hrs⟩
  | _, _, .bytes (b := b) (c := c) h, key => by
    have hb : TellsApart id b c := .of_length_eq h id
    intro r u he
    simp only [iterItemToBytes, serializeItem] at he
    obtain ⟨rfl, hrs⟩ := hb.prepend (utf8 key) r u he
    exact ⟨rfl, hrs⟩
  | _, _, .bool b c, key => by
    have hb : TellsApart (fun b : Bool => [if b then (1 : UInt8) else 0]) b c :=
      .of_length_eq rfl (by cases b <;> cases c <;> simp)
    intro r u he
    simp only [iterItemToBytes, serializeItem] at he
    obtain ⟨rfl, hrs⟩ := hb.prepend (utf8 key) r u he
    exact ⟨rfl, hrs⟩
  | _, _, .int (m := m) (n := n) h, key => by
    have hn : TellsApart (intBytes N) m n :=
      .of_length_eq ((length_intBytes m).trans (length_intBytes n).symm) (intBytes_inj h)
    intro r u he
    simp only [iterItemToBytes, serializeItem] at he
    obtain ⟨rfl, hrs⟩ := hn.prepend (utf8 key) r u he
    exact ⟨rfl, hrs⟩
  | _, _, .float x y, key => by
    have hx : TellsApart (fun x : BitVec 64 => leBytes 8 x.toNat) x y :=
      .of_length_eq (by simp) fun he =>
        BitVec.eq_of_toNat_eq (leBytes_inj (k := 8) x.isLt y.isLt he)
    intro r u he
    simp only [iterItemToBytes, serializeItem] at he
    obtain ⟨rfl, hrs⟩ := hx.prepend (utf8 key) r u he
    exact ⟨rfl, hrs⟩
  | _, _, .image i j, key => by
    intro r u he
    simp only [iterItemToBytes, serializeItem] at he
    obtain ⟨rfl, hrs⟩ := ((Image.tellsApart i j).prepend (utf8 "image")).prepend (utf8 key) r u he
    exact ⟨rfl, hrs⟩
  | _, _, .tensor h b, key => by
    intro r u he
    simp only [iterItemToBytes, serializeItem] at he
    obtain ⟨rfl, hrs⟩ :=
      ((NdArray.tellsApart h (b := b)).prepend (utf8 "tensor")).prepend (utf8 key) r u he
    exact ⟨rfl, hrs⟩
  | _, _, .ndarray h b, key => by
    intro r u he
    simp only [iterItemToBytes, serializeItem] at he
    obtain ⟨rfl, hrs⟩ := (NdArray.tellsApart h (b := b)).prepend (utf8 key) r u he
    exact ⟨rfl, hrs⟩
  | _, _, .list h, key => by
    intro r u he
    simp only [iterItemToBytes] at he
    obtain ⟨rfl, hrs⟩ := h.tellsApart key 0 r u he
    exact ⟨rfl, hrs⟩
  | _, _, .dict h, key => by
    intro r u he
    simp only [iterItemToBytes] at he
    obtain ⟨rfl, hrs⟩ := h.tellsApart key r u he
    exact ⟨rfl, hrs⟩

theorem AlikeElems.tellsApart : ∀ {l l' : List (Datum N)}, AlikeElems l l' → ∀ key i,
    TellsApart (iterElems key i) l l'
  | _, _, .nil, key, i => fun r u he => ⟨rfl, by simpa [iterElems] using he⟩
  | _, _, .cons h hs, key, i => by
    intro r u he
    simp only [iterElems, append_assoc] at he
    obtain ⟨rfl, hrest⟩ := h.tellsApart _ _ _ he
    obtain ⟨rfl, hrs⟩ := hs.tellsApart _ _ _ _ hrest
    exact ⟨rfl, hrs⟩

theorem AlikeEntries.tellsApart : ∀ {d d' : List (String × Datum N)}, AlikeEntries d d' →
    ∀ key, TellsApart (iterEntries key) d d'
  | _, _, .nil, key => fun r u he => ⟨rfl, by simpa [iterEntries] using he⟩
  | _, _, .cons k h hs, key => by
    intro r u he
    simp only [iterEntries, append_assoc] at he
    obtain ⟨rfl, hrest⟩ := h.tellsApart _ _ _ he
    obtain ⟨rfl, hrs⟩ := hs.tellsApart _ _ _ hrest
    exact ⟨rfl, hrs⟩

end

/-- The options of the processor. -/
theorem AlikeEntries.hashKwargs : ∀ {d d' : List (String × Datum N)}, AlikeEntries d d' →
    TellsApart hashKwargs d d'
  | _, _, .nil => fun r u he => ⟨rfl, by simpa [InferenceServer.hashKwargs] using he⟩
  | _, _, .cons k h hs => by
    intro r u he
    simp only [InferenceServer.hashKwargs, List.flatMap_cons, append_assoc] at he
    obtain ⟨rfl, hrest⟩ := h.tellsApart _ _ _ he
    obtain ⟨rfl, hrs⟩ := hs.hashKwargs _ _ hrest
    exact ⟨rfl, hrs⟩

end Datum

/-! ## Keys -/

namespace HashInput

variable {modality : String} {x y : HashInput N modality}

/-- Inputs of one form. -/
def Alike (x y : HashInput N modality) : Prop :=
  x.item.Alike y.item ∧ Datum.AlikeEntries x.kwargs y.kwargs

theorem stream_eq (modelId : String) (x : HashInput N modality) :
    x.stream modelId = utf8 "model_id" ++ utf8 modelId ++
      (x.item.iterItemToBytes modality ++ hashKwargs x.kwargs) := by
  simp [stream, hashKwargs, Datum.iterItemToBytes, Datum.serializeItem]

/-- **Items of one form are told apart whatever the options are.** -/
theorem item_eq_of_stream_eq {modelId : String} (h : x.item.Alike y.item)
    (he : x.stream modelId = y.stream modelId) :
    x.item = y.item ∧ hashKwargs x.kwargs = hashKwargs y.kwargs := by
  rw [stream_eq, stream_eq] at he
  exact h.tellsApart modality _ _ (append_cancel_left he)

/-- One more option that is an empty list. -/
def withEmpty (x : HashInput N modality) (k : String) (hk : k ∉ x.kwargs.map Prod.fst)
    (hfresh : k ≠ "model_id" ∧ k ≠ modality) : HashInput N modality where
  item := x.item
  kwargs := x.kwargs ++ [(k, .list [])]
  nodup := by
    rw [List.map_append, List.nodup_append]
    refine ⟨x.nodup, by simp, ?_⟩
    rintro j hj _ hk' rfl
    obtain rfl : j = k := by simpa using hk'
    exact hk hj
  fresh := by
    intro j hj
    rcases List.mem_append.mp (List.map_append ▸ hj) with hj | hj
    · exact x.fresh j hj
    · obtain rfl : j = k := by simpa using hj
      exact hfresh

theorem stream_withEmpty (modelId : String) (x : HashInput N modality) (k : String)
    (hk : k ∉ x.kwargs.map Prod.fst) (hfresh : k ≠ "model_id" ∧ k ≠ modality) :
    (x.withEmpty k hk hfresh).stream modelId = x.stream modelId := by
  rw [stream_eq, stream_eq]
  simp [withEmpty, hashKwargs, Datum.iterItemToBytes, Datum.iterElems]

end HashInput

/-- **Every input shares its stream with another one, though not with one of its form.** -/
theorem hashKwargs_faithful (modelId : String) {modality : String} (x : HashInput N modality) :
    (¬ ∀ y : HashInput N modality, y.stream modelId = x.stream modelId →
      y.item = x.item ∧ y.kwargs = x.kwargs) ∧
    ∀ y : HashInput N modality, y.Alike x → y.stream modelId = x.stream modelId →
      y.item = x.item ∧ y.kwargs = x.kwargs := by
  refine ⟨fun h => ?_, fun y halike he => ?_⟩
  · obtain ⟨k, hk⟩ := Infinite.exists_notMem_finset
      (insert "model_id" (insert modality (x.kwargs.map Prod.fst).toFinset))
    simp only [Finset.mem_insert, List.mem_toFinset, not_or] at hk
    have hsame := (h (x.withEmpty k hk.2.2 ⟨hk.1, hk.2.1⟩) (x.stream_withEmpty ..)).2
    simp [HashInput.withEmpty] at hsame
  · obtain ⟨hitem, hrest⟩ := HashInput.item_eq_of_stream_eq halike.1 he
    exact ⟨hitem, halike.2.hashKwargs.eq hrest⟩

/-- NumPy with unsigned bytes. -/
def byteArrays : Numpy where
  DType := Unit
  Elem := UInt8
  str _ := "|u1"
  itemsize _ := 1
  elemBytes _ b := [b]
  address _ := 0
  length_elemBytes _ _ := rfl
  str_delimited _ _ w h := by
    have hlen := congrArg List.length h
    simp at hlen

/-- One pixel, processed under a single option. -/
def pixelInput (option : String) (value : String) (h : option ≠ "model_id" ∧ option ≠ "image") :
    HashInput byteArrays "image" where
  item := .image ⟨1, 1, [0, 0, 0, 255], rfl, by decide⟩
  kwargs := [(option, .str value)]
  nodup := by simp
  fresh := by simpa using h

/-- **Two options collide**: the end of a keyword can be the start of its value. -/
theorem optionBoundary_collides :
    ∃ x y : HashInput byteArrays "image", x.stream "m" = y.stream "m" ∧ x.kwargs ≠ y.kwargs := by
  refine ⟨pixelInput "mode" "fast" (by decide), pixelInput "mod" "efast" (by decide), ?_, ?_⟩
  · decide +kernel
  · simp [pixelInput]

end InferenceServer
