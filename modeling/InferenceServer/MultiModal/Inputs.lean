import InferenceServer.Basic
import InferenceServer.Lib.Dict
import InferenceServer.Lib.Outcome
import InferenceServer.Lib.Strided

/-!
# Keyword arguments of multi-modal models

The inputs of a multi-modal model are nested lists of tensors, one for each keyword argument
(`vllm/multimodal/inputs.py`). `MultiModalKwargs` keeps them together with the items they were made
from, so that the arguments of a single item can be taken out again: the items by their modality, the
elements of an item by their keyword, and with every element the field that says how the elements of
several items make up one argument.

What torch does with tensors is a parameter, `TensorOps`: whether the tensors are views of a memory or
only what they say makes no difference to the functions of this file. `fromItems_map` says so.
-/

namespace InferenceServer

open Outcome

/-- A number of Python; a float is its 64 bits. -/
inductive PyNumber where
  | bool (b : Bool)
  | int (n : Int)
  | float (bits : BitVec 64)
deriving DecidableEq

/-- `NestedTensors`. A tuple counts as a list. -/
inductive NestedTensors (τ : Type) where
  | tensor (t : τ)
  | number (n : PyNumber)
  | list (elems : List (NestedTensors τ))

/-- `slice`, with integers only. -/
structure Slice where
  start : Option Int
  stop : Option Int
  step : Option Int
deriving DecidableEq

/-- The slices of a flat field. -/
inductive NestedSlices where
  | slice (s : Slice)
  | list (elems : List NestedSlices)

/-- `BaseMultiModalField` and its three subclasses. -/
inductive MultiModalField where
  | batched
  | flat (slices : NestedSlices) (dim : Int)
  | shared (batchSize : Int)

/-- The two fields have the same class. -/
def MultiModalField.sameType : MultiModalField → MultiModalField → Bool
  | batched, batched => true
  | flat .., flat .. => true
  | shared _, shared _ => true
  | _, _ => false

structure MultiModalFieldElem (τ : Type) where
  modality : String
  key : String
  data : NestedTensors τ
  field : MultiModalField

/-- The elements of one item by their keyword. -/
abbrev MultiModalKwargsItem (τ : Type) := Dict String (MultiModalFieldElem τ)

structure MultiModalKwargs (τ : Type) where
  /-- The keyword arguments. -/
  data : Dict String (NestedTensors τ)
  itemsByModality : Dict String (List (MultiModalKwargsItem τ))

/-- What `from_items` uses of torch. -/
structure TensorOps (τ : Type) where
  shape : τ → List Nat
  /-- `t.unsqueeze(0).contiguous()`. -/
  unsqueeze : τ → τ
  contiguous : τ → τ
  stack : List τ → Except PyError τ
  /-- `torch.concat` along a dimension. -/
  concat : Int → List τ → Except PyError τ
  /-- Iteration over a tensor. -/
  iter : τ → Except PyError (List τ)

section Fields

variable {τ : Type} (O : TensorOps τ)

/-- `is_list_of(batch, torch.Tensor, check="all")`. -/
def allTensors : List (NestedTensors τ) → Option (List τ)
  | [] => some []
  | .tensor t :: batch => (allTensors batch).map (t :: ·)
  | _ :: _ => none

/-- Iteration over a nested value. -/
def NestedTensors.iter : NestedTensors τ → Except PyError (List (NestedTensors τ))
  | tensor t => List.map tensor <$> O.iter t
  | number _ => .error .typeError
  | list elems => .ok elems

/-- `_reduce_data` of `MultiModalBatchedField`. -/
def reduceBatched (batch : List (NestedTensors τ)) : Except PyError (NestedTensors τ) :=
  match allTensors batch with
  | some [t] => .ok (.tensor (O.unsqueeze t))
  | some (t :: u :: rest) =>
    if (u :: rest).all fun s => O.shape s = O.shape t then
      .tensor <$> O.stack (t :: u :: rest)
    else .ok (.list batch)
  | _ => .ok (.list batch)

/-- `_expect_same_shape`: the shape without the dimension `dim`. -/
def expectSameShape (dim : Int) (t : τ) : List Nat :=
  pySlice (O.shape t) 0 dim ++ pySlice (O.shape t) (dim + 1) (O.shape t).length

/-- The end of `_reduce_data` of `MultiModalFlatField`. -/
def reduceNested (dim : Int) (batch : List (NestedTensors τ)) : Except PyError (NestedTensors τ) := do
  require (dim = 0) (.assertionError .reduceFlatData)
  let elems ← batch.mapM (NestedTensors.iter O)
  return .list elems.flatten

/-- `_reduce_data` of `MultiModalFlatField`. -/
def reduceFlat (dim : Int) (batch : List (NestedTensors τ)) : Except PyError (NestedTensors τ) :=
  match allTensors batch with
  | some [t] => .ok (.tensor (O.contiguous t))
  | some (t :: u :: rest) =>
    if (u :: rest).all fun s => expectSameShape O dim s = expectSameShape O dim t then
      .tensor <$> O.concat dim (t :: u :: rest)
    else reduceNested O dim batch
  | _ => reduceNested O dim batch

/-- `_reduce_data` of `MultiModalSharedField`. -/
def reduceShared : List (NestedTensors τ) → Except PyError (NestedTensors τ)
  | [] => .error .indexError
  | data :: _ => .ok data

def MultiModalField.reduce : MultiModalField → List (NestedTensors τ) →
    Except PyError (NestedTensors τ)
  | batched => reduceBatched O
  | flat _ dim => reduceFlat O dim
  | shared _ => reduceShared

/-- `elems[0].field.reduce_data(elems)`. -/
def reduceData : List (MultiModalFieldElem τ) → Except PyError (NestedTensors τ)
  | [] => .error .indexError
  | elem :: elems => do
    require (elems.all fun e => elem.field.sameType e.field) .valueError
    elem.field.reduce O ((elem :: elems).map (·.data))

end Fields

section Items

variable {τ : Type}

/-- `MultiModalKwargsItem.from_elems`. -/
def MultiModalKwargsItem.fromElems (elems : List (MultiModalFieldElem τ)) :
    MultiModalKwargsItem τ :=
  Dict.ofEntries (elems.map fun elem => (elem.key, elem))

/-- `item.values()`. -/
def MultiModalKwargsItem.elems (item : MultiModalKwargsItem τ) : List (MultiModalFieldElem τ) :=
  item.entries.map Prod.snd

/-- `MultiModalKwargsItem.modality`. -/
def MultiModalKwargsItem.modality (item : MultiModalKwargsItem τ) : Except PyError String :=
  match item.elems with
  | [] => .error (.assertionError .itemModality)
  | elem :: elems => do
    require (elems.all fun e => e.modality = elem.modality) (.assertionError .itemModality)
    return elem.modality

/-- `full_groupby`. -/
def fullGroupby {κ ν : Type} [DecidableEq κ] (key : ν → Except PyError κ) (values : List ν) :
    Except PyError (Dict κ (List ν)) :=
  threadM (fun v groups => do
    let k ← key v
    return groups.set k (groups.getD k [] ++ [v])) values ∅

/-- The elements of all items by their keyword. -/
def elemsByKey (items : List (MultiModalKwargsItem τ)) :
    Dict String (List (MultiModalFieldElem τ)) :=
  (items.flatMap fun item => item.entries).foldl
    (fun elems e => elems.set e.1 (elems.getD e.1 [] ++ [e.2])) ∅

namespace MultiModalKwargs

/-- `MultiModalKwargs.__init__`. -/
def init (data : Dict String (NestedTensors τ)) (items : List (MultiModalKwargsItem τ)) :
    Except PyError (MultiModalKwargs τ) := do
  let groups ← fullGroupby MultiModalKwargsItem.modality items
  return { data, itemsByModality := groups }

/-- `MultiModalKwargs.from_items`. -/
def fromItems (O : TensorOps τ) (items : List (MultiModalKwargsItem τ)) :
    Except PyError (MultiModalKwargs τ) := do
  let data ← (elemsByKey items).entries.mapM fun e => do
    let reduced ← reduceData O e.2
    return (e.1, reduced)
  init (Dict.ofEntries data) items

/-- The items, one modality after the other. -/
def items (mm : MultiModalKwargs τ) : List (MultiModalKwargsItem τ) :=
  mm.itemsByModality.entries.flatMap Prod.snd

end MultiModalKwargs

end Items

/-! ## Other kinds of tensors -/

section Maps

variable {τ σ : Type} (f : τ → σ)

mutual

def NestedTensors.map : NestedTensors τ → NestedTensors σ
  | .tensor t => .tensor (f t)
  | .number n => .number n
  | .list elems => .list (NestedTensors.mapElems elems)

def NestedTensors.mapElems : List (NestedTensors τ) → List (NestedTensors σ)
  | [] => []
  | elem :: elems => elem.map :: NestedTensors.mapElems elems

end

theorem NestedTensors.mapElems_eq (elems : List (NestedTensors τ)) :
    NestedTensors.mapElems f elems = elems.map (·.map f) := by
  induction elems with
  | nil => rfl
  | cons elem elems ih => rw [NestedTensors.mapElems, ih, List.map_cons]

mutual

theorem NestedTensors.map_map {ρ : Type} (g : σ → ρ) :
    ∀ nt : NestedTensors τ, (nt.map f).map g = nt.map fun t => g (f t)
  | .tensor _ => rfl
  | .number _ => rfl
  | .list elems => congrArg NestedTensors.list (NestedTensors.mapElems_mapElems g elems)

theorem NestedTensors.mapElems_mapElems {ρ : Type} (g : σ → ρ) :
    ∀ elems : List (NestedTensors τ),
      NestedTensors.mapElems g (NestedTensors.mapElems f elems) =
        NestedTensors.mapElems (fun t => g (f t)) elems
  | [] => rfl
  | elem :: elems =>
    congrArg₂ List.cons (NestedTensors.map_map g elem) (NestedTensors.mapElems_mapElems g elems)

end

def MultiModalFieldElem.map (elem : MultiModalFieldElem τ) : MultiModalFieldElem σ :=
  { elem with data := elem.data.map f }

def MultiModalKwargsItem.map (item : MultiModalKwargsItem τ) : MultiModalKwargsItem σ :=
  item.mapValues (·.map f)

def MultiModalKwargs.map (mm : MultiModalKwargs τ) : MultiModalKwargs σ :=
  { data := mm.data.mapValues (·.map f)
    itemsByModality := mm.itemsByModality.mapValues (List.map (MultiModalKwargsItem.map f)) }

/-- The operations of torch respect the map `f`. -/
structure TensorOps.Hom (O : TensorOps τ) (P : TensorOps σ) : Prop where
  shape : ∀ t, P.shape (f t) = O.shape t
  unsqueeze : ∀ t, P.unsqueeze (f t) = f (O.unsqueeze t)
  contiguous : ∀ t, P.contiguous (f t) = f (O.contiguous t)
  stack : ∀ ts, P.stack (ts.map f) = f <$> O.stack ts
  concat : ∀ dim ts, P.concat dim (ts.map f) = f <$> O.concat dim ts
  iter : ∀ t, P.iter (f t) = List.map f <$> O.iter t

section Naturality

variable {f} {O : TensorOps τ} {P : TensorOps σ} (hom : TensorOps.Hom f O P)

theorem NestedTensors.map_list (elems : List (NestedTensors τ)) :
    (NestedTensors.list elems).map f = .list (elems.map (·.map f)) := by
  rw [NestedTensors.map, NestedTensors.mapElems_eq]

theorem allTensors_map (batch : List (NestedTensors τ)) :
    allTensors (batch.map (·.map f)) = (allTensors batch).map (List.map f) := by
  induction batch with
  | nil => rfl
  | cons elem batch ih =>
    cases elem with
    | tensor t =>
      rw [List.map_cons, NestedTensors.map, allTensors, ih, allTensors]
      cases allTensors batch <;> rfl
    | number | list => rfl

include hom

theorem expectSameShape_map (dim : Int) (t : τ) :
    expectSameShape P dim (f t) = expectSameShape O dim t := by
  rw [expectSameShape, hom.shape, expectSameShape]

theorem NestedTensors.iter_map (elem : NestedTensors τ) :
    (elem.map f).iter P = List.map (·.map f) <$> elem.iter O := by
  cases elem with
  | tensor t =>
    rw [NestedTensors.map, NestedTensors.iter, hom.iter, NestedTensors.iter]
    cases O.iter t with
    | error => rfl
    | ok ts =>
      refine congrArg Except.ok ?_
      rw [List.map_map, List.map_map]
      rfl
  | number n => rfl
  | list elems =>
    rw [NestedTensors.map_list]
    rfl

theorem reduceNested_map (dim : Int) (batch : List (NestedTensors τ)) :
    reduceNested P dim (batch.map (·.map f)) = NestedTensors.map f <$> reduceNested O dim batch := by
  have hiter : (batch.map (·.map f)).mapM (NestedTensors.iter P) =
      List.map (List.map (·.map f)) <$> batch.mapM (NestedTensors.iter O) := by
    induction batch with
    | nil => rfl
    | cons elem batch ih =>
      rw [List.map_cons, List.mapM_cons, NestedTensors.iter_map hom, List.mapM_cons, ih]
      cases elem.iter O with
      | error => rfl
      | ok elems => cases batch.mapM (NestedTensors.iter O) <;> rfl
  unfold reduceNested
  rw [hiter]
  cases require (dim = 0) (PyError.assertionError .reduceFlatData) with
  | error => rfl
  | ok =>
    cases batch.mapM (NestedTensors.iter O) with
    | error => rfl
    | ok elems =>
      refine congrArg Except.ok ?_
      rw [NestedTensors.map_list, List.map_flatten]

theorem reduce_map (field : MultiModalField) (batch : List (NestedTensors τ)) :
    field.reduce P (batch.map (·.map f)) = NestedTensors.map f <$> field.reduce O batch := by
  have hlist : (.ok (.list (batch.map (·.map f))) : Except PyError (NestedTensors σ)) =
      NestedTensors.map f <$> .ok (.list batch) :=
    congrArg Except.ok (NestedTensors.map_list batch).symm
  cases field with
  | batched =>
    change reduceBatched P _ = _ <$> reduceBatched O batch
    unfold reduceBatched
    rw [allTensors_map]
    rcases allTensors batch with _ | _ | ⟨t, _ | ⟨u, rest⟩⟩
    · exact hlist
    · exact hlist
    · exact congrArg (fun s => Except.ok (NestedTensors.tensor s)) (hom.unsqueeze t)
    · have hall : ((u :: rest).map f).all (fun s => decide (P.shape s = P.shape (f t))) =
          (u :: rest).all fun s => decide (O.shape s = O.shape t) := by
        rw [List.all_map]
        exact congrArg ((u :: rest).all ·) (funext fun s => by simp [hom.shape])
      change (if ((u :: rest).map f).all (fun s => decide (P.shape s = P.shape (f t))) = true then
          NestedTensors.tensor <$> P.stack ((t :: u :: rest).map f)
        else .ok (.list (batch.map (·.map f)))) = _
      rw [hall, hom.stack]
      dsimp only
      split_ifs
      · cases O.stack (t :: u :: rest) <;> rfl
      · exact hlist
  | flat slices dim =>
    change reduceFlat P dim _ = _ <$> reduceFlat O dim batch
    unfold reduceFlat
    rw [allTensors_map]
    rcases allTensors batch with _ | _ | ⟨t, _ | ⟨u, rest⟩⟩
    · exact reduceNested_map hom dim batch
    · exact reduceNested_map hom dim batch
    · exact congrArg (fun s => Except.ok (NestedTensors.tensor s)) (hom.contiguous t)
    · have hall : ((u :: rest).map f).all
          (fun s => decide (expectSameShape P dim s = expectSameShape P dim (f t))) =
          (u :: rest).all fun s => decide (expectSameShape O dim s = expectSameShape O dim t) := by
        rw [List.all_map]
        exact congrArg ((u :: rest).all ·) (funext fun s => by simp [expectSameShape_map hom])
      change (if ((u :: rest).map f).all
            (fun s => decide (expectSameShape P dim s = expectSameShape P dim (f t))) = true then
          NestedTensors.tensor <$> P.concat dim ((t :: u :: rest).map f)
        else reduceNested P dim (batch.map (·.map f))) = _
      rw [hall, hom.concat]
      dsimp only
      split_ifs
      · cases O.concat dim (t :: u :: rest) <;> rfl
      · exact reduceNested_map hom dim batch
  | shared n => cases batch <;> rfl

theorem reduceData_map (elems : List (MultiModalFieldElem τ)) :
    reduceData P (elems.map (·.map f)) = NestedTensors.map f <$> reduceData O elems := by
  cases elems with
  | nil => rfl
  | cons elem elems =>
    have hall : (elems.map (·.map f)).all (fun e => (elem.map f).field.sameType e.field) =
        elems.all fun e => elem.field.sameType e.field := by
      rw [List.all_map]
      rfl
    have hdata : ((elem :: elems).map (·.map f)).map (·.data) =
        ((elem :: elems).map (·.data)).map (·.map f) := by
      rw [List.map_map, List.map_map]
      rfl
    rw [List.map_cons] at hdata ⊢
    rw [reduceData, hall, hdata, reduceData]
    change _ >>= (fun _ => elem.field.reduce P _) = _
    rw [reduce_map hom]
    cases require (elems.all fun e => elem.field.sameType e.field) PyError.valueError <;> rfl

omit hom

theorem elemsByKey_map (items : List (MultiModalKwargsItem τ)) :
    elemsByKey (items.map (MultiModalKwargsItem.map f)) =
      (elemsByKey items).mapValues (List.map (·.map f)) := by
  have hentries : (items.map (MultiModalKwargsItem.map f)).flatMap (fun item => item.entries) =
      (items.flatMap fun item => item.entries).map fun e => (e.1, e.2.map f) := by
    rw [List.flatMap_map, List.map_flatMap]
    rfl
  unfold elemsByKey
  rw [hentries]
  generalize (items.flatMap fun item => item.entries) = entries
  have hfold : ∀ d : Dict String (List (MultiModalFieldElem τ)),
      (entries.map fun e => (e.1, e.2.map f)).foldl
        (fun elems e => elems.set e.1 (elems.getD e.1 [] ++ [e.2]))
        (d.mapValues (List.map (·.map f))) =
      (entries.foldl (fun elems e => elems.set e.1 (elems.getD e.1 [] ++ [e.2])) d).mapValues
        (List.map (·.map f)) := by
    induction entries with
    | nil => exact fun _ => rfl
    | cons e entries ih =>
      intro d
      have hstep : (d.set e.1 (d.getD e.1 [] ++ [e.2])).mapValues (List.map (·.map f)) =
          (d.mapValues (List.map (·.map f))).set e.1
            ((d.mapValues (List.map (·.map f))).getD e.1 [] ++ [e.2.map f]) := by
        rw [Dict.mapValues_set, List.map_append, Dict.getD, Dict.getD, Dict.get?_mapValues]
        cases d.get? e.1 <;> rfl
      rw [List.map_cons, List.foldl_cons, List.foldl_cons, ← ih, hstep]
  exact hfold ∅

theorem modality_map (item : MultiModalKwargsItem τ) :
    (item.map f).modality = item.modality := by
  have helems : (item.map f).elems = item.elems.map (·.map f) := by
    unfold MultiModalKwargsItem.elems MultiModalKwargsItem.map Dict.mapValues
    rw [List.map_map, List.map_map]
    rfl
  unfold MultiModalKwargsItem.modality
  rw [helems]
  cases item.elems with
  | nil => rfl
  | cons elem elems =>
    change require ((elems.map (·.map f)).all fun e => decide (e.modality = elem.modality)) _ >>= _ =
      _
    rw [List.all_map]
    rfl

theorem fullGroupby_map {κ ν μ : Type} [DecidableEq κ] {g : ν → μ} {key : ν → Except PyError κ}
    {key' : μ → Except PyError κ} (hkey : ∀ v, key' (g v) = key v) (values : List ν) :
    fullGroupby key' (values.map g) =
      (fun groups => groups.mapValues (List.map g)) <$> fullGroupby key values := by
  have hloop : ∀ d : Dict κ (List ν),
      threadM (fun v groups => do
        let k ← key' v
        return groups.set k (groups.getD k [] ++ [v])) (values.map g) (d.mapValues (List.map g)) =
      (fun groups => groups.mapValues (List.map g)) <$> threadM (fun v groups => do
        let k ← key v
        return groups.set k (groups.getD k [] ++ [v])) values d := by
    induction values with
    | nil => exact fun _ => rfl
    | cons v values ih =>
      intro d
      rw [List.map_cons, threadM, threadM, hkey]
      cases key v with
      | error => rfl
      | ok k =>
        have hstep : (d.mapValues (List.map g)).set k
            ((d.mapValues (List.map g)).getD k [] ++ [g v]) =
              (d.set k (d.getD k [] ++ [v])).mapValues (List.map g) := by
          rw [Dict.mapValues_set, List.map_append, Dict.getD, Dict.getD, Dict.get?_mapValues]
          cases d.get? k <;> rfl
        change threadM _ (values.map g) ((d.mapValues (List.map g)).set k _) = _
        rw [hstep, ih]
        rfl
  exact hloop ∅

include hom

/-- **What tensors are made of makes no difference** to `from_items`. -/
theorem fromItems_map (items : List (MultiModalKwargsItem τ)) :
    MultiModalKwargs.fromItems P (items.map (MultiModalKwargsItem.map f)) =
      MultiModalKwargs.map f <$> MultiModalKwargs.fromItems O items := by
  have hentries : ∀ entries : List (String × List (MultiModalFieldElem τ)),
      (entries.map fun e => (e.1, e.2.map (·.map f))).mapM (fun e => do
        let reduced ← reduceData P e.2
        return (e.1, reduced)) =
      List.map (fun e => (e.1, e.2.map f)) <$> entries.mapM (fun e => do
        let reduced ← reduceData O e.2
        return (e.1, reduced)) := by
    intro entries
    induction entries with
    | nil => rfl
    | cons e entries ih =>
      rw [List.map_cons, List.mapM_cons, List.mapM_cons, ih, reduceData_map hom]
      cases reduceData O e.2 with
      | error => rfl
      | ok =>
        cases entries.mapM (fun e => do
          let reduced ← reduceData O e.2
          return (e.1, reduced)) <;> rfl
  unfold MultiModalKwargs.fromItems MultiModalKwargs.init
  rw [elemsByKey_map, fullGroupby_map modality_map]
  change (_ : List (String × List (MultiModalFieldElem σ))).mapM _ >>= _ = _
  unfold Dict.mapValues
  rw [hentries]
  cases (elemsByKey items).entries.mapM (fun e => do
    let reduced ← reduceData O e.2
    return (e.1, reduced)) with
  | error => rfl
  | ok data =>
    cases fullGroupby MultiModalKwargsItem.modality items with
    | error => rfl
    | ok groups =>
      refine congrArg Except.ok ?_
      rw [MultiModalKwargs.map, Dict.mapValues_ofEntries]
      rfl

end Naturality

end Maps

end InferenceServer
