import InferenceServer.MultiModal.Inputs

/-!
# Equality of nested tensors

`nested_tensors_equal` (`vllm/multimodal/inputs.py`) compares two values of nested lists, and the `__eq__`
of `PlaceholderRange`, `MultiModalFieldElem` and `MultiModalKwargs` use it. Two lists are compared by
`zip`, which stops at the end of the shorter one: **the rest of the longer list is not looked at**, so that
the empty list equals every list.

`torch.equal` is a parameter.
-/

namespace InferenceServer

/-- What a number stands for. A finite one is a multiple of `2 ^ -1074`. -/
inductive PyNumber.Value where
  | nan
  | infinite (negative : Bool)
  | finite (units : Int)
deriving DecidableEq

def PyNumber.value : PyNumber → PyNumber.Value
  | bool b => .finite (b.toNat * 2 ^ 1074)
  | int n => .finite (n * 2 ^ 1074)
  | float bits =>
    let exponent := (bits.extractLsb' 52 11).toNat
    let fraction := (bits.extractLsb' 0 52).toNat
    if exponent = 2047 then if fraction = 0 then .infinite bits.msb else .nan
    else
      let units := if exponent = 0 then fraction else (2 ^ 52 + fraction) * 2 ^ (exponent - 1)
      .finite (if bits.msb then -(units : Int) else units)

/-- `==` of numbers. -/
def PyNumber.eq (m n : PyNumber) : Bool := m.value ≠ .nan ∧ m.value = n.value

/-- `PlaceholderRange`, with the mask. -/
structure MaskedRange (τ : Type) where
  offset : Nat
  length : Nat
  isEmbed : Option τ

/-- `==` of dictionaries. -/
def dictEqual {κ ν : Type} [DecidableEq κ] (eq : ν → ν → Bool) (d e : Dict κ ν) : Bool :=
  d.entries.all (fun entry => (e.get? entry.1).any (eq entry.2)) && e.keys.all (· ∈ d)

section Equality

variable {τ : Type} (torchEqual : τ → τ → Bool)

mutual

/-- `nested_tensors_equal`. -/
def nestedTensorsEqual : NestedTensors τ → NestedTensors τ → Bool
  | .tensor t, .tensor u => torchEqual t u
  | .list a, .list b => zipEqual a b
  | .number m, .number n => m.eq n
  | _, _ => false

/-- `all(nested_tensors_equal(a_, b_) for a_, b_ in zip(a, b))`. -/
def zipEqual : List (NestedTensors τ) → List (NestedTensors τ) → Bool
  | x :: a, y :: b => nestedTensorsEqual x y && zipEqual a b
  | _, _ => true

end

def MaskedRange.eq (p q : MaskedRange τ) : Bool :=
  (p.offset, p.length) = (q.offset, q.length) &&
    match p.isEmbed, q.isEmbed with
    | some t, some u => nestedTensorsEqual torchEqual (.tensor t) (.tensor u)
    | none, none => true
    | _, _ => false

def MultiModalFieldElem.eq (e f : MultiModalFieldElem τ) : Bool :=
  (e.modality, e.key) = (f.modality, f.key) && nestedTensorsEqual torchEqual e.data f.data &&
    e.field.sameType f.field

def MultiModalKwargs.eq (k l : MultiModalKwargs τ) : Bool :=
  dictEqual (fun items items' => items.isEqv items' (dictEqual (MultiModalFieldElem.eq torchEqual)))
      k.itemsByModality l.itemsByModality &&
    dictEqual (nestedTensorsEqual torchEqual) k.data l.data

/-! ## What equality is to be -/

mutual

/-- **The same nesting, lengths and leaves.** -/
def Same : NestedTensors τ → NestedTensors τ → Prop
  | .tensor t, .tensor u => torchEqual t u = true
  | .list a, .list b => AllSame a b
  | .number m, .number n => m.eq n = true
  | _, _ => False

def AllSame : List (NestedTensors τ) → List (NestedTensors τ) → Prop
  | x :: a, y :: b => Same x y ∧ AllSame a b
  | [], [] => True
  | _, _ => False

end

mutual

/-- **A list ends before the one at its place**, and as far as both go they are the same. -/
def CutShort : NestedTensors τ → NestedTensors τ → Prop
  | .list a, .list b => SomeCutShort a b
  | _, _ => False

def SomeCutShort : List (NestedTensors τ) → List (NestedTensors τ) → Prop
  | x :: a, y :: b =>
    CutShort x y ∧ (AllSame torchEqual a b ∨ SomeCutShort a b) ∨ Same torchEqual x y ∧ SomeCutShort a b
  | [], [] => False
  | _, _ => True

end

/-- The values at the same places are related. -/
def MultiModalKwargs.Related (R : NestedTensors τ → NestedTensors τ → Prop) (k l : MultiModalKwargs τ) :
    Prop :=
  (∀ modality : String, Option.Rel (fun items items' => ∀ i : Nat, Option.Rel (fun item item' =>
    ∀ key : String, Option.Rel (fun e f => R e.data f.data) (item.get? key) (item'.get? key))
      items[i]? items'[i]?) (k.itemsByModality.get? modality) (l.itemsByModality.get? modality)) ∧
    ∀ key : String, Option.Rel R (k.data.get? key) (l.data.get? key)

variable {torchEqual}

mutual

theorem nestedTensorsEqual_iff : ∀ a b : NestedTensors τ, nestedTensorsEqual torchEqual a b = true ↔
    Same torchEqual a b ∨ CutShort torchEqual a b
  | .tensor _, .tensor _ | .number _, .number _ => by simp [nestedTensorsEqual, Same, CutShort]
  | .list a, .list b => by
    rw [nestedTensorsEqual, Same, CutShort]
    exact zipEqual_iff a b
  | .tensor _, .list _ | .tensor _, .number _ | .list _, .tensor _ | .list _, .number _
  | .number _, .tensor _ | .number _, .list _ => by simp [nestedTensorsEqual, Same, CutShort]

theorem zipEqual_iff : ∀ a b : List (NestedTensors τ), zipEqual torchEqual a b = true ↔
    AllSame torchEqual a b ∨ SomeCutShort torchEqual a b
  | [], [] | [], _ :: _ | _ :: _, [] => by simp [zipEqual, AllSame, SomeCutShort]
  | x :: a, y :: b => by
    rw [zipEqual, AllSame, SomeCutShort, Bool.and_eq_true, nestedTensorsEqual_iff x y, zipEqual_iff a b]
    tauto

end

mutual

/-- What is cut short is not the same. -/
theorem Same.not_cutShort : ∀ a b : NestedTensors τ, Same torchEqual a b → ¬ CutShort torchEqual a b
  | .list a, .list b, h => AllSame.not_cutShort a b h
  | .tensor _, _, _ | .number _, _, _ | .list _, .tensor _, _ | .list _, .number _, _ => by
    simp [CutShort]

theorem AllSame.not_cutShort : ∀ a b : List (NestedTensors τ),
    AllSame torchEqual a b → ¬ SomeCutShort torchEqual a b
  | [], [], _ => by simp [SomeCutShort]
  | [], _ :: _, h | _ :: _, [], h => by simp [AllSame] at h
  | x :: a, y :: b, h => by
    rw [AllSame] at h
    rw [SomeCutShort]
    have := Same.not_cutShort x y h.1
    have := AllSame.not_cutShort a b h.2
    tauto

end

/-! ## The containers -/

theorem dictEqual_related {κ ν : Type} [DecidableEq κ] {eq : ν → ν → Bool} {d e : Dict κ ν}
    (h : dictEqual eq d e = true) (k : κ) :
    Option.Rel (fun v w => eq v w = true) (d.get? k) (e.get? k) := by
  rw [dictEqual, Bool.and_eq_true, List.all_eq_true, List.all_eq_true] at h
  cases hd : d.get? k with
  | none =>
    cases he : e.get? k with
    | none => exact .none
    | some w =>
      have := h.2 k (Dict.mem_iff.mp (Dict.mem_of_get? he))
      exact absurd (of_decide_eq_true this) (Dict.get?_eq_none_iff.mp hd)
  | some v =>
    obtain ⟨w, hw, heq⟩ := (Option.any_eq_true ..).mp (h.1 _ (Dict.get?_eq_some_iff.mp hd))
    rw [hw]
    exact .some heq

theorem isEqv_related {α : Type} {eq : α → α → Bool} : ∀ {a b : List α}, a.isEqv b eq = true →
    ∀ i : Nat, Option.Rel (fun x y => eq x y = true) a[i]? b[i]?
  | [], [], _, _ => .none
  | _ :: _, _ :: _, h, 0 => .some (Bool.and_eq_true_iff.mp h).1
  | _ :: _, _ :: _, h, i + 1 => isEqv_related (Bool.and_eq_true_iff.mp h).2 i

theorem rel_congr {α : Type} {R S T : α → α → Prop} (h : ∀ x y, R x y → (S x y ↔ T x y)) {a b : Option α}
    (hab : Option.Rel R a b) : Option.Rel S a b ↔ Option.Rel T a b := by
  cases hab with
  | none => exact iff_of_true .none .none
  | some hR => simp [Option.rel_some_some, h _ _ hR]

theorem same_iff_of_equal {a b : NestedTensors τ} (h : nestedTensorsEqual torchEqual a b = true) :
    Same torchEqual a b ↔ ¬ CutShort torchEqual a b :=
  ⟨Same.not_cutShort a b, ((nestedTensorsEqual_iff a b).mp h).resolve_right⟩

/-- **Equality is right** exactly where no list is cut short. -/
theorem equal_iff_same (torchEqual : τ → τ → Bool) :
    (∀ a b, (nestedTensorsEqual torchEqual a b = true ↔ Same torchEqual a b) ↔
      ¬ CutShort torchEqual a b) ∧
    (∀ p q : MaskedRange τ, p.eq torchEqual q = true ↔ p.offset = q.offset ∧ p.length = q.length ∧
      Option.Rel (fun t u => torchEqual t u = true) p.isEmbed q.isEmbed) ∧
    (∀ e f : MultiModalFieldElem τ, e.eq torchEqual f = true →
      (Same torchEqual e.data f.data ↔ ¬ CutShort torchEqual e.data f.data)) ∧
    ∀ k l : MultiModalKwargs τ, k.eq torchEqual l = true →
      (k.Related (Same torchEqual) l ↔ k.Related (fun a b => ¬ CutShort torchEqual a b) l) := by
  refine ⟨fun a b => ?_, fun p q => ?_, fun e f h => ?_, fun k l h => ?_⟩
  · rw [nestedTensorsEqual_iff]
    have : Same torchEqual a b → ¬ CutShort torchEqual a b := Same.not_cutShort a b
    tauto
  · obtain ⟨offset, length, isEmbed⟩ := p
    obtain ⟨offset', length', isEmbed'⟩ := q
    cases isEmbed <;> cases isEmbed' <;> simp [MaskedRange.eq, nestedTensorsEqual, and_assoc]
  · rw [MultiModalFieldElem.eq, Bool.and_eq_true, Bool.and_eq_true] at h
    exact same_iff_of_equal h.1.2
  · rw [MultiModalKwargs.eq, Bool.and_eq_true] at h
    refine and_congr (forall_congr' fun modality => ?_) (forall_congr' fun key => ?_)
    · refine rel_congr (fun items items' hitems => forall_congr' fun i => ?_) (dictEqual_related h.1 modality)
      refine rel_congr (fun item item' hitem => forall_congr' fun key => ?_) (isEqv_related hitems i)
      refine rel_congr (fun e f helem => ?_) (dictEqual_related hitem key)
      rw [MultiModalFieldElem.eq, Bool.and_eq_true, Bool.and_eq_true] at helem
      exact same_iff_of_equal helem.1.2
    · exact rel_congr (fun a b hab => same_iff_of_equal hab) (dictEqual_related h.2 key)

/-- A list is equal to one that goes on. -/
theorem nestedTensorsEqual_longer : nestedTensorsEqual (fun t u : List Int => t = u)
      (.list [.tensor [1]]) (.list [.tensor [1], .tensor [2]]) = true ∧
    ¬ Same (fun t u : List Int => t = u) (.list [.tensor [1]]) (.list [.tensor [1], .tensor [2]]) := by
  simp [nestedTensorsEqual, zipEqual, Same, AllSame]

end Equality

end InferenceServer
