import Mathlib.Data.Nat.Bitwise
import Mathlib.Tactic.Ring

/-!
# Scalar types in Python and in C++

A `ScalarType` describes a number format of a quantized kernel: an integer with a bias, or a floating
point type with its own way to write NaNs. Python (`vllm/scalar_type.py`) and C++
(`csrc/core/scalar_type.hpp`) each have a class of that name, "parallel implementations" that "should be
kept in sync"; a type crosses the border as an `id`, six fields in one integer.

The ids are in sync: both classes pack the fields in the same way, and C++ reads them back. The
predicates are not. Python compares a member of an `Enum` with the number of another one, which is never
equal, and does not ask whether the type is a floating point type at all.

## Main results

* `packed_python`, `packed_cpp`, `fromId_id`: the ids
* `agree_iff`
-/

namespace InferenceServer.Scalar

/-- `NanRepr`. -/
inductive NanRepr where
  | none
  | ieee754
  | extdRangeMaxMin
deriving DecidableEq, Repr

/-- The number of a member, in either language. -/
def NanRepr.value : NanRepr → Nat
  | .none => 0
  | .ieee754 => 1
  | .extdRangeMaxMin => 2

/-! ## The class in Python -/

namespace Python

/-- `ScalarType`. -/
structure ScalarType where
  exponent : Nat
  mantissa : Nat
  signed : Bool
  bias : Int
  finiteValuesOnly : Bool
  nanRepr : NanRepr
deriving DecidableEq, Repr

/-- `member == n`: `NanRepr` is an `Enum`, and no `IntEnum`, so that no member equals a number. -/
def eqNumber (_member : NanRepr) (_n : Nat) : Bool := false

/-- `or_and_advance`. The `&` of an unbounded integer with a mask is a remainder. -/
def orAndAdvance (acc : Nat × Nat) (member : Int) (bitWidth : Nat) : Nat × Nat :=
  (acc.1 ||| (member % 2 ^ bitWidth).toNat <<< acc.2, acc.2 + bitWidth)

namespace ScalarType

variable (t : ScalarType)

/-- `id`. -/
def id : Nat :=
  let acc := orAndAdvance (0, 0) t.exponent 8
  let acc := orAndAdvance acc t.mantissa 8
  let acc := orAndAdvance acc t.signed.toNat 1
  let acc := orAndAdvance acc t.bias 32
  let acc := orAndAdvance acc t.finiteValuesOnly.toNat 1
  let acc := orAndAdvance acc t.nanRepr.value 8
  acc.1

/-- `size_bits`. -/
def sizeBits : Nat := t.exponent + t.mantissa + t.signed.toNat

/-- `is_floating_point`. -/
def isFloatingPoint : Bool := t.exponent ≠ 0

/-- `has_infs`. -/
def hasInfs : Bool := !t.finiteValuesOnly

/-- `has_nans`. -/
def hasNans : Bool := !eqNumber t.nanRepr NanRepr.none.value

/-- `is_ieee_754`. -/
def isIeee754 : Bool := eqNumber t.nanRepr NanRepr.ieee754.value && !t.finiteValuesOnly

/-- `max`, of an integer type; there is none where an assertion fails. -/
def max : Option Int :=
  if t.sizeBits < 64 ∨ t.sizeBits = 64 ∧ t.signed = true then some (2 ^ t.mantissa - 1 - t.bias)
  else none

/-- `min`, of an integer type. -/
def min : Option Int :=
  if t.signed = false ∨ t.sizeBits ≤ 64 then
    some ((if t.signed then -2 ^ (t.sizeBits - 1) else 0) - t.bias)
  else none

/-- `__str__`. -/
def str : String :=
  if t.isFloatingPoint then
    let ret := "float" ++ toString t.sizeBits ++ "_e" ++ toString t.exponent ++ "m" ++
      toString t.mantissa
    if t.isIeee754 then ret
    else
      let ret := if t.finiteValuesOnly then ret ++ "f" else ret
      if t.nanRepr ≠ .none then ret ++ "n" else ret
  else
    let ret := (if t.signed then "int" else "uint") ++ toString t.sizeBits
    if t.bias ≠ 0 then ret ++ "b" ++ toString t.bias else ret

end ScalarType

end Python

/-! ## The class in C++ -/

namespace Cpp

/-- `ScalarType`: two `uint8_t`, a `bool`, an `int32_t`, a `bool`, and an enumeration over `uint8_t`. -/
structure ScalarType where
  exponent : BitVec 8
  mantissa : BitVec 8
  signed : Bool
  bias : BitVec 32
  finiteValuesOnly : Bool
  nanRepr : BitVec 8
deriving DecidableEq, Repr

/-- `(uint64_t(1) << bits) - 1`. -/
def mask (bits : Nat) : BitVec 64 := 1#64 <<< bits - 1#64

/-- `or_and_advance`, for a member that has been converted to `int64_t`. -/
def orAndAdvance (result : BitVec 64 × Nat) (member : BitVec 64) (bits : Nat) : BitVec 64 × Nat :=
  (result.1 ||| (member &&& mask bits) <<< result.2, result.2 + bits)

/-- The bits of one member in an id, before the cast to its type. -/
def extract (id : BitVec 64) (bitOffset bits : Nat) : BitVec 64 :=
  id.sshiftRight bitOffset &&& mask bits

namespace ScalarType

variable (t : ScalarType)

/-- `id`. -/
def id : BitVec 64 :=
  let result := orAndAdvance (0#64, 0) (t.exponent.setWidth 64) 8
  let result := orAndAdvance result (t.mantissa.setWidth 64) 8
  let result := orAndAdvance result ((BitVec.ofBool t.signed).setWidth 64) 1
  let result := orAndAdvance result (t.bias.signExtend 64) 32
  let result := orAndAdvance result ((BitVec.ofBool t.finiteValuesOnly).setWidth 64) 1
  let result := orAndAdvance result (t.nanRepr.setWidth 64) 8
  result.1

/-- `from_id`. -/
def fromId (id : BitVec 64) : ScalarType where
  exponent := (extract id 0 8).setWidth 8
  mantissa := (extract id 8 8).setWidth 8
  signed := extract id 16 1 ≠ 0#64
  bias := (extract id 17 32).setWidth 32
  finiteValuesOnly := extract id 49 1 ≠ 0#64
  nanRepr := (extract id 50 8).setWidth 8

/-- `size_bits`. -/
def sizeBits : Nat := t.mantissa.toNat + t.exponent.toNat + t.signed.toNat

/-- `is_floating_point`. -/
def isFloatingPoint : Bool := 0#8 < t.exponent

/-- `is_ieee_754`. -/
def isIeee754 : Bool :=
  t.isFloatingPoint && t.finiteValuesOnly == false && t.nanRepr == 1#8

/-- `has_nans`. -/
def hasNans : Bool := t.isFloatingPoint && t.nanRepr != 0#8

/-- `has_infs`. -/
def hasInfs : Bool := t.isFloatingPoint && t.finiteValuesOnly == false

/-- `max`, of an integer type; there is none where a `TORCH_CHECK` fails. -/
def max : Option (BitVec 64) :=
  if t.sizeBits < 64 ∨ t.sizeBits = 64 ∧ t.signed = true then
    some (1#64 <<< t.mantissa.toNat - 1#64 - t.bias.signExtend 64)
  else none

/-- `min`, of an integer type. -/
def min : Option (BitVec 64) :=
  if t.signed = false ∨ t.sizeBits ≤ 64 then
    some ((if t.signed then (BitVec.intMin 64).sshiftRight (64 - t.sizeBits) else 0#64) -
      t.bias.signExtend 64)
  else none

/-- `str`. -/
def str : String :=
  if t.isFloatingPoint then
    let ret := "float" ++ toString t.sizeBits ++ "_e" ++ toString t.exponent.toNat ++ "m" ++
      toString t.mantissa.toNat
    if t.isIeee754 then ret
    else
      let ret := if t.finiteValuesOnly then ret ++ "f" else ret
      if t.nanRepr != 0#8 then ret ++ "n" else ret
  else
    let ret := (if t.signed then "int" else "uint") ++ toString t.sizeBits
    if t.bias != 0#32 then ret ++ "b" ++ toString t.bias.toInt else ret

end ScalarType

end Cpp

/-! ## The ids

Both ids are the sum of the fields, each at its offset. -/

/-- The fields of a type, in the ranges that both classes have in common. -/
structure Fields where
  exponent : BitVec 8
  mantissa : BitVec 8
  signed : Bool
  bias : BitVec 32
  finiteValuesOnly : Bool
  nanRepr : NanRepr

namespace Fields

/-- The type in Python. -/
def python (t : Fields) : Python.ScalarType :=
  ⟨t.exponent.toNat, t.mantissa.toNat, t.signed, t.bias.toInt, t.finiteValuesOnly, t.nanRepr⟩

/-- The type in C++. -/
def cpp (t : Fields) : Cpp.ScalarType :=
  ⟨t.exponent, t.mantissa, t.signed, t.bias, t.finiteValuesOnly, .ofNat 8 t.nanRepr.value⟩

/-- The fields, one behind the other. -/
def packed (t : Fields) : Nat :=
  t.exponent.toNat + t.mantissa.toNat * 2 ^ 8 + t.signed.toNat * 2 ^ 16 + t.bias.toNat * 2 ^ 17 +
    t.finiteValuesOnly.toNat * 2 ^ 49 + t.nanRepr.value * 2 ^ 50

end Fields

theorem or_shiftLeft {a i : Nat} (h : a < 2 ^ i) (b : Nat) : a ||| b <<< i = a + b * 2 ^ i := by
  rw [Nat.or_comm, ← Nat.shiftLeft_add_eq_or_of_lt h, Nat.shiftLeft_eq, Nat.add_comm]

/-- A field that is packed behind others, in Python. -/
theorem Python.orAndAdvance_eq {a offset : Nat} (h : a < 2 ^ offset) (member : Int) (bits : Nat) :
    Python.orAndAdvance (a, offset) member bits =
      (a + (member % 2 ^ bits).toNat * 2 ^ offset, offset + bits) := by
  rw [Python.orAndAdvance, or_shiftLeft h]

/-- The masks of the members. -/
theorem Cpp.toNat_mask : (mask 1).toNat = 2 ^ 1 - 1 ∧ (mask 8).toNat = 2 ^ 8 - 1 ∧
    (mask 32).toNat = 2 ^ 32 - 1 := by
  decide

theorem Cpp.toNat_and_mask {bits : Nat} (hmask : (Cpp.mask bits).toNat = 2 ^ bits - 1)
    (x : BitVec 64) : (x &&& Cpp.mask bits).toNat = x.toNat % 2 ^ bits := by
  rw [BitVec.toNat_and, hmask, Nat.and_two_pow_sub_one_eq_mod]

/-- A field that is packed behind others, in C++. -/
theorem Cpp.orAndAdvance_eq {a offset bits : Nat} (h : a < 2 ^ offset) (x : BitVec 64)
    (hmask : (Cpp.mask bits).toNat = 2 ^ bits - 1) (hfits : offset + bits ≤ 64) :
    Cpp.orAndAdvance (.ofNat 64 a, offset) x bits =
      (.ofNat 64 (a + x.toNat % 2 ^ bits * 2 ^ offset), offset + bits) := by
  generalize hv : x.toNat % 2 ^ bits = v
  have hlt : v < 2 ^ bits := hv ▸ Nat.mod_lt _ (Nat.two_pow_pos bits)
  have hsum : a + v * 2 ^ offset < 2 ^ 64 :=
    calc a + v * 2 ^ offset
        _ < (v + 1) * 2 ^ offset := by rw [Nat.add_mul, Nat.one_mul]; omega
        _ ≤ 2 ^ bits * 2 ^ offset := Nat.mul_le_mul_right _ hlt
        _ = 2 ^ (offset + bits) := by rw [← pow_add, Nat.add_comm]
        _ ≤ 2 ^ 64 := Nat.pow_le_pow_right (by decide) hfits
  refine Prod.ext (BitVec.eq_of_toNat_eq ?_) rfl
  rw [Cpp.orAndAdvance, BitVec.toNat_or, BitVec.toNat_shiftLeft, Cpp.toNat_and_mask hmask, hv,
    BitVec.toNat_ofNat, BitVec.toNat_ofNat, Nat.mod_eq_of_lt hsum, Nat.shiftLeft_eq,
    Nat.mod_eq_of_lt (by omega : a < 2 ^ 64), Nat.mod_eq_of_lt (by omega : v * 2 ^ offset < 2 ^ 64),
    ← Nat.shiftLeft_eq, or_shiftLeft h, Nat.shiftLeft_eq]

theorem Fields.bounds (t : Fields) : t.exponent.toNat < 2 ^ 8 ∧ t.mantissa.toNat < 2 ^ 8 ∧
    t.signed.toNat < 2 ∧ t.bias.toNat < 2 ^ 32 ∧ t.finiteValuesOnly.toNat < 2 ∧
    t.nanRepr.value < 3 :=
  ⟨t.exponent.isLt, t.mantissa.isLt, t.signed.toNat_lt, t.bias.isLt, t.finiteValuesOnly.toNat_lt,
    by cases t.nanRepr <;> decide⟩

theorem toInt_mod_toNat (b : BitVec 32) : (b.toInt % 2 ^ 32).toNat = b.toNat := by
  rw [BitVec.toInt_eq_toNat_cond]
  have := b.isLt
  split <;> omega

theorem packed_python (t : Fields) : t.python.id = t.packed := by
  obtain ⟨he, hm, hs, hb, hf, hn⟩ := t.bounds
  have hbias := toInt_mod_toNat t.bias
  simp (disch := omega) only [Python.ScalarType.id, Fields.python, Python.orAndAdvance_eq,
    Nat.zero_add, Nat.reduceAdd]
  unfold Fields.packed
  omega

theorem toNat_signExtend (b : BitVec 32) : (b.signExtend 64).toNat % 2 ^ 32 = b.toNat := by
  rw [BitVec.toNat_signExtend, BitVec.toNat_setWidth]
  have := b.isLt
  split <;> omega

theorem packed_cpp (t : Fields) : t.cpp.id = .ofNat 64 t.packed := by
  obtain ⟨he, hm, hs, hb, hf, hn⟩ := t.bounds
  have hbias := toNat_signExtend t.bias
  obtain ⟨h1, h8, h32⟩ := Cpp.toNat_mask
  simp only [Cpp.ScalarType.id, Fields.cpp]
  rw [Cpp.orAndAdvance_eq (by omega) _ h8 (by omega), Cpp.orAndAdvance_eq (by omega) _ h8 (by omega),
    Cpp.orAndAdvance_eq (by omega) _ h1 (by omega), Cpp.orAndAdvance_eq (by omega) _ h32 (by omega),
    Cpp.orAndAdvance_eq (by omega) _ h1 (by omega), Cpp.orAndAdvance_eq (by omega) _ h8 (by omega),
    hbias]
  refine congrArg (BitVec.ofNat 64) ?_
  simp only [BitVec.toNat_setWidth, BitVec.toNat_ofBool, BitVec.toNat_ofNat]
  unfold Fields.packed
  omega

theorem Fields.packed_lt (t : Fields) : t.packed < 2 ^ 58 := by
  obtain ⟨he, hm, hs, hb, hf, hn⟩ := t.bounds
  unfold Fields.packed
  omega

/-- The ids are the same. -/
theorem toInt_id (t : Fields) : t.cpp.id.toInt = t.python.id := by
  have := t.packed_lt
  rw [packed_cpp, packed_python, BitVec.toInt_ofNat', Int.bmod_eq_of_le] <;> omega

/-- A member of an id. -/
theorem Cpp.toNat_extract {n : Nat} (hn : n < 2 ^ 63) (offset bits : Nat)
    (hmask : (Cpp.mask bits).toNat = 2 ^ bits - 1) :
    (Cpp.extract (.ofNat 64 n) offset bits).toNat = n / 2 ^ offset % 2 ^ bits := by
  have hmsb : (BitVec.ofNat 64 n).msb = false := by
    rw [BitVec.msb_eq_false_iff_two_mul_lt, BitVec.toNat_ofNat]
    omega
  rw [Cpp.extract, Cpp.toNat_and_mask hmask, BitVec.sshiftRight_eq_of_msb_false hmsb,
    BitVec.toNat_ushiftRight, BitVec.toNat_ofNat, Nat.mod_eq_of_lt (by omega : n < 2 ^ 64),
    Nat.shiftRight_eq_div_pow]

/-- A bit that is packed as a number. -/
theorem decide_ne_zero {x : BitVec 64} {b : Bool} (h : x.toNat = b.toNat) :
    decide (x ≠ 0#64) = b := by
  cases b with
  | false => simpa using BitVec.eq_of_toNat_eq h
  | true =>
    have hne : x ≠ 0#64 := fun hx => by simp [hx] at h
    simpa using hne

/-- **C++ reads back what either language has packed.** -/
theorem fromId_id (t : Fields) : Cpp.ScalarType.fromId (.ofNat 64 t.python.id) = t.cpp := by
  have hlt := t.packed_lt
  obtain ⟨he, hm, hs, hb, hf, hn⟩ := t.bounds
  have hextract := Cpp.toNat_extract (show t.packed < 2 ^ 63 by omega)
  obtain ⟨h1, h8, h32⟩ := Cpp.toNat_mask
  rw [packed_python, Cpp.ScalarType.fromId, Fields.cpp, Cpp.ScalarType.mk.injEq]
  refine ⟨BitVec.eq_of_toNat_eq ?_, BitVec.eq_of_toNat_eq ?_, decide_ne_zero ?_,
    BitVec.eq_of_toNat_eq ?_, decide_ne_zero ?_, BitVec.eq_of_toNat_eq ?_⟩
  · rw [BitVec.toNat_setWidth, hextract 0 8 h8, Fields.packed]
    omega
  · rw [BitVec.toNat_setWidth, hextract 8 8 h8, Fields.packed]
    omega
  · rw [hextract 16 1 h1, Fields.packed]
    omega
  · rw [BitVec.toNat_setWidth, hextract 17 32 h32, Fields.packed]
    omega
  · rw [hextract 49 1 h1, Fields.packed]
    omega
  · rw [BitVec.toNat_setWidth, hextract 50 8 h8, BitVec.toNat_ofNat, Fields.packed]
    omega

/-! ## Where the classes agree -/

/-- **The two classes agree** on a type. -/
structure Agree (t : Fields) : Prop where
  id : t.cpp.id.toInt = t.python.id
  fromId : Cpp.ScalarType.fromId (.ofNat 64 t.python.id) = t.cpp
  isIeee754 : t.python.isIeee754 = t.cpp.isIeee754
  hasNans : t.python.hasNans = t.cpp.hasNans
  hasInfs : t.python.hasInfs = t.cpp.hasInfs
  str : t.python.str = t.cpp.str
  max : t.exponent = 0#8 → t.python.sizeBits ≤ 63 → t.python.max = t.cpp.max.map BitVec.toInt
  min : t.exponent = 0#8 → t.python.sizeBits ≤ 63 → t.python.min = t.cpp.min.map BitVec.toInt

/-- **The classes agree exactly** on the floating point types that have NaNs and do not follow
IEEE 754. -/
theorem agree_iff (t : Fields) : Agree t ↔ t.exponent ≠ 0#8 ∧
    (t.nanRepr = .extdRangeMaxMin ∨ t.nanRepr = .ieee754 ∧ t.finiteValuesOnly = true) := by
  have hfloat : t.cpp.isFloatingPoint = decide (t.exponent ≠ 0#8) := by
    simp [Cpp.ScalarType.isFloatingPoint, Fields.cpp, BitVec.pos_iff_ne_zero]
  constructor
  · intro h
    -- Python says of every type that it has NaNs, and of none that it follows IEEE 754
    have hnans : t.cpp.hasNans = true := h.hasNans.symm
    have hieee : t.cpp.isIeee754 = false := h.isIeee754.symm
    simp only [Cpp.ScalarType.hasNans, Cpp.ScalarType.isIeee754, hfloat] at hnans hieee
    cases hr : t.nanRepr <;> simp_all [Fields.cpp, NanRepr.value]
  · rintro ⟨hexp, hrepr⟩
    have hieee : t.cpp.isIeee754 = false := by
      rcases hrepr with hr | ⟨hr, hf⟩
      · simp [Cpp.ScalarType.isIeee754, Fields.cpp, hr, NanRepr.value]
      · simp [Cpp.ScalarType.isIeee754, Fields.cpp, hf]
    have hnan : t.cpp.nanRepr != 0#8 ∧ t.python.nanRepr ≠ .none := by
      rcases hrepr with hr | ⟨hr, -⟩ <;> simp [Fields.cpp, Fields.python, hr, NanRepr.value]
    have hfloat' : t.cpp.isFloatingPoint = true := by simpa [hfloat] using hexp
    have hpython : t.python.isFloatingPoint = true :=
      decide_eq_true fun h => hexp (BitVec.eq_of_toNat_eq h)
    have hsize : t.python.sizeBits = t.cpp.sizeBits :=
      congrArg (· + t.signed.toNat) (Nat.add_comm _ _)
    refine ⟨toInt_id t, fromId_id t, hieee.symm, ?_, ?_, ?_, fun h => absurd h hexp,
      fun h => absurd h hexp⟩
    · rw [Cpp.ScalarType.hasNans, hfloat', hnan.1]
      rfl
    · rw [Cpp.ScalarType.hasInfs, hfloat']
      simp [Python.ScalarType.hasInfs, Fields.python, Fields.cpp]
    · have hieee' : t.python.isIeee754 = false := rfl
      rw [Python.ScalarType.str, Cpp.ScalarType.str, hpython, hfloat', hsize, hieee, hieee']
      dsimp only
      rw [if_pos hnan.1, if_pos hnan.2]
      rfl

/-- `float16_e5m10`, which Python calls `float16_e5m10n`. -/
theorem float16_disagree : ¬ Agree ⟨5, 10, true, 0, false, .ieee754⟩ := fun h =>
  absurd h.str (by decide)

end InferenceServer.Scalar
