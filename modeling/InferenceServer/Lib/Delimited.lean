import Mathlib.Data.List.Forall2
import Mathlib.Tactic

/-!
# Encodings that tell values apart

An encoding tells two values apart if, whatever follows their encodings, equal lists come from equal
values followed by the same. Encodings of equal length do this as soon as they are injective, and
concatenations do it if their parts do. It is a property of two values rather than of an encoding, so
that an encoding without delimiters can be judged by what it does between values of one shape.

## Main results

* `TellsApart.of_length_eq`: encodings of equal length
* `TellsApart.flatMap`: concatenations
* `TellsApart.delimited`
* `toDigits_ten_inj`: the decimal digits of a number determine it
* `leBytes_inj`: the bytes of a number determine it
-/

/-- The encodings of `a` and `b` tell them apart, whatever follows. -/
def TellsApart {α β : Type} (enc : α → List β) (a b : α) : Prop :=
  ∀ r s, enc a ++ r = enc b ++ s → a = b ∧ r = s

namespace TellsApart

variable {α α' β : Type} {enc : α → List β} {enc' : α' → List β} {a b : α} {a' b' : α'}

theorem eq (h : TellsApart enc a b) (he : enc a = enc b) : a = b :=
  (h [] [] (by rw [he])).1

theorem of_length_eq (hlen : (enc a).length = (enc b).length) (hinj : enc a = enc b → a = b) :
    TellsApart enc a b := by
  intro r s h
  obtain ⟨henc, hrest⟩ := List.append_inj h hlen
  exact ⟨hinj henc, hrest⟩

/-- A common prefix changes nothing. -/
theorem prepend (h : TellsApart enc a b) (c : List β) : TellsApart (fun x => c ++ enc x) a b := by
  intro r s he
  rw [List.append_assoc, List.append_assoc] at he
  exact h r s (List.append_cancel_left he)

/-- A delimiter that occurs in no encoding ends it. -/
theorem delimited {p : β → Bool} {c : β} (ha : ∀ x ∈ enc a, p x = true)
    (hb : ∀ x ∈ enc b, p x = true) (hc : p c = false) (hinj : enc a = enc b → a = b) :
    TellsApart (fun x => enc x ++ [c]) a b := by
  intro r s he
  -- what stands before the first delimiter is the encoding
  have hbefore : ∀ l r, (∀ x ∈ l, p x = true) → (l ++ [c] ++ r).takeWhile p = l := by
    intro l r hl
    rw [List.append_assoc, List.takeWhile_append_of_pos hl, List.singleton_append,
      List.takeWhile_cons_of_neg (by simp [hc]), List.append_nil]
  have henc : enc a = enc b := by
    rw [← hbefore _ r ha, ← hbefore _ s hb, he]
  obtain rfl := hinj henc
  exact ⟨rfl, List.append_cancel_left he⟩

theorem flatMap {l l' : List α} (h : List.Forall₂ (TellsApart enc) l l') :
    TellsApart (List.flatMap enc) l l' := by
  induction h with
  | nil => exact fun r s he => ⟨rfl, by simpa using he⟩
  | cons hab _ ih =>
    intro r s he
    simp only [List.flatMap_cons, List.append_assoc] at he
    obtain ⟨rfl, hrest⟩ := hab _ _ he
    obtain ⟨rfl, hrs⟩ := ih _ _ hrest
    exact ⟨rfl, hrs⟩

end TellsApart

theorem toDigits_ten_inj {m n : Nat} : Nat.toDigits 10 m = Nat.toDigits 10 n ↔ m = n := by
  constructor
  · intro h
    rw [← @Nat.ofDigitChars_ten_toDigits m, h, Nat.ofDigitChars_ten_toDigits]
  · rintro rfl
    rfl

theorem isDigit_toDigits_ten {n : Nat} : ∀ c ∈ Nat.toDigits 10 n, c.isDigit = true :=
  fun _ hc => Nat.isDigit_of_mem_toDigits (by decide) (by decide) hc

/-- The last `k` bytes of `n`, the lowest first. -/
def leBytes : Nat → Nat → List UInt8
  | 0, _ => []
  | k + 1, n => UInt8.ofNat n :: leBytes k (n / 256)

@[simp] theorem length_leBytes (k n : Nat) : (leBytes k n).length = k := by
  induction k generalizing n with
  | zero => rfl
  | succ k ih => simp [leBytes, ih]

theorem leBytes_inj {k m n : Nat} (hm : m < 256 ^ k) (hn : n < 256 ^ k)
    (h : leBytes k m = leBytes k n) : m = n := by
  induction k generalizing m n with
  | zero => omega
  | succ k ih =>
    obtain ⟨hlow, hhigh⟩ := List.cons.inj h
    have hmod : m % 256 = n % 256 := by simpa using congrArg UInt8.toNat hlow
    have hdiv : m / 256 = n / 256 :=
      ih (Nat.div_lt_of_lt_mul (by rwa [← Nat.pow_succ'])) (Nat.div_lt_of_lt_mul (by
        rwa [← Nat.pow_succ'])) hhigh
    omega
