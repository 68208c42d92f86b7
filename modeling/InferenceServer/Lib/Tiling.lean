import Mathlib.Data.Set.Lattice

/-!
# Tilings

A set of tiles fills a whole without overlaps. What tiles may be replaced by is one rule: some tiles by
others that fill the same part.
-/

variable {α β : Type} {span : β → Set α} {whole : Set α} {S A B : Set β} {b c : β} {x : α}

/-- **The tiles fill the whole**, and no two of them overlap. -/
structure Tiles (span : β → Set α) (whole : Set α) (S : Set β) : Prop where
  nonempty : ∀ b ∈ S, (span b).Nonempty
  mem_iff : ∀ x, x ∈ whole ↔ ∃ b ∈ S, x ∈ span b
  unique : ∀ b ∈ S, ∀ c ∈ S, ∀ x ∈ span b, x ∈ span c → b = c

namespace Tiles

/-- One tile. -/
theorem single (h : (span b).Nonempty) : Tiles span (span b) {b} where
  nonempty := by
    rintro c rfl
    exact h
  mem_iff x := by simp
  unique := by
    rintro c rfl d rfl x - -
    rfl

/-- **Replacing** some tiles by others for the same part. -/
theorem replace (h : Tiles span whole S) (hA : A ⊆ S)
    (hB : Tiles span {x | ∃ b ∈ A, x ∈ span b} B) : Tiles span whole (S \ A ∪ B) := by
  -- a tile that stays does not meet a new one
  have happart : ∀ b ∈ S \ A, ∀ c ∈ B, ∀ x ∈ span b, x ∉ span c := by
    intro b hb c hc x hxb hxc
    obtain ⟨a, ha, hxa⟩ := (hB.mem_iff x).mpr ⟨c, hc, hxc⟩
    exact hb.2 (h.unique b hb.1 a (hA ha) x hxb hxa ▸ ha)
  refine ⟨?_, fun x => ?_, ?_⟩
  · rintro b (hb | hb)
    · exact h.nonempty b hb.1
    · exact hB.nonempty b hb
  · rw [h.mem_iff]
    constructor
    · rintro ⟨b, hb, hx⟩
      by_cases ha : b ∈ A
      · obtain ⟨c, hc, hxc⟩ := (hB.mem_iff x).mp ⟨b, ha, hx⟩
        exact ⟨c, .inr hc, hxc⟩
      · exact ⟨b, .inl ⟨hb, ha⟩, hx⟩
    · rintro ⟨b, hb | hb, hx⟩
      · exact ⟨b, hb.1, hx⟩
      · obtain ⟨a, ha, hxa⟩ := (hB.mem_iff x).mpr ⟨b, hb, hx⟩
        exact ⟨a, hA ha, hxa⟩
  · rintro b (hb | hb) c (hc | hc) x hxb hxc
    · exact h.unique b hb.1 c hc.1 x hxb hxc
    · exact absurd hxc (happart b hb c hc x hxb)
    · exact absurd hxb (happart c hc b hb x hxc)
    · exact hB.unique b hb c hc x hxb hxc

end Tiles
