import Mathlib

namespace LinearProgram.Double

open Float.Model

def value (x : Float) : UnpackedFloat := x.toModel.unpack

theorem value_zero : value 0 = .zero .positive := rfl

theorem isNaN_zero : (0 : Float).isNaN = false := rfl

theorem beq_eq (x y : Float) : (x == y) = ((value x).compare (value y) == some .eq) := rfl

theorem beq_zero_iff {x : Float} : (x == 0) = true ↔ ∃ s, value x = .zero s := by
  rw [beq_eq, value_zero]
  cases value x with
  | infinity s => cases s <;> simp [UnpackedFloat.compare]
  | notANumber => simp [UnpackedFloat.compare]
  | zero s => simp [UnpackedFloat.compare]
  | finite s m e hm => cases s <;> simp [UnpackedFloat.compare]

theorem beq_self_iff {x : Float} : (x == x) = true ↔ x.isNaN = false := by
  rw [Float.beq_self_iff, Float.isNaN_eq_decide_eq_nan, decide_eq_false_iff_not]

def plain (x : Float) : Float := if x == 0 then 0 else x

theorem plain_plain (x : Float) : plain (plain x) = plain x := by
  unfold plain
  by_cases hx : (x == 0) = true
  · rw [if_pos hx, ite_self]
  · rw [if_neg hx, if_neg hx]

theorem isNaN_plain {x : Float} (hx : x.isNaN = false) : (plain x).isNaN = false := by
  unfold plain
  split
  · exact isNaN_zero
  · exact hx

theorem ofModel_pack_value (x : Float) : Float.ofModel (.pack (value x)) = x := by
  obtain ⟨⟨w, hw⟩⟩ := x
  have h : UnpackedFloat.pack .binary64 (.unpack .binary64 w.toBitVec) = w.toBitVec :=
    UnpackedFloat.pack_unpack_of_valid hw
  simp only [value, Float.Model.pack, Float.Model.unpack, h]

theorem zero_add {x : Float} (hx : (x == 0) = false) : 0 + x = x := by
  have hadd : 0 + x = Float.ofModel (.pack (.add .binary64 (value 0) (value x))) := rfl
  have hv : UnpackedFloat.add .binary64 (value 0) (value x) = value x := by
    rw [value_zero]
    cases h : value x with
    | infinity s => rfl
    | notANumber => rfl
    | zero s =>
      have : (x == 0) = true := beq_zero_iff.mpr ⟨s, h⟩
      simp [this] at hx
    | finite s m e hm => rfl
  rw [hadd, hv, ofModel_pack_value]

theorem beq_comm (x y : Float) : (x == y) = (y == x) := by
  rw [Bool.eq_iff_iff, Float.beq_iff_ne_nan_and_eq, Float.beq_iff_ne_nan_and_eq]
  constructor
  · rintro ⟨hx, hy, rfl | ⟨rfl, rfl⟩ | ⟨rfl, rfl⟩⟩
    · exact ⟨hy, hx, .inl rfl⟩
    · exact ⟨hy, hx, .inr (.inr ⟨rfl, rfl⟩)⟩
    · exact ⟨hy, hx, .inr (.inl ⟨rfl, rfl⟩)⟩
  · rintro ⟨hy, hx, rfl | ⟨rfl, rfl⟩ | ⟨rfl, rfl⟩⟩
    · exact ⟨hx, hy, .inl rfl⟩
    · exact ⟨hx, hy, .inr (.inr ⟨rfl, rfl⟩)⟩
    · exact ⟨hx, hy, .inr (.inl ⟨rfl, rfl⟩)⟩

end LinearProgram.Double
