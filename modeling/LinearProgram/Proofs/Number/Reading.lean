import LinearProgram.Number.Reading
import LinearProgram.Proofs.Number.Decimal
import LinearProgram.Proofs.Number.Nearest
import LinearProgram.Proofs.Number.Numeral

namespace LinearProgram

open Double (Holds value)

namespace Digit

theorem foldl_eq (n : ℕ) (ds : List Digit) :
    ds.foldl (fun n d => 10 * n + d.val) n = n * 10 ^ ds.length + toNat ds := by
  induction ds generalizing n with
  | nil => simp [toNat]
  | cons d ds ih =>
    have hd : toNat (d :: ds) = (10 * 0 + d.val) * 10 ^ ds.length + toNat ds := ih _
    rw [List.foldl_cons, ih, hd, List.length_cons, Nat.pow_succ]
    ring

theorem toNat_cons (d : Digit) (ds : List Digit) :
    toNat (d :: ds) = d.val * 10 ^ ds.length + toNat ds := by
  change List.foldl _ (10 * 0 + d.val) ds = _
  rw [foldl_eq, Nat.mul_zero, Nat.zero_add]

theorem toNat_collect {fuel n : ℕ} {rest : List Digit} (hn : n < 10 ^ (fuel + 1)) :
    toNat (collect fuel n rest) = n * 10 ^ rest.length + toNat rest := by
  induction fuel generalizing n rest with
  | zero =>
    have hmod : n % 10 = n := Nat.mod_eq_of_lt hn
    rw [collect, toNat_cons, Fin.val_ofNat, hmod]
  | succ fuel ih =>
    rw [collect]
    split
    · rename_i hsmall
      rw [toNat_cons, Fin.val_ofNat, Nat.mod_eq_of_lt hsmall]
    · have hdiv : n / 10 < 10 ^ (fuel + 1) := by
        rw [Nat.pow_succ] at hn
        omega
      rw [ih hdiv, toNat_cons, Fin.val_ofNat, List.length_cons, Nat.pow_succ]
      conv_rhs => rw [← Nat.div_add_mod n 10]
      ring

theorem toNat_ofNat (n : ℕ) : toNat (ofNat n) = n := by
  have hn : n < 10 ^ (n.log2 + 1) := calc
    n < 2 ^ (n.log2 + 1) := Nat.lt_log2_self
    _ ≤ 10 ^ (n.log2 + 1) := Nat.pow_le_pow_left (by decide) _
  rw [ofNat, toNat_collect hn, List.length_nil, Nat.pow_zero, Nat.mul_one]
  rfl

end Digit

namespace Numeral

section Scaling

theorem powerOfTen_small : ∀ e < 23, powerOfTen e =
    .ofModel (.pack (.ofNat .binary64 (10 ^ e))) := by decide +kernel

theorem log2_greatestPower : (nearest (10 ^ greatestPower)).log2 = 1023 := by decide +kernel

theorem holds_powerOfTen {e : ℕ} (he : e ≤ greatestPower) :
    Holds (value (powerOfTen e)) (nearest (10 ^ e)) := by
  have hfits {u : Float.Model.UnpackedFloat} (h : Holds u (nearest (10 ^ e))) :
      Holds (value (.ofModel (.pack u))) (nearest (10 ^ e)) := by
    have hlog : (nearest (10 ^ e)).log2 ≤ (nearest (10 ^ greatestPower)).log2 :=
      log2_mono (nearest_mono (Nat.pow_le_pow_right (by decide) he))
    rw [log2_greatestPower] at hlog
    rwa [h.value_eq, if_pos (by omega)]
  by_cases hsmall : e < 23
  · rw [powerOfTen_small e hsmall]
    exact hfits (Double.holds_ofNat (Nat.pow_pos (by decide)).ne')
  · have hlarge : powerOfTen e = .ofModel (.pack (.ofScientific .binary64 1 e)) :=
      dif_neg (by omega)
    rw [hlarge]
    exact hfits (Double.holds_ofScientific (he.trans (by decide)))

def halfPlace : ℕ := 970

def ceiling : ℕ := (2 ^ 54 - 3) * 2 ^ halfPlace

def safePower : ℕ := 288

theorem log2_product_safe :
    (nearest (nearest (2 ^ 64) * nearest (10 ^ safePower))).log2 < 1024 := by
  decide +kernel

theorem log2_product_high : ∀ e < greatestPower + 1, safePower < e →
    (nearest (nearest (ceiling / 10 ^ e) * nearest (10 ^ e))).log2 < 1024 := by
  decide +kernel

theorem log2_product {s e : ℕ} (he : e ≤ greatestPower) (hs : s < 2 ^ 64)
    (h : s * 10 ^ e ≤ ceiling) : (nearest (nearest s * nearest (10 ^ e))).log2 < 1024 := by
  by_cases hsafe : e ≤ safePower
  · refine lt_of_le_of_lt (log2_mono (nearest_mono (Nat.mul_le_mul ?_ ?_))) log2_product_safe
    · exact nearest_mono hs.le
    · exact nearest_mono (Nat.pow_le_pow_right (by decide) hsafe)
  · have hle : s ≤ ceiling / 10 ^ e := (Nat.le_div_iff_mul_le (Nat.pow_pos (by decide))).mpr h
    refine lt_of_le_of_lt (log2_mono (nearest_mono (Nat.mul_le_mul_right _ (nearest_mono hle)))) ?_
    exact log2_product_high e (by omega) (by omega)

theorem isInf_product {a : UInt64} {e : ℕ} (he : e ≤ greatestPower)
    (h : a.toNat * 10 ^ e ≤ ceiling) : (a.toFloat * powerOfTen e).isInf = false := by
  have hpower := holds_powerOfTen he
  by_cases ha : a.toNat = 0
  · rw [UInt64.toNat_inj.mp (show a.toNat = (0 : UInt64).toNat from ha)]
    exact Double.isInf_zero_mul hpower
  · rw [Double.isInf_mul (Double.holds_toFloat ha) hpower, decide_eq_false_iff_not, Nat.not_le]
    exact log2_product he a.toNat_lt h

theorem isSome_scaled?_of_neg (steps : ℕ) (f : Float) {e : ℤ} (he : e < 0) :
    (scaled? steps f e).isSome = true := by
  induction steps generalizing f e with
  | zero => rfl
  | succ steps ih =>
    rw [scaled?]
    split
    · rfl
    · rename_i hlarge
      split
      · rfl
      · exact ih _ (by omega)

theorem isSome_scaled? (a : UInt64) {e : ℤ}
    (h : 0 ≤ e → e ≤ greatestPower ∧ a.toNat * 10 ^ e.toNat ≤ ceiling) :
    (scaled? (e.natAbs / greatestPower + 1) a.toFloat e).isSome = true := by
  by_cases he : e < 0
  · exact isSome_scaled?_of_neg _ _ he
  · obtain ⟨hgreatest, hceiling⟩ := h (by omega)
    have hinf : (a.toFloat * powerOfTen e.natAbs).isInf = false := by
      refine isInf_product (by omega) ?_
      rwa [show e.natAbs = e.toNat by omega]
    rw [scaled?, if_pos (by omega), if_neg he]
    simp only [hinf]
    rfl

theorem isNaN_scaled? {steps : ℕ} {f y : Float} {e : ℤ} (hf : f.isNaN = false)
    (h : scaled? steps f e = some y) : y.isNaN = false := by
  induction steps generalizing f e with
  | zero =>
    cases h
    exact hf
  | succ steps ih =>
    rw [scaled?] at h
    split at h
    · rename_i hsmall
      have hpower := holds_powerOfTen hsmall
      split at h
      · cases h
        exact Double.isNaN_div hf hpower
      · simp only at h
        split at h
        · cases h
        · cases h
          exact Double.isNaN_mul hf hpower
    · split at h
      · cases h
        exact hf
      · split at h
        · exact ih (Double.isNaN_div hf (holds_powerOfTen le_rfl)) h
        · cases h

theorem isNaN_toFloat? {n : Numeral} {y : Float} (h : n.toFloat? = some y) : y.isNaN = false := by
  obtain ⟨size, hsize, hy⟩ := Option.bind_eq_some_iff.mp h
  have hnumber : size.isNaN = false := by
    simp only [magnitude?] at hsize
    split at hsize
    · split at hsize
      · cases hsize
        exact Double.isNaN_zero
      · cases hsize
    · exact isNaN_scaled? (Double.isNaN_toFloat _) hsize
  cases hy
  split
  · exact Double.isNaN_neg hnumber
  · exact hnumber

end Scaling

section Gathering

theorem toNat_shifted? {a b : UInt64} {d : Digit} (h : shifted? a d = some b) :
    b.toNat = 10 * a.toNat + d.val := by
  simp only [shifted?] at h
  split at h
  · rename_i hlt
    cases h
    exact UInt64.toNat_ofNat_of_lt hlt
  · cases h

theorem exponent_gatherWhole {a : UInt64} {ds : List Digit} {i : ℕ} (ha : a.toNat < 10 ^ i)
    (h : i + ds.length ≤ 19) : (gatherWhole a ds).exponent = 0 := by
  induction ds generalizing a i with
  | nil => rfl
  | cons d ds ih =>
    rw [List.length_cons] at h
    have hnext : 10 * a.toNat + d.val < 10 ^ (i + 1) := by
      rw [Nat.pow_succ]
      omega
    have hfits : 10 * a.toNat + d.val < UInt64.size :=
      calc 10 * a.toNat + d.val < 10 ^ (i + 1) := hnext
        _ ≤ 10 ^ 19 := Nat.pow_le_pow_right (by decide) (by omega)
        _ ≤ UInt64.size := by decide
    have hshift : shifted? a d = some (UInt64.ofNat (10 * a.toNat + d.val)) := if_pos hfits
    rw [gatherWhole, hshift]
    refine ih (i := i + 1) ?_ (by omega)
    rwa [toNat_shifted? hshift]

theorem gatherFraction_le (g : Gathered) (ds : List Digit) : ∃ j ≤ ds.length,
    (gatherFraction g ds).exponent = g.exponent - j ∧
      (gatherFraction g ds).significand.toNat * 10 ^ (ds.length - j) ≤
        g.significand.toNat * 10 ^ ds.length + Digit.toNat ds := by
  induction ds generalizing g with
  | nil => exact ⟨0, le_rfl, (sub_zero _).symm, Nat.le_add_right _ _⟩
  | cons d ds ih =>
    rw [gatherFraction]
    split
    · rename_i next hnext
      obtain ⟨j, hj, hexponent, hle⟩ := ih ⟨next, g.exponent - 1⟩
      refine ⟨j + 1, Nat.succ_le_succ hj, ?_, ?_⟩
      · rw [hexponent]
        push_cast
        ring
      · rw [List.length_cons, Nat.add_sub_add_right, Digit.toNat_cons]
        refine hle.trans_eq ?_
        rw [toNat_shifted? hnext, Nat.pow_succ]
        ring
    · exact ⟨0, Nat.zero_le _, (sub_zero _).symm, Nat.le_add_right _ _⟩

theorem exponent_gatherFraction_le (g : Gathered) (ds : List Digit) :
    (gatherFraction g ds).exponent ≤ g.exponent := by
  obtain ⟨j, -, hexponent, -⟩ := gatherFraction_le g ds
  omega

theorem clampExponent_neg {e : ℤ} (he : e < 0) : clampExponent e < 0 := by
  simp only [clampExponent, exponentLimit]
  split_ifs <;> omega

theorem clampExponent_eq {e : ℤ} (he : e ≤ greatestPower) (h : 0 ≤ clampExponent e) :
    clampExponent e = e := by
  simp only [clampExponent, exponentLimit, greatestPower] at *
  split_ifs at * <;> omega

theorem isSome_magnitude?_minus {g : Gathered} (hg : g.exponent ≤ 0) {ds : List Digit}
    (hds : Digit.toNat ds ≠ 0) : (magnitude? g (some ⟨.minus, ds⟩)).isSome = true := by
  change (if exponentLimit < Digit.toNat ds then if g.significand = 0 ∨ true = true then some 0
    else none else scaled? _ _ (clampExponent (g.exponent + -(Digit.toNat ds : ℤ)))).isSome = true
  split
  · rw [if_pos (.inr rfl)]
    rfl
  · exact isSome_scaled?_of_neg _ _ (clampExponent_neg (by omega))

theorem isSome_magnitude? {g : Gathered} (hg : g.exponent ≤ 0) {written : Option Exponent}
    (hplus : written.any (·.sign == .minus) = false) {e : ℕ}
    (hwritten : Digit.toNat ((written.map (·.digits)).getD []) = e) (he : e ≤ greatestPower)
    (h : g.significand.toNat * 10 ^ (g.exponent + e).toNat ≤ ceiling) :
    (magnitude? g written).isSome = true := by
  simp only [magnitude?, hplus, hwritten]
  rw [if_neg (by simp only [greatestPower, exponentLimit] at *; omega)]
  refine isSome_scaled? _ fun hnonneg => ?_
  have hle : g.exponent + e ≤ greatestPower := by omega
  have hexact := clampExponent_eq hle hnonneg
  simp only [Bool.false_eq_true, if_false] at hnonneg ⊢
  rw [hexact]
  exact ⟨hle, h⟩

end Gathering

section Forms

theorem isSome_toFloat?_iff {n : Numeral} : n.toFloat?.isSome = true ↔
    (magnitude? (gatherFraction (gatherWhole 0 n.whole) n.fraction) n.exponent).isSome = true := by
  rw [toFloat?]
  cases magnitude? (gatherFraction (gatherWhole 0 n.whole) n.fraction) n.exponent <;> rfl

theorem isSome_of_short {n : Numeral} (hwhole : n.whole.length ≤ 16) (he : n.exponent = none) :
    n.toFloat?.isSome = true := by
  have hexponent : (gatherWhole 0 n.whole).exponent = 0 :=
    exponent_gatherWhole (i := 0) (by decide) (by omega)
  have hle := exponent_gatherFraction_le (gatherWhole 0 n.whole) n.fraction
  rw [isSome_toFloat?_iff, he]
  refine isSome_magnitude? (by omega) rfl (e := 0) rfl (Nat.zero_le _) ?_
  have hzero : ((gatherFraction (gatherWhole 0 n.whole) n.fraction).exponent + (0 : ℕ)).toNat =
      0 := by omega
  rw [hzero, Nat.pow_zero, Nat.mul_one]
  exact (UInt64.toNat_lt _).le.trans (by decide +kernel)

theorem isSome_positional (negative pointed : Bool) {ds : List Digit} {k : ℤ}
    (h : k + ds.length - 1 < 16) : (positional negative pointed ds k).toFloat?.isSome = true := by
  simp only [positional]
  split
  · refine isSome_of_short ?_ rfl
    rw [List.length_append, List.length_replicate]
    omega
  · split
    · refine isSome_of_short ?_ rfl
      rw [List.length_take]
      omega
    · exact isSome_of_short (by simp) rfl

theorem le_ceiling {c s i e : ℕ} {k : ℤ} (hs : s * 10 ^ i ≤ c) (he : (e : ℤ) = k + i)
    (h : Decimal.worth ⟨c, k⟩ ≤ ceiling) : s * 10 ^ e ≤ ceiling := by
  have hcast : (s : ℚ) * 10 ^ i ≤ c := by exact_mod_cast hs
  have hpower : (10 : ℚ) ^ e = 10 ^ i * 10 ^ k := by
    rw [← zpow_natCast, ← zpow_natCast, he, zpow_add₀ (by norm_num), mul_comm]
  have hall : (s : ℚ) * 10 ^ e ≤ ceiling := calc
    (s : ℚ) * 10 ^ e = s * 10 ^ i * 10 ^ k := by rw [hpower, mul_assoc]
    _ ≤ c * 10 ^ k := mul_le_mul_of_nonneg_right hcast (by positivity)
    _ ≤ ceiling := h
  exact_mod_cast hall

theorem gatherWhole_digit : ∀ d : Digit, gatherWhole 0 [d] = ⟨UInt64.ofNat d.val, 0⟩ := by decide

theorem isSome_scientific (negative : Bool) {c : ℕ} (hc : c ≠ 0) {k : ℤ}
    (h : Decimal.worth ⟨c, k⟩ ≤ ceiling) :
    (scientific negative (Digit.ofNat c) k).toFloat?.isSome = true := by
  obtain ⟨d, rest, hds, hd⟩ := Digit.leads_ofNat hc
  have hdigits : d.val * 10 ^ rest.length + Digit.toNat rest = c := by
    rw [← Digit.toNat_cons, ← hds, Digit.toNat_ofNat]
  obtain ⟨j, hj, hexponent, hle⟩ := gatherFraction_le (gatherWhole 0 [d]) rest
  have hfirst : (gatherWhole 0 [d]).significand.toNat = d.val := by
    rw [gatherWhole_digit]
    exact UInt64.toNat_ofNat_of_lt (d.isLt.trans (by decide))
  have hzero : (gatherWhole 0 [d]).exponent = 0 := by rw [gatherWhole_digit]
  rw [hfirst, hdigits] at hle
  rw [hzero] at hexponent
  have hleading : k + (d :: rest).length - 1 = k + rest.length := by
    rw [List.length_cons]
    omega
  rw [isSome_toFloat?_iff, hds]
  simp only [scientific, hleading, List.take_succ_cons, List.take_zero, List.drop_succ_cons,
    List.drop_zero]
  split
  · exact isSome_magnitude?_minus (by omega) (by rw [Digit.toNat_ofNat]; omega)
  · -- the leading digit alone bounds the power of ten
    have hlead : 1 * 10 ^ (k + rest.length).natAbs ≤ ceiling := by
      refine le_ceiling (i := rest.length) ?_ (by omega) h
      calc 1 * 10 ^ rest.length ≤ d.val * 10 ^ rest.length := Nat.mul_le_mul_right _ (by omega)
        _ ≤ c := hdigits ▸ Nat.le_add_right _ _
    have hpower : (k + rest.length).natAbs ≤ greatestPower := by
      by_contra hgreat
      have hmono : 10 ^ (greatestPower + 1) ≤ 10 ^ (k + rest.length).natAbs :=
        Nat.pow_le_pow_right (by decide) (by omega)
      have hceiling : ceiling < 10 ^ (greatestPower + 1) := by decide +kernel
      omega
    refine isSome_magnitude? (by omega) rfl (Digit.toNat_ofNat _) hpower ?_
    by_cases hneg : (gatherFraction (gatherWhole 0 [d]) rest).exponent +
        (k + rest.length).natAbs < 0
    · rw [Int.toNat_eq_zero.mpr hneg.le, Nat.pow_zero, Nat.mul_one]
      exact (UInt64.toNat_lt _).le.trans (by decide +kernel)
    · exact le_ceiling hle (by omega) h

end Forms

end Numeral

namespace Binary

open Float.Model UnpackedFloat

theorem toNat_unpackExponent (b : BitVec 64) :
    (@unpackExponent .binary64 b).toNat = b.toNat / hidden % 2048 := by
  rw [unpackExponent, BitVec.toNat_cast, BitVec.extractLsb_toNat, Nat.shiftRight_eq_div_pow]
  rfl

theorem toNat_unpackMantissa (b : BitVec 64) :
    (@unpackMantissa .binary64 b).toNat = b.toNat % hidden := by
  rw [unpackMantissa, BitVec.toNat_cast, BitVec.extractLsb_toNat, Nat.shiftRight_zero]
  rfl

theorem sign_unpackSign (b : BitVec 64) : Sign.ofBitVec (@unpackSign .binary64 b) =
    if Nat.pow 2 63 ≤ b.toNat then .negative else .positive := by
  have hsign : (@unpackSign .binary64 b).toNat = b.toNat / 2 ^ 63 % 2 := by
    rw [unpackSign, BitVec.toNat_cast, BitVec.extractLsb_toNat, Nat.shiftRight_eq_div_pow]
    rfl
  have hlt : b.toNat < 2 ^ 64 := b.isLt
  have hzero : @unpackSign .binary64 b = 0#1 ↔ ¬ Nat.pow 2 63 ≤ b.toNat := by
    rw [← BitVec.toNat_inj, hsign]
    change _ = 0 ↔ ¬ 2 ^ 63 ≤ b.toNat
    omega
  rw [Sign.ofBitVec]
  by_cases h : Nat.pow 2 63 ≤ b.toNat
  · rw [if_pos h, if_neg fun hz => hzero.mp hz h]
  · rw [if_neg h, if_pos (hzero.mpr h)]

theorem isFinite_iff {x : Float} :
    x.isFinite = true ↔ x.toBits.toNat / hidden % 2048 ≠ 2047 := by
  have hstored : (@unpackExponent .binary64 x.toModel.toBits.toBitVec).toNat =
      x.toBits.toNat / hidden % 2048 := toNat_unpackExponent _
  change (UnpackedFloat.unpack .binary64 x.toModel.toBits.toBitVec).isFinite = true ↔ _
  rw [← hstored, UnpackedFloat.unpack]
  simp only
  split
  · rename_i h
    rw [h]
    refine iff_of_false ?_ (fun hne => hne rfl)
    split
    · exact Bool.false_ne_true
    · exact Bool.false_ne_true
  · rename_i h
    refine iff_of_true ?_ fun he => h (BitVec.eq_of_toNat_eq he)
    split
    · split <;> rfl
    · rfl

theorem ofFloat_of_isFinite {x : Float} (h : x.isFinite = true) :
    ∃ negative m q, ofFloat x = .finite negative m q ∧ m < 2 ^ 53 ∧ q ≤ 971 := by
  have hstored : x.toBits.toNat % hidden < hidden := Nat.mod_lt _ (by decide)
  have hhidden : hidden = 2 ^ 52 := rfl
  have hbiased : x.toBits.toNat / hidden % 2048 < 2048 := Nat.mod_lt _ (by decide)
  rw [isFinite_iff] at h
  simp only [ofFloat, ofBits, if_neg h]
  split
  · exact ⟨_, _, _, rfl, by omega, by decide⟩
  · exact ⟨_, _, _, rfl, by omega, by omega⟩

end Binary

theorem Decimal.upper_le_ceiling {m : ℕ} {q : ℤ} (hm : m < 2 ^ 53) (hq : q ≤ 971)
    (h : ¬ (m = 2 ^ 53 - 1 ∧ q = 971)) : upper m q ≤ Numeral.ceiling := by
  have hceiling : (Numeral.ceiling : ℚ) = (2 ^ 54 - 3) * 2 ^ (Numeral.halfPlace : ℤ) := by
    rw [Numeral.ceiling, Nat.cast_mul, Nat.cast_pow, zpow_natCast]
    norm_num
  have htop : (Numeral.halfPlace : ℤ) = 970 := rfl
  rw [hceiling, upper]
  by_cases hlow : q ≤ 970
  · have hpower : (2 : ℚ) ^ (q - 1) * 2 ≤ 2 ^ (Numeral.halfPlace : ℤ) := by
      rw [← zpow_add_one₀ (by norm_num)]
      exact zpow_le_zpow_right₀ (by norm_num) (by omega)
    have hmantissa : (m : ℚ) + 1 ≤ 2 ^ 53 := by exact_mod_cast hm
    have hpos : (0 : ℚ) < 2 ^ (q - 1) := by positivity
    calc (2 * m + 1) * (2 : ℚ) ^ (q - 1) ≤ (2 ^ 54 - 3) * (2 ^ (q - 1) * 2) := by nlinarith
      _ ≤ (2 ^ 54 - 3) * 2 ^ (Numeral.halfPlace : ℤ) :=
        mul_le_mul_of_nonneg_left hpower (by norm_num)
  · have hexponent : q - 1 = Numeral.halfPlace := by omega
    have hmantissa : (m : ℚ) + 2 ≤ 2 ^ 53 := by
      have : m + 2 ≤ 2 ^ 53 := by omega
      exact_mod_cast this
    rw [hexponent]
    exact mul_le_mul_of_nonneg_right (by linarith) (by positivity)

namespace Layout

theorem numeral?_eq_none (layout : Layout) {x : Float} (h : x.isFinite = false) :
    layout.numeral? x = none := by
  have hbiased : x.toBits.toNat / Binary.hidden % 2048 = 2047 := by
    by_contra hne
    rw [Binary.isFinite_iff.mpr hne] at h
    cases h
  rw [numeral?, Binary.ofFloat, Binary.ofBits]
  simp only [if_pos hbiased]
  split
  · rename_i he
    split at he <;> cases he
  · rfl

theorem shortest_greatest : Decimal.shortest .toEven (2 ^ 53 - 1) 971 =
    ⟨17976931348623157, 292⟩ := by decide +kernel

theorem isSome_greatest (negative : Bool) : (Numeral.scientific negative
    (Digit.ofNat 17976931348623157) 292).toFloat?.isSome = true := by
  cases negative <;> decide +kernel

theorem read_of_isFinite {x : Float} (h : x.isFinite = true) :
    ∃ y, (json.numeral? x).bind Numeral.toFloat? = some y := by
  obtain ⟨negative, m, q, hx, hm, hq⟩ := Binary.ofFloat_of_isFinite h
  rw [← Option.isSome_iff_exists, numeral?, hx]
  simp only
  split
  · rename_i hpositional
    simp only [json, decide_eq_true_eq] at hpositional
    exact Numeral.isSome_positional _ _ hpositional.2
  · rename_i hscientific
    by_cases hgreatest : m = 2 ^ 53 - 1 ∧ q = 971
    · have htie : json.tie = .toEven := rfl
      rw [hgreatest.1, hgreatest.2, htie, shortest_greatest, Option.bind_some]
      exact isSome_greatest negative
    · have hworth := (Decimal.worth_shortest_le json.tie m q).trans
        (Decimal.upper_le_ceiling hm hq hgreatest)
      refine Numeral.isSome_scientific negative (fun hzero => ?_) hworth
      rcases Decimal.shortest_cases json.tie m q with hnull | hne
      · rw [hnull] at hscientific
        exact hscientific rfl
      · exact hne hzero

end Layout

end LinearProgram
