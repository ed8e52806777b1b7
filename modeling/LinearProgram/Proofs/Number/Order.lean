import LinearProgram.Proofs.Number.Nearest

/-!
The order of doubles, and that adding and subtracting keep it. Every double is a whole multiple of
the smallest positive one, so doubles are compared, added and rounded as integers.
-/

namespace LinearProgram.Double

open Float.Model UnpackedFloat

def overflowExponent : ℕ := 2098

def overflow : ℕ := 2 ^ overflowExponent

/-- The value in units of the smallest positive double. An infinite one counts as too large by the
least. -/
def ticks : UnpackedFloat → ℤ
  | .finite s m e _ => s.apply (m * 2 ^ (e + 1074).toNat : ℕ)
  | .infinity s => s.apply overflow
  | .zero _ | .notANumber => 0

structure Parts (m : ℕ) (e : ℤ) : Prop where
  short : m < 2 ^ 53
  lowest : -1074 ≤ e
  full : 2 ^ 52 ≤ m ∨ e = -1074

def Canonical : UnpackedFloat → Prop
  | .finite _ m e _ => Parts m e ∧ e < 972
  | _ => True

variable {x y t : Float} {u v : UnpackedFloat} {m n : ℕ} {e : ℤ}

theorem toNat_one_append (v : BitVec 52) : (1#1 ++ v).toNat = 2 ^ 52 + v.toNat := by
  rw [BitVec.toNat_append, ← Nat.shiftLeft_add_eq_or_of_lt v.isLt, Nat.shiftLeft_eq]
  rfl

theorem canonical_unpack (b : BitVec 64) : Canonical (UnpackedFloat.unpack .binary64 b) := by
  have hbias : ((Format.binary64.exponentBias : ℕ) : ℤ) = 1023 := rfl
  have hmantissa : (@unpackMantissa .binary64 b).toNat < 2 ^ 52 :=
    (@unpackMantissa .binary64 b).isLt
  have hexponent : (@unpackExponent .binary64 b).toNat < 2 ^ 11 :=
    (@unpackExponent .binary64 b).isLt
  rw [UnpackedFloat.unpack]
  simp only [hbias, Nat.cast_ofNat]
  split
  · split <;> trivial
  · rename_i hinfinite
    split
    · rename_i hzero
      split
      · trivial
      · refine ⟨⟨?_, ?_, .inr ?_⟩, ?_⟩
        all_goals first | omega | (rw [hzero]; decide)
    · rename_i hnonzero
      have hone : (@unpackExponent .binary64 b).toNat ≠ 2047 := fun h =>
        hinfinite (BitVec.eq_of_toNat_eq h)
      have hpos : (@unpackExponent .binary64 b).toNat ≠ 0 := fun h =>
        hnonzero (BitVec.eq_of_toNat_eq h)
      have hfull := toNat_one_append (@unpackMantissa .binary64 b)
      refine ⟨⟨?_, ?_, .inl ?_⟩, ?_⟩ <;> omega

theorem canonical_value (x : Float) : Canonical (value x) := canonical_unpack _

section Comparing

namespace Parts

variable {m' : ℕ} {e' : ℤ}

theorem lt_overflow (h : Parts m e) (he : e < 972) : m * 2 ^ (e + 1074).toNat < overflow := by
  have hlow := h.lowest
  have hexp : overflowExponent = 2098 := rfl
  calc m * 2 ^ (e + 1074).toNat < 2 ^ 53 * 2 ^ (e + 1074).toNat :=
        Nat.mul_lt_mul_of_pos_right h.short (Nat.two_pow_pos _)
    _ = 2 ^ (53 + (e + 1074).toNat) := (Nat.pow_add ..).symm
    _ ≤ overflow := Nat.pow_le_pow_right (by decide) (by omega)

theorem overflow_le (h : Parts m e) (he : 972 ≤ e) : overflow ≤ m * 2 ^ (e + 1074).toNat := by
  have hfull := h.full.resolve_right (by omega)
  have hexp : overflowExponent = 2098 := rfl
  calc overflow ≤ 2 ^ (52 + (e + 1074).toNat) := Nat.pow_le_pow_right (by decide) (by omega)
    _ = 2 ^ 52 * 2 ^ (e + 1074).toNat := Nat.pow_add ..
    _ ≤ m * 2 ^ (e + 1074).toNat := Nat.mul_le_mul_right _ hfull

theorem lt_of_exponent (h : Parts m e) (h' : Parts m' e') (he : e < e') :
    m * 2 ^ (e + 1074).toNat < m' * 2 ^ (e' + 1074).toNat := by
  have hlow := h.lowest
  have hfull := h'.full.resolve_right (by omega)
  calc m * 2 ^ (e + 1074).toNat < 2 ^ 53 * 2 ^ (e + 1074).toNat :=
        Nat.mul_lt_mul_of_pos_right h.short (Nat.two_pow_pos _)
    _ = 2 ^ 52 * 2 ^ ((e + 1074).toNat + 1) := by rw [Nat.pow_succ]; ring
    _ ≤ 2 ^ 52 * 2 ^ (e' + 1074).toNat :=
        Nat.mul_le_mul_left _ (Nat.pow_le_pow_right (by decide) (by omega))
    _ ≤ m' * 2 ^ (e' + 1074).toNat := Nat.mul_le_mul_right _ hfull

theorem compare_eq (h : Parts m e) (h' : Parts m' e') : (compare e e').then (compare m m') =
    compare ((m * 2 ^ (e + 1074).toNat : ℕ) : ℤ) (m' * 2 ^ (e' + 1074).toNat : ℕ) := by
  have hlt {a b : ℕ} (hab : a < b) : compare (a : ℤ) b = .lt :=
    Int.compare_eq_lt.mpr (Int.ofNat_lt.mpr hab)
  have hgt {a b : ℕ} (hab : b < a) : compare (a : ℤ) b = .gt :=
    Int.compare_eq_gt.mpr (Int.ofNat_lt.mpr hab)
  have hpos := Nat.two_pow_pos (e + 1074).toNat
  obtain he | rfl | he := lt_trichotomy e e'
  · rw [Int.compare_eq_lt.mpr he, hlt (h.lt_of_exponent h' he)]
    rfl
  · rw [Int.compare_eq_eq.mpr rfl]
    change compare m m' = _
    obtain hm | rfl | hm := lt_trichotomy m m'
    · rw [Nat.compare_eq_lt.mpr hm, hlt (Nat.mul_lt_mul_of_pos_right hm hpos)]
    · rw [Nat.compare_eq_eq.mpr rfl, Int.compare_eq_eq.mpr rfl]
    · rw [Nat.compare_eq_gt.mpr hm, hgt (Nat.mul_lt_mul_of_pos_right hm hpos)]
  · rw [Int.compare_eq_gt.mpr he, hgt (h'.lt_of_exponent h he)]
    rfl

end Parts

theorem compare_neg (a b : ℤ) : compare (-a) (-b) = (compare a b).swap := by
  obtain h | rfl | h := lt_trichotomy a b
  · rw [Int.compare_eq_lt.mpr h, Int.compare_eq_gt.mpr (Int.neg_lt_neg h)]
    rfl
  · rw [Int.compare_eq_eq.mpr rfl, Int.compare_eq_eq.mpr rfl]
    rfl
  · rw [Int.compare_eq_gt.mpr h, Int.compare_eq_lt.mpr (Int.neg_lt_neg h)]
    rfl

theorem compare_eq (hu : Canonical u) (hv : Canonical v) (hun : u.isNaN = false)
    (hvn : v.isNaN = false) : u.compare v = some (compare (ticks u) (ticks v)) := by
  have hover : 0 < overflow := Nat.two_pow_pos _
  have hsize {m : ℕ} {e : ℤ} (hm : 0 < m) (h : Parts m e ∧ e < 972) :
      0 < m * 2 ^ (e + 1074).toNat ∧ m * 2 ^ (e + 1074).toNat < overflow :=
    ⟨Nat.mul_pos hm (Nat.two_pow_pos _), h.1.lt_overflow h.2⟩
  have hlt {a b : ℤ} (hab : a < b) : some .lt = some (compare a b) :=
    congrArg some (Int.compare_eq_lt.mpr hab).symm
  have hgt {a b : ℤ} (hab : b < a) : some .gt = some (compare a b) :=
    congrArg some (Int.compare_eq_gt.mpr hab).symm
  -- what is infinite has more ticks than anything finite, so the signs decide all other cases
  cases u with
  | notANumber => cases hun
  | infinity s =>
    cases v with
    | notANumber => cases hvn
    | infinity s' =>
      cases s <;> cases s' <;> simp only [ticks, Sign.apply]
      · exact congrArg some (Int.compare_eq_eq.mpr rfl).symm
      · exact hlt (by omega)
      · exact hgt (by omega)
      · exact congrArg some (Int.compare_eq_eq.mpr rfl).symm
    | zero s' =>
      cases s <;> simp only [ticks, Sign.apply]
      · exact hlt (by omega)
      · exact hgt (by omega)
    | finite s' m' e' hm' =>
      obtain ⟨hpos, hsmall⟩ := hsize hm' hv
      cases s <;> cases s' <;> simp only [ticks, Sign.apply]
      · exact hlt (by omega)
      · exact hlt (by omega)
      · exact hgt (by omega)
      · exact hgt (by omega)
  | zero s =>
    cases v with
    | notANumber => cases hvn
    | infinity s' =>
      cases s' <;> simp only [ticks, Sign.apply]
      · exact hgt (by omega)
      · exact hlt (by omega)
    | zero s' => rfl
    | finite s' m' e' hm' =>
      obtain ⟨hpos, hsmall⟩ := hsize hm' hv
      cases s' <;> simp only [ticks, Sign.apply]
      · exact hgt (by omega)
      · exact hlt (by omega)
  | finite s m e hm =>
    obtain ⟨hpos, hsmall⟩ := hsize hm hu
    cases v with
    | notANumber => cases hvn
    | infinity s' =>
      cases s' <;> cases s <;> simp only [ticks, Sign.apply]
      · exact hgt (by omega)
      · exact hgt (by omega)
      · exact hlt (by omega)
      · exact hlt (by omega)
    | zero s' =>
      cases s <;> simp only [ticks, Sign.apply]
      · exact hlt (by omega)
      · exact hgt (by omega)
    | finite s' m' e' hm' =>
      obtain ⟨hpos', hsmall'⟩ := hsize hm' hv
      cases s <;> cases s' <;> simp only [ticks, Sign.apply]
      · rw [compare_neg, ← hu.1.compare_eq hv.1]
        rfl
      · exact hlt (by omega)
      · exact hgt (by omega)
      · exact congrArg some (hu.1.compare_eq hv.1)

theorem le_iff : x ≤ y ↔ x.isNaN = false ∧ y.isNaN = false ∧ ticks (value x) ≤ ticks (value y) := by
  have hle : x ≤ y ↔ ((value x).compare (value y)).any (·.isLE) = true :=
    (decide_eq_true_iff : decide (x.toModel ≤ y.toModel) = true ↔ _)
  have hnan (z : Float) : z.isNaN = (value z).isNaN := rfl
  rw [hle, hnan, hnan]
  cases hx : (value x).isNaN with
  | true =>
    have hnone : (value x).compare (value y) = none := by
      cases h : value x with
      | notANumber => rfl
      | _ =>
        rw [h] at hx
        cases hx
    simp [hnone]
  | false =>
    cases hy : (value y).isNaN with
    | true =>
      have hnone : (value x).compare (value y) = none := by
        cases h : value y with
        | notANumber => cases value x <;> rfl
        | _ =>
          rw [h] at hy
          cases hy
      simp [hnone]
    | false =>
      rw [compare_eq (canonical_value x) (canonical_value y) hx hy, Option.any_some,
        Int.isLE_compare]
      simp

end Comparing

section Rounding

theorem shiftToTargetExponent_lowest (hm : m.log2 < 53) :
    shiftToTargetExponent .binary64 m (-1074) .exact = (⟨m, false, false⟩, -1074) := by
  have hbits : (Format.binary64.mantissaBits : ℤ) = 53 := rfl
  have hmin : Format.binary64.minExponent = -1074 := rfl
  have hshift : (Format.binary64.targetExponent (totalExponent m (-1074)) - -1074).toNat = 0 := by
    rw [Format.targetExponent, totalExponent, hbits, hmin]
    omega
  rw [shiftToTargetExponent, shiftToExponent, hshift]
  rfl

theorem nearest_of_lt (hn : n < 2 ^ 53) : nearest n = n := by
  apply nearest_of_dvd
  have hlog : n.log2 - 52 = 0 := by
    obtain rfl | hpos := Nat.eq_zero_or_pos n
    · rfl
    · have := (Nat.log2_lt hpos.ne').mpr hn
      omega
  rw [hlog]
  exact one_dvd n

theorem nearest_parts (h : Parts m e) :
    nearest (m * 2 ^ (e + 1074).toNat) = m * 2 ^ (e + 1074).toNat := by
  rw [nearest_mul_two_pow, nearest_of_lt h.short]

theorem roundWithAccuracy_lowest (s : Sign) (hm : 0 < m) (hlog : m.log2 < 52) :
    roundWithAccuracy .binary64 s m (-1074) .exact = .finite s m (-1074) hm := by
  have hrounded : (⟨m, false, false⟩ : ExtendedMantissa).roundedMantissa = m := rfl
  have hshift := shiftToTargetExponent_lowest (m := m) (by omega)
  rw [roundWithAccuracy, hshift]
  simp only [hrounded, hshift]
  exact dif_neg hm.ne'

theorem round_eq (s : Sign) (hm : m ≠ 0) (he : -1074 ≤ e) :
    ∃ M E hM, UnpackedFloat.round .binary64 s m e = .finite s M E hM ∧ Parts M E ∧
      M * 2 ^ (E + 1074).toNat = nearest (m * 2 ^ (e + 1074).toNat) := by
  rw [UnpackedFloat.round]
  simp only [decreaseExponent, Nat.shiftLeft_eq]
  by_cases hnormal : -1022 ≤ m.log2 + e
  · rw [targetExponent_eq hnormal]
    generalize hd : (e - (m.log2 + e - 52)).toNat = d
    have hlog := log2_mul_two_pow hm d
    obtain ⟨M, E, hM, hr, hlow, hhigh, hE, hvalue⟩ :=
      roundWithAccuracy_eq s (m := m * 2 ^ d) (e := e - d) (by omega) (by omega)
    refine ⟨M, E, hM, hr, ⟨hhigh, by omega, .inl hlow⟩, ?_⟩
    have hE' : (E + 1074).toNat = (E - (e - d)).toNat + (e - d + 1074).toNat := by omega
    have he' : (e + 1074).toNat = d + (e - d + 1074).toNat := by omega
    rw [hE', Nat.pow_add, ← Nat.mul_assoc, hvalue, ← nearest_mul_two_pow, he', Nat.pow_add,
      ← Nat.mul_assoc]
  -- the number is so small that the least exponent leaves room for all its digits
  · have htarget : Format.binary64.targetExponent (totalExponent m e) = -1074 := by
      have hbits : (Format.binary64.mantissaBits : ℤ) = 53 := rfl
      have hmin : Format.binary64.minExponent = -1074 := rfl
      rw [Format.targetExponent, totalExponent, hbits, hmin]
      omega
    rw [htarget]
    have hd : (e - -1074).toNat = (e + 1074).toNat := by omega
    rw [hd, show e - ((e + 1074).toNat : ℤ) = -1074 by omega]
    generalize hd : (e + 1074).toNat = d
    have hlog := log2_mul_two_pow hm d
    have hpos : 0 < m * 2 ^ d := Nat.mul_pos (Nat.pos_of_ne_zero hm) (Nat.two_pow_pos d)
    have hshort : m * 2 ^ d < 2 ^ 52 := (Nat.log2_lt hpos.ne').mp (by omega)
    refine ⟨m * 2 ^ d, -1074, hpos, roundWithAccuracy_lowest s hpos (by omega),
      ⟨by omega, by decide, .inr rfl⟩, ?_⟩
    rw [nearest_of_lt (by omega)]
    exact Nat.mul_one _

theorem value_pack_lowest (s : Sign) (hm : 0 < m) (hlog : m.log2 < 52) :
    value (.ofModel (.pack (.finite s m (-1074) hm))) = .finite s m (-1074) hm := by
  have hbias : ((Format.binary64.exponentBias : ℕ) : ℤ) = 1023 := rfl
  have hshort : m < 2 ^ 52 := (Nat.log2_lt hm.ne').mp hlog
  have hmantissa : (BitVec.ofNat 52 m).toNat = m := Nat.mod_eq_of_lt hshort
  have hzero : BitVec.ofNat 52 m ≠ 0#52 := fun h => by
    have hm₀ := congrArg BitVec.toNat h
    rw [hmantissa] at hm₀
    exact hm.ne' hm₀
  change UnpackedFloat.unpack .binary64 (UnpackedFloat.pack .binary64 (.finite s m (-1074) hm)) = _
  rw [UnpackedFloat.pack]
  simp only [hbias, Nat.cast_ofNat]
  rw [if_neg (by decide), if_neg (show ¬ m.log2 + 1 = Format.binary64.mantissaBits from by
    have hbits : Format.binary64.mantissaBits = 53 := rfl
    omega), UnpackedFloat.unpack]
  simp only [unpackMantissa_packComponents, unpackExponent_packComponents,
    unpackSign_packComponents]
  rw [if_neg (by decide), if_pos trivial, dif_neg hzero]
  simp only [hmantissa, hbias, Nat.cast_ofNat]
  rfl

theorem value_pack_zero (s : Sign) : value (.ofModel (.pack (.zero s))) = .zero s := by
  change UnpackedFloat.unpack .binary64 (UnpackedFloat.pack .binary64 (.zero s)) = _
  cases s <;> rfl

theorem ticks_pack_finite (s : Sign) (hm : 0 < m) (h : Parts m e) :
    ticks (value (.ofModel (.pack (.finite s m e hm)))) =
      s.apply (min (m * 2 ^ (e + 1074).toNat) overflow : ℕ) := by
  by_cases hlarge : 972 ≤ e
  · rw [value_pack_infinite s m hm hlarge, Nat.min_eq_right (h.overflow_le hlarge)]
    rfl
  · rw [Nat.min_eq_left (h.lt_overflow (by omega)).le]
    by_cases hfull : 2 ^ 52 ≤ m
    · rw [value_pack_finite s hm hfull h.short h.lowest (by omega)]
      rfl
    · obtain rfl := h.full.resolve_left hfull
      rw [value_pack_lowest s hm ((Nat.log2_lt hm.ne').mpr (by omega))]
      rfl

def rounded (n : ℤ) : ℤ := n.sign * (min (nearest n.natAbs) overflow : ℕ)

theorem rounded_zero : rounded 0 = 0 := by
  rw [rounded, Int.sign_zero, zero_mul]

theorem rounded_natCast (n : ℕ) : rounded n = (min (nearest n) overflow : ℕ) := by
  rw [rounded, Int.natAbs_natCast]
  obtain rfl | hn := Nat.eq_zero_or_pos n
  · rw [show nearest 0 = 0 from rfl, Nat.zero_min]
    rfl
  · rw [Int.sign_eq_one_of_pos (by omega), one_mul]

theorem rounded_neg (n : ℤ) : rounded (-n) = -rounded n := by
  rw [rounded, rounded, Int.sign_neg, Int.natAbs_neg, neg_mul]

theorem rounded_nonneg {n : ℤ} (hn : 0 ≤ n) : 0 ≤ rounded n := by
  obtain ⟨n, rfl⟩ := Int.eq_ofNat_of_zero_le hn
  rw [rounded_natCast]
  exact Int.natCast_nonneg _

theorem rounded_mono {a b : ℤ} (h : a ≤ b) : rounded a ≤ rounded b := by
  have hmono {m n : ℕ} (hmn : m ≤ n) : rounded m ≤ rounded n := by
    rw [rounded_natCast, rounded_natCast, Int.ofNat_le]
    exact min_le_min_right _ (nearest_mono hmn)
  obtain ⟨m, rfl | rfl⟩ := a.eq_nat_or_neg
  · obtain ⟨n, rfl⟩ := Int.eq_ofNat_of_zero_le ((Int.natCast_nonneg m).trans h)
    exact hmono (Int.ofNat_le.mp h)
  · obtain ⟨n, rfl | rfl⟩ := b.eq_nat_or_neg
    · rw [rounded_neg]
      have hm := rounded_nonneg (Int.natCast_nonneg m)
      have hn := rounded_nonneg (Int.natCast_nonneg n)
      omega
    · rw [rounded_neg, rounded_neg]
      have hmn : n ≤ m := by omega
      have := hmono hmn
      omega

theorem ticks_normalize (M : ℤ) (he : -1074 ≤ e) (s : Sign) :
    ticks (value (.ofModel (.pack (UnpackedFloat.normalize .binary64 M e s)))) =
      rounded (M * 2 ^ (e + 1074).toNat) := by
  have hround (s : Sign) {m : ℕ} (hm : m ≠ 0) :
      ticks (value (.ofModel (.pack (UnpackedFloat.round .binary64 s m e)))) =
        s.apply (rounded (m * 2 ^ (e + 1074).toNat)) := by
    obtain ⟨M, E, hM, hr, hparts, hvalue⟩ := round_eq s hm he
    have hcast : (m : ℤ) * 2 ^ (e + 1074).toNat = (m * 2 ^ (e + 1074).toNat : ℕ) := by push_cast; rfl
    rw [hr, ticks_pack_finite s hM hparts, hvalue, hcast, rounded_natCast]
  rw [UnpackedFloat.normalize]
  obtain hlt | rfl | hgt := lt_trichotomy M 0
  · rw [Int.compare_eq_lt.mpr hlt]
    have hM : M = -((-M).toNat : ℤ) := by omega
    change ticks (value (.ofModel (.pack (UnpackedFloat.round .binary64 .negative _ e)))) = _
    rw [hround .negative (by omega), Sign.apply, ← rounded_neg, ← neg_mul, ← hM]
  · rw [Int.compare_eq_eq.mpr rfl, Int.zero_mul, rounded_zero]
    exact congrArg ticks (value_pack_zero s)
  · rw [Int.compare_eq_gt.mpr hgt]
    have hM : M = (M.toNat : ℤ) := by omega
    change ticks (value (.ofModel (.pack (UnpackedFloat.round .binary64 .positive _ e)))) = _
    rw [hround .positive (by omega), Sign.apply, ← hM]

end Rounding

section Adding

theorem value_pack (hu : Canonical u) : value (.ofModel (.pack u)) = u := by
  cases u with
  | notANumber => rfl
  | infinity s =>
    change UnpackedFloat.unpack .binary64 (UnpackedFloat.pack .binary64 (.infinity s)) = _
    cases s <;> rfl
  | zero s => exact value_pack_zero s
  | finite s m e hm =>
    obtain ⟨h, he⟩ := hu
    by_cases hfull : 2 ^ 52 ≤ m
    · exact value_pack_finite s hm hfull h.short h.lowest he
    · obtain rfl := h.full.resolve_left hfull
      exact value_pack_lowest s hm ((Nat.log2_lt hm.ne').mpr (by omega))

theorem rounded_ticks (hu : Canonical u) (hf : u.isFinite = true) : rounded (ticks u) = ticks u := by
  cases u with
  | zero s => exact rounded_zero
  | finite s m e hm =>
    have hpos : rounded (m * 2 ^ (e + 1074).toNat : ℕ) = (m * 2 ^ (e + 1074).toNat : ℕ) := by
      rw [rounded_natCast, nearest_parts hu.1, Nat.min_eq_left (hu.1.lt_overflow hu.2).le]
    cases s with
    | positive => exact hpos
    | negative => exact (rounded_neg _).trans (congrArg Neg.neg hpos)
  | _ => cases hf

theorem apply_shift (s : Sign) (m : ℕ) {e low : ℤ} (hlow : -1074 ≤ low) (he : low ≤ e) :
    s.apply (m * 2 ^ (e + 1074).toNat : ℕ) =
      s.apply (m <<< (e - low).toNat : ℕ) * 2 ^ (low + 1074).toNat := by
  have hexp : (e + 1074).toNat = (e - low).toNat + (low + 1074).toNat := by omega
  rw [Nat.shiftLeft_eq, hexp, Nat.pow_add, ← Nat.mul_assoc]
  cases s <;> simp [Sign.apply]

theorem ticks_add (hu : Canonical u) (hv : Canonical v) (huf : u.isFinite = true)
    (hvf : v.isFinite = true) :
    ticks (value (.ofModel (.pack (UnpackedFloat.add .binary64 u v)))) =
      rounded (ticks u + ticks v) := by
  cases u with
  | zero s =>
    cases v with
    | zero s' =>
      have hsum : UnpackedFloat.add .binary64 (.zero s) (.zero s') =
          if s == s' then .zero s else .zero .positive := rfl
      rw [hsum, show ticks (.zero s) + ticks (.zero s') = 0 from rfl, rounded_zero]
      split <;> exact congrArg ticks (value_pack_zero _)
    | finite s' m' e' hm' =>
      change ticks (value (.ofModel (.pack (.finite s' m' e' hm')))) = rounded (0 + _)
      rw [value_pack hv, Int.zero_add, rounded_ticks hv rfl]
    | _ => cases hvf
  | finite s m e hm =>
    cases v with
    | zero s' =>
      change ticks (value (.ofModel (.pack (.finite s m e hm)))) = rounded (_ + 0)
      rw [value_pack hu, Int.add_zero, rounded_ticks hu rfl]
    | finite s' m' e' hm' =>
      have hlow : -1074 ≤ min e e' := le_min hu.1.lowest hv.1.lowest
      refine (ticks_normalize _ hlow .positive).trans (congrArg rounded ?_)
      rw [ticks, ticks, apply_shift s m hlow (min_le_left e e'),
        apply_shift s' m' hlow (min_le_right e e'), ← add_mul]
    | _ => cases hvf
  | _ => cases huf

theorem apply_neg (s : Sign) (n : ℤ) : (-s).apply n = -s.apply n := by
  cases s with
  | negative => exact (Int.neg_neg n).symm
  | positive => rfl

theorem sub_eq_add_neg (u v : UnpackedFloat) :
    UnpackedFloat.sub .binary64 u v = UnpackedFloat.add .binary64 u v.neg := by
  cases u with
  | finite s m e hm =>
    cases v with
    | finite s' m' e' hm' =>
      rw [UnpackedFloat.neg, UnpackedFloat.sub, UnpackedFloat.add]
      simp only [apply_neg, Int.sub_eq_add_neg]
    | _ => rfl
  | _ => cases v <;> rfl

theorem Canonical.neg (hv : Canonical v) : Canonical v.neg := by
  cases v <;> exact hv

theorem isFinite_neg (v : UnpackedFloat) : v.neg.isFinite = v.isFinite := by
  cases v <;> rfl

theorem ticks_bounds (hu : Canonical u) : -(overflow : ℤ) ≤ ticks u ∧ ticks u ≤ overflow := by
  cases u with
  | finite s m e hm =>
    have hlt := hu.1.lt_overflow hu.2
    cases s <;> simp only [ticks, Sign.apply] <;> omega
  | infinity s => cases s <;> simp only [ticks, Sign.apply] <;> omega
  | _ =>
    simp only [ticks]
    omega

theorem ticks_lt_of_isFinite (hu : Canonical u) (hf : u.isFinite = true) :
    -(overflow : ℤ) < ticks u ∧ ticks u < overflow := by
  have hover : 0 < overflow := Nat.two_pow_pos _
  cases u with
  | finite s m e hm =>
    have hlt := hu.1.lt_overflow hu.2
    cases s <;> simp only [ticks, Sign.apply] <;> omega
  | zero s =>
    simp only [ticks]
    omega
  | _ => cases hf

theorem isNaN_add (u : UnpackedFloat) (hv : v.isFinite = true) :
    (UnpackedFloat.add .binary64 u v).isNaN = u.isNaN := by
  have hnormalize (M : ℤ) (e : ℤ) :
      (UnpackedFloat.normalize .binary64 M e .positive).isNaN = false := by
    rw [UnpackedFloat.normalize]
    split
    · exact isNaN_roundWithAccuracy _ _ _ _
    · rfl
    · exact isNaN_roundWithAccuracy _ _ _ _
  cases v with
  | zero s' =>
    cases u with
    | zero s => cases s <;> cases s' <;> rfl
    | _ => rfl
  | finite s' m' e' hm' =>
    cases u with
    | finite s m e hm => exact hnormalize _ _
    | _ => rfl
  | _ => cases hv

theorem value_eq_infinity (hn : x.isNaN = false) (hf : ¬ (value x).isFinite = true) :
    ∃ s, value x = .infinity s := by
  change (value x).isNaN = false at hn
  cases hx : value x with
  | infinity s => exact ⟨s, rfl⟩
  | notANumber =>
    rw [hx] at hn
    cases hn
  | _ =>
    rw [hx] at hf
    exact absurd rfl hf

theorem add_infinity (s : Sign) (hv : v.isFinite = true) :
    UnpackedFloat.add .binary64 (.infinity s) v = .infinity s := by
  cases v with
  | infinity s' => cases hv
  | notANumber => cases hv
  | _ => rfl

theorem add_le_of_le (h : x ≤ y) (hv : Canonical v) (hf : v.isFinite = true) :
    Float.ofModel (.pack (UnpackedFloat.add .binary64 (value x) v)) ≤
      .ofModel (.pack (UnpackedFloat.add .binary64 (value y) v)) := by
  obtain ⟨hx, hy, hle⟩ := le_iff.mp h
  rw [le_iff, isNaN_pack, isNaN_pack, isNaN_add _ hf, isNaN_add _ hf]
  refine ⟨hx, hy, ?_⟩
  have hover : 0 < overflow := Nat.two_pow_pos _
  have hinfinite (s : Sign) : ticks (value (.ofModel (.pack
      (UnpackedFloat.add .binary64 (.infinity s) v)))) = s.apply overflow := by
    rw [add_infinity s hf, value_pack (u := .infinity s) trivial]
    rfl
  have hsum (z : Float) := ticks_bounds (canonical_value z)
  by_cases hxf : (value x).isFinite = true
  · by_cases hyf : (value y).isFinite = true
    · rw [ticks_add (canonical_value x) hv hxf hf, ticks_add (canonical_value y) hv hyf hf]
      exact rounded_mono (Int.add_le_add_right hle _)
    · obtain ⟨s, hs⟩ := value_eq_infinity hy hyf
      rw [hs] at hle ⊢
      rw [hinfinite]
      cases s with
      | positive => exact (hsum _).2
      | negative =>
        have hlt := (ticks_lt_of_isFinite (canonical_value x) hxf).1
        exact absurd hle (Int.not_le.mpr hlt)
  · obtain ⟨s, hs⟩ := value_eq_infinity hx hxf
    rw [hs] at hle ⊢
    rw [hinfinite]
    cases s with
    | negative => exact (hsum _).1
    | positive =>
      by_cases hyf : (value y).isFinite = true
      · have hlt := (ticks_lt_of_isFinite (canonical_value y) hyf).2
        exact absurd hle (Int.not_le.mpr hlt)
      · obtain ⟨s', hs'⟩ := value_eq_infinity hy hyf
        rw [hs', hinfinite]
        rwa [hs'] at hle

theorem add_le_add_right (h : x ≤ y) (ht : t.isFinite = true) : x + t ≤ y + t :=
  add_le_of_le h (canonical_value t) ht

theorem sub_le_sub_right (h : x ≤ y) (ht : t.isFinite = true) : x - t ≤ y - t := by
  have hsub (z : Float) : z - t =
      .ofModel (.pack (UnpackedFloat.add .binary64 (value z) (value t).neg)) := by
    rw [← sub_eq_add_neg]
    rfl
  rw [hsub, hsub]
  exact add_le_of_le h (canonical_value t).neg ((isFinite_neg _).trans ht)

theorem le_trans {z : Float} (hxy : x ≤ y) (hyz : y ≤ z) : x ≤ z := by
  rw [le_iff] at hxy hyz ⊢
  exact ⟨hxy.1, hyz.2.1, hxy.2.2.trans hyz.2.2⟩

theorem le_refl (hx : x.isNaN = false) : x ≤ x := le_iff.mpr ⟨hx, hx, Int.le_refl _⟩

theorem sub_zero (x : Float) : x - 0 = x := by
  have hsub : x - 0 = .ofModel (.pack (UnpackedFloat.sub .binary64 (value x) (value 0))) := rfl
  have hvalue : UnpackedFloat.sub .binary64 (value x) (value 0) = value x := by
    rw [value_zero]
    cases value x with
    | zero s => cases s <;> rfl
    | _ => rfl
  rw [hsub, hvalue, ofModel_pack_value]

theorem ticks_add_zero (hu : Canonical u) :
    ticks (value (.ofModel (.pack (UnpackedFloat.add .binary64 u (.zero .positive))))) =
      ticks u := by
  cases u with
  | zero s =>
    have hsum : UnpackedFloat.add .binary64 (.zero s) (.zero .positive) = .zero .positive := by
      cases s <;> rfl
    rw [hsum, value_pack_zero]
    rfl
  | _ => exact congrArg ticks (value_pack hu)

theorem le_add_zero_iff : x ≤ y + 0 ↔ x ≤ y := by
  have hadd : y + 0 = .ofModel (.pack (UnpackedFloat.add .binary64 (value y) (value 0))) := rfl
  have hticks : ticks (value (y + 0)) = ticks (value y) := by
    rw [hadd, value_zero]
    exact ticks_add_zero (canonical_value y)
  have hnan : (y + 0).isNaN = y.isNaN := by
    rw [hadd, isNaN_pack]
    exact isNaN_add _ rfl
  rw [le_iff, le_iff, hticks, hnan]

theorem ticks_neg (v : UnpackedFloat) : ticks v.neg = -ticks v := by
  cases v with
  | finite s m e hm => exact apply_neg s _
  | infinity s => exact apply_neg s _
  | _ => rfl

theorem ticks_add_mono {w : UnpackedFloat} (hu : Canonical u) (hv : Canonical v)
    (hw : Canonical w) (hvf : v.isFinite = true) (hwf : w.isFinite = true)
    (h : ticks v ≤ ticks w) : ticks (value (.ofModel (.pack (UnpackedFloat.add .binary64 u v)))) ≤
      ticks (value (.ofModel (.pack (UnpackedFloat.add .binary64 u w)))) := by
  by_cases huf : u.isFinite = true
  · rw [ticks_add hu hv huf hvf, ticks_add hu hw huf hwf]
    exact rounded_mono (Int.add_le_add_left h _)
  · cases u with
    | infinity s => rw [add_infinity s hvf, add_infinity s hwf]
    | notANumber => exact Int.le_refl _
    | _ => exact absurd rfl huf

theorem le_add_self (hx : x.isNaN = false) (ht : t.isFinite = true)
    (h : 0 ≤ ticks (value t)) : x ≤ x + t := by
  have hnan : (x + t).isNaN = x.isNaN := (isNaN_pack _).trans (isNaN_add _ ht)
  refine le_iff.mpr ⟨hx, hnan.trans hx, ?_⟩
  rw [← ticks_add_zero (canonical_value x)]
  exact ticks_add_mono (canonical_value x) trivial (canonical_value t) rfl ht h

theorem sub_le_self (hx : x.isNaN = false) (ht : t.isFinite = true)
    (h : 0 ≤ ticks (value t)) : x - t ≤ x := by
  have hf : (value t).neg.isFinite = true := (isFinite_neg _).trans ht
  have hneg : ticks (value t).neg ≤ 0 := by
    rw [ticks_neg]
    omega
  have hsub : x - t = .ofModel (.pack (UnpackedFloat.add .binary64 (value x) (value t).neg)) := by
    rw [← sub_eq_add_neg]
    rfl
  rw [hsub]
  refine le_iff.mpr ⟨?_, hx, ?_⟩
  · rw [isNaN_pack, isNaN_add _ hf]
    exact hx
  · conv_rhs => rw [← ticks_add_zero (canonical_value x)]
    exact ticks_add_mono (w := .zero .positive) (canonical_value x) (canonical_value t).neg trivial
      hf rfl hneg

end Adding

section Matching

def Matches (x y : Float) : Prop := x = y ∨ (x == 0) = true ∧ (y == 0) = true

theorem Matches.add (h : Matches x y) (t : Float) : Matches (x + t) (y + t) := by
  obtain rfl | ⟨hx, hy⟩ := h
  · exact .inl rfl
  obtain ⟨s, hs⟩ := beq_zero_iff.mp hx
  obtain ⟨s', hs'⟩ := beq_zero_iff.mp hy
  have hadd (z : Float) :
      z + t = .ofModel (.pack (UnpackedFloat.add .binary64 (value z) (value t))) := rfl
  rw [hadd, hadd, hs, hs']
  cases value t with
  | zero r =>
    have hzero (q : Sign) :
        (Float.ofModel (.pack (UnpackedFloat.add .binary64 (.zero q) (.zero r))) == 0) = true := by
      cases q <;> cases r <;> exact beq_zero_iff.mpr ⟨_, value_pack_zero _⟩
    exact .inr ⟨hzero s, hzero s'⟩
  | _ => exact .inl rfl

theorem Matches.symm (h : Matches x y) : Matches y x := h.imp Eq.symm And.symm

theorem Matches.le (h : Matches x y) (hx : x.isNaN = false) : x ≤ y := by
  obtain rfl | ⟨hx₀, hy₀⟩ := h
  · exact le_refl hx
  obtain ⟨s, hs⟩ := beq_zero_iff.mp hx₀
  obtain ⟨s', hs'⟩ := beq_zero_iff.mp hy₀
  have hy : y.isNaN = false := congrArg UnpackedFloat.isNaN hs'
  refine le_iff.mpr ⟨hx, hy, ?_⟩
  rw [hs, hs']
  exact Int.le_refl 0

theorem Matches.isNaN (h : Matches x y) (hx : x.isNaN = false) : y.isNaN = false :=
  (le_iff.mp (h.le hx)).2.1

/-- The second number is not below and not above the first by more than the tolerance. -/
def Near (x y tolerance : Float) : Prop := x - tolerance ≤ y ∧ y ≤ x + tolerance

instance (x y tolerance : Float) : Decidable (Near x y tolerance) :=
  inferInstanceAs (Decidable (_ ∧ _))

theorem Matches.near (h : Matches x y) (hx : x.isNaN = false) (ht : t.isFinite = true)
    (hpos : 0 ≤ ticks (value t)) : Near x y t := by
  constructor
  · exact le_trans (sub_le_self hx ht hpos) (h.le hx)
  · exact le_trans (h.symm.le (h.isNaN hx)) (le_add_self hx ht hpos)

end Matching

end LinearProgram.Double
