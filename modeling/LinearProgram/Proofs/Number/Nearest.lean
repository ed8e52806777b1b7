import LinearProgram.Number.Rounding
import LinearProgram.Proofs.Number.Double

namespace LinearProgram

section HalfEven

variable {m n d : ℕ}

theorem divideHalfEven_eq (n d : ℕ) : divideHalfEven n d =
    if 2 * (n % d) < d then n / d else if d < 2 * (n % d) then n / d + 1
      else n / d + n / d % 2 := by
  unfold divideHalfEven
  split
  · rename_i h
    rw [if_pos (Nat.compare_eq_lt.mp h)]
  · rename_i h
    rw [Nat.compare_eq_gt] at h
    rw [if_neg h.not_gt, if_pos h]
  · rename_i h
    rw [Nat.compare_eq_eq] at h
    rw [h, if_neg (lt_irrefl d), if_neg (lt_irrefl d)]
    split <;> omega

theorem divideHalfEven_bounds (n d : ℕ) :
    n / d ≤ divideHalfEven n d ∧ divideHalfEven n d ≤ n / d + 1 := by
  rw [divideHalfEven_eq]
  split_ifs <;> omega

theorem divideHalfEven_mono (h : m ≤ n) : divideHalfEven m d ≤ divideHalfEven n d := by
  obtain hlt | heq := (Nat.div_le_div_right (c := d) h).lt_or_eq
  · calc divideHalfEven m d ≤ m / d + 1 := (divideHalfEven_bounds m d).2
      _ ≤ n / d := hlt
      _ ≤ divideHalfEven n d := (divideHalfEven_bounds n d).1
  · -- with the same quotient, the remainders are in order
    have hm := Nat.div_add_mod m d
    have hn := Nat.div_add_mod n d
    rw [heq] at hm
    have hmod : m % d ≤ n % d := by omega
    rw [divideHalfEven_eq, divideHalfEven_eq, heq]
    split_ifs <;> omega

theorem divideHalfEven_mul_right (n d : ℕ) {k : ℕ} (hk : 0 < k) :
    divideHalfEven (n * k) (d * k) = divideHalfEven n d := by
  rw [divideHalfEven_eq, divideHalfEven_eq, Nat.mul_mod_mul_right, Nat.mul_div_mul_right _ _ hk,
    ← Nat.mul_assoc]
  simp only [Nat.mul_lt_mul_right hk]

theorem divideHalfEven_mul (n : ℕ) (hd : 0 < d) : divideHalfEven (n * d) d = n := by
  rw [divideHalfEven_eq, Nat.mul_mod_left, if_pos hd, Nat.mul_div_cancel _ hd]

end HalfEven

/-- The nearest number that 53 binary digits and a power of two make, of two the even one. -/
def nearest (n : ℕ) : ℕ := divideHalfEven n (2 ^ (n.log2 - 52)) * 2 ^ (n.log2 - 52)

theorem divideHalfEven_le (n : ℕ) : divideHalfEven n (2 ^ (n.log2 - 52)) ≤ 2 ^ 53 := by
  have hlt : n / 2 ^ (n.log2 - 52) < 2 ^ 53 := by
    rw [Nat.div_lt_iff_lt_mul (Nat.two_pow_pos _), ← Nat.pow_add]
    calc n < 2 ^ (n.log2 + 1) := Nat.lt_log2_self
      _ ≤ 2 ^ (53 + (n.log2 - 52)) := Nat.pow_le_pow_right (by decide) (by omega)
  have hle := (divideHalfEven_bounds n (2 ^ (n.log2 - 52))).2
  omega

theorem le_divideHalfEven {n : ℕ} (hn : 52 ≤ n.log2) :
    2 ^ 52 ≤ divideHalfEven n (2 ^ (n.log2 - 52)) := by
  refine le_trans ?_ (divideHalfEven_bounds n (2 ^ (n.log2 - 52))).1
  rw [Nat.le_div_iff_mul_le (Nat.two_pow_pos _), ← Nat.pow_add]
  calc 2 ^ (52 + (n.log2 - 52)) = 2 ^ n.log2 := by rw [Nat.add_sub_cancel' hn]
    _ ≤ n := Nat.log2_self_le (by rintro rfl; simp at hn)

theorem log2_mono {m n : ℕ} (h : m ≤ n) : m.log2 ≤ n.log2 := by
  rw [Nat.log2_eq_log_two, Nat.log2_eq_log_two]
  exact Nat.log_mono_right h

theorem nearest_mono {m n : ℕ} (h : m ≤ n) : nearest m ≤ nearest n := by
  have hlog := log2_mono h
  obtain he | hlt : m.log2 - 52 = n.log2 - 52 ∨ m.log2 - 52 < n.log2 - 52 := by omega
  · rw [nearest, nearest, he]
    exact Nat.mul_le_mul_right _ (divideHalfEven_mono h)
  · -- a power of two lies between the two numbers, and it is left as it is
    calc nearest m ≤ 2 ^ 53 * 2 ^ (m.log2 - 52) :=
          Nat.mul_le_mul_right _ (divideHalfEven_le m)
      _ = 2 ^ 52 * 2 ^ (m.log2 - 52 + 1) := by rw [Nat.pow_succ]; ring
      _ ≤ 2 ^ 52 * 2 ^ (n.log2 - 52) :=
          Nat.mul_le_mul_left _ (Nat.pow_le_pow_right (by decide) hlt)
      _ ≤ nearest n := Nat.mul_le_mul_right _ (le_divideHalfEven (by omega))

theorem log2_mul_two_pow {n : ℕ} (hn : n ≠ 0) (k : ℕ) : (n * 2 ^ k).log2 = n.log2 + k := by
  rw [Nat.log2_eq_iff (Nat.mul_ne_zero hn (Nat.two_pow_pos k).ne'), Nat.pow_add, Nat.pow_succ,
    Nat.pow_add]
  constructor
  · exact Nat.mul_le_mul_right _ (Nat.log2_self_le hn)
  · have hlt : n < 2 ^ n.log2 * 2 := by
      rw [← Nat.pow_succ]
      exact Nat.lt_log2_self
    calc n * 2 ^ k < 2 ^ n.log2 * 2 * 2 ^ k :=
          Nat.mul_lt_mul_of_pos_right hlt (Nat.two_pow_pos k)
      _ = 2 ^ n.log2 * 2 ^ k * 2 := by ring

theorem nearest_of_dvd {n : ℕ} (h : 2 ^ (n.log2 - 52) ∣ n) : nearest n = n := by
  obtain ⟨k, hk⟩ := h
  have hn : n = k * 2 ^ (n.log2 - 52) := by rwa [Nat.mul_comm]
  calc nearest n = divideHalfEven (k * 2 ^ (n.log2 - 52)) (2 ^ (n.log2 - 52)) *
        2 ^ (n.log2 - 52) := by rw [← hn]; rfl
    _ = n := by rw [divideHalfEven_mul k (Nat.two_pow_pos _), ← hn]

theorem nearest_mul_two_pow (n k : ℕ) : nearest (n * 2 ^ k) = nearest n * 2 ^ k := by
  obtain rfl | hn := Nat.eq_zero_or_pos n
  · have hzero : nearest 0 = 0 := rfl
    rw [Nat.zero_mul, hzero, Nat.zero_mul]
  have hlog := log2_mul_two_pow hn.ne' k
  by_cases hlong : 52 ≤ n.log2
  · have he : n.log2 + k - 52 = n.log2 - 52 + k := by omega
    rw [nearest, nearest, hlog, he, Nat.pow_add, divideHalfEven_mul_right _ _ (Nat.two_pow_pos k),
      Nat.mul_assoc]
  · -- too short to be rounded, whatever the power of two
    have hone : n.log2 - 52 = 0 := by omega
    rw [nearest_of_dvd (n := n * 2 ^ k), nearest_of_dvd (n := n)]
    · rw [hone]
      exact one_dvd n
    · rw [hlog]
      exact (Nat.pow_dvd_pow 2 (by omega)).mul_left n

namespace Double

open Float.Model UnpackedFloat

theorem shift_exact (m n : ℕ) : (⟨m, false, false⟩ : ExtendedMantissa) >>> (n + 1) =
    ⟨m / 2 ^ (n + 1), m / 2 ^ n % 2 != 0, m % 2 ^ n != 0⟩ := by
  induction n with
  | zero =>
    change ExtendedMantissa.shiftRightOne ⟨m, false, false⟩ = _
    rw [ExtendedMantissa.shiftRightOne, pow_zero, Nat.div_one, Nat.mod_one]
    rfl
  | succ n ih =>
    change ExtendedMantissa.shiftRightOne ((⟨m, false, false⟩ : ExtendedMantissa) >>> (n + 1)) = _
    have hmod : m % 2 ^ (n + 1) = m % 2 ^ n + 2 ^ n * (m / 2 ^ n % 2) := by
      rw [Nat.pow_succ, Nat.mod_mul]
    have hsticky : (m / 2 ^ n % 2 != 0 || m % 2 ^ n != 0) = (m % 2 ^ (n + 1) != 0) := by
      have hpos := Nat.two_pow_pos n
      rw [Bool.eq_iff_iff, Bool.or_eq_true, bne_iff_ne, bne_iff_ne, bne_iff_ne, hmod]
      obtain h | h : m / 2 ^ n % 2 = 0 ∨ m / 2 ^ n % 2 = 1 := by omega
      · rw [h]
        omega
      · rw [h]
        omega
    rw [ih, ExtendedMantissa.shiftRightOne, hsticky, Nat.div_div_eq_div_mul, ← Nat.pow_succ]

theorem roundedMantissa_shift (m n : ℕ) :
    ((⟨m, false, false⟩ : ExtendedMantissa) >>> n).roundedMantissa =
      divideHalfEven m (2 ^ n) := by
  cases n with
  | zero =>
    have hone : divideHalfEven (m * 1) 1 = m := divideHalfEven_mul m one_pos
    rw [pow_zero, ← Nat.mul_one m, hone, Nat.mul_one]
    rfl
  | succ n =>
    have hmod : m % 2 ^ (n + 1) = m % 2 ^ n + 2 ^ n * (m / 2 ^ n % 2) := by
      rw [Nat.pow_succ, Nat.mod_mul]
    have hlt : m % 2 ^ n < 2 ^ n := Nat.mod_lt _ (Nat.two_pow_pos n)
    rw [shift_exact, divideHalfEven_eq, hmod, Nat.pow_succ 2 n]
    obtain hbit | hbit : m / 2 ^ n % 2 = 0 ∨ m / 2 ^ n % 2 = 1 := by omega
    · rw [hbit, if_pos (by omega)]
      by_cases hrest : m % 2 ^ n = 0
      · rw [hrest]
        rfl
      · rw [bne_iff_ne.mpr hrest]
        rfl
    · rw [hbit, if_neg (by omega)]
      by_cases hrest : m % 2 ^ n = 0
      · rw [hrest, if_neg (by omega)]
        rfl
      · rw [bne_iff_ne.mpr hrest, if_pos (by omega)]
        rfl

theorem targetExponent_eq {m : ℕ} {e : ℤ} (he : -1022 ≤ m.log2 + e) :
    Format.binary64.targetExponent (totalExponent m e) = m.log2 + e - 52 := by
  have hbits : (Format.binary64.mantissaBits : ℤ) = 53 := rfl
  have hmin : Format.binary64.minExponent = -1074 := rfl
  rw [Format.targetExponent, totalExponent, hbits, hmin]
  omega

theorem shiftToTargetExponent_eq {m : ℕ} {e : ℤ} (he : -1022 ≤ m.log2 + e) :
    shiftToTargetExponent .binary64 m e .exact =
      ((⟨m, false, false⟩ : ExtendedMantissa) >>> (m.log2 - 52), e + (m.log2 - 52 : ℕ)) := by
  have hshift : (m.log2 + e - 52 - e).toNat = m.log2 - 52 := by omega
  rw [shiftToTargetExponent, targetExponent_eq he, shiftToExponent, hshift]
  rfl

theorem roundWithAccuracy_eq (s : Sign) {m : ℕ} {e : ℤ} (hm : 52 ≤ m.log2)
    (he : -1022 ≤ m.log2 + e) :
    ∃ M E hM, roundWithAccuracy .binary64 s m e .exact = .finite s M E hM ∧ 2 ^ 52 ≤ M ∧
      M < 2 ^ 53 ∧ e + (m.log2 - 52 : ℕ) ≤ E ∧ M * 2 ^ (E - e).toNat = nearest m := by
  have hlow := le_divideHalfEven hm
  have hhigh := divideHalfEven_le m
  have hfirst : roundWithAccuracy .binary64 s m e .exact =
      let second := shiftToTargetExponent .binary64 (divideHalfEven m (2 ^ (m.log2 - 52)))
        (e + (m.log2 - 52 : ℕ)) .exact
      if h : second.1.mantissa = 0 then .zero s
      else .finite s second.1.mantissa second.2 (Nat.pos_of_ne_zero h) := by
    rw [roundWithAccuracy, shiftToTargetExponent_eq he]
    simp only [roundedMantissa_shift]
  generalize hk : m.log2 - 52 = k at *
  generalize hr : divideHalfEven m (2 ^ k) = r at *
  have hnearest : nearest m = r * 2 ^ k := by rw [nearest, hk, hr]
  obtain hlt | heq := hhigh.lt_or_eq
  · have hlog : r.log2 = 52 := (Nat.log2_eq_iff (by omega)).mpr ⟨hlow, hlt⟩
    rw [shiftToTargetExponent_eq (by omega), hlog] at hfirst
    have hpos : ¬ r = 0 := by omega
    refine ⟨r, e + k + (52 - 52 : ℕ), by omega, hfirst.trans (dif_neg hpos), hlow, hlt,
      by omega, ?_⟩
    have hexp : (e + k + (52 - 52 : ℕ) - e).toNat = k := by omega
    rw [hnearest, hexp]
  · have hlog : r.log2 = 53 := by rw [heq, Nat.log2_two_pow]
    rw [shiftToTargetExponent_eq (by omega), hlog, heq] at hfirst
    have hpos : ¬ (2 ^ 53 / 2 : ℕ) = 0 := by decide
    refine ⟨2 ^ 53 / 2, e + k + (53 - 52 : ℕ), by decide, hfirst.trans (dif_neg hpos), by decide,
      by decide, by omega, ?_⟩
    have hexp : (e + k + (53 - 52 : ℕ) - e).toNat = k + 1 := by omega
    rw [hnearest, heq, hexp, Nat.pow_succ]
    ring

def Holds (u : UnpackedFloat) (n : ℕ) : Prop :=
  ∃ m e hm, u = .finite .positive m e hm ∧ 2 ^ 52 ≤ m ∧ m < 2 ^ 53 ∧ -52 ≤ e ∧
    m * 2 ^ (e + 52).toNat = n * 2 ^ 52

theorem holds_round {n k : ℕ} (hn : n ≠ 0) (hk : 52 ≤ n.log2 + k) :
    Holds (roundWithAccuracy .binary64 .positive (n * 2 ^ k) (-k) .exact) (nearest n) := by
  have hlog := log2_mul_two_pow hn k
  obtain ⟨M, E, hM, hr, hlow, hhigh, hE, hvalue⟩ :=
    roundWithAccuracy_eq .positive (m := n * 2 ^ k) (e := -k) (by omega) (by omega)
  refine ⟨M, E, hM, hr, hlow, hhigh, by omega, ?_⟩
  have hall : M * 2 ^ (E + 52).toNat * 2 ^ k = nearest n * 2 ^ 52 * 2 ^ k := by
    have hexp : (E + 52).toNat + k = (E - -k).toNat + 52 := by omega
    rw [Nat.mul_assoc, ← Nat.pow_add, hexp, Nat.pow_add, ← Nat.mul_assoc, hvalue,
      nearest_mul_two_pow]
    ring
  exact Nat.eq_of_mul_eq_mul_right (Nat.two_pow_pos k) hall

theorem holds_ofNat {n : ℕ} (hn : n ≠ 0) : Holds (.ofNat .binary64 n) (nearest n) := by
  have hround : UnpackedFloat.ofNat .binary64 n = roundWithAccuracy .binary64 .positive
      (n * 2 ^ (52 - n.log2)) (-(52 - n.log2 : ℕ)) .exact := by
    have hpos : compare (n : ℤ) 0 = .gt := Int.compare_eq_gt.mpr (by omega)
    have hshift : (0 - (n.log2 + 0 - 52 : ℤ)).toNat = 52 - n.log2 := by omega
    rw [UnpackedFloat.ofNat, UnpackedFloat.ofInt, UnpackedFloat.normalize, hpos]
    change UnpackedFloat.round .binary64 .positive n 0 = _
    rw [UnpackedFloat.round, targetExponent_eq (by omega), decreaseExponent, hshift,
      Nat.shiftLeft_eq, zero_sub]
  rw [hround]
  exact holds_round hn (by omega)

theorem holds_ofScientific {e : ℕ} (he : e ≤ 2048) :
    Holds (.ofScientific .binary64 1 e) (nearest (10 ^ e)) := by
  have hmany : ¬ (e : ℤ) > 2 ^ 11 := by omega
  have hfew : ¬ (e : ℤ) < -(2 ^ 11 + (Nat.log2 1 : ℕ)) := by omega
  have hround : UnpackedFloat.ofScientific .binary64 1 e = roundWithAccuracy .binary64 .positive
      (1 <<< 53 * 10 ^ (e : ℤ).toNat) (-(53 : ℕ) + 0) .exact := by
    rw [UnpackedFloat.ofScientific, dif_neg one_ne_zero, if_neg hmany, if_neg hfew,
      if_pos (Int.natCast_nonneg e)]
    rfl
  have hmantissa : 1 <<< 53 * 10 ^ (e : ℤ).toNat = 10 ^ e * 2 ^ 53 := by
    rw [Nat.shiftLeft_eq, Nat.one_mul, Int.toNat_natCast, Nat.mul_comm]
  rw [hround, hmantissa, add_zero]
  exact holds_round (Nat.pow_pos (by decide)).ne' (by omega)

theorem Holds.mul {u v : UnpackedFloat} {a b : ℕ} (hu : Holds u a) (hv : Holds v b) :
    Holds (.mul .binary64 u v) (nearest (a * b)) := by
  obtain ⟨m, e, hm, rfl, hlow, hhigh, he, ha⟩ := hu
  obtain ⟨m', e', hm', rfl, hlow', hhigh', he', hb⟩ := hv
  have hlog : 104 ≤ (m * m').log2 := by
    rw [Nat.le_log2 (Nat.mul_ne_zero hm.ne' hm'.ne')]
    calc 2 ^ 104 = 2 ^ 52 * 2 ^ 52 := by rw [← Nat.pow_add]
      _ ≤ m * m' := Nat.mul_le_mul hlow hlow'
  obtain ⟨M, E, hM, hr, hlowM, hhighM, hE, hvalue⟩ := roundWithAccuracy_eq .positive
    (m := m * m') (e := e + e') (by omega) (by omega)
  refine ⟨M, E, hM, hr, hlowM, hhighM, by omega, ?_⟩
  have hproduct : a * b * 2 ^ 104 = m * m' * 2 ^ (e + e' + 104).toNat := by
    have hexp : (e + e' + 104).toNat = (e + 52).toNat + (e' + 52).toNat := by omega
    calc a * b * 2 ^ 104 = (a * 2 ^ 52) * (b * 2 ^ 52) := by ring
      _ = (m * 2 ^ (e + 52).toNat) * (m' * 2 ^ (e' + 52).toNat) := by rw [ha, hb]
      _ = m * m' * 2 ^ (e + e' + 104).toNat := by rw [hexp, Nat.pow_add]; ring
  have hexp : (E - (e + e')).toNat + (e + e' + 104).toNat = (E + 52).toNat + 52 := by omega
  have hall : nearest (a * b) * 2 ^ 52 * 2 ^ 52 = M * 2 ^ (E + 52).toNat * 2 ^ 52 := by
    calc nearest (a * b) * 2 ^ 52 * 2 ^ 52 = nearest (a * b) * 2 ^ 104 := by
          rw [Nat.mul_assoc, ← Nat.pow_add]
      _ = nearest (m * m') * 2 ^ (e + e' + 104).toNat := by
          rw [← nearest_mul_two_pow, hproduct, nearest_mul_two_pow]
      _ = M * 2 ^ (E + 52).toNat * 2 ^ 52 := by
          rw [← hvalue, Nat.mul_assoc, ← Nat.pow_add, hexp, Nat.pow_add, Nat.mul_assoc]
  exact (Nat.eq_of_mul_eq_mul_right (Nat.two_pow_pos 52) hall).symm

theorem unpackSign_packComponents (s : Sign) (e : BitVec 11) (m : BitVec 52) :
    Sign.ofBitVec (unpackSign (packComponents .binary64 s e m)) = s := by
  simp only [unpackSign, packComponents, BitVec.extractLsb]
  rw [BitVec.extractLsb'_append_eq_of_le (by omega),
    BitVec.extractLsb'_append_eq_of_le (by omega)]
  cases s <;> rfl

theorem value_pack_infinite (s : Sign) (m : ℕ) {e : ℤ} (hm : 0 < m) (he : 972 ≤ e) :
    value (.ofModel (.pack (.finite s m e hm))) = .infinity s := by
  have hbias : ((Format.binary64.exponentBias : ℕ) : ℤ) = 1023 := rfl
  change unpack .binary64 (UnpackedFloat.pack .binary64 (.finite s m e hm)) = _
  rw [UnpackedFloat.pack]
  simp only [hbias]
  rw [if_pos (by omega)]
  cases s <;> rfl

theorem value_pack_finite (s : Sign) {m : ℕ} {e : ℤ} (hm : 0 < m) (hlow : 2 ^ 52 ≤ m)
    (hhigh : m < 2 ^ 53) (he : -1074 ≤ e) (he' : e < 972) :
    value (.ofModel (.pack (.finite s m e hm))) = .finite s m e hm := by
  have hbias : ((Format.binary64.exponentBias : ℕ) : ℤ) = 1023 := rfl
  have hlog : m.log2 = 52 := (Nat.log2_eq_iff hm.ne').mpr ⟨hlow, hhigh⟩
  have hstored : (BitVec.ofNat 11 (e + 1023 + 52).toNat).toNat = (e + 1023 + 52).toNat :=
    Nat.mod_eq_of_lt (by omega)
  have hmantissa : (1#1 ++ BitVec.ofNat 52 m).toNat = m := by
    rw [BitVec.toNat_append, ← Nat.shiftLeft_add_eq_or_of_lt (BitVec.ofNat 52 m).isLt,
      BitVec.toNat_ofNat, Nat.shiftLeft_eq]
    change 1 * 2 ^ 52 + m % 2 ^ 52 = m
    omega
  have hone : BitVec.ofNat 11 (e + 1023 + 52).toNat ≠ -1#11 := fun h => by
    have := congrArg BitVec.toNat h
    rw [hstored] at this
    change _ = 2047 at this
    omega
  have hzero : BitVec.ofNat 11 (e + 1023 + 52).toNat ≠ 0#11 := fun h => by
    have := congrArg BitVec.toNat h
    rw [hstored] at this
    change _ = 0 at this
    omega
  change unpack .binary64 (UnpackedFloat.pack .binary64 (.finite s m e hm)) = _
  rw [UnpackedFloat.pack]
  simp only [hbias, hlog, Nat.cast_ofNat]
  rw [if_neg (by omega), if_pos (show 52 + 1 = Format.binary64.mantissaBits from rfl),
    UnpackedFloat.unpack]
  simp only [unpackMantissa_packComponents, unpackExponent_packComponents,
    unpackSign_packComponents]
  rw [if_neg hone, if_neg hzero]
  simp only [hmantissa, hstored, hbias, Nat.cast_ofNat]
  congr
  omega

theorem Holds.value_eq {u : UnpackedFloat} {n : ℕ} (h : Holds u n) :
    value (.ofModel (.pack u)) = if n.log2 < 1024 then u else .infinity .positive := by
  obtain ⟨m, e, hm, rfl, hlow, hhigh, he, hn⟩ := h
  have hlog : (n.log2 : ℤ) = e + 52 := by
    have hn₀ : n ≠ 0 := by
      rintro rfl
      rw [Nat.zero_mul] at hn
      exact (Nat.mul_pos hm (Nat.two_pow_pos _)).ne' hn
    have hm₀ : m.log2 = 52 := (Nat.log2_eq_iff hm.ne').mpr ⟨hlow, hhigh⟩
    have hboth := congrArg Nat.log2 hn
    rw [log2_mul_two_pow hm.ne', log2_mul_two_pow hn₀, hm₀] at hboth
    omega
  by_cases hlarge : 972 ≤ e
  · rw [value_pack_infinite _ _ hm hlarge, if_neg (by omega)]
  · rw [value_pack_finite _ hm hlow hhigh (by omega) (by omega), if_pos (by omega)]

theorem holds_toFloat {a : UInt64} (ha : a.toNat ≠ 0) :
    Holds (value a.toFloat) (nearest a.toNat) := by
  have h := holds_ofNat ha
  have hle : (nearest a.toNat).log2 ≤ (nearest (2 ^ 64)).log2 :=
    log2_mono (nearest_mono a.toNat_lt.le)
  have hfull : (nearest (2 ^ 64)).log2 = 64 := by decide
  have hvalue := h.value_eq
  rw [if_pos (by omega)] at hvalue
  exact hvalue ▸ h

theorem isInf_mul {x y : Float} {a b : ℕ} (hx : Holds (value x) a) (hy : Holds (value y) b) :
    (x * y).isInf = decide (1024 ≤ (nearest (a * b)).log2) := by
  have h := hx.mul hy
  change (value (.ofModel (.pack (.mul .binary64 (value x) (value y))))).isInf = _
  rw [h.value_eq]
  obtain ⟨m, e, hm, hu, -⟩ := h
  split
  · rw [hu, decide_eq_false (by omega)]
    rfl
  · rw [decide_eq_true (by omega)]
    rfl

theorem isInf_zero_mul {y : Float} {n : ℕ} (hy : Holds (value y) n) :
    ((0 : UInt64).toFloat * y).isInf = false := by
  obtain ⟨m, e, hm, hvalue, -⟩ := hy
  have hmul : UnpackedFloat.mul .binary64 (value (0 : UInt64).toFloat)
      (.finite .positive m e hm) = .zero .positive := rfl
  change (value (.ofModel (.pack (.mul .binary64 (value (0 : UInt64).toFloat) (value y))))).isInf =
    false
  rw [hvalue, hmul]
  rfl

theorem isNaN_unpack (s : Sign) {e : BitVec 11} (he : e ≠ -1#11) (m : BitVec 52) :
    (UnpackedFloat.unpack .binary64 (packComponents .binary64 s e m)).isNaN = false := by
  rw [UnpackedFloat.unpack]
  simp only [unpackMantissa_packComponents, unpackExponent_packComponents]
  rw [if_neg he]
  split
  · split <;> rfl
  · rfl

theorem isNaN_pack (u : UnpackedFloat) : (Float.ofModel (.pack u)).isNaN = u.isNaN := by
  cases u with
  | notANumber => rfl
  | infinity s => cases s <;> rfl
  | zero s => cases s <;> rfl
  | finite s m e hm =>
    change (UnpackedFloat.unpack .binary64 (UnpackedFloat.pack .binary64 _)).isNaN = false
    rw [UnpackedFloat.pack]
    simp only
    split
    · cases s <;> rfl
    · rename_i hsmall
      split
      · refine isNaN_unpack s (fun h => ?_) _
        have hstored := congrArg BitVec.toNat h
        rw [BitVec.toNat_ofNat, Nat.mod_eq_of_lt (by omega)] at hstored
        change _ = 2047 at hstored
        omega
      · exact isNaN_unpack s (by decide) _

theorem isNaN_roundWithAccuracy (s : Sign) (m : ℕ) (e : ℤ) (accuracy : Accuracy) :
    (roundWithAccuracy .binary64 s m e accuracy).isNaN = false := by
  rw [roundWithAccuracy]
  simp only
  split <;> rfl

variable {x y : Float} {n : ℕ}

theorem isNaN_of_unpacked {f : UnpackedFloat → UnpackedFloat}
    (hf : ∀ u, u.isNaN = false → (f u).isNaN = false) (hx : x.isNaN = false) :
    (Float.ofModel (.pack (f (value x)))).isNaN = false := by
  rw [isNaN_pack]
  exact hf (value x) hx

theorem isNaN_mul (hx : x.isNaN = false) (hy : Holds (value y) n) : (x * y).isNaN = false := by
  obtain ⟨m, e, hm, hy, -⟩ := hy
  refine isNaN_of_unpacked (f := (UnpackedFloat.mul .binary64 · (value y))) (fun u hu => ?_) hx
  rw [hy]
  cases u with
  | notANumber => cases hu
  | infinity s => rfl
  | zero s => rfl
  | finite s m' e' hm' => exact isNaN_roundWithAccuracy _ _ _ _

theorem isNaN_div (hx : x.isNaN = false) (hy : Holds (value y) n) : (x / y).isNaN = false := by
  obtain ⟨m, e, hm, hy, -⟩ := hy
  refine isNaN_of_unpacked (f := (UnpackedFloat.div .binary64 · (value y))) (fun u hu => ?_) hx
  rw [hy]
  cases u with
  | notANumber => cases hu
  | infinity s => rfl
  | zero s => rfl
  | finite s m' e' hm' => exact isNaN_roundWithAccuracy _ _ _ _

theorem isNaN_neg (hx : x.isNaN = false) : (-x).isNaN = false := by
  refine isNaN_of_unpacked (f := UnpackedFloat.neg) (fun u hu => ?_) hx
  cases u with
  | notANumber => cases hu
  | infinity s => rfl
  | zero s => rfl
  | finite s m e hm => rfl

theorem isNaN_toFloat (a : UInt64) : a.toFloat.isNaN = false := by
  change (Float.ofModel (.pack (.ofNat .binary64 a.toNat))).isNaN = false
  rw [isNaN_pack]
  by_cases ha : a.toNat = 0
  · rw [ha]
    rfl
  · obtain ⟨m, e, hm, hu, -⟩ := holds_ofNat ha
    rw [hu]
    rfl

end Double

end LinearProgram
