import LinearProgram.Proofs.Number.Order
import LinearProgram.Proofs.Number.Reading

namespace LinearProgram

section HalfEven

variable {n d : ℕ}

theorem divideHalfEven_near (n : ℕ) (hd : 0 < d) :
    2 * |(divideHalfEven n d * d : ℤ) - n| ≤ d ∧
      (2 * |(divideHalfEven n d * d : ℤ) - n| = d → Even (divideHalfEven n d)) := by
  have hn : (n : ℤ) = n / d * d + n % d := (Int.ediv_mul_add_emod n d).symm
  have hr : (0 : ℤ) ≤ n % d := Int.emod_nonneg n (by omega)
  have hlt : (n % d : ℤ) < d := Int.emod_lt_of_pos n (by omega)
  have hdown : ((n / d : ℕ) * d : ℤ) - n = -(n % d) := by
    push_cast
    omega
  have hup : ((n / d + 1 : ℕ) * d : ℤ) - n = d - n % d := by
    push_cast
    linarith
  rw [divideHalfEven_eq]
  split_ifs with hless hmore
  · rw [hdown, abs_neg, abs_of_nonneg hr]
    omega
  · rw [hup, abs_of_pos (by omega)]
    omega
  · obtain heven | hodd := Nat.mod_two_eq_zero_or_one (n / d)
    · rw [heven, Nat.add_zero, hdown, abs_neg, abs_of_nonneg hr]
      exact ⟨by omega, fun _ => Nat.even_iff.mpr heven⟩
    · rw [hodd, hup, abs_of_pos (by omega)]
      exact ⟨by omega, fun _ => Nat.even_iff.mpr (by omega)⟩

end HalfEven

namespace Double

open Float.Model UnpackedFloat

variable {x y : Float} {negative : Bool} {m n : ℕ} {q : ℤ}

def unit : ℤ := 2 ^ 1074

def signed (negative : Bool) (n : ℤ) : ℤ := if negative then -n else n

theorem value_neg (x : Float) : value (-x) = (value x).neg := value_pack (canonical_value x).neg

theorem signed_mul (negative : Bool) (a b : ℤ) :
    signed negative a * b = signed negative (a * b) := by
  cases negative with
  | false => rfl
  | true => exact Int.neg_mul a b

theorem signed_sub (negative : Bool) (a b : ℤ) :
    signed negative a - signed negative b = signed negative (a - b) := by
  cases negative with
  | false => rfl
  | true =>
    change -a - -b = -(a - b)
    omega

theorem abs_signed (negative : Bool) (a : ℤ) : |signed negative a| = |a| := by
  cases negative with
  | false => rfl
  | true => exact abs_neg a

theorem ticks_signed (negative : Bool) (x : Float) :
    ticks (value (if negative then -x else x)) = signed negative (ticks (value x)) := by
  cases negative with
  | false => rfl
  | true => exact (congrArg ticks (value_neg x)).trans (ticks_neg _)

theorem unit_eq {a b : ℕ} (h : a + b = 1074) : unit = 2 ^ a * 2 ^ b := by
  rw [← pow_add, h, unit]

theorem unit_pos : 0 < unit := pow_pos (by decide) _

theorem apply_unpackSign (b : BitVec 64) (n : ℕ) :
    (Sign.ofBitVec (@unpackSign .binary64 b)).apply n =
      signed (decide (Nat.pow 2 63 ≤ b.toNat)) n := by
  rw [Binary.sign_unpackSign]
  by_cases h : Nat.pow 2 63 ≤ b.toNat
  · rw [if_pos h, decide_eq_true h]
    rfl
  · rw [if_neg h, decide_eq_false h]
    rfl

theorem ticks_unpack {b : BitVec 64} (h : Binary.ofBits b.toNat = .finite negative m q) :
    -1074 ≤ q ∧ ticks (UnpackedFloat.unpack .binary64 b) =
      signed negative (m * 2 ^ (q + 1074).toNat : ℕ) := by
  have hbias : ((Format.binary64.exponentBias : ℕ) : ℤ) = 1023 := rfl
  have hhidden : Binary.hidden = 2 ^ 52 := rfl
  have hexponent := Binary.toNat_unpackExponent b
  have hmantissa := Binary.toNat_unpackMantissa b
  rw [Binary.ofBits] at h
  rw [UnpackedFloat.unpack]
  simp only [hbias, Nat.cast_ofNat]
  by_cases hinfinite : b.toNat / Binary.hidden % 2048 = 2047
  · rw [if_pos hinfinite] at h
    split at h <;> cases h
  rw [if_neg hinfinite] at h
  rw [if_neg fun he => hinfinite (hexponent.symm.trans (congrArg BitVec.toNat he))]
  by_cases hzero : b.toNat / Binary.hidden % 2048 = 0
  · rw [if_pos hzero] at h
    cases h
    refine ⟨Int.le_refl _, ?_⟩
    rw [if_pos (BitVec.eq_of_toNat_eq (y := 0#11) (hexponent.trans hzero)), ← hmantissa,
      ← apply_unpackSign]
    split
    · rename_i hm
      rw [hm]
      cases Sign.ofBitVec (@unpackSign .binary64 b) <;> rfl
    · rw [hexponent, hzero]
      rfl
  · rw [if_neg hzero] at h
    cases h
    refine ⟨by omega, ?_⟩
    rw [if_neg fun he => hzero (hexponent.symm.trans (congrArg BitVec.toNat he)), ticks,
      toNat_one_append, hexponent, hmantissa, hhidden, apply_unpackSign, Nat.add_comm (2 ^ 52)]
    rfl

theorem ticks_of_ofFloat (h : Binary.ofFloat x = .finite negative m q) :
    -1074 ≤ q ∧ ticks (value x) = signed negative (m * 2 ^ (q + 1074).toNat : ℕ) :=
  ticks_unpack h

theorem Holds.ticks_eq {u : UnpackedFloat} (h : Holds u n) : ticks u = n * unit := by
  obtain ⟨M, e, hM, rfl, -, -, he, hproduct⟩ := h
  have hcast : (M * 2 ^ (e + 52).toNat : ℤ) = n * 2 ^ 52 := by exact_mod_cast hproduct
  have hexp : (e + 1074).toNat = (e + 52).toNat + 1022 := by omega
  rw [ticks, Sign.apply, Nat.cast_mul, Nat.cast_pow, Nat.cast_ofNat, hexp, pow_add, ← mul_assoc,
    hcast, mul_assoc, ← unit_eq (a := 52) (b := 1022) rfl]

theorem ticks_toFloat (hn : n < 2 ^ 53) :
    ticks (value (UInt64.ofNat n).toFloat) = n * unit := by
  have hsize : (UInt64.ofNat n).toNat = n := UInt64.toNat_ofNat_of_lt (hn.trans (by decide))
  obtain rfl | hpos := Nat.eq_zero_or_pos n
  · rw [Nat.cast_zero, zero_mul]
    rfl
  · have h := holds_toFloat (a := .ofNat n) (by omega)
    rw [hsize, nearest_of_lt hn] at h
    exact h.ticks_eq

/-- The second number is whole and at most half a unit away from the first, and it is even when it
is half a unit away. -/
def RoundsTo (x y : Float) : Prop :=
  ∃ n : ℤ, ticks (value y) = n * unit ∧ 2 * |n * unit - ticks (value x)| ≤ unit ∧
    (2 * |n * unit - ticks (value x)| = unit → Even n)

theorem RoundsTo.of_whole {n : ℤ} (h : ticks (value x) = n * unit) : RoundsTo x x := by
  refine ⟨n, h, ?_⟩
  rw [← h, Int.sub_self, abs_zero, mul_zero]
  exact ⟨unit_pos.le, fun h => absurd h unit_pos.ne⟩

theorem RoundsTo.of_quotient {d : ℕ} {k : ℤ} (hd : 0 < d) (hk : 0 < k) (hunit : d * k = unit)
    (hx : ticks (value x) = signed negative (m * k))
    (hy : ticks (value y) = signed negative (divideHalfEven m d * unit)) : RoundsTo x y := by
  obtain ⟨hnear, htie⟩ := divideHalfEven_near m hd
  have hdistance : |signed negative (divideHalfEven m d) * unit - ticks (value x)| =
      |(divideHalfEven m d * d : ℤ) - m| * k := by
    rw [hx, signed_mul, signed_sub, abs_signed, ← hunit, ← mul_assoc, ← sub_mul, abs_mul,
      abs_of_pos hk]
  refine ⟨signed negative (divideHalfEven m d), ?_, ?_⟩
  · rw [hy, signed_mul]
  · rw [hdistance, ← hunit, ← mul_assoc]
    refine ⟨mul_le_mul_of_nonneg_right hnear hk.le, fun h => ?_⟩
    have heven := (Int.even_coe_nat _).mpr (htie (mul_right_cancel₀ hk.ne' h))
    cases negative with
    | false => exact heven
    | true => exact heven.neg

theorem roundsTo_roundHalfEven (hf : x.isFinite = true) : RoundsTo x (roundHalfEven x) := by
  obtain ⟨negative, m, q, hx, hm, -⟩ := Binary.ofFloat_of_isFinite hf
  obtain ⟨hq, hticks⟩ := ticks_of_ofFloat hx
  rw [Nat.cast_mul, Nat.cast_pow, Nat.cast_ofNat] at hticks
  rw [roundHalfEven, hx]
  simp only [Nat.pow_eq]
  by_cases hwhole : 0 ≤ q
  · rw [if_pos hwhole]
    have hexp : (q + 1074).toNat = q.toNat + 1074 := by omega
    apply RoundsTo.of_whole (n := signed negative (m * 2 ^ q.toNat))
    rw [hticks, signed_mul, hexp, pow_add, ← mul_assoc, unit]
  · rw [if_neg hwhole]
    have hunit : ((2 ^ (-q).toNat : ℕ) : ℤ) * 2 ^ (q + 1074).toNat = unit := by
      rw [unit_eq (a := (-q).toNat) (b := (q + 1074).toNat) (by omega), Nat.cast_pow,
        Nat.cast_ofNat]
    have htwo : 2 ≤ 2 ^ (-q).toNat := Nat.le_self_pow (by omega) 2
    have hshort : divideHalfEven m (2 ^ (-q).toNat) < 2 ^ 53 := by
      have hle := (divideHalfEven_bounds m (2 ^ (-q).toNat)).2
      have hhalf : m / 2 ^ (-q).toNat ≤ m / 2 := Nat.div_le_div_left htwo two_pos
      omega
    apply RoundsTo.of_quotient (Nat.two_pow_pos _) (pow_pos (by decide) _) hunit hticks
    rw [ticks_signed, ticks_toFloat hshort]

theorem roundHalfEven_of_le (hf : x.isFinite = true)
    (hle : 2 ^ 53 * unit ≤ |ticks (value x)|) : roundHalfEven x = x := by
  obtain ⟨negative, m, q, hx, hm, -⟩ := Binary.ofFloat_of_isFinite hf
  rw [(ticks_of_ofFloat hx).2, abs_signed, Nat.abs_cast, Nat.cast_mul, Nat.cast_pow,
    Nat.cast_ofNat] at hle
  have hwhole : 0 ≤ q := by
    by_contra hq
    have hpower : (2 : ℤ) ^ (q + 1074).toNat ≤ unit :=
      pow_le_pow_right₀ (by decide) (by omega)
    have hlt : (m : ℤ) * 2 ^ (q + 1074).toNat < 2 ^ 53 * unit :=
      mul_lt_mul (by exact_mod_cast hm) hpower (pow_pos (by decide) _) (by decide)
    omega
  rw [roundHalfEven, hx]
  exact if_pos hwhole

theorem abs_apply (s : Sign) (n : ℕ) : |s.apply n| = n := by
  cases s with
  | positive => exact Nat.abs_cast n
  | negative => exact (abs_neg _).trans (Nat.abs_cast n)

theorem ticks_abs (u : UnpackedFloat) : ticks u.abs = |ticks u| := by
  cases u with
  | finite s m e hm => exact (abs_apply s _).symm
  | infinity s => exact (abs_apply s _).symm
  | _ => rfl

theorem Canonical.abs {u : UnpackedFloat} (hu : Canonical u) : Canonical u.abs := by
  cases u <;> exact hu

theorem isNaN_abs {u : UnpackedFloat} (hf : u.isFinite = true) : u.abs.isNaN = false := by
  cases u with
  | notANumber => cases hf
  | _ => rfl

theorem value_abs (x : Float) : value x.abs = (value x).abs :=
  value_pack (canonical_value x).abs

theorem lt_wholeLimit_iff (hf : x.isFinite = true) :
    x.abs < wholeLimit ↔ |ticks (value x)| < 2 ^ 53 * unit := by
  have hlt : x.abs < wholeLimit ↔ (value x.abs).compare (value wholeLimit) = some .lt :=
    (decide_eq_true_iff : decide (x.abs.toModel < wholeLimit.toModel) = true ↔ _).trans beq_iff_eq
  have hlimit : Holds (value wholeLimit) (2 ^ 53) := ⟨2 ^ 52, 1, by decide, rfl, by decide⟩
  rw [hlt, value_abs, compare_eq (canonical_value x).abs (canonical_value _) (isNaN_abs hf) rfl,
    Option.some.injEq, Int.compare_eq_lt, hlimit.ticks_eq, ticks_abs, Nat.cast_pow,
    Nat.cast_ofNat]

section Powers

variable {a b fuel : ℕ} {product base : Float}

/-- Powers of ten up to this one are doubles. -/
def greatestExact : ℕ := 22

theorem nearest_ten_pow (hn : n ≤ greatestExact) : nearest (10 ^ n) = 10 ^ n := by
  have hlt : 5 ^ n < 2 ^ 53 :=
    (Nat.pow_le_pow_right (by decide) hn).trans_lt (by decide : 5 ^ greatestExact < 2 ^ 53)
  rw [show 10 = 5 * 2 from rfl, Nat.mul_pow, nearest_mul_two_pow, nearest_of_lt hlt]

theorem holds_mul (hx : Holds (value x) (10 ^ a)) (hy : Holds (value y) (10 ^ b))
    (h : a + b ≤ greatestExact) : Holds (value (x * y)) (10 ^ (a + b)) := by
  have hproduct := hx.mul hy
  rw [← Nat.pow_add, nearest_ten_pow h] at hproduct
  have hlog : (10 ^ (a + b)).log2 ≤ (10 ^ greatestExact).log2 :=
    log2_mono (Nat.pow_le_pow_right (by decide) h)
  have hsmall : (10 ^ greatestExact).log2 < 1024 := by decide
  have hvalue := hproduct.value_eq
  rw [if_pos (by omega)] at hvalue
  exact hvalue ▸ hproduct

theorem holds_squaring (hfuel : n < 2 ^ fuel) (hproduct : Holds (value product) (10 ^ a))
    (hbase : Holds (value base) (10 ^ b)) (h : a + b * n ≤ greatestExact) :
    Holds (value (squaring fuel product base n)) (10 ^ (a + b * n)) := by
  induction fuel generalizing product base a b n with
  | zero =>
    obtain rfl : n = 0 := by omega
    exact hproduct
  | succ fuel ih =>
    have hsplit : a + b * n = a + b * (n % 2) + (b + b) * (n / 2) := by
      conv_lhs => rw [← Nat.div_add_mod n 2]
      ring
    rw [hsplit] at h ⊢
    have hstep : Holds (value (if n % 2 = 1 then product * base else product))
        (10 ^ (a + b * (n % 2))) := by
      obtain hbit | hbit := Nat.mod_two_eq_zero_or_one n
      · rw [hbit]
        exact hproduct
      · rw [hbit, Nat.mul_one, if_pos rfl]
        rw [hbit, Nat.mul_one] at h
        exact holds_mul hproduct hbase ((Nat.le_add_right _ _).trans h)
    rw [squaring]
    by_cases hlast : n / 2 = 0
    · rw [hlast, Nat.mul_zero]
      exact hstep
    · rw [if_neg hlast]
      have htwice : b + b ≤ (b + b) * (n / 2) := Nat.le_mul_of_pos_right _ (Nat.pos_of_ne_zero hlast)
      exact ih (by omega) hstep (holds_mul hbase hbase (by omega)) h

theorem ticks_decimalFactor (hn : n ≤ greatestExact) :
    ticks (value (decimalFactor n)) = 10 ^ n * unit := by
  have hone : Holds (value 1) (10 ^ 0) := ⟨2 ^ 52, -52, by decide, rfl, by decide⟩
  have hten : Holds (value 10) (10 ^ 1) := ⟨10 * 2 ^ 49, -49, by decide, rfl, by decide⟩
  have h := holds_squaring Nat.lt_log2_self hone hten (by omega : 0 + 1 * n ≤ greatestExact)
  rw [Nat.zero_add, Nat.one_mul] at h
  exact_mod_cast h.ticks_eq

end Powers

variable {digits : UInt32} {factor : Float}

theorem roundToDigits_of_lt (hfactor : factor = decimalFactor (min digits.toNat digitsLimit))
    (hf : (x * factor).isFinite = true) (hlt : |ticks (value (x * factor))| < 2 ^ 53 * unit) :
    ∃ y, RoundsTo (x * factor) y ∧ roundToDigits x digits = y / factor := by
  refine ⟨_, roundsTo_roundHalfEven hf, ?_⟩
  rw [roundToDigits, ← hfactor]
  simp only [hf, decide_eq_true ((lt_wholeLimit_iff hf).mpr hlt), Bool.and_self, ↓reduceIte]

theorem roundToDigits_of_le (hfactor : factor = decimalFactor (min digits.toNat digitsLimit))
    (hle : (x * factor).isFinite = true → 2 ^ 53 * unit ≤ |ticks (value (x * factor))|) :
    roundToDigits x digits = x ∧
      ((x * factor).isFinite = true → RoundsTo (x * factor) (x * factor)) := by
  constructor
  · rw [roundToDigits, ← hfactor]
    simp only [Bool.and_eq_true, decide_eq_true_eq]
    refine if_neg fun h => ?_
    exact absurd ((lt_wholeLimit_iff h.1).mp h.2) (hle h.1).not_gt
  · intro hf
    have h := roundsTo_roundHalfEven hf
    rwa [roundHalfEven_of_le hf (hle hf)] at h

/-- The product with the power of ten is rounded to a whole number and divided again. Where it is
too large to have a fraction, and where it overflows, the number is left as it is. -/
theorem roundToDigits_near (x : Float) (hdigits : digits.toNat ≤ greatestExact) :
    ∃ factor, ticks (value factor) = 10 ^ digits.toNat * unit ∧
      if (x * factor).isFinite = true ∧ |ticks (value (x * factor))| < 2 ^ 53 * unit then
        ∃ y, RoundsTo (x * factor) y ∧ roundToDigits x digits = y / factor
      else roundToDigits x digits = x := by
  have hlimit : min digits.toNat digitsLimit = digits.toNat :=
    Nat.min_eq_left (hdigits.trans (by decide))
  refine ⟨decimalFactor digits.toNat, ticks_decimalFactor hdigits, ?_⟩
  split
  · rename_i h
    exact roundToDigits_of_lt (by rw [hlimit]) h.1 h.2
  · rename_i h
    refine (roundToDigits_of_le (by rw [hlimit]) fun hf => ?_).1
    exact not_lt.mp fun hlt => h ⟨hf, hlt⟩

end Double

end LinearProgram
