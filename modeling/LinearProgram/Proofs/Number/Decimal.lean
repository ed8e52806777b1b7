import Mathlib
import LinearProgram.Number.Decimal

namespace LinearProgram.Decimal

def worth (d : Decimal) : ℚ := d.digits * 10 ^ d.exponent

def upper (m : ℕ) (q : ℤ) : ℚ := (2 * m + 1) * 2 ^ (q - 1)

variable {tie : Tie} {m : ℕ} {q k : ℤ} {c : ℕ}

theorem zpow_mul_toNat {b : ℚ} (hb : b ≠ 0) (n : ℤ) : b ^ n * b ^ (-n).toNat = b ^ n.toNat := by
  rw [← zpow_natCast, ← zpow_natCast, ← zpow_add₀ hb]
  congr
  omega

theorem le_upper_of_readsBack (h : readsBack m q k c = true) : c * 10 ^ k ≤ upper m q := by
  have hunits : c * (units q k).1 ≤ (4 * m + 2) * (units q k).2 := by
    simp only [readsBack, interval] at h
    split at h
    · exact (of_decide_eq_true h).2
    · exact (of_decide_eq_true h).2.le
  have hcast : (c : ℚ) * (10 ^ k.toNat * 2 ^ (2 - q).toNat) ≤
      (4 * m + 2) * (2 ^ (q - 2).toNat * 10 ^ (-k).toNat) := by
    exact_mod_cast hunits
  have hten := zpow_mul_toNat (b := 10) (by norm_num) k
  have htwo := zpow_mul_toNat (b := 2) (by norm_num) (q - 2)
  have hhalf : (2 : ℚ) ^ (q - 1) = 2 ^ (q - 2) * 2 := by
    rw [← zpow_add_one₀ (by norm_num)]
    congr
    omega
  rw [neg_sub] at htwo
  rw [← hten, ← htwo] at hcast
  have hpos : (0 : ℚ) < 10 ^ (-k).toNat * 2 ^ (2 - q).toNat := by positivity
  refine le_of_mul_le_mul_right ?_ hpos
  calc (c : ℚ) * 10 ^ k * (10 ^ (-k).toNat * 2 ^ (2 - q).toNat)
      = c * (10 ^ k * 10 ^ (-k).toNat * 2 ^ (2 - q).toNat) := by ring
    _ ≤ (4 * m + 2) * (2 ^ (q - 2) * 2 ^ (2 - q).toNat * 10 ^ (-k).toNat) := hcast
    _ = upper m q * (10 ^ (-k).toNat * 2 ^ (2 - q).toNat) := by
      rw [upper, hhalf]
      ring

theorem le_upper_of_onGrid? (h : onGrid? tie m q k = some c) : c * 10 ^ k ≤ upper m q := by
  simp only [onGrid?] at h
  split at h
  · rename_i hbelow habove
    have hnearer : nearer tie m q k = below m q k ∨ nearer tie m q k = below m q k + 1 := by
      simp only [nearer]
      split
      · exact .inl rfl
      · exact .inr rfl
      · split
        · exact .inr rfl
        · split
          · exact .inl rfl
          · exact .inr rfl
    cases h
    rcases hnearer with hc | hc
    · rw [hc]
      exact le_upper_of_readsBack hbelow
    · rw [hc]
      exact le_upper_of_readsBack habove
  · rename_i hbelow _
    cases h
    exact le_upper_of_readsBack hbelow
  · rename_i habove
    cases h
    exact le_upper_of_readsBack habove
  · cases h

theorem worth_exact (m : ℕ) (q : ℤ) : (exact m q).worth = m * 2 ^ q := by
  have hten : (10 : ℚ) ^ (-((-q).toNat : ℤ)) * (2 ^ (-q).toNat * 5 ^ (-q).toNat) = 1 := by
    rw [← mul_pow, zpow_neg, zpow_natCast]
    norm_num
  have htwo := zpow_mul_toNat (b := 2) (by norm_num) q
  have hdigits : ((exact m q).digits : ℚ) = m * 2 ^ q.toNat * 5 ^ (-q).toNat := by
    simp [exact]
  rw [worth, hdigits, ← htwo]
  calc (m : ℚ) * (2 ^ q * 2 ^ (-q).toNat) * 5 ^ (-q).toNat * 10 ^ (-((-q).toNat : ℤ))
      = m * 2 ^ q * (10 ^ (-((-q).toNat : ℤ)) * (2 ^ (-q).toNat * 5 ^ (-q).toNat)) := by ring
    _ = m * 2 ^ q := by rw [hten, mul_one]

theorem worth_search_le (tie : Tie) (m : ℕ) (q : ℤ) (tries : ℕ) (k : ℤ) :
    (search tie m q tries k).worth ≤ upper m q := by
  induction tries generalizing k with
  | zero =>
    have hpos : (0 : ℚ) < 2 ^ (q - 1) := by positivity
    have hhalf : (2 : ℚ) ^ q = 2 ^ (q - 1) * 2 := by
      rw [← zpow_add_one₀ (by norm_num), sub_add_cancel]
    rw [search, worth_exact, upper, hhalf]
    linarith
  | succ tries ih =>
    rw [search]
    split
    · rename_i c hc
      exact le_upper_of_onGrid? hc
    · exact ih (k - 1)

theorem worth_shortest_le (tie : Tie) (m : ℕ) (q : ℤ) : (shortest tie m q).worth ≤ upper m q := by
  rw [shortest]
  split
  · rename_i hm
    have hzero : worth ⟨0, 0⟩ = 0 := by simp [worth]
    rw [hzero, upper]
    positivity
  · exact worth_search_le tie m q 20 _

end LinearProgram.Decimal
