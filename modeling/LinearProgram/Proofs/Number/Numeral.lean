import Mathlib.Algebra.Group.Nat.Defs
import Mathlib.Data.List.Basic
import LinearProgram.Number.Reading

namespace LinearProgram

namespace Digit

theorem ofChar?_char : ∀ d : Digit, ofChar? d.char = some d := by decide

theorem span_append (ds : List Digit) {rest : List Char} (h : rest.head?.bind ofChar? = none) :
    span (ds.map char ++ rest) = (ds, rest) := by
  induction ds with
  | nil =>
    cases rest with
    | nil => rfl
    | cons c rest =>
      have hc : ofChar? c = none := h
      rw [List.map_nil, List.nil_append, span, hc]
  | cons d ds ih =>
    rw [List.map_cons, List.cons_append, span, ofChar?_char, ih]

theorem span?_append {ds : List Digit} (hds : ds ≠ []) {rest : List Char}
    (h : rest.head?.bind ofChar? = none) : span? (ds.map char ++ rest) = some (ds, rest) := by
  rw [span?, span_append ds h]
  cases ds with
  | nil => exact absurd rfl hds
  | cons d ds => rfl

def Leads (ds : List Digit) : Prop := ∃ d rest, ds = d :: rest ∧ d.val ≠ 0

theorem leads_collect (fuel n : Nat) (rest : List Digit) (hn : n ≠ 0) (hlt : n < 10 ^ (fuel + 1)) :
    Leads (collect fuel n rest) := by
  induction fuel generalizing n rest with
  | zero =>
    have hval : n % 10 = n := Nat.mod_eq_of_lt hlt
    exact ⟨Fin.ofNat 10 n, rest, rfl, by rwa [Fin.val_ofNat, hval]⟩
  | succ fuel ih =>
    rw [collect]
    split
    · rename_i hsmall
      have hval : n % 10 = n := Nat.mod_eq_of_lt hsmall
      exact ⟨Fin.ofNat 10 n, rest, rfl, by rwa [Fin.val_ofNat, hval]⟩
    · apply ih
      · omega
      · rw [Nat.pow_succ] at hlt
        omega

theorem leads_ofNat {n : Nat} (hn : n ≠ 0) : Leads (ofNat n) := by
  apply leads_collect _ _ _ hn
  calc n < 2 ^ (n.log2 + 1) := Nat.lt_log2_self
    _ ≤ 10 ^ (n.log2 + 1) := Nat.pow_le_pow_left (by decide) _

theorem collect_ne_nil (fuel n : Nat) (rest : List Digit) : collect fuel n rest ≠ [] := by
  induction fuel generalizing n rest with
  | zero => exact List.cons_ne_nil _ _
  | succ fuel ih =>
    rw [collect]
    split
    · exact List.cons_ne_nil _ _
    · exact ih _ _

end Digit

namespace Numeral

structure WellFormed (n : Numeral) : Prop where
  whole : isWhole n.whole = true
  exponent : ∀ e ∈ n.exponent, e.digits ≠ []

def pointText : List Digit → List Char
  | [] => []
  | d :: ds => '.' :: (d :: ds).map Digit.char

def exponentText : Option Exponent → List Char
  | none => []
  | some e => 'e' :: signText e.sign ++ e.digits.map Digit.char

theorem text_eq (n : Numeral) : n.text = (if n.negative then ['-'] else []) ++
    (n.whole.map Digit.char ++ (pointText n.fraction ++ exponentText n.exponent)) := by
  obtain ⟨negative, whole, fraction, exponent⟩ := n
  cases fraction <;> cases exponent <;>
    simp only [text, pointText, exponentText, List.append_assoc]

theorem exponentText_stops (e : Option Exponent) :
    (exponentText e).head?.bind Digit.ofChar? = none := by
  cases e <;> rfl

theorem pointText_stops (ds : List Digit) (e : Option Exponent) :
    (pointText ds ++ exponentText e).head?.bind Digit.ofChar? = none := by
  cases ds with
  | nil => exact exponentText_stops e
  | cons d ds => rfl

theorem fractionOf?_text (ds : List Digit) (e : Option Exponent) :
    fractionOf? (pointText ds ++ exponentText e) = some (ds, exponentText e) := by
  cases ds with
  | nil => cases e <;> rfl
  | cons d ds =>
    exact Digit.span?_append (List.cons_ne_nil d ds) (exponentText_stops e)

theorem signOf_text (sign : ExponentSign) {ds : List Digit} (hds : ds ≠ []) :
    signOf (signText sign ++ ds.map Digit.char) = (sign, ds.map Digit.char) := by
  cases sign with
  | plus => rfl
  | minus => rfl
  | unsigned =>
    cases ds with
    | nil => exact absurd rfl hds
    | cons d ds =>
      have hd : ∀ d : Digit, d.char ≠ '+' ∧ d.char ≠ '-' := by decide
      change signOf (d.char :: ds.map Digit.char) = _
      rw [signOf.eq_def]
      split
      · rename_i h
        exact absurd (List.cons.inj h).1 (hd d).1
      · rename_i h
        exact absurd (List.cons.inj h).1 (hd d).2
      · rfl

theorem exponentOf?_text {e : Option Exponent} (he : ∀ e' ∈ e, e'.digits ≠ []) :
    exponentOf? (exponentText e) = some e := by
  cases e with
  | none => rfl
  | some e =>
    obtain ⟨sign, ds⟩ := e
    have hds : ds ≠ [] := he _ rfl
    have hspan : Digit.span? (ds.map Digit.char ++ []) = some (ds, []) :=
      Digit.span?_append hds rfl
    rw [List.append_nil] at hspan
    rw [exponentText, List.cons_append, exponentOf?, if_pos (.inl rfl), signOf_text sign hds]
    simp only [hspan]

theorem unsignedOf?_text {n : Numeral} (h : n.WellFormed) :
    unsignedOf? n.negative (n.whole.map Digit.char ++ (pointText n.fraction ++
      exponentText n.exponent)) = some n := by
  rw [unsignedOf?, Digit.span_append n.whole (pointText_stops n.fraction n.exponent)]
  simp only [h.whole, ↓reduceIte, fractionOf?_text, exponentOf?_text h.exponent,
    Option.bind_eq_bind, Option.bind_some]

theorem ofText?_unsigned (cs : List Char) (h : cs.head? ≠ some '-') :
    ofText? cs = unsignedOf? false cs := by
  rw [ofText?.eq_def]
  split
  · exact absurd rfl h
  · rfl

theorem ofText?_text {n : Numeral} (h : n.WellFormed) : ofText? n.text = some n := by
  have hread := unsignedOf?_text h
  rw [text_eq]
  cases hn : n.negative with
  | true =>
    rw [hn] at hread
    exact hread
  | false =>
    rw [hn] at hread
    rw [if_neg Bool.false_ne_true, List.nil_append, ofText?_unsigned _ ?_]
    · exact hread
    · have hd : ∀ d : Digit, d.char ≠ '-' := by decide
      cases hw : n.whole with
      | nil =>
        have := h.whole
        rw [hw] at this
        cases this
      | cons d ds =>
        intro he
        exact hd d (Option.some.inj he)

def alphabet : List Char := ['-', '+', '.', 'e', '0', '1', '2', '3', '4', '5', '6', '7', '8', '9']

theorem mem_digits {ds : List Digit} {c : Char} (h : c ∈ ds.map Digit.char) : c ∈ alphabet := by
  have hd : ∀ d : Digit, d.char ∈ alphabet := by decide
  obtain ⟨d, -, rfl⟩ := List.mem_map.mp h
  exact hd d

theorem mem_pointText {ds : List Digit} {c : Char} (h : c ∈ pointText ds) : c ∈ alphabet := by
  cases ds with
  | nil => cases h
  | cons d ds =>
    rcases List.mem_cons.mp h with rfl | h
    · decide
    · exact mem_digits h

theorem mem_signText {sign : ExponentSign} {c : Char} (h : c ∈ signText sign) : c ∈ alphabet := by
  cases sign with
  | unsigned => cases h
  | plus =>
    rw [List.mem_singleton.mp h]
    decide
  | minus =>
    rw [List.mem_singleton.mp h]
    decide

theorem mem_exponentText {e : Option Exponent} {c : Char} (h : c ∈ exponentText e) :
    c ∈ alphabet := by
  cases e with
  | none => cases h
  | some e =>
    rcases List.mem_append.mp h with h | h
    · rcases List.mem_cons.mp h with rfl | h
      · decide
      · exact mem_signText h
    · exact mem_digits h

theorem mem_text {n : Numeral} {c : Char} (h : c ∈ n.text) : c ∈ alphabet := by
  rw [text_eq] at h
  rcases List.mem_append.mp h with h | h
  · split at h
    · rw [List.mem_singleton.mp h]
      decide
    · cases h
  · rcases List.mem_append.mp h with h | h
    · exact mem_digits h
    · rcases List.mem_append.mp h with h | h
      · exact mem_pointText h
      · exact mem_exponentText h

end Numeral

namespace Decimal

theorem units_pos (q k : Int) : 0 < (units q k).2 :=
  Nat.mul_pos (Nat.pow_pos (by decide)) (Nat.pow_pos (by decide))

theorem readsBack_zero {m : Nat} (hm : m ≠ 0) (q k : Int) : readsBack m q k 0 = false := by
  have hlow : 0 < (interval m q).1 := by
    simp only [interval]
    split <;> omega
  have hpos : 0 < (interval m q).1 * (units q k).2 := Nat.mul_pos hlow (units_pos q k)
  simp only [readsBack, Nat.zero_mul]
  split <;> exact decide_eq_false (fun h => by omega)

theorem ne_zero_of_onGrid? {tie : Tie} {m : Nat} {q k : Int} {c : Nat} (hm : m ≠ 0)
    (h : onGrid? tie m q k = some c) : c ≠ 0 := by
  have hbelow : readsBack m q k (below m q k) = true → below m q k ≠ 0 := fun hb h0 => by
    rw [h0, readsBack_zero hm q k] at hb
    cases hb
  simp only [onGrid?] at h
  split at h
  · rename_i hb _
    have := hbelow hb
    cases h
    simp only [nearer]
    split
    · exact this
    · exact Nat.succ_ne_zero _
    · split
      · exact Nat.succ_ne_zero _
      · split
        · exact this
        · exact Nat.succ_ne_zero _
  · rename_i hb _
    cases h
    exact hbelow hb
  · cases h
    exact Nat.succ_ne_zero _
  · cases h

theorem search_ne_zero (tie : Tie) {m : Nat} (hm : m ≠ 0) (q : Int) (tries : Nat) (k : Int) :
    (search tie m q tries k).digits ≠ 0 := by
  induction tries generalizing k with
  | zero =>
    apply Nat.mul_ne_zero
    · exact Nat.mul_ne_zero hm (Nat.ne_of_gt (Nat.pow_pos (by decide)))
    · exact Nat.ne_of_gt (Nat.pow_pos (by decide))
  | succ tries ih =>
    rw [search]
    split
    · rename_i c hc
      exact ne_zero_of_onGrid? hm hc
    · exact ih (k - 1)

theorem shortest_cases (tie : Tie) (m : Nat) (q : Int) :
    shortest tie m q = ⟨0, 0⟩ ∨ (shortest tie m q).digits ≠ 0 := by
  rw [shortest]
  split
  · exact .inl rfl
  · rename_i hm
    exact .inr (search_ne_zero tie hm q 20 _)

end Decimal

namespace Numeral

theorem isWhole_of_leads {ds : List Digit} (h : Digit.Leads ds) : isWhole ds = true := by
  obtain ⟨d, rest, rfl, hd⟩ := h
  cases rest with
  | nil => rfl
  | cons e rest => exact bne_iff_ne.mpr hd

theorem positional_wellFormed (negative pointed : Bool) {ds : List Digit} (exponent : Int)
    (h : Digit.Leads ds) : (positional negative pointed ds exponent).WellFormed := by
  have hlead (suffix : List Digit) : Digit.Leads (ds ++ suffix) := by
    obtain ⟨d, rest, rfl, hd⟩ := h
    exact ⟨d, rest ++ suffix, rfl, hd⟩
  have htake (k : Nat) : Digit.Leads (ds.take (k + 1)) := by
    obtain ⟨d, rest, rfl, hd⟩ := h
    exact ⟨d, rest.take k, rfl, hd⟩
  simp only [positional]
  split
  · exact ⟨isWhole_of_leads (hlead _), by rintro e ⟨⟩⟩
  · split
    · exact ⟨isWhole_of_leads (htake _), by rintro e ⟨⟩⟩
    · exact ⟨rfl, by rintro e ⟨⟩⟩

theorem scientific_wellFormed (negative : Bool) {ds : List Digit} (exponent : Int)
    (h : ds ≠ []) : (scientific negative ds exponent).WellFormed := by
  constructor
  · cases ds with
    | nil => exact absurd rfl h
    | cons d ds => rfl
  · rintro e ⟨⟩
    exact Digit.collect_ne_nil _ _ _

end Numeral

theorem Layout.wellFormed_of_numeral? {layout : Layout} {x : Float} {n : Numeral}
    (h : layout.numeral? x = some n) : n.WellFormed := by
  rw [Layout.numeral?] at h
  split at h
  · rename_i negative m q _
    simp only at h
    split at h
    · cases h
      rcases Decimal.shortest_cases layout.tie m q with hz | hz
      · rw [hz]
        exact ⟨rfl, by rintro e ⟨⟩⟩
      · exact Numeral.positional_wellFormed _ _ _ (Digit.leads_ofNat hz)
    · cases h
      exact Numeral.scientific_wellFormed _ _ (Digit.collect_ne_nil _ _ _)
  · cases h

end LinearProgram
