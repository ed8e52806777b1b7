import Mathlib.Data.List.Basic
import LinearProgram.Json.Escape

namespace LinearProgram.Json

theorem hex_control : ∀ n < 32, (Text.hex 4 n).length = 4 ∧
    Text.ofHex? (Text.hex 4 n) = some n ∧
    (Text.hex 4 n).all (fun c => (Text.hexDigit? c).isSome) = true := by decide

theorem units?_cons {c : Char} (hc : c ≠ '\\') (rest : Written) :
    units? (c :: rest) = (units? rest).map (c.toNat :: ·) := by
  rw [units?.eq_def]
  split
  · rename_i h
    cases h
  · rename_i h
    cases h
    exact absurd rfl hc
  · rename_i h
    cases h
    exact absurd rfl hc
  · rename_i h
    cases h
    rw [if_neg hc]
    cases units? rest <;> rfl

theorem units?_short {letter meant : Char} (hl : letter ≠ 'u')
    (h : shortEscapes.lookup letter = some meant) (rest : Written) :
    units? ('\\' :: letter :: rest) = (units? rest).map (meant.toNat :: ·) := by
  rw [units?.eq_def]
  split
  · rename_i he
    cases he
  · rename_i he
    cases he
    exact absurd rfl hl
  · rename_i he
    cases he
    rw [h]
    cases units? rest <;> rfl
  · rename_i hother he
    cases he
    exact (hother letter rest rfl rfl).elim

theorem units?_escapeChar (c : Char) (rest : Written) :
    units? (escapeChar c ++ rest) = (units? rest).map (c.toNat :: ·) := by
  unfold escapeChar
  split
  iterate 7 exact units?_short (by decide) rfl rest
  split
  · rename_i hc
    obtain ⟨hlength, hvalue, -⟩ := hex_control c.toNat hc
    obtain ⟨a, b, c', d, he⟩ := List.length_eq_four.mp hlength
    rw [he] at hvalue ⊢
    change units? ('\\' :: 'u' :: a :: b :: c' :: d :: rest) = _
    rw [units?, hvalue]
    cases units? rest <;> rfl
  · exact units?_cons (by assumption) rest

theorem units?_escape (cs : List Char) :
    units? (cs.flatMap escapeChar) = some (cs.map Char.toNat) := by
  induction cs with
  | nil => rfl
  | cons c cs ih =>
    rw [List.flatMap_cons, units?_escapeChar, ih]
    rfl

theorem isTrailing_toNat (c : Char) : isTrailing c.toNat = false := by
  have hc : c.toNat.isValidChar := c.valid
  rw [isTrailing, decide_eq_false_iff_not]
  rcases hc with h | h <;> omega

theorem isLeading_toNat (c : Char) : isLeading c.toNat = false := by
  have hc : c.toNat.isValidChar := c.valid
  rw [isLeading, decide_eq_false_iff_not]
  rcases hc with h | h <;> omega

theorem joined?_toNat (cs : List Char) : joined? (cs.map Char.toNat) = some cs := by
  induction cs with
  | nil => rfl
  | cons c cs ih =>
    rw [List.map_cons, joined?.eq_def]
    simp only [isTrailing_toNat, isLeading_toNat, Bool.false_eq_true, ↓reduceIte, ih,
      Option.map_some, Char.ofNat_toNat]

theorem unescape?_escape (s : String) : unescape? (escape s) = some s := by
  rw [unescape?, escape, units?_escape, Option.bind_some, joined?_toNat, Option.map_some,
    String.ofList_toList]

end LinearProgram.Json
