import LinearProgram.Document.Basic
import LinearProgram.Proofs.Number.Double

namespace LinearProgram

theorem beq_map {α β : Type} [BEq β] {f g : α → β} {l : List α}
    (h : ∀ a ∈ l, (f a == g a) = true) : (l.map f == l.map g) = true := by
  induction l with
  | nil => rfl
  | cons a l ih =>
    rw [List.forall_mem_cons] at h
    rw [List.map_cons, List.map_cons, List.cons_beq_cons, h.1, ih h.2]
    rfl

theorem Bound.beq_eq (a b : Bound) : (a == b) = (a.lower == b.lower && a.upper == b.upper) := rfl

theorem side_beq_refl {x : Option Float} (h : x.any Float.isNaN = false) : (x == x) = true := by
  cases x with
  | none => rfl
  | some x => exact Double.beq_self_iff.mpr h

theorem side_beq_comm (x y : Option Float) : (x == y) = (y == x) := by
  cases x with
  | none => cases y <;> rfl
  | some x =>
    cases y with
    | none => rfl
    | some y => exact Double.beq_comm x y

theorem Bound.beq_refl {b : Bound} (h : b.hasNaN = false) : (b == b) = true := by
  rw [Bound.hasNaN, Bool.or_eq_false_iff] at h
  rw [Bound.beq_eq, side_beq_refl h.1, side_beq_refl h.2]
  rfl

theorem Bound.beq_comm (a b : Bound) : (a == b) = (b == a) := by
  rw [Bound.beq_eq, Bound.beq_eq, side_beq_comm a.lower, side_beq_comm a.upper]

theorem VariableRecord.beq_iff {a b : VariableRecord} : (a == b) = true ↔
    a.name = b.name ∧ a.type = b.type ∧ (a.bound == b.bound) = true ∧
      (a.objective == b.objective) = true := by
  have h : (a == b) = (a.name == b.name && (a.type == b.type &&
    (a.bound == b.bound && a.objective == b.objective))) := rfl
  rw [h]
  simp only [Bool.and_eq_true, beq_iff_eq]

theorem ConstraintRecord.beq_iff {a b : ConstraintRecord} : (a == b) = true ↔
    a.name = b.name ∧ (a.bound == b.bound) = true ∧ (a.terms == b.terms) = true := by
  have h : (a == b) = (a.name == b.name && (a.bound == b.bound && a.terms == b.terms)) := rfl
  rw [h]
  simp only [Bool.and_eq_true, beq_iff_eq]

theorem Document.beq_iff {a b : Document} : (a == b) = true ↔
    a.name = b.name ∧ a.objectiveName = b.objectiveName ∧ a.direction = b.direction ∧
      (a.vars == b.vars) = true ∧ (a.constraints == b.constraints) = true := by
  have h : (a == b) = (a.name == b.name && (a.objectiveName == b.objectiveName &&
    (a.direction == b.direction && (a.vars == b.vars && a.constraints == b.constraints)))) := rfl
  rw [h]
  simp only [Bool.and_eq_true, beq_iff_eq]

theorem ConstraintRecord.beq_refl {r : ConstraintRecord} (hb : r.bound.hasNaN = false)
    (ht : ∀ t ∈ r.terms, t.2.isNaN = false) : (r == r) = true := by
  refine ConstraintRecord.beq_iff.mpr ⟨rfl, Bound.beq_refl hb, ?_⟩
  have hl : (r.terms.map id == r.terms.map id) = true := by
    apply beq_map
    rintro ⟨name, x⟩ hm
    have hx : (x == x) = true := Double.beq_self_iff.mpr (ht (name, x) hm)
    change (name == name && x == x) = true
    rw [hx, beq_self_eq_true]
    rfl
  rwa [List.map_id] at hl

end LinearProgram
