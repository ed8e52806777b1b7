import LinearProgram.Proofs.Document.Description
import LinearProgram.Proofs.Document.Equality
import LinearProgram.Proofs.Json.Form
import LinearProgram.Proofs.Problem.Runs

namespace LinearProgram

open JsonForm (Kept write read?)
open Json (Proper)

def Double.readsBack (x : Float) : Bool :=
  ((Layout.json.numeral? x).bind Numeral.toFloat?).any (· == x)

theorem Double.kept_iff {x : Float} : Kept x ↔ readsBack x = true := by
  rw [readsBack, Option.any_eq_true, ← JsonForm.read?_float]
  rfl

theorem Double.readsBack_of_beq_zero {x : Float} (h : (x == 0) = true) : readsBack x = true := by
  -- the two zeros are the only doubles to look at
  obtain ⟨s, hs⟩ := beq_zero_iff.mp h
  rw [← ofModel_pack_value x, hs]
  cases s <;> decide +kernel

namespace Bound

def numbers (b : Bound) : List Float := b.lower.toList ++ b.upper.toList

theorem proper (b : Bound) : Proper (write b) := by
  apply Field.proper_object [("lower", write b.lower), ("upper", write b.upper)]
  rw [List.forall_mem_cons, List.forall_mem_singleton]
  exact ⟨JsonForm.proper_option JsonForm.proper_float b.lower,
    JsonForm.proper_option JsonForm.proper_float b.upper⟩

theorem read?_write (b : Bound) : (read? (write b) : Option Bound) =
    (read? (write b.lower)).bind fun l => (read? (write b.upper)).bind fun u => some ⟨l, u⟩ := by
  have hvalues : Field.values? fields (write b) = some [write b.lower, write b.upper] :=
    Field.values?_object fields [("lower", write b.lower), ("upper", write b.upper)]
  exact congrArg (Option.bind · _) hvalues

theorem kept_iff {b : Bound} : Kept b ↔ ∀ x ∈ b.numbers, Double.readsBack x = true := by
  have hsides : Kept b ↔ Kept b.lower ∧ Kept b.upper := by
    unfold Kept
    rw [read?_write]
    refine JsonForm.exists_bind_iff fun l u => ?_
    rw [beq_eq, Bool.and_eq_true]
  rw [hsides, JsonForm.kept_side, JsonForm.kept_side, numbers, List.forall_mem_append]
  simp only [Option.mem_toList, Option.mem_def, Double.kept_iff]

end Bound

namespace VariableRecord

def numbers (r : VariableRecord) : List Float := r.objective :: r.bound.numbers

def members (r : VariableRecord) : List (String × Json) :=
  [("name", write r.name), ("var_type", write r.type), ("bound", write r.bound)] ++
    if r.objective == 0 then [] else [("objective", write r.objective)]

theorem write_eq (r : VariableRecord) : write r = Field.object r.members := by
  change Json.object (_ ++ if r.objective == 0 then _ else _) = _
  rw [Field.object, members, List.map_append]
  split <;> rfl

theorem proper (r : VariableRecord) : Proper (write r) := by
  rw [write_eq]
  apply Field.proper_object
  rw [members, List.forall_mem_append]
  constructor
  · rw [List.forall_mem_cons, List.forall_mem_cons, List.forall_mem_singleton]
    exact ⟨JsonForm.proper_stringOf _, JsonForm.proper_stringOf _, r.bound.proper⟩
  · split
    · exact fun m hm => absurd hm List.not_mem_nil
    · exact List.forall_mem_singleton.mpr (JsonForm.proper_float _)

def share? (r : VariableRecord) : Option Float :=
  if r.objective == 0 then some 0 else read? (write r.objective)

theorem read?_type (type : VarType) : read? (write type) = some type :=
  (JsonForm.read?_ofNames VarType.all VarType.name type).trans (by cases type <;> rfl)

theorem read?_write (r : VariableRecord) : (read? (write r) : Option VariableRecord) =
    (read? (write r.bound)).bind fun b => r.share?.bind fun x => some ⟨r.name, r.type, b, x⟩ := by
  have hvalues : Field.values? fields (write r) = some [write r.name, write r.type, write r.bound,
      if r.objective == 0 then .number .zero else write r.objective] := by
    rw [write_eq, Field.values?_object, members]
    split <;> rfl
  have hshare : (read? (if r.objective == 0 then .number .zero else write r.objective)) =
      r.share? := by
    rw [share?]
    split
    · decide +kernel
    · rfl
  rw [← hshare]
  refine (congrArg (Option.bind · _) hvalues).trans ?_
  change (read? (write r.name)).bind _ = _
  rw [JsonForm.read?_string, Option.bind_some]
  change (read? (write r.type)).bind _ = _
  rw [read?_type, Option.bind_some]
  rfl

theorem share?_iff {r : VariableRecord} :
    (∃ x, r.share? = some x ∧ (x == r.objective) = true) ↔ Double.readsBack r.objective = true := by
  rw [share?]
  split
  · rename_i h
    refine iff_of_true ⟨0, rfl, ?_⟩ (Double.readsBack_of_beq_zero h)
    rw [Double.beq_comm]
    exact h
  · exact Double.kept_iff

theorem kept_iff {r : VariableRecord} : Kept r ↔ ∀ x ∈ r.numbers, Double.readsBack x = true := by
  rw [numbers, List.forall_mem_cons, ← share?_iff, ← Bound.kept_iff, and_comm]
  unfold Kept
  rw [read?_write]
  refine JsonForm.exists_bind_iff fun b x => ?_
  rw [beq_iff]
  exact ⟨fun h => h.2.2, fun h => ⟨rfl, rfl, h⟩⟩

end VariableRecord

namespace ConstraintRecord

def numbers (r : ConstraintRecord) : List Float := r.bound.numbers ++ r.terms.map (·.2)

theorem proper (r : ConstraintRecord) : Proper (write r) := by
  apply Field.proper_object
    [("name", write r.name), ("bound", write r.bound), ("terms", write r.terms)]
  rw [List.forall_mem_cons, List.forall_mem_cons, List.forall_mem_singleton]
  exact ⟨JsonForm.proper_stringOf _, r.bound.proper,
    JsonForm.proper_list (JsonForm.proper_pair JsonForm.proper_stringOf JsonForm.proper_float) _⟩

theorem read?_write (r : ConstraintRecord) : (read? (write r) : Option ConstraintRecord) =
    (read? (write r.bound)).bind fun b =>
      (read? (write r.terms)).bind fun ts => some ⟨r.name, b, ts⟩ := by
  have hvalues : Field.values? fields (write r) =
      some [write r.name, write r.bound, write r.terms] :=
    Field.values?_object fields
      [("name", write r.name), ("bound", write r.bound), ("terms", write r.terms)]
  refine (congrArg (Option.bind · _) hvalues).trans ?_
  change (read? (write r.name)).bind _ = _
  rw [JsonForm.read?_string, Option.bind_some]
  rfl

theorem kept_iff {r : ConstraintRecord} : Kept r ↔ ∀ x ∈ r.numbers, Double.readsBack x = true := by
  have hterms : Kept r.terms ↔ ∀ t ∈ r.terms, Double.readsBack t.2 = true := by
    rw [JsonForm.kept_list]
    refine forall₂_congr fun t _ => JsonForm.kept_pair.trans ?_
    rw [Double.kept_iff]
    exact and_iff_right (JsonForm.kept_string t.1)
  rw [numbers, List.forall_mem_append, List.forall_mem_map, ← hterms, ← Bound.kept_iff]
  unfold Kept
  rw [read?_write]
  refine JsonForm.exists_bind_iff fun b ts => ?_
  rw [beq_iff]
  exact ⟨fun h => h.2, fun h => ⟨rfl, h⟩⟩

end ConstraintRecord

namespace Document

def numbers (d : Document) : List Float :=
  d.vars.flatMap (·.numbers) ++ d.constraints.flatMap (·.numbers)

def titled (name : String) (value : Option String) : List (String × Json) :=
  (value.map fun s => (name, write s)).toList

def members (d : Document) : List (String × Json) :=
  titled "name" d.name ++ titled "objective_name" d.objectiveName ++
    [("direction", write d.direction), ("variables", write d.vars),
      ("constraints", write d.constraints)]

theorem write_eq (d : Document) : write d = Field.object d.members := by
  obtain ⟨name, objectiveName, direction, vars, constraints⟩ := d
  cases name <;> cases objectiveName <;> rfl

theorem proper_titled (name : String) (value : Option String) :
    ∀ m ∈ titled name value, Proper m.2 := by
  cases value with
  | none => exact fun m hm => absurd hm List.not_mem_nil
  | some s => exact List.forall_mem_singleton.mpr (JsonForm.proper_stringOf s)

theorem proper (d : Document) : Proper (write d) := by
  rw [write_eq]
  apply Field.proper_object
  rw [members, List.forall_mem_append, List.forall_mem_append]
  refine ⟨⟨proper_titled _ _, proper_titled _ _⟩, ?_⟩
  rw [List.forall_mem_cons, List.forall_mem_cons, List.forall_mem_singleton]
  exact ⟨JsonForm.proper_stringOf _, JsonForm.proper_list VariableRecord.proper _,
    JsonForm.proper_list ConstraintRecord.proper _⟩

theorem read?_direction (direction : Direction) : read? (write direction) = some direction :=
  (JsonForm.read?_ofNames Direction.all Direction.name direction).trans
    (by cases direction <;> rfl)

theorem read?_write (d : Document) : (read? (write d) : Option Document) =
    (read? (write d.vars)).bind fun vs => (read? (write d.constraints)).bind fun cs =>
      some ⟨d.name, d.objectiveName, d.direction, vs, cs⟩ := by
  have hvalues : Field.values? fields (write d) = some [write d.name, write d.objectiveName,
      write d.direction, write d.vars, write d.constraints] := by
    rw [write_eq, Field.values?_object, members]
    cases d.name <;> cases d.objectiveName <;> rfl
  refine (congrArg (Option.bind · _) hvalues).trans ?_
  change (read? (write d.name)).bind _ = _
  rw [JsonForm.read?_title, Option.bind_some]
  change (read? (write d.objectiveName)).bind _ = _
  rw [JsonForm.read?_title, Option.bind_some]
  change (read? (write d.direction)).bind _ = _
  rw [read?_direction, Option.bind_some]
  rfl

theorem kept_iff {d : Document} : Kept d ↔ ∀ x ∈ d.numbers, Double.readsBack x = true := by
  have hvars : Kept d.vars ↔ ∀ r ∈ d.vars, ∀ x ∈ r.numbers, Double.readsBack x = true := by
    rw [JsonForm.kept_list]
    exact forall₂_congr fun _ _ => VariableRecord.kept_iff
  have hconstraints : Kept d.constraints ↔
      ∀ r ∈ d.constraints, ∀ x ∈ r.numbers, Double.readsBack x = true := by
    rw [JsonForm.kept_list]
    exact forall₂_congr fun _ _ => ConstraintRecord.kept_iff
  rw [numbers, List.forall_mem_append, List.forall_mem_flatMap, List.forall_mem_flatMap, ← hvars,
    ← hconstraints]
  unfold Kept
  rw [read?_write]
  refine JsonForm.exists_bind_iff fun vs cs => ?_
  rw [beq_iff]
  exact ⟨fun h => h.2.2.2, fun h => ⟨rfl, rfl, rfl, h⟩⟩

theorem ofJson_toJson (d : Document) : ofJson d.toJson =
    match (read? (write d) : Option Document) with
    | some d' => .ok d'
    | none => Outcome.refuse (.malformed .text) := by
  rw [ofJson, toJson, Json.decode?_pretty d.proper]
  rfl

theorem saved_iff {d : Document} : (∃ d', ofJson d.toJson = .ok d' ∧ (d' == d) = true) ↔
    ∀ x ∈ d.numbers, Double.readsBack x = true := by
  rw [← kept_iff, ofJson_toJson]
  unfold Kept
  cases (read? (write d) : Option Document) with
  | none =>
    constructor
    · rintro ⟨d', hd, -⟩
      cases hd
    · rintro ⟨d', hd, -⟩
      cases hd
  | some d' =>
    constructor
    · rintro ⟨e, he, hbeq⟩
      cases he
      exact ⟨d', rfl, hbeq⟩
    · rintro ⟨e, he, hbeq⟩
      cases he
      exact ⟨d', rfl, hbeq⟩

end Document

namespace Problem

variable {p : Problem}

/-- Every problem has a document, and the text of it gives it back exactly when the digits of each
number do. -/
theorem saved_of_reachable (h : p.Reachable) : ∃ d, p.toDocument = .ok d ∧
    ((∃ d', Document.ofJson d.toJson = .ok d' ∧ (d' == d) = true) ↔
      ∀ x ∈ d.numbers, Double.readsBack x = true) :=
  ⟨p.description, h.consistent.toDocument_eq, Document.saved_iff⟩

def wide : Problem :=
  let x : Variable := ⟨⟨0⟩, ⟨0, 0⟩⟩
  (Operation.setBound .var x ⟨some 9007199254740991, none⟩).after <|
    (Operation.addVariable "x" .real).after (.new ⟨0⟩)

theorem reachable_wide : wide.Reachable := by
  refine .step _ (.step _ (reachable_new ⟨0⟩) ?_) ?_
  all_goals decide +kernel

theorem numbers_wide : (∀ x ∈ wide.description.numbers, x.isFinite = true) ∧
    ¬ ∀ x ∈ wide.description.numbers, Double.readsBack x = true := by
  decide +kernel

theorem saved_of_wide : wide.Reachable ∧ ∃ d, wide.toDocument = .ok d ∧
    ((∃ d', Document.ofJson d.toJson = .ok d' ∧ (d' == d) = true) ↔
      ∀ x ∈ d.numbers, Double.readsBack x = true) :=
  ⟨reachable_wide, saved_of_reachable reachable_wide⟩

theorem saving_not_lossless : ¬ ∀ p : Problem, p.Reachable →
    (∀ d, p.toDocument = .ok d → ∀ x ∈ d.numbers, x.isFinite = true) →
      ∃ d d', p.toDocument = .ok d ∧ Document.ofJson d.toJson = .ok d' ∧ (d' == d) = true := by
  intro h
  have hdocument : wide.toDocument = .ok wide.description := reachable_wide.consistent.toDocument_eq
  have hfinite : ∀ d, wide.toDocument = .ok d → ∀ x ∈ d.numbers, x.isFinite = true := by
    intro d hd
    rw [hdocument] at hd
    cases hd
    exact numbers_wide.1
  obtain ⟨d, d', hd, hread⟩ := h wide reachable_wide hfinite
  rw [hdocument] at hd
  cases hd
  exact numbers_wide.2 (Document.saved_iff.mp ⟨d', hread⟩)

end Problem

end LinearProgram
