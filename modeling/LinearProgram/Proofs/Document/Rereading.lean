import LinearProgram.Proofs.Document.Saving
import LinearProgram.Proofs.Number.Reading

namespace LinearProgram

open JsonForm (write read?)

section Lists

variable {α β γ : Type} {R : α → β → Prop} {l : List α} {m : List β}

theorem exists_mem_of_forall₂ (h : List.Forall₂ R l m) {b : β} (hb : b ∈ m) : ∃ a ∈ l, R a b := by
  induction h with
  | nil => cases hb
  | @cons a c l m hR _ ih =>
    rcases List.mem_cons.mp hb with rfl | hb
    · exact ⟨a, List.mem_cons_self, hR⟩
    · obtain ⟨a', ha, hR'⟩ := ih hb
      exact ⟨a', List.mem_cons_of_mem a ha, hR'⟩

theorem map_eq_of_forall₂ (h : List.Forall₂ R l m) {f : α → γ} {g : β → γ}
    (hR : ∀ a b, R a b → g b = f a) : m.map g = l.map f := by
  induction h with
  | nil => rfl
  | @cons a b l m hab _ ih => rw [List.map_cons, List.map_cons, ih, hR a b hab]

end Lists

namespace Double

def written? (x : Float) : Option (List Char) := (Layout.json.numeral? x).map Numeral.text

def read? (text : List Char) : Option Float := (Numeral.ofText? text).bind Numeral.toFloat?

/-- What the text of a number is read as. -/
def reread? (x : Float) : Option Float := (written? x).bind read?

theorem reread?_eq (x : Float) : reread? x = (Layout.json.numeral? x).bind Numeral.toFloat? := by
  rw [reread?, written?]
  cases h : Layout.json.numeral? x with
  | none => rfl
  | some n =>
    rw [Option.map_some, Option.bind_some, read?,
      Numeral.ofText?_text (Layout.wellFormed_of_numeral? h), Option.bind_some]

theorem exists_reread {x : Float} (h : x.isFinite = true) : ∃ y, reread? x = some y := by
  rw [reread?_eq]
  exact Layout.read_of_isFinite h

theorem reread?_infinite {x : Float} (h : x.isFinite = false) : reread? x = none := by
  rw [reread?, written?, Layout.json.numeral?_eq_none h]
  rfl

theorem isNaN_reread {x y : Float} (h : reread? x = some y) : y.isNaN = false := by
  rw [reread?_eq] at h
  obtain ⟨n, -, hn⟩ := Option.bind_eq_some_iff.mp h
  exact Numeral.isNaN_toFloat? hn

theorem isFinite_of_beq_zero {x : Float} (h : (x == 0) = true) : x.isFinite = true := by
  obtain ⟨s, hs⟩ := beq_zero_iff.mp h
  change (value x).isFinite = true
  rw [hs]
  rfl

end Double

namespace JsonForm

variable {α : Type} [JsonForm α]

theorem read?_number (x : Float) : read? (write x) = Double.reread? x :=
  (read?_float x).trans (Double.reread?_eq x).symm

inductive SideReadFor : Option Float → Option Float → Prop
  | none : SideReadFor none none
  | infinite {x : Float} (h : x.isFinite = false) : SideReadFor (some x) none
  | finite {x y : Float} (h : x.isFinite = true) (hy : Double.reread? x = some y) :
    SideReadFor (some x) (some y)

theorem read?_side (x : Option Float) :
    ∃ y : Option Float, read? (write x) = some y ∧ SideReadFor x y := by
  cases x with
  | none => exact ⟨none, rfl, .none⟩
  | some x =>
    have hwrite : write (some x) = ((Layout.json.numeral? x).map Json.number).getD .null := rfl
    cases hx : x.isFinite with
    | false =>
      rw [hwrite, Layout.json.numeral?_eq_none hx]
      exact ⟨none, rfl, .infinite hx⟩
    | true =>
      obtain ⟨y, hy⟩ := Double.exists_reread hx
      refine ⟨some y, ?_, .finite hx hy⟩
      rw [Double.reread?_eq] at hy
      obtain ⟨n, hn, hread⟩ := Option.bind_eq_some_iff.mp hy
      rw [hwrite, hn]
      change n.toFloat?.map some = _
      rw [hread]
      rfl

theorem read?_cons (a : α) (l : List α) : (read? (write (a :: l)) : Option (List α)) =
    (read? (write a)).bind fun b => (read? (write l)).map (b :: ·) := by
  change ((a :: l).map write).mapM read? = (read? (write a)).bind fun b =>
    ((l.map write).mapM read?).map (b :: ·)
  rw [List.map_cons, List.mapM_cons]
  cases (read? (write a) : Option α) with
  | none => rfl
  | some b => cases (l.map write).mapM (read? : Json → Option α) <;> rfl

theorem read?_list {R : α → α → Prop} {l : List α}
    (h : ∀ a ∈ l, ∃ b, read? (write a) = some b ∧ R a b) :
    ∃ m : List α, read? (write l) = some m ∧ List.Forall₂ R l m := by
  induction l with
  | nil => exact ⟨[], rfl, .nil⟩
  | cons a l ih =>
    rw [List.forall_mem_cons] at h
    obtain ⟨b, hb, hR⟩ := h.1
    obtain ⟨m, hm, hall⟩ := ih h.2
    refine ⟨b :: m, ?_, .cons hR hall⟩
    rw [read?_cons, hb, hm]
    rfl

theorem read?_list_none {l : List α} {a : α} (ha : a ∈ l)
    (h : (read? (write a) : Option α) = none) : (read? (write l) : Option (List α)) = none := by
  induction l with
  | nil => cases ha
  | cons b l ih =>
    rw [read?_cons]
    rcases List.mem_cons.mp ha with rfl | ha
    · rw [h]
      rfl
    · rw [ih ha]
      cases (read? (write b) : Option α) <;> rfl

end JsonForm

structure Bound.ReadFor (a b : Bound) : Prop where
  lower : JsonForm.SideReadFor a.lower b.lower
  upper : JsonForm.SideReadFor a.upper b.upper

namespace Bound

theorem read_of_write (b : Bound) : ∃ b' : Bound, read? (write b) = some b' ∧ b.ReadFor b' := by
  obtain ⟨l, hl, hlower⟩ := JsonForm.read?_side b.lower
  obtain ⟨u, hu, hupper⟩ := JsonForm.read?_side b.upper
  refine ⟨⟨l, u⟩, ?_, ⟨hlower, hupper⟩⟩
  rw [Bound.read?_write, hl, hu]
  rfl

end Bound

structure VariableRecord.ReadFor (r s : VariableRecord) : Prop where
  name : s.name = r.name
  type : s.type = r.type
  bound : r.bound.ReadFor s.bound
  objective : if r.objective == 0 then s.objective = 0
    else Double.reread? r.objective = some s.objective

namespace VariableRecord

theorem read_of_finite {r : VariableRecord} (h : r.objective.isFinite = true) :
    ∃ s : VariableRecord, read? (write r) = some s ∧ r.ReadFor s := by
  obtain ⟨b, hb, hbound⟩ := r.bound.read_of_write
  have hshare : ∃ x, r.share? = some x ∧
      if r.objective == 0 then x = 0 else Double.reread? r.objective = some x := by
    rw [share?]
    split
    · exact ⟨0, rfl, rfl⟩
    · obtain ⟨x, hx⟩ := Double.exists_reread h
      exact ⟨x, (JsonForm.read?_number _).trans hx, hx⟩
  obtain ⟨x, hx, hobjective⟩ := hshare
  refine ⟨⟨r.name, r.type, b, x⟩, ?_, ⟨rfl, rfl, hbound, hobjective⟩⟩
  rw [read?_write, hb, hx]
  rfl

theorem read?_infinite {r : VariableRecord} (h : r.objective.isFinite = false) :
    (read? (write r) : Option VariableRecord) = none := by
  have hshare : r.share? = none := by
    rw [share?]
    split
    · rename_i hzero
      rw [Double.isFinite_of_beq_zero hzero] at h
      cases h
    · exact (JsonForm.read?_number _).trans (Double.reread?_infinite h)
  obtain ⟨b, hb, -⟩ := r.bound.read_of_write
  rw [read?_write, hb, hshare]
  rfl

end VariableRecord

structure ConstraintRecord.ReadFor (r s : ConstraintRecord) : Prop where
  name : s.name = r.name
  bound : r.bound.ReadFor s.bound
  terms : List.Forall₂ (fun t u => u.1 = t.1 ∧ Double.reread? t.2 = some u.2) r.terms s.terms

namespace ConstraintRecord

theorem read?_term (t : String × Float) : (read? (write t) : Option (String × Float)) =
    (Double.reread? t.2).map fun x => (t.1, x) := by
  change ((read? (write t.1)).bind fun name => (read? (write t.2)).bind fun x =>
    some (name, x)) = _
  rw [JsonForm.read?_string, Option.bind_some, JsonForm.read?_number]
  cases Double.reread? t.2 <;> rfl

theorem read_of_finite {r : ConstraintRecord} (h : ∀ t ∈ r.terms, t.2.isFinite = true) :
    ∃ s : ConstraintRecord, read? (write r) = some s ∧ r.ReadFor s := by
  obtain ⟨b, hb, hbound⟩ := r.bound.read_of_write
  have hterm : ∀ t ∈ r.terms, ∃ u : String × Float, read? (write t) = some u ∧ u.1 = t.1 ∧
      Double.reread? t.2 = some u.2 := by
    intro t ht
    obtain ⟨x, hx⟩ := Double.exists_reread (h t ht)
    refine ⟨(t.1, x), ?_, rfl, hx⟩
    rw [read?_term, hx]
    rfl
  obtain ⟨ts, hts, hall⟩ := JsonForm.read?_list
    (R := fun t u : String × Float => u.1 = t.1 ∧ Double.reread? t.2 = some u.2) hterm
  refine ⟨⟨r.name, b, ts⟩, ?_, ⟨rfl, hbound, hall⟩⟩
  rw [read?_write, hb, hts]
  rfl

theorem read?_infinite {r : ConstraintRecord} {t : String × Float} (ht : t ∈ r.terms)
    (h : t.2.isFinite = false) : (read? (write r) : Option ConstraintRecord) = none := by
  have hterm : (read? (write t) : Option (String × Float)) = none := by
    rw [read?_term, Double.reread?_infinite h]
    rfl
  obtain ⟨b, hb, -⟩ := r.bound.read_of_write
  rw [read?_write, hb, JsonForm.read?_list_none ht hterm]
  rfl

end ConstraintRecord

structure Document.ReadFor (d e : Document) : Prop where
  name : e.name = d.name
  objectiveName : e.objectiveName = d.objectiveName
  direction : e.direction = d.direction
  vars : List.Forall₂ VariableRecord.ReadFor d.vars e.vars
  constraints : List.Forall₂ ConstraintRecord.ReadFor d.constraints e.constraints

namespace Document

def coefficients (d : Document) : List Float :=
  d.vars.map (·.objective) ++ d.constraints.flatMap fun r => r.terms.map (·.2)

theorem finite_coefficients_iff {d : Document} : (∀ x ∈ d.coefficients, x.isFinite = true) ↔
    (∀ r ∈ d.vars, r.objective.isFinite = true) ∧
      ∀ r ∈ d.constraints, ∀ t ∈ r.terms, t.2.isFinite = true := by
  simp only [coefficients, List.forall_mem_append, List.forall_mem_map, List.forall_mem_flatMap]

theorem ofJson_of_finite {d : Document} (h : ∀ x ∈ d.coefficients, x.isFinite = true) :
    ∃ e, ofJson d.toJson = .ok e ∧ d.ReadFor e := by
  obtain ⟨hvars, hconstraints⟩ := finite_coefficients_iff.mp h
  obtain ⟨vs, hvs, hallVars⟩ := JsonForm.read?_list fun r hr =>
    VariableRecord.read_of_finite (hvars r hr)
  obtain ⟨cs, hcs, hallConstraints⟩ := JsonForm.read?_list fun r hr =>
    ConstraintRecord.read_of_finite (hconstraints r hr)
  refine ⟨⟨d.name, d.objectiveName, d.direction, vs, cs⟩, ?_, rfl, rfl, rfl, hallVars,
    hallConstraints⟩
  rw [ofJson_toJson, read?_write, hvs, hcs]
  rfl

theorem ofJson_of_infinite {d : Document} (h : ∃ x ∈ d.coefficients, x.isFinite = false) :
    ofJson d.toJson = Outcome.refuse (.malformed .text) := by
  have hread : (read? (write d) : Option Document) = none := by
    obtain ⟨x, hx, hinfinite⟩ := h
    rw [read?_write]
    rcases List.mem_append.mp hx with hx | hx
    · obtain ⟨r, hr, rfl⟩ := List.mem_map.mp hx
      rw [JsonForm.read?_list_none hr (VariableRecord.read?_infinite hinfinite)]
      rfl
    · obtain ⟨r, hr, hx⟩ := List.mem_flatMap.mp hx
      obtain ⟨t, ht, rfl⟩ := List.mem_map.mp hx
      rw [JsonForm.read?_list_none hr (ConstraintRecord.read?_infinite ht hinfinite)]
      cases (read? (write d.vars) : Option (List VariableRecord)) <;> rfl
  rw [ofJson_toJson, hread]

/-- A document without infinite coefficients is read again as the same but for its numbers, each of
which is what its digits are read as. If these are the numbers themselves, the documents are
equal. -/
theorem reread_of_finite {d : Document} (h : ∀ x ∈ d.coefficients, x.isFinite = true) :
    ∃ e, ofJson d.toJson = .ok e ∧ d.ReadFor e ∧
      ((∀ x ∈ d.numbers, Double.readsBack x = true) → (e == d) = true) := by
  obtain ⟨e, he, hread⟩ := ofJson_of_finite h
  refine ⟨e, he, hread, fun hback => ?_⟩
  obtain ⟨e', he', heq⟩ := saved_iff.mpr hback
  rw [he] at he'
  cases he'
  exact heq

def motley : Document where
  name := some "a \"quoted\"\nname\\"
  objectiveName := none
  direction := .maximize
  vars := [⟨"", .real, ⟨some (-(1 / 0)), some 9007199254740991⟩, -0.0⟩,
    ⟨"größe\x1b", .binary, .free, 1.5⟩]
  constraints := [⟨"c", .free, [("", 0.1), ("größe\x1b", -3)]⟩, ⟨"", .fixed 0, []⟩]

theorem reread_motley : (∀ x ∈ motley.coefficients, x.isFinite = true) ∧
    ∃ e, ofJson motley.toJson = .ok e ∧ motley.ReadFor e ∧
      ((∀ x ∈ motley.numbers, Double.readsBack x = true) → (e == motley) = true) := by
  have hfinite : ∀ x ∈ motley.coefficients, x.isFinite = true := by decide +kernel
  exact ⟨hfinite, reread_of_finite hfinite⟩

end Document

end LinearProgram
