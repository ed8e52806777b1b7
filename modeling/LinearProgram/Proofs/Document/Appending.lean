import LinearProgram.Proofs.Document.Adding
import LinearProgram.Proofs.Document.Pricing
import LinearProgram.Proofs.Document.Summing

namespace LinearProgram.Problem

variable {p q : Problem} {d : Document} {created : List Variable}

def namedBy (d : Document) (created : List Variable) : List (String × Variable) :=
  (d.vars.map (·.name)).zip created

def withVarsOf (p : Problem) (d : Document) : Problem := p.withColumns (d.vars.map (·.column))

def withPartsOf (p : Problem) (d : Document) (created : List Variable) : Problem :=
  (p.withVarsOf d).withRows (d.constraints.map ((p.withVarsOf d).rowFor (namedBy d created)))

def newPrices (p : Problem) (d : Document) : List Float :=
  p.tableau.columns.map (fun c => Double.plain c.objective) ++
    d.vars.map fun r => Double.plain r.objective

def finished (p : Problem) (d : Document) (prices : List Float) : Problem :=
  { p.revised { p.tableau.priced prices with direction := d.direction } with
    name := d.name <|> p.name
    objectiveName := d.objectiveName <|> p.objectiveName }

structure Appended (p : Problem) (d : Document) (created : List Variable) (q : Problem) :
    Prop where
  consistent : q.Consistent
  vars : q.vars = p.vars ++ created
  columns : q.tableau.columns = p.tableau.columns.map (fun c => c.priced c.objective) ++
    d.vars.map (fun r => r.column.priced r.objective)
  rows : q.tableau.rows = p.tableau.rows ++ d.constraints.map (q.rowFor (namedBy d created))
  direction : q.tableau.direction = d.direction
  name : q.name = (d.name <|> p.name)
  objectiveName : q.objectiveName = (d.objectiveName <|> p.objectiveName)

theorem setTitle_name {name : Option String} (h : checkTitle name = .ok ()) :
    setTitle setName name p = .ok () { p with name := name <|> p.name } := by
  cases name with
  | none => rfl
  | some n =>
    have hask : ask (fun _ => checkTitle (some n)) p = .ok () p := ask_ok h
    simp only [setTitle, Option.isSome_some, ↓reduceIte, setName, Edit.bind_apply, hask,
      Edit.modify_apply]
    rfl

theorem setTitle_objectiveName {name : Option String} (h : checkTitle name = .ok ()) :
    setTitle setObjectiveName name p =
      .ok () { p with objectiveName := name <|> p.objectiveName } := by
  cases name with
  | none => rfl
  | some n =>
    have hask : ask (fun _ => checkTitle (some n)) p = .ok () p := ask_ok h
    simp only [setTitle, Option.isSome_some, ↓reduceIte, setObjectiveName, Edit.bind_apply, hask,
      Edit.modify_apply]
    rfl

theorem withObjective_map {α : Type} (columns : List α) (f : α → Column) (g : α → Float) :
    Tableau.withObjective (columns.map f) (columns.map fun a => Double.plain (g a)) =
      columns.map fun a => (f a).priced (g a) := by
  induction columns with
  | nil => rfl
  | cons a columns ih => simp [Tableau.withObjective, ih, Column.priced]

theorem naming_namedBy (hd : (d.vars.map (·.name)).Nodup) (hc : created.Nodup)
    (hl : created.length = d.vars.length) : Naming (namedBy d created) := by
  constructor
  · rwa [namedBy, List.map_fst_zip (by simp [hl])]
  · rwa [namedBy, List.map_snd_zip (by simp [hl])]

theorem tableau_withVarsOf (p : Problem) (d : Document) : (p.withVarsOf d).tableau =
    { p.tableau with columns := p.tableau.columns ++ d.vars.map (·.column) } :=
  tableau_withColumns _ _

theorem tableau_withPartsOf (p : Problem) (d : Document) (created : List Variable) :
    (p.withPartsOf d created).tableau.columns = p.tableau.columns ++ d.vars.map (·.column) ∧
      (p.withPartsOf d created).tableau.rows = p.tableau.rows ++
        d.constraints.map ((p.withVarsOf d).rowFor (namedBy d created)) := by
  rw [withPartsOf, tableau_withRows, tableau_withVarsOf]
  exact ⟨rfl, rfl⟩

theorem vars_withRows (p : Problem) (rows : List Row) : (p.withRows rows).vars = p.vars := by
  induction rows generalizing p with
  | nil => rfl
  | cons r rows ih => exact ih (p.withRow r)

theorem rowFor_congr (h : q.vars = p.vars) (named : List (String × Variable))
    (r : ConstraintRecord) : q.rowFor named r = p.rowFor named r := by
  have he : q.entryOf = p.entryOf := by
    funext t
    rw [entryOf, entryOf, h]
  rw [rowFor, rowFor, rowOf, rowOf, he]

structure Started (p : Problem) (d : Document) (created : List Variable) : Prop where
  run : d.vars.mapM addVariableRecord p = .ok created (p.withVarsOf d)
  vars : (p.withVarsOf d).vars = p.vars ++ created
  consistent : (p.withVarsOf d).Consistent

theorem Admits.fits_constraints (ha : p.Admits d) : ∀ r ∈ d.constraints,
    r.Fits ((p.withVarsOf d).tableau.names .constraint) (d.vars.map (·.name)) := by
  rw [tableau_withVarsOf]
  exact ha.constraints

namespace Consistent

theorem finished (hp : p.Consistent) {prices : List Float} (hx : ∀ x ∈ prices, x.isNaN = false)
    (ht : checkTitle d.name = .ok ()) (ho : checkTitle d.objectiveName = .ok ()) :
    (p.finished d prices).Consistent := by
  have hn (kind : EntityKind) :
      { p.tableau.priced prices with direction := d.direction }.names kind =
        p.tableau.names kind := by
    have h : (p.tableau.priced prices).names kind = p.tableau.names kind :=
      Tableau.names_priced prices kind
    cases kind <;> exact h
  have hq := hp.revised hn ((hp.sound.priced hx).withDirection d.direction)
  refine ⟨fun kind => ?_, hq.sound, ?_, ?_, rfl, fun s hs => nomatch hs⟩
  · have hl := hq.lists kind
    cases kind <;> exact hl
  · change checkTitle (d.name <|> p.name) = _
    cases hd : d.name with
    | none => exact hp.title
    | some name =>
      rw [hd] at ht
      exact ht
  · change checkTitle (d.objectiveName <|> p.objectiveName) = _
    cases hd : d.objectiveName with
    | none => exact hp.objectiveTitle
    | some name =>
      rw [hd] at ho
      exact ho

theorem started (hp : p.Consistent) (ha : p.Admits d)
    (hroom : p.columns.size + d.vars.length ≤ Table.capacity) : ∃ created, Started p d created := by
  obtain ⟨created, hrun, hvars, hq⟩ := hp.addVariables_eq hroom ha.vars ha.varsDistinct
  exact ⟨created, hrun, hvars, hq⟩

end Consistent

namespace Started

variable (hp : p.Consistent) (ha : p.Admits d) (h : Started p d created)
include hp h

theorem length_created : created.length = d.vars.length := by
  have hl := h.consistent.length_vars
  rw [h.vars, tableau_withVarsOf, List.length_append, List.length_append, List.length_map,
    hp.length_vars] at hl
  omega

omit hp in
theorem distinct : (p.vars ++ created).Nodup := h.vars ▸ h.consistent.handles_nodup .var

theorem takes_iff (ha : p.Admits d) {r : ConstraintRecord} (hr : r ∈ d.constraints) :
    (p.withVarsOf d).Takes (some (formOf (namedBy d created) r.terms)) ↔ r.Summable := by
  have hl := h.length_created hp
  have hn := naming_namedBy ha.varsDistinct (List.nodup_append'.mp h.distinct).2.1 hl
  apply hn.takes_formOf_iff
  · rintro ⟨name, v⟩ hm
    rw [h.vars, List.mem_append]
    exact .inr (List.of_mem_zip hm).2
  · intro t ht
    rw [namedBy, List.map_fst_zip (by simp [hl])]
    exact ((ha.constraints r hr).terms t ht).1

omit hp in
theorem vars_withPartsOf : (p.withPartsOf d created).vars = p.vars ++ created :=
  (vars_withRows _ _).trans h.vars

theorem takes_extendedForm (ha : p.Admits d) : (p.withPartsOf d created).Takes
    (some (p.extendedForm (d.vars.map (·.objective)) created)) := by
  have hl : (d.vars.map (·.objective)).length = created.length := by
    rw [List.length_map, h.length_created hp]
  intro t ht
  rw [h.vars_withPartsOf]
  refine ⟨hp.extendedForm_number hl h.distinct ?_ ht, hp.var_mem_of_extendedForm hl h.distinct ht⟩
  rw [List.forall_mem_map]
  exact fun r hr => (ha.vars r hr).objective

theorem shares_eq : (p.withPartsOf d created).vars.map
    (Linear.share (some (p.extendedForm (d.vars.map (·.objective)) created))) =
      p.newPrices d := by
  have hl : (d.vars.map (·.objective)).length = created.length := by
    rw [List.length_map, h.length_created hp]
  rw [h.vars_withPartsOf, hp.shares_extendedForm hl h.distinct, List.map_map]
  rfl

theorem addConstraints (ha : p.Admits d)
    (hroom : p.rows.size + d.constraints.length ≤ Table.capacity)
    (hs : ∀ r ∈ d.constraints, r.Summable) :
    d.constraints.forM (addConstraintRecord (namedBy d created)) (p.withVarsOf d) =
      .ok () (p.withPartsOf d created) ∧ (p.withPartsOf d created).Consistent := by
  have hroom₁ : (p.withVarsOf d).rows.size + d.constraints.length ≤ Table.capacity := by
    rwa [withVarsOf, rows_withColumns]
  exact h.consistent.addConstraints_eq hroom₁ ha.fits_constraints ha.constraintsDistinct
    fun r hr => (h.takes_iff hp ha hr).mpr (hs r hr)

theorem setObjective_eq (ha : p.Admits d) (hq : (p.withPartsOf d created).Consistent) :
    setObjective (some (p.extendedForm (d.vars.map (·.objective)) created))
      (p.withPartsOf d created) =
        .ok () ((p.withPartsOf d created).revised
          ((p.withPartsOf d created).tableau.priced (p.newPrices d))) := by
  rw [← h.shares_eq hp]
  exact hq.setObjective_eq (h.takes_extendedForm hp ha)

omit h in
theorem number_of_newPrices (ha : p.Admits d) : ∀ x ∈ p.newPrices d, x.isNaN = false := by
  simp only [newPrices, List.mem_append, List.mem_map]
  rintro x (⟨c, hc, rfl⟩ | ⟨r, hr, rfl⟩)
  · exact Double.isNaN_plain (hp.sound.shares c hc)
  · exact Double.isNaN_plain (ha.vars r hr).objective

theorem finish (ha : p.Admits d)
    (hroom : p.rows.size + d.constraints.length ≤ Table.capacity)
    (hs : ∀ r ∈ d.constraints, r.Summable) :
    ∃ q, appendDocument d p = .ok created q ∧ Appended p d created q := by
  obtain ⟨hrows, hq⟩ := h.addConstraints hp ha hroom hs
  have hset := h.setObjective_eq hp ha hq
  have hcheck : ask (·.checkDocument d) p = .ok () p := ask_ok (hp.checkDocument_eq_ok_iff.mpr ha)
  have hobjective : ask (·.objectiveLinear) p = _ := ask_ok hp.objectiveLinear_eq
  unfold extendedForm at hset
  unfold namedBy at hrows
  refine ⟨(p.withPartsOf d created).finished d (p.newPrices d), ?_, ?_⟩
  · simp only [appendDocument, Edit.bind_apply, hcheck, hobjective, getD_objectiveForm, h.run,
      hrows, hset, setDirection_eq, setTitle_name ha.title,
      setTitle_objectiveName ha.objectiveTitle]
    rfl
  · obtain ⟨hname, hobjectiveName⟩ := titles_withRows (p.withVarsOf d)
      (d.constraints.map ((p.withVarsOf d).rowFor (namedBy d created)))
    obtain ⟨hname', hobjectiveName'⟩ := titles_withColumns p (d.vars.map (·.column))
    have hvars := h.vars_withPartsOf
    refine ⟨hq.finished (number_of_newPrices hp ha) ha.title ha.objectiveTitle, hvars, ?_, ?_, rfl,
      ?_, ?_⟩
    · have ht : ((p.withPartsOf d created).finished d (p.newPrices d)).tableau.columns =
          Tableau.withObjective (p.tableau.columns ++ d.vars.map (·.column)) (p.newPrices d) := by
        change Tableau.withObjective (p.withPartsOf d created).tableau.columns _ = _
        rw [(tableau_withPartsOf p d created).1]
      rw [ht]
      have hall := withObjective_map
        (p.tableau.columns.map (fun c => (c, c.objective)) ++
          d.vars.map fun r => (r.column, r.objective)) Prod.fst Prod.snd
      simpa [newPrices, Function.comp_def] using hall
    · have hrow :
          ((p.withPartsOf d created).finished d (p.newPrices d)).rowFor (namedBy d created) =
            (p.withVarsOf d).rowFor (namedBy d created) :=
        funext fun r => rowFor_congr (hvars.trans h.vars.symm) _ r
      rw [hrow]
      exact (tableau_withPartsOf p d created).2
    · change (d.name <|> (p.withPartsOf d created).name) = _
      rw [withPartsOf, hname, withVarsOf, hname']
    · change (d.objectiveName <|> (p.withPartsOf d created).objectiveName) = _
      rw [withPartsOf, hobjectiveName, withVarsOf, hobjectiveName']

end Started

theorem Consistent.appendDocument_eq (hp : p.Consistent) (ha : p.Admits d)
    (hroomVars : p.columns.size + d.vars.length ≤ Table.capacity)
    (hroomRows : p.rows.size + d.constraints.length ≤ Table.capacity)
    (hs : ∀ r ∈ d.constraints, r.Summable) :
    ∃ created q, appendDocument d p = .ok created q ∧ Appended p d created q := by
  obtain ⟨created, h⟩ := hp.started ha hroomVars
  exact ⟨created, h.finish hp ha hroomRows hs⟩

end LinearProgram.Problem
