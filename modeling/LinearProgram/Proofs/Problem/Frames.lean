import LinearProgram.Proofs.Problem.Recorded

namespace LinearProgram

structure Traits where
  name : String
  bound : Bound
  type : Option VarType

def Column.traits (c : Column) : Traits := ⟨c.name, c.bound, some c.type⟩

def Row.traits (r : Row) : Traits := ⟨r.name, r.bound, none⟩

namespace Tableau

def traits (t : Tableau) : EntityKind → List Traits
  | .var => t.columns.map (·.traits)
  | .constraint => t.rows.map (·.traits)

variable {t : Tableau} {kind : EntityKind}

theorem length_traits (t : Tableau) (kind : EntityKind) :
    (t.traits kind).length = (t.names kind).length := by
  cases kind <;> simp [names, traits]

theorem map_modify_getElem? {α β : Type} {l : List α} {i j : Nat} (f : α → α) (g : α → β)
    (hij : i ≠ j) : ((l.modify i f).map g)[j]? = (l.map g)[j]? := by
  simp [hij]

theorem traits_rebounded {b : Bound} {i j : Nat} (hij : i ≠ j) (kind other : EntityKind) :
    ((t.rebounded b kind i).traits other)[j]? = (t.traits other)[j]? := by
  cases kind <;> cases other
  · exact map_modify_getElem? _ _ hij
  · rfl
  · rfl
  · exact map_modify_getElem? _ _ hij

theorem traits_rebounded_of_ne {b : Bound} {i : Nat} {other : EntityKind} (ho : other ≠ kind) :
    (t.rebounded b kind i).traits other = t.traits other := by
  cases kind <;> cases other <;> first | rfl | exact absurd rfl ho

theorem traits_priced (t : Tableau) (xs : List Float) (kind : EntityKind) :
    (t.priced xs).traits kind = t.traits kind := by
  cases kind with
  | constraint => rfl
  | var =>
    change (withObjective t.columns xs).map (·.traits) = t.columns.map (·.traits)
    induction t.columns generalizing xs with
    | nil => simp [withObjective]
    | cons c columns ih =>
      cases xs with
      | nil => simp [withObjective]
      | cons x xs =>
        rw [withObjective, List.map_cons, ih]
        rfl

theorem traits_without (t : Tableau) (kind : EntityKind) (i : Nat) :
    (t.without kind i).traits kind = (t.traits kind).eraseIdx i := by
  cases kind with
  | var => exact (List.eraseIdx_map _ _ _).symm
  | constraint => exact (List.eraseIdx_map _ _ _).symm

theorem traits_without_of_ne {other : EntityKind} (ho : other ≠ kind) (i : Nat) :
    (t.without kind i).traits other = t.traits other := by
  cases kind <;> cases other <;> first | exact absurd rfl ho | simp [traits, without, withoutColumn,
    withoutRow, Row.withoutColumn, Row.traits]

end Tableau

namespace Problem

variable {p q : Problem} {kind : EntityKind} {h : Handle kind} {x : Traits} {c : Change}
  {allowed : Change → Prop} {n : Nat}

def typeOf (p : Problem) : (kind : EntityKind) → Handle kind → Outcome (Option VarType)
  | .var, v => do return some (← p.variableType v)
  | .constraint, _ => return none

def traitsOf (p : Problem) (h : Handle kind) : Outcome Traits := do
  let name ← p.nameOf h
  let bound ← p.bound h
  let type ← p.typeOf kind h
  return ⟨name, bound, type⟩

def HasTraits (p : Problem) (h : Handle kind) (x : Traits) : Prop :=
  ∃ i : Nat, (p.handles kind)[i]? = some h ∧ (p.tableau.traits kind)[i]? = some x

section Steps

theorem Consistent.hasTraits (hp : p.Consistent) (hh : h ∈ p.handles kind) :
    ∃ x, p.HasTraits h x := by
  obtain ⟨i, hi⟩ := List.mem_iff_getElem?.mp hh
  have hlt : i < (p.tableau.traits kind).length := by
    rw [Tableau.length_traits]
    exact hp.index_lt (hp.indexOf_eq_ok_iff.mpr hi)
  exact ⟨_, i, hi, List.getElem?_eq_getElem hlt⟩

theorem HasTraits.mem (hx : p.HasTraits h x) : h ∈ p.handles kind := by
  obtain ⟨i, hi, -⟩ := hx
  exact List.mem_of_getElem? hi

theorem HasTraits.traitsOf_eq (hx : p.HasTraits h x) (hp : p.Consistent) :
    p.traitsOf h = .ok x := by
  obtain ⟨i, hh, ht⟩ := hx
  have hi := hp.indexOf_eq_ok_iff.mpr hh
  cases kind with
  | var =>
    obtain ⟨column, hc, rfl⟩ := Option.map_eq_some_iff.mp (List.getElem?_map.symm.trans ht)
    have hn : (p.tableau.names .var)[i]? = some column.name := by simp [Tableau.names, hc]
    have hb : (p.tableau.bounds .var)[i]? = some column.bound := by simp [Tableau.bounds, hc]
    simp only [traitsOf, typeOf, hp.nameOf_eq hi hn, bound_eq hi hb, variableType_eq hi hc,
      Outcome.bind_ok]
    rfl
  | constraint =>
    obtain ⟨row, hr, rfl⟩ := Option.map_eq_some_iff.mp (List.getElem?_map.symm.trans ht)
    have hn : (p.tableau.names .constraint)[i]? = some row.name := by simp [Tableau.names, hr]
    have hb : (p.tableau.bounds .constraint)[i]? = some row.bound := by simp [Tableau.bounds, hr]
    simp only [traitsOf, typeOf, hp.nameOf_eq hi hn, bound_eq hi hb, Outcome.bind_ok]
    rfl

theorem HasTraits.congr (hx : p.HasTraits h x) (hh : q.handles kind = p.handles kind)
    (ht : q.tableau.traits kind = p.tableau.traits kind) : q.HasTraits h x := by
  unfold HasTraits
  rw [hh, ht]
  exact hx

theorem HasTraits.append (hx : p.HasTraits h x) {added : List (Handle kind)} {more : List Traits}
    (hh : q.handles kind = p.handles kind ++ added)
    (ht : q.tableau.traits kind = p.tableau.traits kind ++ more) : q.HasTraits h x := by
  obtain ⟨i, hi, hxi⟩ := hx
  refine ⟨i, ?_, ?_⟩
  · rw [hh, List.getElem?_append_left (List.getElem?_eq_some_iff.mp hi).1]
    exact hi
  · rw [ht, List.getElem?_append_left (List.getElem?_eq_some_iff.mp hxi).1]
    exact hxi

theorem HasTraits.revised (hx : p.HasTraits h x) (hp : p.Consistent) {t : Tableau} {g : Handle kind}
    (hg : g ∈ p.handles kind) (hne : h ≠ g)
    (ht : ∀ j, (p.handles kind).idxOf g ≠ j → (t.traits kind)[j]? = (p.tableau.traits kind)[j]?) :
    (p.revised t).HasTraits h x := by
  obtain ⟨i, hi, hxi⟩ := hx
  refine ⟨i, hi, (ht i ?_).trans hxi⟩
  rintro rfl
  have hat := hp.indexOf_eq_ok_iff.mp (hp.indexOf_of_mem hg)
  rw [hi, Option.some.injEq] at hat
  exact hne hat

theorem Step.hasTraits (hp : p.Consistent) (hs : Step c p q) (hx : p.HasTraits h x)
    (hb : c ≠ .bound kind h) (hr : c ≠ .removal kind h) : q.HasTraits h x := by
  cases hs with
  | column =>
    cases kind with
    | var => exact hx.append (vars_withColumn _ _) List.map_append
    | constraint => exact hx.congr rfl rfl
  | row =>
    cases kind with
    | var => exact hx.congr rfl rfl
    | constraint => exact hx.append (constraints_withRow _ _) List.map_append
  | @bound _ other g b hg =>
    by_cases ho : kind = other
    · subst ho
      exact hx.revised hp hg (fun he => hb (by rw [he])) fun j hj =>
        Tableau.traits_rebounded hj kind kind
    · exact hx.congr (by cases kind <;> rfl) (Tableau.traits_rebounded_of_ne ho)
  | @type _ v type hv =>
    cases kind with
    | var =>
      exact hx.revised hp hv (fun he => hb (by rw [he])) fun j hj =>
        Tableau.map_modify_getElem? _ _ hj
    | constraint => exact hx.congr rfl rfl
  | entries =>
    cases kind with
    | var => exact hx.congr rfl rfl
    | constraint => exact hx.congr rfl (Tableau.map_modify fun _ => rfl)
  | prices => exact hx.congr (by cases kind <;> rfl) (Tableau.traits_priced _ _ _)
  | @removal _ other g tenant hg ht =>
    by_cases ho : kind = other
    · subst ho
      obtain ⟨i, hi, hxi⟩ := hx
      have hne : i ≠ tenant.index := hp.ne_index hg ht hi fun he => hr (by rw [he])
      refine ⟨if tenant.index < i then i - 1 else i, ?_, ?_⟩
      · rw [handles_without]
        exact (Table.eraseIdx_moved _ hne).trans hi
      · have htraits : (p.without g tenant).tableau.traits kind =
            (p.tableau.traits kind).eraseIdx tenant.index := Tableau.traits_without _ _ _
        rw [htraits]
        exact (Table.eraseIdx_moved _ hne).trans hxi
    · exact hx.congr (handles_without_of_ne p ho g tenant) (Tableau.traits_without_of_ne ho _)
  | _ => cases kind <;> exact hx.congr rfl rfl

theorem Steps.hasTraits (hp : p.Consistent) (hs : Steps allowed p n q)
    (ha : ∀ c, allowed c → c ≠ .bound kind h ∧ c ≠ .removal kind h) (hx : p.HasTraits h x) :
    q.HasTraits h x := by
  induction hs with
  | refl => exact hx
  | tail hs' hc hstep ih =>
    exact hstep.hasTraits (hs'.consistent hp) ih (ha _ hc).1 (ha _ hc).2

theorem Steps.handles_append (hs : Steps allowed p n q) (hn : n = 0) (kind : EntityKind) :
    ∃ added, q.handles kind = p.handles kind ++ added := by
  induction hs with
  | refl => exact ⟨[], (List.append_nil _).symm⟩
  | tail hs' _ hstep ih =>
    obtain ⟨added, ha⟩ := ih (by omega)
    obtain ⟨more, hm⟩ := hstep.handles_append (by omega) kind
    exact ⟨added ++ more, by rw [hm, ha, List.append_assoc]⟩

end Steps

end Problem

namespace Operation

open Problem

variable {p : Problem} {kind : EntityKind} {h : Handle kind}

def targets : Operation → List ((kind : EntityKind) × Handle kind)
  | dispose kind h | setBound kind h _ | setLowerBound kind h _ | setUpperBound kind h _ =>
    [⟨kind, h⟩]
  | setVariableType v _ => [⟨.var, v⟩]
  | setLinear c _ | release c => [⟨.constraint, c⟩]
  | restoreBounds kind s => s.bounds.keys.map (Sigma.mk kind)
  | _ => []

theorem ne_of_not_target {op : Operation} (ht : ⟨kind, h⟩ ∉ op.targets) {c : Change}
    (hc : op.changes c) : c ≠ .bound kind h ∧ c ≠ .removal kind h := by
  cases op with
  | dispose other g | setBound other g | setLowerBound other g | setUpperBound other g
  | setVariableType v | release g =>
    obtain rfl := hc
    constructor
    all_goals rintro ⟨⟩
    exact ht List.mem_cons_self
  | restoreBounds other s =>
    obtain ⟨g, hg, rfl⟩ := hc
    constructor
    · rintro ⟨⟩
      exact ht (List.mem_map_of_mem hg)
    · rintro ⟨⟩
  | append | load =>
    simp only [changes, List.mem_cons, List.not_mem_nil, or_false] at hc
    obtain rfl | rfl | rfl | rfl | rfl := hc <;> simp
  | _ =>
    obtain rfl := hc
    simp

theorem handles_cases (op : Operation) (hp : p.Consistent) (hcap : p.InCapacity)
    (hroom : (op.after p).InCapacity) (kind : EntityKind) :
    (∃ g, op.disposed? = some ⟨kind, g⟩ ∧ g ∈ p.handles kind ∧
        (op.after p).handles kind = (p.handles kind).eraseIdx ((p.handles kind).idxOf g)) ∨
      (∀ g, op.disposed? = some ⟨kind, g⟩ → g ∉ p.handles kind) ∧
        ∃ added, (op.after p).handles kind = p.handles kind ++ added := by
  have hsteps := op.steps hp hcap hroom
  cases hd : op.disposed? with
  | none =>
    have hzero : op.disposals p = 0 := by rw [disposals, hd]
    exact .inr ⟨by simp, hsteps.handles_append hzero kind⟩
  | some target =>
    obtain ⟨other, g⟩ := target
    by_cases hg : g ∈ p.handles other
    · have hstep := op.step_of_disposed hp hg hd
      by_cases ho : kind = other
      · subst ho
        exact .inl ⟨g, rfl, hg, hstep.handles_erase hp⟩
      · right
        refine ⟨?_, [], by rw [hstep.handles_other ho, List.append_nil]⟩
        rintro g' ⟨⟩
        exact absurd rfl ho
    · have hzero : op.disposals p = 0 := by
        rw [disposals, hd]
        exact if_pos (hp.isDisposed_iff.mpr hg)
      right
      refine ⟨?_, hsteps.handles_append hzero kind⟩
      rintro g' ⟨⟩
      exact hg

def Lowers (op : Operation) (p : Problem) (kind : EntityKind) (i : Nat) : Prop :=
  ∃ (g : Handle kind) (k : Nat), op.disposed? = some ⟨kind, g⟩ ∧ p.indexOf g = .ok k ∧ k < i

/-- The entity is live before and after the operation, with the same traits, and its index is lower
by one if an entity before it goes. -/
structure Leaves (op : Operation) (p : Problem) (h : Handle kind) : Prop where
  live : h ∈ (op.after p).handles kind
  traits : ∃ x, p.traitsOf h = .ok x ∧ (op.after p).traitsOf h = .ok x
  index : ∃ i, p.indexOf h = .ok i ∧
    (op.Lowers p kind i → 0 < i ∧ (op.after p).indexOf h = .ok (i - 1)) ∧
    (¬ op.Lowers p kind i → (op.after p).indexOf h = .ok i)

theorem mem_targets_of_disposed {op : Operation} (hd : op.disposed? = some ⟨kind, h⟩) :
    ⟨kind, h⟩ ∈ op.targets := by
  cases op with
  | dispose other g =>
    cases hd
    exact List.mem_cons_self
  | release g =>
    cases hd
    exact List.mem_cons_self
  | _ => cases hd

theorem leaves (op : Operation) (hp : p.Consistent) (hcap : p.InCapacity)
    (hroom : (op.after p).InCapacity) (hh : h ∈ p.handles kind) (ht : ⟨kind, h⟩ ∉ op.targets) :
    op.Leaves p h := by
  have hsteps := op.steps hp hcap hroom
  have hq := hsteps.consistent hp
  obtain ⟨x, hx⟩ := hp.hasTraits hh
  have hx' := hsteps.hasTraits hp (fun c hc => ne_of_not_target ht hc) hx
  have hi := hp.indexOf_of_mem hh
  have hat := hp.indexOf_eq_ok_iff.mp hi
  refine ⟨hx'.mem, ⟨x, hx.traitsOf_eq hp, hx'.traitsOf_eq hq⟩, _, hi, ?_⟩
  obtain ⟨g, hd, hg, hhandles⟩ | ⟨hnone, added, hhandles⟩ := op.handles_cases hp hcap hroom kind
  · have hgi := hp.indexOf_of_mem hg
    have hgh : g ≠ h := by
      rintro rfl
      exact ht (mem_targets_of_disposed hd)
    have hne : (p.handles kind).idxOf h ≠ (p.handles kind).idxOf g := by
      intro he
      have hgat := hp.indexOf_eq_ok_iff.mp hgi
      rw [← he, hat, Option.some.injEq] at hgat
      exact hgh hgat.symm
    have hmoved := Table.eraseIdx_moved (p.handles kind) hne
    rw [← hhandles, hat] at hmoved
    constructor
    · rintro ⟨g', k, hd', hk, hlt⟩
      rw [hd, Option.some.injEq, Sigma.mk.injEq, heq_eq_eq] at hd'
      obtain ⟨-, rfl⟩ := hd'
      rw [hgi, Except.ok.injEq] at hk
      subst hk
      rw [if_pos hlt] at hmoved
      exact ⟨by omega, hq.indexOf_eq_ok_iff.mpr hmoved⟩
    · intro hlow
      rw [if_neg fun hlt => hlow ⟨g, _, hd, hgi, hlt⟩] at hmoved
      exact hq.indexOf_eq_ok_iff.mpr hmoved
  · constructor
    · rintro ⟨g, k, hd, hk, -⟩
      exact absurd (hp.indexOf_eq_ok_iff_idxOf.mp hk).1 (hnone g hd)
    · intro _
      rw [hq.indexOf_eq_ok_iff, hhandles,
        List.getElem?_append_left (List.getElem?_eq_some_iff.mp hat).1]
      exact hat

theorem ordered (op : Operation) (hp : p.Consistent) (hcap : p.InCapacity)
    (hroom : (op.after p).InCapacity) (kind : EntityKind) :
    ∃ added, (op.after p).handles kind =
        (p.handles kind).filter (· ∈ (op.after p).handles kind) ++ added ∧
      ∀ h ∈ added, h ∉ p.handles kind := by
  have hq := (op.steps hp hcap hroom).consistent hp
  have hd := hq.handles_nodup kind
  obtain ⟨g, -, hg, hhandles⟩ | ⟨-, added, hhandles⟩ := op.handles_cases hp hcap hroom kind
  · refine ⟨[], ?_, nofun⟩
    have herase : (op.after p).handles kind = (p.handles kind).filter (· != g) := by
      rw [hhandles, ← List.erase_eq_eraseIdx_of_idxOf rfl, (hp.handles_nodup kind).erase_eq_filter]
    rw [List.append_nil, herase]
    refine List.filter_congr fun h hh => ?_
    rw [Bool.eq_iff_iff]
    simp [hh]
  · refine ⟨added, ?_, ?_⟩
    · have hall : (p.handles kind).filter (· ∈ (op.after p).handles kind) = p.handles kind := by
        rw [List.filter_eq_self]
        intro h hh
        rw [decide_eq_true_eq, hhandles]
        exact List.mem_append_left _ hh
      rw [hall, hhandles]
    · rw [hhandles, List.nodup_append'] at hd
      exact fun h hh hm => hd.2.2 hm hh

end Operation

namespace Problem

variable {p q r : Problem} {kind : EntityKind}
  {g : (kind : EntityKind) × Handle kind} {gs : List ((kind : EntityKind) × Handle kind)}

def disposeAll (gs : List ((kind : EntityKind) × Handle kind)) (p : Problem) : Problem :=
  gs.foldl (fun q g => (Operation.dispose g.1 g.2).after q) p

/-- What is left of one problem is another, and nothing else is there. -/
structure Lacks (gs : List ((kind : EntityKind) × Handle kind)) (p q : Problem) : Prop where
  consistent : q.Consistent
  handles : ∀ kind, q.handles kind = (p.handles kind).filter (⟨kind, ·⟩ ∉ gs)
  traits : ∀ kind (h : Handle kind) x, ⟨kind, h⟩ ∉ gs → p.HasTraits h x → q.HasTraits h x

theorem Lacks.refl (hp : p.Consistent) (hg : ∀ kind, ∀ h ∈ p.handles kind, ⟨kind, h⟩ ∉ gs) :
    Lacks gs p p := by
  refine ⟨hp, fun kind => ?_, fun _ _ _ _ hx => hx⟩
  rw [eq_comm, List.filter_eq_self]
  exact fun h hh => decide_eq_true (hg kind h hh)

theorem Lacks.cons (h : Lacks [g] p q) (h' : Lacks gs q r) : Lacks (g :: gs) p r where
  consistent := h'.consistent
  handles kind := by
    rw [h'.handles, h.handles, List.filter_filter]
    refine List.filter_congr fun h _ => ?_
    rw [Bool.eq_iff_iff]
    simp [and_comm]
  traits kind h₁ x hh hx := by
    rw [List.mem_cons, not_or] at hh
    exact h'.traits kind h₁ x hh.2 (h.traits kind h₁ x (by simpa using hh.1) hx)

theorem lacks_dispose (hp : p.Consistent) {other : EntityKind} (g : Handle other) :
    Lacks [⟨other, g⟩] p ((Operation.dispose other g).after p) := by
  by_cases hg : g ∈ p.handles other
  · have hstep : Step (.removal other g) p ((Operation.dispose other g).after p) :=
      Operation.step_of_disposed hp hg rfl
    refine ⟨hstep.consistent hp, fun kind => ?_, fun kind h x hh hx => ?_⟩
    · by_cases ho : kind = other
      · subst ho
        rw [hstep.handles_erase hp, ← List.erase_eq_eraseIdx_of_idxOf rfl,
          (hp.handles_nodup kind).erase_eq_filter]
        refine List.filter_congr fun h _ => ?_
        rw [Bool.eq_iff_iff]
        simp
      · rw [hstep.handles_other ho, eq_comm, List.filter_eq_self]
        simp [ho]
    · refine hstep.hasTraits hp hx nofun fun he => hh ?_
      cases he
      exact List.mem_cons_self
  · have hafter : (Operation.dispose other g).after p = p := by
      have hm := (hp.moves_dispose g).answered fun _ => Answer.nothing
      rw [if_pos (hp.isDisposed_iff.mpr hg)] at hm
      obtain ⟨-, ⟨e, he⟩ | ⟨a, ha⟩⟩ | ⟨h0, -⟩ := hm
      · exact Edit.final_error he
      · exact Edit.final_ok ha
      · exact absurd h0 Nat.zero_ne_one
    rw [hafter]
    refine Lacks.refl hp fun kind h hh hm => ?_
    rw [List.mem_singleton] at hm
    cases hm
    exact hg hh

theorem lacks_disposeAll (hp : p.Consistent)
    (gs : List ((kind : EntityKind) × Handle kind)) : Lacks gs p (disposeAll gs p) := by
  induction gs generalizing p with
  | nil => exact Lacks.refl hp fun _ _ _ => List.not_mem_nil
  | cons g gs ih =>
    have hg := lacks_dispose hp g.2
    exact hg.cons (ih hg.consistent)

structure SameEntities (p q : Problem) : Prop where
  handles : ∀ kind, q.handles kind = p.handles kind
  index : ∀ kind, ∀ h ∈ p.handles kind, ∃ i, p.indexOf h = .ok i ∧ q.indexOf h = .ok i
  traits : ∀ kind, ∀ h ∈ p.handles kind, ∃ x, p.traitsOf h = .ok x ∧ q.traitsOf h = .ok x

theorem Lacks.mem {kind : EntityKind} {h : Handle kind} (hq : Lacks gs p q)
    (hh : h ∈ q.handles kind) : h ∈ p.handles kind ∧ ⟨kind, h⟩ ∉ gs := by
  rw [hq.handles, List.mem_filter] at hh
  exact ⟨hh.1, of_decide_eq_true hh.2⟩

theorem Lacks.sameEntities (hp : p.Consistent) (hq : Lacks gs p q) (hr : Lacks gs p r) :
    SameEntities q r where
  handles kind := (hr.handles kind).trans (hq.handles kind).symm
  index kind h hh := by
    have hi := hq.consistent.indexOf_of_mem hh
    refine ⟨_, hi, ?_⟩
    rw [hr.consistent.indexOf_eq_ok_iff, hr.handles, ← hq.handles]
    exact hq.consistent.indexOf_eq_ok_iff.mp hi
  traits kind h hh := by
    obtain ⟨hm, hg⟩ := hq.mem hh
    obtain ⟨x, hx⟩ := hp.hasTraits hm
    exact ⟨x, (hq.traits kind h x hg hx).traitsOf_eq hq.consistent,
      (hr.traits kind h x hg hx).traitsOf_eq hr.consistent⟩

/-- An operation leaves what it does not aim at, and the order. So it does not matter in which order
entities are disposed, nor how often. -/
theorem attributes_stay (hp : p.Reachable) :
    (∀ op : Operation, (op.after p).InCapacity → ∀ kind,
      (∀ h ∈ p.handles kind, ⟨kind, h⟩ ∉ op.targets → op.Leaves p h) ∧
        ∃ added, (op.after p).handles kind =
            (p.handles kind).filter (· ∈ (op.after p).handles kind) ++ added ∧
          ∀ h ∈ added, h ∉ p.handles kind) ∧
      ∀ gs gs' : List ((kind : EntityKind) × Handle kind), (∀ g, g ∈ gs ↔ g ∈ gs') →
        SameEntities (disposeAll gs p) (disposeAll gs' p) ∧ ∀ kind,
          (disposeAll gs p).handles kind = (p.handles kind).filter (⟨kind, ·⟩ ∉ gs) ∧
            ∀ h ∈ (disposeAll gs p).handles kind,
              ∃ x, p.traitsOf h = .ok x ∧ (disposeAll gs p).traitsOf h = .ok x := by
  have hc := hp.consistent
  refine ⟨fun op hroom kind => ⟨fun h hh ht => op.leaves hc hp.inCapacity hroom hh ht,
    op.ordered hc hp.inCapacity hroom kind⟩, fun gs gs' hsame => ?_⟩
  have hq := lacks_disposeAll hc gs
  have hr : Lacks gs p (disposeAll gs' p) := by
    obtain ⟨hconsistent, hhandles, htraits⟩ := lacks_disposeAll hc gs'
    simp only [← hsame] at hhandles htraits
    exact ⟨hconsistent, hhandles, htraits⟩
  refine ⟨hq.sameEntities hc hr, fun kind => ⟨hq.handles kind, fun h hh => ?_⟩⟩
  obtain ⟨hm, hg⟩ := hq.mem hh
  obtain ⟨x, hx⟩ := hc.hasTraits hm
  exact ⟨x, hx.traitsOf_eq hc, (hq.traits kind h x hg hx).traitsOf_eq hq.consistent⟩

theorem attributes_stay_paired :
    let x : Variable := ⟨⟨0⟩, ⟨0, 0⟩⟩
    let y : Variable := ⟨⟨0⟩, ⟨1, 0⟩⟩
    let c : Constraint := ⟨⟨0⟩, ⟨0, 0⟩⟩
    ((Operation.dispose .var x).after paired).InCapacity ∧
      (Operation.dispose .var x).Leaves paired y ∧
      SameEntities (disposeAll [⟨.var, x⟩, ⟨.constraint, c⟩, ⟨.var, x⟩] paired)
        (disposeAll [⟨.constraint, c⟩, ⟨.var, x⟩] paired) := by
  intro x y c
  have hroom : ((Operation.dispose .var x).after paired).InCapacity := by decide +kernel
  obtain ⟨hops, hlists⟩ := attributes_stay reachable_paired
  refine ⟨hroom, (hops (.dispose .var x) hroom .var).1 y (by decide +kernel) (by decide), ?_⟩
  refine (hlists _ _ fun g => ?_).1
  simp only [List.mem_cons, List.not_mem_nil, or_false]
  tauto

end Problem

end LinearProgram
