import LinearProgram.Proofs.Problem.Lasting
import LinearProgram.Proofs.Problem.Naming
import LinearProgram.Proofs.Snapshot.Restoring

namespace LinearProgram

theorem Linear.Shows.unique {l m : Option Linear} {ts : List Term} (hl : Linear.Shows l ts)
    (hm : Linear.Shows m ts) : l = m := by
  cases l with
  | none => exact (hm.absent.mpr (hl.absent.mp rfl)).symm
  | some l =>
    cases m with
    | none => exact hl.absent.mpr (hm.absent.mp rfl)
    | some m =>
      have hterms : l.terms = m.terms := hl.terms.trans hm.terms.symm
      rw [← Linear.ofTerms_terms l, hterms, Linear.ofTerms_terms]

namespace Problem

variable {p q : Problem} {kind : EntityKind} {c g : Constraint} {row : Row} {l : Option Linear}
  {name : String} {b : Bound} {change : Change}

section Rows

theorem HasRow.shows (h : p.HasRow c row) (hp : p.Consistent) :
    ∃ l, p.linear c = .ok l ∧ Linear.Shows l (p.termsAt row) := by
  obtain ⟨l, hl, hterms, habsent, -⟩ := h.linear_eq hp
  exact ⟨l, hl, hterms, habsent⟩

theorem HasRow.linear_eq_of_shows (h : p.HasRow c row) (hp : p.Consistent)
    (hl : Linear.Shows l (p.termsAt row)) : p.linear c = .ok l := by
  obtain ⟨m, hm, hshows⟩ := h.shows hp
  rw [hm, hshows.unique hl]

theorem HasRow.number (h : p.HasRow c row) (hp : p.Consistent) {t : Term}
    (ht : t ∈ p.termsAt row) : t.coefficient.isNaN = false := by
  obtain ⟨e, he, rfl⟩ := List.mem_map.mp ht
  exact (h.proper hp).number e he

theorem Step.linear_eq (hp : p.Consistent) (hs : Step change p q) (hvars : q.vars = p.vars)
    (hc : c ∈ p.constraints) (he : change ≠ .entries c) (hr : change ≠ .removal .constraint c) :
    q.linear c = p.linear c := by
  obtain ⟨row, hrow⟩ := hp.hasRow hc
  obtain ⟨l, hl, hshows⟩ := hrow.shows hp
  obtain ⟨row', hrow', hterms⟩ := hs.hasRow hp hrow he hr
  have hkept : (p.termsAt row).filter (·.var ∈ q.vars) = p.termsAt row := by
    rw [List.filter_eq_self]
    intro t ht
    rw [decide_eq_true_eq, hvars]
    exact hrow.live hp ht
  rw [hl]
  refine hrow'.linear_eq_of_shows (hs.consistent hp) ?_
  rwa [hterms, hkept]

end Rows

section Adding

theorem Consistent.addConstraint_settled (hp : p.Consistent) (hn : name ≠ "")
    (hs : name.utf8ByteSize ≤ nameLimit) (hb : b.hasNaN = false)
    (hl : ∀ t ∈ Linear.termsOf l, t.coefficient.isNaN = false) :
    ((∃ g q, addConstraint name l b p = .ok g q) ↔
      name ∉ p.tableau.names .constraint ∧ ∀ t ∈ Linear.termsOf l, t.var ∈ p.vars) ∧
    (name ∈ p.tableau.names .constraint →
      addConstraint name l b p = .error (.refused (.duplicateName .constraint name)) p) ∧
    (name ∉ p.tableau.names .constraint → (¬ ∀ t ∈ Linear.termsOf l, t.var ∈ p.vars) →
      ∃ fault, addConstraint name l b p = .error (.refused (.invalid fault)) p) := by
  refine ⟨⟨?_, fun ⟨ht, hv⟩ => ?_⟩, fun ht => ask_refused (hp.checkName_taken (.inr ht)) _,
    fun ht hv => ?_⟩
  · rintro ⟨g, q, hx⟩
    obtain hr | ⟨⟨hn, hl, -⟩, -⟩ := hp.addConstraint_cases name l b
    · exact absurd hx hr.not_ok
    · exact ⟨hn.unused, fun t ht => (hl t ht).2⟩
  · exact ⟨_, _, hp.addConstraint_eq ⟨hn, ht, hs⟩ (fun t htm => ⟨hl t htm, hv t htm⟩) hb⟩
  · cases hr : p.resolve l with
    | ok entries => exact absurd (fun t htm => ((hp.resolve_eq_ok_iff.mp hr).1 t htm).2) hv
    | error e =>
      obtain ⟨fault, rfl⟩ := resolve_error hr
      refine ⟨fault, ?_⟩
      rw [addConstraint, ask_passed (hp.checkName_eq_ok_iff.mpr ⟨hn, ht, hs⟩), ask_refused hr]

end Adding

end Problem

namespace Process

open Problem (Change Step)

variable {p q : Problem} {j : Nat}

theorem Follows.notMem_of_added {new : List Event} {kind : EntityKind} {g : Handle kind}
    {r : Problem} {change : Change} (hf : Follows new j p q) (hp : p.Consistent)
    (hn : disposals new j < 2 ^ 32) (hs : Step change q r) (hr : change.removals = 0)
    (hlast : r.handles kind = q.handles kind ++ [g]) : g ∉ p.handles kind := by
  intro hg
  have hd := (hs.consistent hf.reachable.consistent).handles_nodup kind
  rw [hlast] at hd
  have hlive : g ∈ r.handles kind := by
    rw [hlast]
    exact List.mem_append_right _ (List.mem_singleton_self g)
  have hback := hf.steps.live_between hp (.single trivial hs) (by rw [hr]; exact hn) hg hlive
  exact List.disjoint_of_nodup_append hd hback (List.mem_singleton_self g)

end Process

namespace ConstraintSnapshot

open Problem Process

variable {s : ConstraintSnapshot} {p lp q : Problem} {c g : Constraint} {w w' : Process}
  {log new : List Process.Event} {i j : Nat}

def terms (s : ConstraintSnapshot) : List Term := Linear.termsOf (s.linear.map FrozenLinear.thaw)

def row (s : ConstraintSnapshot) (lp : Problem) : Row :=
  ⟨s.name, s.bound, lp.rowOf (s.linear.map FrozenLinear.thaw)⟩

structure Proper (s : ConstraintSnapshot) : Prop where
  nonempty : s.name ≠ ""
  short : s.name.utf8ByteSize ≤ nameLimit
  bound : s.bound.hasNaN = false
  number : ∀ t ∈ s.terms, t.coefficient.isNaN = false
  absent : s.linear = none ↔ s.terms = []

/-- The constraint is back in `q`, as `g`, and nothing else of `lp` is different. -/
structure Readmits (s : ConstraintSnapshot) (lp : Problem) (g : Constraint) (q : Problem) :
    Prop where
  constraints : q.constraints = lp.constraints ++ [g]
  nameOf : q.nameOf g = .ok s.name
  linear : q.linear g = .ok (s.linear.map FrozenLinear.thaw)
  bound : q.bound g = .ok s.bound
  vars : q.vars = lp.vars
  traitsOf : ∀ kind, ∀ h ∈ lp.handles kind, q.traitsOf h = lp.traitsOf h
  linearOf : ∀ c ∈ lp.constraints, q.linear c = lp.linear c
  objectiveLinear : q.objectiveLinear = lp.objectiveLinear
  direction : q.direction = lp.direction
  name : q.name = lp.name
  objectiveName : q.objectiveName = lp.objectiveName
  status : q.status = .unknown
  solution : q.solution = none

theorem capture_eq_ok_iff : capture p c = .ok s ↔ p.nameOf c = .ok s.name ∧
    p.linear c = .ok (s.linear.map FrozenLinear.thaw) ∧ p.bound c = .ok s.bound := by
  have hthaw (l : Option Linear) : (l.map Linear.freeze).map FrozenLinear.thaw = l := by
    cases l <;> rfl
  have hfreeze (l : Option FrozenLinear) : (l.map FrozenLinear.thaw).map Linear.freeze = l := by
    cases l <;> rfl
  simp only [capture, Outcome.bind_eq_ok]
  constructor
  · rintro ⟨name, hname, l, hl, b, hb, ⟨⟩⟩
    rw [hthaw]
    exact ⟨hname, hl, hb⟩
  · rintro ⟨hname, hl, hb⟩
    refine ⟨_, hname, _, hl, _, hb, ?_⟩
    rw [hfreeze]
    rfl

theorem proper_of_capture (hp : p.Consistent) (hc : c ∈ p.constraints)
    (hs : capture p c = .ok s) : s.Proper := by
  obtain ⟨hname, hl, hb⟩ := capture_eq_ok_iff.mp hs
  have hmem := hp.mem_names_iff.mpr ⟨c, hc, hname⟩
  obtain ⟨b, hb', hnumber⟩ := hp.bound_of_mem hc
  obtain ⟨row, hrow⟩ := hp.hasRow hc
  obtain ⟨l, hl', hshows⟩ := hrow.shows hp
  rw [hb, Except.ok.injEq] at hb'
  rw [hl, Except.ok.injEq] at hl'
  rw [← hl'] at hshows
  have hterms : s.terms = p.termsAt row := hshows.terms
  refine ⟨?_, hp.sound.short .constraint _ hmem, hb' ▸ hnumber, fun t ht => ?_, ?_⟩
  · intro he
    exact (hp.lists .constraint).nonempty (he ▸ hmem)
  · exact hrow.number hp (hterms ▸ ht)
  · rw [hterms, ← hshows.absent, Option.map_eq_none_iff]

theorem restore_settled (hp : lp.Consistent) (hs : s.Proper) :
    ((∃ g q, s.restore lp = .ok g q) ↔
      s.name ∉ lp.tableau.names .constraint ∧ ∀ t ∈ s.terms, t.var ∈ lp.vars) ∧
    (s.name ∈ lp.tableau.names .constraint →
      s.restore lp = .error (.refused (.duplicateName .constraint s.name)) lp) ∧
    (s.name ∉ lp.tableau.names .constraint → (¬ ∀ t ∈ s.terms, t.var ∈ lp.vars) →
      ∃ fault, s.restore lp = .error (.refused (.invalid fault)) lp) :=
  hp.addConstraint_settled hs.nonempty hs.short hs.bound hs.number

theorem restore_cases (hp : lp.Consistent) (hx : s.restore lp = .ok g q) (hq : q.InCapacity) :
    Step .row lp q ∧ lp.Takes (s.linear.map FrozenLinear.thaw) ∧ g = lp.nextHandle .constraint ∧
      q = lp.withRow (s.row lp) := by
  obtain hr | ⟨⟨hn, hl, hb⟩, ha⟩ := hp.addConstraint_cases s.name
    (s.linear.map FrozenLinear.thaw) s.bound
  · exact absurd hx hr.not_ok
  · cases hx.symm.trans ha
    exact ⟨.row (lt_capacity_of_withRow hq) hn hb hl, hl, rfl, rfl⟩

theorem readmits_of_restore (hp : lp.Consistent) (hs : s.Proper) (hx : s.restore lp = .ok g q)
    (hq : q.InCapacity) : s.Readmits lp g q := by
  obtain ⟨hstep, hl, rfl, rfl⟩ := restore_cases hp hx hq
  have hc := hstep.consistent hp
  have hadded := hp.hasRow_withRow (s.row lp)
  have ⟨i, hg, hrow⟩ := hadded
  have hi := hc.indexOf_eq_ok_iff.mpr hg
  refine ⟨constraints_withRow _ _, hc.nameOf_eq hi ?_, ?_, bound_eq hi ?_, rfl,
    fun kind h hh => ?_, fun c hm => hstep.linear_eq hp rfl hm (by simp) (by simp), rfl, rfl, rfl, rfl,
    rfl, rfl⟩
  · rw [Tableau.names, List.getElem?_map, hrow]
    rfl
  · have hterms : (lp.withRow (s.row lp)).termsAt (s.row lp) = s.terms := map_termAt_rowOf hl
    refine hadded.linear_eq_of_shows hc ⟨hterms.symm, ?_⟩
    rw [Option.map_eq_none_iff, hs.absent, hterms]
  · rw [Tableau.bounds, List.getElem?_map, hrow]
    rfl
  · obtain ⟨x, hx⟩ := hp.hasTraits hh
    rw [hx.traitsOf_eq hp, (hstep.hasTraits hp hx (by simp) (by simp)).traitsOf_eq hc]

theorem notMem_of_restore (hl : Later w w' new) (hp : w.problems[j]? = some p)
    (hr : p.Reachable) (hlp : w'.problems[j]? = some lp) (hn : disposals new j < 2 ^ 32)
    (hx : s.restore lp = .ok g q) (hq : q.InCapacity) : g ∉ p.constraints := by
  obtain ⟨r, hr', hf⟩ := hl.follows hp hr
  cases hlp.symm.trans hr'
  obtain ⟨hstep, -, rfl, rfl⟩ := restore_cases hf.reachable.consistent hx hq
  exact hf.notMem_of_added hr.consistent hn hstep rfl (constraints_withRow _ _)

/-- A constraint can be added again exactly when none that is live has its name and all the
variables of its row are live in the same problem. It comes last, under a handle that was never
given before, and it is as it was captured. -/
theorem readmits_of_run (hw : Run w log) (hp : w.problems[i]? = some p) (hc : c ∈ p.constraints) :
    ∃ s, capture p c = .ok s ∧ (∃ q, release c p = .ok s q) ∧ p.nameOf c = .ok s.name ∧
      p.linear c = .ok (s.linear.map FrozenLinear.thaw) ∧ p.bound c = .ok s.bound ∧
      (s.linear = none ↔ s.terms = []) ∧
      ∀ {w' new j lp}, Later w w' new → w'.problems[j]? = some lp →
        w'.problems.length < 2 ^ 32 → (∀ k, disposals (log ++ new) k < 2 ^ 32) →
          let taken := ∃ h ∈ lp.constraints, lp.nameOf h = .ok s.name
          let standing := ∀ t ∈ s.terms, Standing (log ++ new) j t.var
          ((∃ g q, s.restore lp = .ok g q) ↔ ¬ taken ∧ standing) ∧
          (∀ g q, s.restore lp = .ok g q → q.InCapacity → s.Readmits lp g q ∧ g ≠ c ∧
            ∀ {w₀ log₀ new₀ p₀}, Run w₀ log₀ → Later w₀ w' new₀ → w₀.problems[j]? = some p₀ →
              disposals new₀ j < 2 ^ 32 → g ∉ p₀.constraints) ∧
          (taken → s.restore lp = .error (.refused (.duplicateName .constraint s.name)) lp) ∧
          (¬ taken → ¬ standing → ∃ fault, s.restore lp = .error (.refused (.invalid fault)) lp) := by
  have hr := hw.reachable p (List.mem_of_getElem? hp)
  obtain ⟨s, hs⟩ := hr.consistent.capture_eq hc
  obtain ⟨tenant, ht⟩ := hr.consistent.tenant_of_mem hc
  have hproper := proper_of_capture hr.consistent hc hs
  obtain ⟨hname, hlinear, hbound⟩ := capture_eq_ok_iff.mp hs
  refine ⟨s, hs, ⟨_, hr.consistent.release_eq hc ht hs⟩, hname, hlinear, hbound,
    hproper.absent, fun {w' new j lp} hlater hlp hlen hn => ?_⟩
  have ha := (hw.later hlater).accounted hlen hn
  have hlpc := (ha.tracks j lp hlp).reachable.consistent
  intro taken standing
  have htaken : s.name ∈ lp.tableau.names .constraint ↔ taken := hlpc.mem_names_iff
  have hstanding : (∀ t ∈ s.terms, t.var ∈ lp.vars) ↔ standing :=
    forall₂_congr fun t _ => ha.mem_vars_iff hlp
  obtain ⟨hiff, hduplicate, hinvalid⟩ := restore_settled hlpc hproper
  rw [htaken, hstanding] at hiff hinvalid
  rw [htaken] at hduplicate
  refine ⟨hiff, fun g q hx hq => ⟨readmits_of_restore hlpc hproper hx hq, ?_,
    fun {w₀ log₀ new₀ p₀} hw₀ hlater₀ hp₀ hn₀ => ?_⟩, hduplicate, hinvalid⟩
  -- the problems of two handles that are equal have one id, so they are one problem
  · rintro rfl
    obtain ⟨r, hr', hf⟩ := hlater.follows hp hr
    have hid : lp.id = r.id := by
      obtain ⟨-, -, hg, -⟩ := restore_cases hlpc hx hq
      rw [hf.steps.id_eq, ← problem_of_mem hc, hg]
      rfl
    obtain rfl : j = i := ha.eq_of_id hlp hr' hid
    have hnew := hn j
    rw [disposals_append] at hnew
    exact notMem_of_restore hlater hp hr hlp (by omega) hx hq hc
  · have hr₀ := hw₀.reachable p₀ (List.mem_of_getElem? hp₀)
    exact notMem_of_restore hlater₀ hp₀ hr₀ hlp hn₀ hx hq

theorem readmits_reused :
    let x : Variable := ⟨⟨0⟩, ⟨0, 0⟩⟩
    let c : Constraint := ⟨⟨0⟩, ⟨0, 0⟩⟩
    let w := ((Process.start.after (.create .empty)).after
      (.operate 0 (.addVariable "x" .real))).after
      (.operate 0 (.addConstraint "c" (some (.ofTerms [⟨1, x⟩])) .free))
    ∃ log p s, Run w log ∧ w.problems[0]? = some p ∧ c ∈ p.constraints ∧ capture p c = .ok s ∧
      (∃ w' new lp g q, Later w w' new ∧ w'.problems[0]? = some lp ∧ s.restore lp = .ok g q ∧
        s.Readmits lp g q ∧ g ≠ c) ∧
      ∃ w' new lp fault, Later w w' new ∧ w'.problems[0]? = some lp ∧
        s.restore lp = .error (.refused (.invalid fault)) lp := by
  intro x c w
  have hrun : Run w _ :=
    .step (.step (.step .start (.create .empty) (by decide +kernel))
      (.operate 0 (.addVariable "x" .real)) (by decide +kernel))
      (.operate 0 (.addConstraint "c" (some (.ofTerms [⟨1, x⟩])) .free)) (by decide +kernel)
  have hreleased : Later w _ _ := .step .refl (.operate 0 (.release c)) (by decide +kernel)
  have hreplaced : Later w _ _ :=
    .step hreleased (.operate 0 (.addConstraint "d" none .free)) (by decide +kernel)
  have hdisposed : Later w _ _ :=
    .step (.step hreleased (.operate 0 (.dispose .var x)) (by decide +kernel))
      (.operate 0 (.addVariable "z" .real)) (by decide +kernel)
  have hn {events : List Process.Event} (hlen : events.length < 2 ^ 32) (k : Nat) :
      disposals events k < 2 ^ 32 := Nat.lt_of_le_of_lt List.countP_le_length hlen
  let p := (Operation.addConstraint "c" (some (.ofTerms [⟨1, x⟩])) .free).after
    ((Operation.addVariable "x" .real).after (.new ⟨0⟩))
  let replaced := (Operation.addConstraint "d" none .free).after ((Operation.release c).after p)
  let disposed := (Operation.addVariable "z" .real).after
    ((Operation.dispose .var x).after ((Operation.release c).after p))
  have hp : w.problems[0]? = some p := rfl
  have hc : c ∈ p.constraints := by decide +kernel
  obtain ⟨s, hs, -, -, -, -, -, hall⟩ := readmits_of_run hrun hp hc
  -- the snapshot is known by what it captures, so what it does is evaluated under that
  have hpasses : (capture p c).toOption.any (fun s => (Edit.answer? s.restore replaced).isSome &&
      decide (Edit.final s.restore replaced).InCapacity) = true := by decide +kernel
  have hfails : (capture p c).toOption.any
      (fun s => (Edit.answer? s.restore disposed).isNone) = true := by decide +kernel
  rw [hs] at hpasses hfails
  obtain ⟨hsome, hcap⟩ := Bool.and_eq_true_iff.mp hpasses
  obtain ⟨g, hg⟩ := Option.isSome_iff_exists.mp hsome
  obtain ⟨-, hpassed, -, -⟩ := hall (j := 0) hreplaced (show _ = some replaced from rfl)
    (by decide +kernel) (hn (by decide +kernel))
  obtain ⟨hiff, -, -, hinvalid⟩ := hall (j := 0) hdisposed (show _ = some disposed from rfl)
    (by decide +kernel) (hn (by decide +kernel))
  have hx := Edit.ok_of_answer? hg
  obtain ⟨hreadmits, hne, -⟩ := hpassed g _ hx (of_decide_eq_true hcap)
  have hfree : ¬ ∃ h ∈ disposed.constraints, disposed.nameOf h = .ok s.name := by
    have hnone : disposed.constraints = [] := by decide +kernel
    rw [hnone]
    exact fun ⟨_, hm, _⟩ => nomatch hm
  obtain ⟨fault, hfault⟩ := hinvalid hfree fun hstanding => by
    obtain ⟨g', q', hok⟩ := hiff.mpr ⟨hfree, hstanding⟩
    obtain ⟨e, r, herror⟩ := Edit.error_of_answer? hfails
    cases hok.symm.trans herror
  exact ⟨_, p, s, hrun, hp, hc, hs, ⟨_, _, replaced, g, _, hreplaced, rfl, hx, hreadmits, hne⟩,
    _, _, disposed, fault, hdisposed, rfl, hfault⟩

end ConstraintSnapshot

end LinearProgram
