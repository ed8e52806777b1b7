import LinearProgram.Proofs.Process.Later
import LinearProgram.Snapshot.Bounds

namespace LinearProgram

def Tableau.boundless (t : Tableau) : Tableau where
  columns := t.columns.map fun c => { c with bound := .free }
  rows := t.rows.map fun r => { r with bound := .free }
  direction := t.direction

theorem Tableau.bounds_rebounded (t : Tableau) (b : Bound) (kind : EntityKind) (i : Nat) :
    ((t.rebounded b kind i).bounds kind)[i]? = (t.bounds kind)[i]?.map fun _ => b := by
  cases kind <;> simp [rebounded, recolumned, rerowed, bounds, Function.comp_def]

namespace Problem

variable {p q : Problem} {kind : EntityKind}

def boundless (p : Problem) : Problem := p.revised p.tableau.boundless

/-- Everything but bounds and the outcome of the last solve is read of the one as of the other. -/
structure SameButBounds (p q : Problem) : Prop where
  handles : ∀ kind, q.handles kind = p.handles kind
  nameOf : ∀ {kind} (h : Handle kind), q.nameOf h = p.nameOf h
  kindAt : ∀ i, q.kindAt i = p.kindAt i
  linear : ∀ c, q.linear c = p.linear c
  objectiveLinear : q.objectiveLinear = p.objectiveLinear
  direction : q.direction = p.direction
  name : q.name = p.name
  objectiveName : q.objectiveName = p.objectiveName

section Boundless

theorem table_boundless (p : Problem) (kind : EntityKind) : p.boundless.table kind = p.table kind := by
  cases kind <;> rfl

theorem handles_boundless (p : Problem) (kind : EntityKind) :
    p.boundless.handles kind = p.handles kind := by
  cases kind <;> rfl

theorem indexOf_boundless (p : Problem) (h : Handle kind) : p.boundless.indexOf h = p.indexOf h := by
  cases kind <;> rfl

theorem column_boundless (p : Problem) (i : Nat) : p.boundless.tableau.column i =
    (p.tableau.column i).map fun c => { c with bound := .free } := by
  have hat : p.boundless.tableau.columns[i]? = _ := List.getElem?_map
  unfold Tableau.column
  rw [hat]
  cases p.tableau.columns[i]? <;> rfl

theorem row_boundless (p : Problem) (i : Nat) : p.boundless.tableau.row i =
    (p.tableau.row i).map fun r => { r with bound := .free } := by
  have hat : p.boundless.tableau.rows[i]? = _ := List.getElem?_map
  unfold Tableau.row
  rw [hat]
  cases p.tableau.rows[i]? <;> rfl

theorem nameOf_boundless (p : Problem) (h : Handle kind) : p.boundless.nameOf h = p.nameOf h := by
  have hname (i : Nat) : p.boundless.nameAt kind i = p.nameAt kind i := by
    cases kind with
    | var =>
      rw [nameAt, nameAt, column_boundless]
      cases p.tableau.column i <;> rfl
    | constraint =>
      rw [nameAt, nameAt, row_boundless]
      cases p.tableau.row i <;> rfl
  simp only [nameOf, indexOf_boundless, hname, table_boundless]

theorem kindAt_boundless (p : Problem) (i : Nat) : p.boundless.kindAt i = p.kindAt i := by
  rw [kindAt, kindAt, column_boundless]
  cases p.tableau.column i <;> rfl

theorem linear_boundless (p : Problem) (c : Constraint) : p.boundless.linear c = p.linear c := by
  have hentries : p.boundless.entriesOf c = p.entriesOf c := by
    unfold entriesOf
    rw [indexOf_boundless]
    cases p.indexOf c with
    | error e => rfl
    | ok i =>
      rw [Outcome.bind_ok, Outcome.bind_ok, row_boundless]
      cases p.tableau.row i <;> rfl
  have hterm : p.boundless.termOf = p.termOf := rfl
  simp only [linear, hentries, hterm]

theorem objectiveLinear_boundless (p : Problem) :
    p.boundless.objectiveLinear = p.objectiveLinear := by
  have hprices : p.boundless.tableau.objective = p.tableau.objective :=
    List.map_map
  have hterm : p.boundless.termOf = p.termOf := rfl
  simp only [objectiveLinear, objectiveTerms, hprices, hterm]

theorem sameButBounds_of_boundless (h : q.boundless = p.boundless) : SameButBounds p q where
  handles kind := by rw [← handles_boundless, h, handles_boundless]
  nameOf g := by rw [← nameOf_boundless, h, nameOf_boundless]
  kindAt i := by rw [← kindAt_boundless, h, kindAt_boundless]
  linear c := by rw [← linear_boundless, h, linear_boundless]
  objectiveLinear := by rw [← objectiveLinear_boundless, h, objectiveLinear_boundless]
  direction := congrArg (·.tableau.direction) h
  name := congrArg (·.name) h
  objectiveName := congrArg (·.objectiveName) h

end Boundless

theorem HasTraits.bound_eq {h : Handle kind} {x : Traits} (hx : p.HasTraits h x)
    (hp : p.Consistent) : p.bound h = .ok x.bound := by
  obtain ⟨i, hh, ht⟩ := hx
  refine Problem.bound_eq (hp.indexOf_eq_ok_iff.mpr hh) ?_
  have hbounds : p.tableau.bounds kind = (p.tableau.traits kind).map (·.bound) := by
    cases kind <;> simp [Tableau.bounds, Tableau.traits, Column.traits, Row.traits, Function.comp_def]
  rw [hbounds, List.getElem?_map, ht]
  rfl

theorem Consistent.bound_of_mem (hp : p.Consistent) {g : Handle kind} (hg : g ∈ p.handles kind) :
    ∃ b, p.bound g = .ok b ∧ b.hasNaN = false := by
  have hi := hp.indexOf_of_mem hg
  have hlt : (p.handles kind).idxOf g < (p.tableau.bounds kind).length := by
    rw [Tableau.length_bounds]
    exact hp.index_lt hi
  exact ⟨_, bound_eq hi (List.getElem?_eq_getElem hlt), hp.sound.bounds kind _ (List.getElem_mem hlt)⟩

section Setting

variable {g : Handle kind} {b : Bound}

def bounded (p : Problem) (g : Handle kind) (b : Bound) : Problem :=
  p.revised (p.tableau.rebounded b kind ((p.handles kind).idxOf g))

theorem boundless_bounded (p : Problem) (g : Handle kind) (b : Bound) :
    (p.bounded g b).boundless = p.boundless := by
  cases kind with
  | var =>
    have hcolumns : (p.bounded g b).boundless.tableau.columns = p.boundless.tableau.columns :=
      Tableau.map_modify fun _ => rfl
    exact congrArg (fun columns => p.revised { p.boundless.tableau with columns := columns }) hcolumns
  | constraint =>
    have hrows : (p.bounded g b).boundless.tableau.rows = p.boundless.tableau.rows :=
      Tableau.map_modify fun _ => rfl
    exact congrArg (fun rows => p.revised { p.boundless.tableau with rows := rows }) hrows

theorem handles_bounded (p : Problem) (g : Handle kind) (b : Bound) (other : EntityKind) :
    (p.bounded g b).handles other = p.handles other := by
  rw [← handles_boundless, boundless_bounded, handles_boundless]

theorem indexOf_bounded (p : Problem) (g : Handle kind) (b : Bound) {other : EntityKind}
    (h : Handle other) : (p.bounded g b).indexOf h = p.indexOf h := by
  rw [← indexOf_boundless, boundless_bounded, indexOf_boundless]

namespace Consistent

variable (hp : p.Consistent)
include hp

theorem bounded (hg : g ∈ p.handles kind) (hb : b.hasNaN = false) : (p.bounded g b).Consistent :=
  (Step.bound hg hb).consistent hp

theorem bound_bounded (hg : g ∈ p.handles kind) : (p.bounded g b).bound g = .ok b := by
  have hi := hp.indexOf_of_mem hg
  have hlt : (p.handles kind).idxOf g < (p.tableau.bounds kind).length := by
    rw [Tableau.length_bounds]
    exact hp.index_lt hi
  refine bound_eq ((p.indexOf_bounded g b g).trans hi) ?_
  change ((p.tableau.rebounded b kind _).bounds kind)[_]? = some b
  rw [Tableau.bounds_rebounded, List.getElem?_eq_getElem hlt]
  rfl

theorem bound_bounded_of_ne {other : EntityKind} {h : Handle other}
    (hne : (⟨other, h⟩ : (kind : EntityKind) × Handle kind) ≠ ⟨kind, g⟩) (hg : g ∈ p.handles kind)
    (hb : b.hasNaN = false) : (p.bounded g b).bound h = p.bound h := by
  by_cases hh : h ∈ p.handles other
  · obtain ⟨x, hx⟩ := hp.hasTraits hh
    have hchange : Change.bound kind g ≠ .bound other h := fun he => hne (by cases he; rfl)
    have hx' := (Step.bound hg hb).hasTraits hp hx hchange nofun
    rw [hx.bound_eq hp]
    exact hx'.bound_eq (hp.bounded hg hb)
  · have hnone (i : Nat) : p.indexOf h ≠ .ok i := fun hi =>
      hh (List.mem_of_getElem? (hp.indexOf_eq_ok_iff.mp hi))
    cases hi : p.indexOf h with
    | ok i => exact absurd hi (hnone i)
    | error e =>
      have hi' : (p.bounded g b).indexOf h = .error e := (p.indexOf_bounded g b h).trans hi
      simp only [bound, hi, hi', Outcome.bind_error]

end Consistent

end Setting

section Loop

variable {f : Handle kind → Bound} {done : List (Handle kind)}

structure Rebounded (f : Handle kind → Bound) (done : List (Handle kind)) (p q : Problem) :
    Prop where
  consistent : q.Consistent
  boundless : q.boundless = p.boundless
  given : ∀ g ∈ done, q.bound g = .ok (f g)
  kept : ∀ {other} (h : Handle other),
    (⟨other, h⟩ : (kind : EntityKind) × Handle kind) ∉ done.map (Sigma.mk kind) →
      q.bound h = p.bound h

theorem Rebounded.cons (hp : p.Consistent) {g : Handle kind} (hg : g ∈ p.handles kind)
    (hb : (f g).hasNaN = false) (h : Rebounded f done (p.bounded g (f g)) q) :
    Rebounded f (g :: done) p q where
  consistent := h.consistent
  boundless := h.boundless.trans (p.boundless_bounded g (f g))
  given g' hg' := by
    by_cases hm : g' ∈ done
    · exact h.given g' hm
    · obtain rfl := (List.mem_cons.mp hg').resolve_right hm
      rw [h.kept g', hp.bound_bounded hg]
      rw [List.mem_map]
      rintro ⟨g, hg, ⟨⟩⟩
      exact hm hg
  kept h' hh' := by
    rw [List.map_cons, List.mem_cons, not_or] at hh'
    exact (h.kept h' hh'.2).trans (hp.bound_bounded_of_ne hh'.1 hg hb)

theorem Consistent.forM_setBound (hp : p.Consistent) (gs : List (Handle kind))
    (lasting : Handle kind → Prop) [DecidablePred lasting] (hb : ∀ g ∈ gs, (f g).hasNaN = false)
    (hlive : ∀ g ∈ gs, lasting g → g ∈ p.handles kind)
    (hgone : ∀ g ∈ gs, ¬ lasting g → p.indexOf g = Outcome.refuse .disposed) :
    ∃ q, (gs.map fun g => (g, f g)).forM (fun e => setBound e.1 e.2) p =
        (if ∀ g ∈ gs, lasting g then .ok () q else .error (.refused .disposed) q) ∧
      Rebounded f (gs.takeWhile fun g => decide (lasting g)) p q := by
  induction gs generalizing p with
  | nil =>
    refine ⟨p, (if_pos nofun).symm, hp, rfl, nofun, fun _ _ => rfl⟩
  | cons g gs ih =>
    rw [List.forall_mem_cons] at hb hlive hgone
    by_cases hg : lasting g
    · have hmem := hlive.1 hg
      -- setting a bound moves no entity, so the rest finds the same ones live
      obtain ⟨q, hrun, hq⟩ := ih (hp.bounded hmem hb.1) hb.2
        (by rw [handles_bounded]; exact hlive.2)
        (by simp only [indexOf_bounded]; exact hgone.2)
      refine ⟨q, ?_, ?_⟩
      · have hset : setBound g (f g) p = .ok () (p.bounded g (f g)) := hp.setBound_eq hmem hb.1
        simp only [List.forall_mem_cons, hg, true_and, ← hrun]
        change (setBound g (f g) >>= fun _ => (gs.map fun g => (g, f g)).forM _) p = _
        rw [Edit.bind_apply, hset]
      · rw [List.takeWhile_cons_of_pos (by simpa using hg)]
        exact hq.cons hp hmem hb.1
    · refine ⟨p, ?_, ?_⟩
      · have hset : setBound g (f g) p = .error (.refused .disposed) p := ask_refused (hgone.1 hg) _
        simp only [List.forall_mem_cons, hg, false_and, if_false]
        change (setBound g (f g) >>= fun _ => (gs.map fun g => (g, f g)).forM _) p = _
        rw [Edit.bind_apply, hset]
      · rw [List.takeWhile_cons_of_neg (by simpa using hg)]
        exact ⟨hp, rfl, nofun, fun _ _ => rfl⟩

end Loop

end Problem

namespace BoundSnapshot

open Problem Process

variable {w w' : Process} {log new : List Process.Event} {i : Nat} {p lp q : Problem}
  {kind : EntityKind} {gs done : List (Handle kind)}

/-- Some entities of `lp` have the bounds back that they had in `p`, and nothing else of `lp` is
different. -/
structure Restores (p lp : Problem) (done : List (Handle kind)) (q : Problem) : Prop where
  given : ∀ g ∈ done, q.bound g = p.bound g
  kept : ∀ {other} (h : Handle other),
    (⟨other, h⟩ : (kind : EntityKind) × Handle kind) ∉ done.map (Sigma.mk kind) →
      q.bound h = lp.bound h
  same : SameButBounds lp q

theorem capture_eq {f : Handle kind → Bound} (hf : ∀ g ∈ gs, p.bound g = .ok (f g)) :
    capture p gs = .ok ⟨.ofList (gs.map fun g => (g, f g))⟩ := by
  have hall : gs.mapM (captured p) = .ok (gs.map fun g => (g, f g)) := by
    refine Outcome.mapM_eq_ok fun g hg => ?_
    rw [captured, hf g hg]
    rfl
  rw [capture, hall]
  rfl

/-- A snapshot gives the entities their bounds back, one after the other, as long as they are
live. -/
theorem restores_of_run (hw : Run w log) (hp : w.problems[i]? = some p)
    (hgs : ∀ g ∈ gs, g ∈ p.handles kind) :
    ∃ s, capture p gs = .ok s ∧
      ∀ {w' new lp}, Later w w' new → w'.problems[i]? = some lp → disposals new i < 2 ^ 32 →
        ∃ q, s.restore lp =
            (if ∀ g ∈ gs, Process.Event.disposed i kind g ∉ new then .ok () q
              else .error (.refused .disposed) q) ∧
          Restores p lp (gs.eraseDups.takeWhile (Process.Event.disposed i kind · ∉ new)) q := by
  have hr := hw.reachable p (List.mem_of_getElem? hp)
  have hbounds : ∀ g ∈ gs, ∃ b, p.bound g = .ok b ∧ b.hasNaN = false := fun g hg =>
    hr.consistent.bound_of_mem (hgs g hg)
  choose! f hf using hbounds
  refine ⟨_, capture_eq fun g hg => (hf g hg).1, fun {w' new lp} hlater hlp hn => ?_⟩
  obtain ⟨lp', hlp', hfollows⟩ := hlater.follows hp hr
  cases hlp.symm.trans hlp'
  have hdups {g : Handle kind} : g ∈ gs.eraseDups ↔ g ∈ gs := List.mem_eraseDups
  obtain ⟨q, hrun, hq⟩ := hfollows.reachable.consistent.forM_setBound gs.eraseDups
    (Process.Event.disposed i kind · ∉ new) (fun g hg => (hf g (hdups.mp hg)).2)
    (fun g hg => hfollows.kept kind g (hgs g (hdups.mp hg)))
    (fun g hg hm => (hfollows.retired hn kind g (not_not.mp hm)).indexOf_eq)
  refine ⟨q, ?_, fun g hg => ?_, hq.kept, sameButBounds_of_boundless hq.boundless⟩
  · simp only [hdups] at hrun
    rw [← hrun, restore, Registry.entries_ofList]
  · have hmem := hdups.mp ((List.takeWhile_sublist _).mem hg)
    rw [hq.given g hg, (hf g hmem).1]

theorem restores_reused :
    let x : Variable := ⟨⟨0⟩, ⟨0, 0⟩⟩
    let y : Variable := ⟨⟨0⟩, ⟨1, 0⟩⟩
    let w := ((Process.start.after (.create .empty)).after
      (.operate 0 (.addVariable "x" .integer))).after (.operate 0 (.addVariable "y" .real))
    ∃ log p s w' new lp q, Run w log ∧ w.problems[0]? = some p ∧ (∀ g ∈ [x, y, x], g ∈ p.vars) ∧
      capture p [x, y, x] = .ok s ∧ Later w w' new ∧ w'.problems[0]? = some lp ∧
      disposals new 0 < 2 ^ 32 ∧ s.restore lp = .error (.refused .disposed) q ∧
      Restores p lp [x] q := by
  intro x y w
  have hrun : Run w _ :=
    .step (.step (.step .start (.create .empty) (by decide +kernel))
      (.operate 0 (.addVariable "x" .integer)) (by decide +kernel))
      (.operate 0 (.addVariable "y" .real)) (by decide +kernel)
  have hlater : Later w _ _ :=
    .step (.step (.step .refl (.operate 0 (.setVariableType x .binary)) (by decide +kernel))
      (.operate 0 (.dispose .var y)) (by decide +kernel))
      (.operate 0 (.addVariable "z" .binary)) (by decide +kernel)
  let p := (Operation.addVariable "y" .real).after
    ((Operation.addVariable "x" .integer).after (.new ⟨0⟩))
  let lp := (Operation.addVariable "z" .binary).after
    ((Operation.dispose .var y).after ((Operation.setVariableType x .binary).after p))
  have hp : w.problems[0]? = some p := rfl
  have hlive : ∀ g ∈ [x, y, x], g ∈ p.vars := by decide +kernel
  obtain ⟨s, hs, hall⟩ := restores_of_run hrun hp hlive
  have hlp := show _ = some lp from rfl
  obtain ⟨q, hrestore, hq⟩ := hall hlater hlp (by decide +kernel)
  rw [if_neg (by decide +kernel)] at hrestore
  rw [show [x, y, x].eraseDups.takeWhile _ = [x] by decide +kernel] at hq
  exact ⟨_, p, s, _, _, lp, q, hrun, hp, hlive, hs, hlater, hlp, by decide +kernel, hrestore, hq⟩

end BoundSnapshot

end LinearProgram
