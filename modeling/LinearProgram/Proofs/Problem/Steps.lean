import LinearProgram.Proofs.Problem.Changed
import LinearProgram.Proofs.Problem.Resolving

/-!
Single steps between consistent states, and chains of them. Everything that an operation does to a
problem is a chain of such steps.
-/

namespace LinearProgram.Problem

inductive Change where
  | column
  | row
  | bound (kind : EntityKind) (h : Handle kind)
  | entries (c : Constraint)
  | prices
  | direction
  | removal (kind : EntityKind) (h : Handle kind)
  | title
  | outcome
  | scale

def Change.removals : Change → Nat
  | .removal _ _ => 1
  | _ => 0

inductive Step : Change → Problem → Problem → Prop
  | column {p : Problem} {c : Column} (hroom : p.columns.size < Table.capacity)
    (hn : Nameable (p.tableau.names .var) c.name) (hb : c.bound.hasNaN = false)
    (ho : c.objective = 0) : Step .column p (p.withColumn c)
  | row {p : Problem} {name : String} {b : Bound} {l : Option Linear}
    (hroom : p.rows.size < Table.capacity) (hn : Nameable (p.tableau.names .constraint) name)
    (hb : b.hasNaN = false) (hl : p.Takes l) : Step .row p (p.withRow ⟨name, b, p.rowOf l⟩)
  | bound {p : Problem} {kind : EntityKind} {h : Handle kind} {b : Bound}
    (hh : h ∈ p.handles kind) (hb : b.hasNaN = false) :
    Step (.bound kind h) p (p.revised (p.tableau.rebounded b kind ((p.handles kind).idxOf h)))
  | type {p : Problem} {v : Variable} (type : VarType) (hv : v ∈ p.vars) :
    Step (.bound .var v) p (p.revised (p.tableau.recolumned (p.vars.idxOf v) (·.typed type)))
  | entries {p : Problem} {c : Constraint} {l : Option Linear} (hc : c ∈ p.constraints)
    (hl : p.Takes l) : Step (.entries c) p (p.revised (p.tableau.rerowed (p.constraints.idxOf c)
      fun r => { r with entries := p.rowOf l }))
  | prices {p : Problem} {l : Option Linear} (hl : p.Takes l) :
    Step .prices p (p.revised (p.tableau.priced (p.vars.map (Linear.share l))))
  | direction {p : Problem} (direction : Direction) :
    Step .direction p (p.revised { p.tableau with direction := direction })
  | removal {p : Problem} {kind : EntityKind} {h : Handle kind} {tenant : Tenant}
    (hh : h ∈ p.handles kind) (ht : (p.table kind).tenant? h.key = some tenant) :
    Step (.removal kind h) p (p.without h tenant)
  | name {p : Problem} {name : Option String} (hn : checkTitle name = .ok ()) :
    Step .title p { p with name := name }
  | objectiveName {p : Problem} {name : Option String} (hn : checkTitle name = .ok ()) :
    Step .title p { p with objectiveName := name }
  | outcome {p : Problem} {status : Status} {solution : Option Solution}
    (hs : solution.isSome = status.hasSolution)
    (hf : ∀ s ∈ solution, s.Fits p.tableau.columns.length p.tableau.rows.length) :
    Step .outcome p { p with status := status, solution := solution }
  | scale {p : Problem} (digits : UInt32) : Step .scale p (p.withScale digits)

inductive Steps (allowed : Change → Prop) (p : Problem) : Nat → Problem → Prop
  | refl : Steps allowed p 0 p
  | tail {n : Nat} {q r : Problem} {c : Change} (h : Steps allowed p n q) (hc : allowed c)
    (hs : Step c q r) : Steps allowed p (n + c.removals) r

variable {p q r : Problem} {allowed : Change → Prop} {c : Change} {m n : Nat}

theorem Step.fresh {name : String} (hroom : p.columns.size < Table.capacity)
    (hn : Nameable (p.tableau.names .var) name) (type : VarType) :
    Step .column p (p.withColumn ((Column.fresh name).typed type)) := by
  refine .column hroom ?_ ?_ ?_
  · rwa [Column.typed_name]
  · rw [Column.typed_bound]
    split <;> rfl
  · rw [Column.typed_objective]
    rfl

theorem Step.consistent (h : Step c p q) (hp : p.Consistent) : q.Consistent := by
  cases h with
  | column hroom hn hb ho =>
    refine hp.withColumn hroom hn hb ?_
    rw [ho]
    exact Double.isNaN_zero
  | row hroom hn hb hl => exact hp.withRow hroom hn hb (hp.rowOf_proper hl)
  | bound hh hb => exact hp.revised (Tableau.names_rebounded _ _) (hp.sound.rebounded hb _ _)
  | type type hv =>
    exact hp.revised (Tableau.names_recolumned fun c => c.typed_name type)
      (hp.sound.retyped _ type)
  | entries hc hl =>
    refine hp.revised (Tableau.names_rerowed fun _ => rfl) (hp.sound.rerowed ?_ _)
    intro r hr
    exact ⟨(hp.sound.row hr).1, (hp.sound.row hr).2.1, hp.rowOf_proper hl⟩
  | prices hl =>
    refine hp.revised (Tableau.names_priced _) (hp.sound.priced ?_)
    rw [List.forall_mem_map]
    exact fun v _ => hl.share_number v
  | direction direction =>
    exact hp.revised (fun kind => by cases kind <;> rfl) (hp.sound.withDirection direction)
  | removal hh ht => exact hp.without ht
  | name hn =>
    refine ⟨fun kind => ?_, hp.sound, hn, hp.objectiveTitle, hp.solved, hp.fits⟩
    have hl := hp.lists kind
    cases kind <;> exact hl
  | objectiveName hn =>
    refine ⟨fun kind => ?_, hp.sound, hp.title, hn, hp.solved, hp.fits⟩
    have hl := hp.lists kind
    cases kind <;> exact hl
  | outcome hs hf =>
    refine ⟨fun kind => ?_, hp.sound, hp.title, hp.objectiveTitle, hs, hf⟩
    have hl := hp.lists kind
    cases kind <;> exact hl
  | scale digits =>
    refine ⟨fun kind => ?_, hp.sound, hp.title, hp.objectiveTitle, hp.solved, hp.fits⟩
    have hl := hp.lists kind
    cases kind <;> exact hl

namespace Steps

theorem consistent (h : Steps allowed p n q) (hp : p.Consistent) : q.Consistent := by
  induction h with
  | refl => exact hp
  | tail _ _ hs ih => exact hs.consistent ih

theorem single (hc : allowed c) (hs : Step c p q) : Steps allowed p c.removals q := by
  have h := Steps.tail .refl hc hs
  rwa [Nat.zero_add] at h

theorem trans (h : Steps allowed p m q) (h' : Steps allowed q n r) : Steps allowed p (m + n) r := by
  induction h' with
  | refl => exact h
  | tail _ hc hs ih =>
    rw [← Nat.add_assoc]
    exact ih.tail hc hs

theorem mono {wider : Change → Prop} (h : Steps allowed p n q) (hw : ∀ c, allowed c → wider c) :
    Steps wider p n q := by
  induction h with
  | refl => exact .refl
  | tail _ hc hs ih => exact ih.tail (hw _ hc) hs

end Steps

end LinearProgram.Problem
