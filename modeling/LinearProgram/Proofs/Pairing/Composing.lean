import LinearProgram.Proofs.Pairing.Editing

namespace LinearProgram.Problem

variable {α β γ δ : Type} {R : Pairing} {p q : Problem} {n : Nat}
  {rel : Pairing → α → β → Prop} {rel' : Pairing → γ → δ → Prop}

def Twin (R : Pairing) (rel : Pairing → α → β → Prop) (x : Edit α) (y : Edit β) : Prop :=
  ∀ (S : Pairing) (n : Nat) (p q : Problem), R ≤ S → Alike S n p q →
    (Edit.final x p).InCapacity → SteadyAccord S n rel p q x y

namespace Twin

variable {x : Edit α} {y : Edit β} {f : α → Edit γ} {g : β → Edit δ}

theorem mono {S : Pairing} (h : Twin R rel x y) (hRS : R ≤ S) : Twin S rel x y :=
  fun T n p q hST => h T n p q (hRS.trans hST)

theorem pure {a : α} {b : β} (hab : ∀ S, R ≤ S → rel S a b) :
    Twin R rel (pure a) (pure b) :=
  fun S _ _ _ hRS h _ => .of_unchanged h rfl rfl (hab S hRS)

theorem ask {read : Problem → Outcome α} {read' : Problem → Outcome β}
    (hread : ∀ S n p q, R ≤ S → Alike S n p q → Outcome.Paired (rel S) (read p) (read' q)) :
    Twin R rel (Problem.ask read) (Problem.ask read') := by
  intro S n p q hRS h _
  have hpq := hread S n p q hRS h
  cases hp : read p with
  | error e =>
    have hq := hpq.eq_error hp
    exact .of_refusals h ⟨e, by simp only [Problem.ask, hp], by simp only [Problem.ask, hq]⟩
  | ok a =>
    obtain ⟨b, hq, hab⟩ := hpq.eq_ok hp
    exact .of_unchanged h (ask_ok hp) (ask_ok hq) hab

theorem bind (hx : Twin R rel x y)
    (hf : ∀ S a b, R ≤ S → rel S a b → Twin S rel' (f a) (g b)) (hg : ∀ a, Grows (f a)) :
    Twin R rel' (x >>= f) (y >>= g) := by
  intro S n p q hRS h hroom
  have hfirst := hx S n p q hRS h (inCapacity_of_bind hg hroom)
  obtain ⟨p₁, q₁, halike, hkept, ⟨e, hp, hq⟩ | ⟨a, b, hab, hp, hq⟩⟩ := hfirst.cases
  · refine .of_failures (e := e) ?_ ?_ halike hkept
    · simp only [Edit.bind_apply, hp]
    · simp only [Edit.bind_apply, hq]
  · have hp' : (x >>= f) p = f a p₁ := by simp only [Edit.bind_apply, hp]
    have hq' : (y >>= g) q = g b q₁ := by simp only [Edit.bind_apply, hq]
    rw [Edit.final_bind_ok hp] at hroom
    have hnext := hf _ a b (hRS.trans le_sup_left) hab _ n p₁ q₁ le_rfl halike hroom
    obtain ⟨p₂, q₂, halike₂, hkept₂, hend⟩ := hnext.cases
    -- the entities that were live in between are live and paired in the end
    rw [sup_assoc, sup_eq_right.mpr hkept₂] at halike₂ hend
    obtain ⟨e, hp₂, hq₂⟩ | ⟨c, d, hcd, hp₂, hq₂⟩ := hend
    · exact .of_failures (hp'.trans hp₂) (hq'.trans hq₂) halike₂ (hkept.trans hkept₂)
    · exact .of_answers (hp'.trans hp₂) (hq'.trans hq₂) hcd halike₂ (hkept.trans hkept₂)

theorem forM {r : α → β → Prop} {l : List α} {m : List β} {f : α → Edit PUnit}
    {g : β → Edit PUnit} (hl : List.Forall₂ r l m) (hf : ∀ a b, r a b → Twin R ⊤ (f a) (g b))
    (hg : ∀ a, Grows (f a)) : Twin R ⊤ (l.forM f) (m.forM g) := by
  induction hl with
  | nil => exact .pure fun _ _ => trivial
  | cons hab _ ih =>
    exact (hf _ _ hab).bind (fun S _ _ hRS _ => ih.mono hRS) fun _ => Grows.forM hg _

theorem mapM {l : List α} {f : α → Edit γ} {g : α → Edit δ}
    (hf : ∀ a ∈ l, Twin R rel' (f a) (g a)) (hg : ∀ a, Grows (f a))
    (hmono : ∀ S T c d, S ≤ T → rel' S c d → rel' T c d) :
    Twin R (fun S => List.Forall₂ (rel' S)) (l.mapM f) (l.mapM g) := by
  induction l generalizing R with
  | nil => exact .pure fun _ _ => .nil
  | cons a l ih =>
    rw [List.forall_mem_cons] at hf
    rw [List.mapM_cons, List.mapM_cons]
    refine hf.1.bind (fun S c d hRS hcd => ?_) fun c => (Grows.mapM hg l).bind fun _ => .pure _
    refine (ih fun b hb => (hf.2 b hb).mono hRS).bind (fun T cs ds hST hcds => ?_)
      fun _ => .pure _
    exact .pure fun U hTU => .cons (hmono S U c d (hST.trans hTU) hcd)
      (hcds.imp fun c d => hmono T U c d hTU)

end Twin

section Documents

variable {S : Pairing} {created created' : List Variable} {named named' : List (String × Variable)}
  {l l' : Linear}

theorem forall₂_zipWith {ε : Type} {r : α → β → Prop} {r' : γ → δ → Prop} {f : ε → α → γ}
    {g : ε → β → δ} {as : List α} {bs : List β} (h : List.Forall₂ r as bs)
    (hf : ∀ c a b, r a b → r' (f c a) (g c b)) (cs : List ε) :
    List.Forall₂ r' (List.zipWith f cs as) (List.zipWith g cs bs) := by
  induction h generalizing cs with
  | nil => cases cs <;> exact .nil
  | cons hab _ ih =>
    cases cs with
    | nil => exact .nil
    | cons c cs => exact .cons (hf c _ _ hab) (ih cs)

def NamedAlike (R : Pairing) (named named' : List (String × Variable)) : Prop :=
  List.Forall₂ (fun e e' => e.1 = e'.1 ∧ R .var e.2 e'.2) named named'

theorem NamedAlike.lookup (h : NamedAlike R named named') (name : String) :
    Option.Rel (R .var) (named.lookup name) (named'.lookup name) := by
  induction h with
  | nil => exact .none
  | @cons e e' named named' he _ ih =>
    rw [List.lookup_cons, List.lookup_cons, ← he.1]
    cases name == e.1 with
    | true => exact .some he.2
    | false => exact ih

theorem NamedAlike.formOf (h : NamedAlike R named named') (hR : R.OneToOne)
    (terms : List (String × Float)) :
    Linear.Paired R (formOf named terms) (formOf named' terms) := by
  refine Linear.Paired.ofTerms hR ?_
  have hsame : List.Forall₂ Eq terms terms := List.forall₂_refl terms
  refine List.rel_filterMap ?_ hsame
  rintro t _ rfl
  have hlookup := h.lookup t.1
  change Option.Rel _ ((named.lookup t.1).map _) ((named'.lookup t.1).map _)
  generalize named.lookup t.1 = x at hlookup
  generalize named'.lookup t.1 = y at hlookup
  cases hlookup with
  | none => exact .none
  | some hv => exact .some ⟨rfl, hv⟩

theorem namedAlike_namedBy (h : List.Forall₂ (R .var) created created') (d : Document) :
    NamedAlike R (namedBy d created) (namedBy d created') :=
  forall₂_zipWith h (fun _ _ _ hv => ⟨rfl, hv⟩) _

theorem Alike.checkDocument_eq (h : Alike R n p q) (d : Document) :
    p.checkDocument d = q.checkDocument d := by
  have hname (kind : EntityKind) (before : List String) (name : String) :
      p.checkRecordName kind before name = q.checkRecordName kind before name := by
    simp only [checkRecordName, h.checkName_eq]
  have hvars (before : List String) (records : List VariableRecord) :
      p.checkVariables before records = q.checkVariables before records := by
    induction records generalizing before with
    | nil => rfl
    | cons r records ih => simp only [checkVariables, hname, ih]
  have hconstraints (known before : List String) (records : List ConstraintRecord) :
      p.checkConstraints known before records = q.checkConstraints known before records := by
    induction records generalizing before with
    | nil => rfl
    | cons r records ih => simp only [checkConstraints, hname, ih]
  simp only [checkDocument, hvars, hconstraints]

theorem twin_setTitle {set : Option String → Edit Unit}
    (hs : ∀ name, Twin R ⊤ (set name) (set name)) (name : Option String) :
    Twin R ⊤ (setTitle set name) (setTitle set name) := by
  unfold setTitle
  split
  · exact hs name
  · exact .pure fun _ _ => trivial

theorem twin_addVariableRecord (r : VariableRecord) :
    Twin R (fun S => S .var) (addVariableRecord r) (addVariableRecord r) := by
  have hadd : Twin R (fun S => S .var) (addVariable r.name r.type) (addVariable r.name r.type) :=
    fun _ _ _ _ _ h hroom => h.addVariable r.type hroom
  have hset {S : Pairing} {v v' : Variable} (hv : S .var v v') :
      Twin S ⊤ (setBound v r.bound) (setBound v' r.bound) :=
    fun _ _ _ _ hST h _ => h.setBound (hST _ _ _ hv) r.bound
  unfold addVariableRecord
  refine hadd.bind (fun S v v' _ hv => ?_) fun v => ?_
  · split
    · exact .pure fun T hST => hST _ _ _ hv
    · exact (hset hv).bind (fun T _ _ hST _ => .pure fun U hTU => hTU _ _ _ (hST _ _ _ hv))
        fun _ => .pure v
  · split
    · exact .pure v
    · exact (Grows.setBound v r.bound).bind fun _ => .pure v

theorem twin_addConstraintRecord (hnamed : NamedAlike R named named') (r : ConstraintRecord) :
    Twin R ⊤ (addConstraintRecord named r) (addConstraintRecord named' r) := by
  have hadd : Twin R (fun S => S .constraint)
      (addConstraint r.name (some (formOf named r.terms)) r.bound)
      (addConstraint r.name (some (formOf named' r.terms)) r.bound) := by
    intro S n p q hRS h hroom
    have hwide : NamedAlike S named named' := hnamed.imp fun _ _ he => ⟨he.1, hRS _ _ _ he.2⟩
    exact h.addConstraint (.some (hwide.formOf h.oneToOne r.terms)) hroom
  exact hadd.bind (fun _ _ _ _ _ => .pure fun _ _ => trivial) fun _ => .pure ()

theorem twin_conclude (d : Document) (hl : Linear.Paired R l l')
    (hc : List.Forall₂ (R .var) created created') :
    Twin R (fun S => List.Forall₂ (S .var)) (conclude d l created) (conclude d l' created') := by
  have hobjective : Twin R ⊤
      (setObjective (some (l.addAll (List.zipWith Term.mk (d.vars.map (·.objective)) created))))
      (setObjective
        (some (l'.addAll (List.zipWith Term.mk (d.vars.map (·.objective)) created')))) := by
    intro S n p q hRS h _
    have hts : List.Forall₂ (Term.Paired S)
        (List.zipWith Term.mk (d.vars.map (·.objective)) created)
        (List.zipWith Term.mk (d.vars.map (·.objective)) created') :=
      forall₂_zipWith hc (fun _ _ _ hv => ⟨rfl, hRS _ _ _ hv⟩) _
    exact h.setObjective (.some ((hl.mono hRS).addAll h.oneToOne hts))
  have hdirection (S : Pairing) : Twin S ⊤ (setDirection d.direction) (setDirection d.direction) :=
    fun _ _ _ _ _ h _ => h.setDirection d.direction
  have hname (S : Pairing) (name : Option String) : Twin S ⊤ (setName name) (setName name) :=
    fun _ _ _ _ _ h _ => h.setName name
  have hobjectiveName (S : Pairing) (name : Option String) :
      Twin S ⊤ (setObjectiveName name) (setObjectiveName name) :=
    fun _ _ _ _ _ h _ => h.setObjectiveName name
  have gname := Grows.setTitle Grows.setName d.name
  have gobjectiveName := Grows.setTitle Grows.setObjectiveName d.objectiveName
  refine hobjective.bind (fun S _ _ hRS _ => ?_) fun _ => (Grows.setDirection _).bind fun _ =>
    gname.bind fun _ => gobjectiveName.bind fun _ => .pure created
  refine (hdirection S).bind (fun T _ _ hST _ => ?_) fun _ =>
    gname.bind fun _ => gobjectiveName.bind fun _ => .pure created
  refine (twin_setTitle (hname T) d.name).bind (fun U _ _ hTU _ => ?_) fun _ =>
    gobjectiveName.bind fun _ => .pure created
  refine (twin_setTitle (hobjectiveName U) d.objectiveName).bind (fun V _ _ hUV _ => ?_)
    fun _ => .pure created
  have hRV := ((hRS.trans hST).trans hTU).trans hUV
  exact .pure fun W hVW => hc.imp fun v v' hv => hVW _ _ _ (hRV _ _ _ hv)

theorem twin_appendDocument (d : Document) :
    Twin R (fun S => List.Forall₂ (S .var)) (appendDocument d) (appendDocument d) := by
  have hcheck : Twin R (fun _ => Eq) (ask (·.checkDocument d)) (ask (·.checkDocument d)) := by
    refine .ask fun S n p q _ h => ?_
    rw [h.checkDocument_eq d]
    exact Outcome.paired_refl _
  have hobjective (S : Pairing) : Twin S (fun S => Option.Rel (Linear.Paired S))
      (ask (·.objectiveLinear)) (ask (·.objectiveLinear)) :=
    .ask fun _ _ _ _ _ h => h.objectiveLinear_paired
  have hvars (S : Pairing) : Twin S (fun S => List.Forall₂ (S .var))
      (d.vars.mapM addVariableRecord) (d.vars.mapM addVariableRecord) :=
    .mapM (fun r _ => twin_addVariableRecord r) Grows.addVariableRecord
      fun S T v v' hST hv => hST _ _ _ hv
  rw [appendDocument_eq_conclude]
  refine hcheck.bind (fun S _ _ _ _ => ?_) fun _ =>
    (Grows.ask _).bind fun l => grows_addVariables d l
  refine (hobjective S).bind (fun T l l' hST hl => ?_) (grows_addVariables d)
  refine (hvars T).bind (fun U created created' hTU hc => ?_) fun _ => grows_addConstraints d _ _
  have hsame : List.Forall₂ Eq d.constraints d.constraints := List.forall₂_refl _
  have hconstraints : Twin U ⊤ (d.constraints.forM (addConstraintRecord (namedBy d created)))
      (d.constraints.forM (addConstraintRecord (namedBy d created'))) := by
    refine .forM hsame ?_ (Grows.addConstraintRecord _)
    rintro r _ rfl
    exact twin_addConstraintRecord (namedAlike_namedBy hc d) r
  refine hconstraints.bind (fun V _ _ hUV _ => ?_) fun _ => grows_conclude d _ created
  have hform : Linear.Paired V (l.getD .empty) (l'.getD .empty) := by
    cases hl with
    | none => exact Linear.paired_empty
    | some hl => exact hl.mono (hTU.trans hUV)
  exact twin_conclude d hform (hc.imp fun v v' hv => hUV _ _ _ hv)

end Documents

section Restoring

theorem twin_restoreBounds {kind : EntityKind} {s s' : BoundSnapshot kind}
    (hs : s.Paired R s') : Twin R ⊤ s.restore s'.restore := by
  unfold BoundSnapshot.restore
  refine .forM hs (fun e e' he => ?_) fun e => Grows.setBound e.1 e.2
  intro S n p q hRS h _
  rw [← he.2]
  exact h.setBound (hRS _ _ _ he.1) e.2

theorem twin_load (files : Files) (name : String) :
    Twin R (fun S => List.Forall₂ (S .var)) (load files name) (load files name) := by
  have hask {γ : Type} (S : Pairing) (x : Outcome γ) :
      Twin S (fun _ => Eq) (ask fun _ => x) (ask fun _ => x) :=
    .ask fun _ _ _ _ _ _ => Outcome.paired_refl x
  unfold load
  refine (hask R _).bind ?_ fun _ => (Grows.ask _).bind fun d => grows_appendDocument d
  rintro S text _ - rfl
  refine (hask S _).bind ?_ grows_appendDocument
  rintro T d _ - rfl
  exact twin_appendDocument d

end Restoring

end LinearProgram.Problem
