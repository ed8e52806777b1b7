import LinearProgram.Proofs.Linear
import LinearProgram.Proofs.Outcome
import LinearProgram.Snapshot.Bounds
import LinearProgram.Snapshot.Definition
import LinearProgram.Snapshot.Values
import Mathlib.Data.List.Forall2
import Mathlib.Order.Lattice

namespace LinearProgram

abbrev Pairing := (kind : EntityKind) → Handle kind → Handle kind → Prop

def Pairing.OneToOne (R : Pairing) : Prop := ∀ kind, Relator.BiUnique (R kind)

namespace Outcome

variable {ε α β γ δ : Type} {rel : α → β → Prop} {rel' : γ → δ → Prop}

inductive Paired (rel : α → β → Prop) : Except ε α → Except ε β → Prop
  | ok {a : α} {b : β} (h : rel a b) : Paired rel (.ok a) (.ok b)
  | error (e : ε) : Paired rel (.error e) (.error e)

theorem paired_refl (x : Except ε α) : Paired Eq x x := by
  cases x with
  | ok a => exact .ok rfl
  | error e => exact .error e

namespace Paired

variable {x : Except ε α} {y : Except ε β} {f : α → Except ε γ} {g : β → Except ε δ}

theorem eq_error (h : Paired rel x y) {e : ε} (hx : x = .error e) : y = .error e := by
  subst hx
  cases h with
  | error => rfl

theorem eq_ok (h : Paired rel x y) {a : α} (hx : x = .ok a) : ∃ b, y = .ok b ∧ rel a b := by
  subst hx
  cases h with
  | ok hab => exact ⟨_, rfl, hab⟩

theorem bind (h : Paired rel x y) (hf : ∀ a b, rel a b → Paired rel' (f a) (g b)) :
    Paired rel' (x >>= f) (y >>= g) := by
  cases h with
  | ok h => exact hf _ _ h
  | error e => exact .error e

theorem map (h : Paired rel x y) {f : α → γ} {g : β → δ} (hf : ∀ a b, rel a b → rel' (f a) (g b)) :
    Paired rel' (x >>= fun a => pure (f a)) (y >>= fun b => pure (g b)) :=
  h.bind fun a b hab => .ok (hf a b hab)

theorem bind_eq (h : Paired rel x y) {g : β → Except ε γ} (hf : ∀ a b, rel a b → f a = g b) :
    (x >>= f) = (y >>= g) := by
  cases h with
  | ok h => exact hf _ _ h
  | error e => rfl

theorem mapM {l : List α} {m : List β} (h : List.Forall₂ rel l m)
    (hf : ∀ a b, rel a b → Paired rel' (f a) (g b)) :
    Paired (List.Forall₂ rel') (l.mapM f) (m.mapM g) := by
  induction h with
  | nil => exact .ok .nil
  | cons ha _ ih =>
    rw [List.mapM_cons, List.mapM_cons]
    exact (hf _ _ ha).bind fun _ _ hb => ih.map fun _ _ hbs => .cons hb hbs

end Paired

theorem foldlM_congr {l : List α} {m : List β} {f : γ → α → Except ε γ} {g : γ → β → Except ε γ}
    (h : List.Forall₂ rel l m) (hf : ∀ c a b, rel a b → f c a = g c b) (c : γ) :
    l.foldlM f c = m.foldlM g c := by
  induction h generalizing c with
  | nil => rfl
  | cons ha _ ih =>
    rw [List.foldlM_cons, List.foldlM_cons, hf _ _ _ ha]
    exact bind_congr fun c => ih c

theorem mapM_congr {l : List α} {m : List β} {f : α → Except ε γ} {g : β → Except ε γ}
    (h : List.Forall₂ rel l m) (hf : ∀ a b, rel a b → f a = g b) : l.mapM f = m.mapM g := by
  induction h with
  | nil => rfl
  | cons ha _ ih => rw [List.mapM_cons, List.mapM_cons, hf _ _ ha, ih]

end Outcome

namespace Registry

variable {κ ν : Type} {r : κ → κ → Prop} {a b : Registry κ ν} {k k' : κ}

def Paired (r : κ → κ → Prop) (a b : Registry κ ν) : Prop :=
  List.Forall₂ (fun e e' => r e.1 e'.1 ∧ e.2 = e'.2) a.entries b.entries

theorem paired_empty : Paired r (empty : Registry κ ν) empty := .nil

namespace Paired

theorem mono {wider : κ → κ → Prop} (h : Paired r a b) (hw : r ≤ wider) : Paired wider a b :=
  h.imp fun _ _ he => ⟨hw _ _ he.1, he.2⟩

theorem keys (h : Paired r a b) : List.Forall₂ r a.keys b.keys :=
  List.rel_map (fun _ _ he => he.1) h

variable [DecidableEq κ] (hr : Relator.BiUnique r)
include hr

theorem lookup_eq {l m : List (κ × ν)}
    (h : List.Forall₂ (fun e e' => r e.1 e'.1 ∧ e.2 = e'.2) l m) (hk : r k k') :
    l.lookup k = m.lookup k' := by
  induction h with
  | nil => rfl
  | @cons e e' l m he _ ih =>
    have hiff : k = e.1 ↔ k' = e'.1 := Relator.rel_eq hr hk he.1
    rw [List.lookup_cons, List.lookup_cons, ih, he.2]
    by_cases hke : k = e.1
    · rw [beq_iff_eq.mpr hke, beq_iff_eq.mpr (hiff.mp hke)]
    · rw [beq_false_of_ne hke, beq_false_of_ne (mt hiff.mpr hke)]

theorem find?_eq (h : Paired r a b) (hk : r k k') : a.find? k = b.find? k' := lookup_eq hr h hk

theorem setEntry {l m : List (κ × ν)}
    (h : List.Forall₂ (fun e e' => r e.1 e'.1 ∧ e.2 = e'.2) l m) (hk : r k k') (v : ν) :
    List.Forall₂ (fun e e' => r e.1 e'.1 ∧ e.2 = e'.2) (Registry.setEntry k v l)
      (Registry.setEntry k' v m) := by
  refine List.rel_map (fun e e' he => ?_) h
  have hiff : e.1 = k ↔ e'.1 = k' := Relator.rel_eq hr he.1 hk
  by_cases hke : e.1 = k
  · rw [if_pos hke, if_pos (hiff.mp hke)]
    exact ⟨hk, rfl⟩
  · rw [if_neg hke, if_neg (mt hiff.mpr hke)]
    exact he

theorem insert (h : Paired r a b) (hk : r k k') (v : ν) :
    Paired r (a.insert k v) (b.insert k' v) := by
  have hiff : k ∈ a.keys ↔ k' ∈ b.keys := List.rel_mem hr hk h.keys
  unfold Paired
  by_cases hm : k ∈ a.keys
  · rw [entries_insert_of_mem hm, entries_insert_of_mem (hiff.mp hm)]
    exact setEntry hr h hk v
  · rw [entries_insert_of_notMem hm, entries_insert_of_notMem (mt hiff.mpr hm)]
    exact List.rel_append h (.cons ⟨hk, rfl⟩ .nil)

theorem erase (h : Paired r a b) (hk : r k k') : Paired r (a.erase k) (b.erase k') := by
  refine List.rel_filter (fun e e' he => ?_) h
  have hiff : e.1 = k ↔ e'.1 = k' := Relator.rel_eq hr he.1 hk
  simp only [ne_eq, decide_not, Bool.not_eq_true', decide_eq_false_iff_not, hiff]

theorem ofList {l m : List (κ × ν)}
    (h : List.Forall₂ (fun e e' => r e.1 e'.1 ∧ e.2 = e'.2) l m) :
    Paired r (Registry.ofList l) (Registry.ofList m) := by
  refine List.rel_foldl (P := Paired r) ?_ paired_empty h
  rintro a b hab ⟨k, v⟩ ⟨k', _⟩ ⟨hk, rfl⟩
  exact hab.insert hr hk v

end Paired

end Registry

section Forms

variable {R S : Pairing}

structure Term.Paired (R : Pairing) (t t' : Term) : Prop where
  coefficient : t.coefficient = t'.coefficient
  var : R .var t.var t'.var

def Linear.Paired (R : Pairing) (l l' : Linear) : Prop :=
  l.coefficients.Paired (R .var) l'.coefficients

namespace Linear

theorem paired_empty : Paired R empty empty := .nil

namespace Paired

variable {l l' : Linear} {t t' : Term} {ts ts' : List Term}

theorem mono (h : Paired R l l') (hS : R ≤ S) : Paired S l l' := Registry.Paired.mono h (hS .var)

theorem terms (h : Paired R l l') : List.Forall₂ (Term.Paired R) l.terms l'.terms :=
  List.rel_map (fun _ _ he => ⟨he.2, he.1⟩) h

theorem isEmpty_eq (h : Paired R l l') : l.isEmpty = l'.isEmpty := by
  have hlen := List.Forall₂.length_eq h
  rw [Bool.eq_iff_iff, isEmpty, isEmpty, Registry.isEmpty, Registry.isEmpty, List.isEmpty_iff,
    List.isEmpty_iff, ← List.length_eq_zero_iff, ← List.length_eq_zero_iff, hlen]

variable (hR : R.OneToOne)
include hR

theorem coefficient?_eq (h : Paired R l l') {v v' : Variable} (hv : R .var v v') :
    l.coefficient? v = l'.coefficient? v' :=
  Registry.Paired.find?_eq (hR .var) h hv

theorem set (h : Paired R l l') (x : Float) {v v' : Variable} (hv : R .var v v') :
    Paired R (l.set x v) (l'.set x v') := by
  unfold Linear.set
  split
  · exact Registry.Paired.erase (hR .var) h hv
  · exact Registry.Paired.insert (hR .var) h hv x

theorem add (h : Paired R l l') (ht : Term.Paired R t t') : Paired R (l.add t) (l'.add t') := by
  unfold Linear.add
  rw [h.coefficient?_eq hR ht.var, ht.coefficient]
  split
  · exact h
  · exact h.set hR _ ht.var

theorem addAll (h : Paired R l l') (hts : List.Forall₂ (Term.Paired R) ts ts') :
    Paired R (l.addAll ts) (l'.addAll ts') := by
  induction hts generalizing l l' with
  | nil => exact h
  | cons ht _ ih => exact ih (h.add hR ht)

theorem ofTerms (hts : List.Forall₂ (Term.Paired R) ts ts') :
    Paired R (Linear.ofTerms ts) (Linear.ofTerms ts') := paired_empty.addAll hR hts

end Paired

end Linear

end Forms

section Snapshots

def BoundSnapshot.Paired (R : Pairing) {kind : EntityKind} (s s' : BoundSnapshot kind) : Prop :=
  s.bounds.Paired (R kind) s'.bounds

structure ConstraintSnapshot.Paired (R : Pairing) (s s' : ConstraintSnapshot) : Prop where
  name : s.name = s'.name
  linear : Option.Rel (Linear.Paired R) (s.linear.map FrozenLinear.thaw)
    (s'.linear.map FrozenLinear.thaw)
  bound : s.bound = s'.bound

theorem ConstraintSnapshot.Paired.mono {s s' : ConstraintSnapshot}
    (h : ConstraintSnapshot.Paired R s s') (hS : R ≤ S) : ConstraintSnapshot.Paired S s s' :=
  ⟨h.name, Outcome.rel_mono h.linear fun _ _ hl => hl.mono hS, h.bound⟩

structure ValueSnapshot.Paired (R : Pairing) (s s' : ValueSnapshot) : Prop where
  values : s.values.Paired (R .var) s'.values
  tolerance : s.tolerance = s'.tolerance

theorem ValueSnapshot.Paired.evaluate_eq {s s' : ValueSnapshot} (h : ValueSnapshot.Paired R s s')
    (hR : R.OneToOne) {l l' : Linear} (hl : Linear.Paired R l l') :
    s.evaluate l = s'.evaluate l' := by
  refine Outcome.foldlM_congr hl.terms (fun sum t t' ht => ?_) 0
  have hvalue : s.value? t.var = s'.value? t'.var :=
    Registry.Paired.find?_eq (hR .var) h.values ht.var
  simp only [ValueSnapshot.product, hvalue, ht.coefficient]

end Snapshots

end LinearProgram
