import LinearProgram.Proofs.Problem.Consistent

namespace LinearProgram

theorem Bound.validate_eq_ok_iff {b : Bound} : b.validate = .ok () ↔ b.hasNaN = false := by
  unfold Bound.validate
  cases b.hasNaN <;> simp [Outcome.refuseFault, Outcome.refuse]

theorem Bound.validate_unbroken (b : Bound) : Outcome.Unbroken b.validate := by
  unfold Bound.validate
  split
  · exact Outcome.unbroken_refused _
  · exact Outcome.unbroken_ok _

theorem Solution.validate_unbroken (s : Solution) (columns rows : Nat) :
    Outcome.Unbroken (s.validate columns rows) := by
  unfold Solution.validate
  split
  · exact Outcome.unbroken_refused _
  · split
    · exact Outcome.unbroken_refused _
    · exact Outcome.unbroken_refused _
    · exact Outcome.unbroken_ok _

theorem Solution.fits_of_validate {s : Solution} {columns rows : Nat}
    (h : s.validate columns rows = .ok ()) : s.Fits columns rows := by
  unfold Solution.validate at h
  split at h
  · cases h
  · rename_i hl
    split at h
    · cases h
    · cases h
    · rename_i hc hr
      rw [Option.filter_eq_none_iff] at hc hr
      refine ⟨by simpa using hl, ?_, ?_⟩
      · intro xs hxs
        simpa using hc xs hxs
      · intro xs hxs
        simpa using hr xs hxs

namespace Problem

variable {p : Problem} {kind : EntityKind}

theorem checkLength_eq_ok_iff {name : String} :
    checkLength name = .ok () ↔ name.utf8ByteSize ≤ nameLimit := by
  unfold checkLength
  split
  · simp only [Outcome.refuseFault, Outcome.refuse, reduceCtorEq, false_iff]
    omega
  · simp only [Outcome.pure_eq_ok, true_iff]
    omega

theorem checkLength_unbroken (name : String) : Outcome.Unbroken (checkLength name) := by
  unfold checkLength
  split
  · exact Outcome.unbroken_refused _
  · exact Outcome.unbroken_ok _

theorem checkTitle_unbroken (name : Option String) : Outcome.Unbroken (checkTitle name) := by
  cases name with
  | none => exact Outcome.unbroken_ok _
  | some name => exact checkLength_unbroken name

theorem checkName_unbroken (p : Problem) (kind : EntityKind) (name : String) :
    Outcome.Unbroken (p.checkName kind name) := by
  unfold checkName
  split
  · exact checkLength_unbroken name
  · exact Outcome.unbroken_refused _

structure Nameable (names : List String) (name : String) : Prop where
  nonempty : name ≠ ""
  unused : name ∉ names
  short : name.utf8ByteSize ≤ nameLimit

theorem Consistent.checkName_eq_ok_iff (hp : p.Consistent) {name : String} :
    p.checkName kind name = .ok () ↔ Nameable (p.tableau.names kind) name := by
  unfold checkName
  by_cases ha : (p.table kind).isNameAvailable name = true
  · rw [if_pos ha, checkLength_eq_ok_iff]
    have hn := (hp.lists kind).isNameAvailable_iff.mp ha
    exact ⟨fun hs => ⟨hn.1, hn.2, hs⟩, fun h => h.short⟩
  · rw [if_neg ha]
    simp only [Outcome.refuse, reduceCtorEq, false_iff]
    intro h
    exact ha ((hp.lists kind).isNameAvailable_iff.mpr ⟨h.nonempty, h.unused⟩)

theorem checkOwner_unbroken (p : Problem) (h : Handle kind) :
    Outcome.Unbroken (p.checkOwner h) := by
  unfold checkOwner
  split
  · exact Outcome.unbroken_ok _
  · exact Outcome.unbroken_refused _

theorem indexOf_unbroken (p : Problem) (h : Handle kind) : Outcome.Unbroken (p.indexOf h) := by
  rw [indexOf_eq]
  split
  · cases (p.table kind).indexOf? h.key with
    | none => exact Outcome.unbroken_refused _
    | some i => exact Outcome.unbroken_ok _
  · exact Outcome.unbroken_refused _

end Problem

end LinearProgram
