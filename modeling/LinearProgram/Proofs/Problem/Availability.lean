import LinearProgram.Proofs.Problem.Naming
import LinearProgram.Proofs.Registry

namespace LinearProgram

namespace Operation

def births (op : Operation) (p : Problem) (kind : EntityKind) : List (Handle kind × String) :=
  (((op.after p).handles kind).filter (· ∉ p.handles kind)).zip (op.naming kind)

end Operation

namespace Problem

open Operation (births)

variable {p : Problem} {kind : EntityKind} {h : Handle kind} {name : String} {op : Operation}

/-- A problem, and the record of the names that its entities were created with. -/
inductive Chronicled : Problem → ((kind : EntityKind) → List (Handle kind × String)) → Prop
  | start {tableau : Tableau} {id : ProblemId} {p : Problem} (h : ofTableau tableau id = .ok p) :
    Chronicled p fun _ => []
  | step {p : Problem} {log : (kind : EntityKind) → List (Handle kind × String)} (op : Operation)
    (h : Chronicled p log) (hroom : (op.after p).InCapacity) :
    Chronicled (op.after p) fun kind => log kind ++ births op p kind

def given (log : List (Handle kind × String)) (h : Handle kind) : Option String :=
  log.reverse.lookup h

variable {log : (kind : EntityKind) → List (Handle kind × String)}

section Roster

theorem filter_notMem_of_subset {gs hs : List (Handle kind)} (h : gs ⊆ hs) :
    gs.filter (· ∉ hs) = [] := by
  rw [List.filter_eq_nil_iff]
  intro g hg
  simpa using h hg

theorem births_eq (hq : (op.after p).Consistent) {added : List (Handle kind)} {more : List String}
    (hmore : more <+: op.naming kind) (hadded : (op.after p).handles kind = p.handles kind ++ added)
    (hlen : added.length = more.length) : births op p kind = added.zip more := by
  have hnodup : (p.handles kind ++ added).Nodup := hadded ▸ hq.handles_nodup kind
  have hnew : ((op.after p).handles kind).filter (· ∉ p.handles kind) = added := by
    have hall : added.filter (· ∉ p.handles kind) = added := by
      rw [List.filter_eq_self]
      intro g hg
      simpa using fun hm => List.disjoint_of_nodup_append hnodup hm hg
    rw [hadded, List.filter_append, filter_notMem_of_subset (List.Subset.refl _), hall,
      List.nil_append]
  obtain ⟨rest, hrest⟩ := hmore
  rw [births, hnew, ← hrest]
  conv_lhs => rw [← List.append_nil added]
  rw [List.zip_append hlen, List.zip_nil_left, List.append_nil]

theorem roster_cases (hp : p.Consistent) (hcap : p.InCapacity) (hroom : (op.after p).InCapacity)
    (kind : EntityKind) :
    (op.after p).roster kind ⊆ p.roster kind ∧ births op p kind = [] ∨
      (op.after p).roster kind = p.roster kind ++ births op p kind := by
  have hq := (op.steps hp hcap hroom).consistent hp
  obtain ⟨g, -, hhandles, hnames⟩ | ⟨-, added, more, hmore, hadded, hnames⟩ :=
    Operation.entities_cases hp hcap hroom kind
  · refine .inl ⟨fun e he => ?_, ?_⟩
    · rw [mem_roster, hhandles, hnames] at he
      obtain ⟨i, hi, hn⟩ := he
      -- what stood behind the entity has moved up by one
      rw [List.getElem?_eraseIdx] at hi hn
      by_cases hlt : i < (p.handles kind).idxOf g
      · rw [if_pos hlt] at hi hn
        exact mem_roster.mpr ⟨i, hi, hn⟩
      · rw [if_neg hlt] at hi hn
        exact mem_roster.mpr ⟨i + 1, hi, hn⟩
    · rw [births, hhandles, filter_notMem_of_subset fun _ => List.mem_of_mem_eraseIdx,
        List.zip_nil_left]
  · have hlen := hq.length_names kind
    rw [hadded, hnames, List.length_append, List.length_append, hp.length_names] at hlen
    right
    rw [births_eq hq hmore hadded (by omega), roster, roster, hadded, hnames,
      List.zip_append (hp.length_names kind).symm]

end Roster

section Given

variable {entries more : List (Handle kind × String)}

theorem given_of_mem (hd : (entries.map Prod.fst).Nodup) (he : (h, name) ∈ entries) :
    given entries h = some name := by
  refine (Registry.lookup_eq_some_iff ?_).mpr (List.mem_reverse.mpr he)
  rw [List.map_reverse]
  exact List.nodup_reverse.mpr hd

theorem given_append_of_notMem (hh : h ∉ more.map Prod.fst) :
    given (entries ++ more) h = given entries h := by
  have hnone : given more h = none := by
    rw [given, List.lookup_eq_none_iff]
    rintro ⟨g, n⟩ hg
    have hne : h ≠ g := by
      rintro rfl
      exact hh (List.mem_map_of_mem (List.mem_reverse.mp hg))
    exact bne_iff_ne.mpr hne
  rw [given, List.reverse_append, List.lookup_append, ← given, hnone, Option.none_or, ← given]

theorem given_append_of_mem (hd : (more.map Prod.fst).Nodup) (he : (h, name) ∈ more) :
    given (entries ++ more) h = some name := by
  rw [given, List.reverse_append, List.lookup_append, ← given, given_of_mem hd he, Option.some_or]

end Given

namespace Chronicled

theorem reachable (h : Chronicled p log) : p.Reachable := by
  induction h with
  | start h => exact .start h
  | step op _ hroom ih => exact .step op ih hroom

theorem given_of_mem_roster (h : Chronicled p log) {e : Handle kind × String}
    (he : e ∈ p.roster kind) : given (log kind) e.1 = some e.2 := by
  induction h with
  | @start tableau id p h =>
    unfold ofTableau at h
    split at h
    · cases h
      cases kind <;> cases he
    · cases h
  | @step p log op h hroom ih =>
    have hp := h.reachable.consistent
    have hq := op.consistent_after hp hroom
    obtain ⟨hkept, hnone⟩ | hroster := roster_cases hp h.reachable.inCapacity hroom kind
    · simp only [hnone, List.append_nil]
      exact ih (hkept he)
    · have hd := hq.handles_nodup kind
      rw [← hq.map_fst_roster, hroster, List.map_append, List.nodup_append'] at hd
      obtain ⟨-, hborn, hdisjoint⟩ := hd
      -- a handle that comes again is recorded again, and the last record counts
      rw [hroster, List.mem_append] at he
      obtain he | he := he
      · rw [given_append_of_notMem (hdisjoint (List.mem_map_of_mem he))]
        exact ih he
      · exact given_append_of_mem hborn he

theorem given_eq_iff (h : Chronicled p log) {g : Handle kind} (hg : g ∈ p.handles kind) :
    given (log kind) g = some name ↔ p.nameOf g = .ok name := by
  have hp := h.reachable.consistent
  have hi := hp.indexOf_of_mem hg
  have hname := hp.nameOf_eq hi (List.getElem?_eq_getElem (hp.index_lt hi))
  rw [h.given_of_mem_roster (hp.mem_roster_iff.mpr ⟨hg, hname⟩), hname, Option.some.injEq,
    Except.ok.injEq]

end Chronicled

theorem Reachable.chronicled (hp : p.Reachable) : ∃ log, Chronicled p log := by
  induction hp with
  | start h => exact ⟨_, .start h⟩
  | step op _ hroom ih =>
    obtain ⟨log, h⟩ := ih
    exact ⟨_, h.step op hroom⟩

def Bears (p : Problem) (log : List (Handle kind × String)) (name : String) : Prop :=
  ∃ g ∈ p.handles kind, given log g = some name

/-- The operation adds one entity under the name, and the name is all that it can fail at. -/
inductive Introduces (p : Problem) (name : String) : EntityKind → Operation → Prop
  | column (type : VarType) : Introduces p name .var (.addVariable name type)
  | row {l : Option Linear} {b : Bound} (hl : p.Takes l) (hb : b.hasNaN = false) :
    Introduces p name .constraint (.addConstraint name l b)

namespace Introduces

theorem passes (hi : p.Introduces name kind op) (hp : p.Consistent)
    (hn : Nameable (p.tableau.names kind) name) :
    ∃ answer q, op.perform p = .ok answer q := by
  cases hi with
  | column type =>
    exact ⟨_, _, by rw [Operation.perform, Edit.bind_apply, hp.addVariable_eq hn]; rfl⟩
  | row hl hb =>
    exact ⟨_, _, by rw [Operation.perform, Edit.bind_apply, hp.addConstraint_eq hn hl hb]; rfl⟩

theorem refused (hi : p.Introduces name kind op) {e : Failure Error}
    (he : p.checkName kind name = .error e) : op.perform p = .error e p := by
  cases hi with
  | column type =>
    simp only [Operation.perform, addVariable, Edit.bind_apply, ask, he]
  | row hl hb =>
    simp only [Operation.perform, addConstraint, Edit.bind_apply, ask, he]

theorem births_eq (hi : p.Introduces name kind op) (hp : p.Consistent)
    (hroom : (op.after p).InCapacity) {answer : Answer} {q : Problem}
    (hop : op.perform p = .ok answer q) :
    ∃ g, answer.made kind = [g] ∧ births op p kind = [(g, name)] := by
  have hq := op.consistent_after hp hroom
  have hafter : op.after p = q := Edit.final_ok hop
  cases hi with
  | column type =>
    obtain ⟨g, hx, rfl⟩ := Operation.ok_of_answered hop
    exact ⟨g, rfl, Problem.births_eq hq List.prefix_rfl (hafter ▸ hp.vars_addVariable hx) rfl⟩
  | row hl hb =>
    obtain ⟨g, hx, rfl⟩ := Operation.ok_of_answered hop
    exact ⟨g, rfl,
      Problem.births_eq hq List.prefix_rfl (hafter ▸ hp.constraints_addConstraint hx) rfl⟩

end Introduces

section Availability

theorem freed_iff (hp : p.Consistent) (hcap : p.InCapacity) (hroom : (op.after p).InCapacity) :
    name ∈ p.tableau.names kind ∧ name ∉ (op.after p).tableau.names kind ↔
      ∃ g, op.removed? p = some ⟨kind, g⟩ ∧ p.nameOf g = .ok name := by
  obtain ⟨g, hr, -, hnames⟩ | ⟨hnone, -, more, -, -, hnames⟩ :=
    Operation.entities_cases hp hcap hroom kind
  · have hi := hp.indexOf_of_mem ((Operation.removed?_eq_some_iff hp).mp hr).2
    have hlt := hp.index_lt hi
    have hname := hp.nameOf_eq hi (List.getElem?_eq_getElem hlt)
    have hd := (hp.lists kind).distinct
    rw [hnames, ← hd.erase_getElem _ hlt, hd.mem_erase_iff]
    constructor
    · rintro ⟨hn, hgone⟩
      refine ⟨g, hr, hname.trans (congrArg Except.ok ?_)⟩
      by_contra hne
      exact hgone ⟨Ne.symm hne, hn⟩
    · rintro ⟨g', hr', hn⟩
      rw [hr] at hr'
      cases hr'
      rw [hname] at hn
      cases hn
      exact ⟨List.getElem_mem hlt, fun h => h.1 rfl⟩
  · rw [hnames]
    constructor
    · rintro ⟨hn, hgone⟩
      exact absurd (List.mem_append_left _ hn) hgone
    · rintro ⟨g, hr, -⟩
      exact absurd hr (hnone g)

theorem taken_iff (hp : p.Consistent) (hcap : p.InCapacity) (hroom : (op.after p).InCapacity) :
    name ∉ p.tableau.names kind ∧ name ∈ (op.after p).tableau.names kind ↔
      ∃ g, (g, name) ∈ births op p kind := by
  have hq := op.consistent_after hp hroom
  rw [← hp.map_snd_roster, ← hq.map_snd_roster]
  obtain ⟨hkept, hnone⟩ | hroster := roster_cases hp hcap hroom kind
  · rw [hnone]
    constructor
    · rintro ⟨hn, hnew⟩
      exact absurd (List.map_subset _ hkept hnew) hn
    · rintro ⟨g, hg⟩
      cases hg
  · have hd := (hq.lists kind).distinct
    rw [← hq.map_snd_roster, hroster, List.map_append] at hd
    rw [hroster, List.map_append, List.mem_append]
    constructor
    · rintro ⟨hn, hnew⟩
      obtain ⟨⟨g, n⟩, hg, rfl⟩ := List.mem_map.mp (hnew.resolve_left hn)
      exact ⟨g, hg⟩
    · rintro ⟨g, hg⟩
      have hborn := List.mem_map_of_mem (f := Prod.snd) hg
      exact ⟨fun hn => List.disjoint_of_nodup_append hd hn hborn, .inr hborn⟩

theorem Chronicled.bears_iff (h : Chronicled p log) :
    p.Bears (log kind) name ↔ name ∈ p.tableau.names kind := by
  rw [h.reachable.consistent.mem_names_iff]
  exact exists_congr fun g => and_congr_right fun hg => h.given_eq_iff hg

/-- An entity may be added if its name is neither empty nor too long, and no live entity of its
kind was created with it. A name is freed when the entity that it was given to is disposed, and it
is taken when an entity is created with it. Nothing else changes what is available. -/
theorem available_of_reachable (hp : p.Reachable) :
    (∃ log, Chronicled p log) ∧ ∀ log, Chronicled p log →
      (∀ kind, ∀ g ∈ p.handles kind,
        ∃ name, given (log kind) g = some name ∧ p.nameOf g = .ok name) ∧
      (∀ kind name op, p.Introduces name kind op →
        ((∃ answer q, op.perform p = .ok answer q) ↔
          name ≠ "" ∧ name.utf8ByteSize ≤ nameLimit ∧ ¬ p.Bears (log kind) name) ∧
        (name = "" ∨ p.Bears (log kind) name →
          op.perform p = .error (.refused (.duplicateName kind name)) p) ∧
        (nameLimit < name.utf8ByteSize →
          op.perform p = .error (.refused (.invalid .nameTooLong)) p) ∧
        ((op.after p).InCapacity → ∀ answer q, op.perform p = .ok answer q →
          ∃ g, answer.made kind = [g] ∧ births op p kind = [(g, name)])) ∧
      ∀ op, (op.after p).InCapacity → ∀ kind name,
        (p.Bears (log kind) name ∧ ¬ (op.after p).Bears (log kind ++ births op p kind) name ↔
          ∃ g, op.removed? p = some ⟨kind, g⟩ ∧ given (log kind) g = some name) ∧
        (¬ p.Bears (log kind) name ∧ (op.after p).Bears (log kind ++ births op p kind) name ↔
          ∃ g, (g, name) ∈ births op p kind) := by
  have hc := hp.consistent
  refine ⟨hp.chronicled, fun log h => ⟨fun kind g hg => ?_, fun kind name op hi => ?_,
    fun op hroom kind name => ?_⟩⟩
  · have hindex := hc.indexOf_of_mem hg
    have hname := hc.nameOf_eq hindex (List.getElem?_eq_getElem (hc.index_lt hindex))
    exact ⟨_, (h.given_eq_iff hg).mpr hname, hname⟩
  · rw [h.bears_iff]
    have htaken (hn : name = "" ∨ name ∈ p.tableau.names kind) :
        op.perform p = .error (.refused (.duplicateName kind name)) p :=
      hi.refused (hc.checkName_taken hn)
    have hlong (hn : nameLimit < name.utf8ByteSize) :
        op.perform p = .error (.refused (.invalid .nameTooLong)) p :=
      hi.refused (hc.checkName_long hn)
    refine ⟨⟨?_, fun hn => hi.passes hc ⟨hn.1, hn.2.2, hn.2.1⟩⟩, htaken, hlong,
      fun hroom answer q => hi.births_eq hc hroom⟩
    rintro ⟨answer, q, hop⟩
    refine ⟨fun hn => ?_, Nat.le_of_not_lt fun hn => ?_, fun hn => ?_⟩
    · rw [htaken (.inl hn)] at hop
      cases hop
    · rw [hlong hn] at hop
      cases hop
    · rw [htaken (.inr hn)] at hop
      cases hop
  · have hnext : Chronicled (op.after p) fun kind => log kind ++ births op p kind := h.step op hroom
    have hafter : (op.after p).Bears (log kind ++ births op p kind) name ↔
      name ∈ (op.after p).tableau.names kind := hnext.bears_iff
    rw [h.bears_iff, hafter, freed_iff hc hp.inCapacity hroom, taken_iff hc hp.inCapacity hroom]
    refine ⟨exists_congr fun g => and_congr_right fun hr => ?_, Iff.rfl⟩
    exact (h.given_eq_iff ((Operation.removed?_eq_some_iff hc).mp hr).2).symm

theorem available_of_thinned : thinned.Reachable ∧ ∃ log, Chronicled thinned log ∧
    ¬ thinned.Bears (log .var) "x" ∧ thinned.Bears (log .var) "y" ∧
      (Operation.addVariable "y" .real).perform thinned =
        .error (.refused (.duplicateName .var "y")) thinned := by
  obtain ⟨⟨log, h⟩, hall⟩ := available_of_reachable reachable_thinned
  obtain ⟨hnames, hadded, -⟩ := hall log h
  obtain ⟨hx, -⟩ := hadded .var "x" (.addVariable "x" .real) (.column .real)
  obtain ⟨-, hy, -⟩ := hadded .var "y" (.addVariable "y" .real) (.column .real)
  let y : Variable := ⟨⟨0⟩, ⟨1, 0⟩⟩
  have hmem : y ∈ thinned.handles .var := by decide +kernel
  have hborne : thinned.Bears (log .var) "y" := by
    obtain ⟨name, hname, hread⟩ := hnames .var y hmem
    have hy : thinned.nameOf y = .ok "y" := by decide +kernel
    rw [hread, Except.ok.injEq] at hy
    exact ⟨y, hmem, hy ▸ hname⟩
  obtain ⟨answer, hanswer⟩ : ∃ a, Edit.answer? (Operation.addVariable "x" .real).perform thinned =
      some a := Option.isSome_iff_exists.mp (by decide +kernel)
  have hfree := hx.mp ⟨answer, _, Edit.ok_of_answer? hanswer⟩
  exact ⟨reachable_thinned, log, h, hfree.2.2, hborne, hy (.inr hborne)⟩

end Availability

end Problem

end LinearProgram
