import LinearProgram.Json.Reader
import LinearProgram.Proofs.Json.Token

namespace LinearProgram.Json

structure Spacing.Blank (spacing : Spacing) : Prop where
  lead : ∀ depth, ∀ c ∈ spacing.lead depth, isBlank c = true
  separator : ∃ blanks, spacing.separator = ':' :: blanks ∧ ∀ c ∈ blanks, isBlank c = true

theorem Spacing.blank_pretty : Spacing.pretty.Blank where
  lead depth c hc := by
    rcases List.mem_cons.mp hc with rfl | hc
    · rfl
    · rw [List.eq_of_mem_replicate hc]
      rfl
  separator := ⟨[' '], rfl, List.forall_mem_singleton.mpr rfl⟩

inductive Proper : Json → Prop where
  | null : Proper .null
  | bool (b : Bool) : Proper (.bool b)
  | number {n : Numeral} (h : n.WellFormed) : Proper (.number n)
  | string {s : Written} (h : Enclosed s) : Proper (.string s)
  | array {items : List Json} (h : ∀ j ∈ items, Proper j) : Proper (.array items)
  | object {members : List (Written × Json)} (hk : ∀ m ∈ members, Enclosed m.1)
    (hv : ∀ m ∈ members, Proper m.2) : Proper (.object members)

mutual

def spelling : Json → List Token
  | .null => [.null]
  | .bool b => [.bool b]
  | .number n => [.number n]
  | .string s => [.string s]
  | .array [] => [.openArray, .closeArray]
  | .array (item :: items) =>
    .openArray :: (spelling item ++ (spellingItems items ++ [.closeArray]))
  | .object [] => [.openObject, .closeObject]
  | .object ((key, value) :: members) =>
    .openObject :: .string key :: .colon ::
      (spelling value ++ (spellingMembers members ++ [.closeObject]))

def spellingItems : List Json → List Token
  | [] => []
  | item :: items => .comma :: (spelling item ++ spellingItems items)

def spellingMembers : List (Written × Json) → List Token
  | [] => []
  | (key, value) :: members =>
    .comma :: .string key :: .colon :: (spelling value ++ spellingMembers members)

end

section Writing

variable {spacing : Spacing} (hspacing : spacing.Blank)
include hspacing

theorem delimits_lead {as : List Char} {ts : List Token} (h : Delimits as ts) (depth : Nat) :
    Delimits (as ++ spacing.lead depth) ts :=
  h.before (hspacing.lead depth)

theorem delimits_key {key : Written} (hkey : Enclosed key) (depth : Nat) {c : Char} {t : Token}
    (h : punctuation? c = some t) :
    Delimits ([c] ++ spacing.lead depth ++ (quote key ++ spacing.separator))
      [t, .string key, .colon] := by
  obtain ⟨blanks, he, hb⟩ := hspacing.separator
  have hcolon : Delimits (':' :: blanks) [.colon] :=
    (delimits_punctuation (c := ':') rfl).before hb
  rw [he]
  exact (delimits_lead hspacing (delimits_punctuation h) depth).append
    ((delimits_quote hkey).append hcolon)

theorem delimits_close (depth : Nat) {c : Char} {t : Token} (h : punctuation? c = some t) :
    Delimits (spacing.lead depth ++ [c]) [t] :=
  (delimits_punctuation h).behind (hspacing.lead depth)

theorem delimits_renderItems {items : List Json} {depth : Nat}
    (h : ∀ j ∈ items, Spells (render spacing depth j) (spelling j)) {tail : List Char}
    {ts : List Token} (htail : Delimits tail ts) :
    Delimits (renderItems spacing depth items ++ tail) (spellingItems items ++ ts) := by
  induction items with
  | nil =>
    rw [renderItems, spellingItems]
    exact htail
  | cons item items ih =>
    rw [List.forall_mem_cons] at h
    have hcomma := delimits_lead hspacing (delimits_punctuation (c := ',') rfl) depth
    have hround := hcomma.around h.1 (ih h.2)
    rw [renderItems, spellingItems]
    simpa only [List.cons_append, List.nil_append, List.append_assoc] using hround

theorem delimits_renderMembers {members : List (Written × Json)} {depth : Nat}
    (hk : ∀ m ∈ members, Enclosed m.1)
    (hv : ∀ m ∈ members, Spells (render spacing depth m.2) (spelling m.2)) {tail : List Char}
    {ts : List Token} (htail : Delimits tail ts) :
    Delimits (renderMembers spacing depth members ++ tail) (spellingMembers members ++ ts) := by
  induction members with
  | nil =>
    rw [renderMembers, spellingMembers]
    exact htail
  | cons m members ih =>
    obtain ⟨key, value⟩ := m
    rw [List.forall_mem_cons] at hk hv
    have hcomma := delimits_key hspacing hk.1 depth (c := ',') rfl
    have hround := hcomma.around hv.1 (ih hk.2 hv.2)
    rw [renderMembers, spellingMembers]
    simpa only [List.cons_append, List.nil_append, List.append_assoc] using hround

theorem spells_render {j : Json} (h : j.Proper) (depth : Nat) :
    Spells (render spacing depth j) (spelling j) := by
  -- the parts of a value are written one bracket deeper
  induction h generalizing depth with
  | null =>
    rw [render, spelling]
    exact spells_word (List.cons_ne_nil _ _) rfl rfl
  | bool b =>
    cases b
    · rw [render, spelling]
      exact spells_word (List.cons_ne_nil _ _) rfl rfl
    · rw [render, spelling]
      exact spells_word (List.cons_ne_nil _ _) rfl rfl
  | number h =>
    rw [render, spelling]
    exact spells_number h
  | string h =>
    rw [render, spelling]
    exact (delimits_quote h).spells
  | @array items _ ih =>
    cases items with
    | nil =>
      rw [render, spelling]
      exact ((delimits_punctuation (c := '[') rfl).append
        (delimits_punctuation (c := ']') rfl)).spells
    | cons item items =>
      rw [List.forall_mem_cons] at ih
      have hopen := delimits_lead hspacing (delimits_punctuation (c := '[') rfl) (depth + 1)
      have hclose := delimits_close hspacing depth (c := ']') rfl
      have hitems := delimits_renderItems hspacing (fun j hj => ih.2 j hj (depth + 1)) hclose
      have hround := (hopen.around (ih.1 (depth + 1)) hitems).spells
      rw [render, spelling]
      simpa only [List.cons_append, List.nil_append, List.append_assoc] using hround
  | @object members hk _ ih =>
    cases members with
    | nil =>
      rw [render, spelling]
      exact ((delimits_punctuation (c := '\x7b') rfl).append
        (delimits_punctuation (c := '\x7d') rfl)).spells
    | cons m members =>
      obtain ⟨key, value⟩ := m
      rw [List.forall_mem_cons] at hk ih
      have hopen := delimits_key hspacing hk.1 (depth + 1) (c := '\x7b') rfl
      have hclose := delimits_close hspacing depth (c := '\x7d') rfl
      have hmembers := delimits_renderMembers hspacing hk.2
        (fun m hm => ih.2 m hm (depth + 1)) hclose
      have hround := (hopen.around (ih.1 (depth + 1)) hmembers).spells
      rw [render, spelling]
      simpa only [List.cons_append, List.nil_append, List.append_assoc] using hround

end Writing

namespace Progress

theorem run?_cons {p q : Progress} {t : Token} (h : p.step? t = some q) (ts : List Token) :
    p.run? (t :: ts) = q.run? ts := by
  rw [run?, h]

theorem run?_firstItem (j : Json) (outer : List Frame) (rest : List Token) :
    (firstItem outer).run? (spelling j ++ rest) =
      (value (.item [] :: outer)).run? (spelling j ++ rest) := by
  cases j with
  | null => rfl
  | bool b => rfl
  | number n => rfl
  | string s => rfl
  | array items => cases items <;> (rw [spelling]; rfl)
  | object members => cases members <;> (rw [spelling]; rfl)

def Reads (j : Json) : Prop := ∀ outer rest,
  (value outer).run? (spelling j ++ rest) = (after j outer).run? rest

theorem run?_spellingItems {items : List Json} (h : ∀ j ∈ items, Reads j) (done : Json)
    (before : List Json) (outer : List Frame) (rest : List Token) :
    (after done (.item before :: outer)).run? (spellingItems items ++ .closeArray :: rest) =
      (after (.array ((done :: before).reverse ++ items)) outer).run? rest := by
  induction items generalizing done before with
  | nil =>
    rw [spellingItems, List.append_nil]
    exact run?_cons rfl rest
  | cons item items ih =>
    rw [List.forall_mem_cons] at h
    have hcomma : (after done (.item before :: outer)).step? .comma =
        some (value (.item (done :: before) :: outer)) := rfl
    rw [spellingItems, List.cons_append, run?_cons hcomma, List.append_assoc, h.1, ih h.2,
      List.reverse_cons (a := item), List.append_assoc]
    rfl

theorem run?_spellingMembers {members : List (Written × Json)} (h : ∀ m ∈ members, Reads m.2)
    (done : Json) (before : List (Written × Json)) (key : Written) (outer : List Frame)
    (rest : List Token) :
    (after done (.member before key :: outer)).run?
        (spellingMembers members ++ .closeObject :: rest) =
      (after (.object (((key, done) :: before).reverse ++ members)) outer).run? rest := by
  induction members generalizing done before key with
  | nil =>
    rw [spellingMembers, List.append_nil]
    exact run?_cons rfl rest
  | cons m members ih =>
    obtain ⟨next, value⟩ := m
    rw [List.forall_mem_cons] at h
    have hcomma : (after done (.member before key :: outer)).step? .comma =
        some (.key outer ((key, done) :: before)) := rfl
    have hkey : (Progress.key outer ((key, done) :: before)).step? (.string next) =
        some (.colon outer ((key, done) :: before) next) := rfl
    have hcolon : (Progress.colon outer ((key, done) :: before) next).step? .colon =
        some (.value (.member ((key, done) :: before) next :: outer)) := rfl
    rw [spellingMembers, List.cons_append, List.cons_append, List.cons_append, run?_cons hcomma,
      run?_cons hkey, run?_cons hcolon, List.append_assoc, h.1, ih h.2,
      List.reverse_cons (a := (next, value)), List.append_assoc]
    rfl

theorem reads_of_proper {j : Json} (h : j.Proper) : Reads j := by
  intro outer rest
  -- a part is read with the frame of its array or object on top
  induction h generalizing outer rest with
  | null => exact run?_cons rfl rest
  | bool b => exact run?_cons rfl rest
  | number _ => exact run?_cons rfl rest
  | string _ => exact run?_cons rfl rest
  | @array items _ ih =>
    cases items with
    | nil =>
      rw [spelling]
      rfl
    | cons item items =>
      rw [List.forall_mem_cons] at ih
      have hopen : (value outer).step? .openArray = some (firstItem outer) := rfl
      rw [spelling, List.cons_append, run?_cons hopen, List.append_assoc, run?_firstItem, ih.1,
        List.append_assoc]
      exact run?_spellingItems ih.2 item [] outer rest
  | @object members _ _ ih =>
    cases members with
    | nil =>
      rw [spelling]
      rfl
    | cons m members =>
      obtain ⟨key, inner⟩ := m
      rw [List.forall_mem_cons] at ih
      have hopen : (value outer).step? .openObject = some (firstKey outer) := rfl
      have hkey : (firstKey outer).step? (.string key) = some (colon outer [] key) := rfl
      have hcolon : (colon outer [] key).step? .colon = some (value (.member [] key :: outer)) :=
        rfl
      rw [spelling, List.cons_append, List.cons_append, List.cons_append, run?_cons hopen,
        run?_cons hkey, run?_cons hcolon, List.append_assoc, ih.1, List.append_assoc]
      exact run?_spellingMembers ih.2 inner [] key outer rest

end Progress

theorem ofTokens?_spelling {j : Json} (h : j.Proper) : ofTokens? (spelling j) = some j := by
  have hread := Progress.reads_of_proper h [] []
  rw [List.append_nil] at hread
  rw [ofTokens?, hread]
  rfl

theorem parse?_render {spacing : Spacing} (hspacing : spacing.Blank) {j : Json} (h : j.Proper) :
    parse? (String.ofList (render spacing 0 j)) = some j := by
  rw [parse?, String.toList_ofList, (spells_render hspacing h 0).tokens?, Option.bind_some,
    ofTokens?_spelling h]

theorem parse?_pretty {j : Json} (h : j.Proper) : parse? j.pretty = some j :=
  parse?_render Spacing.blank_pretty h

end LinearProgram.Json
