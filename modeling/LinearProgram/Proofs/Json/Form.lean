import LinearProgram.Json.Form
import LinearProgram.Proofs.Json.Reader

namespace LinearProgram

namespace JsonForm

open Json (Proper)

def Kept {α : Type} [JsonForm α] [BEq α] (a : α) : Prop :=
  ∃ b, read? (write a) = some b ∧ (b == a) = true

variable {α β : Type} [JsonForm α] [JsonForm β]

omit [JsonForm α] [JsonForm β] in
theorem exists_bind_iff {γ : Type} [BEq γ] {x : Option α} {y : Option β} {join : α → β → γ} {c : γ}
    {P : α → Prop} {Q : β → Prop} (h : ∀ a b, (join a b == c) = true ↔ P a ∧ Q b) :
    (∃ c', (x.bind fun a => y.bind fun b => some (join a b)) = some c' ∧ (c' == c) = true) ↔
      (∃ a, x = some a ∧ P a) ∧ ∃ b, y = some b ∧ Q b := by
  constructor
  · rintro ⟨c', hc, he⟩
    obtain ⟨a, ha, hc⟩ := Option.bind_eq_some_iff.mp hc
    obtain ⟨b, hb, hc⟩ := Option.bind_eq_some_iff.mp hc
    cases hc
    obtain ⟨hP, hQ⟩ := (h a b).mp he
    exact ⟨⟨a, ha, hP⟩, b, hb, hQ⟩
  · rintro ⟨⟨a, ha, hP⟩, b, hb, hQ⟩
    refine ⟨join a b, ?_, (h a b).mpr ⟨hP, hQ⟩⟩
    rw [ha, hb]
    rfl

theorem proper_stringOf (s : String) : Proper (stringOf s) := .string (Json.enclosed_escape s)

theorem read?_string (s : String) : read? (write s) = some s := Json.unescape?_escape s

theorem kept_string (s : String) : Kept s := ⟨s, read?_string s, beq_self_eq_true s⟩

theorem proper_float (x : Float) : Proper (write x) := by
  change Proper (((Layout.json.numeral? x).map Json.number).getD .null)
  cases h : Layout.json.numeral? x with
  | none => exact .null
  | some n => exact .number (Layout.wellFormed_of_numeral? h)

theorem read?_float (x : Float) :
    read? (write x) = (Layout.json.numeral? x).bind Numeral.toFloat? := by
  change read? (((Layout.json.numeral? x).map Json.number).getD .null) = _
  cases Layout.json.numeral? x <;> rfl

theorem proper_option (h : ∀ a : α, Proper (write a)) (a : Option α) : Proper (write a) := by
  cases a with
  | none => exact .null
  | some a => exact h a

theorem read?_title (s : Option String) : read? (write s) = some s := by
  cases s with
  | none => rfl
  | some s =>
    change (read? (write s)).map some = _
    rw [read?_string]
    rfl

theorem kept_side {x : Option Float} : Kept x ↔ ∀ y ∈ x, Kept y := by
  cases x with
  | none => exact ⟨fun _ y h => absurd h (Option.not_mem_none y), fun _ => ⟨none, rfl, rfl⟩⟩
  | some x =>
    have hx : (∀ y ∈ some x, Kept y) ↔ Kept x :=
      ⟨fun h => h x rfl, fun h y hy => Option.some.inj hy ▸ h⟩
    rw [hx]
    change (∃ b, read? (((Layout.json.numeral? x).map Json.number).getD .null) = some b ∧ _) ↔
      ∃ b, read? (((Layout.json.numeral? x).map Json.number).getD .null) = some b ∧ _
    cases Layout.json.numeral? x with
    | none =>
      constructor
      · rintro ⟨b, hb, he⟩
        cases hb
        cases he
      · rintro ⟨b, hb, he⟩
        cases hb
    | some n =>
      change (∃ b, n.toFloat?.map some = some b ∧ _) ↔ ∃ b, n.toFloat? = some b ∧ _
      constructor
      · rintro ⟨b, hb, he⟩
        obtain ⟨y, hy, rfl⟩ := Option.map_eq_some_iff.mp hb
        exact ⟨y, hy, he⟩
      · rintro ⟨y, hy, he⟩
        exact ⟨some y, by rw [hy]; rfl, he⟩

theorem proper_list (h : ∀ a : α, Proper (write a)) (as : List α) : Proper (write as) :=
  .array (List.forall_mem_map.mpr fun a _ => h a)

theorem kept_list [BEq α] {as : List α} : Kept as ↔ ∀ a ∈ as, Kept a := by
  have hread (as : List α) : (read? (write as) : Option (List α)) = (as.map write).mapM read? := rfl
  induction as with
  | nil => exact ⟨fun _ _ h => absurd h List.not_mem_nil, fun _ => ⟨[], rfl, rfl⟩⟩
  | cons a as ih =>
    refine Iff.trans ?_ (List.forall_mem_cons.trans (and_congr_right fun _ => ih.symm)).symm
    unfold Kept
    rw [hread, hread, List.map_cons, List.mapM_cons]
    refine exists_bind_iff fun b bs => ?_
    rw [List.cons_beq_cons, Bool.and_eq_true]

theorem proper_pair (ha : ∀ a : α, Proper (write a)) (hb : ∀ b : β, Proper (write b))
    (pair : α × β) : Proper (write pair) :=
  .array (List.forall_mem_cons.mpr ⟨ha pair.1, List.forall_mem_singleton.mpr (hb pair.2)⟩)

theorem kept_pair [BEq α] [BEq β] {a : α} {b : β} : Kept (a, b) ↔ Kept a ∧ Kept b :=
  exists_bind_iff fun _ _ => Bool.and_eq_true_iff

omit [JsonForm α] in
theorem read?_ofNames (all : List α) (name : α → String) (a : α) :
    (ofNames all name).read? ((ofNames all name).write a) = all.find? (name · == name a) := by
  change ((Json.unescape? (Json.escape (name a))).bind fun text =>
    all.find? (name · == text)) = _
  rw [Json.unescape?_escape]
  rfl

end JsonForm

namespace Field

open Json (Proper)

def object (members : List (String × Json)) : Json :=
  .object (members.map fun m => (Json.escape m.1, m.2))

theorem proper_object (members : List (String × Json)) (h : ∀ m ∈ members, Proper m.2) :
    Proper (object members) :=
  .object (List.forall_mem_map.mpr fun m _ => Json.enclosed_escape m.1)
    (List.forall_mem_map.mpr h)

theorem mapM_unescape? (members : List (String × Json)) :
    (members.map fun m => (Json.escape m.1, m.2)).mapM
      (fun m => (Json.unescape? m.1).map (·, m.2)) = some members := by
  induction members with
  | nil => rfl
  | cons m members ih =>
    rw [List.map_cons, List.mapM_cons, ih, Json.unescape?_escape]
    rfl

theorem values?_object (fields : List Field) (members : List (String × Json)) :
    values? fields (object members) = fields.mapM (·.among? members) := by
  change ((members.map fun m => (Json.escape m.1, m.2)).mapM
    (fun m => (Json.unescape? m.1).map (·, m.2))).bind
      (fun named => fields.mapM (·.among? named)) = _
  rw [mapM_unescape?]
  rfl

end Field

theorem Json.decode?_pretty {α : Type} [JsonForm α] {a : α}
    (h : Json.Proper (JsonForm.write a)) :
    Json.decode? α (JsonForm.write a).pretty = JsonForm.read? (JsonForm.write a) := by
  rw [Json.decode?, Json.parse?_pretty h, Option.bind_some]

end LinearProgram
