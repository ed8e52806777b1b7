import LinearProgram.Json.Printer
import LinearProgram.Json.Token
import LinearProgram.Proofs.Json.Escape
import LinearProgram.Proofs.Number.Numeral

/-!
How texts become tokens. A text that starts between tokens may leave a word open at its end, so
there are two ways in which a text spells tokens: the one for values, and the one for what stands
around them, which ends a word in front of it and leaves none open.
-/

namespace LinearProgram.Json

namespace Scan

theorem run?_append (s : Scan) (as bs : List Char) :
    s.run? (as ++ bs) = (s.run? as).bind (·.run? bs) := by
  induction as generalizing s with
  | nil => rfl
  | cons c as ih =>
    rw [List.cons_append, run?, run?]
    cases s.step? c with
    | none => rfl
    | some next => exact ih next

theorem run?_cons {s next : Scan} {c : Char} (h : s.step? c = some next) (cs : List Char) :
    s.run? (c :: cs) = next.run? cs := by
  rw [run?, h]

theorem step?_of_settle? {s : Scan} {found : List Token} (h : s.settle? = some found) :
    ∃ gathered, ∀ c, s.step? c = s.outside? gathered c := by
  obtain ⟨mode, before⟩ := s
  cases mode with
  | blank => exact ⟨[], fun _ => rfl⟩
  | word gathered => exact ⟨gathered, fun _ => rfl⟩
  | string gathered => cases h
  | escape gathered => cases h
  | unicode missing gathered => cases h

theorem step?_blank {s : Scan} {found : List Token} (h : s.settle? = some found) {c : Char}
    (hc : isBlank c = true) : s.step? c = some ⟨.blank, found⟩ := by
  obtain ⟨gathered, hstep⟩ := step?_of_settle? h
  rw [hstep, outside?, if_pos hc, h]
  rfl

theorem step?_quote {s : Scan} {found : List Token} (h : s.settle? = some found) :
    s.step? '"' = some ⟨.string [], found⟩ := by
  obtain ⟨gathered, hstep⟩ := step?_of_settle? h
  rw [hstep, outside?, if_neg (by decide), if_pos rfl, h]
  rfl

theorem step?_punctuation {s : Scan} {found : List Token} (h : s.settle? = some found) {c : Char}
    {t : Token} (hc : punctuation? c = some t) : s.step? c = some ⟨.blank, t :: found⟩ := by
  obtain ⟨gathered, hstep⟩ := step?_of_settle? h
  have hb : isBlank c = false ∧ c ≠ '"' := by
    revert hc
    unfold punctuation?
    split <;> intro hc
    iterate 6 exact ⟨by decide, by decide⟩
    cases hc
  rw [hstep, outside?, if_neg (ne_true_of_eq_false hb.1), if_neg hb.2, hc, h]
  rfl

theorem run?_blanks {blanks : List Char} (hb : ∀ c ∈ blanks, isBlank c = true)
    (found : List Token) : run? ⟨.blank, found⟩ blanks = some ⟨.blank, found⟩ := by
  induction blanks with
  | nil => rfl
  | cons c blanks ih =>
    rw [List.forall_mem_cons] at hb
    rw [run?_cons (step?_blank rfl hb.1), ih hb.2]

def continues (c : Char) : Bool := !isBlank c && c != '"' && (punctuation? c).isNone

theorem outside?_of_continues (s : Scan) (gathered : List Char) {c : Char}
    (hc : continues c = true) : s.outside? gathered c = some ⟨.word (c :: gathered), s.found⟩ := by
  rw [continues, Bool.and_eq_true, Bool.and_eq_true, Bool.not_eq_true', bne_iff_ne,
    Option.isNone_iff_eq_none] at hc
  rw [outside?, if_neg (ne_true_of_eq_false hc.1.1), if_neg hc.1.2, hc.2]

theorem run?_word {cs : List Char} (hc : cs.all continues = true) (gathered : List Char)
    (found : List Token) :
    run? ⟨.word gathered, found⟩ cs = some ⟨.word (cs.reverse ++ gathered), found⟩ := by
  induction cs generalizing gathered with
  | nil => rfl
  | cons c cs ih =>
    rw [List.all_cons, Bool.and_eq_true] at hc
    have hstep : step? ⟨.word gathered, found⟩ c = some ⟨.word (c :: gathered), found⟩ :=
      outside?_of_continues _ gathered hc.1
    rw [run?_cons hstep, ih hc.2, List.reverse_cons, List.append_assoc]
    rfl

theorem run?_unicode {cs : List Char} (hc : cs.all (fun c => (Text.hexDigit? c).isSome) = true)
    {missing : Nat} (hlength : cs.length = missing + 1) (gathered : List Char)
    (found : List Token) : run? ⟨.unicode missing gathered, found⟩ cs =
      some ⟨.string (cs.reverse ++ gathered), found⟩ := by
  induction cs generalizing missing gathered with
  | nil => cases hlength
  | cons c cs ih =>
    rw [List.all_cons, Bool.and_eq_true] at hc
    rw [List.length_cons, Nat.succ_inj] at hlength
    cases missing with
    | zero =>
      have hstep : step? ⟨.unicode 0 gathered, found⟩ c = some ⟨.string (c :: gathered), found⟩ :=
        if_pos hc.1
      rw [List.eq_nil_of_length_eq_zero hlength, run?_cons hstep]
      rfl
    | succ missing =>
      have hstep : step? ⟨.unicode (missing + 1) gathered, found⟩ c =
          some ⟨.unicode missing (c :: gathered), found⟩ := if_pos hc.1
      rw [run?_cons hstep, ih hc.2 hlength, List.reverse_cons, List.append_assoc]
      rfl

end Scan

def Enclosed (s : Written) : Prop := ∀ gathered found,
  Scan.run? ⟨.string gathered, found⟩ s = some ⟨.string (s.reverse ++ gathered), found⟩

theorem Enclosed.nil : Enclosed [] := fun _ _ => rfl

theorem Enclosed.append {as bs : Written} (ha : Enclosed as) (hb : Enclosed bs) :
    Enclosed (as ++ bs) := by
  intro gathered found
  rw [Scan.run?_append, ha, Option.bind_some, hb, List.reverse_append, List.append_assoc]

theorem enclosed_single {c : Char} (hq : c ≠ '"') (hb : c ≠ '\\') (hc : ¬ c.toNat < 32) :
    Enclosed [c] := by
  intro gathered found
  have hstep : Scan.step? ⟨.string gathered, found⟩ c = some ⟨.string (c :: gathered), found⟩ :=
    (if_neg hq).trans ((if_neg hb).trans (if_neg hc))
  rw [Scan.run?_cons hstep]
  rfl

theorem step?_backslash (gathered : List Char) (found : List Token) :
    Scan.step? ⟨.string gathered, found⟩ '\\' = some ⟨.escape ('\\' :: gathered), found⟩ := rfl

theorem enclosed_short {letter : Char} (hu : letter ≠ 'u') (hl : isShortEscape letter = true) :
    Enclosed ['\\', letter] := by
  intro gathered found
  have hletter : Scan.step? ⟨.escape ('\\' :: gathered), found⟩ letter =
      some ⟨.string (letter :: '\\' :: gathered), found⟩ := (if_neg hu).trans (if_pos hl)
  rw [Scan.run?_cons (step?_backslash gathered found), Scan.run?_cons hletter]
  rfl

theorem enclosed_unicode {ds : List Char} (hlength : ds.length = 4)
    (hd : ds.all (fun c => (Text.hexDigit? c).isSome) = true) : Enclosed ('\\' :: 'u' :: ds) := by
  intro gathered found
  have hu : Scan.step? ⟨.escape ('\\' :: gathered), found⟩ 'u' =
      some ⟨.unicode 3 ('u' :: '\\' :: gathered), found⟩ := rfl
  rw [Scan.run?_cons (step?_backslash gathered found), Scan.run?_cons hu,
    Scan.run?_unicode hd hlength, List.reverse_cons, List.reverse_cons, List.append_assoc,
    List.append_assoc]
  rfl

theorem enclosed_escapeChar (c : Char) : Enclosed (escapeChar c) := by
  unfold escapeChar
  split
  iterate 7 exact enclosed_short (by decide) (by decide)
  split
  · rename_i hc
    obtain ⟨hlength, -, hd⟩ := hex_control c.toNat hc
    exact enclosed_unicode hlength hd
  · rename_i hq hb _ _ _ _ _ hc
    exact enclosed_single hq hb hc

theorem enclosed_escape (s : String) : Enclosed (escape s) := by
  have h (cs : List Char) : Enclosed (cs.flatMap escapeChar) := by
    induction cs with
    | nil => exact .nil
    | cons c cs ih =>
      rw [List.flatMap_cons]
      exact (enclosed_escapeChar c).append ih
  exact h s.toList

def Spells (cs : List Char) (ts : List Token) : Prop := ∀ found, ∃ s : Scan,
  Scan.run? ⟨.blank, found⟩ cs = some s ∧ s.settle? = some (ts.reverse ++ found)

def Delimits (cs : List Char) (ts : List Token) : Prop := ∀ (s : Scan) found,
  s.settle? = some found → s.run? cs = some ⟨.blank, ts.reverse ++ found⟩

theorem Spells.tokens? {cs : List Char} {ts : List Token} (h : Spells cs ts) :
    tokens? cs = some ts := by
  obtain ⟨s, hrun, hsettle⟩ := h []
  rw [Json.tokens?, Scan.start, hrun, Option.bind_some, hsettle, List.append_nil, Option.map_some,
    List.reverse_reverse]

theorem spells_word {cs : List Char} (hne : cs ≠ []) (hc : cs.all Scan.continues = true)
    {t : Token} (ht : word? cs = some t) : Spells cs [t] := by
  intro found
  cases cs with
  | nil => exact absurd rfl hne
  | cons c cs =>
    rw [List.all_cons, Bool.and_eq_true] at hc
    have hstep : Scan.step? ⟨.blank, found⟩ c = some ⟨.word [c], found⟩ :=
      Scan.outside?_of_continues _ [] hc.1
    refine ⟨⟨.word (cs.reverse ++ [c]), found⟩, ?_, ?_⟩
    · rw [Scan.run?_cons hstep, Scan.run?_word hc.2]
    · rw [Scan.settle?, ← List.reverse_cons]
      simp only [List.reverse_reverse, ht, Option.map_some]
      rfl

theorem continues_alphabet : Numeral.alphabet.all Scan.continues = true := by decide

theorem word?_text {n : Numeral} (h : n.WellFormed) : word? n.text = some (.number n) := by
  have hn : 'n' ∉ n.text := fun hm => absurd (Numeral.mem_text hm) (by decide)
  have ht : 't' ∉ n.text := fun hm => absurd (Numeral.mem_text hm) (by decide)
  have hf : 'f' ∉ n.text := fun hm => absurd (Numeral.mem_text hm) (by decide)
  rw [word?.eq_def]
  split
  · rename_i he
    exact absurd (he ▸ List.mem_cons_self) hn
  · rename_i he
    exact absurd (he ▸ List.mem_cons_self) ht
  · rename_i he
    exact absurd (he ▸ List.mem_cons_self) hf
  · rw [Numeral.ofText?_text h]
    rfl

theorem spells_number {n : Numeral} (h : n.WellFormed) : Spells n.text [.number n] := by
  apply spells_word
  · intro he
    have hread := Numeral.ofText?_text h
    rw [he] at hread
    cases hread
  · exact List.all_eq_true.mpr fun c hc =>
      List.all_eq_true.mp continues_alphabet c (Numeral.mem_text hc)
  · exact word?_text h

theorem delimits_punctuation {c : Char} {t : Token} (h : punctuation? c = some t) :
    Delimits [c] [t] := by
  intro s found hs
  rw [Scan.run?_cons (Scan.step?_punctuation hs h)]
  rfl

theorem delimits_quote {s : Written} (h : Enclosed s) : Delimits (quote s) [.string s] := by
  intro s' found hs
  rw [quote, List.cons_append, Scan.run?_cons (Scan.step?_quote hs), Scan.run?_append, h,
    Option.bind_some, List.append_nil]
  have hstep : Scan.step? ⟨.string s.reverse, found⟩ '"' = some ⟨.blank, .string s :: found⟩ := by
    rw [← List.reverse_reverse s, List.reverse_reverse s.reverse]
    rfl
  rw [Scan.run?_cons hstep]
  rfl

namespace Delimits

variable {as bs cs blanks : List Char} {ts us vs : List Token}

theorem spells (h : Delimits as ts) : Spells as ts := fun found => ⟨_, h _ found rfl, rfl⟩

theorem append (ha : Delimits as ts) (hb : Delimits bs us) : Delimits (as ++ bs) (ts ++ us) := by
  intro s found hs
  rw [Scan.run?_append, ha s found hs, Option.bind_some, hb _ _ rfl, List.reverse_append,
    List.append_assoc]

theorem behind (hb : ∀ c ∈ blanks, isBlank c = true) (h : Delimits as ts) :
    Delimits (blanks ++ as) ts := by
  intro s found hs
  cases blanks with
  | nil => exact h s found hs
  | cons c blanks =>
    rw [List.forall_mem_cons] at hb
    rw [List.cons_append, Scan.run?_cons (Scan.step?_blank hs hb.1), Scan.run?_append,
      Scan.run?_blanks hb.2, Option.bind_some, h _ _ rfl]

theorem before (h : Delimits as ts) (hb : ∀ c ∈ blanks, isBlank c = true) :
    Delimits (as ++ blanks) ts := by
  intro s found hs
  rw [Scan.run?_append, h s found hs, Option.bind_some, Scan.run?_blanks hb]

theorem around (ha : Delimits as ts) (hb : Spells bs us) (hc : Delimits cs vs) :
    Delimits (as ++ (bs ++ cs)) (ts ++ (us ++ vs)) := by
  intro s found hs
  obtain ⟨s', hrun, hsettle⟩ := hb (ts.reverse ++ found)
  rw [Scan.run?_append, ha s found hs, Option.bind_some, Scan.run?_append, hrun, Option.bind_some,
    hc s' _ hsettle, List.reverse_append, List.reverse_append, List.append_assoc, List.append_assoc]

end Delimits

end LinearProgram.Json
