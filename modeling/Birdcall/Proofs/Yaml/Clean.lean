import Birdcall.Proofs.Yaml.Lines

/-!
# The characters of a document

Whatever the words are, a document is written with characters that may stand in a YAML text, and
without a byte order mark: single quotes and blocks are used only for texts of such characters, and
in double quotes every other character is escaped.
-/

namespace Birdcall.Yaml.Written

/-- Characters that can be written as they are. -/
def Clean (cs : List Char) : Prop := ∀ ch ∈ cs, ch = '\t' ∨ isPrintable ch = true

instance (cs : List Char) : Decidable (Clean cs) :=
  List.decidableBAll (fun ch => ch = '\t' ∨ isPrintable ch = true) cs

variable {cs ds : List Char}

theorem clean_cons {ch : Char} :
    Clean (ch :: cs) ↔ (ch = '\t' ∨ isPrintable ch = true) ∧ Clean cs :=
  List.forall_mem_cons

theorem clean_append : Clean (cs ++ ds) ↔ Clean cs ∧ Clean ds := List.forall_mem_append

theorem Clean.isAllowed (h : Clean cs) : ∀ ch ∈ cs, Yaml.isAllowed ch = true := by
  intro ch hch
  rcases h ch hch with rfl | hprintable
  · rfl
  · simp only [isPrintable, Yaml.isAllowed, Bool.or_eq_true, Bool.and_eq_true,
      decide_eq_true_eq] at hprintable ⊢
    omega

theorem Clean.ne_mark (h : Clean cs) : '\uFEFF' ∉ cs := by
  intro hmem
  rcases h _ hmem with hch | hch <;> cases hch

theorem clean_replicate (n : Nat) : Clean (List.replicate n ' ') := by
  intro ch hch
  rw [List.eq_of_mem_replicate hch]
  exact .inr rfl

/-! ## Scalars -/

theorem clean_of_specials (h : (looks cs).specials = false) : Clean cs := by
  intro ch hch
  simp only [looks, List.any_eq_false] at h
  have hch := h ch hch
  by_cases htab : ch = '\t'
  · exact .inl htab
  · exact .inr (by simpa [htab] using hch)

theorem clean_of_plain (h : (looks cs).plain = true) : Clean cs := by
  simp only [Looks.plain, Bool.not_eq_true', Bool.or_eq_false_iff] at h
  exact clean_of_specials h.1.1.2

theorem clean_bigHex (width n : Nat) : Clean (bigHex width n) := by
  have hall : ∀ k : Fin 16, Clean [Char.toUpper (Char.ofNat (Text.hexDigit k.val).toNat)] := by
    decide +kernel
  induction width generalizing n with
  | zero => simp [bigHex, Text.hex, Clean]
  | succ width ih =>
    rw [bigHex_succ]
    exact clean_append.2 ⟨ih _, hall ⟨n % 16, by omega⟩⟩

theorem clean_escape (ch : Char) : Clean (escape ch) := by
  unfold escape
  split
  case h_16 =>
    have hback : ∀ e, Clean ['\\', e] → ∀ width n, Clean ('\\' :: e :: bigHex width n) :=
      fun e he width n => clean_append.2 ⟨he, clean_bigHex width n⟩
    split
    · exact hback 'x' (by decide) _ _
    · split
      · exact hback 'u' (by decide) _ _
      · exact hback 'U' (by decide) _ _
  all_goals decide

theorem clean_doubleQuoted (cs : List Char) : Clean (doubleQuoted cs) := by
  have hspelling : ∀ marked ch, Clean (spelling marked ch) := by
    intro marked ch
    unfold spelling
    split
    · exact clean_escape ch
    next hraw =>
      have hprintable : isPrintable ch = true := by
        cases h : isPrintable ch with
        | true => rfl
        | false => simp [h] at hraw
      exact clean_cons.2 ⟨.inr hprintable, by simp [Clean]⟩
  rw [doubleQuoted_eq]
  refine clean_append.2 ⟨clean_cons.2 ⟨.inr rfl, ?_⟩, by decide⟩
  intro d hd
  obtain ⟨ch, -, hd⟩ := List.mem_flatMap.1 hd
  exact hspelling _ ch d hd

theorem clean_singleInside (indent : Nat) (broken : Bool) (h : Clean cs) :
    Clean (singleInside indent broken cs) := by
  induction cs generalizing broken with
  | nil => exact h
  | cons ch cs ih =>
    obtain ⟨hch, hcs⟩ := clean_cons.1 h
    have hone : Clean [ch] := clean_cons.2 ⟨hch, by simp [Clean]⟩
    have htwo : Clean [ch, ch] := clean_cons.2 ⟨hch, hone⟩
    rw [singleInside]
    split
    · exact clean_cons.2 ⟨hch, ih _ hcs⟩
    · split
      · refine clean_append.2 ⟨?_, ih _ hcs⟩
        split
        · exact htwo
        · exact hone
      · refine clean_append.2 ⟨clean_append.2 ⟨?_, ?_⟩, ih _ hcs⟩
        · split
          · exact clean_replicate indent
          · simp [Clean]
        · split
          · exact htwo
          · exact hone

theorem clean_blockBody (indent : Nat) (atStart broken : Bool) (h : Clean cs) :
    Clean (blockBody indent atStart broken cs) := by
  induction cs generalizing atStart broken with
  | nil => exact h
  | cons ch cs ih =>
    obtain ⟨hch, hcs⟩ := clean_cons.1 h
    rw [blockBody]
    split
    · exact clean_cons.2 ⟨hch, ih _ _ hcs⟩
    · refine clean_append.2 ⟨?_, clean_cons.2 ⟨hch, ih _ _ hcs⟩⟩
      split
      · refine clean_append.2 ⟨?_, clean_replicate indent⟩
        cases atStart <;> decide
      · simp [Clean]

theorem clean_block (h : Clean cs) : Clean (block 4 8 cs) := by
  have hsigns : Clean ('|' :: blockSigns 4 cs) := by
    rw [blockSigns_eq]
    cases hinted cs <;> cases chompOf cs <;> decide
  exact clean_append.2 ⟨hsigns, clean_blockBody 8 false true h⟩

theorem Spelled.clean {own : Bool} {written : List Char} {style : Style}
    {back? : Option (List Char)} (h : Spelled own cs written style back?) : Clean written := by
  cases h with
  | block _ h =>
    simp only [Looks.block, Bool.not_eq_true', Bool.or_eq_false_iff] at h
    exact clean_block (clean_of_specials h.2)
  | double => exact clean_doubleQuoted cs
  | single _ h =>
    simp only [Looks.single, Bool.not_eq_true', Bool.or_eq_false_iff] at h
    have hinside := clean_singleInside 8 false (clean_of_specials h.2)
    exact clean_append.2 ⟨clean_cons.2 ⟨.inr rfl, hinside⟩, by decide⟩
  | plain _ h =>
    rcases h with rfl | h
    · simp [Clean]
    · exact clean_of_plain h

theorem clean_wordForm (t : Text) : Clean (wordForm t) := by
  rw [wordForm]
  split
  · exact (spelled_form _ _).clean
  · have hheading : Clean ("!!binary".toList ++ [' ']) := by decide
    rw [List.append_cons]
    exact clean_append.2 ⟨hheading, (spelled_form _ _).clean⟩

/-! ## Documents -/

theorem clean_lineEnd (cs : List Char) : Clean (lineEnd cs) := by
  rw [lineEnd]
  split <;> decide

theorem clean_entries {es : List (List Char × Text)} (h : ∀ e ∈ es, Clean e.1) :
    Clean (entries es) := by
  induction es with
  | nil => simp [entries, Clean]
  | cons e es ih =>
    obtain ⟨he, hes⟩ := List.forall_mem_cons.1 h
    simp only [entries, clean_append, clean_cons]
    exact ⟨he, .inr rfl, .inr rfl, clean_wordForm _, clean_lineEnd _, clean_replicate _, ih hes⟩

theorem clean_settings {ps : List (List Char × List Char)} {rest : List Char}
    (h : ∀ p ∈ ps, Clean p.1 ∧ (looks p.2).plain = true) (hrest : Clean rest) :
    Clean (settings ps rest) := by
  induction ps with
  | nil => exact hrest
  | cons p ps ih =>
    obtain ⟨hp, hps⟩ := List.forall_mem_cons.1 h
    simp only [settings, List.foldr_cons, clean_append, clean_cons]
    exact ⟨hp.1, .inr rfl, .inr rfl, clean_of_plain hp.2, .inr rfl, ih hps⟩

theorem clean_document {ps : List (List Char × List Char)} {w : List Char}
    {es : List (List Char × Text)} (hps : ∀ p ∈ ps, Clean p.1 ∧ (looks p.2).plain = true)
    (hw : Clean w) (hes : ∀ e ∈ es, Clean e.1) : Clean (document ps w es) := by
  refine clean_settings hps ?_
  simp only [clean_append, clean_cons]
  exact ⟨hw, .inr rfl, .inr rfl, clean_replicate 4, clean_entries hes⟩

end Birdcall.Yaml.Written
