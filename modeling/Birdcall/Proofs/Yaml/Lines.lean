import Birdcall.Proofs.Yaml.Word

/-!
# Lines of a mapping

The tokens that are read from a document: plain settings in lines of the form `key: value`, and a
mapping inside, of which the values are any texts.  They are read up to the end of the document, or
to a value that is malformed.
-/

namespace Birdcall.Yaml

namespace Written

/-- How far in the next of some lines is; the end of the text is not in at all. -/
def margin (es : List (List Char × Text)) : Nat := if es.isEmpty then 0 else 4

/-- Lines with keys and values, from the first key on. -/
def entries : List (List Char × Text) → List Char
  | [] => []
  | (w, t) :: es =>
    w ++ ':' :: ' ' :: (wordForm t ++ (lineEnd (wordForm t) ++
      (List.replicate (margin es) ' ' ++ entries es)))

/-- The tokens that are read from them. -/
def entryKinds : List (List Char × Text) → List TokenKind
  | [] => [.blockEnd, .blockEnd, .streamEnd]
  | (w, t) :: es =>
    match found? t with
    | none => [.key]
    | some f => .key :: .scalar (Text.encode w) .plain :: .value :: (f.kinds ++ entryKinds es)

/-- Every token but the last few stands for characters. -/
theorem length_entryKinds_le (es : List (List Char × Text)) :
    (entryKinds es).length ≤ 4 * (entries es).length + 3 := by
  induction es with
  | nil => decide
  | cons e es ih =>
    obtain ⟨w, t⟩ := e
    rw [entryKinds, entries]
    cases found? t with
    | none => simp
    | some f =>
      have hf : f.kinds.length ≤ 2 := by
        rw [Found.kinds]
        split <;> simp
      simp only [List.length_cons, List.length_append]
      omega

end Written

namespace Scanner

open Written

variable {s : Scanner} {i : Int} {is : List Int} {es : List (List Char × Text)}

/-- A line does not begin with white space, or like a comment. -/
theorem KeyWord.head {w : List Char} (hw : KeyWord w) (rest : List Char) :
    ∀ ch ∈ (w ++ rest).head?, isInk ch = true ∧ ch ≠ '#' := by
  obtain ⟨ch, w, rfl⟩ := List.exists_cons_of_ne_nil hw.plain.ne_nil
  have hink := hw.plain.ink ch List.mem_cons_self
  have hsign : ch ≠ '#' := by simpa using hw.plain.head
  simp [hink, hsign]

theorem entries_head (hkeys : ∀ e ∈ es, KeyWord e.1) :
    ∀ ch ∈ (entries es).head?, isInk ch = true ∧ ch ≠ '#' := by
  cases es with
  | nil => simp [entries]
  | cons e es => exact (hkeys e List.mem_cons_self).head _

/-- The tokens of the lines are read, behind the beginning of a block if there is none yet. -/
theorem reads_entries (hkeys : ∀ e ∈ es, KeyWord e.1)
    (hopen : i = 4 ∧ is = [0, -1] ∨ i = 0 ∧ is = [-1] ∧ es ≠ []) (hs : s.Idle i is)
    (hlen : s.queue.length = 2) (hend : .streamEnd ∉ s.kinds)
    (hdue : s.Due (margin es) (entries es)) :
    s.Reads ((if i < 4 then [.blockMapping] else []) ++ entryKinds es) := by
  induction es generalizing s i is with
  | nil =>
    obtain ⟨rfl, rfl⟩ := hopen.resolve_right (by simp)
    exact reads_end hs hlen hdue hend
  | cons e es ih =>
    obtain ⟨w, t⟩ := e
    obtain ⟨hw, hkeys⟩ := List.forall_mem_cons.1 hkeys
    obtain ⟨ch, tail, hform, hch⟩ := wordForm_head t
    have hinside : i ≤ 4 ∧ is.length < maxDepth ∧ (if i < 4 then i :: is else is) = [0, -1] := by
      rcases hopen with ⟨rfl, rfl⟩ | ⟨rfl, rfl, -⟩ <;> decide
    have hspace : isBlank ' ' = true := rfl
    have hdue : s.Due 4 (w ++ ':' :: ' ' :: (wordForm t ++ (lineEnd (wordForm t) ++
      (List.replicate (margin es) ' ' ++ entries es)))) := hdue
    obtain ⟨s₁, m, hadvances₁, hs₁, hkey, h₁, hcolumn⟩ := advances_key hw hs (.inr hlen) hdue
      hinside.1 hinside.2.1 rfl (by simp [hspace, hform, hch])
    have hs₁ : s₁.Idle 4 (if i < 4 then i :: is else is) := hs₁
    rw [hinside.2.2] at hs₁
    have hmargin : margin es ≤ 4 := by
      rw [margin]
      split <;> decide
    obtain ⟨hnone, hsome⟩ := advances_word hs₁ hadvances₁.1 hkey (Nat.le_of_lt hcolumn)
      (entries_head hkeys) hmargin h₁
    cases hfound : found? t with
    | none =>
      have hkinds : keyKinds i 4 w = ((if i < 4 then [.blockMapping] else []) ++ [.key]) ++
          [.scalar (Text.encode w) .plain, .value] := by
        simp [keyKinds]
      rw [entryKinds, hfound]
      exact Advances.reads_stop (hkinds ▸ hadvances₁) (by simp [hend]) (hnone hfound)
    | some f =>
      obtain ⟨s₂, hadvances₂, hs₂, hdue₂⟩ := hsome f hfound
      have hadvances := hadvances₁.trans hadvances₂
      have hend' : .streamEnd ∉ s.kinds ++ (keyKinds i 4 w ++ f.kinds) := by
        simp [hend, keyKinds, Found.kinds]
      have hread := ih hkeys (.inl ⟨rfl, rfl⟩) hs₂ hadvances.1
        (fun hmem => hend' (hadvances.mem_kinds hmem)) hdue₂
      have hall := hadvances.reads hend' hread
      simpa [entryKinds, hfound, keyKinds] using hall

/-! ## Settings -/

theorem keyWord_of_letters {w : List Char} (hne : w ≠ []) (h : ∀ ch ∈ w, ch.isAlpha = true)
    (hshort : w.length ≤ 1024) : KeyWord w where
  plain :=
    { ne_nil := hne
      ink := fun ch hch => (beginsPlain_letter (h ch hch) []).1
      head := fun hhead => by cases h '#' (List.mem_of_mem_head? hhead)
      last := fun hlast => by cases h ':' (List.mem_of_getLast? hlast) }
  letter ch hch := h ch (List.mem_of_mem_head? hch)
  short := hshort

/-- A key with a value that can be written plain. -/
structure Setting (p : List Char × List Char) : Prop where
  key : KeyWord p.1
  ne_nil : p.2 ≠ []
  plain : (looks p.2).plain = true

variable {p : List Char × List Char} {ps : List (List Char × List Char)} {rest : List Char}

/-- A line with a plain value at the left margin. -/
theorem advances_setting (hp : Setting p) (hs : s.Idle i is)
    (hlen : s.queue.length = 1 ∨ s.queue.length = 2)
    (hopen : i = 0 ∧ is = [-1] ∨ i = -1 ∧ is = [])
    (hdue : s.Due 0 (p.1 ++ ':' :: ' ' :: (p.2 ++ '\n' :: rest)))
    (hhead : ∀ ch ∈ rest.head?, isInk ch = true ∧ ch ≠ '#') :
    ∃ s', s.Advances (keyKinds i 0 p.1 ++ [.scalar (Text.encode p.2) .plain]) s' ∧ s'.Idle 0 [-1] ∧
      s'.Due 0 rest := by
  obtain ⟨w, v⟩ := p
  obtain ⟨hw, hne, hv⟩ := hp
  have houter : i ≤ 0 ∧ is.length < maxDepth ∧ (if i < 0 then i :: is else is) = [-1] := by
    rcases hopen with ⟨rfl, rfl⟩ | ⟨rfl, rfl⟩ <;> decide
  have hspace : isBlank ' ' = true := rfl
  obtain ⟨ch, tail, rfl⟩ := List.exists_cons_of_ne_nil hne
  obtain ⟨hink, hsign, -⟩ := beginsPlain_of_looks hv []
  obtain ⟨s₁, m, hadvances₁, hs₁, hkey, h₁, hcolumn⟩ := advances_key hw hs hlen hdue houter.1
    houter.2.1 rfl (by simp [hspace, isInk_iff.1 hink, hsign])
  have hs₁ : s₁.Idle 0 (if i < 0 then i :: is else is) := hs₁
  rw [houter.2.2] at hs₁
  have h₁ : s₁.cursor.Stands (' ' :: (ch :: tail ++ '\n' :: (List.replicate 0 ' ' ++ rest))) m := h₁
  have hfinds := finds_plain hs₁ (by omega) hhead hkey hne hv (by omega) h₁
  obtain ⟨s₂, hadvances₂, hs₂, hdue₂⟩ := hfinds.advances hadvances₁.1
  exact ⟨s₂, hadvances₁.trans hadvances₂, hs₂, hdue₂⟩

end Scanner

namespace Written

/-- Lines with plain values in front of others. -/
def settings (ps : List (List Char × List Char)) (rest : List Char) : List Char :=
  ps.foldr (fun p rest => p.1 ++ ':' :: ' ' :: (p.2 ++ '\n' :: rest)) rest

/-- The tokens of a line with a plain value. -/
def settingKinds (p : List Char × List Char) : List TokenKind :=
  [.key, .scalar (Text.encode p.1) .plain, .value, .scalar (Text.encode p.2) .plain]

end Written

namespace Scanner

open Written

variable {s : Scanner} {ps : List (List Char × List Char)} {rest : List Char}

theorem settings_head (hps : ∀ p ∈ ps, Setting p)
    (hhead : ∀ ch ∈ rest.head?, isInk ch = true ∧ ch ≠ '#') :
    ∀ ch ∈ (settings ps rest).head?, isInk ch = true ∧ ch ≠ '#' := by
  cases ps with
  | nil => exact hhead
  | cons p ps => exact (hps p List.mem_cons_self).key.head _

theorem advances_settings (hps : ∀ p ∈ ps, Setting p) (hs : s.Idle 0 [-1])
    (hlen : s.queue.length = 2) (hdue : s.Due 0 (settings ps rest))
    (hhead : ∀ ch ∈ rest.head?, isInk ch = true ∧ ch ≠ '#') :
    ∃ s', s.Advances (ps.flatMap settingKinds) s' ∧ s'.Idle 0 [-1] ∧ s'.Due 0 rest := by
  induction ps generalizing s with
  | nil => exact ⟨s, ⟨hlen, [], .nil s, by simp⟩, hs, hdue⟩
  | cons p ps ih =>
    obtain ⟨hp, hps⟩ := List.forall_mem_cons.1 hps
    obtain ⟨s₁, hadvances₁, hs₁, hdue₁⟩ := advances_setting hp hs (.inr hlen) (.inl ⟨rfl, rfl⟩) hdue
      (settings_head hps hhead)
    obtain ⟨s₂, hadvances₂, hs₂, hdue₂⟩ := ih hps hs₁ hadvances₁.1 hdue₁
    exact ⟨s₂, hadvances₁.trans hadvances₂, hs₂, hdue₂⟩

end Scanner

/-! ## Documents -/

namespace Written

/-- A document with settings and a mapping. -/
def document (ps : List (List Char × List Char)) (w : List Char) (es : List (List Char × Text)) :
    List Char :=
  settings ps (w ++ ':' :: '\n' :: (List.replicate 4 ' ' ++ entries es))

/-- The tokens that are read from it. -/
def documentKinds (ps : List (List Char × List Char)) (w : List Char)
    (es : List (List Char × Text)) : List TokenKind :=
  .streamStart :: .blockMapping :: (ps.flatMap settingKinds ++
    (.key :: .scalar (Text.encode w) .plain :: .value :: .blockMapping :: entryKinds es))

theorem length_settings (ps : List (List Char × List Char)) (rest : List Char) :
    3 * ps.length + rest.length ≤ (settings ps rest).length := by
  induction ps with
  | nil => simp [settings]
  | cons p ps ih =>
    simp only [settings, List.foldr_cons, List.length_append, List.length_cons] at ih ⊢
    omega

theorem length_settingKinds (ps : List (List Char × List Char)) :
    (ps.flatMap settingKinds).length = 4 * ps.length := by
  induction ps with
  | nil => rfl
  | cons p ps ih =>
    rw [List.flatMap_cons, List.length_append, ih, List.length_cons, Nat.mul_succ, Nat.add_comm]
    rfl

theorem length_documentKinds_le (ps : List (List Char × List Char)) (w : List Char)
    (es : List (List Char × Text)) :
    (documentKinds ps w es).length ≤ 4 * (document ps w es).length + 4 := by
  have hentries := length_entryKinds_le es
  have hsettings := length_settings ps (w ++ ':' :: '\n' :: (List.replicate 4 ' ' ++ entries es))
  have hkinds := length_settingKinds ps
  simp only [documentKinds, document, List.length_cons, List.length_append, List.length_replicate,
    hkinds] at hsettings ⊢
  omega

end Written

open Written Scanner in
/-- The tokens of a document are read from its characters. -/
theorem readTokens_document {ps : List (List Char × List Char)} {w : List Char}
    {es : List (List Char × Text)} {supply : Supply}
    (hchars : supply.characters = document ps w es) (hsound : supply.sound = true)
    (hbare : '\uFEFF' ∉ document ps w es) (hps : ∀ p ∈ ps, Scanner.Setting p) (hne : ps ≠ [])
    (hw : KeyWord w) (hkeys : ∀ e ∈ es, KeyWord e.1) (hes : es ≠ []) :
    (readTokens supply).map (·.kind) = documentKinds ps w es := by
  have hstands : (Cursor.start supply).Stands (document ps w es) ⟨0, 0, 0⟩ :=
    ⟨hchars, rfl, hsound, rfl, hbare, by rw [← hchars]; exact Nat.le_refl _⟩
  have hidle : (Scanner.start supply).Idle (-1) [] := ⟨rfl, rfl, rfl, rfl⟩
  have hdue : (Scanner.start supply).Due 0 (document ps w es) := .inl ⟨_, hstands, rfl, rfl⟩
  have hfuel : (documentKinds ps w es).length ≤ 4 * supply.characters.length + 4 :=
    hchars ▸ length_documentKinds_le ps w es
  obtain ⟨p, ps, rfl⟩ := List.exists_cons_of_ne_nil hne
  obtain ⟨hp, hps⟩ := List.forall_mem_cons.1 hps
  have hhead := hw.head (':' :: '\n' :: (List.replicate 4 ' ' ++ entries es))
  obtain ⟨s₁, hadvances₁, hs₁, hdue₁⟩ := advances_setting hp hidle (.inl rfl) (.inr ⟨rfl, rfl⟩) hdue
    (settings_head hps hhead)
  obtain ⟨s₂, hadvances₂, hs₂, hdue₂⟩ := advances_settings hps hs₁ hadvances₁.1 hdue₁ hhead
  obtain ⟨s₃, m, hadvances₃, hs₃, -, h₃, -⟩ := advances_key hw hs₂ (.inr hadvances₂.1)
    hdue₂ (by decide) (by decide) rfl (by simp [isBlank])
  have hadvances := (hadvances₁.trans hadvances₂).trans hadvances₃
  have hmargin : margin es = 4 := by simp [margin, hes]
  have hend : .streamEnd ∉ (Scanner.start supply).kinds ++ (keyKinds (-1) 0 p.1 ++
      [.scalar (Text.encode p.2) .plain] ++ ps.flatMap settingKinds ++ keyKinds 0 0 w) := by
    simp [keyKinds, Scanner.start, kinds, settingKinds]
  have hread := reads_entries hkeys (.inr ⟨rfl, rfl, hes⟩) hs₃ hadvances.1
    (fun hmem => hend (hadvances.mem_kinds hmem)) (by rw [hmargin]; exact .inr ⟨m, h₃⟩)
  have hkinds : (Scanner.start supply).kinds ++ (keyKinds (-1) 0 p.1 ++
      [.scalar (Text.encode p.2) .plain] ++ ps.flatMap settingKinds ++ keyKinds 0 0 w ++
        ([.blockMapping] ++ entryKinds es)) = documentKinds (p :: ps) w es := by
    simp [kinds, Scanner.start, keyKinds, documentKinds, settingKinds]
  rw [← hkinds] at hfuel ⊢
  exact hadvances.reads hend hread _ hfuel

end Birdcall.Yaml
