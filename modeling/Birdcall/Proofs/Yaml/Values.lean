import Birdcall.Proofs.Yaml.Block
import Birdcall.Proofs.Yaml.Quoted
import Birdcall.Proofs.Yaml.Scan

/-!
# Finding the values of a block mapping

A scalar behind a colon is found as one token, whichever way it was written, and the next token is
due in the line below.  Binary data have a tag in front.  A block of lines is the exception: it loses
a line break at its beginning, and with a tab there it is malformed.
-/

namespace Birdcall.Yaml.Scanner

open Cursor (Stands)

variable {s : Scanner} {m : Mark} {rest : List Char} {k : Nat} {i : Int} {is : List Int} {ch : Char}

/-- A value is found behind the space that follows its colon. -/
theorem fetch_value (hs : s.Idle i is) (h : s.cursor.Stands (' ' :: ch :: rest) m)
    (hi : i ≤ m.column) (hch : isInk ch = true ∧ ch ≠ '#')
    (hentry : ch = '-' → Cursor.atGap rest = false) :
    ∃ c, c.Stands (ch :: rest) (m.on 1) ∧
      s.fetch = (contentToken { s with cursor := c } ch rest).bind pastComment := by
  have h₀ : s.cursor.Stands (List.replicate 1 ' ' ++ ch :: rest) m := h
  have hink := isInk_iff.1 hch.1
  obtain ⟨c₁, h₁, htoken⟩ := toToken_spaces s.cursor.limit h₀ hs.outer_eq (by simp [hink, hch])
  have htoken : s.toToken (s.cursor.limit + 1) = some { s with cursor := c₁ } := by
    simpa [hink] using htoken
  have hindent : s.indent ≤ m.column := by rw [hs.indent_eq]; exact hi
  obtain ⟨c₂, h₂, hfetch⟩ := fetch_content htoken h₁ (by simp; omega) (.inl (by simp)) hentry
  exact ⟨c₂, h₂, hfetch⟩

/-- What a scalar leaves behind: a token of its kind. -/
structure Adds (s s' : Scanner) (indent : Int) (indents : List Int) (kind : TokenKind) : Prop where
  idle : s'.Idle indent indents
  kinds_eq : s'.kinds = s.kinds ++ [kind]

/-- The scanner behind a token that it has found. -/
def behind (s : Scanner) (kind : TokenKind) (mark : Mark) (c : Cursor) (keyAllowed : Bool) :
    Scanner :=
  { s with cursor := c, queue := s.queue ++ [⟨kind, mark⟩], keyAllowed := keyAllowed }

theorem adds_behind (hs : s.Idle i is) (kind : TokenKind) (mark : Mark) (c : Cursor) (b : Bool) :
    s.Adds (s.behind kind mark c b) i is kind where
  idle := ⟨hs.outer_eq, hs.candidate_eq, hs.indent_eq, hs.indents_eq⟩
  kinds_eq := by simp [behind, kinds]

/-- No comment comes between a scalar and what is due behind it. -/
theorem pastComment_due {kind : TokenKind} {mark : Mark} {c : Cursor} {b : Bool}
    (h : (s.behind kind mark c b).Due k rest)
    (hhead : ∀ ch ∈ rest.head?, isInk ch = true ∧ ch ≠ '#') :
    ∃ c', (s.behind kind mark c b).pastComment = some (s.behind kind mark c' b) ∧
      (s.behind kind mark c' b).Due k rest := by
  rcases h with ⟨m, h, hm, hkey⟩ | ⟨m, h⟩
  · have hsign : (rest.dropWhile isBlank).head? ≠ some '#' := by
      cases rest with
      | nil => simp
      | cons d rest =>
        have hd := hhead d rfl
        simp [isInk_iff.1 hd.1, hd.2]
    obtain ⟨c₁, hpast, h₁⟩ := pastComment_none h hsign
    exact ⟨c₁, hpast, .inl ⟨m, h₁, hm, hkey⟩⟩
  · obtain ⟨c₁, hpast, h₁⟩ := pastComment_none h (by simp [isBlank])
    exact ⟨c₁, hpast, .inr ⟨m, h₁⟩⟩

/-! ## Scalars -/

/-- A text that can be written plain begins like a plain scalar. -/
theorem beginsPlain_of_looks {cs : List Char} {ch : Char}
    (h : (Written.looks (ch :: cs)).plain = true) (rest : List Char) :
    isInk ch = true ∧ ch ≠ '#' ∧ ch ∉ indicators ∧
      (ch = '-' ∨ ch = '?' ∨ ch = ':' → Cursor.atGap (cs ++ '\n' :: rest) = false) ∧
      beginsPlain false ch (cs ++ '\n' :: rest) = true := by
  obtain ⟨d, tail, hcons, hink⟩ := (PlainText.of_looks (by simp) h).head
  obtain ⟨rfl, rfl⟩ := List.cons.inj hcons
  simp only [Written.Looks.plain, Written.looks, Bool.not_eq_true', Bool.or_eq_false_iff,
    List.any_eq_false, Written.hasIndicator, List.contains_eq_mem, decide_eq_false_iff_not] at h
  obtain ⟨⟨-, hbreaks⟩, -, ⟨hchar, hfollowed⟩, -⟩ := h
  have hnot : ∀ l : List Char, l.all ("#,[]\x7b\x7d&*!|>'\"%@`".toList.contains ·) = true → ch ∉ l :=
    fun l hl hmem => hchar (List.contains_iff_mem.1 (List.all_eq_true.1 hl ch hmem))
  have hgap : ch = '-' ∨ ch = '?' ∨ ch = ':' → Cursor.atGap (cs ++ '\n' :: rest) = false := by
    intro hch
    cases cs with
    | nil => rcases hch with rfl | rfl | rfl <;> simp at hfollowed
    | cons d cs =>
      have hbreak : isBreak d = false := by simpa using hbreaks d (by simp)
      have hblank : isBlank d = false := by
        rcases hch with rfl | rfl | rfl <;> simpa using hfollowed
      simp [Cursor.atGap, Cursor.endsOr, hbreak, hblank]
  refine ⟨hink, fun hch => hnot ['#'] (by decide) (by simp [hch]), hnot _ (by decide), hgap, ?_⟩
  by_cases hch : ch = '-' ∨ ch = '?' ∨ ch = ':'
  · have hrest := hgap hch
    have hblank : (cs ++ '\n' :: rest).head?.any isBlank = false := by
      cases htail : cs ++ '\n' :: rest with
      | nil => rfl
      | cons d tail =>
        simp only [htail, Cursor.atGap, Cursor.endsOr, Bool.or_eq_false_iff] at hrest
        exact hrest.1
    rcases hch with rfl | rfl | rfl <;> (simp only [beginsPlain, hrest, hblank]; rfl)
  · have hplain : "-?:,[]\x7b\x7d#&*!|>'\"%@`".toList.contains ch = false := by
      rw [List.contains_eq_mem, decide_eq_false_iff_not]
      intro hmem
      have hmem : ch ∈ ['-', '?', ':'] ++ [',', '[', ']', '{', '}', '#', '&', '*', '!', '|', '>',
        '\'', '"', '%', '@', '`'] := hmem
      rcases List.mem_append.1 hmem with hmem | hmem
      · simp [hch] at hmem
      · exact hnot _ (by decide) hmem
    simp only [beginsPlain, isInk_iff.1 hink, hplain]
    rfl

theorem blockScalar_eq (hs : s.Idle i is) (literal : Bool) :
    s.blockScalar literal = (block? literal i s.cursor).map fun x =>
      s.behind (.scalar (Text.encode x.1) .block) s.cursor.mark x.2 true := by
  cases hblock : block? literal i s.cursor <;>
    simp [blockScalar, hs.dropCandidate, hs.indent_eq, hblock, read, push, behind]

/-- Where no key can begin, nothing is kept of the place of a token. -/
theorem saveCandidate_eq (hkey : s.keyAllowed = false) : s.saveCandidate = some s := by
  simp [saveCandidate, hkey]

theorem quotedScalar_eq (hkey : s.keyAllowed = false) (single : Bool) :
    s.quotedScalar single =
      (quoted? single (s.cursor.limit + 1) [] (s.cursor.skip 1)).map fun x =>
        s.behind (.scalar (Text.encode x.1) .quoted) s.cursor.mark x.2 false := by
  cases hquoted : quoted? single (s.cursor.limit + 1) [] (s.cursor.skip 1) <;>
    simp [quotedScalar, saveCandidate_eq hkey, hquoted, read, push, behind]

theorem plainScalar_eq (hs : s.Idle i is) (hkey : s.keyAllowed = false) :
    s.plainScalar =
      (plain? false (i + 1).toNat (s.cursor.limit + 1) [] .none s.cursor).map fun x =>
        s.behind (.scalar (Text.encode x.1) .plain) s.cursor.mark x.2.2 x.2.1 := by
  have hflow : s.inFlow = false := by simp [inFlow, hs.outer_eq]
  cases hplain : plain? false (i + 1).toNat (s.cursor.limit + 1) [] .none s.cursor <;>
    simp [plainScalar, saveCandidate_eq hkey, hflow, hs.indent_eq, hplain, read, push, behind]

theorem tag_eq (hkey : s.keyAllowed = false) :
    s.tag = (tag? s.cursor).map fun x =>
      s.behind (.tag x.1 x.2.1) s.cursor.mark x.2.2 false := by
  cases htag : tag? s.cursor <;>
    simp [tag, saveCandidate_eq hkey, htag, read, push, behind]

/-- A scalar is found as a token of its kind, and the next one is due at column `k`. -/
def Finds (s : Scanner) (i : Int) (is : List Int) (kind : TokenKind) (k : Nat) (rest : List Char) :
    Prop :=
  ∃ s', s.fetch = some s' ∧ s.Adds s' i is kind ∧ s'.Due k rest

theorem finds_of_content {kind : TokenKind} {mark : Mark} {c c' : Cursor} {b : Bool}
    {found : List Char} (hs : s.Idle i is)
    (hfetch : s.fetch = (contentToken { s with cursor := c } ch found).bind pastComment)
    (hcontent : contentToken { s with cursor := c } ch found = some (s.behind kind mark c' b))
    (hdue : (s.behind kind mark c' b).Due k rest)
    (hhead : ∀ ch ∈ rest.head?, isInk ch = true ∧ ch ≠ '#') : s.Finds i is kind k rest := by
  obtain ⟨c₁, hpast, hdue₁⟩ := pastComment_due hdue hhead
  refine ⟨_, ?_, adds_behind hs kind mark c₁ b, hdue₁⟩
  rw [hfetch, hcontent, Option.bind_some, hpast]

section Scalars

variable {cs inside : List Char} (hs : s.Idle i is) (hi : i ≤ m.column)
  (hhead : ∀ ch ∈ rest.head?, isInk ch = true ∧ ch ≠ '#')

include hs hi hhead

/-- A quoted scalar is found if what follows its quotation mark can be read. -/
theorem finds_quoted (hkey : s.keyAllowed = false) (single : Bool)
    (h : s.cursor.Stands (' ' :: (if single then '\'' else '"') :: inside) m)
    (hread : ∀ (c : Cursor) m, c.Stands ((if single then '\'' else '"') :: inside) m →
      ∃ c' m', quoted? single (c.limit + 1) [] (c.skip 1) = some (cs, c') ∧
        c'.Stands ('\n' :: (List.replicate k ' ' ++ rest)) m') :
    s.Finds i is (.scalar (Text.encode cs) .quoted) k rest := by
  obtain ⟨c₁, h₁, hfetch⟩ := fetch_value hs h hi (by cases single <;> decide)
    (by cases single <;> simp)
  obtain ⟨c₂, m₂, hquoted, h₂⟩ := hread c₁ _ h₁
  have hcontent : contentToken { s with cursor := c₁ } (if single then '\'' else '"') inside =
      quotedScalar { s with cursor := c₁ } single := by
    cases single <;> simp [contentToken]
  rw [quotedScalar_eq (s := { s with cursor := c₁ }) hkey, hquoted] at hcontent
  exact finds_of_content hs hfetch hcontent (.inr ⟨m₂, h₂⟩) hhead

theorem finds_doubleQuoted (hkey : s.keyAllowed = false)
    (h : s.cursor.Stands (' ' :: (Written.doubleQuoted cs ++
      '\n' :: (List.replicate k ' ' ++ rest))) m) :
    s.Finds i is (.scalar (Text.encode cs) .quoted) k rest :=
  finds_quoted hs hi hhead hkey false h fun _ _ => quoted?_doubleQuoted

theorem finds_singleQuoted {indent : Nat} (hindent : indent ≠ 0) (hkey : s.keyAllowed = false)
    (hcs : (Written.looks cs).single = true) (hfeed : '\n' ∉ cs)
    (h : s.cursor.Stands (' ' :: (Written.singleQuoted indent cs ++
      '\n' :: (List.replicate k ' ' ++ rest))) m) :
    s.Finds i is (.scalar (Text.encode cs) .quoted) k rest :=
  finds_quoted hs hi hhead hkey true h fun _ _ hc =>
    quoted?_singleQuoted hindent hcs hfeed hc (by simp)

omit hhead in
/-- A block scalar is found if it can be read. -/
theorem fetch_block (h : s.cursor.Stands (' ' :: '|' :: inside) m) :
    ∃ c, c.Stands ('|' :: inside) (m.on 1) ∧
      s.fetch = (contentToken { s with cursor := c } '|' inside).bind pastComment ∧
      contentToken { s with cursor := c } '|' inside = (block? true i c).map fun x =>
        s.behind (.scalar (Text.encode x.1) .block) (m.on 1) x.2 true := by
  obtain ⟨c, hc, hfetch⟩ := fetch_value hs h hi (by decide) (by simp)
  have hcontent : contentToken { s with cursor := c } '|' inside =
      blockScalar { s with cursor := c } true := by
    simp [contentToken, inFlow, hs.outer_eq]
  refine ⟨c, hc, hfetch, ?_⟩
  rw [hcontent, blockScalar_eq (hs.moved c), hc.mark_eq]
  rfl

/-- A block is found without the line break it begins with; one that begins with a tab is
malformed. -/
theorem finds_block (hindent : i = 4) (hk : k < 8) (hne : cs ≠ [])
    (hbreaks : ∀ ch ∈ cs, isBreak ch = true → KeptBreak ch)
    (h : s.cursor.Stands (' ' :: (Written.block 4 8 cs ++
      (lineEnd cs ++ (List.replicate k ' ' ++ rest)))) m) :
    if cs.head? = some '\t' then s.fetch = none
    else s.Finds i is (.scalar (Text.encode (if cs.head?.any isBreak then cs.tail else cs)) .block) k
      rest := by
  have hrest : ∀ ch ∈ rest.head?, isInk ch = true := fun ch hch => (hhead ch hch).1
  obtain ⟨c₁, h₁, hfetch, hcontent⟩ := fetch_block hs hi h
  obtain ⟨ch, cs, rfl⟩ := List.exists_cons_of_ne_nil hne
  rw [hindent] at hcontent
  have hfinds : ∀ cs' c₂ m₂, block? true 4 c₁ = some (cs', c₂) → c₂.Stands rest m₂ →
      m₂.column = k → s.Finds i is (.scalar (Text.encode cs') .block) k rest := by
    intro cs' c₂ m₂ hblock h₂ hcolumn
    rw [hblock] at hcontent
    exact finds_of_content hs hfetch hcontent (.inl ⟨m₂, h₂, hcolumn, rfl⟩) hhead
  cases hch : isBreak ch with
  | true =>
    obtain ⟨c₂, m₂, hblock, h₂, hcolumn⟩ := block?_break hbreaks hch h₁ hk hrest
    have htab : ch ≠ '\t' := by
      rintro rfl
      cases hch
    simpa [htab, hch] using hfinds cs c₂ m₂ hblock h₂ hcolumn
  | false =>
    have hread := block?_line hbreaks hch h₁ hk hrest
    by_cases htab : ch = '\t'
    · rw [if_pos htab] at hread
      rw [hread] at hcontent
      rw [if_pos (by simp [htab]), hfetch, hcontent]
      rfl
    · rw [if_neg htab] at hread
      obtain ⟨c₂, m₂, hblock, h₂, hcolumn⟩ := hread
      simpa [htab, hch] using hfinds (ch :: cs) c₂ m₂ hblock h₂ hcolumn

theorem finds_plain (hkey : s.keyAllowed = false) (hne : cs ≠ [])
    (hcs : (Written.looks cs).plain = true) (hk : k ≤ i)
    (h : s.cursor.Stands (' ' :: (cs ++ '\n' :: (List.replicate k ' ' ++ rest))) m) :
    s.Finds i is (.scalar (Text.encode cs) .plain) k rest := by
  have hrest : ∀ ch ∈ rest.head?, isInk ch = true := fun ch hch => (hhead ch hch).1
  have htext := PlainText.of_looks hne hcs
  obtain ⟨ch, cs, rfl⟩ := List.exists_cons_of_ne_nil hne
  obtain ⟨hink, hsign, hnot, hgap, hbegins⟩ :=
    beginsPlain_of_looks hcs (List.replicate k ' ' ++ rest)
  obtain ⟨c₁, h₁, hfetch⟩ := fetch_value hs h hi ⟨hink, hsign⟩ (fun hch => hgap (.inl hch))
  have hcontent := contentToken_plain (s := { s with cursor := c₁ }) hs.outer_eq hnot
    (fun hch => hgap (.inr hch)) hbegins
  have hindent : k < (i + 1).toNat := by omega
  have hcolumn : (i + 1).toNat ≤ (m.on 1).column := by
    rw [Mark.column_on]
    omega
  have hfuel : (ch :: cs).length < c₁.limit + 1 := by
    have hroom := h₁.room
    simp at hroom ⊢
    omega
  obtain ⟨c₂, m₂, hplain, h₂, hcolumn₂⟩ :=
    plain?_line htext [] .none h₁ hrest hindent hcolumn hfuel
  have hvalue : ((ch :: cs).reverse ++ Gap.none.after []).reverse = ch :: cs := by
    simp [Gap.after, Gap.none]
  rw [plainScalar_eq (hs.moved c₁) hkey, hplain, hvalue] at hcontent
  exact finds_of_content hs hfetch hcontent (.inl ⟨m₂, h₂, hcolumn₂, rfl⟩) hhead

end Scalars

/-! ## Tags -/

/-- The characters of a tag are read up to the space behind them. -/
theorem tagText?_word {fuel : Nat} {w : List Char} (t : Text) {c : Cursor}
    (hw : ∀ ch ∈ w, isTagChar ch = true ∧ ch ≠ '%') (h : c.Stands (w ++ ' ' :: rest) m)
    (hfuel : w.length < fuel) :
    ∃ c', tagText? fuel t c = some (t.reverse ++ w.map Text.byte, c') ∧
      c'.Stands (' ' :: rest) (m.on w.length) := by
  obtain ⟨fuel, rfl⟩ : ∃ n, fuel = n + 1 := ⟨fuel - 1, by omega⟩
  obtain ⟨c₁, hensure, h₁⟩ := h.ensure 1
  induction w generalizing t c c₁ m fuel with
  | nil =>
    refine ⟨c₁, ?_, h₁⟩
    have hspace : isTagChar ' ' = false := by decide
    simp [tagText?, hensure, h₁.peek?, hspace]
  | cons ch w ih =>
    obtain ⟨⟨htag, hpercent⟩, hw⟩ := List.forall_mem_cons.1 hw
    rw [List.length_cons] at hfuel
    obtain ⟨fuel, rfl⟩ : ∃ n, fuel = n + 1 := ⟨fuel - 1, by omega⟩
    have h₂ : (c₁.skip 1).Stands (w ++ ' ' :: rest) (m.on 1) := h₁.skip 1
    obtain ⟨c₃, hensure₃, h₃⟩ := h₂.ensure 1
    obtain ⟨c₄, htext, h₄⟩ := ih (Text.byte ch :: t) hw h₂ fuel (by omega) c₃ hensure₃ h₃
    refine ⟨c₄, ?_, by simpa [Nat.add_comm] using h₄⟩
    rw [tagText?, hensure]
    simp [h₁.peek?, htag, hpercent, htext]

/-- The mark of binary data is read as a tag. -/
theorem tag?_binary {c : Cursor} (h : c.Stands ("!!binary".toList ++ ' ' :: rest) m) :
    ∃ c', tag? c = some (Text.ofString "!!", Text.ofString "binary", c') ∧
      c'.Stands (' ' :: rest) (m.on 8) := by
  have h : c.Stands ('!' :: '!' :: ("binary".toList ++ ' ' :: rest)) m := h
  obtain ⟨c₁, hensure₁, h₁⟩ := h.ensure 2
  obtain ⟨c₂, hensure₂, h₂⟩ := h₁.ensure 1
  obtain ⟨c₃, hpass₃, h₃⟩ := h₂.pass 1 1
  have hrun : c₃.run isWord = [] := by rw [Cursor.run, h₃.rest_eq]; rfl
  have hnone : c₃.pass 1 0 = some c₃ := rfl
  have hhandle : tagHandle? c₁ = some (['!', '!'], c₃.skip 1) := by
    simp [tagHandle?, hensure₂, Cursor.isAt, h₂.peek?, hpass₃, hrun, hnone, h₃.peek?]
  have h₄ : (c₃.skip 1).Stands ("binary".toList ++ ' ' :: rest) (m.on 2) := h₃.skip 1
  have hfuel : "binary".toList.length < (c₃.skip 1).limit + 1 := by
    have hroom := h₄.room
    rw [List.length_append] at hroom
    omega
  have hall : "binary".toList.all (fun ch => isTagChar ch && ch != '%') = true := by decide
  have hchars : ∀ ch ∈ "binary".toList, isTagChar ch = true ∧ ch ≠ '%' := by
    simpa using List.all_eq_true.1 hall
  obtain ⟨c₅, htext, h₅⟩ := tagText?_word [] hchars h₄ hfuel
  have hsuffix : tagSuffix? (c₃.skip 1) = some (Text.ofString "binary", c₅) := by
    simp [tagSuffix?, htext, h₄.mark_eq, h₅.mark_eq]
    rfl
  obtain ⟨c₆, hensure₆, h₆⟩ := h₅.ensure 1
  refine ⟨c₆, ?_, h₆⟩
  have hgap : Cursor.atGap c₆.rest = true := by rw [h₆.rest_eq]; rfl
  simp [tag?, hensure₁, h₁.rest_eq, hhandle, hsuffix, hensure₆, hgap]
  rfl

/-- The mark of binary data is found as a tag. -/
theorem finds_binary {tail : List Char} (hs : s.Idle i is) (hi : i ≤ m.column)
    (hkey : s.keyAllowed = false) (h : s.cursor.Stands (' ' :: ("!!binary".toList ++ ' ' :: tail)) m)
    (hsign : (tail.dropWhile isBlank).head? ≠ some '#') :
    ∃ s' n, s.fetch = some s' ∧
      s.Adds s' i is (.tag (Text.ofString "!!") (Text.ofString "binary")) ∧
      s'.keyAllowed = false ∧ s'.cursor.Stands (' ' :: tail) (m.on n) := by
  have h : s.cursor.Stands (' ' :: '!' :: ("!binary".toList ++ ' ' :: tail)) m := h
  obtain ⟨c₁, h₁, hfetch⟩ := fetch_value hs h hi (by decide) (by simp)
  obtain ⟨c₂, htag, h₂⟩ := tag?_binary h₁
  have hcontent : contentToken { s with cursor := c₁ } '!' ("!binary".toList ++ ' ' :: tail) =
      tag { s with cursor := c₁ } := by
    simp [contentToken]
  rw [tag_eq (s := { s with cursor := c₁ }) hkey, htag] at hcontent
  obtain ⟨c₃, hpast, h₃⟩ := pastComment_none
    (s := s.behind (.tag (Text.ofString "!!") (Text.ofString "binary")) c₁.mark c₂ false) h₂
    (by simpa [isBlank] using hsign)
  have hnext : (contentToken { s with cursor := c₁ } '!' ("!binary".toList ++ ' ' :: tail)).bind
      pastComment = some (s.behind (.tag (Text.ofString "!!") (Text.ofString "binary")) c₁.mark c₃
        false) := by
    rw [hcontent, Option.map_some, Option.bind_some]
    exact hpast
  refine ⟨s.behind (.tag (Text.ofString "!!") (Text.ofString "binary")) c₁.mark c₃ false, 9,
    hfetch.trans hnext, adds_behind hs _ _ _ _, rfl, ?_⟩
  rwa [Mark.on_on] at h₃

end Birdcall.Yaml.Scanner
