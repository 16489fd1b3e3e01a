import Birdcall.Proofs.Yaml.Plain
import Birdcall.Yaml.Token.Scan

/-!
# Finding the keys of a block mapping

A key is found in two steps: its word begins a token that waits, and the colon behind it puts the key
mark in front.  `Scanner.Due` says where the next token of a block comes from, `Scanner.Idle` that
nothing waits for a colon.  The end of a text ends all blocks.
-/

namespace Birdcall.Yaml

open Cursor (Stands)

namespace Scanner

variable {s : Scanner} {m : Mark} {rest : List Char} {k : Nat}

/-! ## White space and comments -/

/-- Spaces in front of a token are passed, and so is the end of a line. -/
theorem toToken_spaces (fuel : Nat) (h : s.cursor.Stands (List.replicate k ' ' ++ rest) m)
    (hflow : s.outer = []) (hblank : ∀ ch ∈ rest.head?, isBlank ch = false ∧ ch ≠ '#') :
    ∃ c, c.Stands rest (m.on k) ∧
      s.toToken (fuel + 1) =
        if rest.head?.any isBreak then
          c.passBreak.bind fun c => toToken fuel { s with cursor := c, keyAllowed := true }
        else some { s with cursor := c } := by
  obtain ⟨c₁, hensure, h₁⟩ := h.ensure 1
  have hend : ∀ ch ∈ rest.head?, (ch = ' ' || (ch = '\t' && !s.keyAllowed)) = false := by
    intro ch hch
    have hnot := (hblank ch hch).1
    simp only [isBlank, Bool.or_eq_false_iff] at hnot
    simp [hnot]
  obtain ⟨c₂, hpass, h₂⟩ := h₁.passWhile
    (p := fun ch => ch = ' ' || (ch = '\t' && !s.keyAllowed)) (by simp) hend
  rw [List.length_replicate] at h₂
  have hsign : c₂.isAt '#' = false := by
    rw [Cursor.isAt, h₂.peek?, decide_eq_false_iff_not]
    exact fun hhead => (hblank '#' hhead).2 rfl
  refine ⟨c₂, h₂, ?_⟩
  simp [toToken, hensure, h₁.unmarked, hpass, hsign, h₂.peek?, inFlow, hflow]

/-- The next token stands at column `k`: the scanner is there already, or at the end of the line
before. -/
def Due (s : Scanner) (k : Nat) (rest : List Char) : Prop :=
  (∃ m, s.cursor.Stands rest m ∧ m.column = k ∧ s.keyAllowed = true) ∨
    ∃ m, s.cursor.Stands ('\n' :: (List.replicate k ' ' ++ rest)) m

theorem toToken_due (h : s.Due k rest) (hflow : s.outer = [])
    (hhead : ∀ ch ∈ rest.head?, isInk ch = true ∧ ch ≠ '#') :
    ∃ c m, s.toToken (s.cursor.limit + 1) = some { s with cursor := c, keyAllowed := true } ∧
      c.Stands rest m ∧ m.column = k := by
  have hblank : ∀ ch ∈ rest.head?, isBlank ch = false ∧ ch ≠ '#' := fun ch hch =>
    ⟨(isInk_iff.1 (hhead ch hch).1).1, (hhead ch hch).2⟩
  have hbreak : rest.head?.any isBreak = false := by
    cases rest with
    | nil => rfl
    | cons ch rest => simpa using (isInk_iff.1 (hhead ch rfl).1).2
  rcases h with ⟨m, h, hm, hkey⟩ | ⟨m, h⟩
  · have h : s.cursor.Stands (List.replicate 0 ' ' ++ rest) m := h
    obtain ⟨c₁, h₁, htoken⟩ := toToken_spaces s.cursor.limit h hflow hblank
    refine ⟨c₁, m, ?_, h₁, hm⟩
    simp [htoken, hbreak, hkey]
  · have hpos : 1 ≤ s.cursor.limit := Nat.le_trans (Nat.le_add_left _ _) h.room
    obtain ⟨fuel, hfuel⟩ : ∃ n, s.cursor.limit = n + 1 := ⟨s.cursor.limit - 1, by omega⟩
    have h : s.cursor.Stands
        (List.replicate 0 ' ' ++ '\n' :: (List.replicate k ' ' ++ rest)) m := h
    obtain ⟨c₁, h₁, htoken₁⟩ := toToken_spaces s.cursor.limit h hflow (by simp [isBlank])
    obtain ⟨c₂, hpass, h₂⟩ := h₁.passBreak (by decide)
    obtain ⟨c₃, h₃, htoken₂⟩ := toToken_spaces (s := { s with cursor := c₂, keyAllowed := true })
      fuel h₂ hflow hblank
    refine ⟨c₃, _, ?_, h₃, by simp⟩
    rw [hfuel] at htoken₁ ⊢
    simp [htoken₁, isBreak, hpass, htoken₂, hbreak]

theorem pastComment_none (h : s.cursor.Stands rest m)
    (hsign : (rest.dropWhile isBlank).head? ≠ some '#') :
    ∃ c, s.pastComment = some { s with cursor := c } ∧ c.Stands rest m := by
  unfold pastComment
  split
  · exact ⟨s.cursor, rfl, h⟩
  · obtain ⟨c, hpass, hc⟩ := h.passComment hsign
    exact ⟨c, by rw [hpass]; rfl, hc⟩

/-! ## Between tokens -/

/-- Between two tokens of a block, where nothing waits for a colon. -/
structure Idle (s : Scanner) (indent : Int) (indents : List Int) : Prop where
  outer_eq : s.outer = []
  candidate_eq : s.level.candidate = none
  indent_eq : s.indent = indent
  indents_eq : s.indents = indents

/-- Behind a key: it is the last token in the queue, and could turn out to be one. -/
structure Waits (s : Scanner) (indent : Int) (indents : List Int) (m : Mark) : Prop where
  outer_eq : s.outer = []
  indent_eq : s.indent = indent
  indents_eq : s.indents = indents
  candidate_eq : ∃ number required,
    s.level.candidate = some ⟨number, m, required, true⟩ ∧ number + 1 = s.number

/-- The kinds of the tokens that wait. -/
def kinds (s : Scanner) : List TokenKind := s.queue.map (·.kind)

variable {i : Int} {is : List Int} {ch : Char}

theorem Idle.moved (hs : s.Idle i is) (c : Cursor) : Idle { s with cursor := c } i is :=
  ⟨hs.outer_eq, hs.candidate_eq, hs.indent_eq, hs.indents_eq⟩

theorem Idle.dropCandidate (hs : s.Idle i is) : s.dropCandidate = some s := by
  have hlevel : s.level = { s.level with candidate := none } := by rw [← hs.candidate_eq]
  simp [Scanner.dropCandidate, hs.candidate_eq, ← hlevel]

/-! ## Tokens -/

theorem unroll_of_le {column : Int} (hcolumn : s.indent ≤ column) : s.unroll column = s := by
  unfold unroll
  split
  · rfl
  · have hending : ending column s.indent s.indents = (0, s.indent, s.indents) := by
      cases s.indents with
      | nil => rfl
      | cons next others => simp [ending, Int.not_lt.2 hcolumn]
    simp [hending]

/-- A token inside a document is found by its first character. -/
theorem fetch_content {s₁ : Scanner} {ch : Char}
    (htoken : s.toToken (s.cursor.limit + 1) = some s₁) (h : s₁.cursor.Stands (ch :: rest) m)
    (hindent : s₁.indent ≤ m.column) (hmark : m.column ≠ 0 ∨ ch ≠ '%' ∧ ch ≠ '-' ∧ ch ≠ '.')
    (hentry : ch = '-' → Cursor.atGap rest = false) :
    ∃ c, c.Stands (ch :: rest) m ∧
      s.fetch = (contentToken { s₁ with cursor := c } ch rest).bind pastComment := by
  obtain ⟨c, hensure, hc⟩ := h.ensure 4
  refine ⟨c, hc, ?_⟩
  have hdirective : ¬ (m.column = 0 ∧ ch = '%') := by
    rintro ⟨hcolumn, rfl⟩
    simp [hcolumn] at hmark
  have hdocument := hc.notDocumentMark (hmark.imp_right fun hch => by simpa using hch.2)
  have hitem : ¬ (ch = '-' ∧ Cursor.atGap rest = true) := by
    rintro ⟨hch, hgap⟩
    rw [hentry hch] at hgap
    cases hgap
  have hunroll : s₁.unroll s₁.cursor.mark.column = s₁ := unroll_of_le (by rwa [h.mark_eq])
  simp [fetch, htoken, hunroll, hensure, hc.rest_eq, hc.mark_eq, hdirective, hdocument, hitem]

/-- Characters that begin a token of their own kind wherever they stand in a block. -/
def indicators : List Char := ['[', '{', ']', '}', ',', '*', '&', '!', '|', '>', '\'', '"']

theorem contentToken_plain {ch : Char} (hflow : s.outer = []) (hch : ch ∉ indicators)
    (hgap : ch = '?' ∨ ch = ':' → Cursor.atGap rest = false)
    (hbegins : beginsPlain false ch rest = true) : s.contentToken ch rest = s.plainScalar := by
  have hquestion : ¬ (ch = '?' ∧ Cursor.atGap rest = true) := by
    rintro ⟨hch, hrest⟩
    rw [hgap (.inl hch)] at hrest
    cases hrest
  have hcolon : ¬ (ch = ':' ∧ Cursor.atGap rest = true) := by
    rintro ⟨hch, hrest⟩
    rw [hgap (.inr hch)] at hrest
    cases hrest
  simp only [indicators, List.mem_cons, List.not_mem_nil, or_false, not_or] at hch
  simp [contentToken, inFlow, hflow, hch, hquestion, hcolon, hbegins]

/-- A letter begins a plain scalar. -/
theorem beginsPlain_letter {ch : Char} (h : ch.isAlpha = true) (rest : List Char) :
    isInk ch = true ∧ ch ∉ '#' :: '%' :: '-' :: '.' :: '?' :: ':' :: indicators ∧
      beginsPlain false ch rest = true := by
  have hnot : ∀ l : List Char, l.any Char.isAlpha = false → ch ∉ l := by
    intro l hl hmem
    exact List.any_eq_false.1 hl ch hmem h
  have hink : isInk ch = true := by
    have hwhite := hnot [' ', '\t', '\n', '\r', '\u0085', '\u2028', '\u2029'] (by decide)
    simp only [List.mem_cons, List.not_mem_nil, or_false, not_or] at hwhite
    simp [isInk, isBlank, isBreak, hwhite]
  have hplain : "-?:,[]\x7b\x7d#&*!|>'\"%@`".toList.contains ch = false := by
    rw [List.contains_eq_mem, decide_eq_false_iff_not]
    exact hnot _ (by decide)
  refine ⟨hink, hnot _ (by decide), ?_⟩
  simp only [beginsPlain, isInk_iff.1 hink, hplain]
  rfl

/-! ## Keys -/

/-- The scanner behind a key at column `k`, which waits for its colon. -/
def behindKey (s : Scanner) (w : List Char) (m : Mark) (k : Nat) (c : Cursor) : Scanner :=
  { s with
    cursor := c
    queue := s.queue ++ [⟨.scalar (Text.encode w) .plain, m⟩]
    level := ⟨some ⟨s.number, m, s.indent = k, true⟩, s.number⟩
    keyAllowed := false }

theorem waits_behindKey (hs : s.Idle i is) (w : List Char) (c : Cursor) :
    (s.behindKey w m k c).Waits i is m where
  outer_eq := hs.outer_eq
  indent_eq := hs.indent_eq
  indents_eq := hs.indents_eq
  candidate_eq := ⟨s.number, _, rfl, by simp [behindKey, number, Nat.add_assoc]⟩

/-- A key begins a token that waits for its colon. -/
theorem fetch_key {w : List Char} (hs : s.Idle i is) (h : s.Due k (w ++ ':' :: rest))
    (hindent : i ≤ k) (hw : PlainWord w) (hletter : ∀ ch ∈ w.head?, ch.isAlpha = true)
    (hrest : Cursor.atGap rest = true) :
    ∃ s' m, s.fetch = some s' ∧ s'.Waits i is m ∧
      s'.kinds = s.kinds ++ [.scalar (Text.encode w) .plain] ∧
      s'.cursor.Stands (':' :: rest) (m.on w.length) ∧ m.column = k := by
  obtain ⟨ch, tail, hcons⟩ := List.exists_cons_of_ne_nil hw.ne_nil
  obtain ⟨hink, hnot, hbegins⟩ := beginsPlain_letter (hletter ch (by simp [hcons]))
    (tail ++ ':' :: rest)
  simp only [List.mem_cons, not_or] at hnot
  obtain ⟨c₁, m, htoken, h₁, hcolumn⟩ := toToken_due h hs.outer_eq (by simp [hcons, hink, hnot])
  have h₁' : c₁.Stands (ch :: (tail ++ ':' :: rest)) m := by simpa [hcons] using h₁
  obtain ⟨c₂, h₂, hfetch⟩ := fetch_content htoken h₁' (by rwa [hcolumn, hs.indent_eq])
    (.inr (by simp [hnot])) (by simp [hnot])
  obtain ⟨c₃, hplain, h₃⟩ := plain?_key (s.indent + 1).toNat c₂.limit (by simpa [hcons] using h₂) hw
    (by simp [hcons, hnot]) hrest
  have hcontent := contentToken_plain (s := { s with cursor := c₂, keyAllowed := true }) hs.outer_eq
    hnot.2.2.2.2.2.2 (by simp [hnot]) hbegins
  have hscalar : plainScalar { s with cursor := c₂, keyAllowed := true } =
      some (s.behindKey w m k c₃) := by
    simp [plainScalar, saveCandidate, dropCandidate, hs.candidate_eq, inFlow, hs.outer_eq, hplain,
      read, push, number, h₂.mark_eq, hcolumn, behindKey]
  obtain ⟨c₄, hpast, h₄⟩ := pastComment_none (s := s.behindKey w m k c₃) h₃ (by simp [isBlank])
  refine ⟨s.behindKey w m k c₄, m, ?_, waits_behindKey hs w c₄, by simp [kinds, behindKey], h₄,
    hcolumn⟩
  rw [hfetch, hcontent, hscalar, Option.bind_some, hpast]
  rfl

theorem insert_queued {q r : List Token} (hqueue : s.queue = q ++ r) (kind : TokenKind)
    (mark : Mark) :
    s.insert (s.taken + q.length) kind mark = { s with queue := q ++ ⟨kind, mark⟩ :: r } := by
  have hwaits : ¬ s.taken + q.length < s.taken := by omega
  simp [insert, hwaits, hqueue]

/-- A key begins a block if it stands further in than the block around it. -/
theorem roll_queued {q r : List Token} (hqueue : s.queue = q ++ r) (hflow : s.outer = [])
    (hcolumn : m.column = k) (hindent : s.indent ≤ k) (hdepth : s.indents.length < maxDepth)
    (kind : TokenKind) :
    s.roll (s.taken + q.length) kind m = some { s with
      queue := q ++ ((if s.indent < k then [⟨kind, m⟩] else []) ++ r)
      indent := k
      indents := if s.indent < k then s.indent :: s.indents else s.indents } := by
  by_cases hroll : s.indent < k
  · simp [roll, insert_queued hqueue, inFlow, hflow, hcolumn, hroll, Int.not_le.2 hroll,
      Nat.not_le.2 hdepth]
  · have hsame : s.indent = k := by omega
    have hopen : s.roll (s.taken + q.length) kind m = some s := by simp [roll, hcolumn, hsame]
    rw [hopen, if_neg hroll, if_neg hroll, List.nil_append, ← hqueue, ← hsame]

/-- The scanner behind the colon of a key. -/
def behindColon (s : Scanner) (q : List Token) (t : Token) (m : Mark) (n k : Nat) (c : Cursor) :
    Scanner :=
  { s with
    cursor := c
    queue := q ++ ((if s.indent < k then [⟨.blockMapping, m⟩] else []) ++
      [⟨.key, m⟩, t, ⟨.value, m.on n⟩])
    indent := k
    indents := if s.indent < k then s.indent :: s.indents else s.indents
    level := { s.level with candidate := none }
    keyAllowed := false }

theorem value_eq {q : List Token} {t : Token} {n : Nat} (hs : s.Waits i is m)
    (hqueue : s.queue = q ++ [t]) (hmark : s.cursor.mark = m.on n) (hcolumn : m.column = k)
    (hindent : i ≤ k) (hdepth : is.length < maxDepth) (hn : n ≤ 1024) :
    s.value = some (s.behindColon q t m n k (s.cursor.skip 1)) := by
  obtain ⟨rfl, rfl⟩ := And.intro hs.indent_eq hs.indents_eq
  obtain ⟨number, required, hcandidate, hnumber⟩ := hs.candidate_eq
  obtain rfl : number = s.taken + q.length := by
    simpa [Scanner.number, hqueue, ← Nat.add_assoc] using hnumber
  have hbefore : s.keyBefore = some (some ⟨s.taken + q.length, m, required, true⟩) := by
    simp [keyBefore, hcandidate, isStale, hmark, Nat.not_lt.2 hn]
  have hinsert := insert_queued hqueue .key m
  have hroll := roll_queued (s := { s with queue := q ++ ⟨.key, m⟩ :: [t] }) rfl hs.outer_eq hcolumn
    hindent hdepth .blockMapping
  simp only at hroll
  simp [value, hbefore, hinsert, hroll, take, push, hmark, behindColon]

/-- The colon behind a key puts the key mark in front of it, and begins a block if the key stands
further in than the block around it. -/
theorem fetch_colon {q : List TokenKind} {kind : TokenKind} {n : Nat} (hs : s.Waits i is m)
    (h : s.cursor.Stands (':' :: rest) (m.on n)) (hcolumn : m.column = k) (hindent : i ≤ k)
    (hdepth : is.length < maxDepth) (hkinds : s.kinds = q ++ [kind]) (hn : n ≤ 1024)
    (hrest : Cursor.atGap rest = true) (hsign : (rest.dropWhile isBlank).head? ≠ some '#') :
    ∃ s', s.fetch = some s' ∧ s'.Idle k (if i < k then i :: is else is) ∧
      s'.kinds = q ++ ((if i < k then [.blockMapping] else []) ++ [.key, kind, .value]) ∧
      s'.keyAllowed = false ∧ s'.cursor.Stands rest (m.on (n + 1)) := by
  obtain ⟨rfl, rfl⟩ := And.intro hs.indent_eq hs.indents_eq
  obtain ⟨q, r, hqueue, rfl, hr⟩ := List.map_eq_append_iff.1 hkinds
  obtain ⟨t, rfl, rfl⟩ := List.map_eq_singleton_iff.1 hr
  have h₀ : s.cursor.Stands (List.replicate 0 ' ' ++ ':' :: rest) (m.on n) := h
  obtain ⟨c₁, h₁, htoken⟩ := toToken_spaces s.cursor.limit h₀ hs.outer_eq (by simp [isBlank])
  have htoken : s.toToken (s.cursor.limit + 1) = some { s with cursor := c₁ } := by
    simpa [isBreak] using htoken
  obtain ⟨c₂, h₂, hfetch⟩ := fetch_content htoken h₁ (by simp; omega) (.inr (by decide)) (by simp)
  have hcontent : contentToken { s with cursor := c₂ } ':' rest = value { s with cursor := c₂ } := by
    simp [contentToken, hrest]
  have hvalue := value_eq (s := { s with cursor := c₂ })
    ⟨hs.outer_eq, rfl, rfl, hs.candidate_eq⟩ hqueue h₂.mark_eq hcolumn hindent hdepth hn
  obtain ⟨c₃, hpast, h₃⟩ := pastComment_none
    (s := s.behindColon q t m n k (c₂.skip 1)) (h₂.skip 1) hsign
  refine ⟨s.behindColon q t m n k c₃, ?_, ⟨hs.outer_eq, rfl, rfl, rfl⟩, ?_, rfl, h₃⟩
  · rw [hfetch, hcontent, hvalue, Option.bind_some]
    exact hpast
  · simp only [behindColon, kinds]
    split <;> simp

/-! ## The end -/

theorem unroll_eq {column j : Int} {js : List Int} {n : Nat} (hs : s.Idle i is)
    (hending : ending column i is = (n, j, js)) :
    s.unroll column = { s with
      queue := s.queue ++ List.replicate n ⟨.blockEnd, s.cursor.mark⟩
      indent := j
      indents := js } := by
  simp [unroll, inFlow, hs.outer_eq, hs.indent_eq, hs.indents_eq, hending]

theorem streamEnd_eq {n : Nat} (hs : s.Idle i is) (hcolumn : s.cursor.mark.column = 0)
    (hending : ending (-1) i is = (n, -1, [])) :
    s.streamEnd = some { s with
      queue := s.queue ++ List.replicate n ⟨.blockEnd, s.cursor.mark⟩ ++
        [⟨.streamEnd, s.cursor.mark⟩]
      indent := -1
      indents := []
      keyAllowed := false } := by
  have hidle : Idle { s with
      queue := s.queue ++ List.replicate n ⟨.blockEnd, s.cursor.mark⟩
      indent := -1
      indents := [] } (-1) [] := ⟨hs.outer_eq, hs.candidate_eq, rfl, rfl⟩
  simp only [streamEnd, hcolumn, if_true, unroll_eq hs hending, hidle.dropCandidate, push]
  rfl

/-- At the end of a text all blocks end. -/
theorem fetch_nil {s₁ : Scanner} {j : Int} {js : List Int} {a b : Nat}
    (htoken : s.toToken (s.cursor.limit + 1) = some s₁) (hs : s₁.Idle i is)
    (h : s₁.cursor.Stands [] m) (hm : m.column = 0) (hinner : ending 0 i is = (a, j, js))
    (houter : ending (-1) j js = (b, -1, [])) :
    ∃ s', s.fetch = some s' ∧ s'.Idle (-1) [] ∧ s'.cursor.Stands [] m ∧
      s'.kinds = s₁.kinds ++ (List.replicate (a + b) .blockEnd ++ [.streamEnd]) := by
  obtain ⟨c, hensure, hc⟩ := h.ensure 4
  have hunroll := unroll_eq hs hinner
  have hidle : Idle { s₁ with
      cursor := c
      queue := s₁.queue ++ List.replicate a ⟨.blockEnd, s₁.cursor.mark⟩
      indent := j
      indents := js } j js := ⟨hs.outer_eq, hs.candidate_eq, rfl, rfl⟩
  have hend := streamEnd_eq hidle (by rw [← hm, hc.mark_eq]) houter
  have hfetch : s.fetch = streamEnd { s₁ with
      cursor := c
      queue := s₁.queue ++ List.replicate a ⟨.blockEnd, s₁.cursor.mark⟩
      indent := j
      indents := js } := by
    have hcolumn : s₁.cursor.mark.column = 0 := by rw [h.mark_eq, hm]
    simp [fetch, htoken, hcolumn, hunroll, hensure, hc.rest_eq]
  refine ⟨_, hfetch.trans hend, ⟨hs.outer_eq, hs.candidate_eq, rfl, rfl⟩, hc, ?_⟩
  simp [kinds, ← List.replicate_append_replicate]

/-- At the end of a text all blocks end. -/
theorem fetch_end (hs : s.Idle 4 [0, -1]) (h : s.Due 0 []) :
    ∃ s' m, s.fetch = some s' ∧ s'.Idle (-1) [] ∧ s'.cursor.Stands [] m ∧ m.column = 0 ∧
      s'.kinds = s.kinds ++ [.blockEnd, .blockEnd, .streamEnd] := by
  obtain ⟨c, m, htoken, hc, hm⟩ := toToken_due h hs.outer_eq (by simp)
  have hidle : Idle { s with cursor := c, keyAllowed := true } 4 [0, -1] :=
    ⟨hs.outer_eq, hs.candidate_eq, hs.indent_eq, hs.indents_eq⟩
  obtain ⟨s', hfetch, hs', h', hkinds⟩ := fetch_nil htoken hidle hc hm rfl rfl
  exact ⟨s', m, hfetch, hs', h', hm, hkinds⟩

/-- Behind the end comes the end again. -/
theorem fetch_again (hs : s.Idle (-1) []) (h : s.cursor.Stands [] m) (hm : m.column = 0) :
    ∃ s', s.fetch = some s' ∧ s'.Idle (-1) [] ∧ s'.cursor.Stands [] m ∧
      s'.kinds = s.kinds ++ [.streamEnd] := by
  have h₀ : s.cursor.Stands (List.replicate 0 ' ' ++ []) m := h
  obtain ⟨c, hc, htoken⟩ := toToken_spaces s.cursor.limit h₀ hs.outer_eq (by simp)
  obtain ⟨s', hfetch, hs', h', hkinds⟩ := fetch_nil htoken (hs.moved c) hc hm rfl rfl
  exact ⟨s', hfetch, hs', h', hkinds⟩

end Scanner

end Birdcall.Yaml
