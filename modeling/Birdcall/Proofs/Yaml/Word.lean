import Birdcall.Proofs.Base64
import Birdcall.Proofs.Yaml.Queue
import Birdcall.Proofs.Yaml.Values

/-!
# Texts written as scalars are found again

`Written.Spelled` lists the ways to write a text.  In each of them the scanner finds it behind its
colon as it was, except for a block that begins with a line break or a tab: `Written.found?` says
what is found.
-/

namespace Birdcall.Yaml

namespace Written

variable {own : Bool} {cs : List Char}

/-- The characters of a scalar in a mapping at column 4. -/
def form (own : Bool) (cs : List Char) : List Char :=
  if cs.contains '\n' then if (looks cs).block then block 4 8 cs else doubleQuoted cs
  else if own then
    if cs.isEmpty || (looks cs).plain then cs
    else if (looks cs).single then singleQuoted 8 cs
    else doubleQuoted cs
  else doubleQuoted cs

/-- How these characters are found to be written. -/
def styleOf (own : Bool) (cs : List Char) : Style :=
  if cs.contains '\n' then if (looks cs).block then .block else .quoted
  else if own && (cs.isEmpty || (looks cs).plain) then .plain else .quoted

/-- What they are read back as.  A block loses a line break at its beginning, and with a tab there
it is malformed. -/
def readBack? (cs : List Char) : Option (List Char) :=
  if cs.contains '\n' && (looks cs).block then
    if cs.head? = some '\t' then none else some (if cs.head?.any isBreak then cs.tail else cs)
  else some cs

theorem getLast?_blockBody (indent : Nat) (atStart broken : Bool) (cs : List Char) :
    (blockBody indent atStart broken cs).getLast? = cs.getLast? := by
  induction cs generalizing atStart broken with
  | nil => rfl
  | cons ch cs ih =>
    rw [blockBody]
    split
    · rw [List.getLast?_cons, List.getLast?_cons, ih]
    · rw [List.getLast?_append, List.getLast?_cons, List.getLast?_cons, ih]
      rfl

theorem lineEnd_block (hne : cs ≠ []) : lineEnd (block 4 8 cs) = lineEnd cs := by
  have hbody : blockBody 8 false true cs ≠ [] := by
    intro hnil
    have hlast := getLast?_blockBody 8 false true cs
    rw [hnil, List.getLast?_nil, eq_comm, List.getLast?_eq_none_iff] at hlast
    exact hne hlast
  rw [block, lineEnd_append hbody, lineEnd, getLast?_blockBody, lineEnd]

theorem lineEnd_doubleQuoted (cs : List Char) : lineEnd (doubleQuoted cs) = ['\n'] := by
  rw [doubleQuoted, lineEnd_concat]
  rfl

theorem lineEnd_singleQuoted (indent : Nat) (cs : List Char) :
    lineEnd (singleQuoted indent cs) = ['\n'] := by
  rw [singleQuoted, lineEnd_concat]
  rfl

theorem lineEnd_plain (hne : cs ≠ []) (h : (looks cs).plain = true) : lineEnd cs = ['\n'] := by
  simp only [Looks.plain, looks, Bool.not_eq_true', Bool.or_eq_false_iff, List.any_eq_false] at h
  have hline : ∀ ch ∈ cs, isBreak ch = false := by simpa using h.1.2
  exact lineEnd_of_forall hne hline

/-- A block has only line breaks that stand for themselves. -/
theorem keptBreak_of_block (h : (looks cs).block = true) :
    ∀ ch ∈ cs, isBreak ch = true → KeptBreak ch := by
  intro ch hch hbreak
  simp only [Looks.block, looks, Bool.not_eq_true', Bool.or_eq_false_iff, List.any_eq_false,
    Bool.and_eq_true, bne_iff_ne, not_and] at h
  have htab : ch ≠ '\t' := by
    rintro rfl
    cases hbreak
  exact keptBreak_of_isPrintable (by simpa using h.2 ch hch htab) hbreak

/-- The ways to write a text, how it is then found to be written, and what it is read back as. -/
inductive Spelled (own : Bool) (cs : List Char) : List Char → Style → Option (List Char) → Prop
  | block (hfeed : '\n' ∈ cs) (h : (looks cs).block = true) :
      Spelled own cs (block 4 8 cs) .block
        (if cs.head? = some '\t' then none else some (if cs.head?.any isBreak then cs.tail else cs))
  | double : Spelled own cs (doubleQuoted cs) .quoted (some cs)
  | single (hfeed : '\n' ∉ cs) (h : (looks cs).single = true) :
      Spelled own cs (singleQuoted 8 cs) .quoted (some cs)
  | plain (hown : own = true) (h : cs = [] ∨ (looks cs).plain = true) :
      Spelled own cs cs .plain (some cs)

theorem spelled_form (own : Bool) (cs : List Char) :
    Spelled own cs (form own cs) (styleOf own cs) (readBack? cs) := by
  by_cases hfeed : '\n' ∈ cs
  · by_cases hblock : (looks cs).block = true
    · simpa [form, styleOf, readBack?, hfeed, hblock] using .block hfeed hblock
    · simpa [form, styleOf, readBack?, hfeed, hblock] using .double
  · cases own with
    | false => simpa [form, styleOf, readBack?, hfeed] using .double
    | true =>
      by_cases hplain : cs = [] ∨ (looks cs).plain = true
      · simpa [form, styleOf, readBack?, hfeed, hplain] using .plain rfl hplain
      · by_cases hsingle : (looks cs).single = true
        · simpa [form, styleOf, readBack?, hfeed, hplain, hsingle] using .single hfeed hsingle
        · simpa [form, styleOf, readBack?, hfeed, hplain, hsingle] using .double

/-- No scalar begins with white space, or like a comment. -/
theorem Spelled.head {written : List Char} {style : Style} {back? : Option (List Char)}
    (h : Spelled own cs written style back?) (hne : own = true → cs ≠ []) :
    ∃ ch tail, written = ch :: tail ∧ isBlank ch = false ∧ ch ≠ '#' := by
  cases h with
  | block => exact ⟨'|', _, rfl, by decide⟩
  | double => exact ⟨'"', _, rfl, by decide⟩
  | single => exact ⟨'\'', _, rfl, by decide⟩
  | plain hown hplain =>
    have hplain := hplain.resolve_left (hne hown)
    obtain ⟨ch, tail, rfl⟩ := List.exists_cons_of_ne_nil (hne hown)
    obtain ⟨hink, hsign, -⟩ := Scanner.beginsPlain_of_looks hplain []
    exact ⟨ch, tail, rfl, (isInk_iff.1 hink).1, hsign⟩

/-- The characters of a text as a scalar. -/
def wordForm (t : Text) : List Char :=
  if Text.Valid t then form (meansItself t) (Text.decode t)
  else "!!binary".toList ++ ' ' :: form true (Text.decode (data t))

theorem scalar_eq (t : Text) : scalar 4 8 t = Text.encode (wordForm t) := by
  by_cases hvalid : Text.Valid t
  · simp [scalar, wordForm, form, hvalid, Text.ofString, Text.encode]
  · have hheading : Text.ofString "!!binary " = Text.encode ("!!binary".toList ++ [' ']) := rfl
    simp only [scalar, wordForm, data, form, hvalid, if_false, hheading, if_true,
      ← Text.encode_append, List.append_assoc]
    rfl

theorem decode_ne_nil {t : Text} (hvalid : Text.Valid t) (h : meansItself t = true) :
    Text.decode t ≠ [] := by
  intro hnil
  have ht : t = [] := by rw [← hvalid, hnil]; rfl
  rw [ht] at h
  cases h

theorem wordForm_head (t : Text) :
    ∃ ch tail, wordForm t = ch :: tail ∧ isBlank ch = false ∧ ch ≠ '#' := by
  by_cases hvalid : Text.Valid t
  · simp only [wordForm, hvalid, if_true]
    exact (spelled_form _ _).head (decode_ne_nil hvalid)
  · simp only [wordForm, hvalid, if_false]
    exact ⟨'!', _, rfl, by decide⟩

/-- A scalar as it is found: whether it is marked as binary data, its text, and how it is written. -/
structure Found where
  binary : Bool
  value : Text
  style : Style

/-- The tokens of a scalar. -/
def Found.kinds (f : Found) : List TokenKind :=
  (if f.binary then [.tag (Text.ofString "!!") (Text.ofString "binary")] else []) ++
    [.scalar f.value f.style]

/-- What a text as a scalar is found to be. -/
def found? (t : Text) : Option Found :=
  if Text.Valid t then
    (readBack? (Text.decode t)).map fun cs =>
      ⟨false, Text.encode cs, styleOf (meansItself t) (Text.decode t)⟩
  else some ⟨true, data t, styleOf true (Text.decode (data t))⟩

end Written

namespace Scanner

variable {s : Scanner} {m : Mark} {rest : List Char} {k : Nat} {is : List Int} {own : Bool}
  {cs : List Char}

theorem finds_spelled {written : List Char} {style : Style} {back? : Option (List Char)}
    (hspelled : Written.Spelled own cs written style back?) (hs : s.Idle 4 is)
    (hkey : s.keyAllowed = false) (hi : 4 ≤ m.column)
    (hhead : ∀ ch ∈ rest.head?, isInk ch = true ∧ ch ≠ '#') (hk : k ≤ 4)
    (hne : own = true → cs ≠ [])
    (h : s.cursor.Stands (' ' :: (written ++ (lineEnd written ++
      (List.replicate k ' ' ++ rest)))) m) :
    (back? = none → s.fetch = none) ∧
      ∀ back, back? = some back → s.Finds 4 is (.scalar (Text.encode back) style) k rest := by
  have hi : (4 : Int) ≤ m.column := by omega
  cases hspelled with
  | block hfeed hblock =>
    have hne : cs ≠ [] := List.ne_nil_of_mem hfeed
    rw [Written.lineEnd_block hne] at h
    have hfinds := finds_block hs hi hhead rfl (by omega) hne (Written.keptBreak_of_block hblock) h
    split at hfinds
    next htab => simpa [htab] using hfinds
    next htab => simpa [htab] using hfinds
  | double =>
    rw [Written.lineEnd_doubleQuoted] at h
    simpa using finds_doubleQuoted hs hi hhead hkey h
  | single hfeed hsingle =>
    rw [Written.lineEnd_singleQuoted] at h
    simpa using finds_singleQuoted hs hi hhead (by decide) hkey hsingle hfeed h
  | plain hown hplain =>
    have hplain := hplain.resolve_left (hne hown)
    rw [Written.lineEnd_plain (hne hown) hplain] at h
    simpa using finds_plain hs hi hhead hkey (hne hown) hplain (by omega) h

theorem Finds.advances {kind : TokenKind} {i : Int} (h : s.Finds i is kind k rest)
    (hlen : s.queue.length = 2) : ∃ s', s.Advances [kind] s' ∧ s'.Idle i is ∧ s'.Due k rest := by
  obtain ⟨s₁, hfetch, hadds, hdue⟩ := h
  obtain ⟨n, hadvances⟩ := advances_fetch hlen hfetch hadds.idle (by simp) hadds.kinds_eq
  exact ⟨s₁.dropped n, hadvances, hadds.idle.dropped n, hdue⟩

section Words

variable (hs : s.Idle 4 is) (hlen : s.queue.length = 2) (hkey : s.keyAllowed = false)
  (hi : 4 ≤ m.column) (hhead : ∀ ch ∈ rest.head?, isInk ch = true ∧ ch ≠ '#') (hk : k ≤ 4)

include hs hlen hkey hi hhead hk

open Written

/-- Binary data are found behind their tag. -/
theorem advances_binary {ch : Char} (hink : isInk ch = true)
    (h : s.cursor.Stands (' ' :: ("!!binary".toList ++ ' ' :: (form true (ch :: cs) ++
      (lineEnd (form true (ch :: cs)) ++ (List.replicate k ' ' ++ rest))))) m) :
    ∃ s', s.Advances [.tag (Text.ofString "!!") (Text.ofString "binary"),
        .scalar (Text.encode (ch :: cs)) (styleOf true (ch :: cs))] s' ∧
      s'.Idle 4 is ∧ s'.Due k rest := by
  have hspelled := spelled_form true (ch :: cs)
  have hback : readBack? (ch :: cs) = some (ch :: cs) := by
    have htab : ch ≠ '\t' := by
      rintro rfl
      cases hink
    simp [readBack?, htab, isInk_iff.1 hink]
  have hnext : ((form true (ch :: cs) ++ (lineEnd (form true (ch :: cs)) ++
      (List.replicate k ' ' ++ rest))).dropWhile isBlank).head? ≠ some '#' := by
    obtain ⟨d, tail, hform, hd⟩ := hspelled.head (by simp)
    simp [hform, hd]
  obtain ⟨s₁, n, hfetch, hadds, hkey₁, h₁⟩ := finds_binary hs (by omega) hkey h hnext
  obtain ⟨n₁, htag⟩ := advances_fetch hlen hfetch hadds.idle (by simp) hadds.kinds_eq
  obtain ⟨-, hsome⟩ := finds_spelled hspelled (hadds.idle.dropped n₁) hkey₁
    (by rw [Mark.column_on]; omega) hhead hk (by simp) h₁
  obtain ⟨s', hscalar, hrest⟩ := (hsome _ hback).advances htag.1
  exact ⟨s', htag.trans hscalar, hrest⟩

/-- A text as a scalar is found as it was, with the exceptions for blocks. -/
theorem advances_word {t : Text}
    (h : s.cursor.Stands (' ' :: (wordForm t ++ (lineEnd (wordForm t) ++
      (List.replicate k ' ' ++ rest)))) m) :
    (found? t = none → s.fetch = none) ∧
      ∀ f, found? t = some f → ∃ s', s.Advances f.kinds s' ∧ s'.Idle 4 is ∧ s'.Due k rest := by
  by_cases hvalid : Text.Valid t
  · simp only [wordForm, hvalid, if_true] at h
    obtain ⟨hnone, hsome⟩ := finds_spelled (spelled_form (meansItself t) (Text.decode t)) hs hkey hi
      hhead hk (decode_ne_nil hvalid) h
    simp only [found?, hvalid, if_true, Option.map_eq_none_iff, Option.map_eq_some_iff]
    refine ⟨hnone, ?_⟩
    rintro f ⟨back, hback, rfl⟩
    exact (hsome back hback).advances hlen
  · have hne : t ≠ [] := by
      rintro rfl
      exact hvalid (Text.valid_of_ascii (by simp))
    obtain ⟨n, tail, hn, hcs⟩ := chars_data hne
    have hdigit : ∀ n : Fin 64, isInk (Char.ofNat (Text.Base64.digit n).toNat) = true := by decide
    obtain ⟨ch, others, hform, -⟩ := (spelled_form true (Text.decode (data t))).head (by simp [hcs])
    have hend : lineEnd ("!!binary".toList ++ ' ' :: form true (Text.decode (data t))) =
        lineEnd (form true (Text.decode (data t))) := by
      rw [List.append_cons, lineEnd_append (by simp [hform])]
    have hfound : found? t = some ⟨true, Text.encode (Text.decode (data t)),
        styleOf true (Text.decode (data t))⟩ := by
      simp only [found?, hvalid, if_false]
      rw [valid_data t]
    simp only [wordForm, hvalid, if_false, hend, List.append_assoc, List.cons_append] at h
    rw [hcs] at h hfound
    refine ⟨by simp [hfound], ?_⟩
    intro f hf
    obtain rfl := Option.some.inj (hfound.symm.trans hf)
    exact advances_binary hs hlen hkey hi hhead hk (hdigit ⟨n, hn⟩) h

end Words

end Scanner

end Birdcall.Yaml
