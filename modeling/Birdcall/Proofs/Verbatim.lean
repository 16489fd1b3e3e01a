import Birdcall.Proofs.Evaluation
import Birdcall.Proofs.Lexing

/-!
# Names as they are written

A program is read as characters, and its names are written back from them.  So a name is kept byte
for byte as long as it is UTF-8, and no longer: every stray byte in it, one that belongs to no
character, comes back as the replacement character.

* `Text.Words` gives the words of a text with the bytes they have there.  Cutting loses nothing
  (`Text.join_pieces`), and a word reads the same on its own as it does in the text
  (`Text.decode_join`).
* A token that names something has the bytes of its word just when these are UTF-8, and two such
  tokens have the same name just when their words show the same characters.  The names in a program
  are those of its tokens (`Token.text_eq_word_iff`).
* So two names that differ in stray bytes only are one name, and running one of them runs the other
  (`Token.stray_names_meet`).
-/

namespace Birdcall

/-! ## Pieces and their bytes -/

namespace Text

/-- The bytes of a piece. -/
def Piece.bytes : Piece → Text
  | .char c => encodeChar c
  | .stray b => [b]

/-- The bytes of pieces in a row. -/
def join (ps : List Piece) : Text := ps.flatMap Piece.bytes

theorem join_cons (p : Piece) (ps : List Piece) : join (p :: ps) = p.bytes ++ join ps := rfl

theorem join_map_char (cs : List Char) : join (cs.map .char) = encode cs := List.flatMap_map ..

/-- A text is its first piece and what is behind it. -/
theorem bytes_piece_append (b : UInt8) (rest : Text) :
    (piece b rest).1.bytes ++ rest.drop (piece b rest).2 = b :: rest := by
  rcases piece_cases b rest with ⟨c, hpiece, hbytes⟩ | ⟨hpiece, -⟩
  · rw [hpiece]
    exact hbytes.symm
  · rw [hpiece]
    rfl

theorem exists_of_pieces_eq_cons {t : Text} {p : Piece} {ps : List Piece}
    (h : pieces t = p :: ps) :
    ∃ b rest, t = b :: rest ∧ (piece b rest).1 = p ∧ pieces (rest.drop (piece b rest).2) = ps := by
  cases t with
  | nil =>
    rw [pieces] at h
    cases h
  | cons b rest =>
    rw [pieces] at h
    obtain ⟨hp, hps⟩ := List.cons.inj h
    exact ⟨b, rest, rfl, hp, hps⟩

/-- Pieces at the beginning of a text are there byte for byte. -/
theorem exists_rest {t : Text} {ps after : List Piece} (h : pieces t = ps ++ after) :
    ∃ rest, t = join ps ++ rest ∧ pieces rest = after := by
  induction ps generalizing t with
  | nil => exact ⟨t, rfl, h⟩
  | cons p ps ih =>
    obtain ⟨b, rest, rfl, hp, htail⟩ := exists_of_pieces_eq_cons h
    obtain ⟨behind, hbehind, hafter⟩ := ih htail
    refine ⟨behind, ?_, hafter⟩
    rw [join_cons, List.append_assoc, ← hbehind, ← hp]
    exact (bytes_piece_append b rest).symm

/-- Taking a text to pieces loses nothing. -/
theorem join_pieces (t : Text) : join (pieces t) = t := by
  obtain ⟨rest, ht, hrest⟩ := exists_rest (List.append_nil (pieces t)).symm
  cases rest with
  | nil =>
    rw [List.append_nil] at ht
    exact ht.symm
  | cons b rest =>
    rw [pieces] at hrest
    cases hrest

/-- Pieces at the beginning of a text are the pieces of their own bytes: a byte that begins no
character does not begin one when the text ends earlier. -/
theorem pieces_join {t : Text} {ps after : List Piece} (h : pieces t = ps ++ after) :
    pieces (join ps) = ps := by
  induction ps generalizing t with
  | nil => rw [join, List.flatMap_nil, pieces]
  | cons p ps ih =>
    obtain ⟨b, rest, rfl, rfl, htail⟩ := exists_of_pieces_eq_cons h
    have halone := ih htail
    rw [join_cons]
    rcases piece_cases b rest with ⟨c, hpiece, -⟩ | ⟨hpiece, hnone⟩
    · rw [hpiece]
      show pieces (encodeChar c ++ join ps) = .char c :: ps
      rw [pieces_encodeChar_append, halone]
    · obtain ⟨behind, hbehind, -⟩ := exists_rest htail
      rw [hpiece] at hbehind ⊢
      show pieces (b :: join ps) = .stray b :: ps
      rw [pieces]
      rcases piece_cases b (join ps) with ⟨c, -, hbytes⟩ | ⟨hstray, -⟩
      · refine absurd ?_ (hnone c)
        rw [show rest = join ps ++ behind from hbehind, ← List.cons_append, hbytes]
        exact (List.prefix_append _ _).trans (List.prefix_append _ _)
      · rw [hstray]
        exact congrArg _ halone

/-- Pieces of a text show the same characters on their own. -/
theorem decode_join {t : Text} {ps : List Piece} (h : ps <:+: pieces t) :
    decode (join ps) = ps.map Piece.toChar := by
  obtain ⟨before, after, h⟩ := h
  rw [List.append_assoc] at h
  obtain ⟨rest, -, hrest⟩ := exists_rest h.symm
  rw [decode, pieces_join hrest]

end Text

/-! ## Words and their bytes -/

section Parted

variable {α : Type} {blank : α → Bool}

/-- Every list falls apart. -/
theorem Parted.exists (blank : α → Bool) (l : List α) : ∃ ws, Parted blank l ws := by
  induction l with
  | nil => exact ⟨[], .nil⟩
  | cons a rest ih =>
    obtain ⟨ws, h⟩ := ih
    cases ha : blank a with
    | true => exact ⟨ws, .skip ha h⟩
    | false =>
      have hone : ∀ b ∈ [a], blank b = false := by simpa using ha
      cases h with
      | nil => exact ⟨[[a]], .piece (w := [a]) (by simp) hone (by simp) .nil⟩
      | skip hb h =>
        refine ⟨[a] :: ws, .piece (w := [a]) (by simp) hone ?_ (.skip hb h)⟩
        simpa using hb
      | @piece w rest ws _ hw hend h =>
        -- The run that begins behind the element begins with it.
        refine ⟨(a :: w) :: ws, .piece (w := a :: w) (by simp) ?_ hend h⟩
        exact List.forall_mem_cons.2 ⟨ha, hw⟩

theorem Parted.isInfix {l w : List α} {ws : List (List α)} (h : Parted blank l ws)
    (hw : w ∈ ws) : w <:+: l := by
  induction h with
  | nil => cases hw
  | skip _ _ ih => exact (ih hw).trans (List.suffix_cons _ _).isInfix
  | piece _ _ _ _ ih =>
    rcases List.mem_cons.1 hw with rfl | hw
    · exact (List.prefix_append _ _).isInfix
    · exact (ih hw).trans (List.suffix_append _ _).isInfix

end Parted

namespace Text

/-- The words of a text, byte for byte: its longest runs of pieces that are not white space. -/
def Words (t : Text) (ws : List Text) : Prop :=
  ∃ runs, Parted (fun p => isBlank p.toChar) (pieces t) runs ∧ ws = runs.map join

theorem Words.exists (t : Text) : ∃ ws, Words t ws := by
  obtain ⟨runs, hruns⟩ := Parted.exists (fun p : Piece => isBlank p.toChar) (pieces t)
  exact ⟨_, runs, hruns, rfl⟩

theorem Words.unique {t : Text} {ws others : List Text} (h : Words t ws) (h' : Words t others) :
    others = ws := by
  obtain ⟨runs, hruns, rfl⟩ := h
  obtain ⟨runs', hruns', rfl⟩ := h'
  rw [hruns.unique hruns']

/-- The characters of a text fall apart into those of its words. -/
theorem Words.parted {t : Text} {ws : List Text} (h : Words t ws) :
    Parted isBlank (decode t) (ws.map decode) := by
  obtain ⟨runs, hruns, rfl⟩ := h
  have hdecode : runs.map (decode ∘ join) = runs.map (·.map Piece.toChar) :=
    List.map_congr_left fun w hw => decode_join (hruns.isInfix hw)
  rw [List.map_map, hdecode]
  exact hruns.map (f := Piece.toChar) fun _ => rfl

/-- The words of UTF-8 are UTF-8. -/
theorem Words.encoded {cs : List Char} {ws : List Text} (h : Words (encode cs) ws) :
    ∀ w ∈ ws, ∃ ds, w = encode ds := by
  obtain ⟨runs, hruns, rfl⟩ := h
  intro w hw
  obtain ⟨run, hrun, rfl⟩ := List.mem_map.1 hw
  have hchars : ∀ p ∈ run, Piece.char p.toChar = p := by
    intro p hp
    have hp := (hruns.isInfix hrun).subset hp
    rw [pieces_encode] at hp
    obtain ⟨c, -, rfl⟩ := List.mem_map.1 hp
    rfl
  refine ⟨run.map Piece.toChar, ?_⟩
  rw [← join_map_char, List.map_map]
  exact congrArg join ((List.map_id run).symm.trans
    (List.map_congr_left fun p hp => (hchars p hp).symm))

end Text

/-! ## Names -/

namespace Program

/-- The names in a program, in order: those of the functions that it defines and runs. -/
def names (p : Program) : List Text := (p.filter (·.op ≠ .print)).map (·.name)

theorem names_append (p q : Program) : names (p ++ q) = p.names ++ q.names := by
  rw [names, List.filter_append, List.map_append]
  rfl

theorem names_print_cons (s : Symbol) (p : Program) : names (.print s :: p) = p.names := rfl

theorem names_run_cons (name : Text) (p : Program) : names (.run name :: p) = name :: p.names := rfl

theorem names_define_cons (name : Text) (last : Int) (p : Program) :
    names (.define name last :: p) = name :: p.names := rfl

end Program

namespace Token

/-- The names among tokens, in order. -/
def identifiers (tokens : List Token) : List Text :=
  (tokens.filter (·.kind = .identifier)).map (·.text)

theorem identifiers_append (ts us : List Token) :
    identifiers (ts ++ us) = identifiers ts ++ identifiers us := by
  rw [identifiers, List.filter_append, List.map_append]
  rfl

theorem identifiers_cons_identifier {n : Token} (h : n.kind = .identifier) (ts : List Token) :
    identifiers (n :: ts) = n.text :: identifiers ts := by
  simp [identifiers, h]

theorem identifiers_cons_reserved {t : Token} (h : t.kind ≠ .identifier) (ts : List Token) :
    identifiers (t :: ts) = identifiers ts := by
  simp [identifiers, h]

end Token

/-- Laying out statements keeps the names they are spelled with. -/
theorem Spells.names_flatten {tokens : List Token} {t : List Statement} (h : Spells tokens t)
    (index : Nat) : (Statement.flatten index t).names = Token.identifiers tokens := by
  induction h generalizing index with
  | nil =>
    rw [Statement.flatten]
    rfl
  | print ht hs _ ih =>
    rw [Statement.flatten, Program.names_print_cons, ih,
      Token.identifiers_cons_reserved (ht ▸ Kind.symbol_ne_identifier hs)]
  | run ht hn _ ih =>
    rw [Statement.flatten, Program.names_run_cons, ih,
      Token.identifiers_cons_reserved (ht ▸ by decide), Token.identifiers_cons_identifier hn.1]
  | define ht hn _ he _ ihb ih =>
    rw [Statement.flatten, Program.names_define_cons, Program.names_append, ihb, ih,
      Token.identifiers_cons_reserved (ht ▸ by decide), Token.identifiers_cons_identifier hn.1,
      Token.identifiers_append, Token.identifiers_cons_reserved (he ▸ by decide)]

/-- A function that is defined and then run is run, whatever it is called. -/
theorem Statement.evaluate_define_run {σ : Type} (emit : Symbol → Act σ Unit) (name : Text)
    (body : List Statement) :
    evaluate emit [.define name body, .run name] = evalFrom emit 1 [] body := by
  have hlookup : List.lookup name [(name, 1, body)] = some (1, body) := by simp
  simp only [evaluate, evalFrom]
  split
  · next h => cases hlookup.symm.trans h
  · next h =>
    cases hlookup.symm.trans h
    exact bind_pure _

namespace Token

/-- A token is made of the word at its place. -/
theorem word_of_mem_zip {src : Text} {ws : List Text} (h : Text.Words src ws) {r : Text × Token}
    (hr : r ∈ ws.zip (lex src)) :
    r.2.word = (classify (Text.encode (Text.decode r.1)) .zero).word := by
  have hlex := map_word_lex h.parted
  rw [List.map_map] at hlex
  obtain ⟨i, hi⟩ := List.mem_iff_getElem?.1 hr
  obtain ⟨hw, htoken⟩ := List.getElem?_zip_eq_some.1 hi
  have hat := congrArg (·[i]?) hlex
  simpa [hw, htoken] using hat

/-- A name is what its word reads as, written back. -/
theorem text_of_mem_zip {src : Text} {ws : List Text} (h : Text.Words src ws) {r : Text × Token}
    (hr : r ∈ ws.zip (lex src)) (hkind : r.2.kind = .identifier) :
    r.2.text = Text.encode (Text.decode r.1) := by
  have hword := word_of_mem_zip h hr
  rcases classify_cases (Text.encode (Text.decode r.1)) .zero with ⟨k, hk, hreserved⟩ | ⟨-, hname⟩
  · rw [hreserved] at hword
    refine absurd ?_ (Kind.words_spec _ (Kind.mem_words hk)).2.1
    exact (Prod.mk.inj hword).1.symm.trans hkind
  · rw [hname] at hword
    exact (Prod.mk.inj hword).2

/-- The words of a text are cut out of its own bytes.  A token that names something carries the
bytes of its word if and only if these are UTF-8, as all words of a text that is UTF-8 are.  Two
such tokens carry one name if and only if their words show the same characters.  The names in a
program are the names its tokens carry. -/
theorem text_eq_word_iff (src : Text) :
    Text.join (Text.pieces src) = src ∧
      ∃ ws, Text.Words src ws ∧ (∀ others, Text.Words src others → others = ws) ∧
        (∀ cs, src = Text.encode cs → ∀ w ∈ ws, ∃ ds, w = Text.encode ds) ∧
        ws.length = (lex src).length ∧
        (∀ r ∈ ws.zip (lex src), r.2.kind = .identifier →
          (r.2.text = r.1 ↔ ∃ cs, r.1 = Text.encode cs)) ∧
        (∀ r ∈ ws.zip (lex src), ∀ s ∈ ws.zip (lex src), r.2.kind = .identifier →
          s.2.kind = .identifier →
          (r.2.text = s.2.text ↔ Text.decode r.1 = Text.decode s.1)) ∧
        ∀ p, Program.ofTokens (lex src) = .ok p → p.names = identifiers (lex src) := by
  obtain ⟨ws, hws⟩ := Text.Words.exists src
  refine ⟨Text.join_pieces src, ws, hws, fun others h => hws.unique h, ?_, ?_, ?_, ?_, ?_⟩
  · rintro cs rfl
    exact hws.encoded
  · have hlength := congrArg List.length (map_word_lex hws.parted)
    simpa using hlength.symm
  · intro r hr hkind
    rw [text_of_mem_zip hws hr hkind]
    constructor
    · intro h
      exact ⟨_, h.symm⟩
    · rintro ⟨cs, h⟩
      rw [h, Text.decode_encode]
  · intro r hr s hs hkind hkind'
    rw [text_of_mem_zip hws hr hkind, text_of_mem_zip hws hs hkind', Text.encode_inj]
  · intro p hp
    obtain ⟨t, ht, rfl⟩ := Program.ofTokens_eq_ok_iff.1 hp
    exact ht.names_flatten 0

/-- `fun \xff a end run \xfe`: neither of the two bytes belongs to a character, and both names are
read as the replacement character.  So the function that is defined is the one that is run. -/
theorem stray_names_meet :
    let src : Text :=
      [102, 117, 110, 32, 0xFF, 32, 97, 32, 101, 110, 100, 32, 114, 117, 110, 32, 0xFE]
    let name : Text := [0xEF, 0xBF, 0xBD]
    let p : Program := [.define name 1, .print ⟨0⟩, .run name]
    Text.Words src [[102, 117, 110], [0xFF], [97], [101, 110, 100], [114, 117, 110], [0xFE]] ∧
      (lex src).map (fun t => (t.kind, t.text)) =
        [(.opener, [70, 85, 78]), (.identifier, name), (.symbol ⟨0⟩, [65]), (.closer, [69, 78, 68]),
          (.runner, [82, 85, 78]), (.identifier, name)] ∧
      Program.ofTokens (lex src) = .ok p ∧
      ∀ {σ : Type} (emit : Symbol → Act σ Unit), p.interpret (.printing emit) = emit ⟨0⟩ := by
  intro src name p
  have hpieces : Text.pieces src =
      [.char 'f', .char 'u', .char 'n', .char ' ', .stray 0xFF, .char ' ', .char 'a', .char ' ',
        .char 'e', .char 'n', .char 'd', .char ' ', .char 'r', .char 'u', .char 'n', .char ' ',
        .stray 0xFE] := by
    decide +kernel
  refine ⟨?_, ?_, ?_, ?_⟩
  · refine ⟨[[.char 'f', .char 'u', .char 'n'], [.stray 0xFF], [.char 'a'],
      [.char 'e', .char 'n', .char 'd'], [.char 'r', .char 'u', .char 'n'], [.stray 0xFE]], ?_, ?_⟩
    · rw [hpieces]
      refine .piece (w := [_, _, _]) (by simp) (by decide) (by decide) (.skip rfl ?_)
      refine .piece (w := [_]) (by simp) (by decide) (by decide) (.skip rfl ?_)
      refine .piece (w := [_]) (by simp) (by decide) (by decide) (.skip rfl ?_)
      refine .piece (w := [_, _, _]) (by simp) (by decide) (by decide) (.skip rfl ?_)
      refine .piece (w := [_, _, _]) (by simp) (by decide) (by decide) (.skip rfl ?_)
      exact .piece (w := [_]) (by simp) (by decide) (by decide) .nil
    · decide
  · decide +kernel
  · decide +kernel
  · -- The program is laid out from a definition and a run of the same name.
    intro σ emit
    have hname : name ≠ [] := by decide
    have hspells : Spells
        [⟨.opener, [], .zero⟩, ⟨.identifier, name, .zero⟩, ⟨.symbol ⟨0⟩, [], .zero⟩,
          ⟨.closer, [], .zero⟩, ⟨.runner, [], .zero⟩, ⟨.identifier, name, .zero⟩]
        [.define name [.print ⟨0⟩], .run name] :=
      .define rfl ⟨rfl, hname⟩ (.print rfl rfl .nil) rfl (.run rfl ⟨rfl, hname⟩ .nil)
    have hp : p = Statement.flatten 0 [.define name [.print ⟨0⟩], .run name] := by
      simp [Statement.flatten, Statement.size, p]
    rw [hp, Program.interpret_flatten hspells, Statement.evaluate_define_run]
    simp [Statement.evalFrom]

end Token
end Birdcall
