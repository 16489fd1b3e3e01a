import Birdcall.Proofs.Delivery
import Birdcall.Proofs.Filing

/-!
# Writing programs back as text

A program can be written as text again, in many ways: `Program.words` are its words, and
`Program.Renders` are the texts that show them, with reserved words in any mix of cases and with any
white space.  Reading such a text gives the program back.

There are three groups.

* The words of a program.  They are told from the instructions alone, where the end of a function is
  the index of its last instruction.  For a program that comes from statements they are the words of
  the statements (`wordsFrom_flatten`).
* Spellings.  A word that was read once is read again from each of its spellings
  (`Token.classify_of_written`).
* Layouts.  A text laid out from words falls apart into these words (`Laid.parted`).
-/

namespace Birdcall

/-! ## The words of a program -/

namespace Program

/-- A reserved word, as a token holds it. -/
def reserved (k : Kind) : Kind × Text := (k, k.text)

/-- The words of an instruction by itself. -/
def ownWords (i : Instruction) : List (Kind × Text) :=
  match i.op.code.toNat with
  | 1 => [reserved (.symbol i.symbol)]
  | 2 => [reserved .opener, (.identifier, i.name)]
  | 3 => [reserved .runner, (.identifier, i.name)]
  | _ => []

/-- The words of instructions from `index` on, inside functions that end at the given indices,
innermost first.  A function is closed as soon as its last instruction has been written. -/
def wordsFrom (index : Nat) (ends : List Int) : Program → List (Kind × Text)
  | [] => ends.map fun _ => reserved .closer
  | i :: rest =>
    (ends.takeWhile (· < (index : Int))).map (fun _ => reserved .closer) ++
      (ownWords i ++
        wordsFrom (index + 1)
          ((if i.op = .define then [i.last] else []) ++ ends.dropWhile (· < (index : Int))) rest)

/-- The words of a program. -/
def words (p : Program) : List (Kind × Text) := wordsFrom 0 [] p

/-- A function whose last instruction has been written is closed. -/
theorem wordsFrom_ended {index : Nat} {last : Int} (h : last < index) (ends : List Int)
    (p : Program) :
    wordsFrom index (last :: ends) p = reserved .closer :: wordsFrom index ends p := by
  cases p with
  | nil => rfl
  | cons i rest => simp [wordsFrom, h]

section Open

variable {index : Nat} {ends : List Int} {rest : Program}

/-- Inside functions that have not ended yet an instruction is written right away. -/
theorem wordsFrom_cons (h : ∀ last ∈ ends, (index : Int) ≤ last) (i : Instruction) :
    wordsFrom index ends (i :: rest) =
      ownWords i ++
        wordsFrom (index + 1) ((if i.op = .define then [i.last] else []) ++ ends) rest := by
  have hnone : ends.takeWhile (· < (index : Int)) = [] ∧
      ends.dropWhile (· < (index : Int)) = ends := by
    cases ends with
    | nil => exact ⟨rfl, rfl⟩
    | cons last ends =>
      have hlast := h last List.mem_cons_self
      simp [hlast]
  rw [wordsFrom, hnone.1, hnone.2]
  rfl

theorem wordsFrom_print (h : ∀ last ∈ ends, (index : Int) ≤ last) (s : Symbol) :
    wordsFrom index ends (.print s :: rest) =
      reserved (.symbol s) :: wordsFrom (index + 1) ends rest :=
  wordsFrom_cons h _

theorem wordsFrom_run (h : ∀ last ∈ ends, (index : Int) ≤ last) (name : Text) :
    wordsFrom index ends (.run name :: rest) =
      reserved .runner :: (.identifier, name) :: wordsFrom (index + 1) ends rest :=
  wordsFrom_cons h _

theorem wordsFrom_define (h : ∀ last ∈ ends, (index : Int) ≤ last) (name : Text) (last : Int) :
    wordsFrom index ends (.define name last :: rest) =
      reserved .opener :: (.identifier, name) :: wordsFrom (index + 1) (last :: ends) rest :=
  wordsFrom_cons h _

end Open

end Program

namespace Statement

open Program (reserved wordsFrom wordsFrom_print wordsFrom_run wordsFrom_define wordsFrom_ended)

/-- The words of statements. -/
def words : List Statement → List (Kind × Text)
  | [] => []
  | .print s :: rest => reserved (.symbol s) :: words rest
  | .run name :: rest => reserved .runner :: (.identifier, name) :: words rest
  | .define name body :: rest =>
    reserved .opener :: (.identifier, name) :: (words body ++ reserved .closer :: words rest)

theorem open_of_size {index n : Nat} {ends : List Int}
    (h : ∀ last ∈ ends, ((index + (1 + n) : Nat) : Int) ≤ last + 1) :
    (∀ last ∈ ends, (index : Int) ≤ last) ∧
      ∀ last ∈ ends, ((index + 1 + n : Nat) : Int) ≤ last + 1 := by
  constructor <;> intro last hlast <;> have := h last hlast <;> omega

/-- The instructions of statements are written as the words of the statements, inside functions that
do not end before these. -/
theorem wordsFrom_flatten (index : Nat) (t : List Statement) (ends : List Int)
    (hends : ∀ last ∈ ends, ((index + size t : Nat) : Int) ≤ last + 1) (rest : Program) :
    wordsFrom index ends (flatten index t ++ rest) =
      words t ++ wordsFrom (index + size t) ends rest := by
  fun_induction flatten index t generalizing ends rest with
  | case1 index => simp [words, size]
  | case2 index s after ih =>
    rw [size] at hends
    obtain ⟨hopen, hafter⟩ := open_of_size hends
    rw [List.cons_append, wordsFrom_print hopen, ih ends hafter, size, words, Nat.add_assoc]
    rfl
  | case3 index name after ih =>
    rw [size] at hends
    obtain ⟨hopen, hafter⟩ := open_of_size hends
    rw [List.cons_append, wordsFrom_run hopen, ih ends hafter, size, words, Nat.add_assoc]
    rfl
  | case4 index name body after ihbody ihafter =>
    rw [size, Nat.add_assoc] at hends
    obtain ⟨hopen, hinside⟩ := open_of_size hends
    have hbody : ∀ last ∈ ((index + size body : Nat) : Int) :: ends,
        ((index + 1 + size body : Nat) : Int) ≤ last + 1 := by
      intro last hlast
      rcases List.mem_cons.1 hlast with rfl | hlast
      · omega
      · have := hinside last hlast
        omega
    have hafter : ∀ last ∈ ends, ((index + 1 + size body + size after : Nat) : Int) ≤ last + 1 := by
      intro last hlast
      have := hinside last hlast
      omega
    have hended : ((index + size body : Nat) : Int) < (index + 1 + size body : Nat) := by omega
    have hindex : index + 1 + size body + size after = index + (1 + size body + size after) := by
      omega
    -- The body is written inside the function, which ends right behind it.
    rw [List.cons_append, List.append_assoc, wordsFrom_define hopen, ihbody _ hbody,
      wordsFrom_ended hended, ihafter ends hafter, size, hindex, words, List.cons_append,
      List.cons_append, List.append_assoc, List.cons_append]

theorem words_flatten (t : List Statement) : Program.words (flatten 0 t) = words t := by
  have h := wordsFrom_flatten 0 t [] (by simp) []
  rw [List.append_nil] at h
  rw [Program.words, h, wordsFrom]
  exact List.append_nil _

end Statement

/-- The tokens that spell statements are the words of these, if reserved words are in capitals. -/
theorem Spells.map_word {tokens : List Token} {t : List Statement} (h : Spells tokens t)
    (htokens : ∀ token ∈ tokens, token.kind ≠ .identifier → token.text = token.kind.text) :
    tokens.map Token.word = Statement.words t := by
  have hreserved : ∀ {token : Token} {k : Kind}, token ∈ tokens → token.kind = k →
      k ≠ .identifier → token.word = Program.reserved k := by
    rintro token k hmem rfl hk
    exact congrArg (Prod.mk token.kind) (htokens token hmem hk)
  have hname : ∀ {token : Token}, token.kind = .identifier →
      token.word = (.identifier, token.text) := fun h => congrArg (·, _) h
  induction h with
  | nil => rw [List.map_nil, Statement.words]
  | @print t s rest after ht hs _ ih =>
    rw [List.map_cons, hreserved List.mem_cons_self ht (Kind.symbol_ne_identifier hs),
      Statement.words,
      ih (fun token h => htokens token (List.mem_cons_of_mem _ h))
        (fun h => hreserved (List.mem_cons_of_mem _ h))]
  | @run t n rest after ht hn _ ih =>
    rw [List.map_cons, List.map_cons, hreserved List.mem_cons_self ht (by decide), hname hn.1,
      Statement.words,
      ih (fun token h => htokens token (List.mem_cons_of_mem _ (List.mem_cons_of_mem _ h)))
        (fun h => hreserved (List.mem_cons_of_mem _ (List.mem_cons_of_mem _ h)))]
  | @define t n e inner rest body after ht hn _ he _ ihbody ih =>
    have hinner : ∀ {token}, token ∈ inner → token ∈ t :: n :: (inner ++ e :: rest) := by
      intro token h
      simp [h]
    have hrest : ∀ {token}, token ∈ rest → token ∈ t :: n :: (inner ++ e :: rest) := by
      intro token h
      simp [h]
    rw [List.map_cons, List.map_cons, List.map_append, List.map_cons,
      hreserved List.mem_cons_self ht (by decide), hname hn.1, Statement.words,
      hreserved (by simp) he (by decide),
      ihbody (fun token h => htokens token (hinner h)) (fun h => hreserved (hinner h)),
      ih (fun token h => htokens token (hrest h)) (fun h => hreserved (hrest h))]

/-! ## Spellings -/

/-- The capital of an ASCII letter, and any other byte as it is. -/
def Text.upper (b : UInt8) : UInt8 := if 97 ≤ b && b ≤ 122 then b - 32 else b

/-- The ways to write a word: a name as it is, and a reserved word in any mix of cases. -/
def Written (word : Kind × Text) (t : Text) : Prop :=
  if word.1 = .identifier then t = word.2 else t.map Text.upper = word.2

/-- Characters that can be a word. -/
def Solid (cs : List Char) : Prop := cs ≠ [] ∧ ∀ c ∈ cs, Text.isBlank c = false

theorem Kind.mem_words {k : Kind} {t : Text} (h : ofWord? t = some k) : (t, k) ∈ words := by
  obtain ⟨before, after, hwords, -⟩ := List.lookup_eq_some_iff.1 h
  rw [hwords]
  simp

/-- Reserved words consist of capitals, and each is the text of its kind. -/
theorem Kind.words_spec : ∀ w ∈ words,
    w.2.text = w.1 ∧ w.2 ≠ .identifier ∧ w.1 ≠ [] ∧ ∀ b ∈ w.1, 65 ≤ b ∧ b ≤ 90 := by
  decide +kernel

/-- A letter is one character, whose capital is that of the letter. -/
theorem Text.letter_spec {b : UInt8} (hlow : 65 ≤ upper b) (hhigh : upper b ≤ 90) :
    encodeChar (Char.ofNat b.toNat) = [b] ∧
      encodeChar (capital (Char.ofNat b.toNat)) = [upper b] ∧
      isBlank (Char.ofNat b.toNat) = false := by
  have hall : ∀ n < 256, 65 ≤ upper (UInt8.ofNat n) → upper (UInt8.ofNat n) ≤ 90 →
      encodeChar (Char.ofNat (UInt8.ofNat n).toNat) = [UInt8.ofNat n] ∧
        encodeChar (capital (Char.ofNat (UInt8.ofNat n).toNat)) = [upper (UInt8.ofNat n)] ∧
        isBlank (Char.ofNat (UInt8.ofNat n).toNat) = false := by
    decide +kernel
  have h := hall b.toNat b.toNat_lt
  rw [UInt8.ofNat_toNat] at h
  exact h hlow hhigh

/-- Letters are characters of one byte each. -/
theorem Text.encode_letters {t : Text} (h : ∀ b ∈ t.map upper, 65 ≤ b ∧ b ≤ 90) :
    encode (t.map fun b => Char.ofNat b.toNat) = t ∧
      encode ((t.map fun b => Char.ofNat b.toNat).map capital) = t.map upper ∧
      ∀ c ∈ t.map fun b => Char.ofNat b.toNat, isBlank c = false := by
  induction t with
  | nil => exact ⟨rfl, rfl, by simp⟩
  | cons b t ih =>
    obtain ⟨hb, ht⟩ := List.forall_mem_cons.1 h
    obtain ⟨hchar, hcapital, hblank⟩ := letter_spec hb.1 hb.2
    obtain ⟨hchars, hcapitals, hblanks⟩ := ih ht
    refine ⟨?_, ?_, List.forall_mem_cons.2 ⟨hblank, hblanks⟩⟩
    · rw [List.map_cons, encode, List.flatMap_cons, hchar, ← encode, hchars]
      rfl
    · rw [List.map_cons, List.map_cons, encode, List.flatMap_cons, hcapital, ← encode, hcapitals]
      rfl

namespace Token

theorem classify_cases (w : Text) (loc : Location) :
    (∃ k, Kind.ofWord? w.capitals = some k ∧ (classify w loc).word = (k, w.capitals)) ∨
      Kind.ofWord? w.capitals = none ∧ (classify w loc).word = (.identifier, w) := by
  simp only [classify]
  cases h : Kind.ofWord? w.capitals with
  | some k => exact .inl ⟨k, rfl, rfl⟩
  | none => exact .inr ⟨rfl, rfl⟩

/-- A reserved word is in capitals. -/
theorem text_classify (w : Text) (loc : Location) (h : (classify w loc).kind ≠ .identifier) :
    (classify w loc).text = (classify w loc).kind.text := by
  rcases classify_cases w loc with ⟨k, hk, hword⟩ | ⟨-, hword⟩
  · obtain ⟨hkind, htext⟩ := Prod.mk.inj hword
    rw [hkind, htext]
    exact (Kind.words_spec _ (Kind.mem_words hk)).1.symm
  · exact absurd (Prod.mk.inj hword).1 h

/-- A word that was read once is read again from each of its spellings. -/
theorem classify_of_written {cs : List Char} (hcs : Solid cs) {t : Text} (loc : Location)
    (h : Written (classify (Text.encode cs) loc).word t) :
    ∃ cs', Solid cs' ∧ Text.encode cs' = t ∧
      (classify t loc).word = (classify (Text.encode cs) loc).word := by
  rcases classify_cases (Text.encode cs) loc with ⟨k, hk, hword⟩ | ⟨-, hword⟩
  · obtain ⟨-, hkind, hne, hletters⟩ := Kind.words_spec _ (Kind.mem_words hk)
    rw [hword, Written, if_neg hkind] at h
    simp only at h hne hletters
    rw [← h] at hk hne hletters
    obtain ⟨hchars, hcapitals, hblanks⟩ := Text.encode_letters hletters
    refine ⟨_, ⟨?_, hblanks⟩, hchars, ?_⟩
    · intro hnil
      rw [List.map_eq_nil_iff.1 hnil] at hne
      exact hne rfl
    · -- The capitals of the spelling are those of the word.
      have hsame : Text.capitals t = t.map Text.upper := by
        rw [← hcapitals, ← Text.capitals_encode, hchars]
      rcases classify_cases t loc with ⟨k', hk', hword'⟩ | ⟨hnone, -⟩
      · rw [hsame, hk] at hk'
        rw [hword', hword, ← Option.some.inj hk', hsame, h]
      · rw [hsame, hk] at hnone
        cases hnone
  · rw [hword, Written, if_pos rfl] at h
    subst h
    exact ⟨cs, hcs, rfl, rfl⟩

end Token

/-! ## Layouts -/

/-- Words laid out with white space between them. -/
inductive Laid : List Text → Text → Prop
  | nil : Laid [] []
  | last (w : Text) : Laid [w] w
  | cons (w : Text) {v : Text} {ws : List Text} {gap : List Char} {t : Text} (hgap : gap ≠ [])
      (hblank : ∀ c ∈ gap, Text.isBlank c = true) (h : Laid (v :: ws) t) :
      Laid (w :: v :: ws) (w ++ (Text.encode gap ++ t))

/-- The texts that show a program: its words, each in one of its spellings, with white space between
them, and perhaps in front and behind. -/
def Program.Renders (p : Program) (t : Text) : Prop :=
  ∃ (spellings : List Text) (front back : List Char) (body : Text),
    List.Forall₂ Written p.words spellings ∧ Laid spellings body ∧
      (∀ c ∈ front, Text.isBlank c = true) ∧ (∀ c ∈ back, Text.isBlank c = true) ∧
      t = Text.encode front ++ (body ++ Text.encode back)

theorem Parted.skip_all {gap rest : List Char} {pieces : List (List Char)}
    (hgap : ∀ c ∈ gap, Text.isBlank c = true) (h : Parted Text.isBlank rest pieces) :
    Parted Text.isBlank (gap ++ rest) pieces := by
  induction gap with
  | nil => exact h
  | cons c gap ih =>
    obtain ⟨hc, hgap⟩ := List.forall_mem_cons.1 hgap
    exact .skip hc (ih hgap)

theorem head_blank {gap rest : List Char} (hne : gap ≠ [])
    (hgap : ∀ c ∈ gap, Text.isBlank c = true) :
    ∀ c ∈ (gap ++ rest).head?, Text.isBlank c = true := by
  cases gap with
  | nil => exact absurd rfl hne
  | cons d gap =>
    intro c hc
    cases hc
    exact hgap d List.mem_cons_self

/-- What is laid out from words falls apart into these words. -/
theorem Laid.parted {pieces : List (List Char)} (hpieces : ∀ cs ∈ pieces, Solid cs) {body : Text}
    (h : Laid (pieces.map Text.encode) body) {back : List Char}
    (hback : ∀ c ∈ back, Text.isBlank c = true) :
    ∃ cs, body = Text.encode cs ∧ Parted Text.isBlank (cs ++ back) pieces := by
  have hend : Parted Text.isBlank back [] := by
    simpa using Parted.skip_all hback (.nil : Parted Text.isBlank [] [])
  generalize hwords : pieces.map Text.encode = ws at h
  induction h generalizing pieces with
  | nil =>
    rw [List.map_eq_nil_iff.1 hwords]
    exact ⟨[], rfl, hend⟩
  | last w =>
    obtain ⟨cs, rfl, rfl⟩ := List.map_eq_singleton_iff.1 hwords
    obtain ⟨hne, hsolid⟩ := hpieces cs List.mem_cons_self
    refine ⟨cs, rfl, .piece hne hsolid ?_ hend⟩
    intro c hc
    exact hback c (List.mem_of_head? hc)
  | @cons w v ws gap t hgap hblank _ ih =>
    obtain ⟨cs, others, rfl, rfl, hothers⟩ := List.map_eq_cons_iff.1 hwords
    obtain ⟨⟨hne, hsolid⟩, hrest⟩ := List.forall_mem_cons.1 hpieces
    obtain ⟨ds, rfl, hparted⟩ := ih hrest hothers
    refine ⟨cs ++ (gap ++ ds), ?_, ?_⟩
    · rw [Text.encode_append, Text.encode_append]
    · rw [List.append_assoc, List.append_assoc]
      exact .piece hne hsolid (head_blank hgap hblank) (.skip_all hblank hparted)

/-! ## Reading a program again -/

/-- Each word of a text that was read has been read from characters that can be a word. -/
theorem Token.exists_of_mem_lex {src : Text} {x : Kind × Text} (h : x ∈ (lex src).map word) :
    ∃ cs, Solid cs ∧ x = (classify (Text.encode cs) .zero).word := by
  have hparted := (parted_words (Location.located [] (Text.decode src))).map (p := Text.isBlank)
    (f := Prod.fst) fun _ => rfl
  rw [Location.map_fst_located] at hparted
  rw [map_word_lex hparted] at h
  obtain ⟨cs, hcs, rfl⟩ := List.mem_map.1 h
  exact ⟨cs, hparted.of_mem hcs, rfl⟩

/-- Words that were read are read again from every layout of their spellings. -/
theorem Token.map_word_lex_of_laid {src : Text} {spellings : List Text}
    (h : List.Forall₂ Written ((lex src).map word) spellings) {body : Text}
    (hlaid : Laid spellings body) {front back : List Char}
    (hfront : ∀ c ∈ front, Text.isBlank c = true) (hback : ∀ c ∈ back, Text.isBlank c = true) :
    (lex (Text.encode front ++ (body ++ Text.encode back))).map word = (lex src).map word := by
  have hpieces : ∃ pieces : List (List Char), (∀ cs ∈ pieces, Solid cs) ∧
      pieces.map Text.encode = spellings ∧
      pieces.map (fun cs => (classify (Text.encode cs) .zero).word) = (lex src).map word := by
    have hread : ∀ x ∈ (lex src).map word, ∃ cs, Solid cs ∧
        x = (classify (Text.encode cs) .zero).word := fun _ => exists_of_mem_lex
    clear hlaid
    generalize (lex src).map word = xs at h hread
    induction h with
    | nil => exact ⟨[], by simp, rfl, rfl⟩
    | @cons x t xs spellings hwritten _ ih =>
      obtain ⟨⟨cs, hcs, rfl⟩, hothers⟩ := List.forall_mem_cons.1 hread
      obtain ⟨pieces, hsolid, hencode, hwords⟩ := ih hothers
      obtain ⟨ds, hds, rfl, hword⟩ := classify_of_written hcs _ hwritten
      refine ⟨ds :: pieces, List.forall_mem_cons.2 ⟨hds, hsolid⟩, ?_, ?_⟩
      · rw [List.map_cons, hencode]
      · rw [List.map_cons, hword, hwords]
  obtain ⟨pieces, hsolid, rfl, hwords⟩ := hpieces
  obtain ⟨cs, rfl, hparted⟩ := hlaid.parted hsolid hback
  rw [← Text.encode_append, ← Text.encode_append, ← hwords]
  apply map_word_lex
  rw [Text.decode_encode]
  exact .skip_all hfront hparted

namespace Program

/-- A program that was looked up is found again, and nothing is added. -/
theorem lookup_of_looked {threshold : Int} {hs : List Cache.Happening} {c : Cache}
    (h : Cache.History (.new digest threshold) hs c) {p : Program} {r : EntryRef}
    (hr : .looked p r ∈ hs) : c.lookup p = (r, c) := by
  have hnew := Cache.sound_new digest threshold
  have hfiled := h.filed hnew (Cache.filed_new digest threshold)
  obtain ⟨e, he, rfl⟩ := h.entryAt?_of_looked hnew hr
  rcases c.lookup_cases e.program with ⟨slot, e', hlookup, he', hprogram⟩ | ⟨hnone, -⟩
  · rw [hlookup, hfiled.ref_unique he' he hprogram]
  · have hkey := (hfiled.key_eq he).1
    exact absurd rfl (hnone e (hkey ▸ List.mem_of_getElem? he))

/-- A program that was read from a text is read again from every text that shows it.  So it has the
same digest, and where the first was looked up in a cache the second is given the same entry. -/
theorem read_of_renders {src t : Text} {p : Program} (h : ofTokens (Token.lex src) = .ok p)
    (ht : p.Renders t) :
    ∃ q, ofTokens (Token.lex t) = .ok q ∧ q = p ∧ q.digest = p.digest ∧
      ∀ threshold hs c r, Cache.History (.new digest threshold) hs c → .looked p r ∈ hs →
        c.lookup q = (r, c) := by
  obtain ⟨statements, hspells, hp⟩ := ofTokens_eq_ok_iff.1 h
  have htokens : ∀ token ∈ Token.lex src, token.kind ≠ .identifier →
      token.text = token.kind.text := by
    intro token hmem hkind
    obtain ⟨cs, -, hword⟩ := Token.exists_of_mem_lex (List.mem_map_of_mem hmem)
    obtain ⟨hk, htext⟩ := Prod.mk.inj hword
    rw [hk] at hkind
    rw [hk, htext]
    exact Token.text_classify _ _ hkind
  have hwords : p.words = (Token.lex src).map Token.word := by
    rw [hp, Statement.words_flatten, hspells.map_word htokens]
  obtain ⟨spellings, front, back, body, hwritten, hlaid, hfront, hback, rfl⟩ := ht
  rw [hwords] at hwritten
  have hsame := Token.map_word_lex_of_laid hwritten hlaid hfront hback
  have hread := ofTokens_eq_ok_iff.2 ⟨statements, hspells.of_map_word hsame.symm, hp⟩
  exact ⟨p, hread, rfl, rfl, fun threshold hs c r hhistory => lookup_of_looked hhistory⟩

/-- One function that prints and defines another, and a call of it. -/
def nested : Program :=
  [.define (Text.ofString "f") 2, .print ⟨0⟩, .define (Text.ofString "g") 2,
    .run (Text.ofString "f")]

/-- The nested program is read from its words in small letters, and so from the same words with
other capitals and gaps. -/
theorem read_of_renders_nested :
    ofTokens (Token.lex (Text.ofString "fun f a fun g end end run f")) = .ok nested ∧
      nested.Renders (Text.ofString "\tFUN f\n A fUn  g eNd END\r\nrun f ") ∧
      ofTokens (Token.lex (Text.ofString "\tFUN f\n A fUn  g eNd END\r\nrun f ")) = .ok nested := by
  have hread : ofTokens (Token.lex (Text.ofString "fun f a fun g end end run f")) = .ok nested := by
    decide +kernel
  have hone : ([' '] : List Char) ≠ [] ∧ ∀ c ∈ [' '], Text.isBlank c = true := by
    constructor <;> simp; decide
  have htwo : ([' ', ' '] : List Char) ≠ [] ∧ ∀ c ∈ [' ', ' '], Text.isBlank c = true := by
    constructor <;> simp; decide
  have hline : (['\n', ' '] : List Char) ≠ [] ∧ ∀ c ∈ ['\n', ' '], Text.isBlank c = true := by
    constructor <;> simp; decide
  have hreturn : (['\r', '\n'] : List Char) ≠ [] ∧ ∀ c ∈ ['\r', '\n'], Text.isBlank c = true := by
    constructor <;> simp; decide
  have hrenders : nested.Renders (Text.ofString "\tFUN f\n A fUn  g eNd END\r\nrun f ") := by
    refine ⟨["FUN", "f", "A", "fUn", "g", "eNd", "END", "run", "f"].map Text.ofString, ['\t'], [' '],
      _, ?_, .cons _ hone.1 hone.2 (.cons _ hline.1 hline.2 (.cons _ hone.1 hone.2
        (.cons _ htwo.1 htwo.2 (.cons _ hone.1 hone.2 (.cons _ hone.1 hone.2
          (.cons _ hreturn.1 hreturn.2 (.cons _ hone.1 hone.2 (.last _)))))))),
      by simp; decide, by simp; decide, by decide +kernel⟩
    repeat' constructor
  obtain ⟨q, hq, rfl, -⟩ := read_of_renders hread hrenders
  exact ⟨hread, hrenders, hq⟩

end Program
end Birdcall
