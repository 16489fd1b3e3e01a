import Birdcall.Proofs.Words
import Birdcall.Source.Input

/-!
# Scanning finds the words

A scan goes through an input character by character, with the word that is being read and the place
where it began.  What it finds are the words of all characters together.

* `Input.drain` reads an input to its end, or to an error, and does nothing else.
* `Lexer.Reads` is the invariant of a scan: the tokens so far, and the characters of the word that
  is being read.  A character keeps it (`Lexer.Reads.add`), and at the end the tokens are those of
  all characters (`Lexer.Reads.tokens_flush`).
* `Input.scan_eq` puts both together.
-/

namespace Birdcall

/-! ## Reading everything -/

namespace Input

/-- What reading an input to its end or to an error gives. -/
structure Drained where
  chars : List (Char × Location)
  /-- The error that stopped the reading, if it was not the end. -/
  fault : Option ReadError
  /-- The sources closed, by label. -/
  closed : List String

/-- Reads an input until it ends or fails. -/
def drain (inp : Input) : Drained :=
  match _h : inp.next.read with
  | .char c _ =>
    let rest := drain inp.next.input
    ⟨(c, inp.next.input.latest) :: rest.chars, rest.fault, inp.next.closed ++ rest.closed⟩
  | .fault .endOfInput => ⟨[], none, inp.next.closed⟩
  | .fault e => ⟨[], some e, inp.next.closed⟩
  | .nothing => ⟨[], some .noProgress, inp.next.closed⟩
termination_by inp.size
decreasing_by exact size_next _h

section Drain

variable {inp : Input}

theorem drain_char {c : Char} {n : Nat} (h : inp.next.read = .char c n) :
    inp.drain =
      ⟨(c, inp.next.input.latest) :: inp.next.input.drain.chars, inp.next.input.drain.fault,
        inp.next.closed ++ inp.next.input.drain.closed⟩ := by
  rw [drain]
  split <;> simp_all

theorem drain_end (h : inp.next.read = .fault .endOfInput) :
    inp.drain = ⟨[], none, inp.next.closed⟩ := by
  rw [drain]
  split <;> simp_all

theorem drain_fault {e : ReadError} (h : inp.next.read = .fault e) (he : e ≠ .endOfInput) :
    inp.drain = ⟨[], some e, inp.next.closed⟩ := by
  rw [drain]
  split <;> simp_all

theorem drain_nothing (h : inp.next.read = .nothing) :
    inp.drain = ⟨[], some .noProgress, inp.next.closed⟩ := by
  rw [drain]
  split <;> simp_all

end Drain
end Input

/-! ## One character after the other -/

namespace Token

/-- The first word of characters, if it is as long as it can be. -/
theorem ofChars_append {w rest : List (Char × Location)} (hne : w ≠ [])
    (hw : ∀ q ∈ w, Text.isBlank q.1 = false) (hend : ∀ q ∈ rest.head?, Text.isBlank q.1 = true) :
    ofChars (w ++ rest) = ofWord w :: ofChars rest := by
  have hparted : Parted (fun q => Text.isBlank q.1) (w ++ rest) (w :: words rest) :=
    .piece hne hw hend (parted_words rest)
  rw [ofChars, hparted.unique (parted_words (w ++ rest))]
  rfl

theorem ofChars_nil : ofChars [] = [] := by
  rw [ofChars, Parted.nil.unique (parted_words [])]
  rfl

theorem ofChars_blank {q : Char × Location} (hq : Text.isBlank q.1 = true)
    (rest : List (Char × Location)) : ofChars (q :: rest) = ofChars rest := by
  have hparted : Parted (fun q => Text.isBlank q.1) (q :: rest) (words rest) :=
    .skip hq (parted_words rest)
  rw [ofChars, hparted.unique (parted_words (q :: rest)), ofChars]

end Token

namespace Lexer

/-- A scan that has made some tokens and is reading a word: these characters of it so far. -/
structure Reads (l : Lexer) (tokens : List Token) (w : List (Char × Location)) : Prop where
  tokens : l.tokens.toList = tokens
  word : l.word = Text.encode (w.map (·.1))
  start : ∀ q ∈ w.head?, l.start = q.2
  unbroken : ∀ q ∈ w, Text.isBlank q.1 = false

theorem reads_empty : empty.Reads [] [] := ⟨rfl, rfl, by simp, by simp⟩

namespace Reads

variable {l : Lexer} {tokens : List Token} {w : List (Char × Location)}

theorem isEmpty_word (h : l.Reads tokens w) : l.word.isEmpty = w.isEmpty := by
  rw [h.word]
  cases w with
  | nil => rfl
  | cons q w => simp [Text.encode, Text.encodeChar_ne_nil]

/-- Where no character goes on with the word, the scan and the characters to come give the same
tokens whether the word is ended or not. -/
theorem flush (h : l.Reads tokens w) (rest : List (Char × Location))
    (hend : ∀ q ∈ rest.head?, Text.isBlank q.1 = true) :
    ∃ tokens', l.flush.Reads tokens' [] ∧
      tokens' ++ Token.ofChars rest = tokens ++ Token.ofChars (w ++ rest) := by
  cases w with
  | nil =>
    have hword : l.word.isEmpty = true := h.isEmpty_word
    rw [Lexer.flush, if_pos hword]
    exact ⟨tokens, h, rfl⟩
  | cons q w =>
    rw [Lexer.flush, if_neg (by simp [h.isEmpty_word]),
      Token.ofChars_append (List.cons_ne_nil q w) h.unbroken hend]
    refine ⟨tokens ++ [Token.ofWord (q :: w)], ⟨?_, rfl, by simp, by simp⟩, by simp⟩
    rw [Array.toList_push, h.tokens, h.word, h.start q rfl]
    rfl

/-- White space ends the word, and any other character goes on with it. -/
theorem add (h : l.Reads tokens w) (q : Char × Location) (rest : List (Char × Location)) :
    ∃ tokens' w', (l.add q.1 q.2).Reads tokens' w' ∧
      tokens' ++ Token.ofChars (w' ++ rest) = tokens ++ Token.ofChars (w ++ q :: rest) := by
  by_cases hq : Text.isBlank q.1 = true
  · obtain ⟨tokens', hflush, heq⟩ := h.flush (q :: rest) (by simp [hq])
    rw [Lexer.add, if_pos hq]
    refine ⟨tokens', [], hflush, ?_⟩
    rw [List.nil_append, ← heq, Token.ofChars_blank hq]
  · rw [Lexer.add, if_neg hq]
    refine ⟨tokens, w ++ [q], ⟨h.tokens, ?_, ?_, ?_⟩, by simp⟩
    · simp [h.word, Text.encode]
    · intro first hfirst
      rw [h.isEmpty_word]
      cases w with
      | nil => exact congrArg Prod.snd (Option.some.inj hfirst)
      | cons r w => exact h.start first hfirst
    · intro r hr
      rcases List.mem_append.1 hr with hr | hr
      · exact h.unbroken r hr
      · rw [List.mem_singleton.1 hr]
        simpa using hq

/-- At the end the word is ended, too. -/
theorem tokens_flush (h : l.Reads tokens w) :
    l.flush.tokens.toList = tokens ++ Token.ofChars w := by
  obtain ⟨tokens', hflush, heq⟩ := h.flush [] (by simp)
  rw [List.append_nil] at heq
  rw [hflush.tokens, ← heq, Token.ofChars_nil, List.append_nil]

end Reads
end Lexer

/-! ## The whole input -/

namespace Input

section Scan

variable {l : Lexer} {inp : Input}

theorem scanFrom_char {c : Char} {n : Nat} (h : inp.next.read = .char c n) :
    inp.scanFrom l =
      ((inp.next.input.scanFrom (l.add c inp.next.input.latest)).1,
        inp.next.closed ++ (inp.next.input.scanFrom (l.add c inp.next.input.latest)).2) := by
  rw [scanFrom]
  split <;> simp_all

theorem scanFrom_end (h : inp.next.read = .fault .endOfInput) :
    inp.scanFrom l = (.ok l.flush.tokens.toList, inp.next.closed) := by
  rw [scanFrom]
  split <;> simp_all

theorem scanFrom_fault {e : ReadError} (h : inp.next.read = .fault e) (he : e ≠ .endOfInput) :
    inp.scanFrom l = (.error e, inp.next.closed) := by
  rw [scanFrom]
  split <;> simp_all

theorem scanFrom_nothing (h : inp.next.read = .nothing) :
    inp.scanFrom l = (.error .noProgress, inp.next.closed) := by
  rw [scanFrom]
  split <;> simp_all

end Scan

variable {l : Lexer} {tokens : List Token} {w : List (Char × Location)}

/-- From any point on a scan finds the words of the characters that are still to come, the first of
which goes on with the word that is being read. -/
theorem scanFrom_eq (hl : l.Reads tokens w) (inp : Input) :
    inp.scanFrom l =
      match inp.drain.fault with
      | some e => (.error e, inp.drain.closed)
      | none => (.ok (tokens ++ Token.ofChars (w ++ inp.drain.chars)), inp.drain.closed) := by
  induction inp using drain.induct generalizing l tokens w with
  | case1 inp c n hread ih =>
    obtain ⟨tokens', w', hadd, heq⟩ :=
      hl.add (c, inp.next.input.latest) inp.next.input.drain.chars
    rw [scanFrom_char hread, drain_char hread, ih hadd, heq]
    cases inp.next.input.drain.fault with
    | some e => rfl
    | none => rfl
  | case2 inp hread =>
    rw [scanFrom_end hread, drain_end hread, hl.tokens_flush, List.append_nil]
  | case3 inp e hne hread => rw [scanFrom_fault hread hne, drain_fault hread hne]
  | case4 inp hread => rw [scanFrom_nothing hread, drain_nothing hread]

/-- A scan finds the words of all characters of an input, unless these end in an error. -/
theorem scan_eq (inp : Input) :
    inp.scan =
      match inp.drain.fault with
      | some e => (.error e, inp.drain.closed)
      | none => (.ok (Token.ofChars inp.drain.chars), inp.drain.closed) :=
  scanFrom_eq Lexer.reads_empty inp

end Input
end Birdcall
