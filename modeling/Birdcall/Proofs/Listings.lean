import Birdcall.Program.Listing
import Birdcall.Proofs.Devices
import Birdcall.Proofs.Nesting
import Birdcall.Proofs.Number
import Birdcall.Proofs.Pipes
import Birdcall.Proofs.Splitting

/-!
# Reading listings

A listing is made for people, but it holds all of a program that was read from a text.

* A row is a line of a listing without its line feed.  Its fields are the parts between blanks, of
  which the first is the index and the others show the instruction.  How wide the index is, and how
  far the row is indented, cannot be told from the fields (`Program.fields_row`).
* A name that was read has neither blanks nor line feeds in it (`Text.Unbroken`), so it is a field of
  its own whatever it looks like, and `Instruction.ofRow?` finds the instruction of a row.
* `Program.ofListing?` reads the rows below the heading.
* A listing is written in pieces.  Of these a writer takes a part from the beginning, which is all of
  them unless one of the writes fails (`Output.outcome_writePieces_direct`).
-/

namespace Birdcall

namespace Text

/-! ## Fields -/

/-- The parts of a text between blanks. -/
def fields (t : Text) : List Text := (splitOn (byte ' ') t).filter (· ≠ [])

/-- A text that blanks and line feeds leave in one piece. -/
structure Unbroken (t : Text) : Prop where
  ne_nil : t ≠ []
  blank : byte ' ' ∉ t
  lineFeed : lineFeed ∉ t

theorem fields_blank_cons (t : Text) : fields (byte ' ' :: t) = fields t := by
  rw [fields, splitOn, if_pos rfl]
  rfl

theorem fields_blanks_append (n : Nat) (t : Text) : fields (blanks n ++ t) = fields t := by
  induction n with
  | zero => rfl
  | succ n ih => rw [blanks, List.replicate_succ, List.cons_append, fields_blank_cons, ← blanks, ih]

namespace Unbroken

variable {s t : Text}

theorem fields_eq (h : t.Unbroken) : fields t = [t] := by
  rw [fields, splitOn_of_not_mem h.blank, List.filter_eq_self]
  simpa using h.ne_nil

theorem fields_append_cons (h : s.Unbroken) (t : Text) :
    fields (s ++ byte ' ' :: t) = s :: fields t := by
  rw [fields, splitOn_append_cons h.blank, List.filter_cons_of_pos (by simpa using h.ne_nil), fields]

theorem append (hs : s.Unbroken) (ht : t.Unbroken) : (s ++ t).Unbroken := by
  refine ⟨fun hnil => hs.ne_nil (List.append_eq_nil_iff.1 hnil).1, ?_, ?_⟩
  · exact fun hmem => (List.mem_append.1 hmem).elim hs.blank ht.blank
  · exact fun hmem => (List.mem_append.1 hmem).elim hs.lineFeed ht.lineFeed

end Unbroken

theorem unbroken_ofNat (n : Nat) : (ofNat n).Unbroken := by
  refine ⟨ofNat_ne_nil n, fun hmem => ?_, fun hmem => ?_⟩
  all_goals cases isDigit_of_mem_ofNat _ hmem

/-- No byte of a character past the ASCII ones is ASCII. -/
theorem le_of_mem_encodeChar {c : Char} (hc : 0x80 ≤ c.toNat) :
    ∀ b ∈ encodeChar c, 0x80 ≤ b.toNat := by
  have hvalid := toNat_valid c
  have hbyte : ∀ {n : Nat}, 0x80 ≤ n → n < 256 → 0x80 ≤ n.toUInt8.toNat := by
    intro n hlow hhigh
    rwa [toNat_toUInt8 hhigh]
  have htail : ∀ n : Nat, 0x80 ≤ (0x80 + n % 0x40).toUInt8.toNat := fun n =>
    hbyte (by omega) (by omega)
  rw [encodeChar, if_neg (by omega)]
  repeat' split
  all_goals simp only [List.forall_mem_cons, htail, true_and]
  all_goals exact ⟨hbyte (by omega) (by omega), by simp⟩

/-- Characters none of which is a given ASCII one do not have it in their bytes. -/
theorem not_mem_encode {cs : List Char} {b : UInt8} (hb : b.toNat < 0x80)
    (h : ∀ c ∈ cs, c.toNat ≠ b.toNat) : b ∉ encode cs := by
  intro hmem
  obtain ⟨c, hc, hmem⟩ := List.mem_flatMap.1 hmem
  by_cases hascii : c.toNat < 0x80
  · rw [encodeChar, if_pos hascii, List.mem_singleton] at hmem
    rw [hmem, toNat_toUInt8 (by omega)] at h
    exact h c hc rfl
  · have hhigh := le_of_mem_encodeChar (Nat.not_lt.1 hascii) b hmem
    omega

theorem decimalValue_concat (t : Text) (b : UInt8) :
    decimalValue (t ++ [b]) = decimalValue t * 10 + (b.toNat - 48) := by
  rw [decimalValue, List.foldl_append]
  rfl

theorem decimalValue_ofNat (n : Nat) : decimalValue (ofNat n) = n := by
  have hdigit : ∀ d : Fin 10, (byte d.val.digitChar).toNat - 48 = d := by decide
  induction n using ofNat_induction with
  | digit n h =>
    rw [ofNat_of_lt h, ← List.nil_append [_], decimalValue_concat, hdigit ⟨n, h⟩]
    exact Nat.zero_add n
  | append n h ih =>
    rw [ofNat_of_le h, decimalValue_concat, ih, hdigit ⟨n % 10, by omega⟩]
    exact Nat.div_add_mod' n 10

end Text

/-! ## Instructions that can be read -/

open Text

/-- The instructions whose rows can be read: what they hold shows in one piece. -/
inductive Instruction.Legible : Instruction → Prop
  | print {s : Symbol} (hs : s.known = true) : Legible (.print s)
  | run {name : Text} (hname : name.Unbroken) : Legible (.run name)
  | define {name : Text} (hname : name.Unbroken) (last : Nat) : Legible (.define name last)

/-- Statements are laid out as instructions that can be read, if their names can. -/
theorem Spells.legible {tokens : List Token} {t : List Statement} (h : Spells tokens t)
    (hnames : ∀ n ∈ tokens, n.kind = .identifier → n.text.Unbroken) (index : Nat) :
    ∀ i ∈ Statement.flatten index t, i.Legible := by
  induction h generalizing index with
  | nil => simp [Statement.flatten]
  | print _ hs _ ih =>
    rw [List.forall_mem_cons] at hnames
    rw [Statement.flatten]
    exact List.forall_mem_cons.2 ⟨.print hs, ih hnames.2 _⟩
  | run _ hn _ ih =>
    rw [List.forall_mem_cons, List.forall_mem_cons] at hnames
    rw [Statement.flatten]
    exact List.forall_mem_cons.2 ⟨.run (hnames.2.1 hn.1), ih hnames.2.2 _⟩
  | define _ hn _ _ _ ihbody ih =>
    rw [List.forall_mem_cons, List.forall_mem_cons, List.forall_mem_append,
      List.forall_mem_cons] at hnames
    rw [Statement.flatten]
    exact List.forall_mem_cons.2 ⟨.define (hnames.2.1 hn.1) _, List.forall_mem_append.2
      ⟨ihbody hnames.2.2.1 _, ih hnames.2.2.2.2 _⟩⟩

/-- A name that was read has no blank characters in it. -/
theorem Token.unbroken_of_mem_lex {src : Text} {n : Token} (h : n ∈ lex src)
    (hn : n.kind = .identifier) : n.text.Unbroken := by
  obtain ⟨cs, ⟨hne, hsolid⟩, hword⟩ := exists_of_mem_lex (List.mem_map.2 ⟨n, h, rfl⟩)
  have htext : n.text = encode cs := by
    rcases classify_cases (encode cs) .zero with ⟨k, hk, hreserved⟩ | ⟨-, hname⟩
    · rw [hreserved] at hword
      exact absurd ((Prod.mk.inj hword).1.symm.trans hn) (Kind.words_spec _ (Kind.mem_words hk)).2.1
    · rw [hname] at hword
      exact (Prod.mk.inj hword).2
  have hother : ∀ {b : UInt8}, isBlank (Char.ofNat b.toNat) = true → ∀ c ∈ cs,
      c.toNat ≠ b.toNat := by
    intro b hb c hc heq
    rw [← heq, Char.ofNat_toNat, hsolid c hc] at hb
    cases hb
  rw [htext]
  refine ⟨?_, not_mem_encode (by decide) (hother rfl), not_mem_encode (by decide) (hother rfl)⟩
  obtain ⟨c, cs, rfl⟩ := List.exists_cons_of_ne_nil hne
  simp [encode_cons, encodeChar_ne_nil]

namespace Program

theorem legible_of_ofTokens {src : Text} {p : Program} (h : ofTokens (Token.lex src) = .ok p) :
    ∀ i ∈ p, i.Legible := by
  obtain ⟨t, ht, rfl⟩ := ofTokens_eq_ok_iff.1 h
  exact ht.legible (fun _ => Token.unbroken_of_mem_lex) 0

/-! ## Rows -/

/-- The remark behind an instruction. -/
def remark (index : Nat) (i : Instruction) : Text :=
  if i.op = .define ∧ i.last = index then ofString " (empty)" else []

/-- A line of a listing without its line feed. -/
def row (width index depth : Nat) (i : Instruction) : Text :=
  ofString "  @" ++ padLeft width (ofNat index) ++ ofString " " ++ blanks (2 * depth) ++ i.text ++
    remark index i

theorem listingLine_eq (width index depth : Nat) (i : Instruction) :
    listingLine width index depth i = row width index depth i ++ [lineFeed] := rfl

/-- The index comes first, and then what shows the instruction. -/
theorem fields_row (width index depth : Nat) (i : Instruction) :
    fields ((row width index depth i).drop 3) =
      ofNat index :: fields (i.text ++ remark index i) := by
  have hmark : (ofString "  @").length = 3 := rfl
  have hblank : ofString " " = [byte ' '] := rfl
  rw [row, padLeft, hblank]
  simp only [List.append_assoc, List.cons_append, List.nil_append]
  rw [List.drop_left' hmark, fields_blanks_append, (unbroken_ofNat index).fields_append_cons,
    fields_blanks_append]

end Program

namespace Instruction

/-- The instruction that a row of a listing shows. -/
def ofRow? (row : Text) : Option Instruction :=
  match fields (row.drop 3) with
  | [_, op, operand] =>
    if op = ofString "print" then operand.head?.map fun letter => .print ⟨letter - 97⟩
    else if op = ofString "run" then some (.run operand)
    else none
  | _ :: op :: name :: last :: _ =>
    if op = ofString "fun" then some (.define name (decimalValue (last.drop 3))) else none
  | _ => none

theorem unbroken_symbol {s : Symbol} (hs : s.known = true) : Unbroken [97 + s.code] := by
  have hall : ∀ d : Fin 4, byte ' ' ≠ 97 + d.val.toUInt8 ∧ lineFeed ≠ 97 + d.val.toUInt8 := by
    decide
  have hcode := hall ⟨s.code.toNat, of_decide_eq_true hs⟩
  simp only [Nat.toUInt8_eq, UInt8.ofNat_toNat] at hcode
  exact ⟨by simp, by simpa using hcode.1, by simpa using hcode.2⟩

theorem fields_print {s : Symbol} (hs : s.known = true) (index : Nat) :
    fields ((print s).text ++ Program.remark index (print s)) =
      [ofString "print", [97 + s.code]] := by
  have hword : (ofString "print").Unbroken := ⟨by decide, by decide, by decide⟩
  have htext : (print s).text = ofString "print" ++ byte ' ' :: [97 + s.code] := by
    show ofString "print " ++ s.text = _
    rw [Symbol.text, if_pos hs]
    rfl
  rw [htext, Program.remark, if_neg (fun h => Op.print_ne_define h.1), List.append_nil,
    hword.fields_append_cons, (unbroken_symbol hs).fields_eq]

theorem fields_run {name : Text} (hname : name.Unbroken) (index : Nat) :
    fields ((run name).text ++ Program.remark index (run name)) = [ofString "run", name] := by
  have hword : (ofString "run").Unbroken := ⟨by decide, by decide, by decide⟩
  have htext : (run name).text = ofString "run" ++ byte ' ' :: name := rfl
  rw [htext, Program.remark, if_neg (fun h => Op.run_ne_define h.1), List.append_nil,
    hword.fields_append_cons, hname.fields_eq]

theorem fields_define {name : Text} (hname : name.Unbroken) (last index : Nat) :
    ∃ more, fields ((define name last).text ++ Program.remark index (define name last)) =
      ofString "fun" :: name :: (ofString "..@" ++ ofNat last) :: more := by
  have hword : (ofString "fun").Unbroken := ⟨by decide, by decide, by decide⟩
  have hmark : (ofString "..@").Unbroken := ⟨by decide, by decide, by decide⟩
  have hlast := hmark.append (unbroken_ofNat last)
  have htext : (define name last).text =
      ofString "fun" ++ byte ' ' :: (name ++ byte ' ' :: (ofString "..@" ++ ofNat last)) := by
    show ofString "fun " ++ name ++ ofString " ..@" ++ ofNat last = _
    simp only [List.append_assoc]
    rfl
  rw [htext, List.append_assoc, List.cons_append, hword.fields_append_cons, List.append_assoc,
    List.cons_append, hname.fields_append_cons, Program.remark]
  split
  · exact ⟨_, congrArg _ (congrArg _ (hlast.fields_append_cons (ofString "(empty)")))⟩
  · rw [List.append_nil, hlast.fields_eq]
    exact ⟨[], rfl⟩

theorem Legible.ofRow?_row {i : Instruction} (h : i.Legible) (width index depth : Nat) :
    ofRow? (Program.row width index depth i) = some i := by
  rw [ofRow?, Program.fields_row]
  cases h with
  | @print s hs =>
    have hcode : 97 + s.code - 97 = s.code := by rw [UInt8.add_comm, UInt8.add_sub_cancel]
    rw [fields_print hs]
    simp only [if_true, List.head?_cons, Option.map_some, hcode]
  | @run name hname =>
    have hop : ofString "run" ≠ ofString "print" := by decide
    rw [fields_run hname]
    simp only [hop, if_false, if_true]
  | @define name hname last =>
    obtain ⟨more, hfields⟩ := fields_define hname last index
    have hmark : (ofString "..@").length = 3 := rfl
    rw [hfields]
    simp only [if_true, List.drop_left' hmark, decimalValue_ofNat]

end Instruction

namespace Program

theorem lineFeed_not_mem_row {i : Instruction} (h : i.Legible) (width index depth : Nat) :
    lineFeed ∉ row width index depth i := by
  have hblanks : ∀ n, lineFeed ∉ blanks n := by
    intro n hmem
    cases List.eq_of_mem_replicate hmem
  have hmark : lineFeed ∉ ofString "  @" := by decide
  have hblank : lineFeed ∉ ofString " " := by decide
  have hremark : lineFeed ∉ remark index i := by
    rw [remark]
    split
    · decide
    · exact List.not_mem_nil
  have htext : lineFeed ∉ i.text := by
    cases h with
    | @print s hs =>
      show lineFeed ∉ ofString "print " ++ s.text
      rw [Symbol.text, if_pos hs, List.mem_append, not_or]
      exact ⟨by decide, (Instruction.unbroken_symbol hs).lineFeed⟩
    | @run name hname =>
      show lineFeed ∉ ofString "run " ++ name
      rw [List.mem_append, not_or]
      exact ⟨by decide, hname.lineFeed⟩
    | @define name hname last =>
      show lineFeed ∉ ofString "fun " ++ name ++ ofString " ..@" ++ ofNat last
      simp only [List.mem_append, not_or]
      exact ⟨⟨⟨by decide, hname.lineFeed⟩, by decide⟩, (unbroken_ofNat last).lineFeed⟩
  simp only [row, padLeft, List.mem_append, not_or]
  exact ⟨⟨⟨⟨⟨hmark, hblanks _, (unbroken_ofNat index).lineFeed⟩, hblank⟩, hblanks _⟩, htext⟩,
    hremark⟩

/-! ## Listings -/

/-- The program that a listing shows. -/
def ofListing? (t : Text) : Option Program := (lines t).tail.mapM Instruction.ofRow?

theorem listing_eq (p : Program) :
    p.listing = p.heading ++ (listingLines (indexWidth p.length) 0 [] p).flatten := by
  rw [listing, listingPieces]
  split
  · next hnil => rw [hnil]; rfl
  · next first rest hcons => rw [hcons, List.flatten_cons, List.flatten_cons, List.append_assoc]

/-- The lines of instructions fall apart into rows from which the instructions can be read. -/
theorem lined_listingLines {p : Program} (h : ∀ i ∈ p, i.Legible) (width index : Nat)
    (opened : List Int) :
    ∃ rows, Lined (listingLines width index opened p).flatten rows [] ∧
      rows.mapM Instruction.ofRow? = some p := by
  induction p generalizing index opened with
  | nil => exact ⟨[], lined_of_not_mem List.not_mem_nil, rfl⟩
  | cons i p ih =>
    obtain ⟨hi, hp⟩ := List.forall_mem_cons.1 h
    let here := stillOpen index opened
    obtain ⟨rows, hlined, hrows⟩ := ih hp (index + 1) (openAfter index i here)
    refine ⟨row width index here.length i :: rows, ?_, ?_⟩
    · rw [listingLines, List.flatten_cons, listingLine_eq, List.append_assoc]
      exact hlined.cons (lineFeed_not_mem_row hi width index _)
    · rw [List.mapM_cons, hi.ofRow?_row, hrows]
      rfl

theorem ofListing?_listing {p : Program} (h : ∀ i ∈ p, i.Legible) :
    ofListing? p.listing = some p := by
  obtain ⟨rows, hlined, hrows⟩ := lined_listingLines h (indexWidth p.length) 0 []
  have hheading : ∃ line, lineFeed ∉ line ∧ p.heading = line ++ [lineFeed] := by
    refine ⟨ofString "# Program (" ++ ofNat p.length ++ ofString " instructions)", ?_, ?_⟩
    · simp only [List.mem_append, not_or]
      exact ⟨⟨by decide, (unbroken_ofNat _).lineFeed⟩, by decide⟩
    · rw [heading, List.append_assoc _ _ [lineFeed]]
      rfl
  obtain ⟨line, hline, hheading⟩ := hheading
  have hwhole : Lined p.listing (line :: rows) [] := by
    rw [listing_eq, hheading, List.append_assoc]
    exact hlined.cons hline
  rw [ofListing?, hwhole.lines_eq, List.tail_cons, hrows]

end Program

/-! ## Writing in pieces -/

/-- Gives an error whenever it does not take everything, and at no other time. -/
def Writer.Exact (w : Writer) : Prop :=
  ∀ earlier offer, (w.respond earlier offer).taken < offer.length ↔
    (w.respond earlier offer).error ≠ none

/-- Pieces that are written straight to a writer are all taken, or one of the writes has failed, and
then a part of them is missing at the end. -/
theorem Output.outcome_writePieces_direct {o : Outside} {id : Nat} {w : Writer}
    {offers : List Text} (h : o.HasWriter id w offers) (hw : w.Exact) (pieces : List Text) :
    ∃ result o' offers' got missing,
      Act.outcome ((Output.device id).writePieces pieces) o = (result, o') ∧
      o'.HasWriter id w offers' ∧ w.taken offers' = w.taken offers ++ got ∧
      got ++ missing = pieces.flatten ∧
      (result = .ok () ∧ missing = [] ∨ ∃ e, result = .error (.failed e) ∧ missing ≠ []) := by
  induction pieces generalizing o offers with
  | nil => exact ⟨.ok (), o, offers, [], [], rfl, h, (List.append_nil _).symm, rfl, .inl ⟨rfl, rfl⟩⟩
  | cons t pieces ih =>
    obtain ⟨o₁, hwrite, hwriter, -, -⟩ := Outside.outcome_write_direct h t
    cases herror : (w.respond offers t).error with
    | some e =>
      have hshort : (w.respond offers t).taken < t.length := (hw offers t).2 (by simp [herror])
      refine ⟨.error (.failed e), o₁, _, t.take (w.respond offers t).taken,
        t.drop (w.respond offers t).taken ++ pieces.flatten, ?_, hwriter, rfl, ?_,
        .inr ⟨e, rfl, ?_⟩⟩
      · rw [writePieces, Output.write, Act.outcome_bind, hwrite, herror]
        rfl
      · rw [← List.append_assoc, List.take_append_drop, List.flatten_cons]
      · simp [hshort]
    | none =>
      have hall : t.length ≤ (w.respond offers t).taken := by
        rw [← Nat.not_lt, hw offers t, herror]
        exact fun hne => hne rfl
      obtain ⟨result, o', offers', got, missing, hrest, hwriter', htaken, hsplit, hend⟩ :=
        ih hwriter
      refine ⟨result, o', offers', t ++ got, missing, ?_, hwriter', ?_, ?_, hend⟩
      · rw [writePieces, Output.write, Act.outcome_bind, hwrite, herror, Nat.min_eq_right hall]
        simp only [Nat.lt_irrefl, if_false]
        exact hrest
      · rw [htaken, Writer.taken, List.take_of_length_le hall, List.append_assoc]
      · rw [List.append_assoc, hsplit, List.flatten_cons]

theorem Writer.exact_limited (label : String) (kind : WriterKind) (closing : Option (Option Error))
    (limit : Nat) : Exact ⟨label, kind, closing, limited (some limit) false⟩ := by
  intro earlier offer
  simp [limited]

namespace Program

end Program
end Birdcall
