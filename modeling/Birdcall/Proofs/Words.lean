import Birdcall.Proofs.Utf8
import Birdcall.Token

/-!
# Words and where they stand

What the words of a text are and where its characters stand, said without going through the text.

* `Parted` says that a list falls apart into its longest runs without white space.  There is one way
  to do that (`Parted.unique`), and it is what `Token.words` finds (`Token.parted_words`).
  `Token.ofChars` are the tokens of these words.
* `Location.behind` counts the lines and columns of all characters before a place.  Counting along
  the way gives the same (`Location.locate_start`).
-/

namespace Birdcall

/-! ## Words -/

section Parted

variable {α β : Type} {blank : α → Bool}

/-- A list that falls apart into pieces: its longest runs without blanks, which lie between the
pieces and around them. -/
inductive Parted (blank : α → Bool) : List α → List (List α) → Prop
  | nil : Parted blank [] []
  /-- A blank belongs to no piece. -/
  | skip {a : α} {rest : List α} {pieces : List (List α)} (ha : blank a = true)
      (h : Parted blank rest pieces) : Parted blank (a :: rest) pieces
  /-- A piece ends at a blank or at the end of the list. -/
  | piece {w rest : List α} {pieces : List (List α)} (hne : w ≠ [])
      (hw : ∀ a ∈ w, blank a = false) (hend : ∀ a ∈ rest.head?, blank a = true)
      (h : Parted blank rest pieces) : Parted blank (w ++ rest) (w :: pieces)

/-- A run that ends where its class does is as long as it can be. -/
theorem takeWhile_append_of_head {p : α → Bool} {w rest : List α} (hw : ∀ a ∈ w, p a = true)
    (hend : ∀ a ∈ rest.head?, p a = false) :
    (w ++ rest).takeWhile p = w ∧ (w ++ rest).dropWhile p = rest := by
  have hhead : rest.takeWhile p = [] ∧ rest.dropWhile p = rest := by
    cases rest with
    | nil => exact ⟨rfl, rfl⟩
    | cons a rest => simp [hend a rfl]
  rw [List.takeWhile_append_of_pos hw, List.dropWhile_append_of_pos hw, hhead.1, hhead.2]
  exact ⟨List.append_nil w, rfl⟩

theorem Parted.of_skip {a : α} {rest : List α} {pieces : List (List α)} (ha : blank a = true)
    (h : Parted blank (a :: rest) pieces) : Parted blank rest pieces := by
  generalize hl : a :: rest = l at h
  cases h with
  | nil => cases hl
  | skip _ h =>
    obtain ⟨rfl, rfl⟩ := List.cons.inj hl
    exact h
  | @piece w _ _ hne hw _ _ =>
    obtain ⟨b, w, rfl⟩ := List.exists_cons_of_ne_nil hne
    obtain ⟨rfl, -⟩ := List.cons.inj hl
    rw [hw a List.mem_cons_self] at ha
    cases ha

theorem Parted.of_piece {w rest : List α} {pieces : List (List α)} (hne : w ≠ [])
    (hw : ∀ a ∈ w, blank a = false) (hend : ∀ a ∈ rest.head?, blank a = true)
    (h : Parted blank (w ++ rest) pieces) :
    ∃ others, pieces = w :: others ∧ Parted blank rest others := by
  generalize hl : w ++ rest = l at h
  cases h with
  | nil => exact absurd (List.append_eq_nil_iff.1 hl).1 hne
  | skip ha _ =>
    obtain ⟨b, w, rfl⟩ := List.exists_cons_of_ne_nil hne
    obtain ⟨rfl, -⟩ := List.cons.inj hl
    rw [hw b List.mem_cons_self] at ha
    cases ha
  | @piece w' rest' others _ hw' hend' h =>
    -- Both runs are all there is before the first blank.
    obtain ⟨htake, hdrop⟩ :=
      takeWhile_append_of_head (p := (!blank ·)) (by simpa using hw) (by simpa using hend)
    obtain ⟨htake', hdrop'⟩ :=
      takeWhile_append_of_head (p := (!blank ·)) (by simpa using hw') (by simpa using hend')
    rw [hl] at htake hdrop
    rw [htake] at htake'
    rw [hdrop] at hdrop'
    subst htake' hdrop'
    exact ⟨others, rfl, h⟩

/-- A list falls apart in one way only. -/
theorem Parted.unique {l : List α} {pieces others : List (List α)} (h : Parted blank l pieces)
    (h' : Parted blank l others) : others = pieces := by
  induction h generalizing others with
  | nil =>
    generalize hl : ([] : List α) = l at h'
    cases h' with
    | nil => rfl
    | skip => cases hl
    | piece hne => exact absurd (List.append_eq_nil_iff.1 hl.symm).1 hne
  | skip ha _ ih => exact ih (h'.of_skip ha)
  | piece hne hw hend _ ih =>
    obtain ⟨others, rfl, hrest⟩ := h'.of_piece hne hw hend
    rw [ih hrest]

theorem Parted.of_mem {l w : List α} {pieces : List (List α)} (h : Parted blank l pieces)
    (hmem : w ∈ pieces) : w ≠ [] ∧ ∀ a ∈ w, blank a = false := by
  induction h with
  | nil => cases hmem
  | skip _ _ ih => exact ih hmem
  | piece hne hw _ _ ih =>
    rcases List.mem_cons.1 hmem with rfl | hmem
    · exact ⟨hne, hw⟩
    · exact ih hmem

/-- Pieces stay pieces when every element is replaced by one that is as blank as it was. -/
theorem Parted.map {p : β → Bool} {f : α → β} (hf : ∀ a, p (f a) = blank a) {l : List α}
    {pieces : List (List α)} (h : Parted blank l pieces) :
    Parted p (l.map f) (pieces.map (·.map f)) := by
  induction h with
  | nil => exact .nil
  | skip ha _ ih => exact .skip ((hf _).trans ha) ih
  | @piece w rest _ hne hw hend _ ih =>
    rw [List.map_append, List.map_cons]
    refine .piece (mt List.map_eq_nil_iff.1 hne) ?_ ?_ ih
    · intro b hb
      obtain ⟨a, ha, rfl⟩ := List.mem_map.1 hb
      exact (hf a).trans (hw a ha)
    · intro b hb
      rw [List.head?_map] at hb
      obtain ⟨a, ha, rfl⟩ := Option.map_eq_some_iff.1 hb
      exact (hf a).trans (hend a ha)

end Parted

namespace Token

/-- The words of a sequence of located characters: its longest runs without white space. -/
def words : List (Char × Location) → List (List (Char × Location))
  | [] => []
  | r :: rest =>
    if Text.isBlank r.1 then words rest
    else
      (r :: rest.takeWhile fun q => !Text.isBlank q.1) ::
        words (rest.dropWhile fun q => !Text.isBlank q.1)
termination_by rs => rs.length
decreasing_by
  · simp
  · have := (List.dropWhile_suffix (l := rest) fun q => !Text.isBlank q.1).length_le
    simp only [List.length_cons]
    omega

/-- The token of a word, located by its first character. -/
def ofWord (word : List (Char × Location)) : Token :=
  classify (Text.encode (word.map (·.1))) ((word.head?.map (·.2)).getD .zero)

/-- The tokens of a sequence of located characters. -/
def ofChars (chars : List (Char × Location)) : List Token := (words chars).map ofWord

end Token

/-- The words of characters are their longest runs without white space. -/
theorem Token.parted_words (chars : List (Char × Location)) :
    Parted (fun q => Text.isBlank q.1) chars (words chars) := by
  fun_induction words chars with
  | case1 => exact .nil
  | case2 r rest hblank ih => exact .skip hblank ih
  | case3 r rest hblank ih =>
    have hsplit : r :: rest = (r :: rest.takeWhile fun q => !Text.isBlank q.1) ++
        rest.dropWhile fun q => !Text.isBlank q.1 := by
      rw [List.cons_append, List.takeWhile_append_dropWhile]
    have hend : ∀ q ∈ (rest.dropWhile fun q => !Text.isBlank q.1).head?,
        Text.isBlank q.1 = true := by
      intro q hq
      have := List.head?_dropWhile_not (fun q : Char × Location => !Text.isBlank q.1) rest
      rw [Option.mem_def] at hq
      simpa [hq] using this
    have hword : ∀ q ∈ r :: rest.takeWhile fun q => !Text.isBlank q.1,
        Text.isBlank q.1 = false := by
      intro q hq
      rcases List.mem_cons.1 hq with rfl | hq
      · simpa using hblank
      · simpa using List.all_eq_true.1 List.all_takeWhile q hq
    have hparted := Parted.piece (List.cons_ne_nil _ _) hword hend ih
    rwa [← hsplit] at hparted

theorem Text.capitals_encode (cs : List Char) : capitals (encode cs) = encode (cs.map capital) := by
  rw [capitals, decode_encode]

/-! ## Places -/

namespace Location

/-- The place behind some characters at the beginning of a source: the line feeds among them are
counted, and the characters after the latest one. -/
def behind (name : Text) (before : List Char) : Location :=
  ⟨name, 1 + before.count '\n', 1 + (before.reverse.takeWhile (· ≠ '\n')).length⟩

/-- The characters of a source, each with its place. -/
def located (name : Text) (cs : List Char) : List (Char × Location) :=
  cs.zipIdx.map fun (c, i) => (c, behind name (cs.take i))

theorem map_fst_located (name : Text) (cs : List Char) : (located name cs).map Prod.fst = cs := by
  rw [located, List.map_map]
  exact List.zipIdx_map_fst 0 cs

theorem behind_nil (name : Text) : behind name [] = start name := rfl

/-- Going past a character counts it. -/
theorem behind_append (name : Text) (before : List Char) (c : Char) :
    behind name (before ++ [c]) = (behind name before).after c := by
  simp only [behind, after, List.reverse_append, List.reverse_singleton, List.singleton_append,
    List.count_append, List.count_singleton]
  by_cases hc : c = '\n'
  · subst hc
    simp [Int.add_assoc]
  · simp [hc, Int.add_comm]

theorem locate_behind (name : Text) (before cs : List Char) :
    locate (behind name before) cs =
      cs.zipIdx.map fun (c, i) => (c, behind name (before ++ cs.take i)) := by
  induction cs generalizing before with
  | nil => rfl
  | cons c cs ih =>
    rw [locate, ← behind_append, ih, List.zipIdx_cons']
    simp

/-- Counting along the way gives the place of every character. -/
theorem locate_start (name : Text) (cs : List Char) : locate (start name) cs = located name cs := by
  rw [← behind_nil, locate_behind]
  rfl

end Location
end Birdcall
