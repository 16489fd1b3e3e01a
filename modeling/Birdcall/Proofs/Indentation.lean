import Birdcall.Proofs.Listings

/-!
# How far lines are indented

The line of an instruction is indented once for every function it stands in.  The listing keeps the
ends of the open functions on a stack and closes only those on top of it, so this rests on functions
nesting.

* `Program.enclosing` tells the functions around an instruction from their ends alone.
* `Program.openedBefore` is the stack on the way, when the listing comes to a line
  (`Program.drop_listingLines`).
* Functions nest: one that begins in another does not end behind it (`Program.Nests.last_le`).  So
  the ends on the stack never fall from the top down, and closing the ones on top closes all that
  are over (`Program.dropWhile_eq_filter`).
* `Program.stillOpen_openedBefore` puts this together, line by line.
-/

namespace Birdcall

open Text

/-! ## Functions nest -/

namespace Program

variable {p : Program} {lo hi : Nat}

/-- A function ends inside the range, and not before it begins. -/
theorem Nests.last_lt (h : p.Nests lo hi) {j : Nat} {a : Instruction} (hlo : lo ≤ j) (hhi : j < hi)
    (ha : p[j]? = some a) (hop : a.op = .define) : (j : Int) ≤ a.last ∧ a.last < hi := by
  induction h with
  | done hi => omega
  | @next lo hi i _ hget hother _ ih =>
    by_cases hj : j = lo
    · subst hj
      rw [hget] at ha
      cases ha
      exact absurd hop hother
    · exact ih (by omega) hhi
  | @define lo last hi i hget _ hlast hle hlt _ _ ihbody ih =>
    by_cases hj : j = lo
    · subst hj
      rw [hget] at ha
      cases ha
      omega
    · by_cases hbody : j ≤ last
      · have := ihbody (by omega) (by omega)
        omega
      · exact ih (by omega) hhi

/-- A function that begins in another one does not end behind it. -/
theorem Nests.last_le (h : p.Nests lo hi) {j k : Nat} {a b : Instruction} (hlo : lo ≤ j)
    (hjk : j < k) (hhi : k < hi) (ha : p[j]? = some a) (hopa : a.op = .define)
    (hb : p[k]? = some b) (hopb : b.op = .define) (hk : (k : Int) ≤ a.last) : b.last ≤ a.last := by
  induction h with
  | done hi => omega
  | @next lo hi i _ hget hother _ ih =>
    by_cases hj : j = lo
    · subst hj
      rw [hget] at ha
      cases ha
      exact absurd hopa hother
    · exact ih (by omega) hhi
  | @define lo last hi i hget _ hlast _ _ hbody _ ihbody ih =>
    by_cases hj : j = lo
    · subst hj
      rw [hget] at ha
      cases ha
      have := hbody.last_lt (by omega) (by omega) hb hopb
      omega
    · by_cases hin : j ≤ last
      · -- The first function ends in the body, so the second one begins there.
        have := hbody.last_lt (by omega) (by omega) ha hopa
        exact ihbody (by omega) (by omega)
      · exact ih (by omega) hhi

theorem nests_of_ofTokens {tokens : List Token} (h : ofTokens tokens = .ok p) :
    p.Nests 0 p.length := by
  obtain ⟨t, ht, rfl⟩ := ofTokens_eq_ok_iff.1 h
  have hnests := (Placed.flatten_zero ht).nests
  rwa [Nat.zero_add, ← Statement.length_flatten 0] at hnests

/-! ## The functions around an instruction -/

/-- The functions that the instruction at `k` stands in, outermost first: those that begin before it
and end at it or behind it. -/
def enclosing (p : Program) (k : Nat) : List Instruction :=
  (p.take k).filter fun i => i.op = .define ∧ (k : Int) ≤ i.last

/-- Where the functions end that the instruction at `k` stands in, outermost first. -/
def enclosingEnds (p : Program) (k : Nat) : List Int := (p.enclosing k).map (·.last)

theorem mem_enclosing {k : Nat} {a : Instruction} (h : a ∈ p.enclosing k) :
    ∃ j < k, p[j]? = some a ∧ a.op = .define ∧ (k : Int) ≤ a.last := by
  obtain ⟨hmem, hends⟩ := List.mem_filter.1 h
  obtain ⟨j, hj, hget⟩ := List.mem_take_iff_getElem.1 hmem
  refine ⟨j, by omega, ?_, by simpa using hends⟩
  rw [← hget]
  exact List.getElem?_eq_getElem _

/-- From the outermost function inwards, ends never rise. -/
theorem pairwise_enclosing {k : Nat} (h : p.Nests 0 p.length) (hk : k ≤ p.length) :
    (p.enclosing k).Pairwise fun outer inner => inner.last ≤ outer.last := by
  rw [enclosing, List.pairwise_filter, List.pairwise_iff_getElem]
  intro j j' hj hj' hlt hends hends'
  rw [List.length_take] at hj hj'
  simp only [List.getElem_take, decide_eq_true_eq] at hends hends' ⊢
  exact h.last_le (Nat.zero_le j) hlt (by omega) (List.getElem?_eq_getElem _) hends.1
    (List.getElem?_eq_getElem _) hends'.1 (by omega)

/-- One instruction on, the ends that are over are gone, and the instruction itself may have one
more. -/
theorem enclosingEnds_succ {k : Nat} {i : Instruction} (hget : p[k]? = some i) :
    p.enclosingEnds (k + 1) =
      (p.enclosingEnds k).filter (((k + 1 : Nat) : Int) ≤ ·) ++
        (if i.op = .define ∧ (k : Int) < i.last then [i.last] else []) := by
  rw [enclosingEnds, enclosingEnds, enclosing, enclosing, List.take_add_one, hget,
    List.filter_append, List.map_append, List.filter_map, List.filter_filter]
  congr 1
  · congr 1
    refine List.filter_congr fun a _ => ?_
    rw [Bool.eq_iff_iff]
    simp only [Function.comp_apply, Bool.and_eq_true, decide_eq_true_eq]
    constructor
    · rintro ⟨hop, hend⟩
      exact ⟨hend, hop, by omega⟩
    · rintro ⟨hend, hop, -⟩
      exact ⟨hop, hend⟩
  · have hlast : ((k + 1 : Nat) : Int) ≤ i.last ↔ (k : Int) < i.last := by omega
    simp only [Option.toList_some, List.filter_cons, List.filter_nil, decide_eq_true_eq, hlast]
    split <;> rfl

/-! ## The stack -/

/-- In a list that does not fall, the elements below a bound come first. -/
theorem dropWhile_eq_filter {l : List Int} (h : l.Pairwise (· ≤ ·)) (n : Int) :
    l.dropWhile (· < n) = l.filter (n ≤ ·) := by
  induction l with
  | nil => rfl
  | cons a l ih =>
    obtain ⟨hhead, htail⟩ := List.pairwise_cons.1 h
    by_cases ha : a < n
    · have hn : ¬ n ≤ a := by omega
      simp [ha, hn, ih htail]
    · have hn : n ≤ a := by omega
      have hall : l.filter (n ≤ ·) = l := by
        rw [List.filter_eq_self]
        intro b hb
        have := hhead b hb
        simp only [decide_eq_true_eq]
        omega
      simp [ha, hn, hall]

/-- The ends that the listing has on its stack, innermost first, when it comes to the line of the
instruction at `k`. -/
def openedBefore (p : Program) : Nat → List Int
  | 0 => []
  | k + 1 =>
    match p[k]? with
    | some i => openAfter k i (stillOpen k (openedBefore p k))
    | none => openedBefore p k

/-- From any line on the listing goes on with the stack it has come to. -/
theorem drop_listingLines (p : Program) (width : Nat) {k : Nat} (hk : k ≤ p.length) :
    (listingLines width 0 [] p).drop k = listingLines width k (p.openedBefore k) (p.drop k) := by
  induction k with
  | zero => rfl
  | succ k ih =>
    have hget : p[k]? = some p[k] := List.getElem?_eq_getElem _
    rw [← List.tail_drop, ih (by omega), Placed.drop_eq_cons hget, listingLines, List.tail_cons,
      openedBefore, hget]

/-- One line moves the stack from the functions around an instruction to those around the next. -/
theorem stillOpen_openAfter {k : Nat} {i : Instruction} (h : p.Nests 0 p.length)
    (hget : p[k]? = some i) :
    stillOpen (k + 1) (openAfter k i (p.enclosingEnds k).reverse) =
      (p.enclosingEnds (k + 1)).reverse := by
  have hk : k < p.length := (List.getElem?_eq_some_iff.1 hget).1
  have hends : (p.enclosingEnds k).reverse.Pairwise (· ≤ ·) := by
    rw [List.pairwise_reverse, enclosingEnds, List.pairwise_map]
    exact pairwise_enclosing h (by omega)
  have hsorted : (openAfter k i (p.enclosingEnds k).reverse).Pairwise (· ≤ ·) := by
    rw [openAfter]
    split
    · rename_i hopen
      refine List.pairwise_cons.2 ⟨fun last hlast => ?_, hends⟩
      obtain ⟨a, ha, rfl⟩ := List.mem_map.1 (List.mem_reverse.1 hlast)
      obtain ⟨j, hj, hgeta, hop, hend⟩ := mem_enclosing ha
      exact h.last_le (Nat.zero_le j) hj hk hgeta hop hget hopen.1 hend
    · exact hends
  rw [stillOpen, dropWhile_eq_filter hsorted, enclosingEnds_succ hget, List.reverse_append,
    ← List.filter_reverse, openAfter]
  split
  · rename_i hopen
    have hlast : ((k + 1 : Nat) : Int) ≤ i.last := by omega
    rw [List.filter_cons_of_pos (by simpa using hlast)]
    rfl
  · rfl

/-- The stack holds the ends of the functions around an instruction when its line is written. -/
theorem stillOpen_openedBefore {k : Nat} (h : p.Nests 0 p.length) (hk : k ≤ p.length) :
    stillOpen k (p.openedBefore k) = (p.enclosingEnds k).reverse := by
  induction k with
  | zero => rfl
  | succ k ih =>
    have hget : p[k]? = some p[k] := List.getElem?_eq_getElem _
    rw [openedBefore, hget]
    simp only [ih (Nat.le_of_succ_le hk)]
    exact stillOpen_openAfter h hget

/-! ## Lines -/

/-- A function has an empty body if and only if it ends where it stands. -/
theorem body?_empty_iff {k : Nat} {i : Instruction} (hget : p[k]? = some i) :
    p.body? k p.length = some (.ok ⟨k + 1, k + 1⟩) ↔ i.op = .define ∧ i.last = k := by
  have hk : k < p.length := (List.getElem?_eq_some_iff.1 hget).1
  have hbody : p.body? k p.length = some (i.body k p.length) := by
    rw [body?, if_neg (by omega), Int.toNat_natCast, hget]
    rfl
  rw [hbody, Option.some_inj, Instruction.body]
  constructor
  · intro h
    split at h
    · rename_i hinside
      have hend := congrArg Span.hi (Except.ok.inj h)
      simp only at hend
      exact ⟨hinside.1, by omega⟩
    · cases h
  · rintro ⟨hop, hlast⟩
    have hend : (i.last + 1).toNat = k + 1 := by omega
    rw [if_pos ⟨hop, by omega, by omega⟩, hend]

theorem length_listingLines (width index : Nat) (opened : List Int) (p : Program) :
    (listingLines width index opened p).length = p.length := by
  induction p generalizing index opened with
  | nil => rfl
  | cons i p ih => rw [listingLines, List.length_cons, List.length_cons, ih]

theorem getElem?_listingLines {k : Nat} {i : Instruction} (hget : p[k]? = some i) (width : Nat) :
    (listingLines width 0 [] p)[k]? =
      some (listingLine width k (stillOpen k (p.openedBefore k)).length i) := by
  have hk : k < p.length := (List.getElem?_eq_some_iff.1 hget).1
  rw [← List.head?_drop, drop_listingLines p width (Nat.le_of_lt hk), Placed.drop_eq_cons hget]
  rfl

/-- In the listing of a program that tokens spell, the line of an instruction is indented by two
blanks for each function that begins before the instruction and does not end before it, and has the
remark that it is empty if and only if it is a function with an empty body.  When a line is written,
the stack of open ends holds the ends of just these functions, outermost first, and they never rise.

The stack is the one that the listing goes on with from each line. -/
theorem indented_by_nesting (tokens : List Token) (p : Program) (h : ofTokens tokens = .ok p) :
    let width := indexWidth p.length
    let lines := listingLines width 0 [] p
    p.listing = p.heading ++ lines.flatten ∧ lines.length = p.length ∧
    ∀ (k : Nat) (i : Instruction), p[k]? = some i →
      lines[k]? = some (ofString "  @" ++ padLeft width (ofNat k) ++ ofString " " ++
        blanks (2 * (p.enclosing k).length) ++ i.text ++ remark k i ++ [lineFeed]) ∧
      (remark k i = ofString " (empty)" ↔ p.body? k p.length = some (.ok ⟨k + 1, k + 1⟩)) ∧
      (remark k i = [] ↔ p.body? k p.length ≠ some (.ok ⟨k + 1, k + 1⟩)) ∧
      lines.drop k = listingLines width k (p.openedBefore k) (p.drop k) ∧
      (stillOpen k (p.openedBefore k)).reverse = p.enclosingEnds k ∧
      (p.enclosingEnds k).Pairwise (· ≥ ·) := by
  intro width lines
  have hnests := nests_of_ofTokens h
  refine ⟨listing_eq p, length_listingLines _ _ _ p, fun k i hget => ?_⟩
  have hk : k ≤ p.length := Nat.le_of_lt (List.getElem?_eq_some_iff.1 hget).1
  have hstack := stillOpen_openedBefore hnests hk
  have hdepth : (stillOpen k (p.openedBefore k)).length = (p.enclosing k).length := by
    rw [hstack, List.length_reverse, enclosingEnds, List.length_map]
  refine ⟨?_, ?_, ?_, drop_listingLines p width hk, ?_, ?_⟩
  · rw [getElem?_listingLines hget, hdepth]
    rfl
  · rw [body?_empty_iff hget, remark]
    split
    · exact iff_of_true rfl ‹_›
    · exact iff_of_false (by decide) ‹_›
  · rw [Ne, body?_empty_iff hget, remark]
    split
    · exact iff_of_false (by decide) (not_not_intro ‹_›)
    · exact iff_of_true rfl ‹_›
  · rw [hstack, List.reverse_reverse]
  · rw [enclosingEnds, List.pairwise_map]
    exact pairwise_enclosing hnests hk

/-- Three functions that end at the same instruction, which is the last one and itself an empty
function. -/
theorem indented_by_nesting_ends :
    let p : Program :=
      [.define (ofString "f") 3, .define (ofString "g") 3, .print ⟨0⟩, .define (ofString "h") 3]
    ofTokens (Token.lex (ofString "fun f fun g a fun h end end end")) = .ok p ∧
    p.enclosing 3 = [.define (ofString "f") 3, .define (ofString "g") 3] ∧
    (listingLines (indexWidth 4) 0 [] p)[3]? = some (ofString "  @3     fun h ..@3 (empty)\n") ∧
    (stillOpen 3 (p.openedBefore 3)).reverse = [3, 3] := by
  intro p
  have h : ofTokens (Token.lex (ofString "fun f fun g a fun h end end end")) = .ok p := by decide +kernel
  have henclosing : p.enclosing 3 = [.define (ofString "f") 3, .define (ofString "g") 3] := by
    decide
  obtain ⟨-, -, hlines⟩ := indented_by_nesting _ p h
  obtain ⟨hline, -, -, -, hstack, -⟩ := hlines 3 (.define (ofString "h") 3) rfl
  refine ⟨h, henclosing, hline.trans ?_, hstack.trans ?_⟩
  · rw [henclosing]
    decide
  · rw [enclosingEnds, henclosing]
    rfl

end Program
end Birdcall
