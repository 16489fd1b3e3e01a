import Birdcall.Program.Digest
import Birdcall.Proofs.Utf8

/-!
# Reading canonical bytes

The canonical bytes of a program carry no separators, and still they can be read in one way only.
Every part says where it ends: a number by its last group, a name by the number before it.

`Canonical.read` is the reader.  It accepts exactly what `Canonical.program` writes
(`read_eq_some_iff`), part by part: numbers, instructions, programs.
-/

namespace Birdcall.Canonical

/-! ## Numbers -/

/-- Reads a number, and gives the bytes after it.  A highest group of zero is refused, since no
number is written with one. -/
def readNumber : Text → Option (Nat × Text)
  | [] => none
  | b :: rest =>
    if b.toNat < 128 then some (b.toNat, rest)
    else
      match readNumber rest with
      | none => none
      | some (n, rest) => if n = 0 then none else some (b.toNat - 128 + 128 * n, rest)

theorem readNumber_append (n : Nat) (rest : Text) :
    readNumber (number n ++ rest) = some (n, rest) := by
  induction n using number.induct with
  | case1 n hlt =>
    have hbyte : n.toUInt8.toNat = n := Text.toNat_toUInt8 (by omega)
    rw [number, if_pos hlt]
    simp [readNumber, hbyte, hlt]
  | case2 n hge ih =>
    have hbyte : (n % 128 + 128).toUInt8.toNat = n % 128 + 128 := Text.toNat_toUInt8 (by omega)
    have hgroup : n % 128 + 128 - 128 + 128 * (n / 128) = n := by omega
    rw [number, if_neg hge, List.cons_append, readNumber, ih, hbyte, if_neg (by omega)]
    simp only [hgroup]
    exact if_neg (by omega)

theorem eq_number_append {t rest : Text} {n : Nat} (h : readNumber t = some (n, rest)) :
    t = number n ++ rest := by
  induction t generalizing n with
  | nil => cases h
  | cons b t ih =>
    have hb : b.toNat.toUInt8 = b := UInt8.toNat_inj.1 (Text.toNat_toUInt8 b.toNat_lt)
    rw [readNumber] at h
    by_cases hlt : b.toNat < 128
    · rw [if_pos hlt] at h
      obtain ⟨rfl, rfl⟩ := Prod.mk.inj (Option.some.inj h)
      rw [number, if_pos hlt, hb]
      rfl
    · rw [if_neg hlt] at h
      cases hrest : readNumber t with
      | none => simp [hrest] at h
      | some got =>
        obtain ⟨m, after⟩ := got
        simp only [hrest] at h
        by_cases hm : m = 0
        · rw [if_pos hm] at h
          cases h
        · rw [if_neg hm] at h
          obtain ⟨rfl, rfl⟩ := Prod.mk.inj (Option.some.inj h)
          -- The lowest group is the byte without its high bit, the others are `m`.
          have hbyte := b.toNat_lt
          have hlow : (b.toNat - 128 + 128 * m) % 128 + 128 = b.toNat := by omega
          have hhigh : (b.toNat - 128 + 128 * m) / 128 = m := by omega
          rw [number, if_neg (by omega), hlow, hhigh, hb, List.cons_append, ← ih hrest]

/-! ## Signs -/

/-- Takes the sign of an integer out of the lowest bit. -/
def withSign (n : Nat) : Int := if n % 2 = 0 then .ofNat (n / 2) else .negSucc (n / 2)

theorem withSign_fold (x : Int) : withSign (fold x) = x := by
  cases x with
  | ofNat n =>
    have heven : 2 * n % 2 = 0 := by omega
    have hhalf : 2 * n / 2 = n := by omega
    rw [fold, withSign, if_pos heven, hhalf]
  | negSucc n =>
    have hodd : (2 * n + 1) % 2 ≠ 0 := by omega
    have hhalf : (2 * n + 1) / 2 = n := by omega
    rw [fold, withSign, if_neg hodd, hhalf]

theorem fold_withSign (n : Nat) : fold (withSign n) = n := by
  rw [withSign]
  split
  · show 2 * (n / 2) = n
    omega
  · show 2 * (n / 2) + 1 = n
    omega

/-! ## Instructions -/

/-- Reads an instruction, and gives the bytes after it. -/
def readInstruction : Text → Option (Instruction × Text)
  | op :: symbol :: t =>
    match readNumber t with
    | none => none
    | some (length, t) =>
      if t.length < length then none
      else
        match readNumber (t.drop length) with
        | none => none
        | some (last, rest) => some (⟨⟨op⟩, ⟨symbol⟩, t.take length, withSign last⟩, rest)
  | _ => none

theorem readInstruction_append (i : Instruction) (rest : Text) :
    readInstruction (instruction i ++ rest) = some (i, rest) := by
  obtain ⟨⟨op⟩, ⟨symbol⟩, name, last⟩ := i
  have hlength := readNumber_append name.length (name ++ (number (fold last) ++ rest))
  have hlast := readNumber_append (fold last) rest
  have hlong : ¬(name ++ (number (fold last) ++ rest)).length < name.length := by
    simp only [List.length_append]
    omega
  simp only [instruction, List.cons_append, List.append_assoc, readInstruction, hlength, if_neg hlong,
    List.drop_left, List.take_left, hlast, withSign_fold]

theorem eq_instruction_append {t rest : Text} {i : Instruction}
    (h : readInstruction t = some (i, rest)) : t = instruction i ++ rest := by
  match t with
  | [] | [_] => cases h
  | op :: symbol :: t =>
    rw [readInstruction] at h
    cases hlength : readNumber t with
    | none => simp [hlength] at h
    | some got =>
      obtain ⟨length, after⟩ := got
      simp only [hlength] at h
      by_cases hshort : after.length < length
      · rw [if_pos hshort] at h
        cases h
      · rw [if_neg hshort] at h
        cases hlast : readNumber (after.drop length) with
        | none => simp [hlast] at h
        | some got =>
          obtain ⟨last, rest'⟩ := got
          simp only [hlast] at h
          obtain ⟨rfl, rfl⟩ := Prod.mk.inj (Option.some.inj h)
          have hname : (after.take length).length = length := by
            rw [List.length_take]
            omega
          have hafter : after = after.take length ++ (number last ++ rest') := by
            rw [← eq_number_append hlast, List.take_append_drop]
          have ht : t = number length ++ after := eq_number_append hlength
          simp only [instruction, hname, fold_withSign, List.cons_append, List.append_assoc]
          rw [← hafter, ht]

theorem length_readInstruction {t rest : Text} {i : Instruction}
    (h : readInstruction t = some (i, rest)) : rest.length < t.length := by
  rw [eq_instruction_append h]
  simp only [instruction, List.cons_append, List.length_cons, List.length_append]
  omega

/-! ## Programs -/

/-- Reads a program. -/
def read (t : Text) : Option Program :=
  if t = [] then some []
  else
    match _h : readInstruction t with
    | none => none
    | some (i, rest) => (read rest).map (i :: ·)
termination_by t.length
decreasing_by exact length_readInstruction _h

theorem instruction_append_ne_nil (i : Instruction) (rest : Text) : instruction i ++ rest ≠ [] := by
  simp [instruction]

theorem read_program (p : Program) : read (program p) = some p := by
  induction p with
  | nil => rw [program, List.flatMap_nil, read, if_pos rfl]
  | cons i p ih =>
    have hi := readInstruction_append i (program p)
    rw [program, List.flatMap_cons, ← program, read, if_neg (instruction_append_ne_nil i _)]
    split
    · next h => rw [hi] at h; cases h
    · next j rest h =>
      rw [hi] at h
      obtain ⟨rfl, rfl⟩ := Prod.mk.inj (Option.some.inj h)
      rw [ih]
      rfl

theorem eq_program {t : Text} {p : Program} (h : read t = some p) : t = program p := by
  fun_induction read t generalizing p with
  | case1 =>
    cases h
    rfl
  | case2 => cases h
  | case3 t _ i rest hi ih =>
    obtain ⟨q, hq, rfl⟩ := Option.map_eq_some_iff.1 h
    rw [eq_instruction_append hi, ih hq, program, program, List.flatMap_cons]

/-- A program is read from exactly the bytes it is written as. -/
theorem read_eq_some_iff {t : Text} {p : Program} : read t = some p ↔ t = program p :=
  ⟨eq_program, fun h => h ▸ read_program p⟩

/-- The canonical bytes of programs are the same only for the same program, and a reader gets the
program back from them, and from no other bytes.  So two programs share a digest only if they are
the same or the digest is the same for different bytes. -/
theorem uniquely_readable (p q : Program) :
    (program p = program q ↔ p = q) ∧
      (∀ t, read t = some p ↔ t = program p) ∧
      (p.digest = q.digest ↔
        p = q ∨ program p ≠ program q ∧
          Digest.ofText (program p) = Digest.ofText (program q)) := by
  have hinj : program p = program q ↔ p = q := by
    refine ⟨fun h => ?_, congrArg program⟩
    have hread := read_program p
    rw [h, read_program] at hread
    exact (Option.some.inj hread).symm
  refine ⟨hinj, fun t => read_eq_some_iff, ?_⟩
  rw [← hinj]
  constructor
  · intro h
    by_cases heq : program p = program q
    · exact .inl heq
    · exact .inr ⟨heq, h⟩
  · rintro (h | ⟨_, h⟩)
    · exact congrArg Digest.ofText h
    · exact h

end Birdcall.Canonical
