import Birdcall.Proofs.Yaml.Scan

/-!
# Taking tokens from the queue

A token is taken when two more wait behind it, so finding tokens runs ahead of taking them.
`Scanner.Advances` puts both in step: what has been taken and what still waits are together the
tokens found so far.
-/

namespace Birdcall.Yaml.Scanner

variable {s s₁ s₂ s₃ : Scanner} {m : Mark} {rest : List Char} {k : Nat} {i : Int} {is : List Int}

/-! ## Taking -/

/-- The scanner after its first `n` tokens have been taken. -/
def dropped (s : Scanner) (n : Nat) : Scanner :=
  { s with taken := s.taken + n, queue := s.queue.drop n }

theorem kinds_dropped (n : Nat) : (s.dropped n).kinds = s.kinds.drop n := by
  simp [kinds, dropped]

theorem Idle.dropped (hs : s.Idle i is) (n : Nat) : (s.dropped n).Idle i is :=
  ⟨hs.outer_eq, hs.candidate_eq, hs.indent_eq, hs.indents_eq⟩

/-- `s.Gives ks s'`: the next tokens of `s` are of the kinds `ks`, and it becomes `s'`. -/
inductive Gives : Scanner → List TokenKind → Scanner → Prop
  | nil (s : Scanner) : Gives s [] s
  | cons {s s₁ s₂ : Scanner} {t : Token} {ks : List TokenKind}
      (hnext : s.next? (s.cursor.limit + 4) = some (t, s₁)) (hrest : Gives s₁ ks s₂) :
      Gives s (t.kind :: ks) s₂

theorem Gives.trans {ks ls : List TokenKind} (h : s.Gives ks s₁) (h' : s₁.Gives ls s₂) :
    s.Gives (ks ++ ls) s₂ := by
  induction h with
  | nil => exact h'
  | cons hnext _ ih => exact .cons hnext (ih h')

/-- Tokens that are given are read. -/
theorem Gives.readFrom {ks : List TokenKind} (h : s.Gives ks s₁) (hend : .streamEnd ∉ ks)
    (fuel : Nat) :
    ∃ ts : List Token, ts.map (·.kind) = ks ∧
      s.readFrom (ks.length + fuel) = ts ++ s₁.readFrom fuel := by
  induction h with
  | nil s => exact ⟨[], rfl, by simp⟩
  | @cons s s₁ s₂ t ks hnext _ ih =>
    rw [List.mem_cons, not_or] at hend
    obtain ⟨ht, hend⟩ := hend
    obtain ⟨ts, hts, hread⟩ := ih hend
    refine ⟨t :: ts, by simp [hts], ?_⟩
    have hfuel : (t.kind :: ks).length + fuel = (ks.length + fuel) + 1 := by
      rw [List.length_cons]
      omega
    rw [hfuel, Scanner.readFrom, hnext]
    simp [Ne.symm ht, hread]

/-- The end of the text is read as the last token. -/
theorem Gives.readFrom_end {ks : List TokenKind} (h : s.Gives (ks ++ [.streamEnd]) s₁)
    (hend : .streamEnd ∉ ks) (fuel : Nat) :
    (s.readFrom (ks.length + 1 + fuel)).map (·.kind) = ks ++ [.streamEnd] := by
  induction ks generalizing s with
  | nil =>
    generalize hkinds : ([] ++ [.streamEnd] : List TokenKind) = gs at h
    cases h with
    | nil => cases hkinds
    | @cons _ _ _ t _ hnext _ =>
      obtain ⟨ht, rfl⟩ := List.cons.inj hkinds
      rw [List.length_nil, Nat.zero_add, Nat.add_comm, Scanner.readFrom, hnext]
      simp [← ht]
  | cons kind ks ih =>
    rw [List.mem_cons, not_or] at hend
    obtain ⟨hkind, hend⟩ := hend
    generalize hkinds : kind :: ks ++ [.streamEnd] = gs at h
    cases h with
    | nil => cases hkinds
    | @cons _ _ _ t _ hnext hrest =>
      obtain ⟨rfl, rfl⟩ := List.cons.inj hkinds
      have hfuel : (t.kind :: ks).length + 1 + fuel = (ks.length + 1 + fuel) + 1 := by
        rw [List.length_cons]
        omega
      rw [hfuel, Scanner.readFrom, hnext]
      simp [Ne.symm hkind, ih hrest hend]

/-- With few tokens in the queue, another one is found first. -/
theorem next?_fetch (fuel : Nat) (hlen : s.queue.length ≤ 2) :
    s.next? (fuel + 1) = s.fetch.bind (next? fuel) := by
  have hsettled : s.isSettled? = some false := by
    unfold isSettled?
    split
    next hqueue =>
      simp [hqueue] at hlen
    next => rfl
  simp [next?, hsettled]

/-- The first token is taken if two follow it and it does not wait for a colon. -/
theorem next?_take (fuel : Nat) {t : Token} {q : List Token} (hqueue : s.queue = t :: q)
    (hlen : 2 ≤ q.length) (hflow : s.outer = [])
    (hcandidate : ∀ k ∈ s.level.candidate, s.taken < k.number) :
    s.next? (fuel + 1) = some (t, s.dropped 1) := by
  obtain ⟨t₁, q, rfl⟩ := List.exists_cons_of_length_pos (Nat.lt_of_succ_le (Nat.le_of_succ_le hlen))
  obtain ⟨t₂, q, rfl⟩ :=
    List.exists_cons_of_length_pos (Nat.lt_of_succ_le (Nat.le_of_succ_le_succ hlen))
  have hsettled : s.isSettled? = some true := by
    have hwaits : s.level.candidate.filter (fun k => k.waits && k.number = s.taken) = none := by
      rw [Option.filter_eq_none_iff]
      intro k hk
      simp [Nat.ne_of_gt (hcandidate k hk)]
    simp [isSettled?, hqueue, hflow, hwaits]
  simp [next?, hsettled, hqueue, dropped]

/-- Once enough tokens have been found, the first is taken. -/
theorem gives_first {fuel : Nat} {ks : List TokenKind}
    (hnext : s.next? (s.cursor.limit + 4) = s₁.next? (fuel + 1)) (hlen : 3 ≤ s₁.queue.length)
    (hflow : s₁.outer = []) (hcandidate : ∀ k ∈ s₁.level.candidate, s₁.taken < k.number)
    (hrest : (s₁.dropped 1).Gives ks s₂) : s.Gives (s₁.kinds.take 1 ++ ks) s₂ := by
  obtain ⟨t, q, hqueue⟩ := List.exists_cons_of_length_pos (Nat.lt_of_lt_of_le (by decide) hlen)
  have hq : 2 ≤ q.length := by simpa [hqueue] using hlen
  have hkinds : s₁.kinds.take 1 = [t.kind] := by simp [kinds, hqueue]
  rw [hkinds]
  exact .cons (hnext.trans (next?_take fuel hqueue hq hflow hcandidate)) hrest

/-- Then all but the last two are taken, if none of those waits for a colon. -/
theorem gives_next {fuel n : Nat} (hnext : s.next? (s.cursor.limit + 4) = s₁.next? (fuel + 1))
    (hlen : s₁.queue.length = n + 3) (hflow : s₁.outer = [])
    (hcandidate : ∀ k ∈ s₁.level.candidate, s₁.taken + n < k.number) :
    s.Gives (s₁.kinds.take (n + 1)) (s₁.dropped (n + 1)) := by
  induction n generalizing s s₁ fuel with
  | zero =>
    have h := gives_first hnext (by omega) hflow hcandidate (.nil _)
    rwa [List.append_nil] at h
  | succ n ih =>
    have hfirst : ∀ k ∈ s₁.level.candidate, s₁.taken < k.number := fun k hk => by
      have := hcandidate k hk
      omega
    have hothers : ∀ k ∈ (s₁.dropped 1).level.candidate, (s₁.dropped 1).taken + n < k.number :=
      fun k hk => by
        have := hcandidate k hk
        simp only [dropped]
        omega
    have hsame : (s₁.dropped 1).next? ((s₁.dropped 1).cursor.limit + 4) =
      (s₁.dropped 1).next? ((s₁.dropped 1).cursor.limit + 3 + 1) := rfl
    have hrest := ih hsame (by simp [dropped, hlen]) hflow hothers
    have hdropped : (s₁.dropped 1).dropped (n + 1) = s₁.dropped (n + 1 + 1) := by
      simp [dropped, Nat.add_assoc, Nat.add_comm 1 (n + 1)]
    rw [hdropped, kinds_dropped] at hrest
    have h := gives_first hnext (by omega) hflow hfirst hrest
    rwa [← List.take_add, Nat.add_comm 1] at h

theorem gives_idle {fuel : Nat} (hnext : s.next? (s.cursor.limit + 4) = s₁.next? (fuel + 1))
    (hlen : 3 ≤ s₁.queue.length) (hs : s₁.Idle i is) :
    ∃ n gs, s.Gives gs (s₁.dropped n) ∧ (s₁.dropped n).queue.length = 2 ∧
      gs ++ (s₁.dropped n).kinds = s₁.kinds := by
  obtain ⟨n, hn⟩ : ∃ n, s₁.queue.length = n + 3 := ⟨s₁.queue.length - 3, by omega⟩
  have hgives := gives_next hnext hn hs.outer_eq (by simp [hs.candidate_eq])
  refine ⟨n + 1, _, hgives, by simp [dropped, hn], ?_⟩
  rw [kinds_dropped, List.take_append_drop]

/-! ## Finding and taking -/

/-- `s.Advances ks s'`: tokens of the kinds `ks` are found behind those that wait in `s`, and all
but the last two are taken. -/
def Advances (s : Scanner) (ks : List TokenKind) (s' : Scanner) : Prop :=
  s'.queue.length = 2 ∧ ∃ gs, s.Gives gs s' ∧ gs ++ s'.kinds = s.kinds ++ ks

theorem Advances.trans {ks ls : List TokenKind} (h : s.Advances ks s₁) (h' : s₁.Advances ls s₂) :
    s.Advances (ks ++ ls) s₂ := by
  obtain ⟨-, gs, hgives, hkinds⟩ := h
  obtain ⟨hlen, gs', hgives', hkinds'⟩ := h'
  refine ⟨hlen, gs ++ gs', hgives.trans hgives', ?_⟩
  rw [List.append_assoc, hkinds', ← List.append_assoc, hkinds, List.append_assoc]

/-- The tokens that wait are among those that did before and those found since. -/
theorem Advances.mem_kinds {ks : List TokenKind} {kind : TokenKind} (h : s.Advances ks s₁)
    (hmem : kind ∈ s₁.kinds) : kind ∈ s.kinds ++ ks := by
  obtain ⟨-, gs, -, hkinds⟩ := h
  rw [← hkinds]
  exact List.mem_append_right _ hmem

theorem advances_fetch {ks : List TokenKind} (hlen : s.queue.length = 2) (hfetch : s.fetch = some s₁)
    (hs : s₁.Idle i is) (hne : ks ≠ []) (hkinds : s₁.kinds = s.kinds ++ ks) :
    ∃ n, s.Advances ks (s₁.dropped n) := by
  have hnext : s.next? (s.cursor.limit + 4) = s₁.next? (s.cursor.limit + 2 + 1) := by
    rw [next?_fetch _ (Nat.le_of_eq hlen), hfetch, Option.bind_some]
  have hlen₁ : 3 ≤ s₁.queue.length := by
    have hlength := congrArg List.length hkinds
    have hpos := List.length_pos_iff.2 hne
    simp only [kinds, List.length_append, List.length_map] at hlength
    omega
  obtain ⟨n, gs, hgives, hlen', hgs⟩ := gives_idle hnext hlen₁ hs
  exact ⟨n, hlen', gs, hgives, hgs.trans hkinds⟩

/-! ## Keys -/

theorem Waits.dropped (hs : s.Waits i is m) {n : Nat} (hn : n ≤ s.queue.length) :
    (s.dropped n).Waits i is m := by
  obtain ⟨number, required, hcandidate, hnumber⟩ := hs.candidate_eq
  refine ⟨hs.outer_eq, hs.indent_eq, hs.indents_eq, number, required, hcandidate, ?_⟩
  rw [hnumber]
  simp only [Scanner.number, Scanner.dropped, List.length_drop]
  omega

/-- The tokens of a key in column `k` of a block that stands at column `i`, or in one further in. -/
def keyKinds (i : Int) (k : Nat) (w : List Char) : List TokenKind :=
  (if i < k then [.blockMapping] else []) ++ [.key, .scalar (Text.encode w) .plain, .value]

/-- The colon lets all tokens up to the key mark be taken. -/
theorem gives_colon {fuel : Nat} {q : List TokenKind} {w : List Char}
    (hnext : s.next? (s.cursor.limit + 4) = s₁.next? (fuel + 2)) (hs : s₁.Waits i is m)
    (hlen : s₁.queue.length = 2) (hkinds : s₁.kinds = q ++ [.scalar (Text.encode w) .plain])
    (h : s₁.cursor.Stands (':' :: rest) (m.on w.length)) (hcolumn : m.column = k) (hindent : i ≤ k)
    (hdepth : is.length < maxDepth) (hshort : w.length ≤ 1024) (hrest : Cursor.atGap rest = true)
    (hsign : (rest.dropWhile isBlank).head? ≠ some '#') :
    ∃ s' m gs, s.Gives gs s' ∧ s'.queue.length = 2 ∧ gs ++ s'.kinds = q ++ keyKinds i k w ∧
      s'.Idle k (if i < k then i :: is else is) ∧ s'.keyAllowed = false ∧
      s'.cursor.Stands rest m ∧ k < m.column := by
  obtain ⟨s₂, hfetch, hs₂, hkinds₂, hkey, h₂⟩ :=
    fetch_colon hs h hcolumn hindent hdepth hkinds hshort hrest hsign
  rw [next?_fetch (fuel + 1) (by omega), hfetch, Option.bind_some] at hnext
  have hlen₂ : 3 ≤ s₂.queue.length := by
    have hlength := congrArg List.length hkinds₂
    simp only [kinds, List.length_append, List.length_map, List.length_cons,
      List.length_nil] at hlength
    omega
  obtain ⟨n, gs, hgives, hlen', hgs⟩ := gives_idle hnext hlen₂ hs₂
  refine ⟨s₂.dropped n, _, gs, hgives, hlen', hgs.trans hkinds₂, hs₂.dropped n, hkey, h₂, ?_⟩
  rw [Mark.column_on]
  omega

/-- A word that can be a key. -/
structure KeyWord (w : List Char) : Prop where
  plain : PlainWord w
  letter : ∀ ch ∈ w.head?, ch.isAlpha = true
  short : w.length ≤ 1024

/-- A key and its colon are found as they stand. -/
theorem advances_key {w : List Char} (hw : KeyWord w) (hs : s.Idle i is)
    (hlen : s.queue.length = 1 ∨ s.queue.length = 2) (h : s.Due k (w ++ ':' :: rest))
    (hindent : i ≤ k) (hdepth : is.length < maxDepth) (hrest : Cursor.atGap rest = true)
    (hsign : (rest.dropWhile isBlank).head? ≠ some '#') :
    ∃ s' m, s.Advances (keyKinds i k w) s' ∧ s'.Idle k (if i < k then i :: is else is) ∧
      s'.keyAllowed = false ∧ s'.cursor.Stands rest m ∧ k < m.column := by
  obtain ⟨s₁, m, hfetch, hs₁, hkinds₁, h₁, hcolumn⟩ :=
    fetch_key hs h hindent hw.plain hw.letter hrest
  have hnext : s.next? (s.cursor.limit + 4) = s₁.next? (s.cursor.limit + 1 + 2) := by
    rw [next?_fetch _ (by omega), hfetch, Option.bind_some]
  have hlen₁ : s₁.queue.length = s.queue.length + 1 := by
    simpa [kinds] using congrArg List.length hkinds₁
  rcases hlen with hlen | hlen
  · -- Only the first token of the text waits, so none is taken before the colon.
    obtain ⟨s', m', gs, hgives, hlen', hgs, hrest⟩ := gives_colon hnext hs₁ (by omega) hkinds₁ h₁
      hcolumn hindent hdepth hw.short hrest hsign
    exact ⟨s', m', ⟨hlen', gs, hgives, hgs⟩, hrest⟩
  · have hnumber : ∀ c ∈ s₁.level.candidate, s₁.taken + 0 < c.number := by
      obtain ⟨number, required, hcandidate, hnumber⟩ := hs₁.candidate_eq
      simp only [Scanner.number] at hnumber
      simp [hcandidate]
      omega
    have hfirst := gives_next hnext (by omega) hs₁.outer_eq hnumber
    obtain ⟨x, q, hq⟩ : ∃ x q, s.kinds = x :: q :=
      List.exists_cons_of_length_pos (by simp [kinds, hlen])
    have hkinds₂ : (s₁.dropped 1).kinds = q ++ [.scalar (Text.encode w) .plain] := by
      rw [kinds_dropped, hkinds₁, hq]
      rfl
    have hsame : (s₁.dropped 1).next? ((s₁.dropped 1).cursor.limit + 4) =
      (s₁.dropped 1).next? ((s₁.dropped 1).cursor.limit + 2 + 2) := rfl
    obtain ⟨s', m', gs, hgives, hlen', hgs, hrest⟩ := gives_colon hsame (hs₁.dropped (by omega))
      (by simp [Scanner.dropped]; omega) hkinds₂ h₁ hcolumn hindent hdepth hw.short hrest hsign
    refine ⟨s', m', ⟨hlen', _, hfirst.trans hgives, ?_⟩, hrest⟩
    rw [List.append_assoc, hgs, hkinds₁, hq]
    simp

/-! ## Reading -/

/-- `s.Reads ks`: behind the tokens that wait in `s`, those that are read are of the kinds `ks`. -/
def Reads (s : Scanner) (ks : List TokenKind) : Prop :=
  ∀ fuel, (s.kinds ++ ks).length ≤ fuel → (s.readFrom fuel).map (·.kind) = s.kinds ++ ks

theorem Advances.reads {ks ls : List TokenKind} (h : s.Advances ks s₁)
    (hend : .streamEnd ∉ s.kinds ++ ks) (hread : s₁.Reads ls) : s.Reads (ks ++ ls) := by
  intro fuel hfuel
  obtain ⟨-, gs, hgives, hkinds⟩ := h
  rw [← List.append_assoc, ← hkinds, List.append_assoc, List.length_append] at hfuel
  rw [← List.append_assoc, ← hkinds, List.append_assoc]
  rw [← hkinds] at hend
  obtain ⟨fuel, rfl⟩ : ∃ n, fuel = gs.length + n := ⟨fuel - gs.length, by omega⟩
  obtain ⟨ts, hts, hfirst⟩ := hgives.readFrom (fun hmem => hend (List.mem_append_left _ hmem)) fuel
  rw [hfirst, List.map_append, hts, hread fuel (by omega)]

/-- Tokens are read up to where no further one can be found, but the last two stay behind. -/
theorem Advances.reads_stop {ks : List TokenKind} {x y : TokenKind}
    (h : s.Advances (ks ++ [x, y]) s₁)
    (hend : .streamEnd ∉ s.kinds ++ ks) (hfetch : s₁.fetch = none) : s.Reads ks := by
  intro fuel hfuel
  obtain ⟨hlen, gs, hgives, hkinds⟩ := h
  rw [← List.append_assoc] at hkinds
  obtain ⟨rfl, -⟩ := List.append_inj' hkinds (by simp [kinds, hlen])
  obtain ⟨fuel, rfl⟩ : ∃ n, fuel = (s.kinds ++ ks).length + n :=
    ⟨fuel - (s.kinds ++ ks).length, by omega⟩
  obtain ⟨ts, hts, hread⟩ := hgives.readFrom hend fuel
  have hnone : s₁.readFrom fuel = [] := by
    cases fuel with
    | zero => rfl
    | succ fuel =>
      have hnext : s₁.next? (s₁.cursor.limit + 4) = none := by
        rw [next?_fetch _ (Nat.le_of_eq hlen), hfetch, Option.bind_none]
      rw [Scanner.readFrom, hnext]
  rw [hread, hnone, List.append_nil, hts]

/-- The end of the text is found again as long as tokens wait. -/
theorem advances_again (hs : s.Idle (-1) []) (hlen : s.queue.length = 2)
    (h : s.cursor.Stands [] m) (hm : m.column = 0) :
    ∃ s', s.Advances [.streamEnd] s' ∧ s'.Idle (-1) [] ∧ s'.cursor.Stands [] m := by
  obtain ⟨s₁, hfetch, hs₁, h₁, hkinds⟩ := fetch_again hs h hm
  obtain ⟨n, hadvances⟩ := advances_fetch hlen hfetch hs₁ (by simp) hkinds
  exact ⟨s₁.dropped n, hadvances, hs₁.dropped n, h₁⟩

/-- The end of the text ends the blocks. -/
theorem reads_end (hs : s.Idle 4 [0, -1]) (hlen : s.queue.length = 2) (hdue : s.Due 0 [])
    (hend : .streamEnd ∉ s.kinds) : s.Reads [.blockEnd, .blockEnd, .streamEnd] := by
  intro fuel hfuel
  obtain ⟨s₁, m, hfetch, hs₁, h₁, hm, hkinds₁⟩ := fetch_end hs hdue
  obtain ⟨n, hlast⟩ := advances_fetch hlen hfetch hs₁ (by simp) hkinds₁
  -- The end is found twice more before it is taken itself.
  obtain ⟨s₂, hagain, hs₂, h₂⟩ := advances_again (hs₁.dropped n) hlast.1 h₁ hm
  obtain ⟨s₃, honce, -, -⟩ := advances_again hs₂ hagain.1 h₂ hm
  obtain ⟨hlen₃, gs, hgives, hkinds⟩ := (hlast.trans hagain).trans honce
  have hall : gs ++ s₃.kinds = (s.kinds ++ [TokenKind.blockEnd, .blockEnd] ++ [.streamEnd]) ++
      [.streamEnd, .streamEnd] := by
    simpa using hkinds
  obtain ⟨rfl, -⟩ := List.append_inj' hall (by simp [kinds, hlen₃])
  obtain ⟨more, rfl⟩ : ∃ n, fuel = (s.kinds ++ [TokenKind.blockEnd, .blockEnd]).length + 1 + n := by
    refine ⟨fuel - (s.kinds.length + 3), ?_⟩
    simp only [List.length_append, List.length_cons, List.length_nil] at hfuel ⊢
    omega
  rw [hgives.readFrom_end (by simpa using hend)]
  simp

end Birdcall.Yaml.Scanner
