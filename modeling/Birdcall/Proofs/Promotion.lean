import Birdcall.Proofs.Filing
import Mathlib.Algebra.BigOperators.Group.List.Basic

/-!
# Promotion

The first executions of a program, as many as the threshold says, are cold.  The next one is warm
and leaves an artifact, and all later ones run it.  This module proves that of every history of a
cache, and that the statistics add up over the entries.

* Entries.  `Entry.Staged` says how far an entry has come by its count, and `Admission.due` what is
  decided at its next execution.  `Entering.staged` and `Entering.eq_due` are about one execution.
* Statistics.  `Cache.Tallied` has each number as a sum over the entries.  Entering adds to one sum
  what it adds to the number, and `Tallied.enter` goes through the three tiers.
* Histories.  An entry's count is the number of times it was entered (`History.countAt_eq`), so
  `promotion_by_count` can speak of the entering itself.
-/

namespace Birdcall

/-! ## Entries -/

/-- What is decided at the `k`-th execution of a program. -/
def Admission.due (threshold : Nat) (key : UInt64) (p : Program) (k : Nat) : Admission where
  key := key
  tier := if k ≤ threshold then .cold else if k = threshold + 1 then .warm else .compiled
  artifact := if k ≤ threshold + 1 then none else some p.compile
  count := k

namespace Entry

/-- How far an entry has come: it is cold up to the threshold, and promoted past it. -/
inductive Staged (threshold : Nat) (e : Entry) : Prop
  | cold (htier : e.tier = .cold) (hart : e.artifact = none) (hcount : e.count ≤ threshold)
  | compiled (htier : e.tier = .compiled) (hart : e.artifact = some e.program.compile)
      (hcount : threshold < e.count)

namespace Staged

variable {threshold : Nat} {e : Entry}

theorem new (key : UInt64) (p : Program) : (Entry.new key p).Staged threshold :=
  .cold rfl rfl (Nat.zero_le _)

theorem count_le (h : e.Staged threshold) (hart : e.artifact = none) : e.count ≤ threshold := by
  cases h with
  | cold _ _ hcount => exact hcount
  | compiled _ hsome _ => rw [hart] at hsome; cases hsome

theorem lt_count (h : e.Staged threshold) {art : Artifact} (hart : e.artifact = some art) :
    threshold < e.count ∧ art = e.program.compile := by
  cases h with
  | cold _ hnone _ => rw [hart] at hnone; cases hnone
  | compiled _ hsome hcount => exact ⟨hcount, Option.some.inj (hart.symm.trans hsome)⟩

end Staged

namespace Entering

variable {threshold : Nat} {e e' : Entry} {a : Admission}

theorem staged (he : e.Staged threshold) (h : Entering threshold e a e') :
    e'.Staged threshold := by
  cases h with
  | cold hart hcount =>
    cases he with
    | cold htier _ _ => exact .cold htier hart hcount
    | compiled _ hsome _ => rw [hart] at hsome; cases hsome
  | warm hart hcount => exact .compiled rfl rfl hcount
  | compiled hart =>
    cases he with
    | cold _ hnone _ => rw [hart] at hnone; cases hnone
    | compiled htier hsome hcount => exact .compiled htier hsome (Nat.lt_succ_of_lt hcount)

/-- What is decided depends only on which execution it is. -/
theorem eq_due (he : e.Staged threshold) (h : Entering threshold e a e') :
    a = .due threshold e.key e.program (e.count + 1) := by
  cases h with
  | cold hart hcount => simp [Admission.due, hcount, Nat.le_succ_of_le hcount]
  | warm hart hcount =>
    -- It was not promoted yet, so this is the first execution past the threshold.
    obtain rfl : e.count = threshold := by
      have := he.count_le hart
      omega
    simp [Admission.due]
  | compiled hart =>
    obtain ⟨hlt, rfl⟩ := he.lt_count hart
    have hcold : ¬ e.count + 1 ≤ threshold := by omega
    have hwarm : ¬ e.count + 1 = threshold + 1 := by omega
    have hnone : ¬ e.count + 1 ≤ threshold + 1 := by omega
    simp only [Admission.due, hcold, hwarm, hnone, if_false]

end Entering

/-! ## Statistics -/

/-- How many of an entry's executions were interpreted. -/
def interpretations (threshold : Nat) (e : Entry) : Nat := min e.count (threshold + 1)

/-- How many of an entry's executions ran its artifact. -/
def invocations (threshold : Nat) (e : Entry) : Nat := e.count - (threshold + 1)

/-- How often an entry was promoted. -/
def promotions (threshold : Nat) (e : Entry) : Nat := if threshold < e.count then 1 else 0

namespace Entering

variable {threshold : Nat} {e e' : Entry} {a : Admission}

/-- An execution adds to the numbers of its entry what its tier says. -/
theorem numbers_eq (he : e.Staged threshold) (h : Entering threshold e a e') :
    e'.interpretations threshold =
        e.interpretations threshold + (if a.tier = .compiled then 0 else 1) ∧
      e'.invocations threshold = e.invocations threshold + (if a.tier = .compiled then 1 else 0) ∧
      e'.promotions threshold = e.promotions threshold + (if a.tier = .warm then 1 else 0) := by
  simp only [interpretations, invocations, promotions]
  cases h with
  | cold hart hcount =>
    have hbefore : ¬ threshold < e.count := by omega
    have hafter : ¬ threshold < e.count + 1 := by omega
    simp only [hbefore, hafter, reduceCtorEq, if_false, and_true]
    omega
  | warm hart hcount =>
    have hbefore : ¬ threshold < e.count := Nat.not_lt.2 (he.count_le hart)
    simp only [hbefore, hcount, reduceCtorEq, if_true, if_false, and_true]
    omega
  | compiled hart =>
    obtain ⟨hbefore, -⟩ := he.lt_count hart
    have hafter : threshold < e.count + 1 := by omega
    simp only [hbefore, hafter, reduceCtorEq, if_true, if_false, and_true]
    omega

end Entering
end Entry

namespace Cache

/-- The sum of a number over all entries. -/
def total (c : Cache) (f : Entry → Nat) : Nat := (c.entries.map f).sum

theorem total_lookup (c : Cache) (p : Program) {f : Entry → Nat}
    (hf : f (.new (c.digest p) p) = 0) : (c.lookup p).2.total f = c.total f := by
  rcases c.lookup_cases p with ⟨_, _, hlookup, _⟩ | ⟨_, hlookup⟩
  · rw [hlookup]
  · rw [hlookup, total, total, ((c.entries_add p).map f).sum_eq, List.map_cons, List.sum_cons, hf,
      Nat.zero_add]

/-- Replacing an entry changes a sum by what it changes that entry's part. -/
theorem total_setEntry {c : Cache} {r : EntryRef} {e e' : Entry} (he : c.entryAt? r = some e)
    {f : Entry → Nat} {n : Nat} (hf : f e' = f e + n) :
    (c.setEntry r e').total f = c.total f + n := by
  obtain ⟨rest, hold, hnew⟩ := entries_setEntry he e'
  rw [total, total, (hold.map f).sum_eq, (hnew.map f).sum_eq, List.map_cons, List.map_cons,
    List.sum_cons, List.sum_cons, hf]
  omega

/-- The promotions of all entries are the entries past the threshold. -/
theorem total_promotions (c : Cache) (threshold : Nat) :
    c.total (·.promotions threshold) = c.entries.countP (threshold < ·.count) := by
  rw [total]
  induction c.entries with
  | nil => rfl
  | cons e es ih =>
    rw [List.map_cons, List.sum_cons, ih, List.countP_cons, Nat.add_comm]
    simp [Entry.promotions]

/-- Looking up a program counts nothing. -/
theorem lookup_numbers (c : Cache) (p : Program) :
    (c.lookup p).2.threshold = c.threshold ∧ (c.lookup p).2.interpreted = c.interpreted ∧
      (c.lookup p).2.compiled = c.compiled ∧ (c.lookup p).2.promotions = c.promotions := by
  rcases c.lookup_cases p with ⟨_, _, hlookup, _⟩ | ⟨_, hlookup⟩
  · rw [hlookup]
    exact ⟨rfl, rfl, rfl, rfl⟩
  · rw [hlookup]
    exact ⟨rfl, rfl, rfl, rfl⟩

theorem tally_numbers (c : Cache) (t : Tier) :
    (c.tally t).threshold = c.threshold ∧
      (c.tally t).interpreted = c.interpreted + (if t = .compiled then 0 else 1) ∧
      (c.tally t).compiled = c.compiled + (if t = .compiled then 1 else 0) ∧
      (c.tally t).promotions = c.promotions + (if t = .warm then 1 else 0) := by
  cases t <;> exact ⟨rfl, rfl, rfl, rfl⟩

/-- A cache whose entries are as far as their counts say, and whose numbers are sums over them. -/
structure Tallied (threshold : Nat) (c : Cache) : Prop where
  threshold_eq : c.threshold = threshold
  staged : ∀ e ∈ c.entries, e.Staged threshold
  interpreted : c.interpreted = c.total (·.interpretations threshold)
  compiled : c.compiled = c.total (·.invocations threshold)
  promotions : c.promotions = c.total (·.promotions threshold)

theorem tallied_new (digest : Program → UInt64) (threshold : Int) :
    (new digest threshold).Tallied threshold.toNat :=
  ⟨rfl, fun _ he => absurd he List.not_mem_nil, rfl, rfl, rfl⟩

namespace Tallied

variable {threshold : Nat} {c : Cache}

theorem lookup (h : c.Tallied threshold) (p : Program) : (c.lookup p).2.Tallied threshold := by
  obtain ⟨hthreshold, hinterpreted, hcompiled, hpromotions⟩ := c.lookup_numbers p
  refine ⟨hthreshold.trans h.threshold_eq, ?_, ?_, ?_, ?_⟩
  · intro e he
    rcases c.lookup_cases p with ⟨_, _, hlookup, _⟩ | ⟨_, hlookup⟩
    · rw [hlookup] at he
      exact h.staged e he
    · rw [hlookup] at he
      rcases List.mem_cons.1 ((c.entries_add p).mem_iff.1 he) with rfl | he
      · exact .new _ _
      · exact h.staged e he
  · rw [hinterpreted, h.interpreted, total_lookup c p (Nat.zero_min _)]
  · rw [hcompiled, h.compiled, total_lookup c p (Nat.zero_sub _)]
  · rw [hpromotions, h.promotions, total_lookup c p (if_neg (Nat.not_lt_zero _))]

theorem staged_of_found (h : c.Tallied threshold) {r : EntryRef} {e : Entry}
    (he : c.entryAt? r = some e) : e.Staged threshold :=
  h.staged e (mem_entries_of_mem_bucket (List.mem_of_getElem? he))

theorem enter (h : c.Tallied threshold) {r : EntryRef} {e e' : Entry} {a : Admission}
    (he : c.entryAt? r = some e) (hentering : Entry.Entering threshold e a e') :
    ((c.setEntry r e').tally a.tier).Tallied threshold := by
  obtain ⟨hthreshold, hinterpreted, hcompiled, hpromotions⟩ :=
    (c.setEntry r e').tally_numbers a.tier
  obtain ⟨hinterpretations, hinvocations, hpromoted⟩ :=
    hentering.numbers_eq (h.staged_of_found he)
  refine ⟨hthreshold.trans h.threshold_eq, ?_, ?_, ?_, ?_⟩
  · intro f hf
    obtain ⟨rest, hold, hnew⟩ := entries_setEntry he e'
    rw [entries_tally] at hf
    rcases List.mem_cons.1 (hnew.mem_iff.1 hf) with rfl | hf
    · exact hentering.staged (h.staged_of_found he)
    · exact h.staged f (hold.mem_iff.2 (List.mem_cons_of_mem _ hf))
  · rw [hinterpreted, total, entries_tally, ← total, total_setEntry he hinterpretations,
      ← h.interpreted, setEntry]
  · rw [hcompiled, total, entries_tally, ← total, total_setEntry he hinvocations, ← h.compiled,
      setEntry]
  · rw [hpromotions, total, entries_tally, ← total, total_setEntry he hpromoted, ← h.promotions,
      setEntry]

end Tallied

/-! ## Histories -/

/-- How often the entry at a place was executed; none there counts as never. -/
def countAt (c : Cache) (r : EntryRef) : Nat := (Option.map (·.count) <| c.entryAt? r).getD 0

theorem Step.tallied {c c' : Cache} {x : Happening} {threshold : Nat} (h : Step c x c')
    (hsound : c.Sound) (htallied : c.Tallied threshold) : c'.Tallied threshold := by
  cases h with
  | lookup p => exact htallied.lookup p
  | enter hok =>
    obtain ⟨e, e', he, hentering, rfl⟩ := enter_cases hsound hok
    exact htallied.enter he (htallied.threshold_eq ▸ hentering)

/-- Only entering an entry counts on it. -/
theorem Step.countAt_eq {c c' : Cache} {x : Happening} (h : Step c x c') (hsound : c.Sound)
    (r : EntryRef) : c'.countAt r = c.countAt r + enters r [x] := by
  cases he : c.entryAt? r with
  | some e =>
    obtain ⟨e', he', -, -, hcount⟩ := h.entryAt?_later hsound he
    simp [countAt, he, he', hcount]
  | none =>
    cases h with
    | lookup p =>
      cases he' : Cache.entryAt? (c.lookup p).2 r with
      | none => simp [countAt, he, he', enters]
      | some e' =>
        rcases entryAt?_of_lookup he' with hthere | ⟨-, rfl⟩
        · rw [he] at hthere
          cases hthere
        · simp [countAt, he, he', enters, Entry.new]
    | @enter s a _ hok =>
      obtain ⟨f, f', hf, -, rfl⟩ := enter_cases hsound hok
      have hne : r ≠ s := by
        rintro rfl
        rw [he] at hf
        cases hf
      simp [countAt, entryAt?_setEntry hf, hne, he, enters, Ne.symm hne]

namespace History

variable {c c' : Cache} {hs : List Happening}

theorem tallied {threshold : Nat} (h : History c hs c') (hsound : c.Sound)
    (htallied : c.Tallied threshold) : c'.Tallied threshold := by
  induction h with
  | start => exact htallied
  | step h hstep ih => exact hstep.tallied (h.sound hsound) ih

theorem countAt_eq (h : History c hs c') (hsound : c.Sound) (r : EntryRef) :
    c'.countAt r = c.countAt r + enters r hs := by
  induction h with
  | start => rfl
  | @step hs x _ _ h hstep ih =>
    rw [hstep.countAt_eq (h.sound hsound), ih, enters_cons r x hs]
    omega

/-- In a cache that was new, an entry counts how often it was entered. -/
theorem count_eq {digest : Program → UInt64} {threshold : Int}
    (h : History (new digest threshold) hs c) {r : EntryRef} {e : Entry}
    (he : c.entryAt? r = some e) : e.count = enters r hs := by
  have hcount := h.countAt_eq (sound_new digest threshold) r
  have hzero : (new digest threshold).countAt r = 0 := rfl
  rw [hzero, countAt, he] at hcount
  simpa using hcount

/-- A history can be cut at each of its steps. -/
theorem split {later earlier : List Happening} {x : Happening}
    (h : History c (later ++ x :: earlier) c') :
    ∃ c₁ c₂, History c earlier c₁ ∧ Step c₁ x c₂ ∧ History c₂ later c' := by
  induction later generalizing c' with
  | nil =>
    cases h with
    | step h hstep => exact ⟨_, _, h, hstep, .start⟩
  | cons y later ih =>
    cases h with
    | step h hstep =>
      obtain ⟨c₁, c₂, hearlier, hx, hlater⟩ := ih h
      exact ⟨c₁, c₂, hearlier, hx, hlater.step hstep⟩

/-- Promotion goes by the count alone, and the statistics add up.

An entry that a program was given can always be entered, so no promotion fails.  The `k`-th time it
is entered gives the count `k`; it is cold up to the threshold, warm right past it, and from then on
runs the artifact of its program.  Between the steps an entry is cold without an artifact or
compiled with one, by its count.  The statistics are sums over the entries, and there are as many
entries as distinct programs were looked up. -/
theorem promotion_by_count {digest : Program → UInt64} {threshold : Int}
    (h : History (new digest threshold) hs c) :
    let T := (max threshold 0).toNat
    (∀ p r, .looked p r ∈ hs → ∃ a c', c.enter r = .ok (a, c')) ∧
    (∀ later earlier r a, hs = later ++ .entered r a :: earlier →
      ∃ p, .looked p r ∈ earlier ∧ a = .due T (digest p) p (enters r earlier + 1)) ∧
    (∀ r e, c.entryAt? r = some e → e.count = enters r hs ∧
      ((e.tier = .cold ∧ e.artifact = none ∧ e.count ≤ T) ∨
        (e.tier = .compiled ∧ e.artifact = some e.program.compile ∧ T < e.count))) ∧
    c.stats =
      { threshold := T
        entries := (lookedUp hs).toFinset.card
        interpreted := (c.entries.map fun e => min e.count (T + 1)).sum
        compiled := (c.entries.map fun e => e.count - (T + 1)).sum
        promotions := c.entries.countP (T < ·.count) } := by
  intro T
  have hT : T = threshold.toNat := by omega
  have hnew := sound_new digest threshold
  have htallied : c.Tallied T := hT ▸ h.tallied hnew (tallied_new digest threshold)
  refine ⟨?_, ?_, ?_, ?_⟩
  · intro p r hr
    obtain ⟨e, he, -⟩ := h.entryAt?_of_looked hnew hr
    obtain ⟨a, c', henter, -⟩ := (h.sound hnew).enter he
    exact ⟨a, c', henter⟩
  · rintro later earlier r a rfl
    obtain ⟨c₁, c₂, hearlier, hstep, -⟩ := h.split
    cases hstep with
    | enter henter =>
      have htallied₁ : c₁.Tallied T := hT ▸ hearlier.tallied hnew (tallied_new digest threshold)
      obtain ⟨e, e', he, hentering, -⟩ := enter_cases (hearlier.sound hnew) henter
      rw [htallied₁.threshold_eq] at hentering
      refine ⟨e.program, hearlier.looked_of_found he, ?_⟩
      have hkey := ((hearlier.filed hnew (filed_new digest threshold)).key_eq he).2
      rw [hearlier.digest_eq hnew] at hkey
      rw [hentering.eq_due (htallied₁.staged_of_found he), hkey, hearlier.count_eq he]
      rfl
  · intro r e he
    refine ⟨h.count_eq he, ?_⟩
    cases htallied.staged_of_found he with
    | cold htier hart hcount => exact .inl ⟨htier, hart, hcount⟩
    | compiled htier hart hcount => exact .inr ⟨htier, hart, hcount⟩
  · have hsize := (h.filed hnew (filed_new digest threshold)).size
    rw [stats, htallied.threshold_eq, htallied.interpreted, htallied.compiled, htallied.promotions,
      hsize, h.length_entries, total_promotions]
    rfl

/-- With the threshold one, a program is entered three times, once in each tier, while another one
of the same digest is entered once. -/
theorem promotion_by_count_once_each :
    let p : Program := [.print ⟨0⟩]
    let q : Program := [.run [102]]
    let entry (count : Nat) : Entry := ⟨7, p, count, some p.compile, .compiled⟩
    let c₀ := (((new (fun _ => 7) 1).lookup p).2.lookup q).2
    let c₁ := (c₀.setEntry ⟨7, 0⟩ ⟨7, p, 1, none, .cold⟩).tally .cold
    let c₂ := (c₁.setEntry ⟨7, 1⟩ ⟨7, q, 1, none, .cold⟩).tally .cold
    let c₃ := (c₂.setEntry ⟨7, 0⟩ (entry 2)).tally .warm
    let c₄ := (c₃.setEntry ⟨7, 0⟩ (entry 3)).tally .compiled
    let hs : List Happening :=
      [.entered ⟨7, 0⟩ ⟨7, .compiled, some p.compile, 3⟩, .entered ⟨7, 0⟩ ⟨7, .warm, none, 2⟩,
        .entered ⟨7, 1⟩ ⟨7, .cold, none, 1⟩, .entered ⟨7, 0⟩ ⟨7, .cold, none, 1⟩,
        .looked q ⟨7, 1⟩, .looked p ⟨7, 0⟩]
    History (new (fun _ => 7) 1) hs c₄ ∧
      (∀ p r, .looked p r ∈ hs → ∃ a c', c₄.enter r = .ok (a, c')) ∧
      (∀ later earlier r a, hs = later ++ .entered r a :: earlier →
        ∃ p, .looked p r ∈ earlier ∧ a = .due 1 7 p (enters r earlier + 1)) ∧
      c₄.stats = ⟨1, 2, 3, 1, 1⟩ := by
  intro p q entry c₀ c₁ c₂ c₃ c₄ hs
  have h : History (new (fun _ => 7) 1) hs c₄ :=
    (((((History.start.step (.lookup p)).step (.lookup q)).step (.enter rfl)).step
      (.enter rfl)).step (.enter rfl)).step (.enter rfl)
  obtain ⟨henter, hdue, -, -⟩ := promotion_by_count h
  exact ⟨h, henter, hdue, rfl⟩

end History
end Cache
end Birdcall
