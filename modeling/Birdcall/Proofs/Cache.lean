import Birdcall.Cache

/-!
# Entries and their artifacts

An entry of a cache is cold and has no artifact, or it has been promoted and holds the artifact of
its own program.  This module proves that every step of a cache keeps that, and says what each step
does.

* Buckets.  `bucket_setBucket` is what the other lemmas know of them.
* Entries.  `Entry.Entering` lists the ways an entry can be entered, and `Entry.enter_eq_ok` says
  that one of them happens; the promotion inside never fails.
* Caches.  `lookup_spec` finds the entry of the program asked for, whatever the digest, and
  `enter_spec` enters it.  `Sound.lookup` and `Sound.enter` say that the cache stays sound.
-/

namespace Birdcall

namespace Entry

/-- An entry that holds the artifact of its program if it was promoted, and none before. -/
def Sound (e : Entry) : Prop :=
  (e.tier = .cold ∧ e.artifact = none) ∨
    (e.tier = .compiled ∧ e.artifact = some e.program.compile)

theorem sound_new (key : UInt64) (p : Program) : (new key p).Sound :=
  .inl ⟨rfl, rfl⟩

/-- The ways an entry is entered: what is decided, and the entry afterwards. -/
inductive Entering (threshold : Nat) (e : Entry) : Admission → Entry → Prop
  | cold (hart : e.artifact = none) (hcount : e.count + 1 ≤ threshold) :
      Entering threshold e ⟨e.key, .cold, none, e.count + 1⟩ { e with count := e.count + 1 }
  | warm (hart : e.artifact = none) (hcount : threshold < e.count + 1) :
      Entering threshold e ⟨e.key, .warm, none, e.count + 1⟩
        { e with
          count := e.count + 1, artifact := some e.program.compile, tier := .compiled }
  | compiled {art : Artifact} (hart : e.artifact = some art) :
      Entering threshold e ⟨e.key, .compiled, some art, e.count + 1⟩
        { e with count := e.count + 1 }

/-- Entering never fails. -/
theorem enter_eq_ok {e : Entry} (he : e.Sound) (threshold : Nat) :
    ∃ a e', e.enter threshold = .ok (a, e') ∧ Entering threshold e a e' := by
  rcases he with ⟨htier, hart⟩ | ⟨htier, hart⟩
  · by_cases hcount : e.count + 1 ≤ threshold
    · refine ⟨_, _, ?_, .cold hart hcount⟩
      simp [enter, hart, hcount]
    · refine ⟨_, _, ?_, .warm hart (by omega)⟩
      simp [enter, hart, hcount, promote, fire, htier, bind, Except.bind, pure, Except.pure]
  · refine ⟨_, _, ?_, .compiled hart⟩
    simp [enter, hart]

namespace Entering

variable {threshold : Nat} {e e' : Entry} {a : Admission}

theorem sound (he : e.Sound) (h : Entering threshold e a e') : e'.Sound := by
  cases h with
  | cold hart hcount => exact he
  | warm hart hcount => exact .inr ⟨rfl, rfl⟩
  | compiled hart => exact he

/-- An artifact that is to be run is that of the program. -/
theorem artifact_eq (he : e.Sound) (h : Entering threshold e a e') (ha : a.tier = .compiled) :
    a.artifact = some e.program.compile := by
  cases h with
  | cold hart hcount => cases ha
  | warm hart hcount => cases ha
  | compiled hart =>
    rcases he with ⟨_, hnone⟩ | ⟨_, hsome⟩
    · rw [hnone] at hart
      cases hart
    · rw [← hsome, hart]

end Entering
end Entry

namespace Cache

/-! ## Buckets -/

/-- A bucket that was replaced holds its new entries, and the others are as before. -/
theorem bucket_setBucket {c d : Cache} {key : UInt64} {entries : List Entry}
    (h : d.buckets = setBucket key entries c.buckets) (k : UInt64) :
    d.bucket k = if k = key then entries else c.bucket k := by
  rw [bucket, bucket, h]
  generalize c.buckets = buckets
  induction buckets with
  | nil =>
    by_cases hk : k = key
    · simp [setBucket, hk]
    · simp [setBucket, hk, Ne.symm hk]
  | cons b rest ih =>
    by_cases hb : b.key = key
    · by_cases hk : k = key
      · simp [setBucket, hb, hk]
      · simp [setBucket, hb, hk, Ne.symm hk]
    · by_cases hk : b.key = k
      · have hne : k ≠ key := hk ▸ hb
        simp [setBucket, hk, hne]
      · simpa [setBucket, hb, hk] using ih

/-! ## Caches -/

/-- A cache whose entries are all sound. -/
def Sound (c : Cache) : Prop := ∀ key, ∀ e ∈ c.bucket key, e.Sound

theorem sound_new (digest : Program → UInt64) (threshold : Int) : (new digest threshold).Sound := by
  intro key e he
  cases he

theorem Sound.tally {c : Cache} (h : c.Sound) (t : Tier) : (c.tally t).Sound := by
  cases t <;> exact h

/-- Looking up a program finds an entry of that program, whatever other programs share its
digest. -/
theorem lookup_spec (c : Cache) (p : Program) :
    ∃ e, Cache.entryAt? (c.lookup p).2 (c.lookup p).1 = some e ∧ e.program = p := by
  simp only [lookup]
  split
  · rename_i slot hslot
    obtain ⟨hlt, hprogram, _⟩ := List.findIdx?_eq_some_iff_getElem.1 hslot
    exact ⟨_, List.getElem?_eq_getElem hlt, of_decide_eq_true hprogram⟩
  · refine ⟨.new (c.digest p) p, ?_, rfl⟩
    simp only [entryAt?]
    rw [bucket_setBucket rfl, if_pos rfl, List.getElem?_concat_length]

theorem Sound.lookup {c : Cache} (h : c.Sound) (p : Program) : (c.lookup p).2.Sound := by
  simp only [Cache.lookup]
  split
  · exact h
  · intro key e he
    simp only at he
    rw [bucket_setBucket rfl] at he
    split at he
    · rcases List.mem_append.1 he with he | he
      · exact h _ e he
      · rw [List.mem_singleton.1 he]
        exact Entry.sound_new _ _
    · exact h _ e he

theorem Sound.setEntry {c : Cache} (h : c.Sound) (r : EntryRef) {e : Entry} (he : e.Sound) :
    (c.setEntry r e).Sound := by
  intro key e' he'
  rw [bucket_setBucket rfl] at he'
  split at he'
  · rcases List.mem_or_eq_of_mem_set he' with he' | rfl
    · exact h _ e' he'
    · exact he
  · exact h _ e' he'

theorem Sound.entry {c : Cache} (h : c.Sound) {r : EntryRef} {e : Entry}
    (he : c.entryAt? r = some e) : e.Sound :=
  h _ e (List.mem_of_getElem? he)

/-- Entering an entry that is there does to it what `Entry.Entering` says, and counts it. -/
theorem enter_spec {c : Cache} (h : c.Sound) {r : EntryRef} {e : Entry}
    (he : c.entryAt? r = some e) :
    ∃ a e', c.enter r = .ok (a, (c.setEntry r e').tally a.tier) ∧
      Entry.Entering c.threshold e a e' := by
  obtain ⟨a, e', henter, hentering⟩ := Entry.enter_eq_ok (h.entry he) c.threshold
  refine ⟨a, e', ?_, hentering⟩
  simp only [enter, he, henter]
  rfl

/-- Entering an entry leaves a sound cache, and an artifact that is to be run is that of the
entry's program. -/
theorem Sound.enter {c : Cache} (h : c.Sound) {r : EntryRef} {e : Entry}
    (he : c.entryAt? r = some e) :
    ∃ a c', c.enter r = .ok (a, c') ∧ c'.Sound ∧
      (a.tier = .compiled → a.artifact = some e.program.compile) := by
  obtain ⟨a, e', henter, hentering⟩ := enter_spec h he
  have hsound : e'.Sound := hentering.sound (h.entry he)
  exact ⟨a, _, henter, (h.setEntry r hsound).tally a.tier, hentering.artifact_eq (h.entry he)⟩

end Cache
end Birdcall
