import Birdcall.Proofs.Cache
import Mathlib.Algebra.Ring.Nat
import Mathlib.Data.Finset.Card

/-!
# Where entries are filed

A cache has one entry per distinct program, whatever the digest.  This module proves that of every
cache that comes from a new one by looking up programs and entering entries, in any order and on
behalf of anyone (`Cache.History`).

There are four groups.

* Entries as a list.  A step of a cache adds one entry or replaces one.  `entries_setBucket` says so
  up to the order of the list, which is all that sums and counts over the entries need.
* Entries by place.  `entryAt?_lookup` and `entryAt?_setEntry` say what is where after a step.
* The order of the files.  `Cache.Filed` is the invariant, and `Filed.lookup`, `Filed.setEntry` and
  `Filed.tally` keep it.
* Histories.  `History.filed` and `History.entryAt?_later` go along a history, and
  `content_addressed` puts together what they say.
-/

namespace Birdcall

namespace Cache

/-! ## Entries as a list -/

/-- The entries of some buckets. -/
def entriesOf (buckets : List Bucket) : List Entry := buckets.flatMap (·.entries)

/-- All entries of a cache. -/
def entries (c : Cache) : List Entry := entriesOf c.buckets

/-- Replacing the entries of a key leaves all others as they are. -/
theorem entries_setBucket {c d : Cache} {key : UInt64} {es : List Entry}
    (h : d.buckets = setBucket key es c.buckets) :
    ∃ rest, c.entries.Perm (c.bucket key ++ rest) ∧ d.entries.Perm (es ++ rest) := by
  rw [entries, entries, bucket, h]
  generalize c.buckets = buckets
  induction buckets with
  | nil => exact ⟨[], by simp [entriesOf], by simp [entriesOf, setBucket]⟩
  | cons b buckets ih =>
    by_cases hb : b.key = key
    · refine ⟨entriesOf buckets, ?_, ?_⟩
      · simp [entriesOf, hb]
      · simp [entriesOf, setBucket, hb]
    · obtain ⟨rest, hold, hnew⟩ := ih
      refine ⟨b.entries ++ rest, ?_, ?_⟩
      · simp only [entriesOf, List.flatMap_cons, List.find?_cons, hb, decide_false]
        exact (hold.append_left b.entries).trans (List.perm_append_comm_assoc _ _ _)
      · simp only [entriesOf, setBucket, hb, if_false, List.flatMap_cons]
        exact (hnew.append_left b.entries).trans (List.perm_append_comm_assoc _ _ _)

/-- The cache with a new entry for a program. -/
def add (c : Cache) (p : Program) : Cache :=
  { c with
    buckets :=
      setBucket (c.digest p) (c.bucket (c.digest p) ++ [.new (c.digest p) p]) c.buckets
    size := c.size + 1 }

/-- Replacing one entry leaves all others as they are. -/
theorem entries_setEntry {c : Cache} {r : EntryRef} {e : Entry} (he : c.entryAt? r = some e)
    (e' : Entry) :
    ∃ rest, c.entries.Perm (e :: rest) ∧ (c.setEntry r e').entries.Perm (e' :: rest) := by
  obtain ⟨rest, hold, hnew⟩ := entries_setBucket (c := c) (d := c.setEntry r e') rfl
  obtain ⟨hlt, hget⟩ := List.getElem?_eq_some_iff.1 he
  have hsplit : c.bucket r.key =
      (c.bucket r.key).take r.slot ++ e :: (c.bucket r.key).drop (r.slot + 1) := by
    rw [← hget, List.cons_getElem_drop_succ, List.take_append_drop]
  refine ⟨(c.bucket r.key).take r.slot ++ (c.bucket r.key).drop (r.slot + 1) ++ rest, ?_, ?_⟩
  · refine hold.trans ?_
    rw [← List.cons_append]
    refine List.Perm.append_right rest ?_
    nth_rewrite 1 [hsplit]
    exact List.perm_middle
  · refine hnew.trans ?_
    rw [← List.cons_append, List.set_eq_take_append_cons_drop, if_pos hlt]
    exact List.Perm.append_right rest List.perm_middle

/-- A program that is added comes to the entries there are. -/
theorem entries_add (c : Cache) (p : Program) :
    (c.add p).entries.Perm (.new (c.digest p) p :: c.entries) := by
  obtain ⟨rest, hold, hnew⟩ := entries_setBucket (c := c) (d := c.add p) rfl
  refine hnew.trans ?_
  rw [List.append_assoc]
  exact List.perm_middle.trans (hold.symm.cons _)

@[simp]
theorem entries_tally (c : Cache) (t : Tier) : (c.tally t).entries = c.entries := by
  cases t <;> rfl

theorem mem_bucket {c : Cache} {key : UInt64} {e : Entry} (h : e ∈ c.bucket key) :
    ∃ b ∈ c.buckets, b.key = key ∧ e ∈ b.entries := by
  rw [bucket] at h
  cases hfind : c.buckets.find? (·.key = key) with
  | none =>
    rw [hfind] at h
    cases h
  | some b =>
    rw [hfind] at h
    exact ⟨b, List.mem_of_find?_eq_some hfind, by simpa using List.find?_some hfind, h⟩

theorem mem_entries_of_mem_bucket {c : Cache} {key : UInt64} {e : Entry} (h : e ∈ c.bucket key) :
    e ∈ c.entries := by
  obtain ⟨b, hb, _, he⟩ := mem_bucket h
  exact List.mem_flatMap.2 ⟨b, hb, he⟩

/-! ## Entries by place -/

/-- The ways a program is looked up: it is found, or an entry is made for it. -/
theorem lookup_cases (c : Cache) (p : Program) :
    (∃ slot e, c.lookup p = (⟨c.digest p, slot⟩, c) ∧
      c.entryAt? ⟨c.digest p, slot⟩ = some e ∧ e.program = p) ∨
    (∀ e ∈ c.bucket (c.digest p), e.program ≠ p) ∧
      c.lookup p = (⟨c.digest p, (c.bucket (c.digest p)).length⟩, c.add p) := by
  rw [lookup]
  cases hfind : (c.bucket (c.digest p)).findIdx? (·.program = p) with
  | some slot =>
    obtain ⟨hlt, hprogram, _⟩ := List.findIdx?_eq_some_iff_getElem.1 hfind
    exact .inl ⟨slot, _, rfl, List.getElem?_eq_getElem hlt, of_decide_eq_true hprogram⟩
  | none =>
    refine .inr ⟨fun e he => ?_, rfl⟩
    simpa using List.findIdx?_eq_none_iff.1 hfind e he

theorem lookup_digest (c : Cache) (p : Program) : (c.lookup p).2.digest = c.digest := by
  rcases c.lookup_cases p with ⟨_, _, hlookup, _⟩ | ⟨_, hlookup⟩
  · rw [hlookup]
  · rw [hlookup, add]

@[simp]
theorem tally_digest (c : Cache) (t : Tier) : (c.tally t).digest = c.digest := by
  cases t <;> rfl

/-- Looking up a program moves no entry. -/
theorem entryAt?_lookup {c : Cache} {r : EntryRef} {e : Entry} (he : c.entryAt? r = some e)
    (p : Program) : Cache.entryAt? (c.lookup p).2 r = some e := by
  rcases c.lookup_cases p with ⟨_, _, hlookup, _⟩ | ⟨_, hlookup⟩
  · rw [hlookup]
    exact he
  · rw [hlookup]
    simp only [entryAt?, add] at he ⊢
    rw [bucket_setBucket rfl]
    split
    · rename_i hkey
      rw [hkey] at he
      rw [List.getElem?_append_left (List.getElem?_eq_some_iff.1 he).1, he]
    · exact he

/-- The only entry that looking up a program can add is the one it gives. -/
theorem entryAt?_of_lookup {c : Cache} {p : Program} {r : EntryRef} {e : Entry}
    (he : Cache.entryAt? (c.lookup p).2 r = some e) :
    c.entryAt? r = some e ∨ r = (c.lookup p).1 ∧ e = .new (c.digest p) p := by
  rcases c.lookup_cases p with ⟨_, _, hlookup, _⟩ | ⟨_, hlookup⟩
  · rw [hlookup] at he
    exact .inl he
  · rw [hlookup] at he ⊢
    obtain ⟨key, slot⟩ := r
    simp only [entryAt?, add] at he ⊢
    rw [bucket_setBucket rfl] at he
    split at he
    · rename_i hkey
      subst hkey
      by_cases hslot : slot < (c.bucket (c.digest p)).length
      · rw [List.getElem?_append_left hslot] at he
        exact .inl he
      · rw [List.getElem?_append_right (by omega)] at he
        obtain ⟨hzero, hnew⟩ := List.getElem?_eq_some_iff.1 he
        simp only [List.length_singleton] at hzero
        refine .inr ⟨?_, by simpa using hnew.symm⟩
        have : slot = (c.bucket (c.digest p)).length := by omega
        rw [this]
    · exact .inl he

/-- An entry that is replaced is the only one that changes. -/
theorem entryAt?_setEntry {c : Cache} {r : EntryRef} {e : Entry} (he : c.entryAt? r = some e)
    (e' : Entry) (s : EntryRef) :
    Cache.entryAt? (c.setEntry r e') s = if s = r then some e' else c.entryAt? s := by
  have hlt : r.slot < (c.bucket r.key).length := (List.getElem?_eq_some_iff.1 he).1
  obtain ⟨key, slot⟩ := r
  obtain ⟨key', slot'⟩ := s
  simp only [entryAt?, EntryRef.mk.injEq] at hlt ⊢
  rw [bucket_setBucket rfl]
  by_cases hkey : key' = key
  · subst hkey
    by_cases hslot : slot = slot'
    · subst hslot
      simp [List.getElem?_set_self hlt]
    · simp [List.getElem?_set_ne hslot, Ne.symm hslot]
  · simp [hkey]

@[simp]
theorem entryAt?_tally (c : Cache) (t : Tier) (r : EntryRef) :
    Cache.entryAt? (c.tally t) r = c.entryAt? r := by
  cases t <;> rfl

/-! ## The order of the files -/

/-- A cache with every entry in its place: there is one bucket a key, an entry lies in the bucket of
its program's digest, and no two entries are of the same program. -/
structure Filed (c : Cache) : Prop where
  keys : (c.buckets.map (·.key)).Nodup
  place : ∀ b ∈ c.buckets, ∀ e ∈ b.entries, b.key = c.digest e.program ∧ e.key = b.key
  programs : (c.entries.map (·.program)).Nodup
  size : c.size = c.entries.length

theorem filed_new (digest : Program → UInt64) (threshold : Int) : (new digest threshold).Filed :=
  ⟨.nil, fun _ hb => absurd hb List.not_mem_nil, .nil, rfl⟩

theorem mem_keys_setBucket {key k : UInt64} {es : List Entry} {buckets : List Bucket} :
    k ∈ (setBucket key es buckets).map (·.key) ↔ k = key ∨ k ∈ buckets.map (·.key) := by
  induction buckets with
  | nil => simp [setBucket]
  | cons b buckets ih =>
    rw [setBucket]
    split
    · rename_i hb
      simp [hb]
    · rw [List.map_cons, List.mem_cons, ih, List.map_cons, List.mem_cons]
      tauto

theorem nodup_keys_setBucket {key : UInt64} {es : List Entry} {buckets : List Bucket}
    (h : (buckets.map (·.key)).Nodup) : ((setBucket key es buckets).map (·.key)).Nodup := by
  induction buckets with
  | nil => simp [setBucket]
  | cons b buckets ih =>
    obtain ⟨hb, hrest⟩ := List.nodup_cons.1 h
    rw [setBucket]
    split
    · rename_i hkey
      exact List.nodup_cons.2 ⟨hkey ▸ hb, hrest⟩
    · rename_i hkey
      refine List.nodup_cons.2 ⟨fun hmem => ?_, ih hrest⟩
      rcases mem_keys_setBucket.1 hmem with heq | hmem
      · exact hkey heq
      · exact hb hmem

theorem mem_setBucket {key : UInt64} {es : List Entry} {buckets : List Bucket} {b : Bucket}
    (h : b ∈ setBucket key es buckets) : b = ⟨key, es⟩ ∨ b ∈ buckets := by
  induction buckets with
  | nil => exact .inl (List.mem_singleton.1 h)
  | cons b' buckets ih =>
    rw [setBucket] at h
    split at h
    · rcases List.mem_cons.1 h with rfl | h
      · exact .inl rfl
      · exact .inr (List.mem_cons_of_mem _ h)
    · rcases List.mem_cons.1 h with rfl | h
      · exact .inr List.mem_cons_self
      · exact (ih h).imp_right (List.mem_cons_of_mem _)

namespace Filed

variable {c : Cache}

/-- What holds of every entry for its own bucket still holds with one bucket replaced. -/
theorem place_setBucket (h : c.Filed) {key : UInt64} {es : List Entry}
    (hes : ∀ e ∈ es, key = c.digest e.program ∧ e.key = key) :
    ∀ b ∈ setBucket key es c.buckets, ∀ e ∈ b.entries,
      b.key = c.digest e.program ∧ e.key = b.key := by
  intro b hb e he
  rcases mem_setBucket hb with rfl | hb
  · exact hes e he
  · exact h.place b hb e he

theorem of_mem_bucket (h : c.Filed) {key : UInt64} {e : Entry} (he : e ∈ c.bucket key) :
    key = c.digest e.program ∧ e.key = key := by
  obtain ⟨b, hb, rfl, hmem⟩ := mem_bucket he
  exact h.place b hb e hmem

/-- Every entry lies in the bucket of its program's digest. -/
theorem mem_bucket (h : c.Filed) {e : Entry} (he : e ∈ c.entries) :
    e ∈ c.bucket (c.digest e.program) := by
  obtain ⟨b, hb, hmem⟩ := List.mem_flatMap.1 he
  rw [← (h.place b hb e hmem).1]
  -- The bucket that is found under the key of `b` is `b`, since keys are all different.
  have hfind : c.buckets.find? (·.key = b.key) = some b := by
    obtain ⟨i, hlt, rfl⟩ := List.getElem_of_mem hb
    refine List.find?_eq_some_iff_getElem.2 ⟨by simp, i, hlt, rfl, fun j hj => ?_⟩
    have hne := List.pairwise_iff_getElem.1 h.keys j i (by simp; omega) (by simpa using hlt) hj
    simpa using hne
  simpa [bucket, hfind] using hmem

/-- A place is under the digest of the program there, and the entry knows it. -/
theorem key_eq (h : c.Filed) {r : EntryRef} {e : Entry} (he : c.entryAt? r = some e) :
    r.key = c.digest e.program ∧ e.key = c.digest e.program := by
  obtain ⟨hkey, hown⟩ := h.of_mem_bucket (List.mem_of_getElem? he)
  exact ⟨hkey, hown.trans hkey⟩

/-- A program has its entry in one place only. -/
theorem ref_unique (h : c.Filed) {r s : EntryRef} {e e' : Entry} (he : c.entryAt? r = some e)
    (he' : c.entryAt? s = some e') (hprogram : e.program = e'.program) : r = s := by
  have hkey : r.key = s.key := by
    rw [(h.key_eq he).1, (h.key_eq he').1, hprogram]
  -- Both lie in one bucket, whose programs are all different.
  have hbucket : ((c.bucket r.key).map (·.program)).Nodup := by
    obtain ⟨rest, hperm, -⟩ := entries_setBucket (c := c)
      (d := { c with buckets := setBucket r.key [] c.buckets }) rfl
    have hnodup := (hperm.map (·.program)).nodup_iff.1 h.programs
    rw [List.map_append] at hnodup
    exact hnodup.of_append_left
  have hr : ((c.bucket r.key).map (·.program))[r.slot]? = some e.program := by
    rw [List.getElem?_map, show (c.bucket r.key)[r.slot]? = some e from he]
    rfl
  have hs : ((c.bucket r.key).map (·.program))[s.slot]? = some e.program := by
    rw [List.getElem?_map, hkey, show (c.bucket s.key)[s.slot]? = some e' from he', hprogram]
    rfl
  have hslot : r.slot = s.slot :=
    (List.getElem?_inj (List.getElem?_eq_some_iff.1 hr).1 hbucket).1 (hr.trans hs.symm)
  cases r
  cases s
  simp_all

theorem lookup (h : c.Filed) (p : Program) : (c.lookup p).2.Filed := by
  rcases c.lookup_cases p with ⟨_, _, hlookup, _⟩ | ⟨hnew, hlookup⟩
  · rw [hlookup]
    exact h
  · rw [hlookup]
    have hmissing : p ∉ c.entries.map (·.program) := by
      intro hmem
      obtain ⟨e, he, rfl⟩ := List.mem_map.1 hmem
      exact hnew e (h.mem_bucket he) rfl
    have hperm := c.entries_add p
    refine ⟨nodup_keys_setBucket h.keys, h.place_setBucket ?_, ?_, ?_⟩
    · intro e he
      rcases List.mem_append.1 he with he | he
      · exact h.of_mem_bucket he
      · rw [List.mem_singleton.1 he]
        exact ⟨rfl, rfl⟩
    · exact (hperm.map (·.program)).nodup_iff.2 (List.nodup_cons.2 ⟨hmissing, h.programs⟩)
    · rw [hperm.length_eq, List.length_cons, ← h.size]
      rfl

theorem setEntry (h : c.Filed) {r : EntryRef} {e e' : Entry} (he : c.entryAt? r = some e)
    (hkey : e'.key = e.key) (hprogram : e'.program = e.program) : (c.setEntry r e').Filed := by
  obtain ⟨rest, hold, hnew⟩ := entries_setEntry he e'
  refine ⟨nodup_keys_setBucket h.keys, h.place_setBucket ?_, ?_, ?_⟩
  · intro f hf
    rcases List.mem_or_eq_of_mem_set hf with hf | rfl
    · exact h.of_mem_bucket hf
    · rw [hkey, hprogram]
      exact h.of_mem_bucket (List.mem_of_getElem? he)
  · have hbefore := (hold.map (·.program)).nodup_iff.1 h.programs
    rw [List.map_cons, ← hprogram, ← List.map_cons] at hbefore
    exact (hnew.map (·.program)).nodup_iff.2 hbefore
  · rw [hnew.length_eq, List.length_cons, ← List.length_cons, ← hold.length_eq]
    exact h.size

theorem tally (h : c.Filed) (t : Tier) : (c.tally t).Filed := by
  cases t <;> exact ⟨h.keys, h.place, h.programs, h.size⟩

end Filed

end Cache

namespace Entry.Entering

variable {threshold : Nat} {e e' : Entry} {a : Admission}

theorem key_eq (h : Entering threshold e a e') : e'.key = e.key := by
  cases h <;> rfl

theorem program_eq (h : Entering threshold e a e') : e'.program = e.program := by
  cases h <;> rfl

theorem count_eq (h : Entering threshold e a e') : e'.count = e.count + 1 := by
  cases h <;> rfl

end Entry.Entering

namespace Cache

/-- What entering an entry does: the ways are those of `Entry.Entering`. -/
theorem enter_cases {c c' : Cache} (h : c.Sound) {r : EntryRef} {a : Admission}
    (henter : c.enter r = .ok (a, c')) :
    ∃ e e', c.entryAt? r = some e ∧ Entry.Entering c.threshold e a e' ∧
      c' = (c.setEntry r e').tally a.tier := by
  cases he : c.entryAt? r with
  | none => simp [enter, he] at henter
  | some e =>
    obtain ⟨a', e', hspec, hentering⟩ := enter_spec h he
    rw [henter] at hspec
    cases hspec
    exact ⟨e, e', rfl, hentering, rfl⟩

/-! ## Histories -/

/-- Something that happened to a cache. -/
inductive Happening
  /-- A program was looked up, which gave this entry. -/
  | looked (p : Program) (r : EntryRef)
  /-- An entry was entered, which was decided like this. -/
  | entered (r : EntryRef) (a : Admission)

/-- One step of a cache: anyone may look up any program, and enter any entry that is there. -/
inductive Step (c : Cache) : Happening → Cache → Prop
  | lookup (p : Program) : Step c (.looked p (c.lookup p).1) (c.lookup p).2
  | enter {r : EntryRef} {a : Admission} {c' : Cache} (h : c.enter r = .ok (a, c')) :
      Step c (.entered r a) c'

/-- What can happen from a cache on, latest first, and the cache it leads to. -/
inductive History (c : Cache) : List Happening → Cache → Prop
  | start : History c [] c
  | step {hs : List Happening} {x : Happening} {c' c'' : Cache} (h : History c hs c')
      (hstep : Step c' x c'') : History c (x :: hs) c''

/-- The programs that were looked up. -/
def lookedUp (hs : List Happening) : List Program :=
  hs.filterMap fun
    | .looked p _ => some p
    | .entered .. => none

theorem mem_lookedUp {hs : List Happening} {p : Program} :
    p ∈ lookedUp hs ↔ ∃ r, .looked p r ∈ hs := by
  rw [lookedUp, List.mem_filterMap]
  constructor
  · rintro ⟨_ | _, hx, heq⟩
    · cases heq
      exact ⟨_, hx⟩
    · cases heq
  · rintro ⟨r, hr⟩
    exact ⟨_, hr, rfl⟩

/-- How often an entry was entered. -/
def enters (r : EntryRef) (hs : List Happening) : Nat :=
  hs.countP fun
    | .looked .. => false
    | .entered s _ => s = r

theorem enters_cons (r : EntryRef) (x : Happening) (hs : List Happening) :
    enters r (x :: hs) = enters r [x] + enters r hs := by
  rw [← List.singleton_append, enters, List.countP_append]
  rfl

namespace Step

variable {c c' : Cache} {x : Happening}

theorem sound (h : Step c x c') (hsound : c.Sound) : c'.Sound := by
  cases h with
  | lookup p => exact hsound.lookup p
  | enter hok =>
    obtain ⟨e, e', he, hentering, rfl⟩ := enter_cases hsound hok
    exact (hsound.setEntry _ (hentering.sound (hsound.entry he))).tally _

theorem digest_eq (h : Step c x c') (hsound : c.Sound) : c'.digest = c.digest := by
  cases h with
  | lookup p => exact lookup_digest c p
  | enter hok =>
    obtain ⟨e, e', he, hentering, rfl⟩ := enter_cases hsound hok
    exact tally_digest _ _

theorem filed (h : Step c x c') (hsound : c.Sound) (hfiled : c.Filed) : c'.Filed := by
  cases h with
  | lookup p => exact hfiled.lookup p
  | enter hok =>
    obtain ⟨e, e', he, hentering, rfl⟩ := enter_cases hsound hok
    exact (hfiled.setEntry he hentering.key_eq hentering.program_eq).tally _

/-- An entry stays where it is and goes on counting. -/
theorem entryAt?_later (h : Step c x c') (hsound : c.Sound) {r : EntryRef} {e : Entry}
    (he : c.entryAt? r = some e) :
    ∃ e', c'.entryAt? r = some e' ∧ e'.key = e.key ∧ e'.program = e.program ∧
      e'.count = e.count + enters r [x] := by
  cases h with
  | lookup p => exact ⟨e, entryAt?_lookup he p, rfl, rfl, rfl⟩
  | @enter s a _ hok =>
    obtain ⟨f, f', hf, hentering, rfl⟩ := enter_cases hsound hok
    rw [entryAt?_tally, entryAt?_setEntry hf]
    by_cases hr : r = s
    · subst hr
      obtain rfl : f = e := Option.some.inj (hf.symm.trans he)
      refine ⟨f', if_pos rfl, hentering.key_eq, hentering.program_eq, ?_⟩
      simp [hentering.count_eq, enters]
    · refine ⟨e, by rw [if_neg hr, he], rfl, rfl, ?_⟩
      simp [enters, Ne.symm hr]

/-- An entry was there before, or its program has just been looked up. -/
theorem entryAt?_earlier (h : Step c x c') (hsound : c.Sound) {r : EntryRef} {e : Entry}
    (he : c'.entryAt? r = some e) :
    (∃ e', c.entryAt? r = some e' ∧ e'.program = e.program) ∨ x = .looked e.program r := by
  cases h with
  | lookup p =>
    rcases entryAt?_of_lookup he with he | ⟨rfl, rfl⟩
    · exact .inl ⟨e, he, rfl⟩
    · exact .inr rfl
  | @enter s a _ hok =>
    obtain ⟨f, f', hf, hentering, rfl⟩ := enter_cases hsound hok
    rw [entryAt?_tally, entryAt?_setEntry hf] at he
    split at he
    · rename_i hr
      cases he
      exact .inl ⟨f, hr ▸ hf, hentering.program_eq.symm⟩
    · exact .inl ⟨e, he, rfl⟩

end Step

namespace History

variable {c c' : Cache} {hs : List Happening}

theorem sound (h : History c hs c') (hsound : c.Sound) : c'.Sound := by
  induction h with
  | start => exact hsound
  | step _ hstep ih => exact hstep.sound ih

theorem digest_eq (h : History c hs c') (hsound : c.Sound) : c'.digest = c.digest := by
  induction h with
  | start => rfl
  | step h hstep ih => exact (hstep.digest_eq (h.sound hsound)).trans ih

theorem filed (h : History c hs c') (hsound : c.Sound) (hfiled : c.Filed) : c'.Filed := by
  induction h with
  | start => exact hfiled
  | step h hstep ih => exact hstep.filed (h.sound hsound) ih

/-- An entry stays where it is and goes on counting. -/
theorem entryAt?_later (h : History c hs c') (hsound : c.Sound) {r : EntryRef} {e : Entry}
    (he : c.entryAt? r = some e) :
    ∃ e', c'.entryAt? r = some e' ∧ e'.key = e.key ∧ e'.program = e.program ∧
      e'.count = e.count + enters r hs := by
  induction h with
  | start => exact ⟨e, he, rfl, rfl, rfl⟩
  | @step hs x _ _ h hstep ih =>
    obtain ⟨f, hf, hkey, hprogram, hcount⟩ := ih
    obtain ⟨f', hf', hkey', hprogram', hcount'⟩ := hstep.entryAt?_later (h.sound hsound) hf
    refine ⟨f', hf', hkey'.trans hkey, hprogram'.trans hprogram, ?_⟩
    rw [enters_cons r x hs]
    omega

/-- The entry that a program was given is still there. -/
theorem entryAt?_of_looked (h : History c hs c') (hsound : c.Sound) {p : Program} {r : EntryRef}
    (hmem : .looked p r ∈ hs) : ∃ e, c'.entryAt? r = some e ∧ e.program = p := by
  induction h with
  | start => cases hmem
  | step h hstep ih =>
    rcases List.mem_cons.1 hmem with heq | hmem
    · subst heq
      cases hstep with
      | lookup => exact lookup_spec _ p
    · obtain ⟨e, he, hprogram⟩ := ih hmem
      obtain ⟨e', he', -, hprogram', -⟩ := hstep.entryAt?_later (h.sound hsound) he
      exact ⟨e', he', hprogram'.trans hprogram⟩

/-- In a cache that was new, every entry was made for a program that was looked up. -/
theorem looked_of_found {digest : Program → UInt64} {threshold : Int}
    (h : History (new digest threshold) hs c) {r : EntryRef} {e : Entry}
    (he : c.entryAt? r = some e) : .looked e.program r ∈ hs := by
  induction h generalizing e with
  | start => cases he
  | step h hstep ih =>
    rcases hstep.entryAt?_earlier (h.sound (sound_new digest threshold)) he with
      ⟨e', he', hprogram⟩ | rfl
    · exact List.mem_cons_of_mem _ (hprogram ▸ ih he')
    · exact List.mem_cons_self

/-- In a cache that was new, there is one entry for each program that was looked up. -/
theorem length_entries {digest : Program → UInt64} {threshold : Int}
    (h : History (new digest threshold) hs c) :
    c.entries.length = (lookedUp hs).toFinset.card := by
  have hsound := sound_new digest threshold
  have hfiled := h.filed hsound (filed_new digest threshold)
  have hprograms : (c.entries.map (·.program)).toFinset = (lookedUp hs).toFinset := by
    ext p
    rw [List.mem_toFinset, List.mem_toFinset]
    refine ⟨fun hp => ?_, fun hp => ?_⟩
    · obtain ⟨e, he, rfl⟩ := List.mem_map.1 hp
      obtain ⟨slot, hslot⟩ := List.mem_iff_getElem?.1 (hfiled.mem_bucket he)
      exact mem_lookedUp.2 ⟨_, h.looked_of_found (r := ⟨_, slot⟩) hslot⟩
    · obtain ⟨r, hr⟩ := mem_lookedUp.1 hp
      obtain ⟨e, he, rfl⟩ := h.entryAt?_of_looked hsound hr
      exact List.mem_map_of_mem (mem_entries_of_mem_bucket (List.mem_of_getElem? he))
  rw [← hprograms, List.toFinset_card_of_nodup hfiled.programs, List.length_map]

/-- A cache is addressed by content, whatever the digest.

Two programs are given the same entry if and only if they are equal, and it is an entry of theirs.
There is one bucket a key; every entry lies in the bucket of its program's digest, which is also the
key it gives, and no two entries are of equal programs.  The size counts the entries in all buckets,
and so the distinct programs that were looked up.  From then on, whatever happens, an entry keeps
its place and its program, and goes on counting where it was. -/
theorem content_addressed {digest : Program → UInt64} {threshold : Int}
    (h : History (new digest threshold) hs c) :
    (∀ p r q s, .looked p r ∈ hs → .looked q s ∈ hs → (r = s ↔ p = q)) ∧
    (∀ p r, .looked p r ∈ hs → ∃ e, c.entryAt? r = some e ∧ e.program = p) ∧
    (c.buckets.map (·.key)).Nodup ∧
    (∀ b ∈ c.buckets, ∀ e ∈ b.entries, b.key = digest e.program ∧ e.key = digest e.program) ∧
    (c.entries.map (·.program)).Nodup ∧
    c.size = (c.buckets.map (·.entries.length)).sum ∧
    c.size = (lookedUp hs).toFinset.card ∧
    ∀ more later, History c more later → ∀ r e, c.entryAt? r = some e →
      ∃ e', later.entryAt? r = some e' ∧ e'.key = e.key ∧ e'.program = e.program ∧
        e'.count = e.count + enters r more := by
  have hnew := sound_new digest threshold
  have hfiled := h.filed hnew (filed_new digest threshold)
  have hdigest : c.digest = digest := h.digest_eq hnew
  refine ⟨?_, fun p r => h.entryAt?_of_looked hnew, hfiled.keys, ?_, hfiled.programs, ?_, ?_, ?_⟩
  · intro p r q s hr hs
    obtain ⟨e, he, rfl⟩ := h.entryAt?_of_looked hnew hr
    obtain ⟨e', he', rfl⟩ := h.entryAt?_of_looked hnew hs
    refine ⟨?_, hfiled.ref_unique he he'⟩
    rintro rfl
    rw [Option.some.inj (he.symm.trans he')]
  · intro b hb e he
    obtain ⟨hkey, hown⟩ := hfiled.place b hb e he
    rw [hdigest] at hkey
    exact ⟨hkey, hown.trans hkey⟩
  · rw [hfiled.size, entries, entriesOf, List.length_flatMap]
  · rw [hfiled.size, h.length_entries]
  · intro more later hmore r e he
    exact hmore.entryAt?_later (h.sound hnew) he

/-- Two programs that share a digest are looked up.  Then one of them is entered and looked up
again, which finds the same entry. -/
theorem content_addressed_collision :
    let p : Program := [.print ⟨0⟩]
    let q : Program := [.print ⟨1⟩]
    let c₁ := (((new (fun _ => 7) 5).lookup p).2.lookup q).2
    let c₂ := (c₁.setEntry ⟨7, 0⟩ ⟨7, p, 1, none, .cold⟩).tally .cold
    let hs : List Happening :=
      [.looked p ⟨7, 0⟩, .entered ⟨7, 0⟩ ⟨7, .cold, none, 1⟩, .looked q ⟨7, 1⟩, .looked p ⟨7, 0⟩]
    History (new (fun _ => 7) 5) hs (c₂.lookup p).2 ∧
      (∀ p r q s, .looked p r ∈ hs → .looked q s ∈ hs → (r = s ↔ p = q)) ∧
      (c₂.lookup p).2.size = (lookedUp hs).toFinset.card ∧
      ((c₂.lookup p).2.entries.map (·.program)).Nodup := by
  intro p q c₁ c₂ hs
  have h : History (new (fun _ => 7) 5) hs (c₂.lookup p).2 :=
    (((History.start.step (.lookup p)).step (.lookup q)).step (.enter rfl)).step (.lookup p)
  obtain ⟨hsame, -, -, -, hprograms, -, hsize, -⟩ := content_addressed h
  exact ⟨h, hsame, hsize, hprograms⟩

end History
end Cache
end Birdcall
