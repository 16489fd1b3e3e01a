import Birdcall.Proofs.Promotion
import Birdcall.Proofs.Turns
import Mathlib.Algebra.BigOperators.Group.Finset.Piecewise

/-!
# Crews

Workers that share a cache take turns in any order.  `Crew.Orderly` is what all of them keep up
together: each one is as far as its source running alone, no two print to the same memory, and the
cache accounts for all that was executed.

There are three groups.

* Accounts.  `Cache.Accounts` ties the entries of the cache to the workers: an entry counts how
  often its program was executed, by whomever, and one that was not executed yet has been found by a
  worker that is about to.  `Accounts.uses` keeps this, one case for each thing a turn does to the
  cache.
* Turns.  `Orderly.turn` is about one turn, and `Orderly.run` about all.  The latter brings all
  workers to their end, since each turn leaves a worker fewer turns.
* Ends.  With all workers ended, what was printed, what failed and what the statistics are follow
  from the sources alone.
-/

namespace Birdcall

open Worker (Located)

/-! ## Accounts -/

/-- The statistics of programs that were executed, each as often as it stands in the list. -/
def Stats.ofExecutions (threshold : Nat) (ps : List Program) : Stats where
  threshold := threshold
  entries := ps.toFinset.card
  interpreted := ∑ p ∈ ps.toFinset, min (ps.count p) (threshold + 1)
  compiled := ∑ p ∈ ps.toFinset, (ps.count p - (threshold + 1))
  promotions := (ps.toFinset.filter (threshold < ps.count ·)).card

/-- The programs that workers have executed, each as often as it was. -/
def Task.executed (t : Task) (workers : List Worker) : List Program :=
  workers.flatMap (·.executed t)

theorem Task.executed_middle (t : Task) (before after : List Worker) (w : Worker) :
    (t.executed (before ++ w :: after)).Perm (w.executed t ++ t.executed (before ++ after)) := by
  simp only [executed, List.flatMap_append, List.flatMap_cons]
  exact List.perm_append_comm_assoc _ _ _

namespace Cache

/-- A cache that accounts for what workers have executed. -/
structure Accounts (t : Task) (threshold : Nat) (workers : List Worker) (c : Cache) : Prop where
  sound : c.Sound
  filed : c.Filed
  tallied : c.Tallied threshold
  present : ∀ p ∈ t.executed workers, p ∈ c.entries.map (·.program)
  count : ∀ e ∈ c.entries, e.count = (t.executed workers).count e.program
  awaited : ∀ e ∈ c.entries, e.count = 0 → ∃ w ∈ workers, ∃ k r, w.phase = .found k e.program r

end Cache

theorem Worker.mem_middle {before after : List Worker} {v w : Worker} :
    v ∈ before ++ w :: after ↔ v = w ∨ v ∈ before ++ after :=
  List.perm_middle.mem_iff.trans List.mem_cons

namespace Cache.Accounts

variable {t : Task} {threshold : Nat} {before after : List Worker} {w w' : Worker} {c c' : Cache}

/-- A worker that is about to execute the program of an entry still is, if it is another one. -/
theorem awaited_other (h : c.Accounts t threshold (before ++ w :: after)) {e : Entry}
    (he : e ∈ c.entries) (hcount : e.count = 0) (hw : ∀ k r, w.phase ≠ .found k e.program r) :
    ∃ v ∈ before ++ w' :: after, ∃ k r, v.phase = .found k e.program r := by
  obtain ⟨v, hv, k, r, hphase⟩ := h.awaited e he hcount
  rcases Worker.mem_middle.1 hv with rfl | hv
  · exact absurd hphase (hw k r)
  · exact ⟨v, Worker.mem_middle.2 (.inr hv), k, r, hphase⟩

theorem idle (h : c.Accounts t threshold (before ++ w :: after))
    (hexecuted : w'.executed t = w.executed t) (hphase : ∀ k p r, w.phase ≠ .found k p r) :
    c.Accounts t threshold (before ++ w' :: after) := by
  have hsame : t.executed (before ++ w' :: after) = t.executed (before ++ w :: after) := by
    simp only [Task.executed, List.flatMap_append, List.flatMap_cons, hexecuted]
  refine ⟨h.sound, h.filed, h.tallied, hsame ▸ h.present, hsame ▸ h.count, ?_⟩
  intro e he hcount
  exact h.awaited_other he hcount fun k r => hphase k _ r

theorem looked (h : c.Accounts t threshold (before ++ w :: after)) {k : Nat} {p : Program}
    (hexecuted : w'.executed t = w.executed t) (hphase : ∀ k p r, w.phase ≠ .found k p r)
    (hphase' : w'.phase = .found k p (some (c.lookup p).1)) :
    (c.lookup p).2.Accounts t threshold (before ++ w' :: after) := by
  have hidle := h.idle hexecuted hphase
  have hsound := h.sound.lookup p
  have hfiled := h.filed.lookup p
  have htallied := h.tallied.lookup p
  rcases c.lookup_cases p with ⟨_, _, hlookup, _⟩ | ⟨hmissing, hlookup⟩
  · rw [hlookup]
    exact hidle
  rw [hlookup] at hsound hfiled htallied ⊢
  have hperm := c.entries_add p
  refine ⟨hsound, hfiled, htallied, ?_, ?_, ?_⟩
  · intro q hq
    rw [(hperm.map (·.program)).mem_iff]
    exact List.mem_cons_of_mem _ (hidle.present q hq)
  · intro e he
    rcases List.mem_cons.1 (hperm.mem_iff.1 he) with rfl | he
    · -- An entry is made only for a program that was never executed.
      refine (List.count_eq_zero.2 fun hp => ?_).symm
      obtain ⟨f, hf, rfl⟩ := List.mem_map.1 (hidle.present p hp)
      exact hmissing f (h.filed.mem_bucket hf) rfl
    · exact hidle.count e he
  · intro e he hcount
    rcases List.mem_cons.1 (hperm.mem_iff.1 he) with rfl | he
    · exact ⟨w', by simp, k, _, hphase'⟩
    · exact hidle.awaited e he hcount

theorem entered (h : c.Accounts t threshold (before ++ w :: after)) {k : Nat} {p : Program}
    {r : EntryRef} {a : Admission} (hexecuted : w'.executed t = p :: w.executed t)
    (hphase : w.phase = .found k p (some r)) (hlocated : Located p (some r) (some c))
    (henter : c.enter r = .ok (a, c')) : c'.Accounts t threshold (before ++ w' :: after) := by
  obtain ⟨e, e', he, hentering, rfl⟩ := enter_cases h.sound henter
  obtain rfl : e.program = p := by
    obtain ⟨f, hf, hprogram⟩ := hlocated
    rw [Option.some.inj (he.symm.trans hf), hprogram]
  have hstep : Step c (.entered r a) ((c.setEntry r e').tally a.tier) := .enter henter
  have hprogram := hentering.program_eq
  obtain ⟨rest, hold, hnew⟩ := entries_setEntry he e'
  have hmem : ∀ f ∈ rest, f ∈ c.entries := fun f hf => hold.mem_iff.2 (List.mem_cons_of_mem _ hf)
  -- The other entries are of other programs.
  have hothers : ∀ f ∈ rest, f.program ≠ e.program := by
    have hnodup := (hold.map (·.program)).nodup_iff.1 h.filed.programs
    intro f hf hsame
    exact (List.nodup_cons.1 hnodup).1 (List.mem_map.2 ⟨f, hf, hsame⟩)
  have hperm : (t.executed (before ++ w' :: after)).Perm
      (e.program :: t.executed (before ++ w :: after)) := by
    refine (t.executed_middle before after w').trans ?_
    rw [hexecuted, List.cons_append]
    exact (t.executed_middle before after w).symm.cons _
  refine ⟨hstep.sound h.sound, hstep.filed h.sound h.filed, hstep.tallied h.sound h.tallied,
    ?_, ?_, ?_⟩
  · intro q hq
    rw [entries_tally, (hnew.map (·.program)).mem_iff, List.map_cons, hprogram, ← List.map_cons,
      ← (hold.map (·.program)).mem_iff]
    rcases List.mem_cons.1 (hperm.mem_iff.1 hq) with rfl | hq
    · exact List.mem_map_of_mem (hold.mem_iff.2 List.mem_cons_self)
    · exact h.present q hq
  · intro f hf
    rw [entries_tally] at hf
    rw [hperm.count_eq]
    rcases List.mem_cons.1 (hnew.mem_iff.1 hf) with rfl | hf
    · rw [hprogram, List.count_cons_self, hentering.count_eq,
        h.count e (hold.mem_iff.2 List.mem_cons_self)]
    · rw [List.count_cons_of_ne (hothers f hf).symm, h.count f (hmem f hf)]
  · intro f hf hcount
    rw [entries_tally] at hf
    rcases List.mem_cons.1 (hnew.mem_iff.1 hf) with rfl | hf
    · rw [hentering.count_eq] at hcount
      cases hcount
    · refine h.awaited_other (hmem f hf) hcount fun k' r' hphase' => hothers f hf ?_
      rw [hphase] at hphase'
      injection hphase' with _ hsame _
      exact hsame.symm

/-- A turn is accounted for, whatever it does to the cache. -/
theorem uses (h : c.Accounts t threshold (before ++ w :: after))
    (huses : w.Uses t w' (some c) (some c')) : c'.Accounts t threshold (before ++ w' :: after) := by
  cases huses with
  | idle hexecuted hphase => exact h.idle hexecuted hphase
  | looked hexecuted hphase hphase' => exact h.looked hexecuted hphase hphase'
  | entered hexecuted hphase hlocated henter =>
    exact h.entered hexecuted hphase hlocated henter

/-- Once nothing is awaited, the statistics follow from what was executed. -/
theorem stats_eq {workers : List Worker} (h : c.Accounts t threshold workers)
    (hended : ∀ w ∈ workers, w.hasEnded = true) :
    c.stats = .ofExecutions threshold (t.executed workers) := by
  have hprograms : (c.entries.map (·.program)).toFinset = (t.executed workers).toFinset := by
    ext p
    rw [List.mem_toFinset, List.mem_toFinset]
    refine ⟨fun hp => ?_, h.present p⟩
    obtain ⟨e, he, rfl⟩ := List.mem_map.1 hp
    refine List.count_pos_iff.1 (Nat.pos_of_ne_zero fun hzero => ?_)
    obtain ⟨w, hw, k, r, hphase⟩ := h.awaited e he ((h.count e he).trans hzero)
    have hw := hended w hw
    simp [Worker.hasEnded, hphase] at hw
  -- Sums over the entries are sums over the programs.
  have htotal : ∀ (f : Entry → Nat) (g : Nat → Nat), (∀ e, f e = g e.count) →
      c.total f = ∑ p ∈ (t.executed workers).toFinset, g ((t.executed workers).count p) := by
    intro f g hfg
    rw [← hprograms, List.sum_toFinset _ h.filed.programs, total, List.map_map]
    congr 1
    refine List.map_congr_left fun e he => ?_
    rw [hfg, h.count e he]
    rfl
  have hsize : c.size = (t.executed workers).toFinset.card := by
    rw [← hprograms, List.toFinset_card_of_nodup h.filed.programs, List.length_map, h.filed.size]
  rw [stats, h.tallied.threshold_eq, h.tallied.interpreted, h.tallied.compiled,
    h.tallied.promotions, hsize, Stats.ofExecutions, Finset.card_filter,
    htotal (·.interpretations threshold) (min · (threshold + 1)) fun _ => rfl,
    htotal (·.invocations threshold) (· - (threshold + 1)) fun _ => rfl,
    htotal (·.promotions threshold) (if threshold < · then 1 else 0) fun _ => rfl]

end Cache.Accounts

namespace Worker

/-- A turn of a worker takes no entry away that another one has found. -/
theorem Uses.located {t : Task} {w w' : Worker} {cache cache' : Option Cache}
    (h : w.Uses t w' cache cache') (hsound : ∀ c, cache = some c → c.Sound) {p : Program}
    {r : Option EntryRef} (hlocated : Located p r cache) : Located p r cache' := by
  have hstep : ∀ {c c' : Cache} {x : Cache.Happening}, cache = some c → Cache.Step c x c' →
      Located p r (some c) → Located p r (some c') := by
    intro c c' x hc hstep hlocated
    cases r with
    | none => exact hlocated.elim
    | some r =>
      obtain ⟨e, he, hprogram⟩ := hlocated
      obtain ⟨e', he', -, hprogram', -⟩ := hstep.entryAt?_later (hsound c hc) he
      exact ⟨e', he', hprogram'.trans hprogram⟩
  cases h with
  | untiered => exact hlocated
  | idle => exact hlocated
  | looked => exact hstep rfl (.lookup _) hlocated
  | entered _ _ _ henter => exact hstep rfl (.enter henter) hlocated

/-- A turn of a worker neither makes a cache nor takes it away. -/
theorem Uses.isSome_eq {t : Task} {w w' : Worker} {cache cache' : Option Cache}
    (h : w.Uses t w' cache cache') : cache'.isSome = cache.isSome := by
  cases h <;> rfl

theorem turnsLeft_le (t : Task) (w : Worker) : w.turnsLeft t ≤ Crew.turnsOf t := by
  cases hphase : w.phase with
  | ended e => simp [turnsLeft, hphase]
  | _ =>
    simp only [turnsLeft, hphase, Crew.turnsOf]
    omega

theorem error?_of_running {w : Worker} (h : w.hasEnded = false) : w.error? = none := by
  cases hphase : w.phase with
  | ended e => simp [hasEnded, hphase] at h
  | _ => simp [error?, hphase]

/-- The error of a worker that was still running is the only one that a turn can add. -/
theorem exists_error_middle {before after : List Worker} {w w' : Worker} {error : Option Error}
    (h : error.isSome ↔ ∃ v ∈ before ++ w :: after, v.error?.isSome) (hw : w.hasEnded = false) :
    (error.or w'.error?).isSome ↔ ∃ v ∈ before ++ w' :: after, v.error?.isSome := by
  have hnone : ¬ w.error?.isSome := by simp [error?_of_running hw]
  rw [Option.isSome_or, Bool.or_eq_true, h]
  constructor
  · rintro (⟨v, hv, hsome⟩ | hsome)
    · rcases mem_middle.1 hv with rfl | hv
      · exact absurd hsome hnone
      · exact ⟨v, mem_middle.2 (.inr hv), hsome⟩
    · exact ⟨w', mem_middle.2 (.inl rfl), hsome⟩
  · rintro ⟨v, hv, hsome⟩
    rcases mem_middle.1 hv with rfl | hv
    · exact .inr hsome
    · exact .inl ⟨v, mem_middle.2 (.inr hv), hsome⟩

end Worker

/-! ## Turns -/

namespace Crew

/-- The ways a turn goes: there is nobody to take it, or a worker takes it. -/
theorem turn_cases (t : Task) (c : Crew) (i : Nat) :
    (∀ w, c.workers[i]? = some w → w.hasEnded = true) ∧ c.turn t i = c ∨
    ∃ before w after, c.workers = before ++ w :: after ∧ before.length = i ∧
      w.hasEnded = false ∧
      c.turn t i = ⟨before ++ (w.turn t c.world).1 :: after, (w.turn t c.world).2,
        c.error.or (w.turn t c.world).1.error?⟩ := by
  obtain ⟨workers, world, error⟩ := c
  cases hi : workers[i]? with
  | none => exact .inl ⟨by simp, by simp [turn, hi]⟩
  | some w =>
    by_cases hended : w.hasEnded = true
    · exact .inl ⟨by simp [hended], by simp [turn, hi, hended]⟩
    · obtain ⟨hlt, rfl⟩ := List.getElem?_eq_some_iff.1 hi
      refine .inr ⟨workers.take i, workers[i], workers.drop (i + 1), ?_, ?_, ?_, ?_⟩
      · simp
      · simpa using Nat.le_of_lt hlt
      · simpa using hended
      · simp only [turn, hi, hended, Bool.false_eq_true, if_false]
        rw [List.set_eq_take_append_cons_drop, if_pos hlt]

/-- Two workers that print to different memory. -/
def Apart (w w' : Worker) : Prop := ∀ d, w.device? = some d → w'.device? ≠ some d

theorem Apart.symm {w w' : Worker} (h : Apart w w') : Apart w' w :=
  fun d hd' hd => h d hd hd'

/-- What the workers of a crew keep up together. -/
structure Orderly (t : Task) (threshold : Nat) (sources : List Source) (c : Crew) : Prop where
  sources_eq : c.workers.map (·.source) = sources
  tracks : ∀ w ∈ c.workers, w.Tracks t c.world.outside (t.shared c.world.caches)
  apart : c.workers.Pairwise Apart
  error_iff : c.error.isSome ↔ ∃ w ∈ c.workers, w.error?.isSome
  shared : t.cache.isSome → (t.shared c.world.caches).isSome
  accounts : ∀ cache, t.shared c.world.caches = some cache → cache.Accounts t threshold c.workers
  metered : ∀ id, t.meter = some id → id < c.world.meters.size

namespace Orderly

variable {t : Task} {threshold : Nat} {sources : List Source} {c : Crew}

theorem provided (h : c.Orderly t threshold sources) : t.Provided c.world.caches := by
  intro id hid
  obtain ⟨cache, hcache⟩ := Option.isSome_iff_exists.1 (h.shared (by simp [hid]))
  have hsound := (h.accounts cache hcache).sound
  rw [Task.shared, hid] at hcache
  exact ⟨cache, hcache, hsound⟩

theorem turn (h : c.Orderly t threshold sources) (ht : t.Proper) (hrounds : 0 < t.rounds)
    (i : Nat) : (c.turn t i).Orderly t threshold sources := by
  rcases c.turn_cases t i with ⟨-, hturn⟩ | ⟨before, w, after, hworkers, -, hended, hturn⟩
  · rw [hturn]
    exact h
  obtain ⟨workers, world, error⟩ := c
  simp only at hworkers hturn
  subst hworkers
  rw [hturn]
  have hturned := (h.tracks w (Worker.mem_middle.2 (.inl rfl))).turned ht hrounds h.provided hended
  revert hturned
  generalize (w.turn t world).1 = w'
  generalize (w.turn t world).2 = world'
  intro hturned
  obtain ⟨d, hd, hown, hkeeps⟩ := hturned.device
  obtain ⟨happart, hrest⟩ := List.pairwise_cons.1 <|
    (List.pairwise_middle Apart.symm).1 h.apart
  have htracks : ∀ v ∈ before ++ after, v.Tracks t world.outside (t.shared world.caches) :=
    fun v hv => h.tracks v (Worker.mem_middle.2 (.inr hv))
  -- The memory is the worker's own: it has had it before, or it is new.
  have hdevice : ∀ v ∈ before ++ after, v.device? ≠ some d := by
    intro v hv hvd
    rcases hown with hwd | rfl
    · exact happart v hv d hwd hvd
    · exact Nat.lt_irrefl _ ((htracks v hv).device_lt hvd)
  have hsound : ∀ cache, t.shared world.caches = some cache → cache.Sound :=
    fun cache hcache => (h.accounts cache hcache).sound
  refine ⟨?_, ?_, ?_, Worker.exists_error_middle h.error_iff hended, ?_, ?_,
    fun id hid => hturned.meters_size ▸ h.metered id hid⟩
  · rw [← h.sources_eq]
    simp [hturned.source]
  · intro v hv
    rcases Worker.mem_middle.1 hv with rfl | hv
    · exact hturned.tracks
    · exact (htracks v hv).keep hkeeps (hdevice v hv) fun p r => hturned.uses.located hsound
  · refine (List.pairwise_middle Apart.symm).2 (List.pairwise_cons.2 ⟨?_, hrest⟩)
    intro v hv d' hd'
    obtain rfl : d = d' := Option.some.inj (hd.symm.trans hd')
    exact hdevice v hv
  · intro hcache
    exact hturned.uses.isSome_eq.trans (h.shared hcache)
  · intro cache' hshared'
    have hsome : (t.shared world.caches).isSome := by
      rw [← hturned.uses.isSome_eq, hshared']
      rfl
    obtain ⟨cache, hshared⟩ := Option.isSome_iff_exists.1 hsome
    have huses := hturned.uses
    rw [hshared, hshared'] at huses
    exact (h.accounts cache hshared).uses huses

theorem turns (h : c.Orderly t threshold sources) (ht : t.Proper) (hrounds : 0 < t.rounds)
    (is : List Nat) : (is.foldl (Crew.turn t) c).Orderly t threshold sources := by
  induction is generalizing c with
  | nil => exact h
  | cons i is ih => exact ih (h.turn ht hrounds i)

theorem finish (h : c.Orderly t threshold sources) (ht : t.Proper) (hrounds : 0 < t.rounds)
    (i n : Nat) : (Crew.finish t i n c).Orderly t threshold sources := by
  induction n generalizing c with
  | zero => exact h
  | succ n ih =>
    rw [Crew.finish]
    split
    · exact h
    · exact ih (h.turn ht hrounds i)

end Orderly

/-- The worker of this number has ended, if there is one. -/
def EndedAt (c : Crew) (i : Nat) : Prop := ∀ w, c.workers[i]? = some w → w.hasEnded = true

namespace EndedAt

variable {c : Crew} {j : Nat}

/-- Who has ended stays so, since turns go to others. -/
theorem turn (h : c.EndedAt j) (t : Task) (i : Nat) : (c.turn t i).EndedAt j := by
  rcases c.turn_cases t i with ⟨-, hturn⟩ | ⟨before, w, after, hworkers, rfl, hended, hturn⟩
  · rw [hturn]
    exact h
  · have hne : j ≠ before.length := by
      rintro rfl
      have hw := h w (by simp [hworkers])
      rw [hended] at hw
      cases hw
    intro v hv
    refine h v ?_
    rw [hturn] at hv
    rw [hworkers]
    grind

theorem finish (h : c.EndedAt j) (t : Task) (i n : Nat) : (Crew.finish t i n c).EndedAt j := by
  induction n generalizing c with
  | zero => exact h
  | succ n ih =>
    rw [Crew.finish]
    split
    · exact h
    · exact ih (h.turn t i)

end EndedAt

namespace Orderly

variable {t : Task} {threshold : Nat} {sources : List Source} {c : Crew}

/-- A worker comes to its end if it is given the turns that are left to it. -/
theorem endedAt_finish (h : c.Orderly t threshold sources) (ht : t.Proper) (hrounds : 0 < t.rounds)
    {i n : Nat} (hn : ∀ w, c.workers[i]? = some w → w.turnsLeft t ≤ n) :
    (Crew.finish t i n c).EndedAt i := by
  induction n generalizing c with
  | zero =>
    intro w hw
    exact (h.tracks w (List.mem_of_getElem? hw)).ended_of_turnsLeft (Nat.le_zero.1 (hn w hw))
  | succ n ih =>
    rw [Crew.finish]
    split
    · rename_i hany
      intro w hw
      simpa [hw] using hany
    · rename_i hany
      refine ih (h.turn ht hrounds i) fun w' hw' => ?_
      rcases c.turn_cases t i with ⟨hall, hturn⟩ | ⟨before, w, after, hworkers, rfl, hended, hturn⟩
      · rw [hturn] at hw'
        simp [hw', hall w' hw'] at hany
      · have hw := hn w (by simp [hworkers])
        have hfewer := ((h.tracks w (by simp [hworkers])).turned ht hrounds h.provided hended).fewer
        rw [hturn] at hw'
        simp only [List.getElem?_append_right (Nat.le_refl _), Nat.sub_self,
          List.getElem?_cons_zero, Option.some.injEq] at hw'
        subst hw'
        omega

theorem length_eq (h : c.Orderly t threshold sources) : c.workers.length = sources.length := by
  rw [← h.sources_eq, List.length_map]

/-- Whatever turns the workers take at first, they stay in order and come to their end. -/
theorem run (h : c.Orderly t threshold sources) (ht : t.Proper) (hrounds : 0 < t.rounds)
    (turns : List Nat) :
    (Crew.run t turns c).Orderly t threshold sources ∧
      ∀ w ∈ (Crew.run t turns c).workers, w.hasEnded = true := by
  have hrange : ∀ n,
      let c' := (List.range n).foldl (fun c i => Crew.finish t i (turnsOf t) c)
        (turns.foldl (Crew.turn t) c)
      c'.Orderly t threshold sources ∧ ∀ j < n, c'.EndedAt j := by
    intro n
    induction n with
    | zero => exact ⟨h.turns ht hrounds turns, fun j hj => absurd hj (Nat.not_lt_zero j)⟩
    | succ n ih =>
      obtain ⟨horderly, hended⟩ := ih
      rw [List.range_succ, List.foldl_append]
      refine ⟨horderly.finish ht hrounds n _, fun j hj => ?_⟩
      by_cases hjn : j = n
      · subst hjn
        exact horderly.endedAt_finish ht hrounds fun w _ => w.turnsLeft_le t
      · exact (hended j (by omega)).finish t n _
  obtain ⟨horderly, hended⟩ := hrange c.workers.length
  refine ⟨horderly, fun w hw => ?_⟩
  obtain ⟨j, hj⟩ := List.mem_iff_getElem?.1 hw
  refine hended j ?_ w hj
  rw [h.length_eq, ← horderly.length_eq]
  exact (List.getElem?_eq_some_iff.1 hj).1

/-! ## Ends -/

section Ended

variable (h : c.Orderly t threshold sources) (hended : ∀ w ∈ c.workers, w.hasEnded = true)
include h hended

theorem outputs_eq :
    c.workers.map (·.output c.world) = sources.map (Solo.output t.config t.rounds) := by
  rw [← h.sources_eq, List.map_map]
  exact List.map_congr_left fun w hw => ((h.tracks w hw).alone (hended w hw)).1

theorem fails_iff : c.error.isSome ↔ ∃ s ∈ sources, Solo.Fails t.config t.rounds s := by
  rw [h.error_iff, ← h.sources_eq]
  simp only [List.mem_map, exists_exists_and_eq_and]
  refine exists_congr fun w => and_congr_right fun hw => ?_
  exact ((h.tracks w hw).alone (hended w hw)).2.1

theorem executed_eq :
    t.executed c.workers = sources.flatMap (Solo.executed t.config t.rounds) := by
  rw [← h.sources_eq, List.flatMap_map]
  exact List.flatMap_congr fun w hw => ((h.tracks w hw).alone (hended w hw)).2.2

/-- The statistics follow from the sources alone. -/
theorem stats_eq {cache : Cache} (hcache : t.shared c.world.caches = some cache) :
    cache.stats =
      .ofExecutions threshold (sources.flatMap (Solo.executed t.config t.rounds)) := by
  rw [(h.accounts cache hcache).stats_eq hended, h.executed_eq hended]

end Ended

end Orderly
end Crew
end Birdcall
