import Birdcall.Act

/-!
# Acts side by side

`Act.outcome` shows how an act ends and the state it leaves.  The lemmas here compute the outcome of
an act from those of its parts.

`Act.Matches R a b` says that `a` and `b` end in the same way when they start in states that `R`
relates, and leave states that it relates again.  It is kept by everything acts are put together
with, so two large acts are compared by comparing the few small ones in which they differ.

`Act.series` carries out acts one after the other, however each of them ends.
-/

namespace Birdcall.Act

variable {σ τ α β : Type}

/-! ## Outcomes -/

@[simp]
theorem outcome_pure (x : α) (s : σ) : outcome (pure x) s = (.ok x, s) :=
  rfl

/-- What is read from the state is the state. -/
@[simp]
theorem outcome_get_bind (f : σ → Act σ α) (s : σ) :
    outcome (get >>= f) s = outcome (f s) s :=
  rfl

/-- An act that goes on after another one goes on where that one finished. -/
theorem outcome_bind (a : Act σ α) (f : α → Act σ β) (s : σ) :
    outcome (a >>= f) s =
      match outcome a s with
      | (.ok x, t) => outcome (f x) t
      | (.error stop, t) => (.error stop, t) := by
  simp only [outcome, bind, EStateM.bind]
  cases a s <;> rfl

theorem outcome_bind_ok {a : Act σ α} {s : σ} {x : α} (h : (outcome a s).1 = .ok x)
    (f : α → Act σ β) : outcome (a >>= f) s = outcome (f x) (outcome a s).2 := by
  rw [outcome_bind]
  rcases ha : outcome a s with ⟨result, t⟩
  obtain rfl : result = .ok x := by rw [← h, ha]
  rfl

theorem outcome_bind_error {a : Act σ α} {s : σ} {stop : Stop} (h : (outcome a s).1 = .error stop)
    (f : α → Act σ β) : outcome (a >>= f) s = (.error stop, (outcome a s).2) := by
  rw [outcome_bind]
  rcases ha : outcome a s with ⟨result, t⟩
  obtain rfl : result = .error stop := by rw [← h, ha]
  rfl

/-- How the last act of `lastly` ends counts if it stops short, or if the first one finished. -/
theorem outcome_lastly (a : Act σ Unit) (last : Act σ (Option Error)) (s : σ) :
    outcome (lastly a last) s =
      match outcome a s with
      | (result, t) =>
        match outcome last t with
        | (.error stop, u) => (.error stop, u)
        | (.ok e, u) =>
          (match result, e with
            | .ok _, some e => .error (.failed e)
            | result, _ => result, u) := by
  simp only [outcome, lastly]
  cases a s with
  | ok x t =>
    cases hlast : last t with
    | ok e u => cases e <;> simp [hlast]
    | error stop u => simp [hlast]
  | error stop t =>
    cases hlast : last t with
    | ok e u => simp [hlast]
    | error stop' u => simp [hlast]

theorem outcome_on (part : σ → τ × (τ → σ)) (a : Act τ α) (s : σ) :
    outcome (on part a) s =
      ((outcome a (part s).1).1, (part s).2 (outcome a (part s).1).2) := by
  simp only [outcome, on]
  cases a (part s).1 <;> rfl

theorem outcome_attempt (a : Act σ α) (s : σ) :
    outcome (attempt a) s =
      match outcome a s with
      | (.ok x, t) => (.ok (.ok x), t)
      | (.error (.failed e), t) => (.ok (.error e), t)
      | (.error stop, t) => (.error stop, t) := by
  simp only [outcome, attempt]
  cases a s with
  | ok x t => rfl
  | error stop t => cases stop <;> rfl

theorem outcome_check (error : Option Error) (s : σ) :
    outcome (check error) s = (error.elim (.ok ()) (.error <| .failed ·), s) := by
  cases error <;> rfl

/-- An act that stops short after another one either was stopped by that one, or stopped itself. -/
theorem outcome_bind_eq_error {a : Act σ α} {f : α → Act σ β} {s : σ} {stop : Stop}
    (h : (outcome (a >>= f) s).1 = .error stop) :
    (outcome a s).1 = .error stop ∨ ∃ x t, (outcome (f x) t).1 = .error stop := by
  rw [outcome_bind] at h
  rcases ha : outcome a s with ⟨x | x, t⟩
  · rw [ha] at h
    cases h
    exact .inl rfl
  · rw [ha] at h
    exact .inr ⟨x, t, h⟩

/-- A last act that does nothing can be left out. -/
theorem lastly_pure_none (a : Act σ Unit) : lastly a (pure none) = a := by
  funext s
  simp only [lastly]
  cases a s <;> rfl

/-- Acts one after the other, each from the state the one before left: how they end, and the state
after them all. -/
def series (a : α → Act σ Unit) : List α → σ → List (Except Stop Unit) × σ
  | [], s => ([], s)
  | x :: rest, s =>
    match outcome (a x) s with
    | (result, s) =>
      match series a rest s with
      | (results, s) => (result :: results, s)

/-! ## Matching acts -/

/-- Two acts that end in the same way from related states, and leave related states. -/
def Matches (R : σ → τ → Prop) (a : Act σ α) (b : Act τ α) : Prop :=
  ∀ s t, R s t → (outcome a s).1 = (outcome b t).1 ∧ R (outcome a s).2 (outcome b t).2

namespace Matches

variable {R : σ → τ → Prop}

theorem pure (x : α) : Matches R (Pure.pure x) (Pure.pure x) := by
  intro s t h
  exact ⟨rfl, h⟩

theorem throw (stop : Stop) :
    Matches (α := α) R (MonadExcept.throw stop) (MonadExcept.throw stop) := by
  intro s t h
  exact ⟨rfl, h⟩

theorem fail (e : Error) : Matches (α := α) R (Act.fail e) (Act.fail e) :=
  throw _

theorem crash (v : CrashValue) : Matches (α := α) R (Act.crash v) (Act.crash v) :=
  throw _

theorem check (error : Option Error) : Matches R (Act.check error) (Act.check error) := by
  cases error with
  | none => exact pure ()
  | some e => exact fail e

theorem bind {a : Act σ α} {b : Act τ α} {f : α → Act σ β} {g : α → Act τ β}
    (h : Matches R a b) (hnext : ∀ x, Matches R (f x) (g x)) :
    Matches R (a >>= f) (b >>= g) := by
  intro s t hst
  obtain ⟨hend, hstate⟩ := h s t hst
  rw [outcome_bind, outcome_bind]
  rcases ha : outcome a s with ⟨x | x, s'⟩ <;> rcases hb : outcome b t with ⟨y | y, t'⟩ <;>
    rw [ha, hb] at hend hstate
  · cases hend
    exact ⟨rfl, hstate⟩
  · cases hend
  · cases hend
  · cases hend
    exact hnext x s' t' hstate

/-- Two acts that look at the state first match if they match for every two related states. -/
theorem get_bind {f : σ → Act σ α} {g : τ → Act τ α}
    (h : ∀ s t, R s t → Matches R (f s) (g t)) : Matches R (get >>= f) (get >>= g) := by
  intro s t hst
  exact h s t hst s t hst

theorem modify {f : σ → σ} {g : τ → τ} (h : ∀ s t, R s t → R (f s) (g t)) :
    Matches R (modify f) (modify g) := by
  intro s t hst
  exact ⟨rfl, h s t hst⟩

theorem lastly {a : Act σ Unit} {b : Act τ Unit} {last : Act σ (Option Error)}
    {last' : Act τ (Option Error)} (h : Matches R a b) (hlast : Matches R last last') :
    Matches R (lastly a last) (lastly b last') := by
  intro s t hst
  obtain ⟨hend, hstate⟩ := h s t hst
  obtain ⟨hend', hstate'⟩ := hlast _ _ hstate
  rw [outcome_lastly, outcome_lastly]
  rcases hl : outcome last (outcome a s).2 with ⟨x | x, s'⟩ <;>
    rcases hl' : outcome last' (outcome b t).2 with ⟨y | y, t'⟩ <;>
    rw [hl, hl'] at hend' hstate'
  · cases hend'
    simp only [hl, hl']
    exact ⟨trivial, hstate'⟩
  · cases hend'
  · cases hend'
  · cases hend'
    simp only [hl, hl', hend]
    exact ⟨trivial, hstate'⟩

/-- Acts that match one by one match in a row. -/
theorem series {a : α → Act σ Unit} {b : α → Act τ Unit} (h : ∀ x, Matches R (a x) (b x))
    (xs : List α) {s : σ} {t : τ} (hst : R s t) :
    (series a xs s).1 = (series b xs t).1 ∧ R (series a xs s).2 (series b xs t).2 := by
  induction xs generalizing s t with
  | nil => exact ⟨rfl, hst⟩
  | cons x xs ih =>
    obtain ⟨hend, hstate⟩ := h x s t hst
    obtain ⟨hends, hstates⟩ := ih hstate
    simp only [Act.series, hend, hends]
    exact ⟨trivial, hstates⟩

end Matches
end Birdcall.Act
