import Birdcall.Proofs.Walk

/-!
# What acts ensure

`Act.Ensures P a Q E` is about all ends of an act at once: from a state where `P` holds, `a` either
finishes where `Q` holds, or stops short where `E` holds.  `Act.Leads P a Q` is the case in which it
does not matter how the act ends.

There is a rule for each way acts are put together.  `Program.ensures_walk` is the rule for walks:
what printing a symbol keeps, a whole run keeps, and where a run stops short, printing has stopped
short or the program itself is at fault.
-/

namespace Birdcall

namespace Act

variable {σ α β : Type}

/-- From a state where `P` holds, the act finishes where `Q` holds of what it gives, or stops short
where `E` holds. -/
def Ensures (P : σ → Prop) (a : Act σ α) (Q : α → σ → Prop) (E : σ → Prop) : Prop :=
  ∀ s, P s →
    match outcome a s with
    | (.ok x, t) => Q x t
    | (.error _, t) => E t

/-- From a state where `P` holds, the act leaves one where `Q` holds, however it ends. -/
abbrev Leads (P : σ → Prop) (a : Act σ α) (Q : σ → Prop) : Prop := Ensures P a (fun _ => Q) Q

variable {P Q E : σ → Prop}

theorem Leads.outcome {a : Act σ α} (h : Leads P a Q) {s : σ} (hs : P s) : Q (outcome a s).2 := by
  have hend := h s hs
  rcases ha : Act.outcome a s with ⟨stop | x, t⟩
  · rw [ha] at hend
    exact hend
  · rw [ha] at hend
    exact hend

theorem leads_of_outcome {a : Act σ α} (h : ∀ s, P s → Q (outcome a s).2) : Leads P a Q := by
  intro s hs
  have hend := h s hs
  rcases ha : outcome a s with ⟨stop | x, t⟩
  · rw [ha] at hend
    exact hend
  · rw [ha] at hend
    exact hend

namespace Ensures

theorem pure {R : α → σ → Prop} {x : α} (h : ∀ s, P s → R x s) :
    Ensures P (Pure.pure x) R E := by
  intro s hs
  exact h s hs

theorem throw {R : α → σ → Prop} {stop : Stop} (h : ∀ s, P s → E s) :
    Ensures P (MonadExcept.throw stop) R E := by
  intro s hs
  exact h s hs

theorem imp {P' E' : σ → Prop} {R R' : α → σ → Prop} {a : Act σ α} (h : Ensures P a R E)
    (hP : ∀ s, P' s → P s) (hR : ∀ x s, R x s → R' x s) (hE : ∀ s, E s → E' s) :
    Ensures P' a R' E' := by
  intro s hs
  have hend := h s (hP s hs)
  rcases ha : outcome a s with ⟨stop | x, t⟩
  · rw [ha] at hend
    exact hE t hend
  · rw [ha] at hend
    exact hR x t hend

theorem and {E' : σ → Prop} {R R' : α → σ → Prop} {a : Act σ α} (h : Ensures P a R E)
    (h' : Ensures P a R' E') :
    Ensures P a (fun x s => R x s ∧ R' x s) (fun s => E s ∧ E' s) := by
  intro s hs
  have hend := h s hs
  have hend' := h' s hs
  rcases ha : outcome a s with ⟨stop | x, t⟩
  · rw [ha] at hend hend'
    exact ⟨hend, hend'⟩
  · rw [ha] at hend hend'
    exact ⟨hend, hend'⟩

/-- What is known apart from the state can be taken for granted. -/
theorem given {p : Prop} {R : α → σ → Prop} {a : Act σ α} (h : p → Ensures P a R E) :
    Ensures (fun s => p ∧ P s) a R E :=
  fun s hs => h hs.1 s hs.2

theorem bind {R : α → σ → Prop} {S : β → σ → Prop} {a : Act σ α} {f : α → Act σ β}
    (h : Ensures P a R E) (hnext : ∀ x, Ensures (R x) (f x) S E) : Ensures P (a >>= f) S E := by
  intro s hs
  have hend := h s hs
  rw [outcome_bind]
  rcases ha : outcome a s with ⟨stop | x, t⟩
  · rw [ha] at hend
    exact hend
  · rw [ha] at hend
    exact hnext x t hend

/-- What is read from the state is a state where `P` holds. -/
theorem get_bind {R : α → σ → Prop} {f : σ → Act σ α} (h : ∀ s, P s → Ensures P (f s) R E) :
    Ensures P (get >>= f) R E := by
  intro s hs
  exact h s hs s hs

theorem modify {R : Unit → σ → Prop} {f : σ → σ} (h : ∀ s, P s → R () (f s)) :
    Ensures P (modify f) R E := by
  intro s hs
  exact h s hs

theorem check {R : Unit → σ → Prop} {error : Option Error}
    (h : ∀ s, P s → (error = none → R () s) ∧ (error ≠ none → E s)) :
    Ensures P (check error) R E := by
  intro s hs
  cases error with
  | none => exact (h s hs).1 rfl
  | some e => exact (h s hs).2 (Option.some_ne_none e)

/-- The last act starts where the first one finished or where it stopped short, and the whole
finishes only if the last act gives no error after the first one has finished. -/
theorem lastly {R F : σ → Prop} {a : Act σ Unit} {last : Act σ (Option Error)}
    (h : Ensures P a (fun _ => Q) E)
    (hok : Ensures Q last (fun e t => (e = none → R t) ∧ (e ≠ none → F t)) F)
    (herror : Leads E last F) : Ensures P (lastly a last) (fun _ => R) F := by
  intro s hs
  have hend := h s hs
  rw [outcome_lastly]
  rcases ha : outcome a s with ⟨stop | x, t⟩
  · rw [ha] at hend
    have hlast := herror t hend
    rcases hb : outcome last t with ⟨stop' | e, u⟩
    · simp only [hb] at hlast ⊢
      exact hlast
    · simp only [hb] at hlast ⊢
      exact hlast
  · rw [ha] at hend
    have hlast := hok t hend
    rcases hb : outcome last t with ⟨stop' | e, u⟩
    · simp only [hb] at hlast ⊢
      exact hlast
    · simp only [hb] at hlast ⊢
      cases e with
      | none => exact hlast.1 rfl
      | some e => exact hlast.2 (Option.some_ne_none e)

end Ensures

namespace Leads

theorem pure (x : α) : Leads P (Pure.pure x) P := Ensures.pure fun _ hs => hs

theorem throw (stop : Stop) : Leads (α := α) P (MonadExcept.throw stop) P :=
  Ensures.throw fun _ hs => hs

theorem check (error : Option Error) : Leads P (Act.check error) P :=
  Ensures.check fun _ hs => ⟨fun _ => hs, fun _ => hs⟩

theorem bind {R : σ → Prop} {a : Act σ α} {f : α → Act σ β} (h : Ensures P a (fun _ => R) Q)
    (hnext : ∀ x, Leads R (f x) Q) : Leads P (a >>= f) Q :=
  Ensures.bind h hnext

theorem lastly {R : σ → Prop} {a : Act σ Unit} {last : Act σ (Option Error)} (h : Leads P a R)
    (hlast : Leads R last Q) : Leads P (lastly a last) Q := by
  refine Ensures.lastly h ?_ hlast
  intro s hs
  have hend := hlast s hs
  rcases hb : Act.outcome last s with ⟨stop | e, t⟩
  · simp only [hb] at hend ⊢
    exact hend
  · simp only [hb] at hend ⊢
    exact ⟨fun _ => hend, fun _ => hend⟩

end Leads
end Act

namespace Program

variable {σ : Type} {h : Hooks σ}

/-- A walk keeps what its hooks keep.  What is to be kept may depend on where the walk starts, such as
inside a function body, and the hook around a body may go from one such place to another. -/
theorem ensures_walk_each {ι : Type} {I E : ι → σ → Prop} (hIE : ∀ k s, I k s → E k s)
    (hemit : ∀ k s, Act.Ensures (I k) (h.emit s) (fun _ => I k) (E k))
    (hvisit : ∀ k index i, Act.Ensures (I k) (h.visit index i) (fun _ => I k) (E k))
    (hwithin : ∀ {a}, (∀ k, Act.Ensures (I k) a (fun _ => I k) (E k)) →
      ∀ k, Act.Ensures (I k) (h.within a) (fun _ => I k) (E k))
    (code : Array Instruction) (sp : Span) (scope : Scope sp) (index : Nat) (hlo : sp.lo ≤ index) :
    ∀ k, Act.Ensures (I k) (walk h code sp scope index hlo) (fun _ => I k) (E k) := by
  have hfail : ∀ {k} {e : Error}, Act.Ensures (α := Unit) (I k) (Act.fail e) (fun _ => I k) (E k) :=
    .throw (hIE _)
  induction sp, scope, index, hlo using walk.induct code with
  | case1 sp scope index hlo hhi hnone =>
    intro k
    rw [walk_past hhi hnone]
    exact .throw (hIE k)
  | case2 sp scope index hlo hhi i hi ih ihdefine ihbody =>
    intro k
    cases ha : i.action with
    | print s =>
      rw [walk_print hhi hi ha]
      exact (hvisit k index i).bind fun _ => (hemit k s).bind fun _ => ih k
    | define =>
      cases hb : i.body index sp.hi with
      | ok body =>
        rw [walk_define hhi hi ha hb]
        exact (hvisit k index i).bind fun _ => ihdefine body hb k
      | error f =>
        rw [walk_define_error hhi hi ha hb]
        exact (hvisit k index i).bind fun _ => hfail
    | run =>
      cases hf : scope.find? i.name with
      | some body =>
        rw [walk_run hhi hi ha hf]
        exact (hvisit k index i).bind fun _ => (hwithin (ihbody body) k).bind fun _ => ih k
      | none =>
        rw [walk_run_undefined hhi hi ha hf]
        exact (hvisit k index i).bind fun _ => hfail
    | invalid =>
      rw [walk_invalid hhi hi ha]
      exact (hvisit k index i).bind fun _ => hfail
  | case3 sp scope index hlo hhi =>
    intro k
    rw [walk_end hhi]
    exact .pure fun _ hs => hs

theorem ensures_walk {I E : σ → Prop} (hIE : ∀ s, I s → E s)
    (hemit : ∀ s, Act.Ensures I (h.emit s) (fun _ => I) E)
    (hvisit : ∀ index i, Act.Ensures I (h.visit index i) (fun _ => I) E)
    (hwithin : ∀ {a}, Act.Ensures I a (fun _ => I) E → Act.Ensures I (h.within a) (fun _ => I) E)
    (code : Array Instruction) (sp : Span) (scope : Scope sp) (index : Nat) (hlo : sp.lo ≤ index) :
    Act.Ensures I (walk h code sp scope index hlo) (fun _ => I) E :=
  ensures_walk_each (fun _ => hIE) (fun _ => hemit) (fun _ => hvisit)
    (fun ha k => hwithin (ha k)) code sp scope index hlo ()

end Program
end Birdcall
