import Birdcall.Proofs.Scan

/-!
# Bodies are compiled once

However many runs lead to a body, and on however many ways, compiling scans it once.  So every
instruction is read at most once, whatever a program holds.

* `Scan.Shared` says once what a scan with the memo does: which functions are defined when it comes
  to a run, and what the memo knows before and after.
* The memo never forgets.  A body is scanned only if the memo does not know it, and from then on it
  does (`Scan.Shared.find?_eq_none`), so no body is scanned twice.
* Bodies defined in one scan are the same or apart (`Scan.Apart`), and a scan passes over them.
  What it reads lies ahead of it, or in a body that the memo does not know (`Scan.Shared.reads`).
* Nothing is read that does not show (`Program.scanFrom_congr_reads`).
-/

namespace Birdcall

/-- The bodies that are scanned, in order, those in bodies included. -/
def Scan.bodies : Scan → List Span
  | done _ | past _ | fail .. => []
  | print _ _ _ rest | define _ _ _ rest | reuse _ _ _ _ rest => rest.bodies
  | call _ _ body inner rest => body :: inner.bodies ++ rest.bodies

/-- The ranges whose compiling has begun, latest first. -/
def Memo.begun : Memo → List Span
  | [] => []
  | (sp, .begun) :: m => sp :: begun m
  | (_, .finished _) :: m => begun m

/-- The body of a name is one of the bodies that are defined. -/
theorem Scope.mem_of_find? {sp : Span} {scope : Scope sp} {name : Text} {body : Inner sp}
    (h : scope.find? name = some body) : body.span ∈ scope.map (·.2.span) := by
  induction scope with
  | nil => cases h
  | cons d scope ih =>
    obtain ⟨other, found⟩ := d
    rw [Scope.find?_cons] at h
    split at h
    · cases h
      exact List.mem_cons_self
    · exact List.mem_cons_of_mem _ (ih h)

namespace Scan

/-! ## Scanning with the memo -/

/-- A scan from `index` on that keeps below `hi`, with the bodies in `defs` defined, and the memo
before and after it.  A run takes one of the defined bodies from the memo, or scans it if the memo
does not know it. -/
inductive Shared : Nat → List Span → Nat → Memo → Scan → Memo → Prop
  | done {hi index : Nat} {defs : List Span} {m : Memo} : Shared hi defs index m (.done index) m
  | past {hi index : Nat} {defs : List Span} {m : Memo} (hhi : index < hi) :
      Shared hi defs index m (.past index) m
  | fail {hi index : Nat} {defs : List Span} {m : Memo} {i : Instruction} {f : Fault}
      (hhi : index < hi) : Shared hi defs index m (.fail index i f) m
  | print {hi index : Nat} {defs : List Span} {m m' : Memo} {i : Instruction} {s : Symbol}
      {rest : Scan} (hhi : index < hi) (hrest : Shared hi defs (index + 1) m rest m') :
      Shared hi defs index m (.print index i s rest) m'
  | define {hi index : Nat} {defs : List Span} {m m' : Memo} {i : Instruction} {body : Span}
      {rest : Scan} (hhi : index < hi) (hlo : body.lo = index + 1) (hle : body.lo ≤ body.hi)
      (hrest : Shared hi (body :: defs) body.hi m rest m') :
      Shared hi defs index m (.define index i body rest) m'
  | call {hi index : Nat} {defs : List Span} {m m₁ m' : Memo} {i : Instruction} {body : Span}
      {inner rest : Scan} (hhi : index < hi) (hdef : body ∈ defs) (hnew : m.find? body = none)
      (hinner : Shared body.hi [] body.lo (m.begin body) inner m₁)
      (hrest : Shared hi defs (index + 1) (m₁.finish body inner.steps) rest m') :
      Shared hi defs index m (.call index i body inner rest) m'
  | reuse {hi index : Nat} {defs : List Span} {m m' : Memo} {i : Instruction} {body : Span}
      {known : Progress} {rest : Scan} (hhi : index < hi) (hdef : body ∈ defs)
      (hknown : m.find? body = some known) (hrest : Shared hi defs (index + 1) m rest m') :
      Shared hi defs index m (.reuse index i body known rest) m'

/-- Bodies that lie before an index, each two of them the same or apart. -/
structure Apart (defs : List Span) (index : Nat) : Prop where
  before : ∀ body ∈ defs, body.hi ≤ index
  apart : ∀ body ∈ defs, ∀ other ∈ defs, body = other ∨ body.hi ≤ other.lo ∨ other.hi ≤ body.lo

namespace Apart

variable {defs : List Span} {index : Nat}

theorem nil (index : Nat) : Apart [] index := by
  constructor
  · intro body hbody
    cases hbody
  · intro body hbody
    cases hbody

theorem mono {later : Nat} (h : Apart defs index) (hle : index ≤ later) : Apart defs later := by
  refine ⟨fun body hbody => ?_, h.apart⟩
  have := h.before body hbody
  omega

/-- A body that begins behind all others is apart from them. -/
theorem define {body : Span} (h : Apart defs index) (hlo : body.lo = index + 1)
    (hle : body.lo ≤ body.hi) : Apart (body :: defs) body.hi := by
  constructor
  · intro b hb
    obtain rfl | hb := List.mem_cons.1 hb
    · exact Nat.le_refl _
    · have := h.before b hb
      omega
  · intro b hb c hc
    obtain rfl | hb := List.mem_cons.1 hb
    · obtain rfl | hc := List.mem_cons.1 hc
      · exact .inl rfl
      · have := h.before c hc
        omega
    · have := h.before b hb
      obtain rfl | hc := List.mem_cons.1 hc
      · omega
      · exact h.apart b hb c hc

end Apart

namespace Shared

variable {hi index : Nat} {defs : List Span} {m m' : Memo} {t : Scan}

/-! ## The memo never forgets -/

/-- What the memo does not know afterwards it did not know before, and it was not scanned. -/
theorem find?_eq_none (h : Shared hi defs index m t m') (s : Span) :
    m'.find? s = none ↔ m.find? s = none ∧ s ∉ t.bodies := by
  induction h with
  | done => simp [bodies]
  | past => simp [bodies]
  | fail => simp [bodies]
  | print _ _ ih => exact ih
  | define _ _ _ _ ih => exact ih
  | @call _ _ _ m _ _ _ body inner rest _ _ hnew _ _ ihinner ih =>
    rw [ih, Memo.find?_finish, bodies]
    by_cases hs : s = body
    · simp [hs]
    · rw [if_neg hs, ihinner, Memo.find?_begin, if_neg hs]
      simp only [List.cons_append, List.mem_cons, List.mem_append, hs, false_or, not_or, and_assoc]
  | reuse _ _ _ _ ih => exact ih

/-- What the memo does not know behind a body is not the body, and nothing in it. -/
theorem find?_behind {body s : Span} {inner : Scan} {steps : List Step}
    (h : Shared hi defs index (m.begin body) inner m')
    (hs : (m'.finish body steps).find? s = none) :
    s ≠ body ∧ m.find? s = none ∧ s ∉ inner.bodies := by
  rw [Memo.find?_finish] at hs
  split at hs
  · cases hs
  · rename_i hne
    rw [h.find?_eq_none, Memo.find?_begin, if_neg hne] at hs
    exact ⟨hne, hs⟩

/-- No body is scanned that the memo knows, and none is scanned twice. -/
theorem nodup_bodies (h : Shared hi defs index m t m') :
    (∀ s ∈ t.bodies, m.find? s = none) ∧ t.bodies.Nodup := by
  induction h with
  | done => simp [bodies]
  | past => simp [bodies]
  | fail => simp [bodies]
  | print _ _ ih => exact ih
  | define _ _ _ _ ih => exact ih
  | @call _ _ _ m m₁ _ _ body inner rest _ _ hnew hinner _ ihinner ih =>
    obtain ⟨hfreshInner, hnodupInner⟩ := ihinner
    obtain ⟨hfreshRest, hnodupRest⟩ := ih
    -- The body is known inside of itself, and with all that was scanned in it behind itself.
    have hinside : ∀ s ∈ inner.bodies, s ≠ body ∧ m.find? s = none := by
      intro s hs
      have hfresh := hfreshInner s hs
      rw [Memo.find?_begin] at hfresh
      split at hfresh
      · cases hfresh
      · exact ⟨‹_›, hfresh⟩
    have hbehind : ∀ s ∈ rest.bodies, s ≠ body ∧ m.find? s = none ∧ s ∉ inner.bodies :=
      fun s hs => hinner.find?_behind (hfreshRest s hs)
    constructor
    · intro s hs
      simp only [bodies, List.cons_append, List.mem_cons, List.mem_append] at hs
      obtain rfl | hs | hs := hs
      · exact hnew
      · exact (hinside s hs).2
      · exact (hbehind s hs).2.1
    · rw [bodies, List.cons_append, List.nodup_cons, List.nodup_append]
      refine ⟨?_, hnodupInner, hnodupRest, ?_⟩
      · intro hmem
        obtain hmem | hmem := List.mem_append.1 hmem
        · exact (hinside body hmem).1 rfl
        · exact (hbehind body hmem).1 rfl
      · intro s hs other hother heq
        subst heq
        exact (hbehind s hother).2.2 hs
  | reuse _ _ _ _ ih => exact ih

/-- The memo has an entry for the beginning of every body that was scanned, and no other. -/
theorem begun_eq (h : Shared hi defs index m t m') : m'.begun = t.bodies.reverse ++ m.begun := by
  induction h with
  | done => rfl
  | past => rfl
  | fail => rfl
  | print _ _ ih => exact ih
  | define _ _ _ _ ih => exact ih
  | @call _ _ _ m m₁ _ _ body inner rest _ _ _ _ _ ihinner ih =>
    have hfinish : (m₁.finish body inner.steps).begun = m₁.begun := rfl
    have hbegin : (m.begin body).begun = body :: m.begun := rfl
    rw [ih, hfinish, ihinner, hbegin, bodies]
    simp
  | reuse _ _ _ _ ih => exact ih

end Shared

/-! ## Every instruction is read once -/

/-- What a scan may still read: what lies ahead, and what lies in a defined body that the memo does
not know. -/
def Unread (defs : List Span) (index : Nat) (m : Memo) (j : Nat) : Prop :=
  index ≤ j ∨ ∃ body ∈ defs, m.find? body = none ∧ body.lo ≤ j ∧ j < body.hi

theorem Unread.mono {defs : List Span} {index later : Nat} {m : Memo} {j : Nat}
    (h : Unread defs later m j) (hle : index ≤ later) : Unread defs index m j := by
  obtain hahead | hbody := h
  · exact .inl (Nat.le_trans hle hahead)
  · exact .inr hbody

/-- Reading one instruction and then what may be read behind it. -/
theorem forall_unread_cons {defs : List Span} {index hi : Nat} {m : Memo} {reads : List Nat}
    (hhi : index < hi) (hrest : ∀ j ∈ reads, j < hi ∧ Unread defs (index + 1) m j) :
    ∀ j ∈ index :: reads, j < hi ∧ Unread defs index m j := by
  intro j hj
  obtain rfl | hj := List.mem_cons.1 hj
  · exact ⟨hhi, .inl (Nat.le_refl _)⟩
  · obtain ⟨hlt, hunread⟩ := hrest j hj
    exact ⟨hlt, hunread.mono (Nat.le_succ _)⟩

namespace Shared

variable {hi index : Nat} {defs : List Span} {m m' : Memo} {t : Scan}

theorem reads (h : Shared hi defs index m t m') (hdefs : Apart defs index) :
    ∀ j ∈ t.reads, j < hi ∧ Unread defs index m j := by
  induction h with
  | done => simp [Scan.reads]
  | past hhi => simpa [Scan.reads, Unread] using hhi
  | fail hhi => simpa [Scan.reads, Unread] using hhi
  | print hhi _ ih => exact forall_unread_cons hhi (ih (hdefs.mono (Nat.le_succ _)))
  | @define _ _ _ _ _ _ body _ hhi hlo hle _ ih =>
    refine forall_unread_cons hhi fun j hj => ?_
    obtain ⟨hlt, hahead | ⟨b, hb, hnew, hin⟩⟩ := ih (hdefs.define hlo hle) j hj
    · exact ⟨hlt, .inl (by omega)⟩
    · -- The body that is defined here lies ahead too.
      obtain rfl | hb := List.mem_cons.1 hb
      · exact ⟨hlt, .inl (by omega)⟩
      · exact ⟨hlt, .inr ⟨b, hb, hnew, hin⟩⟩
  | @call _ _ _ _ _ _ _ body _ _ hhi hdef hnew hinner _ ihinner ih =>
    refine forall_unread_cons hhi fun j hj => ?_
    obtain hj | hj := List.mem_append.1 hj
    · obtain ⟨hlt, hlo | ⟨b, hb, -⟩⟩ := ihinner (.nil _) j hj
      · have := hdefs.before body hdef
        exact ⟨by omega, .inr ⟨body, hdef, hnew, hlo, hlt⟩⟩
      · cases hb
    · obtain ⟨hlt, hahead | ⟨b, hb, hfresh, hin⟩⟩ := ih (hdefs.mono (Nat.le_succ _)) j hj
      · exact ⟨hlt, .inl hahead⟩
      · exact ⟨hlt, .inr ⟨b, hb, (hinner.find?_behind hfresh).2.1, hin⟩⟩
  | reuse hhi _ _ _ ih => exact forall_unread_cons hhi (ih (hdefs.mono (Nat.le_succ _)))

/-- A scan does not come back to what is right before it. -/
theorem not_mem_reads (h : Shared hi defs (index + 1) m t m') (hdefs : Apart defs index) :
    index ∉ t.reads := by
  intro hmem
  obtain ⟨-, hahead | ⟨body, hbody, -, -, hlt⟩⟩ := h.reads (hdefs.mono (Nat.le_succ _)) index hmem
  · omega
  · have := hdefs.before body hbody
    omega

theorem nodup_reads (h : Shared hi defs index m t m') (hdefs : Apart defs index) :
    t.reads.Nodup := by
  induction h with
  | done => simp [Scan.reads]
  | past => simp [Scan.reads]
  | fail => simp [Scan.reads]
  | print _ hrest ih =>
    exact List.nodup_cons.2 ⟨hrest.not_mem_reads hdefs, ih (hdefs.mono (Nat.le_succ _))⟩
  | @define _ index _ _ _ _ body _ _ hlo hle hrest ih =>
    refine List.nodup_cons.2 ⟨fun hmem => ?_, ih (hdefs.define hlo hle)⟩
    obtain ⟨-, hahead | ⟨b, hb, -, hin⟩⟩ := hrest.reads (hdefs.define hlo hle) index hmem
    · omega
    · obtain rfl | hb := List.mem_cons.1 hb
      · omega
      · have := hdefs.before b hb
        omega
  | @call _ index _ _ _ _ _ body inner rest _ hdef _ hinner hrest ihinner ih =>
    have hbefore := hdefs.before body hdef
    have hinside : ∀ j ∈ inner.reads, body.lo ≤ j ∧ j < body.hi := by
      intro j hj
      obtain ⟨hlt, hlo | ⟨b, hb, -⟩⟩ := hinner.reads (.nil _) j hj
      · exact ⟨hlo, hlt⟩
      · cases hb
    rw [Scan.reads, List.cons_append, List.nodup_cons, List.nodup_append]
    refine ⟨?_, ihinner (.nil _), ih (hdefs.mono (Nat.le_succ _)), ?_⟩
    · intro hmem
      obtain hmem | hmem := List.mem_append.1 hmem
      · have := hinside index hmem
        omega
      · exact hrest.not_mem_reads hdefs hmem
    · intro j hj other hother heq
      subst heq
      have hj := hinside j hj
      obtain ⟨-, hahead | ⟨b, hb, hfresh, hin⟩⟩ :=
        hrest.reads (hdefs.mono (Nat.le_succ _)) j hother
      · omega
      · -- The memo knows this body now, so the other one is apart from it.
        have hne := (hinner.find?_behind hfresh).1
        obtain heq | hapart := hdefs.apart b hb body hdef
        · exact hne heq
        · omega
  | reuse _ _ _ hrest ih =>
    exact List.nodup_cons.2 ⟨hrest.not_mem_reads hdefs, ih (hdefs.mono (Nat.le_succ _))⟩

end Shared
end Scan

namespace Program

/-! ## Compiling -/

/-- Scanning with the memo goes as `Scan.Shared` says. -/
theorem shared_scanFrom (code : Array Instruction) (sp : Span) (scope : Scope sp) (index : Nat)
    (hlo : sp.lo ≤ index) :
    ∀ memo : Memo, Scan.Shared sp.hi (scope.map (·.2.span)) index memo
      (scanFrom .memo code sp memo scope index hlo).1
      (scanFrom .memo code sp memo scope index hlo).2 := by
  induction sp, scope, index, hlo using walk.induct code with
  | case1 sp scope index hlo hhi hnone =>
    intro memo
    rw [scanFrom_past hhi hnone]
    exact .past hhi
  | case2 sp scope index hlo hhi i hi ih ihdefine ihbody =>
    intro memo
    cases ha : i.action with
    | print s =>
      rw [scanFrom_print hhi hi ha]
      exact .print hhi (ih memo)
    | define =>
      cases hb : i.body index sp.hi with
      | ok body =>
        obtain ⟨hstart, hle, -⟩ := Instruction.body_eq_ok hb
        rw [scanFrom_define hhi hi ha hb]
        exact .define hhi hstart (by omega) (ihdefine body hb memo)
      | error f =>
        rw [scanFrom_define_error hhi hi ha hb]
        exact .fail hhi
    | run =>
      cases hf : scope.find? i.name with
      | some body =>
        cases hknown : memo.find? body.span with
        | some known =>
          rw [scanFrom_run_known hhi hi ha hf hknown]
          exact .reuse hhi (Scope.mem_of_find? hf) hknown (ih memo)
        | none =>
          rw [scanFrom_run_new hhi hi ha hf hknown]
          exact .call hhi (Scope.mem_of_find? hf) hknown (ihbody body _) (ih _)
      | none =>
        rw [scanFrom_run_undefined hhi hi ha hf]
        exact .fail hhi
    | invalid =>
      rw [scanFrom_invalid hhi hi ha]
      exact .fail hhi
  | case3 sp scope index hlo hhi =>
    intro memo
    rw [scanFrom_end hhi]
    exact .done

/-- A scan reads where it starts, unless it is over. -/
theorem index_mem_reads {μ : Type} {k : Recall μ} {code : Array Instruction} {sp : Span}
    {scope : Scope sp} {index : Nat} {hlo : sp.lo ≤ index} {memory : μ} (hhi : index < sp.hi) :
    index ∈ (scanFrom k code sp memory scope index hlo).1.reads := by
  rw [scanFrom, dif_pos hhi]
  repeat' split
  all_goals exact List.mem_cons_self

/-- Programs that agree on all that is read are scanned alike. -/
theorem scanFrom_congr_reads {μ : Type} {k : Recall μ} {code code' : Array Instruction} (sp : Span)
    (scope : Scope sp) (index : Nat) (hlo : sp.lo ≤ index) :
    ∀ memory, (∀ j ∈ (scanFrom k code sp memory scope index hlo).1.reads, code'[j]? = code[j]?) →
      scanFrom k code' sp memory scope index hlo = scanFrom k code sp memory scope index hlo := by
  induction sp, scope, index, hlo using walk.induct code with
  | case1 sp scope index hlo hhi hnone =>
    intro memory hsame
    rw [scanFrom_past hhi hnone] at hsame ⊢
    have hnone' := (hsame index List.mem_cons_self).trans hnone
    rw [scanFrom_past hhi hnone']
  | case2 sp scope index hlo hhi i hi ih ihdefine ihbody =>
    intro memory hsame
    have hread : index ∈ (scanFrom k code sp memory scope index hlo).1.reads :=
      index_mem_reads hhi
    have hi' := (hsame index hread).trans hi
    cases ha : i.action with
    | print s =>
      rw [scanFrom_print hhi hi ha] at hsame ⊢
      rw [scanFrom_print hhi hi' ha, ih memory fun j hj => hsame j (List.mem_cons_of_mem _ hj)]
    | define =>
      cases hb : i.body index sp.hi with
      | ok body =>
        rw [scanFrom_define hhi hi ha hb] at hsame ⊢
        rw [scanFrom_define hhi hi' ha hb,
          ihdefine body hb memory fun j hj => hsame j (List.mem_cons_of_mem _ hj)]
      | error f => rw [scanFrom_define_error hhi hi ha hb, scanFrom_define_error hhi hi' ha hb]
    | run =>
      cases hf : scope.find? i.name with
      | some body =>
        cases hknown : k.find? memory body.span with
        | some known =>
          rw [scanFrom_run_known hhi hi ha hf hknown] at hsame ⊢
          rw [scanFrom_run_known hhi hi' ha hf hknown,
            ih memory fun j hj => hsame j (List.mem_cons_of_mem _ hj)]
        | none =>
          rw [scanFrom_run_new hhi hi ha hf hknown] at hsame ⊢
          have hbody : scanBody k code' memory body.span = scanBody k code memory body.span := by
            rw [scanBody, scanBody, ihbody body _ fun j hj =>
              hsame j (List.mem_cons_of_mem _ (List.mem_append_left _ hj))]
          rw [scanFrom_run_new hhi hi' ha hf hknown, hbody,
            ih _ fun j hj => hsame j (List.mem_cons_of_mem _ (List.mem_append_right _ hj))]
      | none => rw [scanFrom_run_undefined hhi hi ha hf, scanFrom_run_undefined hhi hi' ha hf]
    | invalid => rw [scanFrom_invalid hhi hi ha, scanFrom_invalid hhi hi' ha]
  | case3 sp scope index hlo hhi =>
    intro _ _
    rw [scanFrom_end hhi, scanFrom_end hhi]

/-- Compiling a program reads every instruction at most once and compiles every range at most once,
though a body may be run from any number of places, and gives the steps that compiling bodies anew
at every run gives.

The scan holds all that is read on the way: the steps of the artifact come from it, and programs of
one length that agree on what it reads have the same artifact.  The memo is the one that compiling
leaves behind, in which every range that was compiled has begun. -/
theorem compiles_each_once (p : Program) :
    let compiled := compileSpan p.toArray [] p.whole
    let scan := (scanBody .memo p.toArray [] p.whole).1
    p.compile.steps = compiled.1 ∧ compiled.1 = scan.steps ∧
    (∀ q : Program, q.length = p.length → (∀ j ∈ scan.reads, q[j]? = p[j]?) →
      q.compile.steps = p.compile.steps) ∧
    scan.reads.Nodup ∧
    compiled.2.begun = (p.whole :: scan.bodies).reverse ∧ compiled.2.begun.Nodup ∧
    p.compile.steps = steps p.toArray p.whole := by
  intro compiled scan
  have hcompiled : compiled = (scan.steps, (scanBody .memo p.toArray [] p.whole).2) :=
    compileSpan_eq_scanBody rfl
  have hshared := shared_scanFrom p.toArray p.whole [] p.whole.lo p.whole.le_start
    (Memo.begin [] p.whole)
  have hbegun : compiled.2.begun = (p.whole :: scan.bodies).reverse := by
    rw [hcompiled, List.reverse_cons]
    exact hshared.begun_eq
  obtain ⟨hnew, hnodup⟩ := hshared.nodup_bodies
  refine ⟨rfl, congrArg Prod.fst hcompiled, ?_, hshared.nodup_reads (.nil _), hbegun, ?_, ?_⟩
  · intro q hlength hsame
    have hwhole : q.whole = p.whole := congrArg (Span.mk 0) hlength
    have hscan : scanBody .memo q.toArray [] p.whole = scanBody .memo p.toArray [] p.whole := by
      rw [scanBody, scanBody, scanFrom_congr_reads]
      intro j hj
      simpa using hsame j hj
    have hq : q.compile.steps = (compileSpan q.toArray [] q.whole).1 := rfl
    have hp : p.compile.steps = compiled.1 := rfl
    rw [hq, hp, hcompiled, hwhole, compileSpan_eq_scanBody rfl, hscan]
  · rw [hbegun, (List.reverse_perm _).nodup_iff, List.nodup_cons]
    refine ⟨fun hmem => ?_, hnodup⟩
    have hfind := hnew p.whole hmem
    rw [Memo.find?_begin, if_pos rfl] at hfind
    cases hfind
  · rw [compile_eq]

end Program
end Birdcall
