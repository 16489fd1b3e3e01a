import Birdcall.Yaml.Decode

/-!
# What decoding ensures

`Decode.Ensures P a` says that whatever `a` gives has the property `P`, however many nodes were
counted and whatever was noted before.  A property that a receiver keeps when it takes a pair holds
of what a whole mapping is decoded to, with the mappings it takes over.  All these mappings are in
the document (`Node.Inside`), so only the keys of its mappings count (`Decode.Names`).
-/

namespace Birdcall.Yaml

theorem Double.lt_of_toInteger? {d : Double} {i : Int} (h : d.toInteger? = some i) :
    i < Text.integerLimit := by
  have hlimit : (0 : Int) < Text.integerLimit := by decide
  cases d with
  | nan => cases h
  | infinite negative =>
    cases negative with
    | true =>
      cases h
      omega
    | false => cases h
  | finite negative m e =>
    simp only [toInteger?] at h
    split at h
    · cases h
      split <;> omega
    · split at h
      · cases h
        omega
      · split at h
        · cases h
          omega
        · cases h

/-! ## Nodes in a document -/

namespace Node

/-- A node is another one or somewhere inside of it. -/
inductive Inside : Node → Node → Prop
  | self (n : Node) : Inside n n
  | item {n x : Node} {start : Mark} {anchor : Option Text} {tag : Tag} {items : List Node}
      (hx : x ∈ items) (h : Inside n x) : Inside n (.sequence start anchor tag items)
  | key {n : Node} {p : Node × Node} {start : Mark} {anchor : Option Text} {tag : Tag}
      {pairs : List (Node × Node)} (hp : p ∈ pairs) (h : Inside n p.1) :
      Inside n (.mapping start anchor tag pairs)
  | value {n : Node} {p : Node × Node} {start : Mark} {anchor : Option Text} {tag : Tag}
      {pairs : List (Node × Node)} (hp : p ∈ pairs) (h : Inside n p.2) :
      Inside n (.mapping start anchor tag pairs)

variable {n m root : Node} {place : Nat}

theorem Inside.trans (h : Inside n m) (hm : Inside m root) : Inside n root := by
  induction hm with
  | self => exact h
  | item hx _ ih => exact .item hx ih
  | key hp _ ih => exact .key hp ih
  | value hp _ ih => exact .value hp ih

mutual

theorem inside_of_find? (root : Node) (h : find? place root = some n) : Inside n root := by
  cases root with
  | scalar start anchor tag value =>
    rw [find?] at h
    split at h
    · cases h
      exact .self _
    · cases h
  | sequence start anchor tag items =>
    rw [find?] at h
    split at h
    · cases h
      exact .self _
    · obtain ⟨x, hx, hn⟩ := inside_of_findInItems? items h
      exact .item hx hn
  | mapping start anchor tag pairs =>
    rw [find?] at h
    split at h
    · cases h
      exact .self _
    · obtain ⟨p, hp, hn⟩ := inside_of_findInPairs? pairs h
      exact hn.elim (.key hp) (.value hp)
  | reference => cases h

theorem inside_of_findInItems? (items : List Node) (h : findInItems? place items = some n) :
    ∃ x ∈ items, Inside n x := by
  match items with
  | [] => cases h
  | x :: rest =>
    rw [findInItems?, Option.or_eq_some_iff] at h
    obtain h | ⟨-, h⟩ := h
    · exact ⟨x, List.mem_cons_self, inside_of_find? x h⟩
    · obtain ⟨y, hy, hn⟩ := inside_of_findInItems? rest h
      exact ⟨y, List.mem_cons_of_mem x hy, hn⟩

theorem inside_of_findInPairs? (pairs : List (Node × Node))
    (h : findInPairs? place pairs = some n) : ∃ p ∈ pairs, Inside n p.1 ∨ Inside n p.2 := by
  match pairs with
  | [] => cases h
  | (k, v) :: rest =>
    rw [findInPairs?, Option.or_eq_some_iff, Option.or_eq_some_iff] at h
    obtain h | ⟨-, h | ⟨-, h⟩⟩ := h
    · exact ⟨(k, v), List.mem_cons_self, .inl (inside_of_find? k h)⟩
    · exact ⟨(k, v), List.mem_cons_self, .inr (inside_of_find? v h)⟩
    · obtain ⟨p, hp, hn⟩ := inside_of_findInPairs? rest h
      exact ⟨p, List.mem_cons_of_mem (k, v) hp, hn⟩

end

/-- What an alias in a document stands for is in the document. -/
theorem inside_follow (h : Inside n root) : Inside (Decode.follow root n) root := by
  cases n with
  | reference start name target =>
    rw [Decode.follow]
    cases hfind : root.find? target with
    | none => exact h
    | some found => exact inside_of_find? root hfind
  | _ => exact h

/-- A document has a mapping with these pairs. -/
def Has (root : Node) (pairs : List (Node × Node)) : Prop :=
  ∃ start anchor tag, Inside (.mapping start anchor tag pairs) root

theorem Has.value {pairs : List (Node × Node)} (h : root.Has pairs) {p : Node × Node}
    (hp : p ∈ pairs) : Inside p.2 root := by
  obtain ⟨start, anchor, tag, hinside⟩ := h
  exact Inside.trans (.value hp (.self p.2)) hinside

end Node

namespace Decode

variable {σ α β : Type} {P : α → Prop} {Q : β → Prop} {a : Decode α} {root : Node}

/-- A mapping of a document has this key, if its keys are read as texts. -/
def Names (root : Node) (key : Text) : Prop :=
  ∃ pairs, root.Has pairs ∧ ∃ p ∈ pairs, ∃ t t', text root p.1 t = .ok (some key) t'

/-! ## Properties of what is decoded -/

/-- Whatever a decoding gives has a property. -/
def Ensures (P : α → Prop) (a : Decode α) : Prop := ∀ t x t', a t = .ok x t' → P x

theorem ensures_pure {x : α} (h : P x) : Ensures P (pure x) := by
  intro t y t' hy
  cases hy
  exact h

/-- What a decoding gives, it can give. -/
theorem ensures_self (a : Decode α) : Ensures (fun x => ∃ t t', a t = .ok x t') a :=
  fun t _ t' h => ⟨t, t', h⟩

theorem ensures_throw (stop : Stop) : Ensures P (throw stop : Decode α) := by
  intro t x t' h
  cases h

theorem Ensures.bind {f : β → Decode α} {b : Decode β} (hb : Ensures Q b)
    (hf : ∀ y, Q y → Ensures P (f y)) : Ensures P (b >>= f) := by
  intro t x t' h
  simp only [Bind.bind, EStateM.bind] at h
  split at h
  next y t₁ hy => exact hf y (hb t y t₁ hy) _ _ _ h
  next => cases h

/-- What comes last decides. -/
theorem ensures_bind {f : β → Decode α} (b : Decode β) (hf : ∀ y, Ensures P (f y)) :
    Ensures P (b >>= f) :=
  Ensures.bind (Q := fun _ => True) (fun _ _ _ _ => trivial) fun y _ => hf y

theorem ensures_entering (n : Node) {decode : Node → Decode α}
    (h : Ensures P (decode (follow root n))) : Ensures P (entering root n decode) := by
  refine ensures_bind _ fun _ => ?_
  cases n with
  | reference start name target =>
    refine ensures_bind _ fun t => ?_
    dsimp only
    have hrest := ensures_bind (modify fun t' => { t' with active := start.index :: t.active })
      fun _ => ensures_bind visit fun _ => h.bind
        fun x hx => ensures_bind (modify fun t' => { t' with active := t.active })
          fun _ => ensures_pure hx
    split
    · exact ensures_bind _ fun _ => hrest
    · exact hrest
  | _ => exact h

/-- What every round of a loop keeps holds at its end. -/
theorem ensures_loop {xs : List β} {f : β → α → Decode (ForInStep α)} {x : α} (hx : P x)
    (hf : ∀ y ∈ xs, ∀ x, P x → Ensures (fun step => ∃ x, step = .yield x ∧ P x) (f y x)) :
    Ensures P (forIn xs x f) := by
  induction xs generalizing x with
  | nil => exact ensures_pure hx
  | cons y xs ih =>
    rw [List.forIn_cons]
    refine (hf y List.mem_cons_self x hx).bind ?_
    rintro _ ⟨x', rfl, hx'⟩
    exact ih hx' fun z hz => hf z (List.mem_cons_of_mem y hz)

theorem ensures_foldlM {f : α → β → Decode α} {xs : List β} {x : α} (hx : P x)
    (hf : ∀ y ∈ xs, ∀ x, P x → Ensures P (f x y)) : Ensures P (xs.foldlM f x) := by
  induction xs generalizing x with
  | nil => exact ensures_pure hx
  | cons y xs ih =>
    rw [List.foldlM_cons]
    exact (hf y List.mem_cons_self x hx).bind fun x' hx' =>
      ih hx' fun z hz => hf z (List.mem_cons_of_mem y hz)

/-- A receiver that keeps a property when it takes a pair of a document. -/
def Receiver.Keeps (r : Receiver σ) (root : Node) (P : σ → Prop) : Prop :=
  ∀ merged earlier key k v s, Names root key → P s → Ensures P (r.pair merged earlier key k v s)

section Keeps

variable {P : σ → Prop} {r : Receiver σ} {s : σ} {pairs : List (Node × Node)}

theorem ensures_ownPairs (hr : r.Keeps root P) (hpairs : root.Has pairs)
    (taken : Option (List Value)) (hs : P s) :
    Ensures (fun x => P x.2) (ownPairs root r taken pairs s) := by
  refine Ensures.bind (Q := fun x => P x.2.1) (ensures_loop hs ?_) fun x hx => ensures_pure hx
  rintro ⟨k, v⟩ hp x hx
  dsimp only
  have hsame : ∃ x', ForInStep.yield (x.1, x.2.1, x.2.2) = .yield x' ∧ P x'.2.1 := ⟨x, rfl, hx⟩
  split
  · refine (ensures_self (text root k)).bind fun key? hkey? => ?_
    cases key? with
    | none => exact ensures_pure hsame
    | some key =>
      dsimp only
      split
      · exact (hr _ _ _ _ _ _ ⟨pairs, hpairs, _, hp, hkey?⟩ hx).bind
          fun s' hs' => ensures_pure ⟨_, rfl, hs'⟩
      · exact ensures_pure hsame
  · exact ensures_pure hsame

theorem ensures_takeOver {again : List (Node × Node) → σ → Decode σ} {source : Node}
    (hsource : source.Inside root) (hs : P s)
    (hagain : ∀ pairs s, root.Has pairs → P s → Ensures P (again pairs s)) :
    Ensures P (takeOver root again source s) := by
  refine ensures_foldlM hs fun n hn s hs => ?_
  have hinside : n.Inside root := by
    cases source with
    | sequence => exact Node.Inside.trans (.item hn (.self n)) hsource
    | _ => exact List.mem_singleton.1 hn ▸ hsource
  split
  next start anchor tag pairs hfollow =>
    have hpairs : root.Has pairs := ⟨start, anchor, tag, hfollow ▸ Node.inside_follow hinside⟩
    exact ensures_entering n (hagain pairs s hpairs hs)
  next => exact ensures_throw _

theorem ensures_mappingWith {any : Node → Decode (Option Thing)}
    {own : Option (List Value) → List (Node × Node) → σ → Decode (Option (List Value) × σ)}
    {again : List (Node × Node) → σ → Decode σ} (hpairs : root.Has pairs)
    (hown : ∀ taken, Ensures (fun x => P x.2) (own taken pairs s))
    (hagain : ∀ pairs s, root.Has pairs → P s → Ensures P (again pairs s)) :
    Ensures (fun x => ∀ s ∈ x, P s) (mappingWith root any own again pairs s) := by
  refine ensures_bind _ fun distinct => ?_
  cases distinct with
  | false => exact ensures_pure (by simp)
  | true =>
    refine ensures_bind _ fun t => ensures_bind _ fun _ => (hown t.taken).bind ?_
    rintro ⟨taken, s'⟩ hs'
    refine ensures_bind _ fun _ => ?_
    split
    next => exact ensures_pure (by simpa using hs')
    next key source hlast =>
      have hmem : (key, source) ∈ pairs :=
        (List.mem_filter.1 (List.mem_of_mem_getLast? hlast)).1
      have hover : Ensures P (takeOver root again source s') :=
        ensures_takeOver (hpairs.value hmem) hs' hagain
      cases taken with
      | none =>
        exact ensures_bind _ fun _ => hover.bind fun s hs =>
          ensures_bind _ fun _ => ensures_pure (by simpa using hs)
      | some taken => exact hover.bind fun s hs => ensures_pure (by simpa using hs)

theorem ensures_mappingWithin (hr : r.Keeps root P) (limit fuel : Nat) (hpairs : root.Has pairs)
    (hs : P s) : Ensures P (mappingWithin root r limit fuel pairs s) := by
  induction fuel generalizing pairs s with
  | zero => exact ensures_throw _
  | succ fuel ih =>
    refine (ensures_mappingWith hpairs (fun taken => ensures_ownPairs hr hpairs taken hs)
      fun pairs s hpairs hs => ih hpairs hs).bind fun x hx => ensures_pure ?_
    cases x with
    | none => exact hs
    | some s' => exact hx s' rfl

theorem ensures_mapping (hr : r.Keeps root P) (hpairs : root.Has pairs) (hs : P s) :
    Ensures P (mapping root r pairs s) :=
  ensures_mappingWithin hr _ _ hpairs hs

end Keeps

/-- What a scalar is decoded to fits its place. -/
theorem ensures_scalar (n : Node) (type : String) {fit : Tag → Text → Value → Option α}
    (hfit : ∀ tag value v, ∀ x ∈ fit tag value v, P x) :
    Ensures (fun y => ∀ x ∈ y, P x) (scalar n type fit) := by
  have hnone : ∀ x ∈ (none : Option α), P x := by simp
  cases n with
  | scalar m anchor tag value =>
    refine ensures_bind _ fun v => ?_
    have hv := hfit tag value v
    cases v with
    | null => exact ensures_pure hnone
    | _ =>
      dsimp only
      split
      next x hx => exact ensures_pure (by simpa [hx] using hv)
      next => exact ensures_bind _ fun _ => ensures_pure hnone
  | sequence => exact ensures_bind _ fun _ => ensures_pure hnone
  | mapping m anchor tag pairs =>
    refine ensures_bind _ fun distinct => ?_
    cases distinct with
    | true => exact ensures_bind _ fun _ => ensures_pure hnone
    | false => exact ensures_pure hnone
  | reference => exact ensures_throw _

/-- A decoded integer is below the limit of 64 bits. -/
theorem ensures_integer (n : Node) :
    Ensures (fun x => ∀ i ∈ x, i < (Text.integerLimit : Int)) (integer root n) := by
  refine ensures_entering n (ensures_scalar _ "int" fun _ _ v i hi => ?_)
  cases v with
  | integer j =>
    simp only [Option.mem_def, Option.ite_none_right_eq_some, Option.some.injEq] at hi
    omega
  | float d => exact Double.lt_of_toInteger? hi
  | _ => cases hi

end Decode

end Birdcall.Yaml
