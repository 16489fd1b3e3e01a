import Birdcall.Proofs.Yaml.Node
import Birdcall.Yaml.Decode

/-!
# Decoding without notes

Scalars that suit their places and mappings with distinct plain keys are decoded without a note.
`Decode.Gives` says of a part of decoding that it does nothing but count nodes, and `Decode.Takes`
follows a mapping pair by pair.
-/

namespace Birdcall.Yaml

/-- A tally of some nodes with nothing to note, outside of any alias. -/
def Tally.seen (n : Nat) : Tally := ⟨[], n, 0, [], none⟩

namespace Decode

variable {σ α β : Type} {a : Decode α} {x : α} {y : β} {root : Node}

/-- A decoding gives a value and notes nothing. -/
def Gives (a : Decode α) (x : α) : Prop := ∀ n, ∃ m, a (.seen n) = .ok x (.seen m)

theorem gives_pure (x : α) : Gives (pure x) x := fun n => ⟨n, rfl⟩

theorem Gives.bind {f : α → Decode β} (ha : Gives a x) (hf : Gives (f x) y) :
    Gives (a >>= f) y := by
  intro n
  obtain ⟨m, hm⟩ := ha n
  obtain ⟨l, hl⟩ := hf m
  refine ⟨l, ?_⟩
  simp only [Bind.bind, EStateM.bind, hm, hl]

theorem Gives.map (ha : Gives a x) (f : α → β) : Gives (f <$> a) (f x) := by
  rw [map_eq_pure_bind]
  exact ha.bind (gives_pure _)

theorem gives_get {f : Tally → Decode β} (h : ∀ n, Gives (f (.seen n)) y) : Gives (get >>= f) y :=
  fun n => h n n

theorem gives_visit : Gives visit () := fun n => ⟨n + 1, rfl⟩

/-- A node that is no alias is counted once. -/
theorem gives_entering {n : Node} {decode : Node → Decode α}
    (hn : ∀ start name target, n ≠ .reference start name target) (h : Gives (decode n) x) :
    Gives (entering root n decode) x := by
  cases n with
  | reference start name target => exact absurd rfl (hn start name target)
  | _ => exact gives_visit.bind h

/-! ## Scalars -/

/-- A scalar whose value suits its place. -/
theorem gives_scalar (m : Mark) {tag found : Tag} {value : Text} {v : Value} {type : String}
    {fit : Tag → Text → Value → Option α} (hv : Value.ofTagged? tag value = some (found, v))
    (hnull : v ≠ .null) (hfit : fit tag value v = some x) :
    Gives (scalar (.scalar m none tag value) type fit) (some x) := by
  have hvalue : Gives (scalarValue tag value) v := by
    rw [scalarValue, hv]
    exact gives_pure v
  refine hvalue.bind ?_
  cases v with
  | null => exact absurd rfl hnull
  | _ =>
    simp only [hfit]
    exact gives_pure _

/-- A scalar that means a text, be it itself or binary data. -/
theorem gives_text (m : Mark) {tag : Tag} {value t : Text}
    (h : (tag = .str ∨ tag = .merge) ∧ value = t ∨
      tag = .binary ∧ Text.Base64.decode value = some t) :
    Gives (text root (.scalar m none tag value)) (some t) := by
  refine gives_entering (by simp) ?_
  rcases h with ⟨rfl | rfl, rfl⟩ | ⟨rfl, hdata⟩
  · exact gives_scalar m rfl (by simp) rfl
  · exact gives_scalar m rfl (by simp) rfl
  · have hv : Value.ofTagged? .binary value = some (.binary, .text t) := by
      rw [Value.ofTagged?, hdata]
      rfl
    exact gives_scalar m hv (by simp) rfl

/-! ## Mappings -/

/-- A loop that notes nothing. -/
theorem gives_loop {xs : List α} {f : α → Unit → Decode (ForInStep Unit)}
    (h : ∀ x ∈ xs, f x () = pure (.yield ())) : Gives (forIn xs () f) () := by
  induction xs with
  | nil => exact gives_pure ()
  | cons x xs ih =>
    rw [List.forIn_cons, h x List.mem_cons_self, pure_bind]
    exact ih fun y hy => h y (List.mem_cons_of_mem x hy)

/-- No two keys of a mapping have the same text. -/
def Distinct (pairs : List (Node × Node)) : Prop := (pairs.map (·.1.value)).Nodup

theorem gives_noteRepeats {pairs : List (Node × Node)} (h : Distinct pairs) :
    Gives (noteRepeats pairs) () := by
  induction pairs with
  | nil => exact gives_pure ()
  | cons p rest ih =>
    obtain ⟨hp, hrest⟩ := List.nodup_cons.1 h
    refine Gives.bind (gives_loop fun q hq => ?_) (ih hrest)
    have hvalue : p.1.value ≠ q.1.value := fun heq =>
      hp (List.mem_map.2 ⟨q, hq, heq.symm⟩)
    simp [hvalue]

theorem gives_distinct {pairs : List (Node × Node)} (h : Distinct pairs) :
    Gives (distinct pairs) true := by
  exact gives_get fun _ => (gives_noteRepeats h).bind (gives_get fun _ => gives_pure true)

variable {r : Receiver σ} {s s' : σ} {pairs : List (Node × Node)}

/-- A receiver takes the pairs of a mapping one after the other, given the keys before them. -/
inductive Takes (root : Node) (r : Receiver σ) : List Text → σ → List (Node × Node) → σ → Prop
  | nil (earlier : List Text) (s : σ) : Takes root r earlier s [] s
  | cons {earlier : List Text} {s s₁ s₂ : σ} {k v : Node} {key : Text}
      {rest : List (Node × Node)} (hmerge : isMerge k = false)
      (hkey : Gives (text root k) (some key)) (hpair : Gives (r.pair false earlier key k v s) s₁)
      (hrest : Takes root r (key :: earlier) s₁ rest s₂) :
      Takes root r earlier s ((k, v) :: rest) s₂

theorem Takes.isMerge {earlier : List Text} (h : Takes root r earlier s pairs s') :
    ∀ p ∈ pairs, Decode.isMerge p.1 = false := by
  induction h with
  | nil => simp
  | cons hmerge _ _ _ ih => simpa [hmerge] using ih

/-- The loop over the pairs of a mapping, as long as no keys are taken. -/
theorem Takes.loop {earlier : List Text} {f : Node × Node → Option (List Value) × σ × List Text →
      Decode (ForInStep (Option (List Value) × σ × List Text))}
    (hf : ∀ {k v key earlier s s₁}, Decode.isMerge k = false → Gives (text root k) (some key) →
      Gives (r.pair false earlier key k v s) s₁ →
      Gives (f (k, v) (none, s, earlier)) (.yield (none, s₁, key :: earlier)))
    (h : Takes root r earlier s pairs s') :
    ∃ keys, Gives (forIn pairs (none, s, earlier) f) (none, s', keys) := by
  induction h with
  | nil earlier s => exact ⟨earlier, gives_pure _⟩
  | cons hmerge hkey hpair _ ih =>
    obtain ⟨keys, hrest⟩ := ih
    refine ⟨keys, ?_⟩
    rw [List.forIn_cons]
    exact (hf hmerge hkey hpair).bind hrest

theorem Takes.gives (h : Takes root r [] s pairs s') :
    Gives (ownPairs root r none pairs s) (none, s') := by
  refine (h.loop ?_).elim fun keys hloop => hloop.bind (gives_pure (none, s'))
  intro k v key earlier s s₁ hmerge hkey hpair
  simp only [hmerge]
  exact hkey.bind (hpair.bind (gives_pure _))

theorem gives_setTaken : Gives (setTaken none) () := fun n => ⟨n, rfl⟩

theorem Takes.mapping (h : Takes root r [] s pairs s') (hdistinct : Distinct pairs) :
    Gives (Decode.mapping root r pairs s) s' := by
  have hmerge : pairs.filter (fun p => Decode.isMerge p.1) = [] := by
    simpa using h.isMerge
  obtain ⟨fuel, hfuel⟩ : ∃ n, effort root = n + 1 := ⟨effort root - 1, by
    have := Nat.mul_pos (show 0 < 2 * (root.size + 1) by omega) (show 0 < root.size + 1 by omega)
    rw [effort]
    omega⟩
  rw [Decode.mapping, hfuel, mappingWithin]
  refine Gives.bind (x := some s') ?_ (gives_pure s')
  refine (gives_distinct hdistinct).bind (gives_get fun _ => gives_setTaken.bind ?_)
  refine h.gives.bind (gives_setTaken.bind ?_)
  simp only [hmerge, List.getLast?_nil]
  exact gives_pure _

end Decode

/-! ## Texts as scalars -/

namespace Written

/-- What a text as a scalar is decoded to; nothing if it is malformed. -/
def word? (t : Text) : Option Text :=
  if Text.Valid t then (readBack? (Text.decode t)).map Text.encode else some t

theorem found?_eq_none {t : Text} : found? t = none ↔ word? t = none := by
  rw [found?, word?]
  split <;> simp

/-- A text found plain means itself. -/
theorem readBack?_plain {own : Bool} {cs : List Char} (h : styleOf own cs = .plain) :
    own = true ∧ readBack? cs = some cs := by
  by_cases hfeed : '\n' ∈ cs
  · by_cases hblock : (looks cs).block = true <;> simp [styleOf, hfeed, hblock] at h
  · have hown : own = true := by
      cases own with
      | true => rfl
      | false => simp [styleOf, hfeed] at h
    exact ⟨hown, by simp [readBack?, hfeed]⟩

theorem scalarTag_of_meansItself {t : Text} (h : meansItself t = true) :
    Read.scalarTag t .plain = .str ∨ Read.scalarTag t .plain = .merge := by
  simp only [meansItself, Bool.and_eq_true, decide_eq_true_eq] at h
  simp only [Read.scalarTag, h.1.1]
  split <;> simp

end Written

namespace Decode

open Written

theorem gives_found {t : Text} {f : Found} (m : Mark) (h : found? t = some f) :
    ∃ back, word? t = some back ∧
      Gives (text root (.scalar m none f.tag f.value)) (some back) := by
  by_cases hvalid : Text.Valid t
  · simp only [found?, hvalid, if_true, Option.map_eq_some_iff] at h
    obtain ⟨cs, hcs, rfl⟩ := h
    refine ⟨Text.encode cs, by simp [word?, hvalid, hcs], gives_text m (.inl ⟨?_, rfl⟩)⟩
    cases hstyle : styleOf (meansItself t) (Text.decode t) with
    | plain =>
      obtain ⟨hown, hback⟩ := readBack?_plain hstyle
      obtain rfl := Option.some.inj (hback.symm.trans hcs)
      have htext : Text.encode (Text.decode t) = t := hvalid
      simpa [Found.tag, htext] using scalarTag_of_meansItself hown
    | quoted => exact .inl rfl
    | block => exact .inl rfl
  · simp only [found?, hvalid, if_false, Option.some.injEq] at h
    subst h
    exact ⟨t, by simp [word?, hvalid], gives_text m (.inr ⟨rfl, decode_data t⟩)⟩

end Decode

end Birdcall.Yaml
