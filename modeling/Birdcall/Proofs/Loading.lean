import Birdcall.Engine
import Birdcall.Proofs.Act
import Birdcall.Proofs.Grammar
import Birdcall.Proofs.Scanning

/-!
# Loading programs

What a source holds does not depend on who reads it, and not on what it is called.

* Names.  Two sources of the same content give the same characters (`Input.Same.drain`), so the same
  words, and either both spell a program or neither does (`Program.ofTokens_eq_error`).
* Loading.  `World.load` gives the program of the source in every world, and changes nothing but the
  record (`World.outcome_load`).  A text that cannot be spelled when it is listed cannot be loaded
  either, under any name (`Source.program_of_lex`).
-/

namespace Birdcall

/-! ## Names -/

namespace Input

/-- Two inputs that are to give the same characters. -/
structure Same (inp inp' : Input) : Prop where
  queue : inp.queue.map (·.content) = inp'.queue.map (·.content)
  active : inp.active.map (·.stream) = inp'.active.map (·.stream)

/-- Two readings that gave the same, and leave the same to be read. -/
structure Reading.Same (r r' : Reading) : Prop where
  read : r.read = r'.read
  input : r.input.Same r'.input

theorem same_current? (latest latest' : Location) {a a' : Active} {queue queue' : List Source}
    (ha : a.stream = a'.stream) (hqueue : queue.map (·.content) = queue'.map (·.content)) :
    (current? latest a queue = none ∧ current? latest' a' queue' = none) ∨
      ∃ r r', current? latest a queue = some r ∧ current? latest' a' queue' = some r' ∧
        r.Same r' := by
  simp only [current?, ha]
  cases hread : a'.stream.nextChar.1 with
  | char c n => exact .inr ⟨_, _, rfl, rfl, rfl, hqueue, rfl⟩
  | nothing => exact .inr ⟨_, _, rfl, rfl, rfl, hqueue, rfl⟩
  | fault e =>
    cases e with
    | endOfInput => exact .inl ⟨rfl, rfl⟩
    | noProgress => exact .inr ⟨_, _, rfl, rfl, rfl, hqueue, rfl⟩
    | failed message => exact .inr ⟨_, _, rfl, rfl, rfl, hqueue, rfl⟩

theorem same_nextFrom {latest latest' : Location} {a a' : Active} {queue queue' : List Source}
    (ha : a.stream = a'.stream) (hqueue : queue.map (·.content) = queue'.map (·.content)) :
    (nextFrom latest a queue).Same (nextFrom latest' a' queue') := by
  induction queue generalizing a a' queue' with
  | nil =>
    obtain rfl : queue' = [] := List.map_eq_nil_iff.1 hqueue.symm
    rw [nextFrom, nextFrom]
    rcases same_current? latest latest' ha hqueue with
      ⟨h, h'⟩ | ⟨r, r', h, h', hsame⟩
    · rw [h, h']
      exact ⟨rfl, rfl, rfl⟩
    · rw [h, h']
      exact hsame
  | cons s rest ih =>
    cases queue' with
    | nil => cases hqueue
    | cons s' rest' =>
      obtain ⟨hcontent, hrest⟩ := List.cons.inj hqueue
      rw [nextFrom, nextFrom]
      rcases same_current? latest latest' ha hqueue with
        ⟨h, h'⟩ | ⟨r, r', h, h', hsame⟩
      · rw [h, h']
        -- The active source is over on both sides, and the next one is opened.
        have hstream : (Active.ofSource s).stream = (Active.ofSource s').stream :=
          congrArg Stream.ofContent hcontent
        exact ⟨(ih hstream hrest).read, (ih hstream hrest).input⟩
      · rw [h, h']
        exact hsame

namespace Same

variable {inp inp' : Input}

theorem next (h : inp.Same inp') : inp.next.Same inp'.next := by
  obtain ⟨queue, active, latest⟩ := inp
  obtain ⟨queue', active', latest'⟩ := inp'
  obtain ⟨hqueue, hactive⟩ := h
  cases active with
  | some a =>
    cases active' with
    | none => cases hactive
    | some a' => exact same_nextFrom (Option.some.inj hactive) hqueue
  | none =>
    cases active' with
    | some a' => cases hactive
    | none =>
      cases queue with
      | nil =>
        obtain rfl : queue' = [] := List.map_eq_nil_iff.1 hqueue.symm
        exact ⟨rfl, rfl, rfl⟩
      | cons s rest =>
        cases queue' with
        | nil => cases hqueue
        | cons s' rest' =>
          obtain ⟨hcontent, hrest⟩ := List.cons.inj hqueue
          exact same_nextFrom (congrArg Stream.ofContent hcontent) hrest

/-- Inputs that are to give the same characters do, and stop at the same fault. -/
theorem drain (h : inp.Same inp') :
    inp.drain.chars.map (·.1) = inp'.drain.chars.map (·.1) ∧
      inp.drain.fault = inp'.drain.fault := by
  induction inp using Input.drain.induct generalizing inp' with
  | case1 inp c n hread ih =>
    obtain ⟨hchars, hfault⟩ := ih h.next.input
    have hread' : inp'.next.read = .char c n := h.next.read ▸ hread
    rw [drain_char hread, drain_char hread']
    exact ⟨congrArg (c :: ·) hchars, hfault⟩
  | case2 inp hread =>
    rw [drain_end hread, drain_end (h.next.read ▸ hread)]
    exact ⟨rfl, rfl⟩
  | case3 inp e hne hread =>
    rw [drain_fault hread hne, drain_fault (h.next.read ▸ hread) hne]
    exact ⟨rfl, rfl⟩
  | case4 inp hread =>
    rw [drain_nothing hread, drain_nothing (h.next.read ▸ hread)]
    exact ⟨rfl, rfl⟩

end Same
end Input

namespace Token

/-- A token without its place. -/
def word (t : Token) : Kind × Text := (t.kind, t.text)

theorem word_classify (w : Text) (loc loc' : Location) :
    (classify w loc).word = (classify w loc').word := by
  simp only [classify]
  split <;> rfl

/-- The words of characters do not depend on where these stand. -/
theorem map_words {chars chars' : List (Char × Location)}
    (h : chars.map (·.1) = chars'.map (·.1)) :
    (words chars).map (·.map (·.1)) = (words chars').map (·.map (·.1)) := by
  have hparted : ∀ cs : List (Char × Location),
      Parted Text.isBlank (cs.map (·.1)) ((words cs).map (·.map (·.1))) :=
    fun cs => (parted_words cs).map fun _ => rfl
  have hchars := hparted chars
  rw [h] at hchars
  exact (hparted chars').unique hchars

theorem map_word_ofChars {chars chars' : List (Char × Location)}
    (h : chars.map (·.1) = chars'.map (·.1)) :
    (ofChars chars).map word = (ofChars chars').map word := by
  have hword : ∀ w, (ofWord w).word = (classify (Text.encode (w.map (·.1))) .zero).word :=
    fun w => word_classify _ _ _
  have hmap : ∀ cs, (ofChars cs).map word =
      ((words cs).map (·.map (·.1))).map fun cs => (classify (Text.encode cs) .zero).word := by
    intro cs
    rw [ofChars, List.map_map, List.map_map]
    exact List.map_congr_left fun w _ => hword w
  rw [hmap, hmap, map_words h]

end Token

/-- What matters of a word: its kind, and the text only if it is a name. -/
def Kind.bare (w : Kind × Text) : Kind × Text := (w.1, if w.1 = .identifier then w.2 else [])

/-- What matters of a token. -/
def Token.bare (t : Token) : Kind × Text := Kind.bare t.word

theorem Token.of_bare_eq {t t' : Token} (h : t.bare = t'.bare) :
    t.kind = t'.kind ∧ (t.kind = .identifier → t.text = t'.text) := by
  obtain ⟨hkind, htext⟩ := Prod.mk.inj h
  refine ⟨hkind, fun hname => ?_⟩
  have hkind : t.kind = t'.kind := hkind
  have hname' : t'.kind = .identifier := hkind.symm.trans hname
  simpa [word, hname, hname'] using htext

/-- Statements are spelled by what matters of the tokens. -/
theorem Spells.of_map_bare {tokens tokens' : List Token} {t : List Statement}
    (h : Spells tokens t) (hbare : tokens.map Token.bare = tokens'.map Token.bare) :
    Spells tokens' t := by
  induction h generalizing tokens' with
  | nil =>
    obtain rfl : tokens' = [] := List.map_eq_nil_iff.1 hbare.symm
    exact .nil
  | print ht hs _ ih =>
    obtain ⟨t', rest', rfl, ht', hrest⟩ := List.map_eq_cons_iff.1 hbare.symm
    have hkind := (Token.of_bare_eq ht').1
    exact .print (hkind.trans ht) hs (ih hrest.symm)
  | @run t n _ _ ht hn _ ih =>
    obtain ⟨t', tail, rfl, ht', htail⟩ := List.map_eq_cons_iff.1 hbare.symm
    obtain ⟨n', rest', rfl, hn', hrest⟩ := List.map_eq_cons_iff.1 htail
    have hkind := (Token.of_bare_eq ht').1
    obtain ⟨hname, htext⟩ := Token.of_bare_eq hn'.symm
    rw [htext hn.1] at hn ⊢
    exact .run (hkind.trans ht) ⟨hname.symm.trans hn.1, hn.2⟩ (ih hrest.symm)
  | @define t n e _ _ _ _ ht hn _ he _ ihbody ih =>
    obtain ⟨t', tail, rfl, ht', htail⟩ := List.map_eq_cons_iff.1 hbare.symm
    obtain ⟨n', rest', rfl, hn', hrest⟩ := List.map_eq_cons_iff.1 htail
    rw [List.map_append] at hrest
    obtain ⟨inner', last, rfl, hinner, hlast⟩ := List.map_eq_append_iff.1 hrest
    obtain ⟨e', after', rfl, he', hafter⟩ := List.map_eq_cons_iff.1 hlast
    have hkind := (Token.of_bare_eq ht').1
    have hend := (Token.of_bare_eq he').1
    obtain ⟨hname, htext⟩ := Token.of_bare_eq hn'.symm
    rw [htext hn.1] at hn ⊢
    exact .define (hkind.trans ht) ⟨hname.symm.trans hn.1, hn.2⟩ (ihbody hinner.symm)
      (hend.trans he) (ih hafter.symm)

/-- Statements are spelled by words, wherever these stand. -/
theorem Spells.of_map_word {tokens tokens' : List Token} {t : List Statement}
    (h : Spells tokens t) (hwords : tokens.map Token.word = tokens'.map Token.word) :
    Spells tokens' t := by
  have hbare := congrArg (List.map Kind.bare) hwords
  rw [List.map_map, List.map_map] at hbare
  exact h.of_map_bare hbare

/-- The same words in other places spell no program either. -/
theorem Program.ofTokens_eq_error {tokens tokens' : List Token} {e : SyntaxError}
    (h : ofTokens tokens = .error e) (hwords : tokens.map Token.word = tokens'.map Token.word) :
    ∃ e', ofTokens tokens' = .error e' := by
  cases h' : ofTokens tokens' with
  | error e' => exact ⟨e', rfl⟩
  | ok p =>
    obtain ⟨t, hspells, hp⟩ := ofTokens_eq_ok_iff.1 h'
    have hok := ofTokens_eq_ok_iff.2 ⟨t, hspells.of_map_word hwords.symm, hp⟩
    rw [h] at hok
    cases hok

/-! ## Loading -/

/-- What comes of loading a source. -/
def Source.program (s : Source) : Except Stop Program := (Act.outcome (World.load s) .empty).1

namespace World

theorem outcome_closed (labels : List String) (w : World) :
    ∃ events, Act.outcome (labels.forM fun label => doing (Outside.record (.closed label))) w =
      (.ok (), { w with outside.events := events }) := by
  induction labels generalizing w with
  | nil => exact ⟨_, rfl⟩
  | cons label labels ih =>
    exact ih { w with outside.events := w.outside.events.push (.closed label) }

/-- Loading a source gives what its words spell, and changes nothing but the record. -/
theorem outcome_load_eq (s : Source) (w : World) :
    ∃ events, Act.outcome (load s) w =
      ((match (Input.ofSources [s]).scan.1 with
        | .error e => .error (.failed (.reading e))
        | .ok tokens =>
          match Program.ofTokens tokens with
          | .error e => .error (.failed (.spelling e))
          | .ok p => .ok p),
        { w with outside.events := events }) := by
  obtain ⟨events, hclosed⟩ := outcome_closed (Input.ofSources [s]).scan.2 w
  refine ⟨events, ?_⟩
  rw [load, Act.outcome_bind, hclosed]
  cases (Input.ofSources [s]).scan.1 with
  | error e => rfl
  | ok tokens =>
    simp only
    cases Program.ofTokens tokens with
    | error e => rfl
    | ok p => rfl

theorem outcome_load (s : Source) (w : World) :
    ∃ events, Act.outcome (load s) w =
      (s.program, { w with outside.events := events }) := by
  obtain ⟨events, h⟩ := outcome_load_eq s w
  obtain ⟨_, hempty⟩ := outcome_load_eq s .empty
  exact ⟨events, by rw [h, Source.program, hempty]⟩

end World

/-- A text that spells no program when it is listed cannot be loaded, whatever it is called. -/
theorem Source.program_of_lex {content : Text} {e : SyntaxError}
    (h : Program.ofTokens (Token.lex content) = .error e) (name : Text) :
    ∃ stop, ((Source.ofText content).named name).program = .error stop := by
  have hsame : Input.Same (.ofSources [(Source.ofText content).named (Text.ofString "input")])
      (.ofSources [(Source.ofText content).named name]) := ⟨rfl, rfl⟩
  obtain ⟨hchars, hfault⟩ := hsame.drain
  obtain ⟨_, hload⟩ := World.outcome_load_eq ((Source.ofText content).named name) .empty
  rw [Source.program, hload]
  rw [Token.lex] at h
  rw [Input.scan_eq] at h ⊢
  simp only [hfault] at h ⊢
  cases hdrained : (Input.ofSources [(Source.ofText content).named name]).drain.fault with
  | some fault => exact ⟨_, rfl⟩
  | none =>
    simp only [hdrained] at h ⊢
    obtain ⟨e', he'⟩ := Program.ofTokens_eq_error h (Token.map_word_ofChars hchars)
    exact ⟨_, by rw [he']⟩

end Birdcall
