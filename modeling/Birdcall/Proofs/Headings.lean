import Birdcall.Proofs.Tracing

/-!
# Marks line up and headings nest

What a log line looks like depends on everything that was done with the log before.

* `Log.Use` is one thing that can be done with a log, and `Log.after` the log after a list of them.
* The width of marks is that of the longest one so far (`Log.after_width`), so a mark is as wide as
  this when it is widened by its first character (`Log.widen_ascii`).
* A heading stays until it is dropped.  `Log.active` tells the headings that stay from the uses
  behind each of them, and `Log.after_headings` says that these are the headings of the log.  Uses
  in which every heading is dropped again leave the headings alone
  (`Log.Balanced.after_headings`).
-/

namespace Birdcall.Log

open Text

/-! ## Uses -/

/-- Something that can be done with a log. -/
inductive Use
  /-- Logs a message under a mark. -/
  | write (mark template : Text) (args : List Text)
  | push (heading : Text)
  | pop

/-- What is logged, and the log afterwards. -/
def take (l : Log) : Use → Option (Channel × Text) × Log
  | .write mark template args => l.write mark template args
  | .push heading => (none, l.push heading)
  | .pop => (none, l.pop)

/-- The log after some uses. -/
def after (l : Log) : List Use → Log
  | [] => l
  | u :: uses => (l.take u).2.after uses

/-- A log that goes to a channel and was not used yet. -/
def opened (c : Channel) : Log := ⟨some c, [], 0⟩

variable {l : Log} {c : Channel}

theorem write_of_channel (hc : l.channel = some c) (mark template : Text) (args : List Text) :
    l.write mark template args =
      (some (c, l.line mark (message template args)), l.widened mark) := by
  rw [write, hc]

theorem after_append (l : Log) (uses more : List Use) :
    l.after (uses ++ more) = (l.after uses).after more := by
  induction uses generalizing l with
  | nil => rfl
  | cons u uses ih => exact ih (l.take u).2

theorem after_channel (l : Log) (uses : List Use) : (l.after uses).channel = l.channel := by
  induction uses generalizing l with
  | nil => rfl
  | cons u uses ih =>
    rw [after, ih]
    cases u with
    | write mark template args => exact (l.write_keeps mark template args).1
    | push heading => rfl
    | pop => rfl

/-! ## Marks -/

/-- The length of the longest mark in some uses. -/
def longest : List Use → Nat
  | [] => 0
  | .write mark _ _ :: uses => max mark.length (longest uses)
  | .push _ :: uses => longest uses
  | .pop :: uses => longest uses

theorem longest_append (uses more : List Use) :
    longest (uses ++ more) = max (longest uses) (longest more) := by
  induction uses with
  | nil => exact (Nat.zero_max _).symm
  | cons u uses ih =>
    cases u with
    | write mark template args => rw [List.cons_append, longest, longest, ih, Nat.max_assoc]
    | push heading => exact ih
    | pop => exact ih

/-- Marks are as wide as the longest one so far. -/
theorem after_width (hc : l.channel = some c) (uses : List Use) :
    (l.after uses).width = max l.width (longest uses) := by
  induction uses generalizing l with
  | nil => exact (Nat.max_zero _).symm
  | cons u uses ih =>
    cases u with
    | write mark template args =>
      have hwidened : (l.widened mark).channel = some c := hc
      show (after (l.write mark template args).2 uses).width = _
      rw [write_of_channel hc, ih hwidened, longest, ← Nat.max_assoc]
      rfl
    | push heading => exact ih hc
    | pop => exact ih hc

/-- A mark that begins with an ASCII character is widened by that character. -/
theorem widen_ascii {b : UInt8} (hb : b.toNat < 0x80) (width : Nat) (rest : Text) :
    widen width (b :: rest) = List.replicate (width - (b :: rest).length) b ++ b :: rest := by
  unfold widen
  rw [decode_ascii_cons hb]
  simp only [encodeChar_ascii hb, List.flatten_replicate_singleton]

/-! ## Headings -/

/-- How many of the headings from before some uses drop.  A heading that they push themselves is
dropped first. -/
def dropped : List Use → Nat
  | [] => 0
  | .write _ _ _ :: uses => dropped uses
  | .push _ :: uses => dropped uses - 1
  | .pop :: uses => dropped uses + 1

/-- The headings that some uses push and do not drop again, outermost first: a heading stays if
nothing from before is dropped behind it. -/
def active : List Use → List Text
  | [] => []
  | .write _ _ _ :: uses => active uses
  | .push heading :: uses => if dropped uses = 0 then heading :: active uses else active uses
  | .pop :: uses => active uses

/-- The headings of a log are the ones that stay, on top of those from before that are left. -/
theorem after_headings (l : Log) (uses : List Use) :
    (l.after uses).headings = (active uses).reverse ++ l.headings.drop (dropped uses) := by
  induction uses generalizing l with
  | nil => rfl
  | cons u uses ih =>
    rw [after, ih]
    cases u with
    | write mark template args =>
      have hkept := (l.write_keeps mark template args).2.1
      show _ ++ List.drop _ (l.write mark template args).2.headings = _
      rw [hkept]
      rfl
    | push heading =>
      show (active uses).reverse ++ (heading :: l.headings).drop (dropped uses) = _
      rw [active, dropped]
      by_cases hstays : dropped uses = 0
      · rw [if_pos hstays, hstays, List.reverse_cons, List.append_assoc]
        rfl
      · obtain ⟨n, hn⟩ := Nat.exists_eq_succ_of_ne_zero hstays
        rw [if_neg hstays, hn]
        rfl
    | pop =>
      show (active uses).reverse ++ l.headings.tail.drop (dropped uses) = _
      rw [List.drop_tail]
      rfl

theorem mem_of_mem_active {uses : List Use} {heading : Text} (h : heading ∈ active uses) :
    .push heading ∈ uses := by
  induction uses with
  | nil => cases h
  | cons u uses ih =>
    cases u with
    | write mark template args => exact List.mem_cons_of_mem _ (ih h)
    | push other =>
      rw [active] at h
      split at h
      · obtain rfl | h := List.mem_cons.1 h
        · exact List.mem_cons_self
        · exact List.mem_cons_of_mem _ (ih h)
      · exact List.mem_cons_of_mem _ (ih h)
    | pop => exact List.mem_cons_of_mem _ (ih h)

/-- Uses in which every heading that is pushed is dropped again, and no other. -/
inductive Balanced : List Use → Prop
  | nil : Balanced []
  | write {mark template : Text} {args : List Text} {uses : List Use} (h : Balanced uses) :
      Balanced (.write mark template args :: uses)
  | nest {heading : Text} {inside behind : List Use} (hinside : Balanced inside)
      (hbehind : Balanced behind) : Balanced (.push heading :: (inside ++ .pop :: behind))

theorem Balanced.after_headings {uses : List Use} (h : Balanced uses) (l : Log) :
    (l.after uses).headings = l.headings := by
  induction h generalizing l with
  | nil => rfl
  | @write mark template args uses _ ih =>
    rw [after, ih]
    exact (l.write_keeps mark template args).2.1
  | @nest heading inside behind _ _ ihinside ihbehind =>
    rw [after, after_append, after, ihbehind]
    show ((l.push heading).after inside).headings.tail = l.headings
    rw [ihinside]
    rfl

theorem Balanced.after_eq {uses : List Use} (h : Balanced uses) (l : Log) :
    l.after uses = { l with width := (l.after uses).width } := by
  have hchannel := after_channel l uses
  have hheadings := h.after_headings l
  cases hl : l.after uses with
  | mk channel headings width =>
    rw [hl] at hchannel hheadings
    rw [← hchannel, ← hheadings]

/-- Headings that are pushed and then dropped, as many as there are. -/
def nesting (headings : List Text) : List Use :=
  headings.map .push ++ List.replicate headings.length .pop

theorem balanced_nesting (headings : List Text) : Balanced (nesting headings) := by
  induction headings with
  | nil => exact .nil
  | cons heading headings ih =>
    have hcons : nesting (heading :: headings) =
        .push heading :: (nesting headings ++ .pop :: []) := by
      simp [nesting, List.replicate_succ']
    rw [hcons]
    exact .nest ih .nil

theorem longest_nesting (headings : List Text) : longest (nesting headings) = 0 := by
  have hpush : longest (headings.map .push) = 0 := by
    induction headings with
    | nil => rfl
    | cons heading headings ih => exact ih
  have hpop : ∀ n, longest (List.replicate n .pop) = 0 := by
    intro n
    induction n with
    | zero => rfl
    | succ n ih => exact ih
  rw [nesting, longest_append, hpush, hpop, Nat.max_self]

/-- Headings that are pushed and dropped again leave no trace in the log. -/
theorem after_nesting (hc : l.channel = some c) (headings : List Text) :
    l.after (nesting headings) = l := by
  rw [(balanced_nesting headings).after_eq l, after_width hc, longest_nesting, Nat.max_zero]

/-! ## Lines -/

/-- A line behind plain headings is just its parts one after another. -/
theorem line_plain (hplain : ∀ heading ∈ l.headings, byte '%' ∉ heading) (mark message : Text) :
    l.line mark message =
      l.headings.reverse.flatten ++ widen l.width mark ++ ofString " " ++ message := by
  have hflat : byte '%' ∉ l.headings.reverse.flatten := by
    intro hmem
    obtain ⟨heading, hheading, hmem⟩ := List.mem_flatten.1 hmem
    exact hplain heading (List.mem_reverse.1 hheading) hmem
  rw [line, Template.fill_marked hflat]

/-- Marks are as wide as the longest so far, and only the headings that stay are in front of them.
After any history of a log whose headings are plain:

* a message is one line, made of the headings that stay, outermost first, of the mark, widened by
  its first character to the length of the longest mark so far, its own included, and of the message
  behind a blank;
* the width never goes down;
* uses that drop just the headings they push give back the headings there were, and pushing some
  headings and dropping as many changes nothing. -/
theorem aligned_under_headings (c : Channel) (history : List Use)
    (hplain : ∀ heading, .push heading ∈ history → byte '%' ∉ heading) :
    let l := (opened c).after history
    l.width = longest history ∧
    l.headings.reverse = active history ∧
    (∀ (b : UInt8) (rest template : Text) (args : List Text), b.toNat < 0x80 →
      let latest := longest (history ++ [.write (b :: rest) template args])
      let taken := l.take (.write (b :: rest) template args)
      taken.1 = some (c, (active history).flatten ++
          (List.replicate (latest - (b :: rest).length) b ++ b :: rest) ++
          ofString " " ++ message template args) ∧
        taken.2.width = latest) ∧
    (∀ more, l.width ≤ (l.after more).width) ∧
    (∀ more, Balanced more → l.after more = { l with width := (l.after more).width }) ∧
    (∀ headings, l.after (nesting headings) = l) := by
  intro l
  have hc : l.channel = some c := after_channel (opened c) history
  have hwidth : l.width = longest history := by
    have := after_width (l := opened c) rfl history
    exact this.trans (Nat.zero_max _)
  have hheadings : l.headings.reverse = active history := by
    have := after_headings (opened c) history
    rw [this, show (opened c).headings = [] from rfl, List.drop_nil, List.append_nil,
      List.reverse_reverse]
  refine ⟨hwidth, hheadings, ?_, ?_, fun _ hmore => hmore.after_eq l, after_nesting hc⟩
  · intro b rest template args hb latest taken
    have hlatest : latest = max l.width (b :: rest).length := by
      show longest (history ++ [.write (b :: rest) template args]) = _
      rw [longest_append, ← hwidth]
      rfl
    have htaken : taken = (some (c, l.line (b :: rest) (message template args)),
        l.widened (b :: rest)) := write_of_channel hc _ _ _
    have hfree : ∀ heading ∈ l.headings, byte '%' ∉ heading := by
      intro heading hmem
      apply hplain
      apply mem_of_mem_active
      rw [← hheadings]
      exact List.mem_reverse.2 hmem
    have hpad : l.width - (b :: rest).length = latest - (b :: rest).length := by omega
    refine ⟨?_, ?_⟩
    · rw [htaken, line_plain hfree, hheadings, widen_ascii hb, hpad]
    · rw [htaken, hlatest]
      rfl
  · intro more
    rw [after_width hc]
    exact Nat.le_max_left _ _

/-- A body within a body, where the inner one is left again. -/
def innerLeft : List Use :=
  [.write (ofString "->") (ofString "run") [], .push (ofString "| "),
    .write (ofString ">") (ofString "%v") [ofString "A"], .push (ofString "- "),
    .write (ofString "...") (ofString "end") [], .pop]

theorem aligned_under_headings_innerLeft :
    (∀ heading, .push heading ∈ innerLeft → byte '%' ∉ heading) ∧
    (((opened ⟨[], .debug, fun _ => .done⟩).after innerLeft).take
        (.write (ofString ">") (ofString "at %v") [ofString "B"])).1 =
      some (⟨[], .debug, fun _ => .done⟩, ofString "| >>> at B") := by
  have hplain : ∀ heading, .push heading ∈ innerLeft → byte '%' ∉ heading := by
    intro heading hmem
    simp only [innerLeft, List.mem_cons, Use.push.injEq, reduceCtorEq, List.not_mem_nil,
      false_or, or_false] at hmem
    obtain rfl | rfl := hmem <;> decide
  have hline := (aligned_under_headings ⟨[], .debug, fun _ => .done⟩ innerLeft hplain).2.2.1
    (byte '>') [] (ofString "at %v") [ofString "B"] (by decide)
  refine ⟨hplain, hline.1.trans ?_⟩
  congr 2
  decide +kernel

end Birdcall.Log
