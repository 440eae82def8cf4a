import HclSyntax.Proofs.Rule.Consumption
import HclSyntax.Proofs.Text.Trim

/-!
# `HclSyntax.Proofs.Rule.LineBreak`: rules and a line feed at the end of the text

A rule is asked twice, once on a text and once on the text with a line feed behind it
(`Text.Broken`). `Reply.Follows` says how the second answer may differ from the first. A match stays
the same match and a mismatch stays a mismatch, while nothing is said of a text that already has a
fault. The exception is a fault that only comes up behind the line feed: the first answer is then a
mismatch in a place that is known to be `late`, or a match that leaves a text known to be `stuck`.

* `Rule.Steady`: there is no exception. It is found by instance search, combinator by combinator.
* `Rule.Wavers late stuck`: there may be exceptions. Its lemmas follow the combinators too, and ask
  of the rule that comes next what it makes of a text on which the one before got stuck.

Both are stated for texts shorter than a bound, which rises by one behind an opening bracket, as for
`Rule.AgreesBelow`.
-/

set_option autoImplicit false

namespace HclSyntax

/-! ### The two texts -/

/-- The second text is the first one with a line feed behind it. Where white space was skipped up to
the end of both, the feed is gone and nothing is left of either. -/
inductive Text.Broken : Text → Text → Prop
  | feed (text : Text) : Text.Broken text (text ++ ['\n'])
  | skipped : Text.Broken [] []

/-- Both texts are still so without their leading white space. -/
theorem Text.Broken.trimStart {text broken : Text} (h : Broken text broken) :
    Broken (Text.trimStart text) (Text.trimStart broken) := by
  cases h with
  | skipped => exact .skipped
  | feed =>
    by_cases blank : Text.trimStart text = []
    · obtain ⟨space, isSpace, split⟩ := Text.trimStart_split text
      rw [blank, List.append_nil] at split
      have feed : Text.AllSpace ['\n'] := by simp [Text.AllSpace]; decide
      rw [blank, split, Text.trimStart_of_allSpace (isSpace.append feed)]
      exact .skipped
    · rw [Text.trimStart_append_of_ne_nil blank]
      exact .feed _

/-- A class without the line feed drops as much of a text with one behind it. -/
theorem Text.dropWhile_feed {accepts : Char → Bool} (h : accepts '\n' = false) (text : Text) :
    (text ++ ['\n']).dropWhile accepts = text.dropWhile accepts ++ ['\n'] := by
  induction text with
  | nil => simp [h]
  | cons c rest ih => cases accepted : accepts c <;> simp [accepted, ih]

/-- A run of characters other than the line feed does not reach it. -/
theorem Text.takeWhile_feed {accepts : Char → Bool} (h : accepts '\n' = false) (text : Text) :
    (text ++ ['\n']).takeWhile accepts = text.takeWhile accepts := by
  induction text with
  | nil => simp [h]
  | cons c rest ih => cases accepted : accepts c <;> simp [accepted, ih]

/-- Both texts are still so without the white space on their first line. -/
theorem Text.Broken.trimInline {text broken : Text} (h : Broken text broken) :
    Broken (Text.trimInline text) (Text.trimInline broken) := by
  cases h with
  | skipped => exact .skipped
  | feed =>
    rw [Text.trimInline, Text.trimInline, Text.dropWhile_feed (by decide)]
    exact .feed _

/-- A text starts with a word without a line feed whether or not a line feed stands behind it. -/
theorem Text.isPrefixOf?_feed {word : Text} (h : '\n' ∉ word) (text : Text) :
    word.isPrefixOf? (text ++ ['\n']) = (word.isPrefixOf? text).map (· ++ ['\n']) := by
  induction word generalizing text with
  | nil => rfl
  | cons c word ih =>
    rw [List.mem_cons, not_or] at h
    cases text with
    | nil => simp [List.isPrefixOf?, Ne.symm h.1]
    | cons d text => by_cases same : c = d <;> simp [List.isPrefixOf?, same, ih h.2]

/-- A text with a line feed behind it is cut before the feed or behind it. -/
theorem Text.feed_split {text front back : Text} (h : text ++ ['\n'] = front ++ back) :
    ('\n' ∈ front ∧ back = []) ∨ ∃ more, back = more ++ ['\n'] ∧ text = front ++ more := by
  rcases List.eq_nil_or_concat back with rfl | ⟨more, c, rfl⟩
  · rw [List.append_nil] at h
    exact .inl ⟨h ▸ by simp, rfl⟩
  · rw [List.concat_eq_append, ← List.append_assoc] at h
    obtain ⟨same, feed⟩ := List.append_inj' h rfl
    exact .inr ⟨more, by rw [List.concat_eq_append, feed], same⟩

/-- Where nothing is left of a text, a line feed may be left of the other one. -/
theorem Text.Broken.nil {broken : Text} (h : Broken [] broken) : broken = ['\n'] ∨ broken = [] := by
  cases h with
  | feed => exact .inl rfl
  | skipped => exact .inr rfl

/-- Both texts start with the same character. -/
theorem Text.Broken.cons {c : Char} {rest broken : Text} (h : Broken (c :: rest) broken) :
    ∃ more, broken = c :: more ∧ Broken rest more := by
  cases h with
  | feed => exact ⟨rest ++ ['\n'], rfl, .feed rest⟩

/-- What starts the one text starts the other one. -/
theorem Text.Broken.append {front rest broken : Text} {c : Char}
    (h : Broken (front ++ c :: rest) broken) : ∃ more, broken = front ++ c :: more := by
  generalize same : front ++ c :: rest = text at h
  cases h with
  | feed => exact ⟨rest ++ ['\n'], by simp [← same]⟩
  | skipped => simp at same

/-- Two texts are shorter than two others at the same time, but where the one before had only its
line feed. -/
theorem Text.Broken.length_lt_iff {rest more text broken : Text} (hrest : Broken rest more)
    (htext : Broken text broken) (some : text ≠ []) (inside : rest.length ≤ text.length) :
    rest.length < text.length ↔ more.length < broken.length := by
  cases hrest with
  | feed =>
    cases htext with
    | feed => simp
    | skipped => exact absurd rfl some
  | skipped =>
    have positive := List.length_pos_iff.mpr some
    cases htext with
    | feed => simp [positive]
    | skipped => exact absurd rfl some

/-! ### The two answers -/

variable {α β : Type}

/-- A fault may come up in place of the answer behind a line feed. -/
def Reply.Falters (late : Prop) (stuck : Text → Prop) : Reply α → Prop
  | .matched _ rest => stuck rest
  | .mismatch _ => late
  | .committed _ _ => True

/-- The second answer is the one to the text with a line feed behind it. -/
inductive Reply.Follows (late : Prop) (stuck : Text → Prop) : Reply α → Reply α → Prop
  | matched {value : α} {rest broken : Text} (h : Text.Broken rest broken) :
    Reply.Follows late stuck (.matched value rest) (.matched value broken)
  | mismatch {place other : Text} : Reply.Follows late stuck (.mismatch place) (.mismatch other)
  | committed {place : Text} {fault : Fault} {reply : Reply α} :
    Reply.Follows late stuck (.committed place fault) reply
  | falters {reply : Reply α} {place : Text} {fault : Fault} (h : reply.Falters late stuck) :
    Reply.Follows late stuck reply (.committed place fault)

/-- No exception. -/
def Never (_ : Text) : Prop := False

namespace Reply

variable {late weaker : Prop} {stuck wider : Text → Prop} {reply other : Reply α}

/-- A wider exception allows what a narrower one does. -/
theorem Falters.mono (h : reply.Falters late stuck) (hlate : late → weaker)
    (hstuck : ∀ rest, stuck rest → wider rest) : reply.Falters weaker wider := by
  cases reply with
  | matched value rest => exact hstuck rest h
  | mismatch => exact hlate h
  | committed => trivial

/-- Without an exception only a fault stands where a fault may come up. -/
theorem Falters.eq_committed (h : reply.Falters False Never) :
    ∃ place fault, reply = .committed place fault := by
  cases reply with
  | matched => exact h.elim
  | mismatch => exact h.elim
  | committed place fault => exact ⟨place, fault, rfl⟩

/-- The same for the second answer. -/
theorem Follows.mono (h : Follows late stuck reply other) (hlate : late → weaker)
    (hstuck : ∀ rest, stuck rest → wider rest) : Follows weaker wider reply other := by
  cases h with
  | matched h => exact .matched h
  | mismatch => exact .mismatch
  | committed => exact .committed
  | falters h => exact .falters (h.mono hlate hstuck)

end Reply

namespace Rule

variable {bound : Nat} {late : Text → Prop} {stuck : Text → Prop}

/-- A rule that mismatches in front of the line feed as well makes no difference. -/
theorem Mismatches.follows {rule : Rule α} {text broken : Text} {weaker : Prop}
    (h : rule.Mismatches text) (still : rule.Mismatches broken) :
    (rule text).Follows weaker stuck (rule broken) := by
  obtain ⟨place, gaveUp⟩ := h
  obtain ⟨other, again⟩ := still
  rw [gaveUp, again]
  exact .mismatch

/-- The rule does not match on the text. -/
def Refuses (rule : Rule α) (text : Text) : Prop :=
  ∀ value rest, rule text ≠ .matched value rest

/-- A rule that gives up does not match. -/
theorem Mismatches.refuses {rule : Rule α} {text : Text} (h : rule.Mismatches text) :
    rule.Refuses text :=
  fun _ _ found => not_mismatches_of_matched found h

/-- A rule that does not match is not followed by another. -/
theorem Refuses.bind {first : Rule α} {text : Text} (h : first.Refuses text)
    (next : α → Rule β) : (first >>= next).Refuses text := by
  intro _ _ found
  obtain ⟨value, behind, first, -⟩ := bind_matched_iff.mp found
  exact h value behind first

/-- A sequence does not match where the second rule never does behind the first. -/
theorem Refuses.behind {first : Rule α} {next : α → Rule β} {text : Text}
    (h : ∀ value rest, first text = .matched value rest → (next value).Refuses rest) :
    (first >>= next).Refuses text := by
  intro _ _ found
  obtain ⟨value, behind, first, more⟩ := bind_matched_iff.mp found
  exact h value behind first _ _ more

/-- Two rules that do not match are no match as alternatives. -/
theorem Refuses.orElse {first second : Rule α} {text : Text} (hfirst : first.Refuses text)
    (hsecond : second.Refuses text) : (first <|> second).Refuses text := by
  intro _ _ found
  rcases orElse_matched_iff.mp found with found | ⟨-, found⟩
  · exact hfirst _ _ found
  · exact hsecond _ _ found

/-- A body does not match where its contents do not. -/
theorem Refuses.body {rule : Rule α} {text : Text} (h : rule.Refuses text) :
    (Rule.body rule).Refuses text := by
  intro value rest found
  cases answer : rule text with
  | matched value rest => exact h value rest answer
  | mismatch => simp [Rule.body, answer] at found
  | committed place fault => cases fault <;> simp [Rule.body, answer] at found

/-- On texts shorter than the bound, a line feed at the end makes a difference only where the rule
mismatches in a late place or leaves a text that is stuck. -/
structure Wavers (late stuck : Text → Prop) (bound : Nat) (rule : Rule α) : Prop where
  follows {text broken : Text} (short : text.length < bound) (h : Text.Broken text broken) :
    (rule text).Follows (late text) stuck (rule broken)

/-- On texts shorter than the bound, a line feed at the end makes no difference. -/
class Steady (bound : Nat) (rule : Rule α) : Prop where
  wavers : Wavers Never Never bound rule

/-- What a steady rule answers to the two texts. -/
theorem follows_of_steady (rule : Rule α) [h : Steady bound rule] {text broken : Text}
    (short : text.length < bound) (hbroken : Text.Broken text broken) :
    (rule text).Follows False Never (rule broken) :=
  h.wavers.follows short hbroken

/-- A rule may be given more exceptions than it needs. -/
theorem Wavers.mono {rule : Rule α} {weaker wider : Text → Prop} (h : Wavers late stuck bound rule)
    (hlate : ∀ text, late text → weaker text) (hstuck : ∀ rest, stuck rest → wider rest) :
    Wavers weaker wider bound rule :=
  ⟨fun short broken => (h.follows short broken).mono (hlate _) hstuck⟩

/-- What holds of texts up to a bound holds up to a smaller one. -/
theorem Wavers.of_le {rule : Rule α} {larger : Nat} (h : Wavers late stuck larger rule)
    (smaller : bound ≤ larger) : Wavers late stuck bound rule :=
  ⟨fun short => h.follows (Nat.lt_of_lt_of_le short smaller)⟩

/-- A fault comes up late only where the rule mismatches and is a fault behind the line feed. -/
theorem Wavers.sharpen {rule : Rule α} {sharper : Text → Prop} (h : Wavers late stuck bound rule)
    (sharp : ∀ {text broken place fault}, Text.Broken text broken → rule.Mismatches text →
      rule broken = .committed place fault → late text → sharper text) :
    Wavers sharper stuck bound rule := by
  refine ⟨fun {text broken} short hbroken => ?_⟩
  have start := h.follows short hbroken
  generalize found : rule text = reply, again : rule broken = other at start
  cases start with
  | matched h => exact .matched h
  | mismatch => exact .mismatch
  | committed => exact .committed
  | falters h =>
    refine .falters ?_
    cases reply with
    | matched => exact h
    | mismatch => exact sharp hbroken ⟨_, found⟩ again h
    | committed => trivial

/-- Where a rule gives up is no difference. -/
theorem Wavers.congr {rule other : Rule α} (h : Wavers late stuck bound rule)
    (same : ∀ text, other text = rule text ∨ other.Mismatches text ∧ rule.Mismatches text) :
    Wavers late stuck bound other := by
  refine ⟨fun {text broken} short hbroken => ?_⟩
  have start := h.follows short hbroken
  have first := same text
  have second := same broken
  unfold Mismatches at first second
  generalize rule text = reply, rule broken = answer, other text = same, other broken = again
    at start first second
  -- Only a mismatch may be another one, and the place of a mismatch does not matter.
  rcases first with rfl | ⟨⟨_, rfl⟩, _, rfl⟩
  · rcases second with rfl | ⟨⟨_, rfl⟩, _, rfl⟩
    · exact start
    · cases start with
      | mismatch => exact .mismatch
      | committed => exact .committed
  · rcases second with rfl | ⟨⟨_, rfl⟩, _, rfl⟩
    · cases start with
      | mismatch => exact .mismatch
      | falters h => exact .falters h
    · exact .mismatch

/-- A rule that does not match falters wherever it mismatches. -/
theorem Refuses.falters {rule : Rule α} {text : Text} {weaker : Prop} (h : rule.Refuses text)
    (hlate : weaker) : (rule text).Falters weaker stuck := by
  cases found : rule text with
  | matched value rest => exact absurd found (h value rest)
  | mismatch => exact hlate
  | committed => trivial

/-- What is steady wavers nowhere. -/
theorem Steady.weaken (rule : Rule α) [h : Steady bound rule] : Wavers late stuck bound rule :=
  h.wavers.mono (fun _ => False.elim) fun _ => False.elim

/-- A rule on a text without anything in it answers the same twice. -/
theorem follows_nil (rule : Rule α) [Descends rule] : (rule []).Follows False Never (rule []) := by
  have nothing := rest_suffix rule []
  cases h : rule [] with
  | matched value rest =>
    rw [h] at nothing
    obtain rfl : rest = [] := List.suffix_nil.mp nothing
    exact .matched .skipped
  | mismatch => exact .mismatch
  | committed => exact .committed

/-- It is enough to look at the texts with the line feed still there. -/
theorem steady_of_feed {rule : Rule α} [Descends rule]
    (h : ∀ text, (rule text).Follows False Never (rule (text ++ ['\n']))) : Steady bound rule := by
  refine ⟨⟨fun _ broken => ?_⟩⟩
  cases broken with
  | feed => exact h _
  | skipped => exact follows_nil rule

/-- A rule that never commits is steady when it matches as before in front of the line feed, and
matches there only as before. -/
theorem steady_of_answers {rule : Rule α} [Descends rule] [Tentative rule]
    (stays : ∀ {text value rest}, rule text = .matched value rest →
      rule (text ++ ['\n']) = .matched value (rest ++ ['\n']))
    (before : ∀ {text value rest}, rule (text ++ ['\n']) = .matched value rest →
      ¬ rule.Mismatches text) : Steady bound rule := by
  refine steady_of_feed fun text => ?_
  rcases answers rule text with ⟨place, mismatch⟩ | ⟨value, rest, taken⟩
  · rcases answers rule (text ++ ['\n']) with ⟨other, still⟩ | ⟨value, rest, taken⟩
    · rw [mismatch, still]
      exact .mismatch
    · exact absurd ⟨place, mismatch⟩ (before taken)
  · rw [taken, stays taken]
    exact .matched (.feed rest)

/-! ### Sequence and choice -/

/-- Sequences may be grouped in any way. -/
theorem bind_assoc {γ : Type} (first : Rule α) (next : α → Rule β) (last : β → Rule γ) :
    first >>= next >>= last = first >>= fun value => next value >>= last := by
  funext text
  simp only [bind_apply]
  cases first text <;> rfl

instance (value : α) : Steady bound (pure value : Rule α) :=
  ⟨⟨fun _ broken => .matched broken⟩⟩

instance : Steady bound (fail : Rule α) :=
  ⟨⟨fun _ _ => .mismatch⟩⟩

instance (construct : Construct) : Steady bound (unterminated construct : Rule α) :=
  ⟨⟨fun _ _ => .committed⟩⟩

/-- The answers to a sequence follow each other when those to its first rule do, and those to the
second rule behind it. -/
theorem follows_bind {first : Rule α} {next : α → Rule β} {text broken : Text} {weaker : Prop}
    {stuckFirst : Text → Prop} (start : (first text).Follows weaker stuckFirst (first broken))
    (hnext : ∀ {value rest more}, first text = .matched value rest → Text.Broken rest more →
      (next value rest).Follows weaker stuck (next value more))
    (hstuck : ∀ {value rest}, first text = .matched value rest → stuckFirst rest →
      (next value rest).Falters weaker stuck) :
    ((first >>= next) text).Follows weaker stuck ((first >>= next) broken) := by
  rw [bind_apply, bind_apply]
  generalize other : first broken = reply at start
  -- The first rule decides, unless it matches and leaves the rest to the second.
  cases found : first text with
  | committed => exact .committed
  | mismatch =>
    rw [found] at start
    cases start with
    | mismatch => exact .mismatch
    | falters h => exact .falters h
  | matched value rest =>
    rw [found] at start
    cases start with
    | matched h => exact hnext found h
    | falters h => exact .falters (hstuck found h)

/-- A sequence wavers where the first rule does, and where the second does behind it. Where the
first one gets stuck, the second has to falter. -/
theorem Wavers.bind {first : Rule α} {next : α → Rule β} [Descends first]
    {lateNext : α → Text → Prop} {stuckFirst : Text → Prop}
    (hfirst : Wavers late stuckFirst bound first)
    (hnext : ∀ value, Wavers (lateNext value) stuck bound (next value))
    (hlate : ∀ {text value rest}, first text = .matched value rest → lateNext value rest → late text)
    (hstuck : ∀ {text value rest}, first text = .matched value rest → stuckFirst rest →
      (next value rest).Falters (late text) stuck) :
    Wavers late stuck bound (first >>= next) := by
  refine ⟨fun {text broken} short hbroken =>
    follows_bind (hfirst.follows short hbroken) (fun {value rest _} found hrest => ?_) hstuck⟩
  have shorter := (Descends.of_matched found).length_le
  exact ((hnext value).follows (by omega) hrest).mono (hlate found) fun _ => id

/-- What is made of a value makes no difference. -/
theorem Wavers.map {rule : Rule α} [Descends rule] (h : Wavers late stuck bound rule)
    (make : α → β) : Wavers late stuck bound (rule >>= fun value => pure (make value)) := by
  refine h.bind (fun value => Steady.weaken _) (fun _ => False.elim) ?_
  intro text value rest found stuck
  exact stuck

/-- Behind a rule that makes no difference only the second one wavers. -/
theorem Wavers.behind {first : Rule α} {next : α → Rule β} [Descends first] [Steady bound first]
    {lateNext : α → Text → Prop} (hnext : ∀ value, Wavers (lateNext value) stuck bound (next value))
    (hlate : ∀ {text value rest}, first text = .matched value rest → lateNext value rest → late text) :
    Wavers late stuck bound (first >>= next) :=
  Wavers.bind (Steady.weaken first) hnext hlate fun _ => False.elim

instance Steady.bind {first : Rule α} {next : α → Rule β} [Descends first] [Steady bound first]
    [hnext : ∀ value, Steady bound (next value)] : Steady bound (first >>= next) where
  wavers := Wavers.behind (fun value => (hnext value).wavers) fun _ => id

/-- Behind a rule that takes something the bound is one higher. -/
theorem Wavers.taken {first : Rule α} {next : α → Rule β} [Steady (bound + 1) first]
    {lateNext : α → Text → Prop}
    (shrinks : ∀ {text value rest}, first text = .matched value rest → rest.length < text.length)
    (hnext : ∀ value, Wavers (lateNext value) stuck bound (next value))
    (hlate : ∀ {text value rest}, first text = .matched value rest → lateNext value rest → late text) :
    Wavers late stuck (bound + 1) (first >>= next) := by
  refine ⟨fun {text broken} short hbroken => ?_⟩
  have start := (first.follows_of_steady short hbroken).mono
    (False.elim : False → late text) fun _ => id
  refine follows_bind start (fun {value rest _} found hrest => ?_) fun _ => False.elim
  have shorter := shrinks found
  exact ((hnext value).follows (by omega) hrest).mono (hlate found) fun _ => id

/-- Behind something that was taken the bound may be smaller by one. -/
theorem Steady.taken {first : Rule α} {next : α → Rule β} [Steady (bound + 1) first]
    (shrinks : ∀ {text value rest}, first text = .matched value rest → rest.length < text.length)
    [hnext : ∀ value, Steady bound (next value)] : Steady (bound + 1) (first >>= next) where
  wavers := Wavers.taken shrinks (fun value => (hnext value).wavers) fun _ => id

/-- A choice wavers where its second rule does. Where a fault comes up late in the first rule, the
second one has to falter. -/
theorem Wavers.orElse {first second : Rule α} {lateFirst : Text → Prop}
    (hfirst : Wavers lateFirst stuck bound first) (hsecond : Wavers late stuck bound second)
    (hlate : ∀ {text}, text.length < bound → first.Mismatches text → lateFirst text →
      (second text).Falters (late text) stuck) :
    Wavers late stuck bound (first <|> second) := by
  refine ⟨fun {text broken} short hbroken => ?_⟩
  have start := hfirst.follows short hbroken
  rw [orElse_apply, orElse_apply]
  generalize other : first broken = reply at start
  cases found : first text with
  | committed => exact .committed
  | matched value rest =>
    rw [found] at start
    cases start with
    | matched h => exact .matched h
    | falters h => exact .falters h
  | mismatch place =>
    rw [found] at start
    cases start with
    | mismatch => exact hsecond.follows short hbroken
    | falters h => exact .falters (hlate short ⟨place, found⟩ h)

/-- Behind a choice that makes no difference only the second one wavers. -/
theorem Wavers.otherwise {first second : Rule α} [Steady bound first]
    (h : Wavers late stuck bound second) : Wavers late stuck bound (first <|> second) :=
  Wavers.orElse (Steady.weaken first) h fun _ _ => False.elim

instance Steady.orElse {first second : Rule α} [hfirst : Steady bound first]
    [hsecond : Steady bound second] : Steady bound (first <|> second) where
  wavers := Wavers.orElse hfirst.wavers hsecond.wavers fun _ _ => False.elim

/-! ### Looking ahead -/

instance {rule : Rule α} [h : Steady bound rule] : Steady bound (optional rule) where
  wavers := by
    refine ⟨fun {text broken} short hbroken => ?_⟩
    have start := h.wavers.follows short hbroken
    unfold optional
    generalize rule text = reply, rule broken = other at start
    cases start with
    | matched h => exact .matched h
    | mismatch => exact .matched hbroken
    | committed => exact .committed
    | falters h =>
      obtain ⟨_, _, rfl⟩ := h.eq_committed
      exact .committed

instance {rule : Rule α} [h : Steady bound rule] : Steady bound (followedBy rule) where
  wavers := by
    refine ⟨fun {text broken} short hbroken => ?_⟩
    have start := h.wavers.follows short hbroken
    unfold followedBy
    generalize rule text = reply, rule broken = other at start
    cases start with
    | matched => exact .matched hbroken
    | mismatch => exact .mismatch
    | committed => exact .committed
    | falters h =>
      obtain ⟨_, _, rfl⟩ := h.eq_committed
      exact .committed

instance {rule : Rule α} [h : Steady bound rule] : Steady bound (notFollowedBy rule) where
  wavers := by
    refine ⟨fun {text broken} short hbroken => ?_⟩
    have start := h.wavers.follows short hbroken
    unfold notFollowedBy
    generalize rule text = reply, rule broken = other at start
    cases start with
    | matched => exact .mismatch
    | mismatch => exact .matched hbroken
    | committed => exact .committed
    | falters h =>
      obtain ⟨_, _, rfl⟩ := h.eq_committed
      exact .committed

instance {rule : Rule α} [h : Steady bound rule] (accepts : α → Bool) :
    Steady bound (rule.suchThat accepts) where
  wavers := by
    refine ⟨fun {text broken} short hbroken => ?_⟩
    have start := h.wavers.follows short hbroken
    unfold suchThat
    generalize rule text = reply, rule broken = other at start
    cases start with
    | @matched value _ _ h =>
      dsimp only
      split
      · exact .matched h
      · exact .mismatch
    | mismatch => exact .mismatch
    | committed => exact .committed
    | falters h =>
      obtain ⟨_, _, rfl⟩ := h.eq_committed
      exact .committed

/-! ### Characters and words -/

/-- The class does not have this character. -/
class Lacks (c : Char) (accepts : Char → Bool) : Prop where
  lacks : accepts c = false

instance {c : Char} {p q : Char → Bool} [hp : Lacks c p] [hq : Lacks c q] :
    Lacks c fun d => p d || q d :=
  ⟨by rw [hp.lacks, hq.lacks]; rfl⟩

instance {c : Char} {p q : Char → Bool} [hp : Lacks c p] : Lacks c fun d => p d && q d :=
  ⟨by rw [hp.lacks]; rfl⟩

instance {c : Char} : Lacks c (List.contains []) :=
  ⟨rfl⟩

instance {c d : Char} {choices : Text} [hd : Lacks c (· == d)] [h : Lacks c choices.contains] :
    Lacks c (d :: choices).contains :=
  ⟨by rw [List.contains_cons, hd.lacks, h.lacks]; rfl⟩

/-- A character is none of those with a higher code. -/
theorem lacks_of_lt {c : Char} (positive : 0 < c.toNat) (n : Nat) :
    Lacks c (· == Char.ofNat (n + (c.toNat + 1))) where
  lacks := by
    rw [beq_eq_false_iff_ne]
    intro same
    have code := congrArg Char.toNat same
    by_cases valid : (n + (c.toNat + 1)).isValidChar
    · rw [Char.ofNat, dif_pos valid] at code
      have : c.toNat = n + (c.toNat + 1) := code
      omega
    · rw [Char.ofNat, dif_neg valid] at code
      exact absurd code (Nat.ne_of_gt positive)

/-- The characters the grammar spells out all stand behind the line feed. -/
instance (n : Nat) : Lacks '\n' (· == Char.ofNat (n + 11)) :=
  lacks_of_lt (by decide) n

instance : Lacks '\n' (· != '\n') := ⟨by decide⟩

instance : Lacks '\n' isAlphabetic := ⟨by decide⟩

instance : Lacks '\n' isAlphanumeric := ⟨by decide⟩

instance : Lacks '\n' Char.isDigit := ⟨by decide⟩

instance : Lacks '\n' isHexDigit := ⟨by decide⟩

instance (accepts : Char → Bool) [h : Lacks '\n' accepts] : Steady bound (charWhere accepts) := by
  refine steady_of_feed fun text => ?_
  cases text with
  | nil => simpa [charWhere, h.lacks] using .mismatch
  | cons c rest =>
    cases accepted : accepts c with
    | true => simpa [charWhere, accepted] using .matched (.feed rest)
    | false => simpa [charWhere, accepted] using .mismatch

instance (c : Char) [Lacks '\n' (· == c)] : Steady bound (char c) :=
  inferInstanceAs (Steady bound (charWhere _))

instance (choices : Text) [Lacks '\n' choices.contains] : Steady bound (oneOf choices) :=
  inferInstanceAs (Steady bound (charWhere _))

/-- A line feed makes no difference to a word without one. -/
theorem steady_word {expected : Text} (h : '\n' ∉ expected) : Steady bound (word expected) := by
  refine steady_of_feed fun text => ?_
  unfold word
  rw [Text.isPrefixOf?_feed h]
  cases expected.isPrefixOf? text with
  | none => exact .mismatch
  | some rest => exact .matched (.feed rest)

instance (accepts : Char → Bool) [h : Lacks '\n' accepts] : Steady bound (takeWhile accepts) := by
  refine steady_of_feed fun text => ?_
  unfold takeWhile
  rw [Text.takeWhile_feed h.lacks, Text.dropWhile_feed h.lacks]
  exact .matched (.feed _)

instance (accepts : Char → Bool) [h : Lacks '\n' accepts] : Steady bound (takeWhile1 accepts) := by
  refine steady_of_feed fun text => ?_
  unfold takeWhile1
  rw [Text.takeWhile_feed h.lacks, Text.dropWhile_feed h.lacks]
  split
  · exact .mismatch
  · exact .matched (.feed _)

instance : Steady bound whitespace :=
  ⟨⟨fun _ broken => .matched broken.trimStart⟩⟩

instance : Steady bound inlineWhitespace :=
  ⟨⟨fun _ broken => .matched broken.trimInline⟩⟩

/-- Behind white space a fault comes up late where it does in what follows. -/
theorem Wavers.spaced {next : Unit → Rule β} (h : Wavers late stuck bound (next ())) :
    Wavers (fun text => late text.trimStart) stuck bound (whitespace >>= next) :=
  Wavers.behind (fun _ => h) fun found hlate => whitespace_matched_iff.mp found ▸ hlate

/-- A keyword at the end of the text finds its white space only behind the line feed. That makes no
difference where the rule behind it needs more than that. -/
theorem Wavers.keyword {expected : Text} {next : Text → Rule β} {lateNext : Text → Text → Prop}
    (h : '\n' ∉ expected) (hnext : ∀ found, Wavers (lateNext found) stuck bound (next found))
    (blank : ∀ found, (next found).Mismatches ['\n'])
    (hlate : ∀ {text found rest}, Rule.keyword expected text = .matched found rest →
      lateNext found rest → late text) :
    Wavers late stuck bound (Rule.keyword expected >>= next) := by
  -- The keyword is its word with a look at the white space, which comes before what follows.
  have split : Rule.keyword expected >>= next
      = word expected >>= fun found => followedBy (charWhere isWhitespace) >>= fun _ => next found :=
    (bind_assoc ..).trans (congrArg (word expected >>= ·) (funext fun _ => bind_assoc ..))
  have : Steady bound (word expected) := steady_word h
  have look (found : Text) : Wavers (fun rest => (∃ c tail, rest = c :: tail
      ∧ isWhitespace c = true) ∧ lateNext found rest) stuck bound
      (followedBy (charWhere isWhitespace) >>= fun _ => next found) := by
    refine ⟨fun {text broken} short hbroken => ?_⟩
    cases text with
    | cons c rest =>
      obtain ⟨more, rfl, -⟩ := hbroken.cons
      simp only [bind_apply, followedBy, charWhere]
      cases space : isWhitespace c with
      | true =>
        exact ((hnext found).follows short hbroken).mono (fun h => ⟨⟨c, rest, rfl, space⟩, h⟩)
          fun _ => id
      | false => exact .mismatch
    | nil =>
      rcases hbroken.nil with rfl | rfl
      · obtain ⟨place, blank⟩ := blank found
        have feed : isWhitespace '\n' = true := by decide
        simp only [bind_apply, followedBy, charWhere, feed, if_true, blank]
        exact .mismatch
      · exact .mismatch
  rw [split]
  refine Wavers.behind look fun taken both => ?_
  obtain ⟨space, behind⟩ := both
  obtain ⟨rfl, rfl⟩ := word_matched_iff.mp taken
  exact hlate (keyword_matched_iff.mpr ⟨rfl, rfl, space⟩) behind

/-- It makes none to a keyword either, if what follows gives up at the line feed alone. -/
theorem steady_keyword {expected : Text} {next : Text → Rule β} (h : '\n' ∉ expected)
    [hnext : ∀ found, Steady bound (next found)] (blank : ∀ found, (next found).Mismatches ['\n']) :
    Steady bound (keyword expected >>= next) :=
  ⟨Wavers.keyword h (fun found => (hnext found).wavers) blank fun _ => id⟩

/-! ### Repetition -/

/-- A repetition gets stuck where its element does, and where a fault comes up late in an element.
Its element must not match on a text on which it gets stuck. -/
theorem Wavers.many {rule : Rule α} [Descends rule] [consumes : Consumes rule]
    (h : Wavers late stuck bound rule) (refuses : ∀ rest, stuck rest → rule.Refuses rest) :
    Wavers Never (fun rest => stuck rest ∨ late rest) bound (many rule) := by
  refine ⟨fun {text broken} short hbroken => ?_⟩
  induction length : text.length using Nat.strongRecOn generalizing text broken with
  | _ n ih =>
    have start := h.follows short hbroken
    rw [Rule.many.eq_def rule broken]
    generalize other : rule broken = reply at start
    cases found : rule text with
    | committed =>
      rw [Rule.many.eq_def, found]
      exact .committed
    | mismatch place =>
      rw [many_of_mismatches ⟨place, found⟩]
      rw [found] at start
      cases start with
      | mismatch => exact .matched hbroken
      | falters h => exact .falters (Or.inr h)
    | matched value rest =>
      have shorter := consumes.shortens found
      rw [Rule.many.eq_def, found]
      simp only [shorter, if_true]
      rw [found] at start
      cases start with
      | @matched _ _ more hmore =>
        have some : text ≠ [] := List.length_pos_iff.mp (by omega)
        have others := ih _ (length ▸ shorter) (by omega) hmore rfl
        simp only [(hmore.length_lt_iff hbroken some (by omega)).mp shorter, if_true]
        generalize Rule.many rule rest = reply, Rule.many rule more = other at others
        cases others with
        | matched h => exact .matched h
        | mismatch => exact .mismatch
        | committed => exact .committed
        | falters h =>
          refine .falters ?_
          cases reply <;> exact h
      | falters h =>
        -- Behind a match that got stuck the repetition ends, or there is a fault.
        refine .falters ?_
        cases again : rule rest with
        | matched value after => exact absurd again (refuses rest h value after)
        | mismatch place =>
          rw [many_of_mismatches ⟨place, again⟩]
          exact Or.inl h
        | committed =>
          rw [Rule.many.eq_def, again]
          trivial

instance {rule : Rule α} [Descends rule] [Consumes rule] [h : Steady bound rule] :
    Steady bound (many rule) where
  wavers := (h.wavers.many fun _ => False.elim).mono (fun _ => id) fun _ h => h.elim id id

instance {rule : Rule α} [Descends rule] [Consumes rule] [Steady bound rule] :
    Steady bound (many1 rule) :=
  inferInstanceAs (Steady bound (rule >>= fun _ => _))

/-! ### Bodies -/

/-- A body makes a fault of every mismatch, so it does not matter where faults come up late. -/
theorem steady_body {rule : Rule α} (h : Wavers late Never bound rule) :
    Steady bound (body rule) where
  wavers := by
    refine ⟨fun {text broken} short hbroken => ?_⟩
    have start := h.follows short hbroken
    unfold body
    generalize rule text = reply, rule broken = other at start
    -- A body makes a fault of a mismatch, so a fault behind the line feed is no exception.
    cases start with
    | matched h => exact .matched h
    | mismatch => exact .committed
    | @committed place fault => cases fault <;> exact .committed
    | falters h =>
      cases reply with
      | matched => exact h.elim
      | mismatch => exact .committed
      | committed place fault => cases fault <;> exact .committed

end Rule

end HclSyntax
