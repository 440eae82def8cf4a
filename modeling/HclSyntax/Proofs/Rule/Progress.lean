import HclSyntax.Proofs.Rule.Outcome

/-!
# `HclSyntax.Proofs.Rule.Progress`: rules only take from the front

Two facts hold of every rule of the grammar and are found by instance search, combinator by
combinator:

* `Rule.Descends`: whatever a rule answers, what is left is an end of the text it was given;
* `Rule.AgreesBelow n`: two rules answer alike on every text shorter than `n`. Rules built alike
  from rules that agree below `n` agree below `n`; behind a character that both take, they agree
  below `n + 1`.

The second one is what unties a recursion on the length of the text: a rule that is stated over the
rules for shorter texts only ever asks them about shorter texts.
-/

set_option autoImplicit false

namespace HclSyntax

/-- What an answer leaves of the text. -/
def Reply.rest {α : Type} : Reply α → Text
  | .matched _ rest => rest
  | .mismatch rest => rest
  | .committed rest _ => rest

namespace Rule

variable {α β : Type}

/-- What a rule leaves is an end of the text. -/
class Descends (rule : Rule α) : Prop where
  suffix : ∀ text, (rule text).rest <:+ text

/-- What a rule leaves stands at the end of the text. -/
theorem rest_suffix (rule : Rule α) [Descends rule] (text : Text) : (rule text).rest <:+ text :=
  Descends.suffix text

/-- What a match leaves is an end of the text. -/
theorem Descends.of_matched {rule : Rule α} [Descends rule] {text rest : Text} {value : α}
    (h : rule text = .matched value rest) : rest <:+ text := by
  simpa [h, Reply.rest] using rest_suffix rule text

instance (value : α) : Descends (pure value : Rule α) :=
  ⟨fun text => List.suffix_refl text⟩

/-- A sequence leaves an end of this text where its two rules do. -/
theorem rest_bind_suffix {first : Rule α} {next : α → Rule β} {text : Text}
    (start : (first text).rest <:+ text)
    (behind : ∀ {value rest}, first text = .matched value rest → (next value rest).rest <:+ rest) :
    ((first >>= next) text).rest <:+ text := by
  rw [bind_apply]
  cases h : first text with
  | matched value rest =>
    rw [h] at start
    exact (behind h).trans start
  | mismatch rest => simpa [h, Reply.rest] using start
  | committed rest fault => simpa [h, Reply.rest] using start

/-- A choice leaves an end of this text where its two rules do. -/
theorem rest_orElse_suffix {first second : Rule α} {text : Text}
    (start : (first text).rest <:+ text) (other : (second text).rest <:+ text) :
    ((first <|> second) text).rest <:+ text := by
  rw [orElse_apply]
  cases h : first text with
  | matched value rest => simpa [h] using start
  | mismatch rest => exact other
  | committed rest fault => simpa [h] using start

instance Descends.bind {first : Rule α} {next : α → Rule β} [Descends first]
    [∀ value, Descends (next value)] : Descends (first >>= next) where
  suffix text := rest_bind_suffix (rest_suffix first text) fun _ => rest_suffix _ _

instance {first second : Rule α} [Descends first] [Descends second] :
    Descends (first <|> second) where
  suffix text := rest_orElse_suffix (rest_suffix first text) (rest_suffix second text)

instance {condition : Prop} [Decidable condition] {yes no : Rule α} [Descends yes] [Descends no] :
    Descends (if condition then yes else no) := by
  split <;> infer_instance

instance : Descends (fail : Rule α) :=
  ⟨fun text => List.suffix_refl text⟩

instance (construct : Construct) : Descends (unterminated construct : Rule α) :=
  ⟨fun text => List.suffix_refl text⟩

instance : Descends remaining :=
  ⟨fun text => List.suffix_refl text⟩

instance {rule : Rule α} [Descends rule] : Descends (optional rule) where
  suffix text := by
    have start := rest_suffix rule text
    unfold optional
    cases h : rule text with
    | matched value rest => simpa [h, Reply.rest] using start
    | mismatch rest => exact List.suffix_refl text
    | committed rest fault => simpa [h, Reply.rest] using start

instance {rule : Rule α} : Descends (followedBy rule) where
  suffix text := by
    unfold followedBy
    cases rule text <;> exact List.suffix_refl text

instance {rule : Rule α} : Descends (notFollowedBy rule) where
  suffix text := by
    unfold notFollowedBy
    cases rule text <;> exact List.suffix_refl text

instance {rule : Rule α} [Descends rule] (accepts : α → Bool) :
    Descends (rule.suchThat accepts) where
  suffix text := by
    have start := rest_suffix rule text
    unfold suchThat
    cases h : rule text with
    | matched value rest =>
      rw [h] at start
      dsimp only
      split
      · exact start
      · exact List.suffix_refl text
    | mismatch rest => simpa [h, Reply.rest] using start
    | committed rest fault => simpa [h, Reply.rest] using start

instance (accepts : Char → Bool) : Descends (charWhere accepts) where
  suffix text := by
    unfold charWhere
    cases text with
    | nil => exact List.suffix_refl []
    | cons c rest =>
      by_cases h : accepts c = true
      · simp [h, Reply.rest]
      · simp [h, Reply.rest]

instance (c : Char) : Descends (char c) :=
  inferInstanceAs (Descends (charWhere _))

instance (choices : Text) : Descends (oneOf choices) :=
  inferInstanceAs (Descends (charWhere _))

instance (expected : Text) : Descends (word expected) where
  suffix text := by
    cases h : word expected text with
    | matched found rest => exact ⟨expected, (word_matched_iff.mp h).1.symm⟩
    | mismatch rest =>
      unfold word at h
      split at h <;> simp_all [Reply.rest]
    | committed rest fault =>
      unfold word at h
      split at h <;> simp at h

instance (accepts : Char → Bool) : Descends (takeWhile accepts) :=
  ⟨fun _ => List.dropWhile_suffix accepts⟩

instance (accepts : Char → Bool) : Descends (takeWhile1 accepts) where
  suffix text := by
    unfold takeWhile1
    split
    · exact List.suffix_refl text
    · exact List.dropWhile_suffix accepts

instance : Descends whitespace :=
  ⟨fun _ => List.dropWhile_suffix _⟩

instance : Descends inlineWhitespace :=
  ⟨fun _ => List.dropWhile_suffix _⟩

instance : Descends endOfText where
  suffix text := by
    unfold endOfText
    split <;> exact List.suffix_refl text

instance (expected : Text) : Descends (keyword expected) :=
  inferInstanceAs (Descends (word expected >>= fun _ => _))

instance {rule : Rule α} [Descends rule] : Descends (many rule) where
  suffix text := by
    fun_induction many rule text with
    | case1 text place h => exact List.suffix_refl text
    | case2 text place fault h =>
      simpa [h, Reply.rest] using rest_suffix rule text
    | case3 text value rest h shorter others after hmore ih =>
      rw [hmore] at ih
      exact List.IsSuffix.trans ih (Descends.of_matched h)
    | case4 text value rest h shorter after hmore ih =>
      rw [hmore] at ih
      exact List.IsSuffix.trans ih (Descends.of_matched h)
    | case5 text value rest h shorter after fault hmore ih =>
      rw [hmore] at ih
      exact List.IsSuffix.trans ih (Descends.of_matched h)
    | case6 text value rest h shorter => exact Descends.of_matched h

instance {rule : Rule α} [Descends rule] : Descends (many1 rule) :=
  inferInstanceAs (Descends (rule >>= fun _ => _))

instance {rule : Rule α} [Descends rule] : Descends (body rule) where
  suffix text := by
    have start := rest_suffix rule text
    unfold body
    cases h : rule text with
    | matched value rest => simpa [h, Reply.rest] using start
    | mismatch rest => simpa [h, Reply.rest] using start
    | committed rest fault => cases fault <;> simpa [h, Reply.rest] using start

/-- Two sequences answer alike on a text where their first rules do, and their second ones behind
them. -/
theorem bind_apply_congr {a b : Rule α} {f g : α → Rule β} {text : Text} (start : a text = b text)
    (behind : ∀ {value rest}, b text = .matched value rest → f value rest = g value rest) :
    (a >>= f) text = (b >>= g) text := by
  rw [bind_apply, bind_apply, start]
  cases h : b text with
  | matched value rest => exact behind h
  | mismatch rest => rfl
  | committed rest fault => rfl

/-- Two rules answer alike on every text shorter than the bound. -/
class AgreesBelow (bound : Nat) (a b : Rule α) : Prop where
  agree : ∀ {text : Text}, text.length < bound → a text = b text

namespace AgreesBelow

variable {bound : Nat}

instance (rule : Rule α) : AgreesBelow bound rule rule :=
  ⟨fun _ => rfl⟩

instance bind {a b : Rule α} {f g : α → Rule β} [first : AgreesBelow bound a b] [Descends b]
    [next : ∀ value, AgreesBelow bound (f value) (g value)] :
    AgreesBelow bound (a >>= f) (b >>= g) := by
  refine ⟨fun {text} short => bind_apply_congr (first.agree short) fun {value _} h => ?_⟩
  have shrinks := (Descends.of_matched h).length_le
  exact (next value).agree (Nat.lt_of_le_of_lt shrinks short)

/-- Behind a rule that takes something the bound is one higher. -/
theorem behind {first : Rule α} {f g : α → Rule β}
    (shrinks : ∀ {text value rest}, first text = .matched value rest → rest.length < text.length)
    [next : ∀ value, AgreesBelow bound (f value) (g value)] :
    AgreesBelow (bound + 1) (first >>= f) (first >>= g) := by
  refine ⟨fun {text} short => bind_apply_congr rfl fun {value _} h => ?_⟩
  have := shrinks h
  exact (next value).agree (by omega)

instance behindChar {c : Char} {f g : Char → Rule β}
    [∀ value, AgreesBelow bound (f value) (g value)] :
    AgreesBelow (bound + 1) (char c >>= f) (char c >>= g) := by
  refine behind fun h => ?_
  obtain ⟨rfl, -⟩ := char_matched_iff.mp h
  simp

instance orElse {a b c d : Rule α} [first : AgreesBelow bound a b]
    [second : AgreesBelow bound c d] : AgreesBelow bound (a <|> c) (b <|> d) where
  agree short := by rw [orElse_apply, orElse_apply, first.agree short, second.agree short]

instance ite {condition : Prop} [Decidable condition] {a b c d : Rule α}
    [AgreesBelow bound a b] [AgreesBelow bound c d] :
    AgreesBelow bound (if condition then a else c) (if condition then b else d) := by
  split <;> infer_instance

instance optional {a b : Rule α} [same : AgreesBelow bound a b] :
    AgreesBelow bound (optional a) (optional b) where
  agree short := by unfold Rule.optional; rw [same.agree short]

instance body {a b : Rule α} [same : AgreesBelow bound a b] :
    AgreesBelow bound (body a) (body b) where
  agree short := by unfold Rule.body; rw [same.agree short]

instance many {a b : Rule α} [same : AgreesBelow bound a b] :
    AgreesBelow bound (many a) (many b) where
  agree {text} short := by
    induction h : text.length using Nat.strongRecOn generalizing text with
    | _ length ih =>
      rw [Rule.many, Rule.many.eq_def b, same.agree short]
      split <;> try rfl
      split
      · next shorter =>
        rw [ih _ (h ▸ shorter) (Nat.lt_trans shorter short) rfl]
      · rfl

end AgreesBelow

end Rule

end HclSyntax
