import FiniteAutomata.Proofs.Regex.Grammar

/-!
# The tree that the grammar builds

Where a pattern reads something, the rules that have been applied on the way form a tree.  Each of them is a
node with the bytes of the text at which it has begun and stopped, and its children are the rules that have
been applied inside it.  What has only been tried leaves nothing behind, neither an alternative that failed
nor what stands under a negation.

* `Pair` — a rule with its span and the rules inside it.
* `Position` — a place with the number of bytes before it.
* `Builds` — the pairs that come of a pattern that reads something.
* **`exists_builds_iff`** — a tree is built where the pattern reads.
* **`Builds.unique`** — there is one tree at most.
-/

namespace FiniteAutomata.Grammar

open Pattern

/-! ## Pairs and positions -/

/-- A rule that has been applied: the bytes where it began and where it stopped, and the rules that have been
applied in between. -/
inductive Pair
  | node (rule : Rule) (start stop : Nat) (inner : List Pair)

namespace Pair

/-- The byte behind the last one that was read. -/
def stop : Pair → Nat
  | node _ _ stop _ => stop

/-- The rules inside. -/
def inner : Pair → List Pair
  | node _ _ _ inner => inner

end Pair

/-- A place in a text, and the number of bytes before it. -/
structure Position extends Place where
  byte : Nat

namespace Position

/-- The position at the beginning of a text. -/
def start (text : String) : Position := ⟨⟨0, text.toList⟩, 0⟩

/-- The position behind some characters. -/
def behind (before rest : List Char) : Position :=
  ⟨⟨before.length, rest⟩, (String.ofList before).utf8ByteSize⟩

end Position

/-- A pattern fails at a place, whatever is recorded about it. -/
def Fails (p : Pattern) (x : Place) : Prop := ∃ a b, Runs p x a none b

/-! ## What is built -/

/-- `Builds p x y pairs`: tried at the position `x`, the pattern reads up to the position `y`, and these are
the pairs of the rules that have been applied, in order. -/
inductive Builds : Pattern → Position → Position → List Pair → Prop
  | char {c cs n k} : Builds (char c) ⟨⟨n, c :: cs⟩, k⟩ ⟨⟨n + 1, cs⟩, k + c.utf8Size⟩ []
  | any {c cs n k} : Builds any ⟨⟨n, c :: cs⟩, k⟩ ⟨⟨n + 1, cs⟩, k + c.utf8Size⟩ []
  | first {cs k} : Builds first ⟨⟨0, cs⟩, k⟩ ⟨⟨0, cs⟩, k⟩ []
  | last {n k} : Builds last ⟨⟨n, []⟩, k⟩ ⟨⟨n, []⟩, k⟩ []
  | seq {p q x y z ps qs} (left : Builds p x y ps) (right : Builds q y z qs) :
      Builds (seq p q) x z (ps ++ qs)
  | choice {p q x y ps} (left : Builds p x y ps) : Builds (choice p q) x y ps
  | choiceFails {p q x y qs} (left : Fails p x.toPlace) (right : Builds q x y qs) :
      Builds (choice p q) x y qs
  | many {p x y z ps qs} (once : Builds p x y ps) (again : Builds (many p) y z qs) :
      Builds (many p) x z (ps ++ qs)
  | manyStops {p x} (once : Fails p x.toPlace) : Builds (many p) x x []
  | not {p x} (inner : Fails p x.toPlace) : Builds (not p) x x []
  | rule {r x y ps} (body : Builds r.body x y ps) : Builds (rule r) x y [.node r x.byte y.byte ps]

section Behind

variable (c : Char) (before rest : List Char)

lemma behind_concat : Position.behind (before ++ [c]) rest =
    ⟨⟨before.length + 1, rest⟩, (String.ofList before).utf8ByteSize + c.utf8Size⟩ := by
  rw [Position.behind, List.length_append, String.ofList_append, String.utf8ByteSize_append,
    ← String.singleton_eq_ofList, String.utf8ByteSize_singleton]
  rfl

lemma builds_char : Builds (.char c) (.behind before (c :: rest)) (.behind (before ++ [c]) rest) [] := by
  rw [behind_concat]
  exact .char

lemma builds_any : Builds .any (.behind before (c :: rest)) (.behind (before ++ [c]) rest) [] := by
  rw [behind_concat]
  exact .any

end Behind

variable {p q : Pattern} {x y z : Position} {ps qs : List Pair} {o : Option Place} {a b : Attempts}

/-- What comes of a pattern does not depend on what has been recorded before. -/
lemma Runs.forget {x : Place} (h : Runs p x a o b) (a' : Attempts) : ∃ b', Runs p x a' o b' := by
  induction h generalizing a' with
  | charReads => exact ⟨_, .charReads⟩
  | charFails h => exact ⟨_, .charFails h⟩
  | anyReads => exact ⟨_, .anyReads⟩
  | anyFails => exact ⟨_, .anyFails⟩
  | firstReads => exact ⟨_, .firstReads⟩
  | firstFails h => exact ⟨_, .firstFails h⟩
  | lastReads => exact ⟨_, .lastReads⟩
  | lastFails h => exact ⟨_, .lastFails h⟩
  | seq _ _ ihleft ihright =>
      obtain ⟨b', left⟩ := ihleft a'
      obtain ⟨c', right⟩ := ihright b'
      exact ⟨c', .seq left right⟩
  | seqFails _ ih =>
      obtain ⟨b', left⟩ := ih a'
      exact ⟨b', .seqFails left⟩
  | choice _ ih =>
      obtain ⟨b', left⟩ := ih a'
      exact ⟨b', .choice left⟩
  | choiceFails _ _ ihleft ihright =>
      obtain ⟨b', left⟩ := ihleft a'
      obtain ⟨c', right⟩ := ihright b'
      exact ⟨c', .choiceFails left right⟩
  | many _ _ ihonce ihagain =>
      obtain ⟨b', once⟩ := ihonce a'
      obtain ⟨c', again⟩ := ihagain b'
      exact ⟨c', .many once again⟩
  | manyStops _ ih =>
      obtain ⟨b', once⟩ := ih a'
      exact ⟨b', .manyStops once⟩
  | not _ ih =>
      obtain ⟨b', inner⟩ := ih a'
      exact ⟨a', .not inner⟩
  | notFails _ ih =>
      obtain ⟨b', inner⟩ := ih a'
      exact ⟨a', .notFails inner⟩
  | rule _ ih =>
      obtain ⟨b', body⟩ := ih a'
      exact ⟨b', .rule body⟩
  | ruleFails _ ih =>
      obtain ⟨b', body⟩ := ih a'
      exact ⟨_, .ruleFails body⟩

/-- Where something is built, the pattern reads as far. -/
lemma Builds.runs (h : Builds p x y ps) (a : Attempts) :
    ∃ b, Runs p x.toPlace a (some y.toPlace) b := by
  induction h generalizing a with
  | char => exact ⟨a, .charReads⟩
  | any => exact ⟨a, .anyReads⟩
  | first => exact ⟨a, .firstReads⟩
  | last => exact ⟨a, .lastReads⟩
  | seq _ _ ihleft ihright =>
      obtain ⟨b, left⟩ := ihleft a
      obtain ⟨c, right⟩ := ihright b
      exact ⟨c, .seq left right⟩
  | choice _ ih =>
      obtain ⟨b, left⟩ := ih a
      exact ⟨b, .choice left⟩
  | choiceFails hleft _ ih =>
      obtain ⟨_, _, hfails⟩ := hleft
      obtain ⟨b, left⟩ := hfails.forget a
      obtain ⟨c, right⟩ := ih b
      exact ⟨c, .choiceFails left right⟩
  | many _ _ ihonce ihagain =>
      obtain ⟨b, once⟩ := ihonce a
      obtain ⟨c, again⟩ := ihagain b
      exact ⟨c, .many once again⟩
  | manyStops honce =>
      obtain ⟨_, _, hfails⟩ := honce
      obtain ⟨b, once⟩ := hfails.forget a
      exact ⟨b, .manyStops once⟩
  | not hinner =>
      obtain ⟨_, _, hfails⟩ := hinner
      obtain ⟨b, inner⟩ := hfails.forget a
      exact ⟨a, .not inner⟩
  | rule _ ih =>
      obtain ⟨b, body⟩ := ih a
      exact ⟨b, .rule body⟩

/-- Where the pattern reads, something is built. -/
lemma Runs.builds {x y : Place} (h : Runs p x a (some y) b) (k : Nat) :
    ∃ k' ps, Builds p ⟨x, k⟩ ⟨y, k'⟩ ps := by
  generalize ho : some y = o at h
  induction h generalizing y k with
  | charReads =>
      obtain rfl := Option.some.inj ho
      exact ⟨_, _, .char⟩
  | anyReads =>
      obtain rfl := Option.some.inj ho
      exact ⟨_, _, .any⟩
  | firstReads =>
      obtain rfl := Option.some.inj ho
      exact ⟨_, _, .first⟩
  | lastReads =>
      obtain rfl := Option.some.inj ho
      exact ⟨_, _, .last⟩
  | seq _ _ ihleft ihright =>
      obtain ⟨k', ps, left⟩ := ihleft k rfl
      obtain ⟨k'', qs, right⟩ := ihright k' ho
      exact ⟨k'', ps ++ qs, .seq left right⟩
  | choice _ ih =>
      obtain ⟨k', ps, left⟩ := ih k ho
      exact ⟨k', ps, .choice left⟩
  | choiceFails left _ _ ih =>
      obtain ⟨k', qs, right⟩ := ih k ho
      exact ⟨k', qs, .choiceFails ⟨_, _, left⟩ right⟩
  | many _ _ ihonce ihagain =>
      obtain ⟨k', ps, once⟩ := ihonce k rfl
      obtain ⟨k'', qs, again⟩ := ihagain k' ho
      exact ⟨k'', ps ++ qs, .many once again⟩
  | manyStops once =>
      obtain rfl := Option.some.inj ho
      exact ⟨k, [], .manyStops ⟨_, _, once⟩⟩
  | not inner =>
      obtain rfl := Option.some.inj ho
      exact ⟨k, [], .not ⟨_, _, inner⟩⟩
  | rule _ ih =>
      obtain ⟨k', ps, body⟩ := ih k ho
      exact ⟨k', _, .rule body⟩
  | charFails | anyFails | firstFails | lastFails | seqFails | notFails | ruleFails => cases ho

/-- **A tree is built where the pattern reads**, and as far as it reads. -/
theorem exists_builds_iff {x y : Place} (k : Nat) (a : Attempts) :
    (∃ k' ps, Builds p ⟨x, k⟩ ⟨y, k'⟩ ps) ↔ ∃ b, Runs p x a (some y) b := by
  constructor
  · rintro ⟨k', ps, h⟩
    exact h.runs a
  · rintro ⟨b, h⟩
    exact h.builds k

/-- Where a pattern fails, nothing is built. -/
lemma Builds.not_fails (h : Builds p x y ps) : ¬ Fails p x.toPlace := by
  rintro ⟨a, b, hfails⟩
  obtain ⟨b', hreads⟩ := h.runs a
  cases (hreads.unique hfails).1

/-- **Only one tree can be built.** -/
theorem Builds.unique (h : Builds p x y ps) (h' : Builds p x z qs) : y = z ∧ ps = qs := by
  induction h generalizing z qs with
  | char => cases h'; exact ⟨rfl, rfl⟩
  | any => cases h'; exact ⟨rfl, rfl⟩
  | first => cases h'; exact ⟨rfl, rfl⟩
  | last => cases h'; exact ⟨rfl, rfl⟩
  | seq _ _ ihleft ihright =>
      cases h' with
      | seq left right =>
          obtain ⟨rfl, rfl⟩ := ihleft left
          obtain ⟨rfl, rfl⟩ := ihright right
          exact ⟨rfl, rfl⟩
  | choice hleft ih =>
      cases h' with
      | choice left => exact ih left
      | choiceFails left _ => exact absurd left hleft.not_fails
  | choiceFails hleft _ ih =>
      cases h' with
      | choice left => exact absurd hleft left.not_fails
      | choiceFails _ right => exact ih right
  | many honce _ ihonce ihagain =>
      cases h' with
      | many once again =>
          obtain ⟨rfl, rfl⟩ := ihonce once
          obtain ⟨rfl, rfl⟩ := ihagain again
          exact ⟨rfl, rfl⟩
      | manyStops once => exact absurd once honce.not_fails
  | manyStops honce =>
      cases h' with
      | many once _ => exact absurd honce once.not_fails
      | manyStops => exact ⟨rfl, rfl⟩
  | not => cases h'; exact ⟨rfl, rfl⟩
  | rule _ ih =>
      cases h' with
      | rule body =>
          obtain ⟨rfl, rfl⟩ := ih body
          exact ⟨rfl, rfl⟩

end FiniteAutomata.Grammar
