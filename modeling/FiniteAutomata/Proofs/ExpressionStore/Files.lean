import FiniteAutomata.Proofs.Automaton.RoundTrip
import FiniteAutomata.Proofs.ExpressionStore.Language
import FiniteAutomata.Proofs.ExpressionStore.Sharing

/-!
# Expressions through a file

The deterministic automaton of a regular expression can be written to a file and tried on words from
there.  The format gives commas and white space a meaning of their own and has no way to write them as
symbols, so this works for the expressions without such symbols, and for no others: every symbol of an
expression is in one of its words, and no automaton that is read takes a word with a comma or white
space in it.

* `Sound.label_of_hasState` — the labels of an entry come from the supply.
* `Sound.recoverable_determinize` — expressions without separators go through a file.
* **`read_write_determinize_iff`** — the expressions that a file can hold.
-/

namespace FiniteAutomata

open Automaton (IsSeparator Plain not_isSeparator_iff)

lemma LabelSupply.label_ne_empty (n : Nat) : label n ≠ "" := by
  intro h
  have hlength := congrArg String.toList h
  simp [label] at hlength

/-- No label from the supply holds a separator. -/
lemma LabelSupply.plain_label (n : Nat) : Plain (label n) := by
  intro c hc
  rw [not_isSeparator_iff]
  rw [label, String.toList_append, List.mem_append] at hc
  rcases hc with hc | hc
  · obtain rfl : c = 'q' := List.mem_singleton.1 hc
    exact ⟨by decide, rfl⟩
  · refine ⟨?_, not_isBlank_of_mem_toString hc⟩
    rintro rfl
    have hdigit := isDigit_of_mem_toString hc
    cases hdigit

namespace Regex

/-- A reserved character is not a separator. -/
lemma not_isSeparator_of_isReserved {c : Char} (h : isReserved c = true) : ¬ IsSeparator c := by
  simp only [isReserved, Bool.or_eq_true, beq_iff_eq] at h
  rcases h with ((rfl | rfl) | rfl) | rfl <;> exact not_isSeparator_iff.2 ⟨by decide, rfl⟩

/-- The symbols of a text are free of separators if the space is the only one in it. -/
lemma forall_symbols_iff {e : Regex} (he : e.WellFormed) :
    (∀ c ∈ e.symbols, ¬ IsSeparator c) ↔ ∀ c ∈ e.chars, IsSeparator c → c = ' ' := by
  constructor
  · intro h c hc hseparator
    by_contra hspace
    have hreserved : isReserved c = false :=
      Bool.eq_false_iff.2 fun hreserved => not_isSeparator_of_isReserved hreserved hseparator
    have hstands : standsForItself c = true := by
      simp [standsForItself, hreserved, hspace]
    exact h c ((mem_symbols_iff he).2 ⟨hc, hstands⟩) hseparator
  · intro h c hc hseparator
    obtain ⟨hchars, hstands⟩ := (mem_symbols_iff he).1 hc
    rw [h c hchars hseparator] at hstands
    cases hstands

end Regex

namespace ExpressionStore

variable {store : ExpressionStore} {trees : List Regex} {k : Nat} {entry : Entry} {e : Regex}
  {q : Label}

/-- All labels come from the supply. -/
lemma Sound.label_of_hasState (h : store.Sound) (hentry : entry ∈ store.entries)
    (hq : entry.automaton.hasState q = true) : ∃ n, q = LabelSupply.label n := by
  rcases h.made.madeBefore entry hentry with ⟨s, -, hsymbol⟩ | hcombined
  · rw [hsymbol] at hq
    exact Automaton.exists_label_of_hasState_ofSymbol hq
  · obtain ⟨n, -, -, hlabel⟩ := hcombined.labels q hq
    exact ⟨n, hlabel⟩

/-- An expression without separators among its symbols goes through a file. -/
lemma Sound.recoverable_determinize {tree : Regex} (h : store.Sound) (hmirrors : store.Mirrors trees)
    (htree : trees[k]? = some tree) (hentry : store.entries[k]? = some entry)
    (hsymbols : ∀ c ∈ tree.symbols, ¬ IsSeparator c) :
    entry.automaton.determinize.Recoverable .deterministic := by
  have hmem : entry ∈ store.entries := List.mem_of_getElem? hentry
  refine Automaton.recoverable_determinize (h.made.madeBefore entry hmem).hasEnds.1 ?_ ?_
  · intro q hq
    obtain ⟨n, rfl⟩ := h.label_of_hasState hmem hq
    exact ⟨LabelSupply.label_ne_empty n, LabelSupply.plain_label n⟩
  · intro s hs c hc
    obtain ⟨halphabet, hne⟩ := Automaton.mem_letters.1 hs
    have hsymbol := ((h.mem_alphabet_iff hmirrors htree hentry).1 halphabet).resolve_left hne
    obtain ⟨d, hd, rfl⟩ := List.mem_map.1 hsymbol
    rw [String.toList_singleton, List.mem_singleton] at hc
    exact hc ▸ hsymbols d hd

/-- **The expressions that a file can hold.** The deterministic automaton of an accepted text is read
from its file as a deterministic automaton for the same words if and only if the text has no comma in it
and no white space other than spaces. -/
theorem read_write_determinize_iff {text : String} (h : Regex.parse text = .ok e) :
    ∃ store A, ofRegex text = .ok store ∧ store.final? = some A ∧
      (A.determinize.CountsFit →
        ((∃ r, Automaton.read .deterministic (.ofString A.determinize.write) = .ok r ∧
            r.automaton.isDeterministic = true ∧
            ∀ word, r.automaton.walks word = A.determinize.walks word) ↔
          ∀ c ∈ text.toList, IsSeparator c → c = ' ')) := by
  have he := Regex.wellFormed_of_parse h
  have hchars : text.toList = e.chars := by
    rw [← Regex.render_of_parse h, Regex.toList_render]
  obtain ⟨store, trees, k, entry, hstore, hfinal, hsound, hmirrors, htree, hentry⟩ :=
    exists_ofRegex h
  refine ⟨store, entry.automaton, hstore, hfinal, fun hfit => ?_⟩
  rw [hchars, ← Regex.forall_symbols_iff he]
  constructor
  · rintro ⟨r, hread, -, hsame⟩ c hc
    obtain ⟨w, hw, hcw⟩ := Regex.exists_mem_language_of_mem_symbols hc
    have hwalks : r.automaton.walks (String.ofList w) = true := by
      rw [hsame, Automaton.walks_determinize_iff, hsound.language_eq hmirrors htree hentry,
        Regex.language_plain, String.toList_ofList]
      exact hw
    exact Automaton.not_isSeparator_of_walks hread hwalks c (by rwa [String.toList_ofList])
  · intro hsymbols
    rw [← Regex.symbols_plain] at hsymbols
    have hrecoverable := hsound.recoverable_determinize hmirrors htree hentry hsymbols
    obtain ⟨warnings, hread⟩ := hrecoverable.exists_read hfit
    exact ⟨_, hread, Automaton.isDeterministic_determinize _, fun _ => rfl⟩

theorem read_write_determinize_repetition :
    Regex.parse "a*" = .ok (.iterate (.symbol 'a')) ∧
      ∃ store A, ofRegex "a*" = .ok store ∧ store.final? = some A ∧ A.determinize.CountsFit ∧
        (∀ c ∈ "a*".toList, IsSeparator c → c = ' ') ∧
        ∃ r, Automaton.read .deterministic (.ofString A.determinize.write) = .ok r ∧
          r.automaton.isDeterministic = true ∧
          ∀ word, r.automaton.walks word = A.determinize.walks word := by
  have hparse : Regex.parse "a*" = .ok (.iterate (.symbol 'a')) := rfl
  have hknown : (ofRegex "a*").map final? =
      .ok (some ((Automaton.ofSymbol "a").iterate .full).1) := rfl
  have hfit : ((Automaton.ofSymbol "a").iterate .full).1.determinize.CountsFit :=
    ⟨by decide +kernel, by decide +kernel⟩
  have hspaces : ∀ c ∈ "a*".toList, IsSeparator c → c = ' ' := by
    simp [IsSeparator, Text.isBlank]
  obtain ⟨store, A, hstore, hfinal, hiff⟩ := read_write_determinize_iff hparse
  rw [hstore] at hknown
  obtain rfl : ((Automaton.ofSymbol "a").iterate .full).1 = A :=
    Option.some.inj ((Except.ok.inj hknown).symm.trans hfinal)
  exact ⟨hparse, store, _, hstore, hfinal, hfit, hspaces, (hiff hfit).2 hspaces⟩

/-- A comma is a symbol like others in an expression, and its edges cannot be read from a file. -/
theorem not_read_write_comma :
    ∃ store A, Regex.parse "," = .ok (.symbol ',') ∧ ofRegex "," = .ok store ∧
      store.final? = some A ∧ Automaton.read .deterministic (.ofString A.determinize.write) =
        .error ⟨.invalidEdge ⟨6, "q0,,,q1"⟩, []⟩ :=
  ⟨_, _, rfl, rfl, rfl, rfl⟩

end ExpressionStore

end FiniteAutomata
