import FiniteAutomata.Automaton.Basic

/-!
# Running an automaton

A word is a text, and each of its characters is one symbol; symbols that are longer than one
character are never read. There are two ways to decide a word. The walk keeps one state and gives
up where the next state is missing or not unique. The simulation keeps the set of all states that
some run has reached, and takes edges on `epsilon` between the characters; it suits every automaton.

* `Automaton.step`, `Automaton.closure` — the states reached on one symbol, and on `epsilon` alone.
* `Automaton.walks` — the verdict of the walk.
* `Automaton.accepts` — the verdict of the simulation.
-/

namespace FiniteAutomata.Automaton

/-- The states reached from a state in `S` along one edge that carries `symbol`. -/
def step (A : Automaton) (S : StateSet) (symbol : Symbol) : StateSet :=
  SortedSet.ofList <| (A.edges.toList.filter fun e =>
    e.symbol == symbol && S.contains e.source).map (·.target)

theorem mem_step {A : Automaton} {S : StateSet} {s : Symbol} {t : Label} :
    t ∈ A.step S s ↔ ∃ q ∈ S, ⟨q, s, t⟩ ∈ A.edges := by
  simp only [step, SortedSet.mem_ofList, List.mem_map, List.mem_filter, SortedSet.mem_toList,
    Bool.and_eq_true, beq_iff_eq, SortedSet.contains_iff_mem]
  constructor
  · rintro ⟨⟨q, _, _⟩, ⟨he, rfl, hq⟩, rfl⟩
    exact ⟨q, hq, he⟩
  · rintro ⟨q, hq, he⟩
    exact ⟨_, ⟨he, rfl, hq⟩, rfl⟩

/-- Follows edges on `epsilon` for at most so many rounds. Only the states that are new in a
round, `fresh`, have to be looked at in the next. -/
def spread (A : Automaton) : Nat → (reached fresh : StateSet) → StateSet
  | 0, reached, _ => reached
  | rounds + 1, reached, fresh =>
    let next := (A.step fresh epsilon).filter fun q => !reached.contains q
    if next.isEmpty then reached else A.spread rounds (reached ∪ next) next

/-- The states reached from `S` along edges on `epsilon`, `S` included. Each round but the last
reaches the target of an edge for the first time, so there are at most as many as edges. -/
def closure (A : Automaton) (S : StateSet) : StateSet := A.spread A.edges.size S S

/-! ## The walk -/

/-- The initial state, if there is just one. -/
def uniqueInitial? (A : Automaton) : Option Label :=
  match A.initial.toList with
  | [q] => some q
  | _ => none

/-- The state that `q` leads to on a character, if there is just one. -/
def next? (A : Automaton) (q : Label) (c : Char) : Option Label :=
  match (A.targets q (String.singleton c)).toList with
  | [t] => some t
  | _ => none

/-- The state at the end of the walk from `q`. -/
def walk? (A : Automaton) (q : Label) : List Char → Option Label
  | [] => some q
  | c :: word => (A.next? q c).bind fun t => A.walk? t word

/-- Whether the walk from the only initial state ends in a final state. -/
def walks (A : Automaton) (word : String) : Bool :=
  (A.uniqueInitial?.bind fun q => A.walk? q word.toList).any A.isFinal

/-! ## The simulation -/

/-- The states that runs from a state in `S` can be in after one character. -/
def advance (A : Automaton) (S : StateSet) (symbol : Symbol) : StateSet :=
  A.closure (A.step S symbol)

/-- The states that runs from a state in `S` can be in after a word. -/
def reach (A : Automaton) (S : StateSet) (word : List Char) : StateSet :=
  word.foldl (fun S c => A.advance S (String.singleton c)) S

/-- The states that runs can be in before the first character. -/
def start (A : Automaton) : StateSet := A.closure A.initial

/-- Whether one of the states is final. -/
def hasFinal (A : Automaton) (S : StateSet) : Bool := S.toList.any A.isFinal

/-- Whether some run on the word ends in a final state. -/
def accepts (A : Automaton) (word : String) : Bool := A.hasFinal (A.reach A.start word.toList)

end FiniteAutomata.Automaton
