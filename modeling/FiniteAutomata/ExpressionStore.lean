import FiniteAutomata.Automaton.Combine
import FiniteAutomata.Instruction
import FiniteAutomata.Text.Parentheses
import FiniteAutomata.Text.Quoted
import FiniteAutomata.Failure

/-!
# Expressions that share their automata

Expressions are built by instructions, and many instructions build the same expression. The store
keeps a list of distinct automata, its entries, and for every expression the number of its entry.
An instruction makes a new entry only if its text is unknown, parentheses around it apart, and no
entry has been made in the same way before. Entries never change.

* `Shape` — how an entry is made from earlier ones.
* `ExpressionStore.apply` — builds the expression of one instruction.
* `ExpressionStore.buildAll` — builds the expressions of a list of instructions.
-/

namespace FiniteAutomata

/-! ## Errors -/

/-- Why an expression cannot be built. -/
inductive BuildError
  /-- There is no expression with this number; `available` is the number of expressions. -/
  | noExpression (index available : Nat)
  /-- The symbol has more than one character. -/
  | longSymbol (symbol : Symbol)
deriving DecidableEq

namespace BuildError

/-- The message. -/
def message : BuildError → String
  | noExpression index available =>
    "Expression " ++ toString index ++ " does not exist, only " ++ toString available ++
      " expressions have been built"
  | longSymbol symbol => "Symbol " ++ Text.quote symbol ++ " consists of more than one character"

/-- What a user is told. -/
def failure (e : BuildError) : Failure := .plain e.message

end BuildError

/-! ## The store -/

/-- How an entry is made; operands are numbers of earlier entries, counted from zero. -/
inductive Shape
  | symbol (symbol : Symbol)
  | concat (left right : Nat)
  | union (left right : Nat)
  | iterate (operand : Nat)
deriving DecidableEq

/-- The key under which an entry is listed. -/
def Shape.render : Shape → String
  | symbol s => "'" ++ s ++ "'"
  | concat left right => toString left ++ "+" ++ toString right
  | union left right => toString left ++ "|" ++ toString right
  | iterate operand => toString operand ++ "*"

/-- An automaton with the way it is made. -/
structure Entry where
  shape : Shape
  automaton : Automaton
deriving DecidableEq

/-- The expressions built so far. -/
structure ExpressionStore where
  /-- The labels for the states of new automata. -/
  supply : LabelSupply
  /-- For every expression, in order, the number of its entry. -/
  expressions : List Nat
  /-- The distinct automata, in the order in which they were made. -/
  entries : List Entry
  /-- The numbers of the entries, by their keys. -/
  numbers : SortedMap String Nat
  /-- The numbers of the entries whose texts are known, by their texts without parentheses around
  them. -/
  texts : SortedMap String Nat
deriving DecidableEq

namespace ExpressionStore

/-- The store without expressions. -/
def empty : ExpressionStore := ⟨.full, [], [], ∅, ∅⟩

/-! ## Look-up -/

/-- The number of the entry of an expression; expressions are counted from one. -/
def entryIndex? (store : ExpressionStore) : Nat → Option Nat
  | 0 => none
  | index + 1 => store.expressions[index]?

/-- The entry of an expression. -/
def entry? (store : ExpressionStore) (index : Nat) : Option (Nat × Entry) := do
  let i ← store.entryIndex? index
  let entry ← store.entries[i]?
  return (i, entry)

/-- The automaton of an expression. -/
def automaton? (store : ExpressionStore) (index : Nat) : Option Automaton :=
  (store.entry? index).map (·.2.automaton)

/-- The automaton of the last expression. -/
def final? (store : ExpressionStore) : Option Automaton :=
  store.automaton? store.expressions.length

/-- The number and the automaton of an operand. -/
def resolve (store : ExpressionStore) (index : Nat) : Except BuildError (Nat × Automaton) :=
  match store.entry? index with
  | some (i, entry) => .ok (i, entry.automaton)
  | none => .error (.noExpression index store.expressions.length)

/-- The keys of the entries. -/
def keys (store : ExpressionStore) : List String := store.entries.map (·.shape.render)

/-- The number of the entry that serves for a text or, if the text is not known, for the key of a
shape. -/
def known? (store : ExpressionStore) (text : Option String) (shape : Shape) : Option Nat :=
  (text.bind store.texts.get?).or (store.numbers.get? shape.render)

/-! ## Building -/

/-- Adds an expression with the number of its entry. A text that is known keeps its entry. -/
def addExpression (store : ExpressionStore) (text : Option String) (entry : Nat) :
    ExpressionStore :=
  { store with
    expressions := store.expressions ++ [entry]
    texts := match text with
      | some text => store.texts.insertIfNew text entry
      | none => store.texts }

/-- Adds an entry, the automaton of which is made with labels from the supply. -/
def addEntry (store : ExpressionStore) (shape : Shape)
    (make : LabelSupply → Automaton × LabelSupply) : ExpressionStore :=
  let (automaton, supply) := make store.supply
  { store with
    supply := supply
    entries := store.entries ++ [⟨shape, automaton⟩]
    numbers := store.numbers.insert shape.render store.entries.length }

/-- Adds an expression, with an entry of its own unless one is known to serve for it. -/
def addShared (store : ExpressionStore) (text : Option String) (shape : Shape)
    (make : LabelSupply → Automaton × LabelSupply) : ExpressionStore :=
  match store.known? text shape with
  | some entry => store.addExpression text entry
  | none => (store.addEntry shape make).addExpression text store.entries.length

/-- Builds the expression of an instruction. Its number is the number of expressions afterwards. -/
def apply (store : ExpressionStore) (instruction : Instruction) :
    Except BuildError ExpressionStore :=
  let text := instruction.text.map Text.stripParentheses
  match instruction.operation with
  | .symbol symbol =>
    if symbol.length ≤ 1 then
      .ok (store.addShared text (.symbol symbol) fun supply =>
        (Automaton.ofSymbol symbol, supply))
    else .error (.longSymbol symbol)
  | .concat left right => do
    let (i, A) ← store.resolve left
    let (j, B) ← store.resolve right
    return store.addShared text (.concat i j) (A.concat B)
  | .union left right => do
    let (i, A) ← store.resolve left
    let (j, B) ← store.resolve right
    return store.addShared text (.union i j) (A.union B)
  | .iterate operand => do
    let (i, A) ← store.resolve operand
    return store.addShared text (.iterate i) A.iterate
  | .identity operand => do
    let (i, _) ← store.resolve operand
    return store.addExpression text i

/-- Builds the expressions of instructions in order, up to the first error. -/
def buildAll (instructions : List Instruction) : Except BuildError ExpressionStore :=
  instructions.foldlM apply empty

end ExpressionStore

end FiniteAutomata
