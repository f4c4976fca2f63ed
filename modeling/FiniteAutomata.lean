import FiniteAutomata.CommandLine.Session
import FiniteAutomata.Input.Cursor
import FiniteAutomata.Main
import FiniteAutomata.Proofs.Automaton.Acceptance
import FiniteAutomata.Proofs.Automaton.Changes
import FiniteAutomata.Proofs.Automaton.Closure
import FiniteAutomata.Proofs.Automaton.Combinations
import FiniteAutomata.Proofs.Automaton.Contents
import FiniteAutomata.Proofs.Automaton.Conversion
import FiniteAutomata.Proofs.Automaton.Copies
import FiniteAutomata.Proofs.Automaton.Determinize
import FiniteAutomata.Proofs.Automaton.Exploration
import FiniteAutomata.Proofs.Automaton.Isomorphism
import FiniteAutomata.Proofs.Automaton.Joining
import FiniteAutomata.Proofs.Automaton.Labels
import FiniteAutomata.Proofs.Automaton.Languages
import FiniteAutomata.Proofs.Automaton.Naming
import FiniteAutomata.Proofs.Automaton.NormalForm
import FiniteAutomata.Proofs.Automaton.Paths
import FiniteAutomata.Proofs.Automaton.Reachable
import FiniteAutomata.Proofs.Automaton.Reading
import FiniteAutomata.Proofs.Automaton.Refusal
import FiniteAutomata.Proofs.Automaton.Relabelling
import FiniteAutomata.Proofs.Automaton.Renaming
import FiniteAutomata.Proofs.Automaton.Resemblance
import FiniteAutomata.Proofs.Automaton.RoundTrip
import FiniteAutomata.Proofs.Automaton.Runs
import FiniteAutomata.Proofs.Automaton.Search
import FiniteAutomata.Proofs.Automaton.SetFamily
import FiniteAutomata.Proofs.Automaton.SingleLines
import FiniteAutomata.Proofs.Automaton.Supply
import FiniteAutomata.Proofs.Automaton.Tables
import FiniteAutomata.Proofs.Automaton.Trim
import FiniteAutomata.Proofs.Automaton.Warnings
import FiniteAutomata.Proofs.Automaton.Worklist
import FiniteAutomata.Proofs.ExpressionStore.Automata
import FiniteAutomata.Proofs.ExpressionStore.Calls
import FiniteAutomata.Proofs.ExpressionStore.Files
import FiniteAutomata.Proofs.ExpressionStore.InPlace
import FiniteAutomata.Proofs.ExpressionStore.Language
import FiniteAutomata.Proofs.ExpressionStore.Programs
import FiniteAutomata.Proofs.ExpressionStore.Sharing
import FiniteAutomata.Proofs.ExpressionStore.Size
import FiniteAutomata.Proofs.ExpressionStore.Sound
import FiniteAutomata.Proofs.Extensionality
import FiniteAutomata.Proofs.Input.Bytes
import FiniteAutomata.Proofs.Input.Calls
import FiniteAutomata.Proofs.Input.Lines
import FiniteAutomata.Proofs.Input.Pieces
import FiniteAutomata.Proofs.Input.Undecodable
import FiniteAutomata.Proofs.Instruction.Reading
import FiniteAutomata.Proofs.Numeral.Spelling
import FiniteAutomata.Proofs.Regex.Agreement
import FiniteAutomata.Proofs.Regex.Emission
import FiniteAutomata.Proofs.Regex.Groups
import FiniteAutomata.Proofs.Regex.Listing
import FiniteAutomata.Proofs.Regex.Parentheses
import FiniteAutomata.Proofs.Regex.Tree
import FiniteAutomata.Proofs.SortedSet
