import LexGen.Assembly.Scan
import LexGen.Automaton.Basic
import LexGen.Automaton.Graphviz
import LexGen.Automaton.Matching
import LexGen.Automaton.Reachability
import LexGen.Automaton.Renumbering
import LexGen.Closure
import LexGen.CodeSet.Basic
import LexGen.CodeSet.Lemmas
import LexGen.CodeSet.Order
import LexGen.CodeSet.Packed
import LexGen.Definition
import LexGen.Event
import LexGen.Exploration
import LexGen.Least
import LexGen.NodeSet
import LexGen.Powerset.Basic
import LexGen.Powerset.Determinize
import LexGen.Recognizer
import LexGen.Regex.Basic
import LexGen.Regex.Literal
import LexGen.Regex.Printer
import LexGen.Regex.Variants
import LexGen.Source
import LexGen.Table
import LexGen.Text.Unprintable
import LexGen.Thompson.Builder
import LexGen.Thompson.Lowering
import LexGen.Translation.Basic
import LexGen.Translation.Evaluation
import LexGen.Translation.Meaning
import LexGen.Translation.Names
import LexGen.Translation.Rewriting
import LexGen.Proofs.Assembly.AddedToken
import LexGen.Proofs.Assembly.Literal
import LexGen.Proofs.Assembly.Progress
import LexGen.Proofs.Assembly.TopLevel
import LexGen.Proofs.Automaton.Graphviz
import LexGen.Proofs.Closure
import LexGen.Proofs.CodeSet.Packed
import LexGen.Proofs.CodeSet.Printer
import LexGen.Proofs.CodeSet.Runs
import LexGen.Proofs.Definition
import LexGen.Proofs.Determinism
import LexGen.Proofs.Exploration
import LexGen.Proofs.LongestMatch
import LexGen.Proofs.Matching
import LexGen.Proofs.OneToOne
import LexGen.Proofs.Paths
import LexGen.Proofs.Powerset.Confluence
import LexGen.Proofs.Powerset.Construction
import LexGen.Proofs.Powerset.Dangling
import LexGen.Proofs.Powerset.FirstWords
import LexGen.Proofs.Powerset.Lockstep
import LexGen.Proofs.Powerset.Moves
import LexGen.Proofs.Powerset.Pairing
import LexGen.Proofs.Powerset.Repetition
import LexGen.Proofs.Powerset.Shape
import LexGen.Proofs.Powerset.Simulation
import LexGen.Proofs.Powerset.States
import LexGen.Proofs.Recognizer
import LexGen.Proofs.Regex.Printer
import LexGen.Proofs.Regex.Spelling
import LexGen.Proofs.Thompson.Alike
import LexGen.Proofs.Thompson.Circuit
import LexGen.Proofs.Thompson.Flow
import LexGen.Proofs.Thompson.Fragment
import LexGen.Proofs.Thompson.Items
import LexGen.Proofs.Thompson.Language
import LexGen.Proofs.Thompson.Lowering
import LexGen.Proofs.Thompson.Network
import LexGen.Proofs.Thompson.Nullable
import LexGen.Proofs.Thompson.Rearrangement
import LexGen.Proofs.Thompson.Regrouping
import LexGen.Proofs.Thompson.Respelling
import LexGen.Proofs.Thompson.Separation
import LexGen.Proofs.Thompson.Size
import LexGen.Proofs.Translation.Documents
import LexGen.Proofs.Translation.Evaluation
import LexGen.Proofs.Translation.Leaves
import LexGen.Proofs.Translation.Names
import LexGen.Proofs.Translation.OutOfRange
import LexGen.Proofs.Translation.Replacement
import LexGen.Proofs.Translation.Sections
import LexGen.Proofs.Translation.Unfolding
import LexGen.Proofs.Unambiguous
import LexGen.Proofs.Visits
