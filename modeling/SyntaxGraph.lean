import SyntaxGraph.Main
import SyntaxGraph.Text.Blank
import SyntaxGraph.Tree.Same
import SyntaxGraph.Visit
import SyntaxGraph.Proofs.Grammar.Blame
import SyntaxGraph.Proofs.Source.Program
import SyntaxGraph.Proofs.Token.Tiling
import SyntaxGraph.Proofs.Token.LongestMatch
import SyntaxGraph.Proofs.Token.Layout
import SyntaxGraph.Proofs.Tree.Preorder
import SyntaxGraph.Proofs.Text.Delimited
import SyntaxGraph.Proofs.Tree.Siblings
import SyntaxGraph.Proofs.Graph.Links
import SyntaxGraph.Proofs.Graph.Forest
import SyntaxGraph.Proofs.Tree.Pieces
import SyntaxGraph.Proofs.Graph.Faithful
import SyntaxGraph.Proofs.Grammar.StreamOrder
import SyntaxGraph.Proofs.Source.Concatenation
import SyntaxGraph.Proofs.Outline.Faithful
import SyntaxGraph.Proofs.Grammar.Script
import SyntaxGraph.Proofs.Source.Depth
import SyntaxGraph.Proofs.Source.WellFormed
import SyntaxGraph.Proofs.Grammar.Calls
import SyntaxGraph.Proofs.Grammar.Machine
import SyntaxGraph.Proofs.Grammar.Limit
import SyntaxGraph.Proofs.Outline.ReadBack
import SyntaxGraph.Proofs.Visit.Fallback
import SyntaxGraph.Proofs.Outline.Printer
import SyntaxGraph.Proofs.Source.Mentions
import SyntaxGraph.Proofs.Graph.Drawing
import SyntaxGraph.Proofs.Token.Fault
import SyntaxGraph.Proofs.Source.Diagnostics
import SyntaxGraph.Proofs.Source.Numbers
import SyntaxGraph.Proofs.Source.Stream
import SyntaxGraph.Proofs.Grammar.Progress
import SyntaxGraph.Proofs.Command.Session
