import Reckoner.CommandLine
import Reckoner.Environment.Stack
import Reckoner.Main
import Reckoner.Proofs.Balance
import Reckoner.Proofs.Evaluable
import Reckoner.Proofs.Failures
import Reckoner.Proofs.Frame
import Reckoner.Proofs.Leaves
import Reckoner.Proofs.Lexemes
import Reckoner.Proofs.Operations
import Reckoner.Proofs.Recognition
import Reckoner.Proofs.Sessions
import Reckoner.Proofs.SyntaxTree
import Reckoner.Proofs.Agreement
import Reckoner.Proofs.Copying
import Reckoner.Proofs.Printing
import Reckoner.Proofs.Rewrapping
import Reckoner.Proofs.Reshaping
import Reckoner.Proofs.Rereading
import Reckoner.Proofs.Partition
import Reckoner.Proofs.Journal
import Reckoner.Proofs.Ranking
import Reckoner.Proofs.Uniformity
import Reckoner.Proofs.LineEffects
import Reckoner.Proofs.Sharing
import Reckoner.Proofs.ProperMatrices
import Reckoner.Proofs.Precision
import Reckoner.Proofs.Relayout
import Reckoner.Proofs.Layout
import Reckoner.Proofs.Drivers
import Reckoner.Proofs.Definitions
import Reckoner.Proofs.DigitsCommand
import Reckoner.Proofs.NormalForm
import Reckoner.Proofs.Bodies
import Reckoner.Proofs.Grids
import Reckoner.Proofs.Arithmetic
import Reckoner.Proofs.Segments
import Reckoner.Proofs.Independence
import Reckoner.Proofs.Naming
import Reckoner.Proofs.DisplayedNumbers
import Reckoner.Proofs.ReadingBack
import Reckoner.Proofs.ShortestDecimals
import Reckoner.Proofs.NumberTexts
import Reckoner.Proofs.Views
import Reckoner.Proofs.Bindings
import Reckoner.Proofs.LayeredMapping
