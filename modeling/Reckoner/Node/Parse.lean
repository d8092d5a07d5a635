import Reckoner.Node.Arrange
import Reckoner.Node.Brackets
import Reckoner.Token.Scan

/-!
# From a line to its tree

Scanning, resolving brackets and arranging by precedence, one after the other. Only brackets can
be at fault here: every other line has a tree.
-/

namespace Reckoner

def buildTree (tokens : List Token) : Except Unbalanced Node :=
  (resolve tokens).map fun nodes => foldTree (normalize nodes)

def parse (line : String) : Except Unbalanced Node :=
  buildTree (scan line)

end Reckoner
