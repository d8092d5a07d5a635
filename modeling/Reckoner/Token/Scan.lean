import Reckoner.Token

/-!
# Reading a line into tokens

Blanks separate and vanish, every bracket is a token of its own, and what remains falls into the
longest runs of word characters and of symbols. `scan` reads a line in one pass; each step leaves
a shorter rest.
-/

namespace Reckoner

/-- Does the character continue a run of the given class? -/
def CharClass.continuedBy (cls : CharClass) (c : Char) : Bool :=
  CharClass.of c == cls

def scanFrom (position : Nat) : List Char → List Token
  | [] => []
  | c :: cs =>
    match CharClass.of c with
    | .blank => scanFrom (position + 1) cs
    | .bracket _ => Token.ofChars c [] position :: scanFrom (position + 1) cs
    | cls =>
      let run := cs.takeWhile cls.continuedBy
      Token.ofChars c run position ::
        scanFrom (position + 1 + run.length) (cs.dropWhile cls.continuedBy)
termination_by cs => cs.length
decreasing_by
  all_goals simp only [List.length_cons]
  · omega
  · omega
  · have := (List.dropWhile_sublist cls.continuedBy : (cs.dropWhile cls.continuedBy).Sublist cs).length_le
    omega

def scan (line : String) : List Token :=
  scanFrom 0 line.toList

end Reckoner
