import Reckoner.Text.Printable

/-!
# Quoted text

Messages that name a text of the user put it between quotation marks. The mark is the single
one, unless the text holds a single mark and no double one. Inside, the mark and the backslash
take a backslash, and a character that is not printable is written by its code point with as few
of the forms `\xNN`, `\uNNNN` and `\UNNNNNNNN` as hold it.
-/

namespace Reckoner.Text

def quotationMark (cs : List Char) : Char :=
  if cs.contains '\x27' && !cs.contains '\x22' then '\x22' else '\x27'

/-- The low `width` hexadecimal digits of a number, most significant first. -/
def hexDigits (width n : Nat) : List Char :=
  match width with
  | 0 => []
  | w + 1 => hexDigits w (n / 16) ++ [Nat.digitChar (n % 16)]

def codePointEscape (c : Char) : List Char :=
  if c.toNat < 0x100 then '\\' :: 'x' :: hexDigits 2 c.toNat
  else if c.toNat < 0x10000 then '\\' :: 'u' :: hexDigits 4 c.toNat
  else '\\' :: 'U' :: hexDigits 8 c.toNat

/-- A character as it stands between marks of the given kind. -/
def escaped (mark c : Char) : List Char :=
  if c == mark || c == '\\' then ['\\', c]
  else if c == '\t' then ['\\', 't']
  else if c == '\n' then ['\\', 'n']
  else if c == '\r' then ['\\', 'r']
  else if isPrintable c then [c]
  else codePointEscape c

def quoted (s : String) : String :=
  let cs := s.toList
  let mark := quotationMark cs
  String.ofList (mark :: cs.flatMap (escaped mark) ++ [mark])

end Reckoner.Text
