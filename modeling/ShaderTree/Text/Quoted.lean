import ShaderTree.Text.GraphemeBase
import ShaderTree.Text.WhiteSpace

namespace ShaderTree.Text

/-- A Hangul filler holds the place of a letter and shows nothing. -/
def isHangulFiller (c : Char) : Bool :=
  c == '\u115f' || c == '\u1160' || c == '\u3164' || c == '\uffa0'

/-- The sound marks of halfwidth kana extend the letter before them, but stand in a cell of their
own. -/
def isHalfwidthSoundMark (c : Char) : Bool := c == '\uff9e' || c == '\uff9f'

/-- The character can be seen by itself; of the white space this holds for the space alone. -/
def isVisible (c : Char) : Bool :=
  c == ' ' || isHalfwidthSoundMark c ||
    (isGraphemeBase c && !isWhiteSpace c && !isHangulFiller c)

/-- A quote, a backslash and the usual control characters are written with a backslash, and a
character that could not be seen by itself as its code point. -/
def escapeChar (c : Char) : List Char :=
  if c = '"' then ['\\', '"']
  else if c = '\\' then ['\\', '\\']
  else if c = '\n' then ['\\', 'n']
  else if c = '\r' then ['\\', 'r']
  else if c = '\t' then ['\\', 't']
  else if c = '\x00' then ['\\', '0']
  else if isVisible c then [c]
  else ['\\', 'u', '{'] ++ Nat.toDigits 16 c.toNat ++ ['}']

def quoted (text : String) : String :=
  String.ofList ('"' :: text.toList.flatMap escapeChar ++ ['"'])

end ShaderTree.Text
