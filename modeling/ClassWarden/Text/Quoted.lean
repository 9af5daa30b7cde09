import ClassWarden.Text.Hex
import ClassWarden.Text.Shown

/-!
# Quoted text

Text as it is quoted in a diagnosis: between quotes, on one line, with every
character visible.
-/

namespace ClassWarden.Quoted

/-- A character as it stands between quotes.  What cannot be shown is given by
its code point. -/
def escape (char : Char) : String :=
  if char = '"' then "\\\""
  else if char = '\\' then "\\\\"
  else if char = '\n' then "\\n"
  else if char = '\r' then "\\r"
  else if char = '\t' then "\\t"
  else if char = '\x00' then "\\0"
  else if Shown.isShown char then String.singleton char
  else "\\u\x7b" ++ Hex.shortest char.toNat ++ "\x7d"

def quote (text : String) : String :=
  "\"" ++ String.join (text.toList.map escape) ++ "\""

end ClassWarden.Quoted
