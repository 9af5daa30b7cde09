/-!
# Blanks

Characters with the Unicode property of white space, and text without them at
its ends.
-/

namespace ClassWarden.Blank

def isBlank (char : Char) : Bool :=
  let code := char.toNat
  (0x09 ≤ code && code ≤ 0x0D) || (0x2000 ≤ code && code ≤ 0x200A) ||
    [0x20, 0x85, 0xA0, 0x1680, 0x2028, 0x2029, 0x202F, 0x205F, 0x3000].contains code

/-- The text from its first to its last character that is no blank. -/
def trim (text : String) : String :=
  let front := text.toList.dropWhile isBlank
  String.ofList (front.reverse.dropWhile isBlank).reverse

end ClassWarden.Blank
