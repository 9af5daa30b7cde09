/-!
# Code page 437

The character set of entry names in archives that do not declare UTF-8: ASCII
below 0x80, and accented letters, box drawings and symbols above.
-/

namespace ClassWarden.CodePage437

/-- Characters of the bytes from 0x80 to 0xFF. -/
def upperHalf : Array Char :=
  ("ÇüéâäàåçêëèïîìÄÅÉæÆôöòûùÿÖÜ¢£¥₧ƒáíóúñÑªº¿⌐¬½¼¡«»░▒▓│┤╡╢╖╕╣║╗╝╜╛┐" ++
   "└┴┬├─┼╞╟╚╔╩╦╠═╬╧╨╤╥╙╘╒╓╫╪┘┌█▄▌▐▀αßΓπΣσµτΦΘΩδ∞φε∩≡±≥≤⌠⌡÷≈°∙·√ⁿ²■\u00A0").toList.toArray

def char (byte : UInt8) : Char :=
  if byte < 0x80 then Char.ofNat byte.toNat else upperHalf.getD (byte.toNat - 0x80) ' '

def decode (bytes : List UInt8) : String :=
  String.ofList (bytes.map char)

end ClassWarden.CodePage437
