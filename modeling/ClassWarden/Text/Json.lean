/-!
# JSON documents

Values and their indented text: two blanks a level, one item or field a line,
a blank after each colon, and brackets that hold nothing closed on the spot.
Strings escape the quote, the backslash and the characters below U+0020;
everything else stands for itself.
-/

namespace ClassWarden

inductive Json where
  | text (value : String)
  | number (value : Int)
  | array (items : List Json)
  | object (fields : List (String × Json))

namespace Json

/-- A character as it stands inside a string. -/
def escape (char : Char) : List Char :=
  match char with
  | '"' => ['\\', '"']
  | '\\' => ['\\', '\\']
  | '\x08' => ['\\', 'b']
  | '\t' => ['\\', 't']
  | '\n' => ['\\', 'n']
  | '\x0c' => ['\\', 'f']
  | '\r' => ['\\', 'r']
  | _ =>
    if char.toNat < 0x20 then
      ['\\', 'u', '0', '0', Nat.digitChar (char.toNat / 16), Nat.digitChar (char.toNat % 16)]
    else [char]

def quoted (value : String) : List Char :=
  '"' :: (value.toList.flatMap escape ++ ['"'])

/-- The start of a line at some depth. -/
def newline (depth : Nat) : List Char :=
  '\n' :: List.replicate (2 * depth) ' '

mutual

/-- Text of a value whose last line stands at `depth`. -/
def pretty (depth : Nat) : Json → List Char
  | text value => quoted value
  | number value => (toString value).toList
  | array [] => ['[', ']']
  | array (item :: items) =>
    '[' :: newline (depth + 1) ++ pretty (depth + 1) item ++ prettyItems (depth + 1) items ++
      newline depth ++ [']']
  | object [] => ['\x7b', '\x7d']
  | object ((name, value) :: fields) =>
    '\x7b' :: newline (depth + 1) ++ quoted name ++ [':', ' '] ++ pretty (depth + 1) value ++
      prettyFields (depth + 1) fields ++ newline depth ++ ['\x7d']

/-- The items after the first one. -/
def prettyItems (depth : Nat) : List Json → List Char
  | [] => []
  | item :: items => ',' :: newline depth ++ pretty depth item ++ prettyItems depth items

def prettyFields (depth : Nat) : List (String × Json) → List Char
  | [] => []
  | (name, value) :: fields =>
    ',' :: newline depth ++ quoted name ++ [':', ' '] ++ pretty depth value ++
      prettyFields depth fields

end

/-- The indented text of a document. -/
def render (document : Json) : String :=
  String.ofList (document.pretty 0)

end Json

end ClassWarden
