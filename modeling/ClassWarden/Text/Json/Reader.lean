import ClassWarden.Text.Hex
import ClassWarden.Text.Json

/-!
# Reading JSON documents

A text is cut into tokens, character by character, and the tokens are put
together with the open brackets on a stack.  Blanks may stand between any two
tokens, and strings may escape characters in every way that JSON has, except that
an escaped code has to be a character by itself.  Numbers are whole numbers, and
there are no literals: such documents are not written here.
-/

namespace ClassWarden.Json

inductive Token where
  | text (value : String)
  | number (value : Int)
  | openArray
  | closeArray
  | openObject
  | closeObject
  | comma
  | colon
  deriving DecidableEq, Repr

/-! ## From characters to tokens -/

/-- Where a text was cut off. -/
inductive Position where
  | between
  /-- Behind the sign of a number. -/
  | sign
  | number (negative : Bool) (value : Nat)
  /-- In a string, with its characters so far, last one first. -/
  | text (read : List Char)
  /-- Behind a backslash in a string. -/
  | escape (read : List Char)
  /-- In an escaped code, with the number of digits after the next one. -/
  | code (read : List Char) (left value : Nat)

def digit (char : Char) : Nat :=
  char.toNat - '0'.toNat

def signed (negative : Bool) (value : Nat) : Int :=
  if negative then -value else value

/-- What a character between tokens is the first one of, and the token that it is
by itself. -/
def start (char : Char) : Option (List Token × Position) :=
  match char with
  | ' ' | '\n' | '\r' | '\t' => some ([], .between)
  | '[' => some ([.openArray], .between)
  | ']' => some ([.closeArray], .between)
  | '\x7b' => some ([.openObject], .between)
  | '\x7d' => some ([.closeObject], .between)
  | ',' => some ([.comma], .between)
  | ':' => some ([.colon], .between)
  | '"' => some ([], .text [])
  | '-' => some ([], .sign)
  | _ => if char.isDigit then some ([], .number false (digit char)) else none

/-- The character that a letter behind a backslash stands for. -/
def escaped? (char : Char) : Option Char :=
  match char with
  | '"' | '\\' | '/' => some char
  | 'b' => some '\x08'
  | 't' => some '\t'
  | 'n' => some '\n'
  | 'f' => some '\x0c'
  | 'r' => some '\r'
  | _ => none

/-- Reads one character; tells the tokens that it ends. -/
def advance : Position → Char → Option (List Token × Position)
  | .between, char => start char
  | .sign, char => if char.isDigit then some ([], .number true (digit char)) else none
  | .number negative value, char =>
    if char.isDigit then some ([], .number negative (10 * value + digit char))
    else (start char).map fun (tokens, next) => (.number (signed negative value) :: tokens, next)
  | .text read, char =>
    if char = '"' then some ([.text (String.ofList read.reverse)], .between)
    else if char = '\\' then some ([], .escape read)
    else if char.toNat < 0x20 then none
    else some ([], .text (char :: read))
  | .escape read, char =>
    if char = 'u' then some ([], .code read 3 0)
    else (escaped? char).map fun char => ([], .text (char :: read))
  | .code read left value, char =>
    match Hex.digitValue? char with
    | none => none
    | some digit =>
      let value := 16 * value + digit
      match left with
      | left + 1 => some ([], .code read left value)
      | 0 => if value.isValidChar then some ([], .text (Char.ofNat value :: read)) else none

/-- The tokens that the end of a text ends. -/
def finish : Position → Option (List Token)
  | .between => some []
  | .number negative value => some [.number (signed negative value)]
  | _ => none

/-- The tokens of a text that goes on from some position. -/
def tokensFrom : Position → List Char → Option (List Token)
  | position, [] => finish position
  | position, char :: chars =>
    match advance position char with
    | none => none
    | some (tokens, next) => (tokensFrom next chars).map (tokens ++ ·)

/-! ## From tokens to documents -/

/-- A container that is still open, with what was read of it, last one first. -/
inductive Frame where
  | array (items : List Json)
  /-- The field with the given name is being read. -/
  | object (fields : List (String × Json)) (name : String)

/-- What has to come next. -/
inductive Stage where
  | value (stack : List Frame)
  /-- The first item of an array, or its end. -/
  | firstItem (stack : List Frame)
  /-- The first field of an object, or its end. -/
  | firstField (stack : List Frame)
  | field (fields : List (String × Json)) (stack : List Frame)
  | colon (fields : List (String × Json)) (name : String) (stack : List Frame)
  /-- A value is complete: the next item or field, or the end of its container. -/
  | complete (value : Json) (stack : List Frame)

/-- Begins a value. -/
def begin (stack : List Frame) : Token → Option Stage
  | .text value => some (.complete (.text value) stack)
  | .number value => some (.complete (.number value) stack)
  | .openArray => some (.firstItem stack)
  | .openObject => some (.firstField stack)
  | _ => none

def step : Stage → Token → Option Stage
  | .value stack, token => begin stack token
  | .firstItem stack, .closeArray => some (.complete (.array []) stack)
  | .firstItem stack, token => begin (.array [] :: stack) token
  | .firstField stack, .closeObject => some (.complete (.object []) stack)
  | .firstField stack, .text name => some (.colon [] name stack)
  | .field fields stack, .text name => some (.colon fields name stack)
  | .colon fields name stack, .colon => some (.value (.object fields name :: stack))
  | .complete value (.array items :: stack), .comma =>
    some (.value (.array (value :: items) :: stack))
  | .complete value (.array items :: stack), .closeArray =>
    some (.complete (.array (value :: items).reverse) stack)
  | .complete value (.object fields name :: stack), .comma =>
    some (.field ((name, value) :: fields) stack)
  | .complete value (.object fields name :: stack), .closeObject =>
    some (.complete (.object ((name, value) :: fields).reverse) stack)
  | _, _ => none

/-- The document with the given tokens. -/
def ofTokens? (tokens : List Token) : Option Json :=
  match tokens.foldlM step (.value []) with
  | some (.complete document []) => some document
  | _ => none

/-- The document that a text stands for. -/
def parse? (text : String) : Option Json :=
  (tokensFrom .between text.toList).bind ofTokens?

/-! ## Parts of documents -/

def text? : Json → Option String
  | .text value => some value
  | _ => none

def count? : Json → Option Nat
  | .number value => value.toNat?
  | _ => none

def items? : Json → Option (List Json)
  | .array items => some items
  | _ => none

def fields? : Json → Option (List (String × Json))
  | .object fields => some fields
  | _ => none

end ClassWarden.Json
