import ClassWarden.Signature

/-!
# The built-in signatures

Two chains of calls, each looked for among the opcodes that it consists of,
and one byte array filled element by element, looked for among all resolved
instructions.
-/

namespace ClassWarden.Signature

def reference (opcode : Opcode) (texts : List String) : SymbolicInstruction :=
  .resolved opcode (texts.map .text)

def plain (opcode : Opcode) : SymbolicInstruction :=
  .resolved opcode []

def push (value : Nat) : SymbolicInstruction :=
  .resolved .bipush [.number value]

def stringOfBytes : SymbolicInstruction :=
  reference .invokespecial ["java/lang/String", "<init>", "([B)V"]

/-- Loads a class from an address that is put together from byte arrays, and
calls one of its methods. -/
def reflectiveLoader : Signature :=
  narrow "sig1" "reflective class loading from a URL built out of byte-array strings"
    [reference .new ["java/lang/String"],
     stringOfBytes,
     reference .new ["java/lang/String"],
     stringOfBytes,
     reference .invokestatic
       ["java/lang/Class", "forName", "(Ljava/lang/String;)Ljava/lang/Class;"],
     reference .invokevirtual
       ["java/lang/Class", "getConstructor",
        "([Ljava/lang/Class;)Ljava/lang/reflect/Constructor;"],
     stringOfBytes,
     stringOfBytes,
     stringOfBytes,
     reference .invokespecial
       ["java/net/URL", "<init>", "(Ljava/lang/String;Ljava/lang/String;ILjava/lang/String;)V"],
     reference .invokevirtual
       ["java/lang/reflect/Constructor", "newInstance",
        "([Ljava/lang/Object;)Ljava/lang/Object;"],
     reference .invokestatic
       ["java/lang/Class", "forName",
        "(Ljava/lang/String;ZLjava/lang/ClassLoader;)Ljava/lang/Class;"],
     stringOfBytes,
     reference .invokevirtual
       ["java/lang/Class", "getMethod",
        "(Ljava/lang/String;[Ljava/lang/Class;)Ljava/lang/reflect/Method;"],
     reference .invokevirtual
       ["java/lang/reflect/Method", "invoke",
        "(Ljava/lang/Object;[Ljava/lang/Object;)Ljava/lang/Object;"]]

/-- Runs a command that was stored in Base64.  The string concatenation is not
in every sample; one tolerated mismatch makes up for it. -/
def encodedCommand : Signature :=
  narrow "sig2" "Runtime.exec of a Base64-decoded command"
    [reference .invokestatic ["java/lang/Runtime", "getRuntime", "()Ljava/lang/Runtime;"],
     reference .invokestatic ["java/util/Base64", "getDecoder", "()Ljava/util/Base64$Decoder;"],
     reference .invokevirtual
       ["java/lang/String", "concat", "(Ljava/lang/String;)Ljava/lang/String;"],
     reference .invokevirtual ["java/util/Base64$Decoder", "decode", "(Ljava/lang/String;)[B"],
     stringOfBytes,
     reference .invokevirtual ["java/io/File", "getPath", "()Ljava/lang/String;"],
     reference .invokevirtual
       ["java/lang/Runtime", "exec", "([Ljava/lang/String;)Ljava/lang/Process;"]]

/-- The address whose characters the third signature looks for. -/
def embeddedAddress : String := "85.217.144.130"

def pushIndex (index : Nat) : SymbolicInstruction :=
  if index ≤ 5 then plain (.iconst index) else push index

/-- Stores one character after another, as in the middle of an array literal:
the index and the array reference of the first store lie before the pattern and
the last store behind it. -/
def arrayStores (characters : List Char) : List SymbolicInstruction :=
  let stores := characters.zipIdx.flatMap fun (character, index) =>
    [plain .dup, pushIndex index, push character.toNat, plain .bastore]
  (stores.drop 2).dropLast

/-- Fills a byte array with the characters of an address. -/
def addressBytes : Signature :=
  wide "sig3-ip" "hard-coded IP address assembled byte by byte"
    (arrayStores embeddedAddress.toList)

/-- The built-in signatures in the order in which they are tried. -/
def catalog : List Signature :=
  [reflectiveLoader, encodedCommand, addressBytes]

end ClassWarden.Signature
