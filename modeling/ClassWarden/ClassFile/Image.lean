import ClassWarden.Binary.Reader
import ClassWarden.ConstantPool

/-!
# The class-file layout

An image holds every field of a class file in file order, so that the bytes it
was read from can be written again.  Attribute bodies stay raw with one
exception: while a method is read, its first `Code` attribute is checked to
hold the code that it announces.
-/

namespace ClassWarden

structure Attribute where
  name : UInt16
  body : List UInt8
  deriving DecidableEq, Repr

structure Member where
  access : UInt16
  name : UInt16
  descriptor : UInt16
  attributes : List Attribute
  deriving DecidableEq, Repr

structure ClassImage where
  minor : UInt16
  major : UInt16
  /-- One more than the number of the last slot, as the file declares it. -/
  poolCount : UInt16
  constants : List Constant
  access : UInt16
  thisClass : UInt16
  superClass : UInt16
  interfaces : List UInt16
  fields : List Member
  methods : List Member
  attributes : List Attribute
  deriving DecidableEq, Repr

namespace Constant

/-- Reads the entry for pool index `index`, tag first. -/
def read (index : Nat) : Reader Constant := do
  let tag ← Reader.u8 "constant tag"
  match tag with
  | 1 =>
    let length ← Reader.u16 "utf8 length"
    return .utf8 (← Reader.block "utf8 bytes" length.toNat)
  | 3 => return .integer (← Reader.u32 "integer").toInt32
  | 4 => return .float (← Reader.u32 "float")
  | 5 => return .long (← Reader.u64 "long").toInt64
  | 6 => return .double (← Reader.u64 "double")
  | 7 => return .classRef (← Reader.u16 "class name index")
  | 8 => return .stringRef (← Reader.u16 "string index")
  | 9 =>
    return .fieldRef (← Reader.u16 "field ref class")
      (← Reader.u16 "field ref name and type")
  | 10 =>
    return .methodRef (← Reader.u16 "method ref class")
      (← Reader.u16 "method ref name and type")
  | 11 =>
    return .interfaceMethodRef (← Reader.u16 "interface method ref class")
      (← Reader.u16 "interface method ref name and type")
  | 12 =>
    return .nameAndType (← Reader.u16 "name and type name")
      (← Reader.u16 "name and type descriptor")
  | 15 =>
    return .methodHandle (← Reader.u8 "method handle kind")
      (← Reader.u16 "method handle reference")
  | 16 => return .methodType (← Reader.u16 "method type descriptor")
  | 17 =>
    return .dynamic (← Reader.u16 "dynamic bootstrap index")
      (← Reader.u16 "dynamic name and type")
  | 18 =>
    return .invokeDynamic (← Reader.u16 "invokedynamic bootstrap index")
      (← Reader.u16 "invokedynamic name and type")
  | 19 => return .moduleRef (← Reader.u16 "module name")
  | 20 => return .packageRef (← Reader.u16 "package name")
  | _ => Reader.fail (.unknownTag tag index)

/-- Reads entries from pool index `index` until the declared count is reached
or passed. -/
def readUpTo (count index : Nat) : Reader (List Constant) := do
  if index < count then
    let constant ← Constant.read index
    return constant :: (← readUpTo count (index + constant.width))
  else
    return []
termination_by count - index
decreasing_by have := width_pos constant; omega

end Constant

namespace Attribute

/-- Whether the attribute's name reads `Code`. -/
def isCode (pool : ConstantPool) (attr : Attribute) : Bool :=
  pool.text? attr.name == some "Code"

def read : Reader Attribute := do
  let name ← Reader.u16 "attribute name index"
  let length ← Reader.u32 "attribute length"
  return ⟨name, ← Reader.block "attribute body" length.toNat⟩

/-- Reads the code out of the body of a `Code` attribute; what follows the code
there is left alone. -/
def readCode : Reader (List UInt8) := do
  let _ ← Reader.block "max stack and locals" 4
  let length ← Reader.u32 "code length"
  Reader.block "code" length.toNat

/-- The code in the body of a `Code` attribute.  A failure counts its bytes from
the start of the body. -/
def code (attr : Attribute) : Except DecodeError (List UInt8) :=
  readCode.run attr.body

/-- A counted list of attributes. -/
def readAll : Reader (List Attribute) := do
  let count ← Reader.u16 "attribute count"
  read.times count.toNat

/-- The attributes of a method.  The first one named `Code` has to hold the code
it announces; `checked` tells that it came already. -/
def readChecked (pool : ConstantPool) : Nat → Bool → Reader (List Attribute)
  | 0, _ => return []
  | count + 1, checked => do
    let attr ← read
    -- The attribute is read in full already; its body is looked at on its own.
    if !checked && attr.isCode pool then
      match attr.code with
      | .ok _ => return attr :: (← readChecked pool count true)
      | .error failure => Reader.fail failure
    else
      return attr :: (← readChecked pool count checked)

end Attribute

namespace Member

/-- Reads a field, whose three numbers form one block. -/
def readField : Reader Member := do
  let header ← Reader.block "field header" 6
  let half (index : Nat) := UInt16.ofNat (BigEndian.toNat ((header.drop index).take 2))
  return ⟨half 0, half 2, half 4, ← Attribute.readAll⟩

def readMethod (pool : ConstantPool) : Reader Member := do
  let access ← Reader.u16 "method access flags"
  let name ← Reader.u16 "method name index"
  let descriptor ← Reader.u16 "method descriptor index"
  let count ← Reader.u16 "method attribute count"
  return ⟨access, name, descriptor, ← Attribute.readChecked pool count.toNat false⟩

end Member

namespace ClassImage

/-- First four bytes of every class file. -/
def magic : UInt32 := 0xCAFEBABE

def halves : List UInt8 → List UInt16
  | high :: low :: rest => UInt16.ofNat (BigEndian.toNat [high, low]) :: halves rest
  | _ => []

def read : Reader ClassImage := do
  let found ← Reader.u32 "magic"
  if found ≠ magic then
    Reader.fail (.badMagic found)
  else
    let minor ← Reader.u16 "minor version"
    let major ← Reader.u16 "major version"
    let poolCount ← Reader.u16 "constant pool count"
    let constants ← Constant.readUpTo poolCount.toNat 1
    let access ← Reader.u16 "access flags"
    let thisClass ← Reader.u16 "this class"
    let superClass ← Reader.u16 "super class"
    let interfaceCount ← Reader.u16 "interface count"
    let interfaces ← Reader.block "interfaces" (2 * interfaceCount.toNat)
    let fieldCount ← Reader.u16 "field count"
    let fields ← Member.readField.times fieldCount.toNat
    let methodCount ← Reader.u16 "method count"
    let methods ← (Member.readMethod (.ofConstants constants)).times methodCount.toNat
    let attributes ← Attribute.readAll
    return { minor, major, poolCount, constants, access, thisClass, superClass
             interfaces := halves interfaces, fields, methods, attributes }

end ClassImage

end ClassWarden
