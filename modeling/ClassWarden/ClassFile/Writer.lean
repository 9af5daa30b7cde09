import ClassWarden.ClassFile
import Mathlib.Algebra.Order.Ring.Nat
import Mathlib.Data.List.Forall2
import Mathlib.Tactic.MkIffOfInductiveProp

/-!
# Writing class files

The bytes of an image, field by field in file order.  Counts and lengths are not
part of an image; they are written for the lists and blocks that they announce.
An image is well formed where these numbers fit into their fields, the entries
of its pool fill the declared count and the code of its methods is there.
-/

namespace ClassWarden

open BigEndian (ofNat ofUInt16 ofUInt32 ofUInt64 ofInt32 ofInt64)

namespace Constant

/-- What follows the tag. -/
def payload : Constant → List UInt8
  | utf8 text => ofNat 2 text.length ++ text
  | integer value => ofInt32 value
  | float bits => ofUInt32 bits
  | long value => ofInt64 value
  | double bits => ofUInt64 bits
  | methodHandle kind reference => kind :: ofUInt16 reference
  | classRef index | stringRef index | methodType index | moduleRef index | packageRef index =>
    ofUInt16 index
  | fieldRef first second | methodRef first second | interfaceMethodRef first second
  | nameAndType first second | dynamic first second | invokeDynamic first second =>
    ofUInt16 first ++ ofUInt16 second

def bytes (constant : Constant) : List UInt8 :=
  constant.tag :: constant.payload

/-- A text has a 16-bit length. -/
def Fits : Constant → Prop
  | utf8 text => text.length < 2 ^ 16
  | _ => True

/-- The pool index behind entries of which the first has the given one. -/
def indexAfter (index : Nat) (constants : List Constant) : Nat :=
  index + (constants.map width).sum

/-- Entries, numbered from an index on, of which each starts below the count
and the last one reaches or passes it. -/
structure Fill (count index : Nat) (constants : List Constant) : Prop where
  starts_lt : ∀ earlier constant later, constants = earlier ++ constant :: later →
    indexAfter index earlier < count
  le_end : count ≤ indexAfter index constants

end Constant

namespace Attribute

def bytes (attr : Attribute) : List UInt8 :=
  ofUInt16 attr.name ++ ofNat 4 attr.body.length ++ attr.body

/-- The body has a 32-bit length. -/
def Fits (attr : Attribute) : Prop :=
  attr.body.length < 2 ^ 32

def listBytes (attributes : List Attribute) : List UInt8 :=
  ofNat 2 attributes.length ++ attributes.flatMap bytes

@[mk_iff]
structure ListFits (attributes : List Attribute) : Prop where
  length_lt : attributes.length < 2 ^ 16
  fits : ∀ attr ∈ attributes, attr.Fits

/-- The first attribute named `Code`. -/
def IsFirstCode (pool : ConstantPool) (attributes : List Attribute) (attr : Attribute) : Prop :=
  ∃ earlier later, attributes = earlier ++ attr :: later ∧ pool.text? attr.name = some "Code" ∧
    ∀ other ∈ earlier, pool.text? other.name ≠ some "Code"

/-- The body is that of a `Code` attribute: two sizes, the length of the code and
the code, and anything after it. -/
def HoldsCode (attr : Attribute) (code : List UInt8) : Prop :=
  code.length < 2 ^ 32 ∧ ∃ sizes after : List UInt8, sizes.length = 4 ∧
    attr.body = sizes ++ ofNat 4 code.length ++ code ++ after

/-- Any code that the attributes announce first is there. -/
def FirstCodeFits (pool : ConstantPool) (attributes : List Attribute) : Prop :=
  ∀ attr, IsFirstCode pool attributes attr → ∃ code, attr.HoldsCode code

end Attribute

def Member.bytes (member : Member) : List UInt8 :=
  ofUInt16 member.access ++ ofUInt16 member.name ++ ofUInt16 member.descriptor ++
    Attribute.listBytes member.attributes

namespace ClassImage

def bytes (image : ClassImage) : List UInt8 :=
  ofUInt32 magic ++ ofUInt16 image.minor ++ ofUInt16 image.major ++ ofUInt16 image.poolCount ++
    image.constants.flatMap Constant.bytes ++ ofUInt16 image.access ++
    ofUInt16 image.thisClass ++ ofUInt16 image.superClass ++
    ofNat 2 image.interfaces.length ++ image.interfaces.flatMap ofUInt16 ++
    ofNat 2 image.fields.length ++ image.fields.flatMap Member.bytes ++
    ofNat 2 image.methods.length ++ image.methods.flatMap Member.bytes ++
    Attribute.listBytes image.attributes

def pool (image : ClassImage) : ConstantPool :=
  .ofConstants image.constants

structure WellFormed (image : ClassImage) : Prop where
  constants_fit : ∀ constant ∈ image.constants, constant.Fits
  constants_fill : Constant.Fill image.poolCount.toNat 1 image.constants
  interfaces_lt : image.interfaces.length < 2 ^ 16
  fields_lt : image.fields.length < 2 ^ 16
  fields_fit : ∀ field ∈ image.fields, Attribute.ListFits field.attributes
  methods_lt : image.methods.length < 2 ^ 16
  methods_fit : ∀ method ∈ image.methods,
    Attribute.ListFits method.attributes ∧
      Attribute.FirstCodeFits image.pool method.attributes
  attributes_fit : Attribute.ListFits image.attributes

end ClassImage

/-- What is kept of a method: its numbers and the code of the first attribute
named `Code`. -/
structure Member.Keeps (pool : ConstantPool) (member : Member) (method : Method) : Prop where
  access_eq : method.access = member.access
  name_eq : method.name = member.name
  descriptor_eq : method.descriptor = member.descriptor
  code_eq_some_iff : ∀ code, method.code = some code ↔
    ∃ attr, Attribute.IsFirstCode pool member.attributes attr ∧ attr.HoldsCode code

/-- What is kept of an image. -/
structure ClassImage.Keeps (image : ClassImage) (file : ClassFile) : Prop where
  minor_eq : file.minor = image.minor
  major_eq : file.major = image.major
  access_eq : file.access = image.access
  thisClass_eq : file.thisClass = image.thisClass
  superClass_eq : file.superClass = image.superClass
  pool_size : file.pool.size = Constant.indexAfter 1 image.constants
  /-- An entry stands where those in front of it end, and nothing else stands
  in the pool. -/
  pool_get_iff : ∀ (index : UInt16) constant, file.pool.get? index = some constant ↔
    ∃ earlier later, image.constants = earlier ++ constant :: later ∧
      index.toNat = Constant.indexAfter 1 earlier
  methods : List.Forall₂ (Member.Keeps image.pool) image.methods file.methods

end ClassWarden
