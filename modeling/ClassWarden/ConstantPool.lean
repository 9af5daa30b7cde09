import ClassWarden.Text.Utf8

/-!
# Constant pools

A class file keeps the names and literals that its code refers to in one
table.  Entries refer to each other by index, and nothing about an untrusted
table may be relied on: an index can point at nothing, at an entry of any kind
or back at the entry itself.

Resolution flattens a reference into the texts that a signature is written
against, `[owner, name, descriptor]` for a method and `[name]` for a class.  It
never fails: whatever cannot be followed becomes one placeholder text.
-/

namespace ClassWarden

inductive Constant where
  | utf8 (bytes : List UInt8)
  | integer (value : Int32)
  | float (bits : UInt32)
  | long (value : Int64)
  | double (bits : UInt64)
  | classRef (name : UInt16)
  | stringRef (text : UInt16)
  | fieldRef (owner nameAndType : UInt16)
  | methodRef (owner nameAndType : UInt16)
  | interfaceMethodRef (owner nameAndType : UInt16)
  | nameAndType (name descriptor : UInt16)
  | methodHandle (kind : UInt8) (reference : UInt16)
  | methodType (descriptor : UInt16)
  | dynamic (bootstrap nameAndType : UInt16)
  | invokeDynamic (bootstrap nameAndType : UInt16)
  | moduleRef (name : UInt16)
  | packageRef (name : UInt16)
  deriving DecidableEq, Repr

namespace Constant

def tag : Constant → UInt8
  | utf8 _ => 1
  | integer _ => 3
  | float _ => 4
  | long _ => 5
  | double _ => 6
  | classRef _ => 7
  | stringRef _ => 8
  | fieldRef _ _ => 9
  | methodRef _ _ => 10
  | interfaceMethodRef _ _ => 11
  | nameAndType _ _ => 12
  | methodHandle _ _ => 15
  | methodType _ => 16
  | dynamic _ _ => 17
  | invokeDynamic _ _ => 18
  | moduleRef _ => 19
  | packageRef _ => 20

/-- Slots of the pool that the entry takes up: eight-byte literals take two. -/
def width : Constant → Nat
  | long _ | double _ => 2
  | _ => 1

theorem width_pos (constant : Constant) : 0 < constant.width := by
  cases constant <;> simp [width]

/-- The slots of an entry, the entry itself in the first of them. -/
def slots (constant : Constant) : List (Option Constant) :=
  some constant :: List.replicate (constant.width - 1) none

end Constant

/-- A constant pool by slots, empty ones included. -/
structure ConstantPool where
  slots : Array (Option Constant)
  deriving DecidableEq, Repr

namespace ConstantPool

/-- The pool of entries in file order.  Indices count from one, so slot zero
stays empty. -/
def ofConstants (constants : List Constant) : ConstantPool :=
  ⟨(none :: constants.flatMap Constant.slots).toArray⟩

def size (pool : ConstantPool) : Nat := pool.slots.size

def isEmpty (pool : ConstantPool) : Bool := pool.slots.all Option.isNone

def get? (pool : ConstantPool) (index : UInt16) : Option Constant :=
  (pool.slots[index.toNat]?).join

def text? (pool : ConstantPool) (index : UInt16) : Option String :=
  match pool.get? index with
  | some (.utf8 bytes) => some (Utf8.decode bytes)
  | _ => none

/-- References that are followed one after another from a resolved index; a
well-formed reference needs no more than two. -/
def maxReferences : Nat := 8

/-- Stands for a reference that lies behind too many others. -/
def tooDeepText (index : UInt16) : String :=
  s!"Constant reference too deep at index {index}"

def missingText (index : UInt16) : String :=
  s!"No constant at index {index}"

def unresolvableText (constant : Constant) : String :=
  s!"No resolver for constant {constant.tag}"

/-- Resolution of an index while at most `lookups` entries may be looked at on
the way down to any one text. -/
def resolveWithin (pool : ConstantPool) : Nat → UInt16 → List String
  | 0, index => [tooDeepText index]
  | lookups + 1, index =>
    match pool.get? index with
    | none => [missingText index]
    | some (.utf8 bytes) => [Utf8.decode bytes]
    | some (.classRef name) => pool.resolveWithin lookups name
    -- References that lead back here double the texts at every entry on the way.
    | some (.methodRef owner nameAndType) | some (.interfaceMethodRef owner nameAndType) =>
      pool.resolveWithin lookups owner ++ pool.resolveWithin lookups nameAndType
    | some (.nameAndType name descriptor) =>
      pool.resolveWithin lookups name ++ pool.resolveWithin lookups descriptor
    | some other => [unresolvableText other]

def resolve (pool : ConstantPool) (index : UInt16) : List String :=
  pool.resolveWithin (maxReferences + 1) index

end ConstantPool

end ClassWarden
