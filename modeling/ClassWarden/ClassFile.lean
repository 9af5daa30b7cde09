import ClassWarden.ClassFile.Image

/-!
# Class files

What a scan needs of a class file: its constant pool and, for each method, its
name and its code.  Bytes after the last field of the file are ignored.
-/

namespace ClassWarden

/-- A method with the code of its first `Code` attribute, if it has one. -/
structure Method where
  access : UInt16
  name : UInt16
  descriptor : UInt16
  code : Option (List UInt8)
  deriving DecidableEq, Repr

structure ClassFile where
  minor : UInt16
  major : UInt16
  pool : ConstantPool
  access : UInt16
  thisClass : UInt16
  superClass : UInt16
  methods : List Method
  deriving DecidableEq, Repr

namespace Method

/-- The part of a member that a scan needs. -/
def ofMember (pool : ConstantPool) (member : Member) : Method where
  access := member.access
  name := member.name
  descriptor := member.descriptor
  code := (member.attributes.find? (·.isCode pool)).bind (·.code.toOption)

/-- The method's name.  A name index that leads to no text gives what it
resolves to instead. -/
def displayName (pool : ConstantPool) (method : Method) : String :=
  (pool.text? method.name).getD (" ".intercalate (pool.resolve method.name))

end Method

namespace ClassFile

def ofImage (image : ClassImage) : ClassFile :=
  let pool := ConstantPool.ofConstants image.constants
  { minor := image.minor
    major := image.major
    pool
    access := image.access
    thisClass := image.thisClass
    superClass := image.superClass
    methods := image.methods.map (Method.ofMember pool) }

def parse (bytes : List UInt8) : Except DecodeError ClassFile :=
  (ClassImage.read.run bytes).map ofImage

/-- Name of the class itself, where its index leads to one. -/
def className? (file : ClassFile) : Option String :=
  match file.pool.get? file.thisClass with
  | some (.classRef name) => file.pool.text? name
  | _ => none

end ClassFile

end ClassWarden
