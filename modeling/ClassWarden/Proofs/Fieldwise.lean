import ClassWarden.Proofs.ClassFile

/-!
# Readers made of fields

All that is read of a class file is made of blocks of bytes in sequence, with one
addition: once the attribute of a method was read, reading can stop because the code in
its body cannot be read.  A property of readers that these few ways of making them keep
holds of every part of the layout.
-/

namespace ClassWarden

namespace Attribute

/-- The fields in the body of a `Code` attribute, as failures name them. -/
def codeContexts : List String := ["max stack and locals", "code length", "code"]

end Attribute

namespace Reader

/-- How readers of the layout are made.  No block of theirs is named like a field of a
method's code. -/
inductive Fieldwise : {α : Type} → Reader α → Prop where
  | pure {α : Type} (value : α) : Fieldwise (pure value)
  | fault {α : Type} {failure : DecodeError}
      (hfault : ∀ place context, failure ≠ .unexpectedEnd place context) :
      Fieldwise (fail failure : Reader α)
  | block {context : String} (houtside : context ∉ Attribute.codeContexts) (size : Nat) :
      Fieldwise (block context size)
  | bind {α β : Type} {read : Reader β} {step : β → Reader α} (hread : Fieldwise read)
      (hstep : ∀ first, Fieldwise (step first)) : Fieldwise (read >>= step)
  /-- Some attributes stop the reader, with the failure of the code in their body. -/
  | checked {α : Type} {step : Attribute → Reader α} (stops : Attribute → Prop)
      (hread : Fieldwise Attribute.read)
      (hstops : ∀ attr, stops attr →
        ∃ failure, attr.code = .error failure ∧ step attr = fail failure)
      (hstep : ∀ attr, ¬stops attr → Fieldwise (step attr)) :
      Fieldwise (Attribute.read >>= step)

variable {α : Type} {read : Reader α} {context : String}

theorem fieldwise_number (houtside : context ∉ Attribute.codeContexts) (size : Nat) :
    Fieldwise (number context size) :=
  .bind (.block houtside size) fun _ => .pure _

theorem fieldwise_u8 (houtside : context ∉ Attribute.codeContexts) : Fieldwise (u8 context) :=
  .bind (fieldwise_number houtside 1) fun _ => .pure _

theorem fieldwise_u16 (houtside : context ∉ Attribute.codeContexts) : Fieldwise (u16 context) :=
  .bind (fieldwise_number houtside 2) fun _ => .pure _

theorem fieldwise_u32 (houtside : context ∉ Attribute.codeContexts) : Fieldwise (u32 context) :=
  .bind (fieldwise_number houtside 4) fun _ => .pure _

theorem fieldwise_u64 (houtside : context ∉ Attribute.codeContexts) : Fieldwise (u64 context) :=
  .bind (fieldwise_number houtside 8) fun _ => .pure _

theorem Fieldwise.times (hread : Fieldwise read) (count : Nat) :
    Fieldwise (read.times count) := by
  induction count with
  | zero => exact .pure []
  | succ count ih => exact hread.bind fun _ => ih.bind fun _ => .pure _

end Reader

open Reader

/-! ## The parts of a class file -/

theorem Constant.fieldwise_read (index : Nat) : Fieldwise (Constant.read index) := by
  apply (fieldwise_u8 (by decide)).bind
  intro tag
  split
  case h_1 =>
    apply (fieldwise_u16 (by decide)).bind
    intro length
    exact .bind (.block (by decide) length.toNat) fun _ => .pure _
  case h_2 | h_3 => exact (fieldwise_u32 (by decide)).bind fun _ => .pure _
  case h_4 | h_5 => exact (fieldwise_u64 (by decide)).bind fun _ => .pure _
  case h_6 | h_7 | h_13 | h_16 | h_17 =>
    exact (fieldwise_u16 (by decide)).bind fun _ => .pure _
  case h_8 | h_9 | h_10 | h_11 | h_14 | h_15 =>
    exact (fieldwise_u16 (by decide)).bind fun _ =>
      (fieldwise_u16 (by decide)).bind fun _ => .pure _
  case h_12 =>
    exact (fieldwise_u8 (by decide)).bind fun _ =>
      (fieldwise_u16 (by decide)).bind fun _ => .pure _
  case h_18 => exact .fault nofun

theorem Constant.fieldwise_readUpTo (count index : Nat) :
    Fieldwise (Constant.readUpTo count index) := by
  induction index using Constant.readUpTo.induct count with
  | case1 index hindex ih =>
      rw [readUpTo, if_pos hindex]
      apply (fieldwise_read index).bind
      intro constant
      exact (ih constant).bind fun _ => .pure _
  | case2 index hindex =>
      rw [readUpTo, if_neg hindex]
      exact .pure []

namespace Attribute

theorem fieldwise_read : Fieldwise read := by
  apply (fieldwise_u16 (by decide)).bind
  intro name
  apply (fieldwise_u32 (by decide)).bind
  intro length
  exact .bind (.block (by decide) length.toNat) fun _ => .pure _

theorem fieldwise_readAll : Fieldwise readAll := by
  apply (fieldwise_u16 (by decide)).bind
  intro count
  exact fieldwise_read.times count.toNat

/-- The code is looked for in a body that was read in full. -/
theorem fieldwise_readChecked (pool : ConstantPool) (count : Nat) (checked : Bool) :
    Fieldwise (readChecked pool count checked) := by
  induction count generalizing checked with
  | zero => exact .pure []
  | succ count ih =>
      rw [readChecked]
      let stops (attr : Attribute) : Prop :=
        (!checked && attr.isCode pool) ∧ ∃ failure, attr.code = .error failure
      apply Fieldwise.checked stops fieldwise_read
      · rintro attr ⟨hcheck, failure, hcode⟩
        refine ⟨failure, hcode, ?_⟩
        rw [if_pos hcheck, hcode]
      · intro attr hgo
        split
        case isTrue hcheck =>
          cases hcode : attr.code with
          | ok code => exact (ih true).bind fun _ => .pure _
          | error failure => exact absurd ⟨hcheck, failure, hcode⟩ hgo
        case isFalse => exact (ih checked).bind fun _ => .pure _

end Attribute

namespace Member

theorem fieldwise_readField : Fieldwise readField := by
  apply Fieldwise.bind (.block (by decide) 6)
  intro header
  exact Attribute.fieldwise_readAll.bind fun _ => .pure _

theorem fieldwise_readMethod (pool : ConstantPool) : Fieldwise (readMethod pool) := by
  apply (fieldwise_u16 (by decide)).bind
  intro access
  apply (fieldwise_u16 (by decide)).bind
  intro name
  apply (fieldwise_u16 (by decide)).bind
  intro descriptor
  apply (fieldwise_u16 (by decide)).bind
  intro count
  exact (Attribute.fieldwise_readChecked pool count.toNat false).bind fun _ => .pure _

end Member

theorem ClassImage.fieldwise_read : Fieldwise ClassImage.read := by
  apply (fieldwise_u32 (by decide)).bind
  intro found
  split
  case isTrue => exact .fault nofun
  case isFalse =>
    apply (fieldwise_u16 (by decide)).bind
    intro minor
    apply (fieldwise_u16 (by decide)).bind
    intro major
    apply (fieldwise_u16 (by decide)).bind
    intro poolCount
    apply (Constant.fieldwise_readUpTo poolCount.toNat 1).bind
    intro constants
    apply (fieldwise_u16 (by decide)).bind
    intro access
    apply (fieldwise_u16 (by decide)).bind
    intro thisClass
    apply (fieldwise_u16 (by decide)).bind
    intro superClass
    apply (fieldwise_u16 (by decide)).bind
    intro interfaceCount
    apply Fieldwise.bind (.block (by decide) (2 * interfaceCount.toNat))
    intro interfaces
    apply (fieldwise_u16 (by decide)).bind
    intro fieldCount
    apply (Member.fieldwise_readField.times fieldCount.toNat).bind
    intro fields
    apply (fieldwise_u16 (by decide)).bind
    intro methodCount
    apply ((Member.fieldwise_readMethod (.ofConstants constants)).times methodCount.toNat).bind
    intro methods
    exact Attribute.fieldwise_readAll.bind fun _ => .pure _

end ClassWarden
