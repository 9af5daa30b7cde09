import ClassWarden.Proofs.ClassFile
import Mathlib.Data.List.InsertIdx

/-!
# Class files with less in them

A class file from which one method is left out, or the code of one method, is a
class file again.  It is written from the image that lacks the method, or all of
the method's attributes named `Code`, and what is parsed of it lacks exactly
that.
-/

namespace ClassWarden

/-! ## Lists with one item changed -/

theorem forall_mem_modify {α : Type} {keeps : α → Prop} {change : α → α} {items : List α}
    (hitems : ∀ item ∈ items, keeps item) (hchange : ∀ item, keeps item → keeps (change item))
    (place : Nat) : ∀ item ∈ items.modify place change, keeps item := by
  intro item hmem
  obtain ⟨index, hindex⟩ := List.mem_iff_getElem?.mp hmem
  rw [List.getElem?_modify] at hindex
  obtain ⟨original, horiginal, rfl⟩ := Option.map_eq_some_iff.mp hindex
  have hkeeps := hitems original (List.mem_of_getElem? horiginal)
  split
  · exact hchange original hkeeps
  · exact hkeeps

theorem map_modify {α β : Type} {part : α → β} {change : α → α} {changed : β → β}
    (hchange : ∀ item, part (change item) = changed (part item)) (items : List α) (place : Nat) :
    (items.modify place change).map part = (items.map part).modify place changed := by
  apply List.ext_getElem?
  intro index
  rw [List.getElem?_map, List.getElem?_modify, List.getElem?_modify, List.getElem?_map,
    Option.map_eq_map, Option.map_eq_map, Option.map_map, Option.map_map]
  congr 1
  funext item
  by_cases hplace : place = index
  · simp only [Function.comp_apply, if_pos hplace, hchange]
  · simp only [Function.comp_apply, if_neg hplace]

theorem flatMap_modify_of_eq_nil {α β : Type} {change : α → α} {content : α → List β}
    (hchange : ∀ item, content (change item) = []) (items : List α) (place : Nat) :
    (items.modify place change).flatMap content = (items.eraseIdx place).flatMap content := by
  induction items generalizing place with
  | nil => simp
  | cons item items ih =>
      cases place with
      | zero =>
          rw [List.modify_zero_cons, List.flatMap_cons, hchange, List.nil_append,
            List.eraseIdx_cons_zero]
      | succ place =>
          rw [List.modify_succ_cons, List.flatMap_cons, ih, List.eraseIdx_cons_succ,
            List.flatMap_cons]

/-! ## Classes with less in them -/

namespace ClassFile

def withoutMethod (file : ClassFile) (place : Nat) : ClassFile :=
  { file with methods := file.methods.eraseIdx place }

def withoutCode (file : ClassFile) (place : Nat) : ClassFile :=
  { file with methods := file.methods.modify place fun method => { method with code := none } }

end ClassFile

/-- A member without any attribute named `Code`. -/
def Member.withoutCode (pool : ConstantPool) (member : Member) : Member :=
  { member with attributes := member.attributes.filter fun attr => !attr.isCode pool }

theorem Attribute.ListFits.filter {attributes : List Attribute} (hfits : ListFits attributes)
    (keep : Attribute → Bool) : ListFits (attributes.filter keep) where
  length_lt := (List.length_filter_le keep attributes).trans_lt hfits.length_lt
  fits attr hmem := hfits.fits attr (List.mem_of_mem_filter hmem)

theorem Attribute.firstCodeFits_filter (pool : ConstantPool) (attributes : List Attribute) :
    FirstCodeFits pool (attributes.filter fun attr => !attr.isCode pool) := by
  rintro attr ⟨earlier, later, hsplit, hcode, -⟩
  have hmem : attr ∈ attributes.filter fun attr => !attr.isCode pool := by
    rw [hsplit]
    exact List.mem_append_right earlier List.mem_cons_self
  have hother := (List.mem_filter.mp hmem).2
  rw [isCode_iff.mpr hcode] at hother
  cases hother

theorem Method.ofMember_withoutCode (pool : ConstantPool) (member : Member) :
    ofMember pool (member.withoutCode pool) = { ofMember pool member with code := none } := by
  have hnone : (member.withoutCode pool).attributes.find? (·.isCode pool) = none := by
    rw [List.find?_eq_none]
    intro attr hmem
    simpa using (List.mem_filter.mp hmem).2
  rw [ofMember, hnone]
  rfl

namespace ClassImage

def withoutMethod (image : ClassImage) (place : Nat) : ClassImage :=
  { image with methods := image.methods.eraseIdx place }

def withoutCode (image : ClassImage) (place : Nat) : ClassImage :=
  { image with methods := image.methods.modify place (Member.withoutCode image.pool) }

variable {image : ClassImage}

theorem WellFormed.withoutMethod (himage : image.WellFormed) (place : Nat) :
    (image.withoutMethod place).WellFormed :=
  { himage with
    methods_lt := (List.length_eraseIdx_le image.methods place).trans_lt himage.methods_lt
    methods_fit := fun method hmem => himage.methods_fit method (List.mem_of_mem_eraseIdx hmem) }

theorem WellFormed.withoutCode (himage : image.WellFormed) (place : Nat) :
    (image.withoutCode place).WellFormed :=
  { himage with
    methods_lt := by
      rw [ClassImage.withoutCode, List.length_modify]
      exact himage.methods_lt
    -- A method without any attribute named `Code` has none that could lack its code.
    methods_fit := forall_mem_modify himage.methods_fit (fun method hfits =>
      ⟨hfits.1.filter _, Attribute.firstCodeFits_filter image.pool method.attributes⟩) place }

theorem ofImage_withoutMethod (image : ClassImage) (place : Nat) :
    ClassFile.ofImage (image.withoutMethod place) =
      (ClassFile.ofImage image).withoutMethod place := by
  rw [ClassFile.withoutMethod, ClassFile.ofImage, ClassFile.mk.injEq]
  refine ⟨rfl, rfl, rfl, rfl, rfl, rfl, ?_⟩
  exact (List.eraseIdx_map _ image.methods place).symm

theorem ofImage_withoutCode (image : ClassImage) (place : Nat) :
    ClassFile.ofImage (image.withoutCode place) =
      (ClassFile.ofImage image).withoutCode place := by
  rw [ClassFile.withoutCode, ClassFile.ofImage, ClassFile.mk.injEq]
  refine ⟨rfl, rfl, rfl, rfl, rfl, rfl, ?_⟩
  exact map_modify (Method.ofMember_withoutCode image.pool) image.methods place

end ClassImage

theorem ClassFile.exists_parse_without {bytes : List UInt8} {file : ClassFile}
    (hparse : parse bytes = .ok file) (place : Nat) :
    (∃ shorter, parse shorter = .ok (file.withoutMethod place)) ∧
      ∃ shorter, parse shorter = .ok (file.withoutCode place) := by
  obtain ⟨image, hread, rfl⟩ := parse_eq_ok_iff.mp hparse
  obtain ⟨himage, -⟩ := ClassImage.inverts_read.run_eq_ok_iff.mp hread
  have hwritten {other : ClassImage} (hother : other.WellFormed) :
      parse other.bytes = .ok (ofImage other) :=
    parse_eq_ok_iff.mpr
      ⟨other, ClassImage.inverts_read.run_eq_ok_iff.mpr ⟨hother, List.prefix_rfl⟩, rfl⟩
  rw [← ClassImage.ofImage_withoutMethod, ← ClassImage.ofImage_withoutCode]
  exact ⟨⟨_, hwritten (himage.withoutMethod place)⟩, ⟨_, hwritten (himage.withoutCode place)⟩⟩

end ClassWarden
