import ClassWarden.Proofs.Findings
import ClassWarden.Proofs.ShortenedClass
import Mathlib.Data.List.Enum

/-!
# The table of findings

The findings of a class, laid out as a table: a row for each method, in file
order, and a column for each signature, in the order of the list.  A cell is
filled exactly if the signature is found in the method's own stream, and read
row by row the cells are what the class is reported with.  A class that is
refused is refused for what its own bytes hold, whatever is looked for.

Rows and columns do not know of each other.  A class without one of its methods,
or without that method's code, loses the cells of the row, and a list without one
of its signatures those of the column; all other cells stay as they are.
-/

namespace ClassWarden

namespace Table

variable {α β γ : Type} {compare : α → β → Option γ}

/-- The filled cells of a table of numbered rows and columns, row by row, each with the
numbers of its row and its column. -/
def cells (compare : α → β → Option γ) (rows : List (α × Nat)) (columns : List (β × Nat)) :
    List ((Nat × Nat) × γ) :=
  rows.flatMap fun row => columns.filterMap fun column =>
    (compare row.1 column.1).map fun content => ((row.2, column.2), content)

/-- Numbered items from which one number is left out are those of the shorter list. -/
theorem map_fst_filter_zipIdx (items : List α) (place : Nat) :
    (items.zipIdx.filter fun item => item.2 ≠ place).map Prod.fst = items.eraseIdx place := by
  suffices hfrom : ∀ start, ((items.zipIdx start).filter fun item => item.2 ≠ start + place).map
      Prod.fst = items.eraseIdx place by
    simpa using hfrom 0
  induction items generalizing place with
  | nil => exact fun _ => rfl
  | cons item items ih =>
      intro start
      rw [List.zipIdx_cons]
      cases place with
      | zero =>
          -- The numbers behind the first item are larger than its own.
          have hlater : ∀ numbered ∈ items.zipIdx (start + 1), numbered.2 ≠ start := by
            intro numbered hmem
            have := (List.mem_zipIdx hmem).1
            omega
          rw [List.filter_cons_of_neg (by simp), List.filter_eq_self.mpr (by simpa using hlater),
            List.zipIdx_map_fst, List.eraseIdx_cons_zero]
      | succ place =>
          have hnumber : start + (place + 1) = start + 1 + place := by
            omega
          rw [List.filter_cons_of_pos (by simp), List.map_cons, hnumber, ih,
            List.eraseIdx_cons_succ]

theorem mem_cells_iff {rows : List α} {columns : List β} {row column : Nat} {content : γ} :
    ((row, column), content) ∈ cells compare rows.zipIdx columns.zipIdx ↔
      ∃ left right, rows[row]? = some left ∧ columns[column]? = some right ∧
        compare left right = some content := by
  simp only [cells, List.mem_flatMap, List.mem_filterMap, Option.map_eq_some_iff, Prod.exists,
    List.mk_mem_zipIdx_iff_getElem?, Prod.mk.injEq]
  constructor
  · rintro ⟨left, _, hleft, right, _, hright, _, hcontent, ⟨rfl, rfl⟩, rfl⟩
    exact ⟨left, right, hleft, hright, hcontent⟩
  · rintro ⟨left, right, hleft, hright, hcontent⟩
    exact ⟨left, row, hleft, right, column, hright, content, hcontent, ⟨rfl, rfl⟩, rfl⟩

theorem pairwise_zipIdx (items : List α) :
    items.zipIdx.Pairwise fun left right => left.2 < right.2 := by
  rw [← List.pairwise_map, List.zipIdx_map_snd]
  exact List.pairwise_lt_range'

/-- Cells are read row by row, and in a row from column to column. -/
theorem pairwise_cells (compare : α → β → Option γ) (rows : List α) (columns : List β) :
    (cells compare rows.zipIdx columns.zipIdx).Pairwise fun left right =>
      Prod.Lex (· < ·) (· < ·) left.1 right.1 := by
  rw [cells, List.pairwise_flatMap]
  constructor
  · intro row _
    rw [List.pairwise_filterMap]
    refine (pairwise_zipIdx columns).imp fun hlt left hleft right hright => ?_
    obtain ⟨_, -, rfl⟩ := Option.map_eq_some_iff.mp hleft
    obtain ⟨_, -, rfl⟩ := Option.map_eq_some_iff.mp hright
    exact Prod.Lex.right _ hlt
  · refine (pairwise_zipIdx rows).imp fun hlt left hleft right hright => ?_
    obtain ⟨_, -, hleft⟩ := List.mem_filterMap.mp hleft
    obtain ⟨_, -, hright⟩ := List.mem_filterMap.mp hright
    obtain ⟨_, -, rfl⟩ := Option.map_eq_some_iff.mp hleft
    obtain ⟨_, -, rfl⟩ := Option.map_eq_some_iff.mp hright
    exact Prod.Lex.left _ _ hlt

theorem map_snd_cells (compare : α → β → Option γ) (rows : List (α × Nat))
    (columns : List (β × Nat)) :
    (cells compare rows columns).map Prod.snd =
      (rows.map Prod.fst).flatMap fun row => (columns.map Prod.fst).filterMap (compare row) := by
  simp only [cells, List.map_flatMap, List.map_filterMap, Option.map_map, List.flatMap_map,
    List.filterMap_map, Function.comp_def, Option.map_id']

/-- Whether a cell stays goes by its numbers. -/
theorem filter_cell (keep : Nat × Nat → Bool) (numbers : Nat × Nat) (content? : Option γ) :
    (content?.map fun content => (numbers, content)).filter (fun cell => keep cell.1) =
      if keep numbers then content?.map fun content => (numbers, content) else none := by
  cases content? with
  | none => rw [Option.map_none, Option.filter_none, ite_self]
  | some content => rfl

theorem filter_row_cells (compare : α → β → Option γ) (rows : List (α × Nat))
    (columns : List (β × Nat)) (keep : Nat → Bool) :
    (cells compare rows columns).filter (fun cell => keep cell.1.1) =
      cells compare (rows.filter fun row => keep row.2) columns := by
  induction rows with
  | nil => rfl
  | cons row rows ih =>
      rw [cells, List.flatMap_cons, List.filter_append, ← cells, ih, List.filter_filterMap]
      simp only [filter_cell fun numbers => keep numbers.1]
      by_cases hkeep : keep row.2 = true
      · simp only [if_pos hkeep]
        rw [List.filter_cons, if_pos hkeep, cells, cells, List.flatMap_cons]
      · simp only [if_neg hkeep]
        rw [List.filter_cons, if_neg hkeep, List.filterMap_none, List.nil_append]

theorem filter_column_cells (compare : α → β → Option γ) (rows : List (α × Nat))
    (columns : List (β × Nat)) (keep : Nat → Bool) :
    (cells compare rows columns).filter (fun cell => keep cell.1.2) =
      cells compare rows (columns.filter fun column => keep column.2) := by
  rw [cells, cells, List.filter_flatMap]
  simp only [List.filter_filterMap, List.filterMap_filter, filter_cell fun numbers => keep numbers.2]

end Table

/-! ## Classes that cannot be decoded -/

/-- Why the first method that cannot be decoded cannot be. -/
def Method.FirstFailure (methods : List Method) (failure : DecodeError) : Prop :=
  ∃ earlier method later code, methods = earlier ++ method :: later ∧
    (∀ other ∈ earlier, other.Decodes) ∧
      method.code = some code ∧ Bytecode.decode code = .error failure

/-- Why a class cannot be decoded: it cannot be parsed, or some method cannot be decoded. -/
def ClassFile.Undecodable (bytes : List UInt8) (failure : DecodeError) : Prop :=
  parse bytes = .error failure ∨
    ∃ file, parse bytes = .ok file ∧ Method.FirstFailure file.methods failure

namespace Method

variable {method : Method} {methods : List Method} {failure : DecodeError}

theorem decodes_of_code_eq_none (hnone : method.code = none) : method.Decodes := by
  intro code hcode
  rw [hnone] at hcode
  cases hcode

theorem failure?_eq_some_iff :
    method.failure? = some failure ↔
      ∃ code, method.code = some code ∧ Bytecode.decode code = .error failure := by
  rw [failure?, Option.bind_eq_some_iff]
  refine exists_congr fun code => and_congr_right fun _ => ?_
  cases Bytecode.decode code <;> simp

theorem findSome?_failure?_eq_some_iff :
    methods.findSome? failure? = some failure ↔ FirstFailure methods failure := by
  simp only [List.findSome?_eq_some_iff, failure?_eq_some_iff, failure?_eq_none_iff]
  constructor
  · rintro ⟨earlier, method, later, hsplit, ⟨code, hcode, hdecode⟩, hearlier⟩
    exact ⟨earlier, method, later, code, hsplit, hearlier, hcode, hdecode⟩
  · rintro ⟨earlier, method, later, code, hsplit, hearlier, hcode, hdecode⟩
    exact ⟨earlier, method, later, hsplit, ⟨code, hcode, hdecode⟩, hearlier⟩

end Method

namespace Detector

variable {detector : Detector} {file : ClassFile} {bytes : List UInt8}

/-! ## The cells of a class -/

def withoutSignature (detector : Detector) (place : Nat) : Detector :=
  { detector with signatures := detector.signatures.eraseIdx place }

/-- The findings of a class, each with the numbers of its method and its signature. -/
def table (detector : Detector) (file : ClassFile) : List ((Nat × Nat) × Finding) :=
  Table.cells (fun method signature => detector.attempt file.pool (method, signature))
    file.methods.zipIdx detector.signatures.zipIdx

/-- A table has a cell for a method and a signature exactly if the method has code of which
the stream holds the signature, and the cells stand in order of methods and signatures. -/
structure Tabulates (detector : Detector) (file : ClassFile)
    (cells : List ((Nat × Nat) × Finding)) : Prop where
  mem_iff : ∀ row column finding, ((row, column), finding) ∈ cells ↔
    ∃ method signature code instructions,
      file.methods[row]? = some method ∧ detector.signatures[column]? = some signature ∧
        method.code = some code ∧ Bytecode.decode code = .ok instructions ∧
        Matching.findSignature detector.options (method.displayName file.pool)
          (SymbolicInstruction.stream file.pool instructions) signature = some finding
  ordered : cells.Pairwise fun left right => Prod.Lex (· < ·) (· < ·) left.1 right.1

theorem attempt_eq_some_iff {pool : ConstantPool} {method : Method} {signature : Signature}
    {finding : Finding} :
    detector.attempt pool (method, signature) = some finding ↔
      ∃ code instructions, method.code = some code ∧ Bytecode.decode code = .ok instructions ∧
        Matching.findSignature detector.options (method.displayName pool)
          (SymbolicInstruction.stream pool instructions) signature = some finding := by
  rw [attempt, Option.bind_eq_some_iff]
  constructor
  · rintro ⟨stream, hstream, hfound⟩
    obtain ⟨code, hcode, hdecoded⟩ := Option.bind_eq_some_iff.mp hstream
    obtain ⟨instructions, hinstructions, rfl⟩ := Option.map_eq_some_iff.mp hdecoded
    cases hdecode : Bytecode.decode code with
    | error failure =>
        rw [hdecode] at hinstructions
        cases hinstructions
    | ok decoded =>
        rw [hdecode] at hinstructions
        obtain rfl : decoded = instructions := Option.some.inj hinstructions
        exact ⟨code, decoded, hcode, hdecode, hfound⟩
  · rintro ⟨code, instructions, hcode, hdecode, hfound⟩
    exact ⟨_, Method.stream?_of_decode hcode hdecode, hfound⟩

theorem tabulates_table (detector : Detector) (file : ClassFile) :
    detector.Tabulates file (detector.table file) where
  mem_iff row column finding := by
    simp only [table, Table.mem_cells_iff, attempt_eq_some_iff, exists_and_left]
  ordered := Table.pairwise_cells _ file.methods detector.signatures

theorem attempts_eq_flatMap (detector : Detector) (file : ClassFile) :
    detector.attempts file = file.methods.flatMap fun method =>
      detector.signatures.filterMap fun signature =>
        detector.attempt file.pool (method, signature) := by
  rw [← flatMap_methodFindings]
  congr 1
  funext method
  exact detector.methodFindings_eq_filterMap file.pool method

theorem map_snd_table (detector : Detector) (file : ClassFile) :
    (detector.table file).map Prod.snd = detector.attempts file := by
  rw [table, Table.map_snd_cells, List.zipIdx_map_fst, List.zipIdx_map_fst, attempts_eq_flatMap]

/-- Without a signature the cells of its column are missing. -/
theorem map_snd_filter_column (detector : Detector) (file : ClassFile) (place : Nat) :
    ((detector.table file).filter fun cell => cell.1.2 ≠ place).map Prod.snd =
      (detector.withoutSignature place).attempts file := by
  rw [table, Table.filter_column_cells _ _ _ fun number => number ≠ place, Table.map_snd_cells,
    List.zipIdx_map_fst, Table.map_fst_filter_zipIdx, attempts_eq_flatMap]
  rfl

/-- Without a method the cells of its row are missing. -/
theorem map_snd_filter_row (detector : Detector) (file : ClassFile) (place : Nat) :
    ((detector.table file).filter fun cell => cell.1.1 ≠ place).map Prod.snd =
      detector.attempts (file.withoutMethod place) := by
  rw [table, Table.filter_row_cells _ _ _ fun number => number ≠ place, Table.map_snd_cells,
    List.zipIdx_map_fst, Table.map_fst_filter_zipIdx, attempts_eq_flatMap]
  rfl

/-- A method without code has an empty row. -/
theorem attempts_withoutCode (detector : Detector) (file : ClassFile) (place : Nat) :
    detector.attempts (file.withoutCode place) = detector.attempts (file.withoutMethod place) := by
  rw [attempts_eq_flatMap, attempts_eq_flatMap]
  refine flatMap_modify_of_eq_nil (fun method => ?_) file.methods place
  exact List.filterMap_none detector.signatures

/-! ## The findings of a class -/

/-- The findings are withheld for what the class holds, whatever is looked for. -/
theorem findMatches_eq_error_iff {failure : DecodeError} :
    detector.findMatches bytes = .error failure ↔ ClassFile.Undecodable bytes failure := by
  rw [ClassFile.Undecodable]
  cases hparse : ClassFile.parse bytes with
  | error parseFailure => simp [findMatches_of_parse_eq_error hparse]
  | ok file =>
      simp only [reduceCtorEq, false_or, Except.ok.injEq, exists_eq_left']
      rw [findMatches_of_parse hparse, ← Method.findSome?_failure?_eq_some_iff]
      cases file.methods.findSome? Method.failure? <;> simp

/-- A class that can be decoded throughout is reported with the cells of its table. -/
theorem findMatches_eq_table (hparse : ClassFile.parse bytes = .ok file)
    (hdecodes : ∀ method ∈ file.methods, method.Decodes) :
    detector.findMatches bytes = .ok ((detector.table file).map Prod.snd) := by
  rw [findMatches_of_decodes hparse hdecodes, flatMap_methodFindings, map_snd_table]

/-- A class is refused exactly if it cannot be parsed or some method of it cannot be decoded,
and then for the parser's reason or that of the first such method.  Any other class is
reported with a table of its findings, cell by cell: one for each pair of a method and a
signature that is found in the method's own stream, and no other.  Without a signature the
cells of its column are missing, and without a method, or without the method's code, those
of its row; nothing else changes.  Classes without a method or without its code exist. -/
theorem findMatches_by_cells (detector : Detector) (bytes : List UInt8) :
    (∀ failure, detector.findMatches bytes = .error failure ↔
        ClassFile.Undecodable bytes failure) ∧
      ∀ file, ClassFile.parse bytes = .ok file → (∀ method ∈ file.methods, method.Decodes) →
        detector.Tabulates file (detector.table file) ∧
          detector.findMatches bytes = .ok ((detector.table file).map Prod.snd) ∧
          ∀ place,
            (detector.withoutSignature place).findMatches bytes =
              .ok (((detector.table file).filter fun cell => cell.1.2 ≠ place).map Prod.snd) ∧
            (∃ shorter, ClassFile.parse shorter = .ok (file.withoutMethod place)) ∧
            (∃ shorter, ClassFile.parse shorter = .ok (file.withoutCode place)) ∧
            ∀ shorter, ClassFile.parse shorter = .ok (file.withoutMethod place) ∨
                ClassFile.parse shorter = .ok (file.withoutCode place) →
              detector.findMatches shorter =
                .ok (((detector.table file).filter fun cell => cell.1.1 ≠ place).map Prod.snd) := by
  refine ⟨fun failure => findMatches_eq_error_iff, fun file hparse hdecodes => ?_⟩
  refine ⟨detector.tabulates_table file, findMatches_eq_table hparse hdecodes, fun place => ?_⟩
  obtain ⟨hmethod, hcode⟩ := ClassFile.exists_parse_without hparse place
  refine ⟨?_, hmethod, hcode, ?_⟩
  · rw [findMatches_eq_table hparse hdecodes, map_snd_table, map_snd_filter_column]
  · rw [map_snd_filter_row]
    rintro shorter (hshorter | hshorter)
    · rw [findMatches_eq_table hshorter, map_snd_table]
      exact fun method hmem => hdecodes method (List.mem_of_mem_eraseIdx hmem)
    · rw [findMatches_eq_table hshorter, map_snd_table, attempts_withoutCode]
      exact forall_mem_modify hdecodes (fun _ _ => Method.decodes_of_code_eq_none rfl) place

/-- Two methods of one name and with the same code. -/
def doubled : ClassImage where
  minor := 0
  major := 52
  poolCount := 2
  constants := [.utf8 [0x43, 0x6f, 0x64, 0x65]]
  access := 0x21
  thisClass := 1
  superClass := 0
  interfaces := []
  fields := []
  methods := List.replicate 2 ⟨1, 1, 1, [⟨1, [0, 2, 0, 1, 0, 0, 0, 3, 0x59, 0x59, 0x59]⟩]⟩
  attributes := []

/-- Both signatures are found in both methods.  The findings of the two methods do not
differ, but they are four, and two of them go with either method or signature. -/
theorem findMatches_by_cells_doubled :
    let dup := Signature.plain .dup
    let detector : Detector := ⟨[.wide "pair" "" [dup, dup], .wide "single" "" [dup]], ⟨0, none⟩⟩
    let file := ClassFile.ofImage doubled
    let pair : Finding := ⟨"Code", "pair", 0, 0⟩
    let single : Finding := ⟨"Code", "single", 0, 0⟩
    ClassFile.parse doubled.bytes = .ok file ∧ (∀ method ∈ file.methods, method.Decodes) ∧
      detector.table file =
        [((0, 0), pair), ((0, 1), single), ((1, 0), pair), ((1, 1), single)] ∧
      detector.findMatches doubled.bytes = .ok [pair, single, pair, single] ∧
      (detector.withoutSignature 0).findMatches doubled.bytes = .ok [single, single] ∧
      ClassFile.parse (doubled.withoutCode 0).bytes = .ok (file.withoutCode 0) ∧
      detector.findMatches (doubled.withoutCode 0).bytes = .ok [pair, single] := by
  intro dup detector file pair single
  have hparse : ClassFile.parse doubled.bytes = .ok file := by
    decide +kernel
  have hdecodes : ∀ method ∈ file.methods, method.Decodes := by
    decide +kernel
  have htable : detector.table file =
      [((0, 0), pair), ((0, 1), single), ((1, 0), pair), ((1, 1), single)] := by
    decide +kernel
  have hshorter : ClassFile.parse (doubled.withoutCode 0).bytes = .ok (file.withoutCode 0) := by
    decide +kernel
  obtain ⟨-, hcells⟩ := findMatches_by_cells detector doubled.bytes
  obtain ⟨-, hfindings, hwithout⟩ := hcells file hparse hdecodes
  obtain ⟨hsignature, -, -, hmethod⟩ := hwithout 0
  have hcode := hmethod _ (.inr hshorter)
  rw [htable] at hfindings hsignature hcode
  exact ⟨hparse, hdecodes, htable, hfindings, hsignature, hshorter, hcode⟩

end Detector

end ClassWarden
