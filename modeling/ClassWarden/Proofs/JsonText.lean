import ClassWarden.Text.Json.Reader

/-!
# Documents and their text

Reading undoes writing: the text of a document is cut into the document's tokens,
and the tokens are put together to the document.  So a text stands for one
document only, whatever characters the strings in it hold.

A number ends where something else than a digit follows, so for the text of a
value it matters what stands behind it.
-/

namespace ClassWarden.Json

mutual

def tokens : Json → List Token
  | text value => [.text value]
  | number value => [.number value]
  | array [] => [.openArray, .closeArray]
  | array (item :: items) => .openArray :: (tokens item ++ itemTokens items ++ [.closeArray])
  | object [] => [.openObject, .closeObject]
  | object ((name, value) :: fields) =>
    .openObject :: .text name :: .colon ::
      (tokens value ++ fieldTokens fields ++ [.closeObject])

/-- The tokens of the items after the first one. -/
def itemTokens : List Json → List Token
  | [] => []
  | item :: items => .comma :: (tokens item ++ itemTokens items)

def fieldTokens : List (String × Json) → List Token
  | [] => []
  | (name, value) :: fields =>
    .comma :: .text name :: .colon :: (tokens value ++ fieldTokens fields)

end

/-! ## From characters to tokens -/

variable {position next : Position} {char : Char} {chars more rest : List Char}
variable {written later : List Token}

theorem tokensFrom_cons (hadvance : advance position char = some (written, next)) :
    tokensFrom position (char :: chars) = (tokensFrom next chars).map (written ++ ·) := by
  rw [tokensFrom, hadvance]

theorem tokensFrom_cons_silent (hadvance : advance position char = some ([], next)) :
    tokensFrom position (char :: chars) = tokensFrom next chars := by
  rw [tokensFrom_cons hadvance]
  exact Option.map_id'

/-- What follows a number without going on with it. -/
def EndsNumber (rest : List Char) : Prop :=
  ∀ char ∈ rest.head?, char.isDigit = false

/-- A text with some tokens, whatever follows it. -/
def Closes (chars : List Char) (written : List Token) : Prop :=
  ∀ rest, tokensFrom .between (chars ++ rest) = (tokensFrom .between rest).map (written ++ ·)

/-- A text with some tokens, if no digit follows it. -/
def Writes (chars : List Char) (written : List Token) : Prop :=
  ∀ rest, EndsNumber rest →
    tokensFrom .between (chars ++ rest) = (tokensFrom .between rest).map (written ++ ·)

theorem EndsNumber.append (hends : EndsNumber chars) (hrest : EndsNumber rest) :
    EndsNumber (chars ++ rest) := by
  cases chars with
  | nil => exact hrest
  | cons char chars => exact hends

theorem Closes.writes (hcloses : Closes chars written) : Writes chars written :=
  fun rest _ => hcloses rest

/-- Of two texts in a row the tokens stand in a row. -/
theorem tokensFrom_append
    (hfirst : tokensFrom .between (chars ++ (more ++ rest)) =
      (tokensFrom .between (more ++ rest)).map (written ++ ·))
    (hsecond : tokensFrom .between (more ++ rest) =
      (tokensFrom .between rest).map (later ++ ·)) :
    tokensFrom .between (chars ++ more ++ rest) =
      (tokensFrom .between rest).map (written ++ later ++ ·) := by
  rw [List.append_assoc, hfirst, hsecond, Option.map_map]
  simp only [Function.comp_def, List.append_assoc]

theorem Closes.append_writes (hfirst : Closes chars written) (hsecond : Writes more later) :
    Writes (chars ++ more) (written ++ later) :=
  fun rest hrest => tokensFrom_append (hfirst _) (hsecond rest hrest)

theorem Closes.append (hfirst : Closes chars written) (hsecond : Closes more later) :
    Closes (chars ++ more) (written ++ later) :=
  fun rest => tokensFrom_append (hfirst _) (hsecond rest)

theorem Writes.append (hfirst : Writes chars written) (hends : EndsNumber more)
    (hsecond : Writes more later) : Writes (chars ++ more) (written ++ later) :=
  fun rest hrest => tokensFrom_append (hfirst _ (hends.append hrest)) (hsecond rest hrest)

theorem closes_nil : Closes [] [] := by
  intro rest
  exact Option.map_id'.symm

theorem closes_singleton (hadvance : start char = some (written, .between)) :
    Closes [char] written :=
  fun _ => tokensFrom_cons hadvance

theorem closes_blanks (count : Nat) : Closes (List.replicate count ' ') [] := by
  have hblank : Closes [' '] [] := closes_singleton rfl
  induction count with
  | zero => exact closes_nil
  | succ count ih => exact hblank.append ih

theorem closes_newline (depth : Nat) : Closes (newline depth) [] := by
  have hline : Closes ['\n'] [] := closes_singleton rfl
  exact hline.append (closes_blanks (2 * depth))

/-! ### Strings -/

/-- A character behind a backslash, other than the one that opens a code. -/
theorem tokensFrom_letter {letter : Char} (hletter : letter ≠ 'u')
    (hescaped : escaped? letter = some char) (read rest : List Char) :
    tokensFrom (.text read) ('\\' :: letter :: rest) = tokensFrom (.text (char :: read)) rest := by
  have hbackslash : advance (.text read) '\\' = some ([], .escape read) := rfl
  have hchar : advance (.escape read) letter = some ([], .text (char :: read)) := by
    rw [advance, if_neg hletter, hescaped]
    rfl
  rw [tokensFrom_cons_silent hbackslash, tokensFrom_cons_silent hchar]

/-- A character below U+0020 as an escaped code. -/
theorem tokensFrom_control (hcontrol : char.toNat < 0x20) (read rest : List Char) :
    tokensFrom (.text read) (['\\', 'u', '0', '0', Nat.digitChar (char.toNat / 16),
      Nat.digitChar (char.toNat % 16)] ++ rest) = tokensFrom (.text (char :: read)) rest := by
  have hbackslash : advance (.text read) '\\' = some ([], .escape read) := rfl
  have hopen : advance (.escape read) 'u' = some ([], .code read 3 0) := rfl
  have hzero : advance (.code read 3 0) '0' = some ([], .code read 2 0) := rfl
  have hzero' : advance (.code read 2 0) '0' = some ([], .code read 1 0) := rfl
  have hhigh : advance (.code read 1 0) (Nat.digitChar (char.toNat / 16)) =
      some ([], .code read 0 (char.toNat / 16)) := by
    rw [advance, Hex.digitValue?_digitChar (by omega)]
    simp
  have hlow : advance (.code read 0 (char.toNat / 16)) (Nat.digitChar (char.toNat % 16)) =
      some ([], .text (char :: read)) := by
    have hvalid : char.toNat.isValidChar := .inl (by omega)
    have hvalue : 16 * (char.toNat / 16) + char.toNat % 16 = char.toNat := Nat.div_add_mod ..
    rw [advance, Hex.digitValue?_digitChar (Nat.mod_lt _ (by decide))]
    simp only [hvalue]
    rw [if_pos hvalid, Char.ofNat_toNat]
  simp only [List.cons_append, List.nil_append]
  rw [tokensFrom_cons_silent hbackslash, tokensFrom_cons_silent hopen,
    tokensFrom_cons_silent hzero, tokensFrom_cons_silent hzero', tokensFrom_cons_silent hhigh,
    tokensFrom_cons_silent hlow]

/-- An escaped character is read as the character. -/
theorem tokensFrom_escape (char : Char) (read rest : List Char) :
    tokensFrom (.text read) (escape char ++ rest) = tokensFrom (.text (char :: read)) rest := by
  rw [escape.eq_def]
  split
  case h_8 hquote hbackslash _ _ _ _ _ =>
    split
    · next hcontrol => exact tokensFrom_control hcontrol read rest
    · next hplain =>
      have hchar : advance (.text read) char = some ([], .text (char :: read)) := by
        rw [advance, if_neg hquote, if_neg hbackslash, if_neg hplain]
      exact tokensFrom_cons_silent hchar
  all_goals exact tokensFrom_letter (by decide) rfl read rest

theorem tokensFrom_flatMap_escape (value read rest : List Char) :
    tokensFrom (.text read) (value.flatMap escape ++ rest) =
      tokensFrom (.text (value.reverse ++ read)) rest := by
  induction value generalizing read with
  | nil => rfl
  | cons char value ih =>
      rw [List.flatMap_cons, List.append_assoc, tokensFrom_escape, ih, List.reverse_cons,
        List.append_assoc, List.singleton_append]

theorem closes_quoted (value : String) : Closes (quoted value) [.text value] := by
  intro rest
  have hopen : advance .between '"' = some ([], .text []) := rfl
  have hclose : advance (.text value.toList.reverse) '"' = some ([.text value], .between) := by
    simp [advance]
  rw [quoted, List.cons_append, tokensFrom_cons_silent hopen,
    List.append_assoc, tokensFrom_flatMap_escape, List.append_nil]
  exact tokensFrom_cons hclose

/-! ### Numbers -/

theorem start_of_isDigit (hdigit : char.isDigit = true) :
    start char = some ([], .number false (digit char)) := by
  rw [start.eq_def]
  split
  all_goals first
    | exact absurd hdigit (by decide)
    | exact if_pos hdigit

theorem tokensFrom_digits {negative : Bool} {digits : List Char}
    (hdigits : ∀ char ∈ digits, char.isDigit = true) (value : Nat) (rest : List Char) :
    tokensFrom (.number negative value) (digits ++ rest) =
      tokensFrom (.number negative (Nat.ofDigitChars 10 digits value)) rest := by
  induction digits generalizing value with
  | nil => rfl
  | cons char digits ih =>
      obtain ⟨hchar, hdigits⟩ := List.forall_mem_cons.mp hdigits
      rw [List.cons_append, tokensFrom_cons_silent (by rw [advance, if_pos hchar]), ih hdigits]
      rfl

theorem tokensFrom_number (negative : Bool) (value : Nat) (hrest : EndsNumber rest) :
    tokensFrom (.number negative value) rest =
      (tokensFrom .between rest).map ([.number (signed negative value)] ++ ·) := by
  cases rest with
  | nil => rfl
  | cons char rest =>
      have hchar : char.isDigit = false := hrest char rfl
      rw [tokensFrom, tokensFrom, advance, advance, hchar]
      cases hstart : start char with
      | none => rfl
      | some pair => simp [Option.map_map, Function.comp_def]

/-- The digits of a number, from a position where its first digit opens it. -/
theorem tokensFrom_toDigits {negative : Bool}
    (hopen : ∀ first : Char, first.isDigit = true →
      advance position first = some ([], .number negative (digit first)))
    (value : Nat) (rest : List Char) :
    tokensFrom position (Nat.toDigits 10 value ++ rest) =
      tokensFrom (.number negative value) rest := by
  have hdigits : ∀ char ∈ Nat.toDigits 10 value, char.isDigit = true :=
    fun char => Nat.isDigit_of_mem_toDigits (by decide) (by decide)
  have hvalue := Nat.ofDigitChars_ten_toDigits (n := value)
  cases hcases : Nat.toDigits 10 value with
  | nil => exact absurd hcases Nat.toDigits_ne_nil
  | cons first digits =>
      rw [hcases] at hdigits hvalue
      obtain ⟨hfirst, hdigits⟩ := List.forall_mem_cons.mp hdigits
      have hread : Nat.ofDigitChars 10 digits (digit first) = value := by
        rw [← hvalue, Nat.ofDigitChars_cons, Nat.mul_zero, Nat.zero_add, digit]
      rw [List.cons_append, tokensFrom_cons_silent (hopen first hfirst),
        tokensFrom_digits hdigits, hread]

theorem writes_number (value : Int) : Writes (toString value).toList [.number value] := by
  intro rest hrest
  rw [Int.toString_eq_repr, Int.repr_eq_if]
  split
  case isTrue hpositive =>
    have hopen : ∀ first : Char, first.isDigit = true →
        advance .between first = some ([], .number false (digit first)) :=
      fun first => start_of_isDigit
    have hsigned : signed false value.toNat = value := Int.toNat_of_nonneg hpositive
    rw [Nat.repr_eq_ofList_toDigits, String.toList_ofList, tokensFrom_toDigits hopen,
      tokensFrom_number false _ hrest, hsigned]
  case isFalse hnegative =>
    have hsign : advance .between '-' = some ([], .sign) := rfl
    have hopen : ∀ first : Char, first.isDigit = true →
        advance .sign first = some ([], .number true (digit first)) :=
      fun first hfirst => if_pos hfirst
    have hsigned : signed true (-value).toNat = value := by
      simp only [signed, if_true]
      omega
    have hchars : ("-" ++ (-value).toNat.repr).toList =
        '-' :: Nat.toDigits 10 (-value).toNat := by
      simp only [Nat.repr_eq_ofList_toDigits, String.toList_append, String.toList_ofList]
      rfl
    rw [hchars, List.cons_append, tokensFrom_cons_silent hsign, tokensFrom_toDigits hopen,
      tokensFrom_number true _ hrest, hsigned]

/-! ### Documents -/

theorem endsNumber_cons (hchar : char.isDigit = false) : EndsNumber (char :: chars) :=
  fun _ hhead => Option.some_inj.mp hhead ▸ hchar

theorem endsNumber_newline (depth : Nat) : EndsNumber (newline depth ++ chars) :=
  endsNumber_cons rfl

theorem endsNumber_prettyItems (depth : Nat) (items : List Json) :
    EndsNumber (prettyItems depth items) := by
  cases items with
  | nil => exact fun _ hhead => absurd hhead (by simp [prettyItems])
  | cons item items => exact endsNumber_cons rfl

theorem endsNumber_prettyFields (depth : Nat) (fields : List (String × Json)) :
    EndsNumber (prettyFields depth fields) := by
  cases fields with
  | nil => exact fun _ hhead => absurd hhead (by simp [prettyFields])
  | cons field fields => exact endsNumber_cons rfl

/-- A sign that opens a container or parts what is in it, and the line after it. -/
theorem closes_cons_newline (hsign : start char = some (written, .between)) (depth : Nat) :
    Closes (char :: newline depth) written := by
  have hcloses := (closes_singleton hsign).append (closes_newline depth)
  rwa [List.append_nil] at hcloses

/-- The end of a container on a line of its own. -/
theorem writes_newline_singleton (hsign : start char = some (written, .between))
    (depth : Nat) : Writes (newline depth ++ [char]) written :=
  ((closes_newline depth).append (closes_singleton hsign)).writes

/-- The name of a field with what stands in front of its value. -/
theorem closes_name (name : String) :
    Closes (quoted name ++ [':', ' ']) [.text name, .colon] := by
  have hcolon : Closes [':'] [.colon] := closes_singleton rfl
  exact (closes_quoted name).append (hcolon.append (closes_blanks 1))

mutual

/-- The text of a document has the tokens of the document. -/
theorem writes_pretty (depth : Nat) :
    (document : Json) → Writes (pretty depth document) (tokens document)
  | .text value => by
      rw [pretty, tokens]
      exact (closes_quoted value).writes
  | .number value => by
      rw [pretty, tokens]
      exact writes_number value
  | .array [] => by
      have hopen : Closes ['['] [.openArray] := closes_singleton rfl
      have hclose : Closes [']'] [.closeArray] := closes_singleton rfl
      rw [pretty, tokens]
      exact (hopen.append hclose).writes
  | .array (item :: items) => by
      have hopen : Closes ('[' :: newline (depth + 1)) [.openArray] :=
        closes_cons_newline rfl (depth + 1)
      have hclose : Writes (newline depth ++ [']']) [.closeArray] :=
        writes_newline_singleton rfl depth
      have hrest := (writes_prettyItems (depth + 1) items).append
        (endsNumber_newline depth) hclose
      have hitems := (writes_pretty (depth + 1) item).append
        ((endsNumber_prettyItems (depth + 1) items).append (endsNumber_newline depth)) hrest
      rw [pretty, tokens]
      simpa only [List.append_assoc, List.cons_append, List.nil_append] using
        hopen.append_writes hitems
  | .object [] => by
      have hopen : Closes ['\x7b'] [.openObject] := closes_singleton rfl
      have hclose : Closes ['\x7d'] [.closeObject] := closes_singleton rfl
      rw [pretty, tokens]
      exact (hopen.append hclose).writes
  | .object ((name, value) :: fields) => by
      have hopen : Closes ('\x7b' :: newline (depth + 1)) [.openObject] :=
        closes_cons_newline rfl (depth + 1)
      have hclose : Writes (newline depth ++ ['\x7d']) [.closeObject] :=
        writes_newline_singleton rfl depth
      have hrest := (writes_prettyFields (depth + 1) fields).append
        (endsNumber_newline depth) hclose
      have hfields := (writes_pretty (depth + 1) value).append
        ((endsNumber_prettyFields (depth + 1) fields).append (endsNumber_newline depth)) hrest
      rw [pretty, tokens]
      simpa only [List.append_assoc, List.cons_append, List.nil_append] using
        hopen.append_writes ((closes_name name).append_writes hfields)

theorem writes_prettyItems (depth : Nat) :
    (items : List Json) → Writes (prettyItems depth items) (itemTokens items)
  | [] => by
      rw [prettyItems, itemTokens]
      exact closes_nil.writes
  | item :: items => by
      have hcomma : Closes (',' :: newline depth) [.comma] := closes_cons_newline rfl depth
      have hitems := (writes_pretty depth item).append (endsNumber_prettyItems depth items)
        (writes_prettyItems depth items)
      rw [prettyItems, itemTokens]
      simpa only [List.append_assoc, List.cons_append, List.nil_append] using
        hcomma.append_writes hitems

theorem writes_prettyFields (depth : Nat) :
    (fields : List (String × Json)) → Writes (prettyFields depth fields) (fieldTokens fields)
  | [] => by
      rw [prettyFields, fieldTokens]
      exact closes_nil.writes
  | (name, value) :: fields => by
      have hcomma : Closes (',' :: newline depth) [.comma] := closes_cons_newline rfl depth
      have hfields := (writes_pretty depth value).append (endsNumber_prettyFields depth fields)
        (writes_prettyFields depth fields)
      rw [prettyFields, fieldTokens]
      simpa only [List.append_assoc, List.cons_append, List.nil_append] using
        hcomma.append_writes ((closes_name name).append_writes hfields)

end

/-! ## From tokens to documents -/

section

variable {stage : Stage} {stack : List Frame}

/-- At this stage a value may begin, on this stack.  The end of an array without
items is all that may stand there instead. -/
def Begins (stage : Stage) (stack : List Frame) : Prop :=
  ∀ token, token ≠ .closeArray → step stage token = begin stack token

theorem begins_value (stack : List Frame) : Begins (.value stack) stack :=
  fun _ _ => rfl

theorem begins_firstItem (stack : List Frame) : Begins (.firstItem stack) (.array [] :: stack) := by
  intro token hclose
  cases token
  case closeArray => exact absurd rfl hclose
  all_goals rfl

theorem foldlM_step {next : Stage} {token : Token} {rest : List Token}
    (hstep : step stage token = some next) :
    (token :: rest).foldlM step stage = rest.foldlM step next := by
  rw [List.foldlM_cons, hstep]
  rfl

mutual

/-- The tokens of a document complete it, wherever it begins. -/
theorem foldlM_tokens : (document : Json) → (stage : Stage) → (stack : List Frame) →
    Begins stage stack → (rest : List Token) →
    (tokens document ++ rest).foldlM step stage = rest.foldlM step (.complete document stack)
  | .text value, stage, stack, hbegins, rest => by
      rw [tokens]
      exact foldlM_step (hbegins _ (by simp))
  | .number value, stage, stack, hbegins, rest => by
      rw [tokens]
      exact foldlM_step (hbegins _ (by simp))
  | .array [], stage, stack, hbegins, rest => by
      have hopen : step stage .openArray = some (.firstItem stack) := hbegins _ (by simp)
      have hclose : step (.firstItem stack) .closeArray =
          some (.complete (.array []) stack) := rfl
      rw [tokens]
      exact (foldlM_step hopen).trans (foldlM_step hclose)
  | .array (item :: items), stage, stack, hbegins, rest => by
      have hopen : step stage .openArray = some (.firstItem stack) := hbegins _ (by simp)
      rw [tokens]
      simp only [List.append_assoc, List.cons_append, List.nil_append]
      rw [foldlM_step hopen, foldlM_tokens item _ _ (begins_firstItem stack),
        foldlM_itemTokens items item [] stack rest]
      rfl
  | .object [], stage, stack, hbegins, rest => by
      have hopen : step stage .openObject = some (.firstField stack) := hbegins _ (by simp)
      have hclose : step (.firstField stack) .closeObject =
          some (.complete (.object []) stack) := rfl
      rw [tokens]
      exact (foldlM_step hopen).trans (foldlM_step hclose)
  | .object ((name, value) :: fields), stage, stack, hbegins, rest => by
      have hopen : step stage .openObject = some (.firstField stack) := hbegins _ (by simp)
      have hname : step (.firstField stack) (.text name) = some (.colon [] name stack) := rfl
      have hcolon : step (.colon [] name stack) .colon =
          some (.value (.object [] name :: stack)) := rfl
      rw [tokens]
      simp only [List.append_assoc, List.cons_append, List.nil_append]
      rw [foldlM_step hopen, foldlM_step hname, foldlM_step hcolon,
        foldlM_tokens value _ _ (begins_value _),
        foldlM_fieldTokens fields name value [] stack rest]
      rfl

/-- The other items and the end of an array, behind an item that is complete. -/
theorem foldlM_itemTokens : (items : List Json) → (value : Json) → (read : List Json) →
    (stack : List Frame) → (rest : List Token) →
    (itemTokens items ++ .closeArray :: rest).foldlM step
        (.complete value (.array read :: stack)) =
      rest.foldlM step (.complete (.array (read.reverse ++ value :: items)) stack)
  | [], value, read, stack, rest => by
      have hclose : step (.complete value (.array read :: stack)) .closeArray =
          some (.complete (.array (read.reverse ++ [value])) stack) := by
        simp [step]
      rw [itemTokens]
      exact foldlM_step hclose
  | item :: items, value, read, stack, rest => by
      have hcomma : step (.complete value (.array read :: stack)) .comma =
          some (.value (.array (value :: read) :: stack)) := rfl
      rw [itemTokens, List.cons_append, List.append_assoc, foldlM_step hcomma,
        foldlM_tokens item _ _ (begins_value _), foldlM_itemTokens items item _ stack rest,
        List.reverse_cons, List.append_assoc, List.singleton_append]

/-- The other fields and the end of an object, behind a field that is complete. -/
theorem foldlM_fieldTokens : (fields : List (String × Json)) → (name : String) →
    (value : Json) → (read : List (String × Json)) → (stack : List Frame) →
    (rest : List Token) →
    (fieldTokens fields ++ .closeObject :: rest).foldlM step
        (.complete value (.object read name :: stack)) =
      rest.foldlM step (.complete (.object (read.reverse ++ (name, value) :: fields)) stack)
  | [], name, value, read, stack, rest => by
      have hclose : step (.complete value (.object read name :: stack)) .closeObject =
          some (.complete (.object (read.reverse ++ [(name, value)])) stack) := by
        simp [step]
      rw [fieldTokens]
      exact foldlM_step hclose
  | (next, item) :: fields, name, value, read, stack, rest => by
      have hcomma : step (.complete value (.object read name :: stack)) .comma =
          some (.field ((name, value) :: read) stack) := rfl
      have hname : step (.field ((name, value) :: read) stack) (.text next) =
          some (.colon ((name, value) :: read) next stack) := rfl
      have hcolon : step (.colon ((name, value) :: read) next stack) .colon =
          some (.value (.object ((name, value) :: read) next :: stack)) := rfl
      rw [fieldTokens]
      simp only [List.append_assoc, List.cons_append]
      rw [foldlM_step hcomma, foldlM_step hname, foldlM_step hcolon,
        foldlM_tokens item _ _ (begins_value _),
        foldlM_fieldTokens fields next item _ stack rest,
        List.reverse_cons, List.append_assoc, List.singleton_append]

end

end

/-! ## Documents read back -/

theorem ofTokens?_tokens (document : Json) : ofTokens? (tokens document) = some document := by
  have hread := foldlM_tokens document _ _ (begins_value []) []
  rw [List.append_nil] at hread
  rw [ofTokens?, hread]
  rfl

theorem parse?_render (document : Json) : parse? document.render = some document := by
  have hends : EndsNumber [] := fun _ hhead => absurd hhead (by simp)
  have hend : tokensFrom .between [] = some [] := rfl
  have hwritten := writes_pretty 0 document [] hends
  rw [List.append_nil, hend] at hwritten
  rw [parse?, render, String.toList_ofList, hwritten, Option.map_some, Option.bind_some,
    List.append_nil, ofTokens?_tokens]

theorem render_injective : Function.Injective render := by
  intro first second hrender
  have hparse := parse?_render first
  rw [hrender, parse?_render second] at hparse
  exact (Option.some_inj.mp hparse).symm

end ClassWarden.Json
