import WebIdl.Text.Quoted

/-!
# Templates

A template is a text with placeholders, which are filled from a record of named fields.  A
placeholder starts with a percent sign and ends with a letter, its conversion, which says how the
value is written: `%(name)s` is the field `name` as it is, `%(name)r` the field between quotes.
Between the name and the conversion may stand a width and, behind a point, the number of characters
to keep.  A placeholder without a name stands for the whole record.  Two percent signs are one.

Values are texts, so the conversions for numbers are refused.
-/

namespace WebIdl.Text

namespace Template

/-- A width or a number of characters to keep. -/
inductive Size where
  | fixed (count : Nat)
  /-- The size is to be taken from the values. -/
  | fromValue
deriving DecidableEq, Repr

/-- A placeholder, as it stands in the template. -/
structure Placeholder where
  /-- The field's name; without one it is the whole record. -/
  name : Option String := none
  /-- Does the value stand on the left of its room? -/
  alignsLeft : Bool := false
  width : Size := .fixed 0
  keep : Option Size := none
  /-- The conversion, and where it stands in the template; missing if the template ends first. -/
  conversion : Option (Char × Nat) := none
deriving DecidableEq, Repr

/-- A part of a template. -/
inductive Part where
  | plain (c : Char)
  | placeholder (p : Placeholder)
  /-- A placeholder whose name is not closed before the template ends. -/
  | unclosedName
deriving DecidableEq, Repr

/-! ## Reading a template -/

/-- Cuts a name from the text behind an opening bracket.  Brackets inside the name are closed in
pairs; `depth` of them are open besides the first. -/
def splitName (depth : Nat) : List Char → Option (List Char × List Char)
  | [] => none
  | ')' :: rest =>
    match depth with
    | 0 => some ([], rest)
    | depth + 1 => (splitName depth rest).map fun (name, rest) => (')' :: name, rest)
  | c :: rest =>
    (splitName (if c = '(' then depth + 1 else depth) rest).map fun (name, rest) =>
      (c :: name, rest)

/-- Marks in front of the width. -/
def isFlag (c : Char) : Bool :=
  ['-', '+', ' ', '#', '0'].contains c

/-- The number that decimal digits write. -/
def number (digits : List Char) : Nat :=
  digits.foldl (fun n c => 10 * n + (c.toNat - '0'.toNat)) 0

/-- Cuts a size, zero if none is given, from the front of a text. -/
def splitSize : List Char → Size × List Char
  | '*' :: rest => (.fromValue, rest)
  | text => (.fixed (number (text.takeWhile Char.isDigit)), text.dropWhile Char.isDigit)

/-- Cuts the number of characters to keep from the front of a text. -/
def splitKeep : List Char → Option Size × List Char
  | '.' :: rest =>
    let (size, rest) := splitSize rest
    (some size, rest)
  | text => (none, text)

/-- Passes over one of the letters that may stand in front of a conversion and mean nothing. -/
def skipLengthLetter : List Char → List Char
  | 'h' :: rest | 'l' :: rest | 'L' :: rest => rest
  | text => text

/-- Reads what follows the name of a placeholder.  `size` is the length of the whole template. -/
def splitFormat (size : Nat) (name : Option String) (text : List Char) :
    Placeholder × List Char :=
  let flags := text.takeWhile isFlag
  let (width, text) := splitSize (text.dropWhile isFlag)
  let (keep, text) := splitKeep text
  let placeholder := { name, alignsLeft := flags.contains '-', width, keep }
  match skipLengthLetter text with
  | [] => (placeholder, [])
  | c :: rest => ({ placeholder with conversion := some (c, size - rest.length - 1) }, rest)

theorem length_splitName_le {depth : Nat} {text name rest : List Char}
    (h : splitName depth text = some (name, rest)) : rest.length ≤ text.length := by
  induction text generalizing depth name with
  | nil => simp [splitName] at h
  | cons c text ih =>
    rw [splitName.eq_def] at h
    split at h
    · simp at h
    · next heq =>
      obtain ⟨rfl, rfl⟩ := List.cons.inj heq
      cases depth with
      | zero =>
        obtain ⟨-, rfl⟩ := Prod.mk.inj (Option.some.inj h)
        simp
      | succ depth =>
        obtain ⟨⟨inner, left⟩, hinner, heq⟩ := Option.map_eq_some_iff.mp h
        obtain ⟨-, rfl⟩ := Prod.mk.inj heq
        exact Nat.le_succ_of_le (ih hinner)
    · next heq =>
      obtain ⟨rfl, rfl⟩ := List.cons.inj heq
      obtain ⟨⟨inner, left⟩, hinner, heq⟩ := Option.map_eq_some_iff.mp h
      obtain ⟨-, rfl⟩ := Prod.mk.inj heq
      exact Nat.le_succ_of_le (ih hinner)

theorem length_splitSize_le (text : List Char) : (splitSize text).2.length ≤ text.length := by
  unfold splitSize
  split
  · simp
  · exact (List.dropWhile_sublist _).length_le

theorem length_splitKeep_le (text : List Char) : (splitKeep text).2.length ≤ text.length := by
  unfold splitKeep
  split
  · exact Nat.le_succ_of_le (length_splitSize_le _)
  · exact Nat.le_refl _

theorem length_skipLengthLetter_le (text : List Char) :
    (skipLengthLetter text).length ≤ text.length := by
  unfold skipLengthLetter
  split <;> simp

theorem length_splitFormat_le (size : Nat) (name : Option String) (text : List Char) :
    (splitFormat size name text).2.length ≤ text.length := by
  have hflags : (text.dropWhile isFlag).length ≤ text.length :=
    (List.dropWhile_sublist _).length_le
  have hwidth := length_splitSize_le (text.dropWhile isFlag)
  have hkeep := length_splitKeep_le (splitSize (text.dropWhile isFlag)).2
  have hletter := length_skipLengthLetter_le (splitKeep (splitSize (text.dropWhile isFlag)).2).2
  simp only [splitFormat]
  split
  · simp
  · next heq =>
    rw [heq, List.length_cons] at hletter
    dsimp only
    omega

/-- Reads a template of `size` characters from some place on. -/
def parts (size : Nat) : List Char → List Part
  | [] => []
  | '%' :: '%' :: rest => .plain '%' :: parts size rest
  | '%' :: '(' :: rest =>
    match _hname : splitName 0 rest with
    | none => [.unclosedName]
    | some (name, left) =>
      let format := splitFormat size (some (String.ofList name)) left
      .placeholder format.1 :: parts size format.2
  | '%' :: rest =>
    let format := splitFormat size none rest
    .placeholder format.1 :: parts size format.2
  | c :: rest => .plain c :: parts size rest
termination_by text => text.length
decreasing_by
  · simp only [List.length_cons]
    omega
  · have hleft := length_splitName_le _hname
    have hformat := length_splitFormat_le size (some (String.ofList name)) left
    simp only [List.length_cons]
    omega
  · have hformat := length_splitFormat_le size none rest
    simp only [List.length_cons]
    omega
  · simp

end Template

/-- What is wrong with a template. -/
inductive TemplateError where
  | unclosedName
  /-- The template ends inside a placeholder. -/
  | incomplete
  | unknownName (name : String)
  /-- A placeholder without a name stands behind another one. -/
  | valueMissing
  | sizeNotANumber
  | widthTooBig
  | keepTooBig
  /-- The filled template would be larger than any memory. -/
  | outOfMemory
  /-- A conversion for numbers was given a value of another kind. -/
  | numberRequired (conversion : Char) (kind : String)
  /-- A conversion for single characters was given another value. -/
  | characterRequired
  | unknownConversion (conversion : Char) (place : Nat)
deriving DecidableEq, Repr

def TemplateError.message : TemplateError → String
  | .unclosedName => "incomplete format key"
  | .incomplete => "incomplete format"
  | .unknownName name => quoted name
  | .valueMissing => "not enough arguments for format string"
  | .sizeNotANumber => "* wants int"
  | .widthTooBig => "width too big"
  | .keepTooBig => "precision too big"
  | .outOfMemory => ""
  | .numberRequired conversion kind =>
    if ['o', 'x', 'X'].contains conversion then
      s!"%{conversion} format: an integer is required, not {kind}"
    else if ['d', 'i', 'u'].contains conversion then
      s!"%{conversion} format: a real number is required, not {kind}"
    else
      s!"must be real number, not {kind}"
  | .characterRequired => "%c requires int or char"
  | .unknownConversion conversion place =>
    let shown := if 31 ≤ conversion.toNat && conversion.toNat ≤ 126 then conversion else '?'
    let code := String.ofList (Nat.toDigits 16 conversion.toNat)
    s!"unsupported format character '{shown}' (0x{code}) at index {place}"

namespace Template

/-! ## Filling a template -/

/-- Named texts. -/
abbrev Fields := List (String × String)

/-- What a placeholder stands for. -/
inductive Value where
  | text (content : String)
  | record (fields : Fields)

namespace Value

/-- How messages call a value. -/
def kind : Value → String
  | .text _ => "str"
  | .record _ => "dict"

/-- A value between quotes; a record shows its fields between braces. -/
def quoted : Value → String
  | .text content => Text.quoted content
  | .record fields =>
    let shown := fields.map fun (name, content) =>
      Text.quoted name ++ ": " ++ Text.quoted content
    "\x7b" ++ ", ".intercalate shown ++ "\x7d"

/-- A value as it is. -/
def plain : Value → String
  | .text content => content
  | value => value.quoted

/-- A value as a conversion writes it, with no more than `keep` characters of it. -/
def convert (keep : Option Nat) (conversion : Char) (place : Nat) (value : Value) :
    Except TemplateError String :=
  let cut (text : String) : String :=
    match keep with
    | none => text
    | some count => (text.take count).toString
  match conversion with
  | 's' => .ok (cut value.plain)
  | 'r' => .ok (cut value.quoted)
  | 'a' => .ok (cut (asciiOnly value.quoted))
  | 'c' =>
    match value with
    | .text content => if content.length = 1 then .ok content else .error .characterRequired
    | .record _ => .error .characterRequired
  | _ =>
    if "diuoxXeEfFgG".contains conversion then
      .error (.numberRequired conversion value.kind)
    else
      .error (.unknownConversion conversion place)

end Value

/-- The largest width that can be asked for. -/
def widthLimit : Nat := 0x7FFFFFFFFFFFFFFF

/-- The largest number of characters to keep that can be asked for. -/
def keepLimit : Nat := 0x7FFFFFFF

/-- The largest text that is built. -/
def memoryLimit : Nat := 0x100000000

/-- The count that a size stands for.  It cannot be taken from a value, since none is a number. -/
def Size.count (limit : Nat) (tooBig : TemplateError) (value : Option Value) :
    Size → Except TemplateError Nat
  | .fixed count => if count ≤ limit then .ok count else .error tooBig
  | .fromValue => .error (if value.isNone then .valueMissing else .sizeNotANumber)

/-- Puts a text into a room of at least `width` columns. -/
def pad (alignsLeft : Bool) (width : Nat) (text : String) : Except TemplateError String :=
  if width > memoryLimit then
    .error .outOfMemory
  else if alignsLeft then
    .ok (text.pushn ' ' (width - text.length))
  else
    .ok ("".pushn ' ' (width - text.length) ++ text)

namespace Placeholder

/-- The value that a placeholder stands for, if there is one: the field with its name, or else
`value`. -/
def value? (fields : Fields) (value : Option Value) (p : Placeholder) :
    Except TemplateError (Option Value) :=
  match p.name with
  | none => .ok value
  | some name =>
    match fields.lookup name with
    | some content => .ok (some (.text content))
    | none => .error (.unknownName name)

/-- What is written in place of a placeholder.  One without a name stands for `value`. -/
def fill (fields : Fields) (value : Option Value) (p : Placeholder) :
    Except TemplateError String := do
  let value ← p.value? fields value
  let width ← p.width.count widthLimit .widthTooBig value
  let keep ← p.keep.mapM (Size.count keepLimit .keepTooBig value)
  match p.conversion, value with
  | none, _ => throw .incomplete
  | some _, none => throw .valueMissing
  | some (conversion, place), some value =>
    pad p.alignsLeft width (← value.convert keep conversion place)

end Placeholder

/-- Fills the parts of a template in order.  Only the first placeholder may do without a name. -/
def fillParts (fields : Fields) (value : Option Value) :
    List Part → Except TemplateError String
  | [] => .ok ""
  | .plain c :: rest => return c.toString ++ (← fillParts fields value rest)
  | .placeholder p :: rest => return (← p.fill fields value) ++ (← fillParts fields none rest)
  | .unclosedName :: _ => .error .unclosedName

/-- Fills a template from a record. -/
def fill (fields : Fields) (template : String) : Except TemplateError String :=
  fillParts fields (some (.record fields)) (parts template.length template.toList)

end Template

end WebIdl.Text
