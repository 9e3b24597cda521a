import Mathlib.Computability.Language
import WebIdl.Proofs.Token.Scan

/-!
# The longest lexeme

The lexical classes are regular languages, written down here as such (`Family.language`).  The
recognisers try them in a fixed order, take the first that fits, and each of them runs greedily over
the text; what they cut off is nevertheless the longest front of the text in any of the languages, and
it belongs to one of them only (`Token.longest_of_stream`).

## Strategy

A front of the text in some language makes its recogniser succeed, with something at least as long
(`classified?_of_language`).  The order of the recognisers matters only for an integer that is the
front of a decimal, and there the decimal is the longer one (`decimal?_of_isInteger_front`).
-/

namespace WebIdl

open WebIdl.Lexeme

open scoped Computability

namespace Lexeme

/-! ## Regular languages of characters -/

/-- One character of the class. -/
def one (p : Char → Bool) : Language Char :=
  {word | ∃ c, word = [c] ∧ p c = true}

/-- Any number of characters of the class. -/
def many (p : Char → Bool) : Language Char :=
  (one p)∗

/-- At least one character of the class. -/
def several (p : Char → Bool) : Language Char :=
  one p * many p

/-- A word of the language, or nothing. -/
def maybe (language : Language Char) : Language Char :=
  1 + language

section

variable {p : Char → Bool} {language : Language Char} {word : List Char}

theorem mem_one : word ∈ one p ↔ ∃ c, word = [c] ∧ p c = true :=
  Iff.rfl

theorem mem_many : word ∈ many p ↔ ∀ c ∈ word, p c = true := by
  unfold many
  rw [Language.mem_kstar]
  constructor
  · rintro ⟨pieces, rfl, hpieces⟩ c hc
    obtain ⟨piece, hpiece, hmem⟩ := List.mem_flatten.mp hc
    obtain ⟨d, rfl, hd⟩ := hpieces piece hpiece
    rwa [List.mem_singleton.mp hmem]
  · intro hall
    refine ⟨word.map fun c => [c], ?_, ?_⟩
    · induction word with
      | nil => rfl
      | cons c word ih => simpa using ih fun d hd => hall d (List.mem_cons_of_mem c hd)
    · intro piece hpiece
      obtain ⟨c, hc, rfl⟩ := List.mem_map.mp hpiece
      exact ⟨c, rfl, hall c hc⟩

theorem mem_several : word ∈ several p ↔ word ≠ [] ∧ ∀ c ∈ word, p c = true := by
  unfold several
  rw [Language.mem_mul]
  constructor
  · rintro ⟨first, ⟨c, rfl, hc⟩, rest, hrest, rfl⟩
    refine ⟨by simp, ?_⟩
    intro d hd
    rcases List.mem_cons.mp hd with rfl | hd
    · exact hc
    · exact mem_many.mp hrest d hd
  · rintro ⟨hne, hall⟩
    cases word with
    | nil => exact absurd rfl hne
    | cons c rest =>
        refine ⟨[c], ⟨c, rfl, hall c List.mem_cons_self⟩, rest, mem_many.mpr ?_, rfl⟩
        exact fun d hd => hall d (List.mem_cons_of_mem c hd)

theorem mem_maybe : word ∈ maybe language ↔ word = [] ∨ word ∈ language := by
  unfold maybe
  rw [Language.mem_add, Language.mem_one]

theorem mem_one_mul : word ∈ one p * language ↔
    ∃ c rest, word = c :: rest ∧ p c = true ∧ rest ∈ language := by
  rw [Language.mem_mul]
  constructor
  · rintro ⟨first, ⟨c, rfl, hc⟩, rest, hrest, rfl⟩
    exact ⟨c, rest, rfl, hc, hrest⟩
  · rintro ⟨c, rest, rfl, hc, hrest⟩
    exact ⟨[c], ⟨c, rfl, hc⟩, rest, hrest, rfl⟩

theorem mem_maybe_one_mul : word ∈ maybe (one p) * language ↔
    word ∈ language ∨ ∃ c rest, word = c :: rest ∧ p c = true ∧ rest ∈ language := by
  unfold maybe
  rw [add_mul, one_mul, Language.mem_add, mem_one_mul]

end

/-! ## The lexical classes as languages -/

/-- The lexical classes that a front of the text is compared with. -/
inductive Family where
  | decimal | integer | identifier | string | punctuation
deriving DecidableEq, Repr

/-- The mark of a hexadecimal number, in either case. -/
def isHexMark (c : Char) : Bool :=
  c == 'x' || c == 'X'

namespace Family

/-- `[eE][+-]?D+` -/
def exponent : Language Char :=
  one (fun c => c == 'e' || c == 'E') * (maybe (one fun c => c == '-' || c == '+') * several isDigit)

/-- The words of a class; `mark` tells the characters that mark a hexadecimal number:

* `-?((D+\.D*|D*\.D+)([eE][+-]?D+)?|D+[eE][+-]?D+)`
* `-?(0x hex+ | 0 octal* | [1-9]D*)`
* `[_-]?letter(letter|D|_|-)*`
* `"[^"]*"`
* the punctuation marks -/
def language (mark : Char → Bool) : Family → Language Char
  | .decimal => maybe (one (· == '-')) *
      ((several isDigit * (one (· == '.') * many isDigit) +
          many isDigit * (one (· == '.') * several isDigit)) * maybe exponent +
        several isDigit * exponent)
  | .integer => maybe (one (· == '-')) *
      (one (· == '0') * (one mark * several isHex) + one (· == '0') * many isOctal +
        one (fun c => isDigit c && c != '0') * many isDigit)
  | .identifier => maybe (one fun c => c == '_' || c == '-') * (one isLetter * many isWordPart)
  | .string => one (· == '"') * (many (· != '"') * one (· == '"'))
  | .punctuation => {word | ∃ mark ∈ WebIdl.punctuation, word = mark.toList}

/-- The kind of the words of a class.  A word that is a keyword is inline, like the punctuation
marks. -/
def kind : Family → List Char → Token.Kind
  | .decimal, _ => .decimal
  | .integer, _ => .integer
  | .identifier, word => if Keyword.all.contains (String.ofList word) then .inline else .identifier
  | .string, _ => .string
  | .punctuation, _ => .inline

end Family

section

variable {word : List Char}

theorem mem_exponent : word ∈ Family.exponent ↔ IsExponent word := by
  unfold Family.exponent IsExponent
  simp only [mem_one_mul, mem_maybe_one_mul, mem_several]
  constructor
  · rintro ⟨e, rest, rfl, he, ⟨hne, hall⟩ | ⟨sign, digits, rfl, hsign, hne, hall⟩⟩
    · exact ⟨e, [], rest, rfl, by simpa using he, Or.inl rfl, hne, hall⟩
    · refine ⟨e, [sign], digits, rfl, by simpa using he, Or.inr ?_, hne, hall⟩
      simpa using hsign
  · rintro ⟨e, sign, digits, rfl, he, rfl | rfl | rfl, hne, hall⟩
    · exact ⟨e, digits, rfl, by simpa using he, Or.inl ⟨hne, hall⟩⟩
    · exact ⟨e, '-' :: digits, rfl, by simpa using he, Or.inr ⟨'-', digits, rfl, rfl, hne, hall⟩⟩
    · exact ⟨e, '+' :: digits, rfl, by simpa using he, Or.inr ⟨'+', digits, rfl, rfl, hne, hall⟩⟩

/-- A sign in front of a language. -/
theorem mem_signed {language : Language Char} {shape : List Char → Prop}
    (h : ∀ word, word ∈ language ↔ shape word) :
    word ∈ maybe (one (· == '-')) * language ↔ IsSigned shape word := by
  unfold IsSigned
  rw [mem_maybe_one_mul]
  constructor
  · rintro (hword | ⟨c, rest, rfl, hc, hrest⟩)
    · exact Or.inl ((h word).mp hword)
    · exact Or.inr ⟨rest, by rw [beq_iff_eq.mp hc], (h rest).mp hrest⟩
  · rintro (hword | ⟨rest, rfl, hrest⟩)
    · exact Or.inl ((h word).mpr hword)
    · exact Or.inr ⟨'-', rest, rfl, rfl, (h rest).mpr hrest⟩

theorem mem_decimal (mark : Char → Bool) :
    word ∈ Family.decimal.language mark ↔ IsSigned IsDecimal word := by
  refine mem_signed fun word => ?_
  rw [Language.mem_add]
  refine or_congr ?_ ?_
  · -- digits around a point, on one side at least
    rw [Language.mem_mul]
    constructor
    · rintro ⟨number, hnumber, power, hpower, rfl⟩
      rw [mem_maybe, mem_exponent] at hpower
      rw [Language.mem_add, Language.mem_mul, Language.mem_mul] at hnumber
      rcases hnumber with ⟨whole, hwhole, rest, hrest, rfl⟩ | ⟨whole, hwhole, rest, hrest, rfl⟩
      · obtain ⟨c, fraction, rfl, hc, hfraction⟩ := mem_one_mul.mp hrest
        obtain ⟨hne, hwhole⟩ := mem_several.mp hwhole
        obtain rfl := beq_iff_eq.mp hc
        exact ⟨whole, fraction, power, by simp, hwhole, mem_many.mp hfraction, Or.inl hne, hpower⟩
      · obtain ⟨c, fraction, rfl, hc, hfraction⟩ := mem_one_mul.mp hrest
        obtain ⟨hne, hfraction⟩ := mem_several.mp hfraction
        obtain rfl := beq_iff_eq.mp hc
        exact ⟨whole, fraction, power, by simp, mem_many.mp hwhole, hfraction, Or.inr hne, hpower⟩
    · rintro ⟨whole, fraction, power, rfl, hwhole, hfraction, hne, hpower⟩
      refine ⟨whole ++ '.' :: fraction, ?_, power, ?_, by simp⟩
      · rw [Language.mem_add, Language.mem_mul, Language.mem_mul]
        rcases hne with hne | hne
        · exact Or.inl ⟨whole, mem_several.mpr ⟨hne, hwhole⟩, '.' :: fraction,
            mem_one_mul.mpr ⟨'.', fraction, rfl, rfl, mem_many.mpr hfraction⟩, rfl⟩
        · exact Or.inr ⟨whole, mem_many.mpr hwhole, '.' :: fraction,
            mem_one_mul.mpr ⟨'.', fraction, rfl, rfl, mem_several.mpr ⟨hne, hfraction⟩⟩, rfl⟩
      · rwa [mem_maybe, mem_exponent]
  · rw [Language.mem_mul]
    constructor
    · rintro ⟨whole, hwhole, power, hpower, rfl⟩
      obtain ⟨hne, hwhole⟩ := mem_several.mp hwhole
      exact ⟨whole, power, rfl, hwhole, hne, mem_exponent.mp hpower⟩
    · rintro ⟨whole, power, rfl, hwhole, hne, hpower⟩
      exact ⟨whole, mem_several.mpr ⟨hne, hwhole⟩, power, mem_exponent.mpr hpower, rfl⟩

/-- Integers without a sign, by the marks of hexadecimal ones. -/
theorem mem_unsignedInteger {mark : Char → Bool} :
    word ∈ one (· == '0') * (one mark * several isHex) + one (· == '0') * many isOctal +
        one (fun c => isDigit c && c != '0') * many isDigit ↔
      (∃ x digits, word = '0' :: x :: digits ∧ mark x = true ∧ digits ≠ [] ∧
        ∀ c ∈ digits, isHex c = true) ∨
      (∃ digits, word = '0' :: digits ∧ ∀ c ∈ digits, isOctal c = true) ∨
      ∃ c digits, word = c :: digits ∧ c ≠ '0' ∧ isDigit c = true ∧
        ∀ d ∈ digits, isDigit d = true := by
  rw [Language.mem_add, Language.mem_add, or_assoc]
  simp only [mem_one_mul, mem_several, mem_many, Bool.and_eq_true, bne_iff_ne, beq_iff_eq]
  refine or_congr ?_ (or_congr ?_ ?_)
  · constructor
    · rintro ⟨c, rest, rfl, rfl, x, digits, rfl, hx, hne, hall⟩
      exact ⟨x, digits, rfl, hx, hne, hall⟩
    · rintro ⟨x, digits, rfl, hx, hne, hall⟩
      exact ⟨'0', x :: digits, rfl, rfl, x, digits, rfl, hx, hne, hall⟩
  · constructor
    · rintro ⟨c, digits, rfl, rfl, hall⟩
      exact ⟨digits, rfl, hall⟩
    · rintro ⟨digits, rfl, hall⟩
      exact ⟨'0', digits, rfl, rfl, hall⟩
  · constructor
    · rintro ⟨c, digits, rfl, ⟨hc, hzero⟩, hall⟩
      exact ⟨c, digits, rfl, hzero, hc, hall⟩
    · rintro ⟨c, digits, rfl, hzero, hc, hall⟩
      exact ⟨c, digits, rfl, ⟨hc, hzero⟩, hall⟩

theorem mem_integer : word ∈ Family.integer.language isHexMark ↔ IsSigned IsInteger word := by
  refine mem_signed fun word => ?_
  rw [mem_unsignedInteger, IsInteger, or_left_comm]
  simp only [isHexMark, Bool.or_eq_true, beq_iff_eq]

theorem mem_identifier (mark : Char → Bool) :
    word ∈ Family.identifier.language mark ↔ IsWord word := by
  unfold Family.language IsWord
  simp only [mem_maybe_one_mul, mem_one_mul, mem_many, Bool.or_eq_true, beq_iff_eq]
  constructor
  · rintro (⟨c, rest, rfl, hc, hall⟩ | ⟨sign, rest, rfl, hsign, c, rest, rfl, hc, hall⟩)
    · exact ⟨[], c, rest, rfl, Or.inl rfl, hc, hall⟩
    · exact ⟨[sign], c, rest, rfl, Or.inr (by simpa using hsign), hc, hall⟩
  · rintro ⟨sign, c, rest, rfl, rfl | rfl | rfl, hc, hall⟩
    · exact Or.inl ⟨c, rest, rfl, hc, hall⟩
    · exact Or.inr ⟨'_', c :: rest, rfl, Or.inl rfl, c, rest, rfl, hc, hall⟩
    · exact Or.inr ⟨'-', c :: rest, rfl, Or.inr rfl, c, rest, rfl, hc, hall⟩

theorem mem_string (mark : Char → Bool) : word ∈ Family.string.language mark ↔ IsQuoted word := by
  unfold Family.language IsQuoted
  rw [mem_one_mul]
  constructor
  · rintro ⟨c, rest, rfl, hc, hrest⟩
    rw [Language.mem_mul] at hrest
    obtain ⟨content, hcontent, last, ⟨d, rfl, hd⟩, rfl⟩ := hrest
    obtain rfl := beq_iff_eq.mp hc
    obtain rfl := beq_iff_eq.mp hd
    refine ⟨content, rfl, ?_⟩
    intro hmem
    simpa using mem_many.mp hcontent '"' hmem
  · rintro ⟨content, rfl, hcontent⟩
    refine ⟨'"', content ++ ['"'], rfl, rfl, ?_⟩
    rw [Language.mem_mul]
    refine ⟨content, mem_many.mpr ?_, ['"'], ⟨'"', rfl, rfl⟩, rfl⟩
    intro c hc
    rw [bne_iff_ne]
    rintro rfl
    exact hcontent hc

end

/-! ## Greedy recognisers -/

section

variable {p : Char → Bool} {front tail text word rest : List Char}

/-- A run goes on behind a front of its class. -/
theorem exists_run_append (hfront : ∀ c ∈ front, p c = true) (tail : List Char) :
    ∃ more rest, run p (front ++ tail) = (front ++ more, rest) ∧ tail = more ++ rest ∧
      (∀ c ∈ more, p c = true) ∧ Stops p rest := by
  obtain ⟨more, rest, -, rfl, hmore, hrest⟩ := run_cases p tail
  refine ⟨more, rest, ?_, rfl, hmore, hrest⟩
  rw [← List.append_assoc]
  refine run_eq ?_ hrest
  intro c hc
  rcases List.mem_append.mp hc with hc | hc
  · exact hfront c hc
  · exact hmore c hc

/-- The digits of an exponent are taken as far as they go. -/
theorem exponent?_of_front (h : IsExponent front) (tail : List Char) :
    ∃ word rest, exponent? (front ++ tail) = some (word, rest) ∧ front.length ≤ word.length := by
  obtain ⟨more, rest, -, rfl, hmore, hrest⟩ := run_cases isDigit tail
  have hlonger : IsExponent (front ++ more) := by
    obtain ⟨e, sign, digits, rfl, he, hsign, hne, hdigits⟩ := h
    refine ⟨e, sign, digits ++ more, by simp, he, hsign, by simp [hne], ?_⟩
    intro c hc
    rcases List.mem_append.mp hc with hc | hc
    · exact hdigits c hc
    · exact hmore c hc
  refine ⟨front ++ more, rest, ?_, by simp⟩
  rw [← List.append_assoc]
  exact exponent?_eq hlonger hrest

theorem unsignedDecimal?_of_front (h : IsDecimal front) (tail : List Char) :
    ∃ word rest, unsignedDecimal? (front ++ tail) = some (word, rest) ∧
      front.length ≤ word.length := by
  rcases h with ⟨whole, fraction, power, rfl, hwhole, hfraction, hdigits, hpower⟩ |
    ⟨whole, power, rfl, hwhole, hne, hpower⟩
  · have hrun : run isDigit (whole ++ '.' :: (fraction ++ power) ++ tail) =
        (whole, '.' :: (fraction ++ (power ++ tail))) := by
      rw [List.append_assoc, List.cons_append, List.append_assoc]
      exact run_eq hwhole (stops_cons.mpr rfl)
    rcases hpower with rfl | hpower
    · -- the fraction may go on, and an exponent may follow that the front has not got
      obtain ⟨more, rest, hmore, -, -, -⟩ := exists_run_append hfraction ([] ++ tail)
      have hboth : whole ≠ [] ∨ fraction ++ more ≠ [] := by
        rcases hdigits with hne | hne
        · exact Or.inl hne
        · exact Or.inr (by simp [hne])
      rw [unsignedDecimal?_of_point hrun hmore hboth]
      cases exponent? rest with
      | none => exact ⟨_, _, rfl, by simp⟩
      | some cut => exact ⟨_, _, rfl, by simp⟩
    · have hfirst : run isDigit (fraction ++ (power ++ tail)) = (fraction, power ++ tail) :=
        run_eq hfraction (hpower.stops_isDigit tail)
      obtain ⟨longer, rest, hlonger, hlength⟩ := exponent?_of_front hpower tail
      rw [unsignedDecimal?_of_point hrun hfirst hdigits, hlonger]
      exact ⟨_, _, rfl, by simp; omega⟩
  · -- without a point an exponent has to follow, so the front ends with one
    have hrun : run isDigit (whole ++ power ++ tail) = (whole, power ++ tail) := by
      rw [List.append_assoc]
      exact run_eq hwhole (hpower.stops_isDigit tail)
    have hpoint : Stops (· == '.') (power ++ tail) := by
      obtain ⟨e, sign, digits, rfl, rfl | rfl, -, -, -⟩ := hpower <;> exact stops_cons.mpr rfl
    obtain ⟨longer, rest, hlonger, hlength⟩ := exponent?_of_front hpower tail
    rw [unsignedDecimal?_of_stops hrun hpoint, hlonger, if_neg (by simpa using hne)]
    exact ⟨_, _, rfl, by simp; omega⟩

theorem unsignedInteger?_of_front (h : IsInteger front) (tail : List Char) :
    ∃ word rest, unsignedInteger? (front ++ tail) = some (word, rest) ∧
      front.length ≤ word.length := by
  rcases h with ⟨digits, rfl, hdigits⟩ | ⟨x, digits, rfl, hx, hne, hdigits⟩ |
    ⟨c, digits, rfl, hzero, hc, hdigits⟩
  · obtain ⟨more, rest, hrun, -, -, -⟩ := exists_run_append hdigits tail
    rw [List.cons_append]
    cases hbehind : digits ++ tail with
    | nil =>
        obtain ⟨rfl, rfl⟩ := List.append_eq_nil_iff.mp hbehind
        exact ⟨_, _, rfl, Nat.le_refl _⟩
    | cons x behind =>
        rw [hbehind] at hrun
        by_cases hmark : (x == 'x' || x == 'X') = true
        · -- no octal digit is a mark, so the front is the zero alone
          obtain rfl : digits = [] := by
            cases digits with
            | nil => rfl
            | cons d digits =>
                obtain ⟨rfl, -⟩ := List.cons.inj hbehind
                have hoctal := hdigits d List.mem_cons_self
                simp only [Bool.or_eq_true, beq_iff_eq] at hmark
                rcases hmark with rfl | rfl <;> cases hoctal
          simp only [unsignedInteger?, hmark, if_true]
          cases run? isHex behind with
          | none => exact ⟨_, _, rfl, by simp⟩
          | some cut => exact ⟨_, _, rfl, by simp⟩
        · simp only [unsignedInteger?, hmark, hrun]
          exact ⟨_, _, rfl, by simp⟩
  · obtain ⟨more, rest, hrun, -, -, -⟩ := exists_run_append hdigits tail
    have hmark : (x == 'x' || x == 'X') = true := by
      rcases hx with rfl | rfl <;> rfl
    have hsome : run? isHex (digits ++ tail) = some (digits ++ more, rest) := by
      unfold run?
      rw [hrun]
      cases digits with
      | nil => exact absurd rfl hne
      | cons d digits => rfl
    rw [List.cons_append, List.cons_append]
    simp only [unsignedInteger?, hmark, if_true, hsome]
    exact ⟨_, _, rfl, by simp⟩
  · obtain ⟨more, rest, hrun, -, -, -⟩ := exists_run_append hdigits tail
    refine ⟨c :: (digits ++ more), rest, ?_, by simp⟩
    rw [List.cons_append]
    unfold unsignedInteger?
    split
    · rename_i heq
      cases heq
    · rename_i heq
      exact absurd (List.cons.inj heq).1 hzero
    · rename_i heq
      obtain ⟨rfl, rfl⟩ := List.cons.inj heq
      simp [hc, hrun, Cut.after]

/-- A recogniser that is greedy without a sign is greedy behind one. -/
theorem signed?_of_front {recognise : List Char → Option Cut} {shape : List Char → Prop}
    (hread : ∀ {front : List Char}, shape front → ∃ word rest,
      recognise (front ++ tail) = some (word, rest) ∧ front.length ≤ word.length)
    (hhead : ∀ {word}, shape word → ∃ c rest, word = c :: rest ∧ isNumberHead c = true)
    (h : IsSigned shape front) :
    ∃ word rest, signed? recognise (front ++ tail) = some (word, rest) ∧
      front.length ≤ word.length := by
  have hstops {front : List Char} (hshape : shape front) : Stops (· == '-') (front ++ tail) := by
    obtain ⟨c, rest, rfl, hc⟩ := hhead hshape
    exact stops_of_head hc fun d hd => isNumberHead_minus hd
  rcases h with hshape | ⟨front, rfl, hshape⟩
  · rw [(signed?_eq (hstops hshape)).1]
    exact hread hshape
  · obtain ⟨word, rest, hword, hlength⟩ := hread hshape
    refine ⟨'-' :: word, rest, ?_, by simpa using hlength⟩
    rw [List.cons_append, (signed?_eq (hstops hshape)).2, hword]
    rfl

/-! ## The order of the recognisers -/

/-- A decimal begins with all the digits that the text begins with. -/
theorem length_le_of_unsignedDecimal? {whole behind : List Char}
    (hrun : run isDigit text = (whole, behind)) (h : unsignedDecimal? text = some (word, rest)) :
    whole.length ≤ word.length := by
  rw [unsignedDecimal?, hrun] at h
  dsimp only at h
  split at h
  · rename_i behind
    obtain ⟨fraction, back, hfraction, -, -, -⟩ := run_cases isDigit behind
    rw [hfraction] at h
    dsimp only at h
    split at h
    · cases h
    · cases hpower : exponent? back with
      | none =>
          rw [hpower] at h
          obtain ⟨rfl, -⟩ := Prod.mk.inj (Option.some.inj h)
          simp
      | some cut =>
          rw [hpower] at h
          obtain ⟨rfl, -⟩ := Prod.mk.inj (Option.some.inj h)
          simp
  · split at h
    · cases h
    · obtain ⟨cut, -, heq⟩ := Option.map_eq_some_iff.mp h
      obtain ⟨rfl, -⟩ := Prod.mk.inj heq
      simp

/-- Where an integer stands and a decimal is found, the decimal is as long at least. -/
theorem unsignedDecimal?_of_isInteger_front (h : IsInteger front)
    (hfound : unsignedDecimal? (front ++ tail) = some (word, rest)) :
    front.length ≤ word.length := by
  have hplain (hall : ∀ c ∈ front, isDigit c = true) : front.length ≤ word.length := by
    obtain ⟨more, behind, hrun, -, -, -⟩ := exists_run_append hall tail
    have hwhole := length_le_of_unsignedDecimal? hrun hfound
    rw [List.length_append] at hwhole
    omega
  rcases h with ⟨digits, rfl, hdigits⟩ | ⟨x, digits, rfl, hx, -, -⟩ |
    ⟨c, digits, rfl, -, hc, hdigits⟩
  · apply hplain
    intro c hmem
    rcases List.mem_cons.mp hmem with rfl | hmem
    · rfl
    · exact isDigit_of_isOctal c (hdigits c hmem)
  · -- a hexadecimal number is no front of a decimal
    have hrun : run isDigit ('0' :: x :: digits ++ tail) = (['0'], x :: (digits ++ tail)) := by
      rcases hx with rfl | rfl <;> rfl
    have hpoint : Stops (· == '.') (x :: (digits ++ tail)) := by
      rcases hx with rfl | rfl <;> exact stops_cons.mpr rfl
    have hpower : exponent? (x :: (digits ++ tail)) = none := by
      rcases hx with rfl | rfl <;> rfl
    rw [unsignedDecimal?_of_stops hrun hpoint, hpower] at hfound
    cases hfound
  · apply hplain
    intro d hmem
    rcases List.mem_cons.mp hmem with rfl | hmem
    · exact hc
    · exact hdigits d hmem

theorem decimal?_of_isInteger_front (h : IsSigned IsInteger front)
    (hfound : decimal? (front ++ tail) = some (word, rest)) : front.length ≤ word.length := by
  have hstops {front : List Char} (hshape : IsInteger front) : Stops (· == '-') (front ++ tail) := by
    obtain ⟨c, rest, rfl, hc⟩ := hshape.head
    exact stops_of_head hc fun d hd => isNumberHead_minus hd
  unfold decimal? at hfound
  rcases h with hshape | ⟨front, rfl, hshape⟩
  · rw [(signed?_eq (hstops hshape)).1] at hfound
    exact unsignedDecimal?_of_isInteger_front hshape hfound
  · rw [List.cons_append, (signed?_eq (hstops hshape)).2] at hfound
    obtain ⟨⟨inner, back⟩, hinner, heq⟩ := Option.map_eq_some_iff.mp hfound
    obtain ⟨rfl, -⟩ := Prod.mk.inj heq
    simpa using unsignedDecimal?_of_isInteger_front hshape hinner

/-- If a text begins with a word of one of the languages, something at least as long is cut off. -/
theorem classified?_of_language {family : Family} (h : front ∈ family.language isHexMark)
    (tail : List Char) :
    ∃ kind word rest, classified? (front ++ tail) = some (kind, word, rest) ∧
      front.length ≤ word.length := by
  cases family with
  | decimal =>
      obtain ⟨word, rest, hword, hlength⟩ :
          ∃ word rest, decimal? (front ++ tail) = some (word, rest) ∧ front.length ≤ word.length :=
        signed?_of_front (fun hshape => unsignedDecimal?_of_front hshape tail) IsDecimal.head
          ((mem_decimal isHexMark).mp h)
      exact ⟨.decimal, word, rest, by simp [classified?, hword], hlength⟩
  -- a decimal is looked for first, and takes an integer only with more behind it
  | integer =>
      rw [mem_integer] at h
      cases hdecimal : decimal? (front ++ tail) with
      | some cut =>
          obtain ⟨word, rest⟩ := cut
          exact ⟨.decimal, word, rest, by simp [classified?, hdecimal],
            decimal?_of_isInteger_front h hdecimal⟩
      | none =>
          obtain ⟨word, rest, hword, hlength⟩ :
              ∃ word rest, integer? (front ++ tail) = some (word, rest) ∧
                front.length ≤ word.length :=
            signed?_of_front (fun hshape => unsignedInteger?_of_front hshape tail) IsInteger.head h
          exact ⟨.integer, word, rest, by simp [classified?, hdecimal, hword], hlength⟩
  | identifier =>
      obtain ⟨sign, c, parts, rfl, hsign, hc, hparts⟩ := (mem_identifier isHexMark).mp h
      obtain ⟨more, rest, -, rfl, hmore, hrest⟩ := run_cases isWordPart tail
      -- the word that is found goes on as far as it can
      have hlonger : IsWord (sign ++ c :: (parts ++ more)) := by
        refine ⟨sign, c, parts ++ more, rfl, hsign, hc, ?_⟩
        intro d hd
        rcases List.mem_append.mp hd with hd | hd
        · exact hparts d hd
        · exact hmore d hd
      have hread := hlonger.classified?_eq hrest
      refine ⟨.identifier, sign ++ c :: (parts ++ more), rest, ?_, by simp⟩
      simpa using hread
  | string =>
      exact ⟨.string, front, tail, ((mem_string isHexMark).mp h).classified?_eq tail, Nat.le_refl _⟩
  | punctuation =>
      exact ⟨.inline, front, tail, IsPunctuation.classified?_eq h tail, Nat.le_refl _⟩

end

/-! ## The languages are disjoint -/

/-- The kind that the words of a class have before keywords are looked up. -/
def Family.bareKind : Family → Token.Kind
  | .decimal => .decimal
  | .integer => .integer
  | .identifier => .identifier
  | .string => .string
  | .punctuation => .inline

theorem Family.bareKind_injective : Function.Injective Family.bareKind := by
  intro first second h
  cases first <;> cases second <;> first | rfl | cases h

/-- A word of a language is recognised as one, if it is all the text. -/
theorem classified?_self {family : Family} {word : List Char}
    (h : word ∈ family.language isHexMark) :
    classified? word = some (family.bareKind, word, []) := by
  suffices hread : classified? (word ++ []) = some (family.bareKind, word, []) by
    rwa [List.append_nil] at hread
  cases family with
  | decimal =>
      have hread : decimal? (word ++ []) = some (word, []) :=
        signed?_of_isSigned ((mem_decimal isHexMark).mp h) IsDecimal.head
          fun hshape => unsignedDecimal?_eq hshape (stops_nil _)
      simp only [classified?, hread]
      rfl
  | integer =>
      rw [mem_integer] at h
      have hread : integer? (word ++ []) = some (word, []) :=
        signed?_of_isSigned h IsInteger.head fun hshape => unsignedInteger?_eq hshape (stops_nil _)
      simp only [classified?, decimal?_of_isInteger h (stops_nil _), hread]
      rfl
  | identifier => exact ((mem_identifier isHexMark).mp h).classified?_eq (stops_nil _)
  | string => exact ((mem_string isHexMark).mp h).classified?_eq []
  | punctuation => exact IsPunctuation.classified?_eq h []

/-- No word is in two of the languages. -/
theorem Family.eq_of_mem {first second : Family} {word : List Char}
    (h : word ∈ first.language isHexMark) (hsecond : word ∈ second.language isHexMark) :
    second = first := by
  apply Family.bareKind_injective
  have hsame := (classified?_self hsecond).symm.trans (classified?_self h)
  exact (Prod.mk.inj (Option.some.inj hsame)).1

/-- A lexeme is a word of the language of its class. -/
theorem IsLexeme.exists_family {kind : Token.Kind} {word : List Char} (h : IsLexeme kind word) :
    ∃ family : Family, word ∈ family.language isHexMark ∧ kind = family.kind word := by
  cases h with
  | decimal h => exact ⟨.decimal, (mem_decimal isHexMark).mpr h, rfl⟩
  | integer h => exact ⟨.integer, mem_integer.mpr h, rfl⟩
  | identifier h hkeyword =>
      exact ⟨.identifier, (mem_identifier isHexMark).mpr h, by rw [Family.kind, hkeyword]; rfl⟩
  | keyword h hkeyword =>
      exact ⟨.identifier, (mem_identifier isHexMark).mpr h, by rw [Family.kind, hkeyword]; rfl⟩
  | quoted h => exact ⟨.string, (mem_string isHexMark).mpr h, rfl⟩
  | mark h => exact ⟨.punctuation, h, rfl⟩

/-! ## The longest front -/

/-- The text has a front in one of the languages. -/
def HasFront (mark : Char → Bool) (text : List Char) : Prop :=
  ∃ (family : Family) (front : List Char), front ≠ [] ∧ front ∈ family.language mark ∧ front <+: text

/-- The word is the longest front of the text in any of the languages, it is in one of them only, and
has its kind.  If there is no such front, the word is the first character. -/
structure Longest (mark : Char → Bool) (text : List Char) (kind : Token.Kind) (word : List Char) :
    Prop where
  found : HasFront mark text →
    ∃ family : Family, word ∈ family.language mark ∧ word <+: text ∧ kind = family.kind word ∧
      (∀ other : Family, word ∈ other.language mark → other = family) ∧
      ∀ (other : Family) (front : List Char), front ∈ other.language mark → front <+: text →
        front.length ≤ word.length
  alone : ¬ HasFront mark text → kind = .other ∧ ∃ c rest, text = c :: rest ∧ word = [c]

/-- What is cut off a text is the longest front. -/
theorem longest_of_scan {c : Char} {rest word tail : List Char} {kind : Token.Kind}
    (h : scan c rest = (kind, word, tail)) : Longest isHexMark (c :: rest) kind word := by
  have hcut : word ++ tail = c :: rest := by
    have hproper := (scan_proper c rest).1
    rwa [h] at hproper
  cases hclass : classified? (c :: rest) with
  | none =>
      -- a front that some family matches would have been recognised
      have hnone : ¬ HasFront isHexMark (c :: rest) := by
        rintro ⟨family, front, -, hfront, back, heq⟩
        obtain ⟨_, _, _, hsome, -⟩ := classified?_of_language hfront back
        rw [heq, hclass] at hsome
        cases hsome
      refine ⟨fun hfront => absurd hfront hnone, fun _ => ?_⟩
      simp only [scan, hclass] at h
      obtain ⟨rfl, heq⟩ := Prod.mk.inj h
      obtain ⟨rfl, -⟩ := Prod.mk.inj heq
      exact ⟨rfl, c, rest, rfl, rfl⟩
  | some cut =>
      obtain ⟨found, longest, back⟩ := cut
      -- a keyword is a word of another kind
      obtain ⟨hkind, rfl⟩ : kind ≠ .other ∧ longest = word := by
        have hother := (classified?_kind hclass).2
        simp only [scan, hclass] at h
        split at h
        · obtain ⟨rfl, heq⟩ := Prod.mk.inj h
          exact ⟨by decide, (Prod.mk.inj heq).1⟩
        · obtain ⟨rfl, heq⟩ := Prod.mk.inj h
          exact ⟨hother, (Prod.mk.inj heq).1⟩
      obtain ⟨family, hmem, hfamily⟩ := (isLexeme_of_scan h hkind).1.exists_family
      constructor
      · intro _
        refine ⟨family, hmem, ⟨tail, hcut⟩, hfamily, fun other => Family.eq_of_mem hmem, ?_⟩
        rintro other front hfront ⟨behind, heq⟩
        obtain ⟨_, word, _, hsome, hlength⟩ := classified?_of_language hfront behind
        rw [heq, hclass] at hsome
        obtain ⟨-, hword⟩ := Prod.mk.inj (Option.some.inj hsome)
        rwa [(Prod.mk.inj hword).1]
      · intro hnone
        have hne : longest ≠ [] := by
          have hproper := (scan_proper c rest).2
          rwa [h] at hproper
        exact absurd ⟨family, longest, hne, hmem, tail, hcut⟩ hnone

end Lexeme

/-! ## Tokens -/

namespace Token

/-- A token that has been cut off was scanned at its place. -/
theorem Scanned.scan_eq {text rest : List Char} {front : List Token} {progress : Progress}
    (h : Scanned text front progress rest) {token : Token} (htoken : token ∈ front) :
    ∃ c behind tail, text.drop token.offset = c :: behind ∧
      scan c behind = (token.kind, token.text.toList, tail) := by
  induction h with
  | start => cases htoken
  | skip _ _ ih => exact ih htoken
  | @cut front progress c rest word tail kind hbefore _ hscan _ ih =>
      rcases List.mem_append.mp htoken with htoken | htoken
      · exact ih htoken
      · obtain rfl := List.mem_singleton.mp htoken
        refine ⟨c, rest, tail, hbefore.drop_offset, ?_⟩
        simpa [Progress.token] using hscan

/-- Maximal munch.  Every lexeme that a text is cut into is the longest front, of what the text is from
its place on, in one of the languages of the lexical classes; it is in one of them only and has its
kind.  Where there is no such front, the lexeme is one character of the kind `other`. -/
theorem longest_of_stream {text : String} {tokens : List Token} (h : stream text = .ok tokens)
    {token : Token} (htoken : token ∈ tokens) (hkind : token.kind ≠ .eof) :
    Longest isHexMark (text.toList.drop token.offset) token.kind token.text.toList := by
  obtain ⟨front, progress, hscanned, rfl⟩ := stream_eq_ok_iff.mp h
  rcases List.mem_append.mp htoken with htoken | htoken
  · obtain ⟨c, rest, tail, hdrop, hscan⟩ := hscanned.scan_eq htoken
    rw [hdrop]
    exact longest_of_scan hscan
  · obtain rfl := List.mem_singleton.mp htoken
    exact absurd rfl hkind

/-- Digits, a point and an exponent that is not complete: the lexeme ends before the `e`. -/
theorem longest_of_stream_decimal :
    Longest isHexMark "-1.5e+".toList .decimal "-1.5".toList := by
  have hstream : stream "-1.5e+" = .ok [⟨.decimal, "-1.5", "", 1, 0, 0⟩,
      ⟨.identifier, "e", "", 1, 1, 4⟩, ⟨.other, "+", "", 1, 2, 5⟩, ⟨.eof, "", "", 1, 3, 6⟩] := by
    decide +kernel
  exact longest_of_stream hstream List.mem_cons_self (by decide)

/-- A hexadecimal number may be marked by `X` as well.  If it could not, the lexeme `0X1` would be in
none of the languages, though the text begins with the integer `0`. -/
theorem longest_lowercase_false :
    ¬ ∀ (text : String) (tokens : List Token), stream text = .ok tokens →
      ∀ token ∈ tokens, token.kind ≠ .eof →
        Longest (· == 'x') (text.toList.drop token.offset) token.kind token.text.toList := by
  intro hall
  have hstream : stream "0X1" =
      .ok [⟨.integer, "0X1", "", 1, 0, 0⟩, ⟨.eof, "", "", 1, 1, 3⟩] := by
    decide +kernel
  have hzero : ['0'] ∈ Family.integer.language (· == 'x') := by
    refine mem_maybe_one_mul.mpr (Or.inl (mem_unsignedInteger.mpr (Or.inr (Or.inl ⟨[], rfl, ?_⟩))))
    simp
  obtain ⟨family, hmem, -⟩ := (hall _ _ hstream _ List.mem_cons_self (by decide)).found
    ⟨.integer, ['0'], by simp, hzero, "X1".toList, rfl⟩
  replace hmem : ['0', 'X', '1'] ∈ family.language (· == 'x') := hmem
  -- the lexeme is an integer if it is in any of the languages, and then `X` is a mark or a digit
  cases family with
  | integer =>
      rcases mem_maybe_one_mul.mp hmem with hmem | ⟨c, rest, heq, hc, -⟩
      · rcases mem_unsignedInteger.mp hmem with ⟨x, digits, heq, hx, -⟩ | ⟨digits, heq, hdigits⟩ |
          ⟨c, digits, heq, hzero, -⟩
        · obtain ⟨-, heq⟩ := List.cons.inj heq
          obtain ⟨rfl, -⟩ := List.cons.inj heq
          cases hx
        · obtain ⟨-, rfl⟩ := List.cons.inj heq
          cases hdigits 'X' List.mem_cons_self
        · exact hzero (List.cons.inj heq).1.symm
      · obtain ⟨rfl, -⟩ := List.cons.inj heq
        cases hc
  | decimal => cases @classified?_self .decimal _ ((mem_decimal _).mpr ((mem_decimal _).mp hmem))
  | identifier =>
      cases @classified?_self .identifier _ ((mem_identifier _).mpr ((mem_identifier _).mp hmem))
  | string => cases @classified?_self .string _ ((mem_string _).mpr ((mem_string _).mp hmem))
  | punctuation => cases @classified?_self .punctuation _ hmem

end Token

end WebIdl
