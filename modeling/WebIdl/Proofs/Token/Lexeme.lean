import WebIdl.Token.Lexeme

/-!
# The shapes of lexemes

A recogniser cuts off as much of a text as has the shape that it looks for.  So a lexeme can be read
again in another context, as long as the text behind it does not go on where the lexeme has ended:
behind a word there must be no letter, digit or other part of a word, and behind a number there must
not be a point either.  Strings and punctuation marks show where they end.

`IsLexeme` describes the lexemes, `isLexeme_of_scan` says that `Lexeme.scan` cuts off nothing else,
and `scan_of_isLexeme` that it cuts them off.
-/

namespace WebIdl.Lexeme

/-! ## Runs of characters -/

/-- The text does not begin with a character of the class. -/
def Stops (p : Char → Bool) (text : List Char) : Prop :=
  ∀ c ∈ text.head?, p c = false

theorem Stops.imp {p q : Char → Bool} {text : List Char} (h : Stops p text)
    (himp : ∀ c, q c = true → p c = true) : Stops q text := by
  intro c hc
  have hp := h c hc
  cases hq : q c with
  | false => rfl
  | true => rw [himp c hq] at hp; cases hp

theorem stops_nil (p : Char → Bool) : Stops p [] := by
  intro c hc
  cases hc

theorem stops_cons {p : Char → Bool} {c : Char} {text : List Char} :
    Stops p (c :: text) ↔ p c = false := by
  simp [Stops]

theorem run_eq {p : Char → Bool} {front back : List Char} (hfront : ∀ c ∈ front, p c = true)
    (hback : Stops p back) : run p (front ++ back) = (front, back) := by
  rw [run, List.takeWhile_append_of_pos hfront, List.dropWhile_append_of_pos hfront]
  cases back with
  | nil => simp
  | cons c back => simp [stops_cons.mp hback]

/-- A run is as long as it can be. -/
theorem run_cases (p : Char → Bool) (text : List Char) :
    ∃ front back, run p text = (front, back) ∧ text = front ++ back ∧
      (∀ c ∈ front, p c = true) ∧ Stops p back := by
  refine ⟨_, _, rfl, List.takeWhile_append_dropWhile.symm,
    List.all_eq_true.mp List.all_takeWhile, ?_⟩
  intro c hc
  have hnot := List.head?_dropWhile_not p text
  rw [Option.mem_def.mp hc] at hnot
  simpa using hnot

theorem run?_eq {p : Char → Bool} {front back : List Char} (hne : front ≠ [])
    (hfront : ∀ c ∈ front, p c = true) (hback : Stops p back) :
    run? p (front ++ back) = some (front, back) := by
  rw [run?, run_eq hfront hback]
  cases front with
  | nil => exact absurd rfl hne
  | cons c front => rfl

theorem run?_eq_none {p : Char → Bool} {text : List Char} (h : Stops p text) :
    run? p text = none := by
  have hrun := @run_eq p [] text (by simp) h
  rw [List.nil_append] at hrun
  rw [run?, hrun]

theorem run?_cases {p : Char → Bool} {text front back : List Char}
    (h : run? p text = some (front, back)) :
    text = front ++ back ∧ front ≠ [] ∧ (∀ c ∈ front, p c = true) ∧ Stops p back := by
  obtain ⟨first, second, hrun, htext, hfirst, hsecond⟩ := run_cases p text
  rw [run?, hrun] at h
  cases first with
  | nil => cases h
  | cons c first =>
      obtain ⟨rfl, rfl⟩ := Prod.mk.inj (Option.some.inj h)
      exact ⟨htext, List.cons_ne_nil _ _, hfirst, hsecond⟩

theorem optional_hit {p : Char → Bool} {c : Char} (h : p c = true) (rest : List Char) :
    optional p (c :: rest) = ([c], rest) := by
  simp [optional, h]

theorem optional_miss {p : Char → Bool} {text : List Char} (h : Stops p text) :
    optional p text = ([], text) := by
  cases text with
  | nil => rfl
  | cons c rest => simp [optional, stops_cons.mp h]

theorem optional_cases (p : Char → Bool) (text : List Char) :
    (∃ c rest, text = c :: rest ∧ p c = true ∧ optional p text = ([c], rest)) ∨
      Stops p text ∧ optional p text = ([], text) := by
  cases text with
  | nil => exact Or.inr ⟨stops_nil p, rfl⟩
  | cons c rest =>
      by_cases h : p c = true
      · exact Or.inl ⟨c, rest, rfl, h, optional_hit h rest⟩
      · have hstops : Stops p (c :: rest) := stops_cons.mpr (by simpa using h)
        exact Or.inr ⟨hstops, optional_miss hstops⟩

/-! ## Classes of characters -/

/-- What may go on behind a number. -/
def isNumberPart (c : Char) : Bool :=
  isWordPart c || c == '.'

theorem isWordPart_of_isDigit (c : Char) (h : isDigit c = true) : isWordPart c = true := by
  rw [isDigit] at h
  simp [isWordPart, h]

theorem isWordPart_of_isLetter (c : Char) (h : isLetter c = true) : isWordPart c = true := by
  rw [isLetter] at h
  simp [isWordPart, h]

theorem isWordPart_of_isHex (c : Char) (h : isHex c = true) : isWordPart c = true := by
  delta isHex isWordPart Char.isAlpha Char.isUpper Char.isLower Char.isDigit at h ⊢
  simp only [Bool.or_eq_true, Bool.and_eq_true, decide_eq_true_eq, Char.le_def, UInt32.le_iff_toNat_le,
    ge_iff_le] at h ⊢
  simp only [Char.reduceVal, UInt32.reduceToNat] at h ⊢
  omega

theorem isDigit_of_isOctal (c : Char) (h : isOctal c = true) : isDigit c = true := by
  simp only [isOctal, isDigit, Char.isDigit, Bool.and_eq_true, decide_eq_true_eq, Char.le_def,
    UInt32.le_iff_toNat_le, ge_iff_le] at h ⊢
  simp only [Char.reduceVal, UInt32.reduceToNat] at h ⊢
  omega

theorem isLetter_of_isDigit (c : Char) (h : isDigit c = true) : isLetter c = false := by
  delta isLetter isDigit Char.isAlpha Char.isUpper Char.isLower Char.isDigit at h ⊢
  simp only [Bool.and_eq_true, decide_eq_true_eq, UInt32.le_iff_toNat_le, ge_iff_le, Bool.or_eq_false_iff,
    Bool.and_eq_false_iff, decide_eq_false_iff_not] at h ⊢
  have hnine : '9'.val.toNat = 57 := rfl
  have hupper : 'A'.val.toNat = 65 := rfl
  have hlower : 'a'.val.toNat = 97 := rfl
  omega

theorem isNumberPart_of_isWordPart (c : Char) (h : isWordPart c = true) :
    isNumberPart c = true := by
  simp [isNumberPart, h]

/-! ## Numbers -/

/-- An `e`, perhaps a sign, and digits. -/
def IsExponent (word : List Char) : Prop :=
  ∃ e sign digits, word = e :: (sign ++ digits) ∧ (e = 'e' ∨ e = 'E') ∧
    (sign = [] ∨ sign = ['-'] ∨ sign = ['+']) ∧ digits ≠ [] ∧ ∀ c ∈ digits, isDigit c = true

theorem exponent?_cases {text word tail : List Char} (h : exponent? text = some (word, tail)) :
    text = word ++ tail ∧ IsExponent word ∧ Stops isDigit tail := by
  cases text with
  | nil => cases h
  | cons e text =>
      rw [exponent?] at h
      split at h
      · rename_i he
        simp only [Bool.or_eq_true, beq_iff_eq] at he
        rcases optional_cases (fun s => s == '-' || s == '+') text with
          ⟨s, rest, rfl, hs, hoptional⟩ | ⟨-, hoptional⟩
        · rw [hoptional] at h
          obtain ⟨⟨digits, back⟩, hdigits, heq⟩ := Option.map_eq_some_iff.mp h
          obtain ⟨rfl, rfl⟩ := Prod.mk.inj heq
          obtain ⟨rfl, hne, hall, hstops⟩ := run?_cases hdigits
          simp only [Bool.or_eq_true, beq_iff_eq] at hs
          refine ⟨by simp, ⟨e, [s], digits, by simp, he, ?_, hne, hall⟩, hstops⟩
          rcases hs with rfl | rfl
          · exact Or.inr (Or.inl rfl)
          · exact Or.inr (Or.inr rfl)
        · rw [hoptional] at h
          obtain ⟨⟨digits, back⟩, hdigits, heq⟩ := Option.map_eq_some_iff.mp h
          obtain ⟨rfl, rfl⟩ := Prod.mk.inj heq
          obtain ⟨rfl, hne, hall, hstops⟩ := run?_cases hdigits
          exact ⟨by simp, ⟨e, [], digits, by simp, he, Or.inl rfl, hne, hall⟩, hstops⟩
      · cases h

theorem exponent?_eq {word tail : List Char} (h : IsExponent word) (htail : Stops isDigit tail) :
    exponent? (word ++ tail) = some (word, tail) := by
  obtain ⟨e, sign, digits, rfl, he, hsign, hne, hall⟩ := h
  have hmark : (e == 'e' || e == 'E') = true := by
    rcases he with rfl | rfl <;> rfl
  rw [List.cons_append, exponent?, if_pos hmark]
  have hrun := run?_eq hne hall htail
  rcases hsign with rfl | rfl | rfl
  · -- the first digit is no sign
    have hmiss : Stops (fun s => s == '-' || s == '+') (digits ++ tail) := by
      cases digits with
      | nil => exact absurd rfl hne
      | cons d digits =>
          have hd := hall d List.mem_cons_self
          refine stops_cons.mpr ?_
          rw [Bool.or_eq_false_iff, beq_eq_false_iff_ne, beq_eq_false_iff_ne]
          constructor
          · rintro rfl
            cases hd
          · rintro rfl
            cases hd
    rw [List.nil_append, optional_miss hmiss]
    simp [hrun, Cut.after]
  · rw [List.cons_append, List.cons_append, optional_hit rfl]
    simp [hrun, Cut.after]
  · rw [List.cons_append, List.cons_append, optional_hit rfl]
    simp [hrun, Cut.after]

theorem exponent?_eq_none {text : List Char} (h : Stops isLetter text) : exponent? text = none := by
  cases text with
  | nil => rfl
  | cons c text =>
      have hc := stops_cons.mp h
      rw [exponent?, if_neg]
      simp only [Bool.or_eq_true, beq_iff_eq, not_or]
      constructor
      · rintro rfl
        cases hc
      · rintro rfl
        cases hc

/-- Digits around a point and perhaps an exponent, or digits and an exponent. -/
def IsDecimal (word : List Char) : Prop :=
  (∃ whole fraction power, word = whole ++ '.' :: (fraction ++ power) ∧
    (∀ c ∈ whole, isDigit c = true) ∧ (∀ c ∈ fraction, isDigit c = true) ∧
    (whole ≠ [] ∨ fraction ≠ []) ∧ (power = [] ∨ IsExponent power)) ∨
  ∃ whole power, word = whole ++ power ∧ (∀ c ∈ whole, isDigit c = true) ∧ whole ≠ [] ∧
    IsExponent power

theorem unsignedDecimal?_cases {text word tail : List Char}
    (h : unsignedDecimal? text = some (word, tail)) : text = word ++ tail ∧ IsDecimal word := by
  refine ⟨(unsignedDecimal?_proper h).1.symm, ?_⟩
  -- digits, then a point or an exponent
  obtain ⟨whole, rest, hrun, -, hwhole, -⟩ := run_cases isDigit text
  rw [unsignedDecimal?, hrun] at h
  dsimp only at h
  split at h
  · rename_i rest
    obtain ⟨fraction, rest, hrun, -, hfraction, -⟩ := run_cases isDigit rest
    rw [hrun] at h
    dsimp only at h
    split at h
    · cases h
    · rename_i hsome
      have hdigits : whole ≠ [] ∨ fraction ≠ [] := by
        rw [Bool.and_eq_true, List.isEmpty_iff, List.isEmpty_iff,
          Decidable.not_and_iff_or_not] at hsome
        exact hsome
      cases hpower : exponent? rest with
      | none =>
          rw [hpower] at h
          obtain ⟨rfl, rfl⟩ := Prod.mk.inj (Option.some.inj h)
          exact Or.inl ⟨whole, fraction, [], by simp, hwhole, hfraction, hdigits, Or.inl rfl⟩
      | some cut =>
          obtain ⟨power, back⟩ := cut
          rw [hpower] at h
          obtain ⟨rfl, rfl⟩ := Prod.mk.inj (Option.some.inj h)
          exact Or.inl ⟨whole, fraction, power, by simp, hwhole, hfraction, hdigits,
            Or.inr (exponent?_cases hpower).2.1⟩
  · split at h
    · cases h
    · rename_i hsome
      obtain ⟨⟨power, back⟩, hpower, heq⟩ := Option.map_eq_some_iff.mp h
      obtain ⟨rfl, rfl⟩ := Prod.mk.inj heq
      exact Or.inr ⟨whole, power, rfl, hwhole, by simpa [List.isEmpty_iff] using hsome,
        (exponent?_cases hpower).2.1⟩

theorem unsignedDecimal?_of_point {text whole tail fraction rest : List Char}
    (hwhole : run isDigit text = (whole, '.' :: tail))
    (hfraction : run isDigit tail = (fraction, rest)) (hdigits : whole ≠ [] ∨ fraction ≠ []) :
    unsignedDecimal? text = some (((exponent? rest).map (Cut.after (whole ++ '.' :: fraction))).getD
      (whole ++ '.' :: fraction, rest)) := by
  have hempty : (whole.isEmpty && fraction.isEmpty) = false := by
    rcases hdigits with hne | hne <;> simp [hne]
  simp [unsignedDecimal?, hwhole, hfraction, hempty]

theorem unsignedDecimal?_of_stops {text whole rest : List Char}
    (hwhole : run isDigit text = (whole, rest)) (hrest : Stops (· == '.') rest) :
    unsignedDecimal? text =
      if whole.isEmpty then none else (exponent? rest).map (Cut.after whole) := by
  rw [unsignedDecimal?, hwhole]
  cases rest with
  | nil => rfl
  | cons c rest =>
      dsimp only
      split
      · rename_i heq
        obtain ⟨rfl, -⟩ := List.cons.inj heq
        exact absurd (stops_cons.mp hrest) (by decide)
      · rfl

theorem IsExponent.stops_isDigit {word : List Char} (h : IsExponent word) (tail : List Char) :
    Stops isDigit (word ++ tail) := by
  obtain ⟨e, sign, digits, rfl, rfl | rfl, -, -, -⟩ := h <;> exact stops_cons.mpr rfl

theorem unsignedDecimal?_eq {word tail : List Char} (h : IsDecimal word)
    (htail : Stops isNumberPart tail) : unsignedDecimal? (word ++ tail) = some (word, tail) := by
  have hdigit : Stops isDigit tail :=
    htail.imp fun c hc => isNumberPart_of_isWordPart c (isWordPart_of_isDigit c hc)
  have hletter : Stops isLetter tail :=
    htail.imp fun c hc => isNumberPart_of_isWordPart c (isWordPart_of_isLetter c hc)
  rcases h with ⟨whole, fraction, power, rfl, hwhole, hfraction, hdigits, hpower⟩ |
    ⟨whole, power, rfl, hwhole, hne, hpower⟩
  · have hfirst : run isDigit (whole ++ '.' :: (fraction ++ power) ++ tail) =
        (whole, '.' :: (fraction ++ (power ++ tail))) := by
      rw [List.append_assoc, List.cons_append, List.append_assoc]
      exact run_eq hwhole (stops_cons.mpr rfl)
    have hsecond : run isDigit (fraction ++ (power ++ tail)) = (fraction, power ++ tail) := by
      refine run_eq hfraction ?_
      rcases hpower with rfl | hpower
      · exact hdigit
      · exact hpower.stops_isDigit tail
    rw [unsignedDecimal?_of_point hfirst hsecond hdigits]
    rcases hpower with rfl | hpower
    · simp [exponent?_eq_none hletter]
    · simp [exponent?_eq hpower hdigit, Cut.after]
  · have hfirst : run isDigit (whole ++ power ++ tail) = (whole, power ++ tail) := by
      rw [List.append_assoc]
      exact run_eq hwhole (hpower.stops_isDigit tail)
    have hpoint : Stops (· == '.') (power ++ tail) := by
      obtain ⟨e, sign, digits, rfl, rfl | rfl, -, -, -⟩ := hpower <;> exact stops_cons.mpr rfl
    rw [unsignedDecimal?_of_stops hfirst hpoint, exponent?_eq hpower hdigit]
    simp [hne, Cut.after]

/-- Octal digits behind a zero, hexadecimal digits behind `0x`, or decimal digits. -/
def IsInteger (word : List Char) : Prop :=
  (∃ digits, word = '0' :: digits ∧ ∀ c ∈ digits, isOctal c = true) ∨
  (∃ x digits, word = '0' :: x :: digits ∧ (x = 'x' ∨ x = 'X') ∧ digits ≠ [] ∧
    ∀ c ∈ digits, isHex c = true) ∨
  ∃ c digits, word = c :: digits ∧ c ≠ '0' ∧ isDigit c = true ∧ ∀ d ∈ digits, isDigit d = true

theorem unsignedInteger?_cases {text word tail : List Char}
    (h : unsignedInteger? text = some (word, tail)) : text = word ++ tail ∧ IsInteger word := by
  refine ⟨(unsignedInteger?_proper h).1.symm, ?_⟩
  unfold unsignedInteger? at h
  split at h
  · cases h
  · split at h
    · obtain ⟨rfl, rfl⟩ := Prod.mk.inj (Option.some.inj h)
      exact Or.inl ⟨[], rfl, by simp⟩
    · rename_i x digits
      obtain ⟨octal, back, hrun, -, hoctal, -⟩ := run_cases isOctal (x :: digits)
      -- a zero begins an octal number, also where no digits follow a mark
      have hzero : some (Cut.after ['0'] (run isOctal (x :: digits))) = some (word, tail) →
          IsInteger word := by
        intro heq
        rw [hrun] at heq
        obtain ⟨rfl, rfl⟩ := Prod.mk.inj (Option.some.inj heq)
        exact Or.inl ⟨octal, rfl, hoctal⟩
      dsimp only at h
      split at h
      · rename_i hx
        cases hhex : run? isHex digits with
        | none =>
            rw [hhex] at h
            exact hzero h
        | some cut =>
            obtain ⟨hex, back⟩ := cut
            rw [hhex] at h
            obtain ⟨rfl, rfl⟩ := Prod.mk.inj (Option.some.inj h)
            obtain ⟨-, hne, hall, -⟩ := run?_cases hhex
            exact Or.inr (Or.inl ⟨x, hex, rfl, by simpa using hx, hne, hall⟩)
      · exact hzero h
  · rename_i c rest hzero
    split at h
    · rename_i hc
      obtain ⟨digits, back, hrun, -, hdigits, -⟩ := run_cases isDigit rest
      rw [hrun] at h
      obtain ⟨rfl, rfl⟩ := Prod.mk.inj (Option.some.inj h)
      exact Or.inr (Or.inr ⟨c, digits, rfl, hzero, hc, hdigits⟩)
    · cases h

theorem unsignedInteger?_eq {word tail : List Char} (h : IsInteger word)
    (htail : Stops isNumberPart tail) : unsignedInteger? (word ++ tail) = some (word, tail) := by
  have hword : Stops isWordPart tail := htail.imp isNumberPart_of_isWordPart
  have hdigit : Stops isDigit tail := hword.imp isWordPart_of_isDigit
  have hoctal : Stops isOctal tail := hdigit.imp isDigit_of_isOctal
  have hhex : Stops isHex tail := hword.imp isWordPart_of_isHex
  rcases h with ⟨digits, rfl, hdigits⟩ | ⟨x, digits, rfl, hx, hne, hdigits⟩ |
    ⟨c, digits, rfl, hzero, hc, hdigits⟩
  · have hrun := run_eq hdigits hoctal
    rw [List.cons_append]
    cases hrest : digits ++ tail with
    | nil =>
        obtain ⟨rfl, rfl⟩ := List.append_eq_nil_iff.mp hrest
        rfl
    | cons d rest =>
        rw [hrest] at hrun
        -- neither an octal digit nor what parts the number is a mark
        have hx : (d == 'x' || d == 'X') = false := by
          have hd : isOctal d = true ∨ isWordPart d = false := by
            cases digits with
            | nil =>
                rw [List.nil_append] at hrest
                exact Or.inr (stops_cons.mp (hrest ▸ hword))
            | cons first digits =>
                obtain ⟨rfl, -⟩ := List.cons.inj hrest
                exact Or.inl (hdigits first List.mem_cons_self)
          rw [Bool.or_eq_false_iff, beq_eq_false_iff_ne, beq_eq_false_iff_ne]
          constructor
          · rintro rfl
            rcases hd with hd | hd <;> cases hd
          · rintro rfl
            rcases hd with hd | hd <;> cases hd
        simp [unsignedInteger?, hx, hrun, Cut.after]
  · have hrun := run?_eq hne hdigits hhex
    have hmark : (x == 'x' || x == 'X') = true := by rcases hx with rfl | rfl <;> rfl
    rw [List.cons_append, List.cons_append]
    simp [unsignedInteger?, hmark, hrun, Cut.after]
  · have hrun := run_eq hdigits hdigit
    rw [List.cons_append]
    unfold unsignedInteger?
    split
    · rename_i heq
      cases heq
    · rename_i heq
      exact absurd (List.cons.inj heq).1 hzero
    · rename_i heq
      obtain ⟨rfl, rfl⟩ := List.cons.inj heq
      simp [hc, hrun, Cut.after]

/-- An integer is not the front of a decimal, if no number goes on behind it. -/
theorem unsignedDecimal?_of_isInteger {word tail : List Char} (h : IsInteger word)
    (htail : Stops isNumberPart tail) : unsignedDecimal? (word ++ tail) = none := by
  have hword : Stops isWordPart tail := htail.imp isNumberPart_of_isWordPart
  have hdigit : Stops isDigit tail := hword.imp isWordPart_of_isDigit
  have hpoint : Stops (· == '.') tail := htail.imp fun c hc => by simp [isNumberPart, hc]
  have hplain (hall : ∀ c ∈ word, isDigit c = true) : unsignedDecimal? (word ++ tail) = none := by
    rw [unsignedDecimal?_of_stops (run_eq hall hdigit) hpoint,
      exponent?_eq_none (hword.imp isWordPart_of_isLetter)]
    simp
  rcases h with ⟨digits, rfl, hdigits⟩ | ⟨x, digits, rfl, hx, hne, hdigits⟩ |
    ⟨c, digits, rfl, hzero, hc, hdigits⟩
  · refine hplain fun c hmem => ?_
    rcases List.mem_cons.mp hmem with rfl | hmem
    · rfl
    · exact isDigit_of_isOctal c (hdigits c hmem)
  · -- the number is cut off before the `x`, and no exponent begins there
    have hrun : run isDigit ('0' :: x :: digits ++ tail) = (['0'], x :: (digits ++ tail)) := by
      rcases hx with rfl | rfl <;> rfl
    have hstops : Stops (· == '.') (x :: (digits ++ tail)) := by
      rcases hx with rfl | rfl <;> exact stops_cons.mpr rfl
    rw [unsignedDecimal?_of_stops hrun hstops]
    rcases hx with rfl | rfl <;> rfl
  · refine hplain fun d hmem => ?_
    rcases List.mem_cons.mp hmem with rfl | hmem
    · exact hc
    · exact hdigits d hmem

/-! ## Signs -/

/-- A word of the shape, perhaps behind a minus sign. -/
def IsSigned (shape : List Char → Prop) (word : List Char) : Prop :=
  shape word ∨ ∃ rest, word = '-' :: rest ∧ shape rest

theorem signed?_cases {recognise : List Char → Option Cut} {shape : List Char → Prop}
    {text word tail : List Char}
    (hshape : ∀ {text word tail}, recognise text = some (word, tail) → shape word)
    (h : signed? recognise text = some (word, tail)) : IsSigned shape word := by
  rw [signed?] at h
  rcases optional_cases (· == '-') text with ⟨c, rest, rfl, hc, hoptional⟩ | ⟨-, hoptional⟩
  · obtain rfl := beq_iff_eq.mp hc
    rw [hoptional] at h
    obtain ⟨⟨inner, back⟩, hinner, heq⟩ := Option.map_eq_some_iff.mp h
    obtain ⟨rfl, rfl⟩ := Prod.mk.inj heq
    exact Or.inr ⟨inner, rfl, hshape hinner⟩
  · rw [hoptional] at h
    obtain ⟨⟨inner, back⟩, hinner, heq⟩ := Option.map_eq_some_iff.mp h
    obtain ⟨rfl, rfl⟩ := Prod.mk.inj heq
    exact Or.inl (hshape hinner)

/-- What a recogniser makes of a text behind an optional minus sign. -/
theorem signed?_eq {recognise : List Char → Option Cut} {text : List Char}
    (h : Stops (· == '-') text) :
    signed? recognise text = recognise text ∧
      signed? recognise ('-' :: text) = (recognise text).map (Cut.after ['-']) := by
  constructor
  · rw [signed?, optional_miss h]
    show (recognise text).map (Cut.after []) = recognise text
    cases recognise text <;> rfl
  · rw [signed?, optional_hit rfl]

/-- A number begins with a digit or a point. -/
def isNumberHead (c : Char) : Bool :=
  isDigit c || c == '.'

theorem stops_of_head {p q : Char → Bool} {c : Char} {rest : List Char} (hc : p c = true)
    (h : ∀ c, q c = true → p c = false) : Stops q (c :: rest) := by
  refine stops_cons.mpr ?_
  cases hq : q c with
  | false => rfl
  | true => rw [h c hq] at hc; cases hc

theorem IsDecimal.head {word : List Char} (h : IsDecimal word) :
    ∃ c rest, word = c :: rest ∧ isNumberHead c = true := by
  rcases h with ⟨whole, fraction, power, rfl, hwhole, -, -, -⟩ | ⟨whole, power, rfl, hwhole, hne, -⟩
  · cases whole with
    | nil => exact ⟨'.', _, rfl, rfl⟩
    | cons c whole => exact ⟨c, _, rfl, by simp [isNumberHead, hwhole c List.mem_cons_self]⟩
  · cases whole with
    | nil => exact absurd rfl hne
    | cons c whole => exact ⟨c, _, rfl, by simp [isNumberHead, hwhole c List.mem_cons_self]⟩

theorem IsInteger.head {word : List Char} (h : IsInteger word) :
    ∃ c rest, word = c :: rest ∧ isNumberHead c = true := by
  rcases h with ⟨digits, rfl, -⟩ | ⟨x, digits, rfl, -⟩ | ⟨c, digits, rfl, -, hc, -⟩
  · exact ⟨'0', digits, rfl, rfl⟩
  · exact ⟨'0', x :: digits, rfl, rfl⟩
  · exact ⟨c, digits, rfl, by simp [isNumberHead, hc]⟩

theorem isNumberHead_minus {c : Char} (h : (c == '-') = true) : isNumberHead c = false := by
  obtain rfl := beq_iff_eq.mp h
  rfl

/-- Decimals and integers do not begin with anything else. -/
theorem unsigned?_eq_none {text : List Char} (h : Stops isNumberHead text) :
    unsignedDecimal? text = none ∧ unsignedInteger? text = none := by
  cases text with
  | nil => exact ⟨rfl, rfl⟩
  | cons c text =>
      have hc := stops_cons.mp h
      rw [isNumberHead, Bool.or_eq_false_iff] at hc
      constructor
      · have hrun : run isDigit (c :: text) = ([], c :: text) :=
          @run_eq isDigit [] _ (by simp) (stops_cons.mpr hc.1)
        rw [unsignedDecimal?_of_stops hrun (stops_cons.mpr hc.2)]
        rfl
      · unfold unsignedInteger?
        split
        · rfl
        · rename_i heq
          obtain ⟨rfl, -⟩ := List.cons.inj heq
          cases hc.1
        · rename_i heq
          obtain ⟨rfl, rfl⟩ := List.cons.inj heq
          simp [hc.1]

theorem number?_eq_none {text : List Char} (h : Stops isNumberHead text)
    (hminus : ∀ rest, text = '-' :: rest → Stops isNumberHead rest) :
    decimal? text = none ∧ integer? text = none := by
  rw [decimal?, integer?, signed?, signed?]
  rcases optional_cases (· == '-') text with ⟨c, rest, rfl, hc, hoptional⟩ | ⟨-, hoptional⟩
  · obtain rfl := beq_iff_eq.mp hc
    obtain ⟨hdecimal, hinteger⟩ := unsigned?_eq_none (hminus rest rfl)
    simp [hoptional, hdecimal, hinteger]
  · obtain ⟨hdecimal, hinteger⟩ := unsigned?_eq_none h
    simp [hoptional, hdecimal, hinteger]

/-! ## Words, strings and marks -/

/-- A letter and parts of words, perhaps behind an underscore or a minus sign. -/
def IsWord (word : List Char) : Prop :=
  ∃ sign c rest, word = sign ++ c :: rest ∧ (sign = [] ∨ sign = ['_'] ∨ sign = ['-']) ∧
    isLetter c = true ∧ ∀ d ∈ rest, isWordPart d = true

theorem identifier?_cases {text word tail : List Char} (h : identifier? text = some (word, tail)) :
    text = word ++ tail ∧ IsWord word ∧ Stops isWordPart tail := by
  have hcut : text = word ++ tail := (identifier?_proper h).1.symm
  have hsigned : ∃ sign rest, optional (fun c => c == '_' || c == '-') text = (sign, rest) ∧
      (sign = [] ∨ sign = ['_'] ∨ sign = ['-']) := by
    rcases optional_cases (fun c => c == '_' || c == '-') text with
      ⟨s, rest, -, hs, hoptional⟩ | ⟨-, hoptional⟩
    · refine ⟨[s], rest, hoptional, Or.inr ?_⟩
      simpa using hs
    · exact ⟨[], text, hoptional, Or.inl rfl⟩
  obtain ⟨sign, rest, hoptional, hsign⟩ := hsigned
  refine ⟨hcut, ?_⟩
  rw [identifier?, hoptional] at h
  dsimp only at h
  split at h
  · cases h
  · rename_i c text
    split at h
    · rename_i hc
      obtain ⟨parts, back, hrun, -, hparts, hback⟩ := run_cases isWordPart text
      rw [hrun] at h
      obtain ⟨rfl, rfl⟩ := Prod.mk.inj (Option.some.inj h)
      exact ⟨⟨sign, c, parts, by simp, hsign, hc, hparts⟩, hback⟩
    · cases h

theorem identifier?_eq {word tail : List Char} (h : IsWord word) (htail : Stops isWordPart tail) :
    identifier? (word ++ tail) = some (word, tail) := by
  obtain ⟨sign, c, rest, rfl, hsign, hc, hrest⟩ := h
  have hrun := run_eq hrest htail
  rw [identifier?]
  rcases hsign with rfl | rfl | rfl
  · have hmiss : Stops (fun c => c == '_' || c == '-') (c :: rest ++ tail) := by
      refine stops_of_head hc fun d hd => ?_
      simp only [Bool.or_eq_true, beq_iff_eq] at hd
      rcases hd with rfl | rfl <;> rfl
    rw [List.nil_append, optional_miss hmiss]
    simp [hc, hrun, Cut.after]
  · simp [optional, hc, hrun, Cut.after]
  · simp [optional, hc, hrun, Cut.after]

/-- A word does not look like a number. -/
theorem IsWord.number?_eq_none {word : List Char} (h : IsWord word) (tail : List Char) :
    decimal? (word ++ tail) = none ∧ integer? (word ++ tail) = none := by
  obtain ⟨sign, c, rest, rfl, hsign, hc, -⟩ := h
  have hhead : Stops isNumberHead (c :: rest ++ tail) := by
    refine stops_of_head hc fun d hd => ?_
    simp only [isNumberHead, Bool.or_eq_true, beq_iff_eq] at hd
    rcases hd with hd | rfl
    · exact isLetter_of_isDigit d hd
    · rfl
  refine Lexeme.number?_eq_none ?_ ?_
  · rcases hsign with rfl | rfl | rfl
    · exact hhead
    · exact stops_cons.mpr rfl
    · exact stops_cons.mpr rfl
  · intro back heq
    rcases hsign with rfl | rfl | rfl
    · obtain ⟨rfl, -⟩ := List.cons.inj heq
      cases hc
    · cases (List.cons.inj heq).1
    · obtain ⟨-, rfl⟩ := List.cons.inj heq
      exact hhead

/-- Characters between double quotes. -/
def IsQuoted (word : List Char) : Prop :=
  ∃ content, word = '"' :: (content ++ ['"']) ∧ '"' ∉ content

theorem string?_cases {text word tail : List Char} (h : string? text = some (word, tail)) :
    text = word ++ tail ∧ IsQuoted word := by
  refine ⟨(string?_proper h).1.symm, ?_⟩
  unfold string? at h
  split at h
  · rename_i rest
    obtain ⟨content, back, hrun, -, hcontent, hback⟩ := run_cases (· != '"') rest
    rw [hrun] at h
    cases back with
    | nil => cases h
    | cons quote back =>
        obtain ⟨rfl, rfl⟩ := Prod.mk.inj (Option.some.inj h)
        obtain rfl : quote = '"' := by simpa using stops_cons.mp hback
        exact ⟨content, rfl, fun hmem => by simpa using hcontent '"' hmem⟩
  · cases h

theorem string?_eq {word : List Char} (h : IsQuoted word) (tail : List Char) :
    string? (word ++ tail) = some (word, tail) := by
  obtain ⟨content, rfl, hcontent⟩ := h
  have hrun : run (· != '"') (content ++ '"' :: tail) = (content, '"' :: tail) := by
    refine run_eq (fun c hc => ?_) (stops_cons.mpr rfl)
    rw [bne_iff_ne]
    rintro rfl
    exact hcontent hc
  simp [string?, hrun]

/-- The characters of a punctuation mark. -/
def IsPunctuation (word : List Char) : Prop :=
  ∃ mark ∈ punctuation, word = mark.toList

theorem punctuation?_cases {text word tail : List Char}
    (h : punctuation? text = some (word, tail)) : IsPunctuation word := by
  obtain ⟨mark, hmark, heq⟩ := Option.map_eq_some_iff.mp h
  exact ⟨mark, List.mem_of_find?_eq_some hmark, (Prod.mk.inj heq).1.symm⟩

theorem IsPunctuation.classified?_eq {word : List Char} (h : IsPunctuation word)
    (tail : List Char) : classified? (word ++ tail) = some (.inline, word, tail) := by
  obtain ⟨mark, hmark, rfl⟩ := h
  simp only [punctuation, List.mem_cons, List.not_mem_nil, or_false] at hmark
  rcases hmark with rfl | rfl | rfl | rfl | rfl | rfl | rfl | rfl | rfl | rfl | rfl | rfl | rfl |
    rfl | rfl <;> rfl

/-! ## Lexemes -/

/-- The lexemes of each kind.  A word that is a keyword is inline, like the punctuation marks. -/
inductive IsLexeme : Token.Kind → List Char → Prop where
  | decimal {word : List Char} (h : IsSigned IsDecimal word) : IsLexeme .decimal word
  | integer {word : List Char} (h : IsSigned IsInteger word) : IsLexeme .integer word
  | identifier {word : List Char} (h : IsWord word)
      (hkeyword : Keyword.all.contains (String.ofList word) = false) : IsLexeme .identifier word
  | keyword {word : List Char} (h : IsWord word)
      (hkeyword : Keyword.all.contains (String.ofList word) = true) : IsLexeme .inline word
  | quoted {word : List Char} (h : IsQuoted word) : IsLexeme .string word
  | mark {word : List Char} (h : IsPunctuation word) : IsLexeme .inline word

/-- Is the lexeme a word: an identifier, or what is inline and not punctuation? -/
def isWordLexeme (kind : Token.Kind) (word : List Char) : Bool :=
  kind == .identifier || kind == .inline && !punctuation.contains (String.ofList word)

/-- Is the lexeme a number? -/
def isNumberLexeme (kind : Token.Kind) : Bool :=
  kind == .integer || kind == .decimal

/-- A lexeme ends where the rest of the text begins. -/
structure Ends (kind : Token.Kind) (word rest : List Char) : Prop where
  word : isWordLexeme kind word = true → Stops isWordPart rest
  number : isNumberLexeme kind = true → Stops isNumberPart rest

theorem not_isWordLexeme_of_isPunctuation {word : List Char} (h : IsPunctuation word) :
    isWordLexeme .inline word = false := by
  obtain ⟨mark, hmark, rfl⟩ := h
  simp [isWordLexeme, hmark]

/-- No mark holds a part of a word, a blank or the beginning of a comment. -/
theorem punctuation_char {mark : String} (h : mark ∈ punctuation) {c : Char}
    (hc : c ∈ mark.toList) : isWordPart c = false ∧ isBlank c = false ∧ c ≠ '/' := by
  have hall : punctuation.all (fun mark => mark.toList.all fun c =>
      !isWordPart c && (!isBlank c && c != '/')) = true := by decide
  simpa using List.all_eq_true.mp (List.all_eq_true.mp hall mark h) c hc

theorem isWordLexeme_of_isWord {word : List Char} (h : IsWord word) :
    isWordLexeme .inline word = true := by
  have hhead : ∀ c ∈ word.head?, isWordPart c = true := by
    obtain ⟨sign, c, rest, rfl, rfl | rfl | rfl, hc, -⟩ := h
    · simpa using isWordPart_of_isLetter c hc
    · simpa using (by decide : isWordPart '_' = true)
    · simpa using (by decide : isWordPart '-' = true)
  have hne : word ≠ [] := by
    obtain ⟨sign, c, rest, rfl, -⟩ := h
    simp
  cases word with
  | nil => exact absurd rfl hne
  | cons c rest =>
      have hword := hhead c rfl
      have hmark : String.ofList (c :: rest) ∉ punctuation := by
        intro hmem
        rw [(punctuation_char hmem (by simp)).1] at hword
        cases hword
      simpa [isWordLexeme] using hmark

/-- What is cut off a text is a lexeme, unless it is a character that no lexeme begins with; and a
word is cut off where it ends. -/
theorem isLexeme_of_scan {c : Char} {rest word tail : List Char} {kind : Token.Kind}
    (h : scan c rest = (kind, word, tail)) (hkind : kind ≠ .other) :
    IsLexeme kind word ∧ (isWordLexeme kind word = true → Stops isWordPart tail) := by
  rw [scan] at h
  split at h
  · exact absurd (Prod.mk.inj h).1.symm hkind
  · rename_i found front back hfound
    simp only [classified?, Option.orElse_eq_orElse, Option.orElse_eq_or, Option.or_eq_some_iff,
      Option.map_eq_some_iff, Prod.mk.injEq] at hfound
    -- the families in the order they are tried
    rcases hfound with ⟨_, hcut, rfl, rfl⟩ | ⟨-, ⟨_, hcut, rfl, rfl⟩ | ⟨-, ⟨_, hcut, rfl, rfl⟩ |
      ⟨-, ⟨_, hcut, rfl, rfl⟩ | ⟨-, _, hcut, rfl, rfl⟩⟩⟩⟩
    · obtain ⟨rfl, rfl, rfl⟩ : Token.Kind.decimal = kind ∧ front = word ∧ back = tail := by
        simpa using h
      exact ⟨.decimal (signed?_cases (fun h => (unsignedDecimal?_cases h).2) hcut),
        fun hword => by cases hword⟩
    · obtain ⟨rfl, rfl, rfl⟩ : Token.Kind.integer = kind ∧ front = word ∧ back = tail := by
        simpa using h
      exact ⟨.integer (signed?_cases (fun h => (unsignedInteger?_cases h).2) hcut),
        fun hword => by cases hword⟩
    · obtain ⟨-, hword, hstops⟩ := identifier?_cases hcut
      -- only a word can become a keyword
      by_cases hkeyword : Keyword.all.contains (String.ofList front) = true
      · rw [if_pos (by simpa using hkeyword)] at h
        obtain ⟨rfl, rfl, rfl⟩ : Token.Kind.inline = kind ∧ front = word ∧ back = tail := by
          simpa using h
        exact ⟨.keyword hword hkeyword, fun _ => hstops⟩
      · rw [if_neg (by simpa using hkeyword)] at h
        obtain ⟨rfl, rfl, rfl⟩ : Token.Kind.identifier = kind ∧ front = word ∧ back = tail := by
          simpa using h
        exact ⟨.identifier hword (by simpa using hkeyword), fun _ => hstops⟩
    · obtain ⟨rfl, rfl, rfl⟩ : Token.Kind.string = kind ∧ front = word ∧ back = tail := by
        simpa using h
      exact ⟨.quoted (string?_cases hcut).2, fun hword => by cases hword⟩
    · obtain ⟨rfl, rfl, rfl⟩ : Token.Kind.inline = kind ∧ front = word ∧ back = tail := by
        simpa using h
      have hmark := punctuation?_cases hcut
      exact ⟨.mark hmark, fun hword => by
        rw [not_isWordLexeme_of_isPunctuation hmark] at hword; cases hword⟩

/-- A signed number is read as the unsigned one behind its sign. -/
theorem signed?_of_isSigned {recognise : List Char → Option Cut} {shape : List Char → Prop}
    {word tail : List Char} (h : IsSigned shape word)
    (hhead : ∀ {word}, shape word → ∃ c rest, word = c :: rest ∧ isNumberHead c = true)
    (hread : ∀ {word}, shape word → recognise (word ++ tail) = some (word, tail)) :
    signed? recognise (word ++ tail) = some (word, tail) := by
  have hstops {word : List Char} (hshape : shape word) : Stops (· == '-') (word ++ tail) := by
    obtain ⟨c, rest, rfl, hc⟩ := hhead hshape
    exact stops_of_head hc fun d hd => isNumberHead_minus hd
  rcases h with hshape | ⟨rest, rfl, hshape⟩
  · rw [(signed?_eq (hstops hshape)).1, hread hshape]
  · rw [List.cons_append, (signed?_eq (hstops hshape)).2, hread hshape]
    rfl

theorem decimal?_of_isInteger {word tail : List Char} (h : IsSigned IsInteger word)
    (htail : Stops isNumberPart tail) : decimal? (word ++ tail) = none := by
  have hstops {word : List Char} (hshape : IsInteger word) : Stops (· == '-') (word ++ tail) := by
    obtain ⟨c, rest, rfl, hc⟩ := hshape.head
    exact stops_of_head hc fun d hd => isNumberHead_minus hd
  rcases h with hshape | ⟨rest, rfl, hshape⟩
  · rw [decimal?, (signed?_eq (hstops hshape)).1, unsignedDecimal?_of_isInteger hshape htail]
  · rw [decimal?, List.cons_append, (signed?_eq (hstops hshape)).2,
      unsignedDecimal?_of_isInteger hshape htail]
    rfl

theorem IsWord.classified?_eq {word tail : List Char} (h : IsWord word)
    (htail : Stops isWordPart tail) : classified? (word ++ tail) = some (.identifier, word, tail) := by
  obtain ⟨hdecimal, hinteger⟩ := h.number?_eq_none tail
  simp [classified?, hdecimal, hinteger, identifier?_eq h htail]

theorem IsQuoted.classified?_eq {word : List Char} (h : IsQuoted word) (tail : List Char) :
    classified? (word ++ tail) = some (.string, word, tail) := by
  have hstring := string?_eq h tail
  obtain ⟨content, rfl, -⟩ := h
  obtain ⟨hdecimal, hinteger⟩ : decimal? ('"' :: (content ++ ['"']) ++ tail) = none ∧
      integer? ('"' :: (content ++ ['"']) ++ tail) = none := by
    refine number?_eq_none (stops_cons.mpr rfl) fun rest heq => ?_
    cases (List.cons.inj heq).1
  have hword : identifier? ('"' :: (content ++ ['"']) ++ tail) = none := rfl
  simp only [classified?, hdecimal, hinteger, hword, hstring]
  rfl

/-- A lexeme is cut off the text that begins with it, if the rest does not go on with it. -/
theorem scan_of_isLexeme {kind : Token.Kind} {word tail : List Char} (h : IsLexeme kind word)
    (hends : Ends kind word tail) {c : Char} {rest : List Char} (hcons : word ++ tail = c :: rest) :
    scan c rest = (kind, word, tail) := by
  rw [scan, ← hcons]
  cases h with
  | decimal hshape =>
      have hread : decimal? (word ++ tail) = some (word, tail) :=
        signed?_of_isSigned hshape IsDecimal.head
          fun hshape => unsignedDecimal?_eq hshape (hends.number rfl)
      simp [classified?, hread]
  | integer hshape =>
      have hread : integer? (word ++ tail) = some (word, tail) :=
        signed?_of_isSigned hshape IsInteger.head
          fun hshape => unsignedInteger?_eq hshape (hends.number rfl)
      simp [classified?, decimal?_of_isInteger hshape (hends.number rfl), hread]
  | identifier hshape hkeyword =>
      rw [hshape.classified?_eq (hends.word rfl)]
      simpa using hkeyword
  | keyword hshape hkeyword =>
      rw [hshape.classified?_eq (hends.word (isWordLexeme_of_isWord hshape))]
      simpa using hkeyword
  | quoted hshape =>
      rw [hshape.classified?_eq tail]
      rfl
  | mark hshape =>
      rw [hshape.classified?_eq tail]
      rfl

/-! ## The ends of lexemes -/

/-- A lexeme begins with no blank and no slash, so no trivia begins with it. -/
theorem IsLexeme.head {kind : Token.Kind} {word : List Char} (h : IsLexeme kind word) :
    ∃ c rest, word = c :: rest ∧ isBlank c = false ∧ c ≠ '/' := by
  -- blanks and slashes are neither parts of words nor points
  have hclass {c : Char} (h : isWordPart c = true ∨ c = '.') : isBlank c = false ∧ c ≠ '/' := by
    constructor
    · cases hblank : isBlank c with
      | false => rfl
      | true =>
          simp only [isBlank, Bool.or_eq_true, beq_iff_eq] at hblank
          rcases hblank with ((rfl | rfl) | rfl) | rfl <;> revert h <;> decide
    · rintro rfl
      revert h
      decide
  have hnumber {shape : List Char → Prop} (hshape : IsSigned shape word)
      (hhead : ∀ {word}, shape word → ∃ c rest, word = c :: rest ∧ isNumberHead c = true) :
      ∃ c rest, word = c :: rest ∧ isBlank c = false ∧ c ≠ '/' := by
    rcases hshape with hshape | ⟨rest, rfl, -⟩
    · obtain ⟨c, rest, rfl, hc⟩ := hhead hshape
      refine ⟨c, rest, rfl, hclass ?_⟩
      simp only [isNumberHead, Bool.or_eq_true, beq_iff_eq] at hc
      exact hc.imp_left (isWordPart_of_isDigit c)
    · exact ⟨'-', rest, rfl, by decide, by decide⟩
  have hword (hshape : IsWord word) : ∃ c rest, word = c :: rest ∧ isBlank c = false ∧ c ≠ '/' := by
    obtain ⟨sign, c, rest, rfl, rfl | rfl | rfl, hc, -⟩ := hshape
    · exact ⟨c, rest, rfl, hclass (Or.inl (isWordPart_of_isLetter c hc))⟩
    · exact ⟨'_', c :: rest, rfl, by decide, by decide⟩
    · exact ⟨'-', c :: rest, rfl, by decide, by decide⟩
  cases h with
  | decimal hshape => exact hnumber hshape IsDecimal.head
  | integer hshape => exact hnumber hshape IsInteger.head
  | identifier hshape _ => exact hword hshape
  | keyword hshape _ => exact hword hshape
  | quoted hshape =>
      obtain ⟨content, rfl, -⟩ := hshape
      exact ⟨'"', _, rfl, by decide, by decide⟩
  | mark hshape =>
      obtain ⟨mark, hmark, rfl⟩ := hshape
      cases hchars : mark.toList with
      | nil => exact absurd hchars (punctuation_ne_nil hmark)
      | cons c rest => exact ⟨c, rest, rfl, (punctuation_char hmark (by simp [hchars])).2⟩

/-- The characters of numbers. -/
def isNumeral (c : Char) : Bool :=
  isNumberPart c || c == '+'

theorem isNumeral_of_isDigit (c : Char) (h : isDigit c = true) : isNumeral c = true := by
  simp [isNumeral, isNumberPart, isWordPart_of_isDigit c h]

theorem IsExponent.all {word : List Char} (h : IsExponent word) :
    ∀ c ∈ word, isNumeral c = true := by
  obtain ⟨e, sign, digits, rfl, he, hsign, -, hdigits⟩ := h
  have hdigits : ∀ c ∈ digits, isNumeral c = true :=
    fun c hc => isNumeral_of_isDigit c (hdigits c hc)
  have he : isNumeral e = true := by
    rcases he with rfl | rfl <;> decide
  have hsign : ∀ c ∈ sign, isNumeral c = true := by
    rcases hsign with rfl | rfl | rfl
    · simp
    · simpa using (by decide : isNumeral '-' = true)
    · simpa using (by decide : isNumeral '+' = true)
  intro c hc
  rcases List.mem_cons.mp hc with rfl | hc
  · exact he
  · exact (List.mem_append.mp hc).elim (hsign c) (hdigits c)

theorem IsDecimal.all {word : List Char} (h : IsDecimal word) :
    ∀ c ∈ word, isNumeral c = true := by
  intro c hc
  rcases h with ⟨whole, fraction, power, rfl, hwhole, hfraction, -, hpower⟩ |
    ⟨whole, power, rfl, hwhole, -, hpower⟩
  · simp only [List.mem_append, List.mem_cons] at hc
    rcases hc with hc | rfl | hc | hc
    · exact isNumeral_of_isDigit c (hwhole c hc)
    · decide
    · exact isNumeral_of_isDigit c (hfraction c hc)
    · rcases hpower with rfl | hpower
      · cases hc
      · exact hpower.all c hc
  · rcases List.mem_append.mp hc with hc | hc
    · exact isNumeral_of_isDigit c (hwhole c hc)
    · exact hpower.all c hc

theorem IsInteger.all {word : List Char} (h : IsInteger word) :
    ∀ c ∈ word, isNumeral c = true := by
  intro c hc
  rcases h with ⟨digits, rfl, hdigits⟩ | ⟨x, digits, rfl, hx, -, hdigits⟩ |
    ⟨d, digits, rfl, -, hd, hdigits⟩
  · rcases List.mem_cons.mp hc with rfl | hc
    · decide
    · exact isNumeral_of_isDigit c (isDigit_of_isOctal c (hdigits c hc))
  · simp only [List.mem_cons] at hc
    rcases hc with rfl | rfl | hc
    · decide
    · rcases hx with rfl | rfl <;> decide
    · simp [isNumeral, isNumberPart, isWordPart_of_isHex c (hdigits c hc)]
  · rcases List.mem_cons.mp hc with rfl | hc
    · exact isNumeral_of_isDigit c hd
    · exact isNumeral_of_isDigit c (hdigits c hc)

theorem IsSigned.all {shape : List Char → Prop} {word : List Char} (h : IsSigned shape word)
    (hshape : ∀ {word}, shape word → ∀ c ∈ word, isNumeral c = true) :
    ∀ c ∈ word, isNumeral c = true := by
  intro c hc
  rcases h with h | ⟨rest, rfl, h⟩
  · exact hshape h c hc
  · rcases List.mem_cons.mp hc with rfl | hc
    · decide
    · exact hshape h c hc

/-- The characters of a word are parts of words. -/
theorem IsWord.all {word : List Char} (h : IsWord word) : ∀ c ∈ word, isWordPart c = true := by
  obtain ⟨sign, c, rest, rfl, hsign, hc, hrest⟩ := h
  have hletter := isWordPart_of_isLetter c hc
  have hminus : isWordPart '-' = true := by decide
  have hescape : isWordPart '_' = true := by decide
  rcases hsign with rfl | rfl | rfl <;> simpa [hletter, hminus, hescape] using hrest

/-- A lexeme ends with no blank and with no slash, so it opens no comment together with what follows
it. -/
theorem IsLexeme.last {kind : Token.Kind} {word : List Char} (h : IsLexeme kind word) :
    ∀ c ∈ word.getLast?, isBlank c = false ∧ c ≠ '/' := by
  -- blanks and slashes do not end a number or a word
  have hclass {c : Char} (h : isNumeral c = true) : isBlank c = false ∧ c ≠ '/' := by
    constructor
    · cases hblank : isBlank c with
      | false => rfl
      | true =>
          simp only [isBlank, Bool.or_eq_true, beq_iff_eq] at hblank
          rcases hblank with ((rfl | rfl) | rfl) | rfl <;> revert h <;> decide
    · rintro rfl
      revert h
      decide
  have hword (hshape : IsWord word) : ∀ c ∈ word, isNumeral c = true := by
    intro c hc
    simp [isNumeral, isNumberPart, hshape.all c hc]
  intro c hc
  have hmem : c ∈ word := List.mem_of_getLast? hc
  cases h with
  | decimal hshape => exact hclass (hshape.all IsDecimal.all c hmem)
  | integer hshape => exact hclass (hshape.all IsInteger.all c hmem)
  | identifier hshape _ => exact hclass (hword hshape c hmem)
  | keyword hshape _ => exact hclass (hword hshape c hmem)
  | quoted hshape =>
      obtain ⟨content, rfl, -⟩ := hshape
      rw [← List.cons_append, List.getLast?_append] at hc
      obtain rfl : '"' = c := by simpa using hc
      decide
  | mark hshape =>
      obtain ⟨mark, hmark, rfl⟩ := hshape
      exact (punctuation_char hmark hmem).2

/-- Strings and marks end with no part of a word. -/
theorem IsLexeme.last_of_closed {kind : Token.Kind} {word : List Char} (h : IsLexeme kind word)
    (hword : isWordLexeme kind word = false) (hnumber : isNumberLexeme kind = false) :
    ∀ c ∈ word.getLast?, isWordPart c = false := by
  intro c hc
  cases h with
  | decimal hshape => cases hnumber
  | integer hshape => cases hnumber
  | identifier hshape _ => cases hword
  | keyword hshape _ => rw [isWordLexeme_of_isWord hshape] at hword; cases hword
  | quoted hshape =>
      obtain ⟨content, rfl, -⟩ := hshape
      rw [← List.cons_append, List.getLast?_append] at hc
      obtain rfl : '"' = c := by simpa using hc
      decide
  | mark hshape =>
      obtain ⟨mark, hmark, rfl⟩ := hshape
      exact (punctuation_char hmark (List.mem_of_getLast? hc)).1

end WebIdl.Lexeme
