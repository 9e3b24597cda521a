import WebIdl.Token.Basic
import WebIdl.Token.Keyword

/-!
# Recognising one lexeme

Each recogniser looks at the start of a character list and cuts it in two, the part that it
recognises and the rest, or finds nothing.  `Lexeme.scan` tries them in order of precedence and
falls back to a single character, so it cuts a lexeme off every non-empty text; `Lexeme.trivia?`
does the same for blanks and comments.

The recognisers of numbers and identifiers stand for regular expressions, and rest on an assumption
about the package that matches these: it matches leftmost first and backtracks.  That is, it tries the
alternatives of a pattern in their order and takes the first with which the rest of the pattern
matches, and a repetition takes as much as it can and gives back only what the rest needs.
-/

namespace WebIdl.Lexeme

/-- A text cut into a recognised front and the rest. -/
abbrev Cut := List Char × List Char

/-! ## Character classes -/

/-- The letters `A` to `Z` and `a` to `z`. -/
def isLetter (c : Char) : Bool :=
  c.isAlpha

/-- The digits `0` to `9`. -/
def isDigit (c : Char) : Bool :=
  c.isDigit

def isOctal (c : Char) : Bool :=
  '0' ≤ c && c ≤ '7'

def isHex (c : Char) : Bool :=
  c.isDigit || ('A' ≤ c && c ≤ 'F') || ('a' ≤ c && c ≤ 'f')

/-- What may follow the first letter of an identifier. -/
def isWordPart (c : Char) : Bool :=
  c.isAlpha || c.isDigit || c == '_' || c == '-'

/-- Blanks are tab, newline, carriage return and space. -/
def isBlank (c : Char) : Bool :=
  c == '\t' || c == '\n' || c == '\r' || c == ' '

/-! ## Pieces of lexemes -/

/-- The longest front whose characters all satisfy `p`, possibly empty. -/
def run (p : Char → Bool) (text : List Char) : Cut :=
  (text.takeWhile p, text.dropWhile p)

/-- The longest front whose characters all satisfy `p`, unless it is empty. -/
def run? (p : Char → Bool) (text : List Char) : Option Cut :=
  match run p text with
  | ([], _) => none
  | cut => some cut

/-- One leading character that satisfies `p`, if there is one. -/
def optional (p : Char → Bool) : List Char → Cut
  | [] => ([], [])
  | c :: rest => if p c then ([c], rest) else ([], c :: rest)

/-- Puts a recognised front before what was cut off the rest. -/
def Cut.after (front : List Char) (cut : Cut) : Cut :=
  (front ++ cut.1, cut.2)

/-- A cut behind an optional minus sign. -/
def signed? (recognise : List Char → Option Cut) (text : List Char) : Option Cut :=
  let (sign, rest) := optional (· == '-') text
  (recognise rest).map (Cut.after sign)

/-! ## The classes of lexemes -/

/-- An exponent: `e` or `E`, an optional sign, and digits. -/
def exponent? : List Char → Option Cut
  | [] => none
  | c :: rest =>
    if c == 'e' || c == 'E' then
      let (sign, digits) := optional (fun s => s == '-' || s == '+') rest
      (run? isDigit digits).map (Cut.after (c :: sign))
    else
      none

/-- An unsigned decimal: digits around a point, at least one on either side, then perhaps an
exponent; or digits and an exponent.  The order of the alternatives and the greed of the digits are
those of leftmost-first matching. -/
def unsignedDecimal? (text : List Char) : Option Cut :=
  let (whole, rest) := run isDigit text
  match rest with
  | '.' :: tail =>
    let (fraction, rest) := run isDigit tail
    if whole.isEmpty && fraction.isEmpty then
      none
    else
      let front := whole ++ '.' :: fraction
      some (((exponent? rest).map (Cut.after front)).getD (front, rest))
  | _ =>
    if whole.isEmpty then none else (exponent? rest).map (Cut.after whole)

/-- A decimal number. -/
def decimal? : List Char → Option Cut :=
  signed? unsignedDecimal?

/-- An unsigned integer: hexadecimal after `0x`, octal after `0`, else decimal digits that start
with no zero.  A `0x` that no hexadecimal digit follows is the octal `0`: leftmost-first matching goes
back to the next alternative. -/
def unsignedInteger? : List Char → Option Cut
  | [] => none
  | '0' :: rest =>
    match rest with
    | [] => some (['0'], [])
    | x :: digits =>
      let octal := Cut.after ['0'] (run isOctal rest)
      if x == 'x' || x == 'X' then
        some (((run? isHex digits).map (Cut.after ['0', x])).getD octal)
      else
        some octal
  | c :: rest => if isDigit c then some (Cut.after [c] (run isDigit rest)) else none

/-- An integer. -/
def integer? : List Char → Option Cut :=
  signed? unsignedInteger?

/-- An identifier: an optional underscore or minus sign, a letter, then letters, digits,
underscores and minus signs, as many as there are under leftmost-first matching. -/
def identifier? (text : List Char) : Option Cut :=
  let (sign, rest) := optional (fun c => c == '_' || c == '-') text
  match rest with
  | [] => none
  | c :: tail => if isLetter c then some (Cut.after (sign ++ [c]) (run isWordPart tail)) else none

/-- A string runs to the next double quote; there are no escapes. -/
def string? : List Char → Option Cut
  | '"' :: rest =>
    match run (· != '"') rest with
    | (content, quote :: tail) => some ('"' :: content ++ [quote], tail)
    | (_, []) => none
  | _ => none

/-- A punctuation mark. -/
def punctuation? (text : List Char) : Option Cut :=
  (punctuation.find? (fun mark => mark.toList.isPrefixOf text)).map fun mark =>
    (mark.toList, text.drop mark.length)

/-- The first of the lexical classes that recognises a front of the text, and that front. -/
def classified? (text : List Char) : Option (Token.Kind × Cut) :=
  (decimal? text).map (Token.Kind.decimal, ·)
    <|> (integer? text).map (Token.Kind.integer, ·)
    <|> (identifier? text).map (Token.Kind.identifier, ·)
    <|> (string? text).map (Token.Kind.string, ·)
    <|> (punctuation? text).map (Token.Kind.inline, ·)

/-- Cuts one lexeme off the text `c :: rest`.  What no class recognises is a lexeme of its own,
one character long.  An identifier that is a keyword is inline. -/
def scan (c : Char) (rest : List Char) : Token.Kind × Cut :=
  match classified? (c :: rest) with
  | none => (.other, [c], rest)
  | some (kind, word, tail) =>
    if kind == .identifier && Keyword.all.contains (String.ofList word) then
      (.inline, word, tail)
    else
      (kind, word, tail)

/-! ## Blanks and comments -/

/-- The front up to and including the first `*/`. -/
def toCommentEnd? : List Char → Option Cut
  | '*' :: '/' :: rest => some (['*', '/'], rest)
  | c :: rest => (toCommentEnd? rest).map (Cut.after [c])
  | [] => none

/-- A comment: from `//` to the end of the line, or from `/*` to the next `*/`. -/
def comment? : List Char → Option Cut
  | '/' :: '/' :: rest => some (Cut.after ['/', '/'] (run (· != '\n') rest))
  | '/' :: '*' :: rest => (toCommentEnd? rest).map (Cut.after ['/', '*'])
  | _ => none

/-- A run of blanks, or a comment. -/
def trivia? (text : List Char) : Option Cut :=
  run? isBlank text <|> comment? text

/-! ## Cutting loses nothing

Every recogniser cuts: the two parts of its answer are the text, and the front is not empty.  The
second half is what lets a scan of the whole text come to an end. -/

/-- The two parts of a cut are the text. -/
def Cut.Of (cut : Cut) (text : List Char) : Prop :=
  cut.1 ++ cut.2 = text

/-- A cut of the text whose front is not empty. -/
def Cut.Proper (cut : Cut) (text : List Char) : Prop :=
  cut.Of text ∧ cut.1 ≠ []

theorem Cut.Of.after {cut : Cut} {text : List Char} (h : cut.Of text) (front : List Char) :
    (Cut.after front cut).Of (front ++ text) := by
  simp only [Cut.Of, Cut.after] at h ⊢
  rw [List.append_assoc, h]

theorem Cut.Proper.after {cut : Cut} {text : List Char} (h : cut.Proper text)
    (front : List Char) : (Cut.after front cut).Proper (front ++ text) :=
  ⟨h.1.after front, by simp [Cut.after, h.2]⟩

theorem Cut.Of.after_proper {cut : Cut} {text : List Char} (h : cut.Of text) {front : List Char}
    (hfront : front ≠ []) : (Cut.after front cut).Proper (front ++ text) :=
  ⟨h.after front, by simp [Cut.after, hfront]⟩

/-- What follows a proper cut is shorter than the text. -/
theorem Cut.Proper.rest_lt {cut : Cut} {text : List Char} (h : cut.Proper text) :
    cut.2.length < text.length := by
  have hlength := congrArg List.length h.1
  have hpos := List.length_pos_iff.mpr h.2
  simp only [List.length_append] at hlength
  omega

theorem run_of (p : Char → Bool) (text : List Char) : Cut.Of (run p text) text :=
  List.takeWhile_append_dropWhile

theorem run?_proper {p : Char → Bool} {text : List Char} {cut : Cut} (h : run? p text = some cut) :
    cut.Proper text := by
  unfold run? at h
  split at h
  · exact absurd h (by simp)
  · rename_i hne
    obtain rfl : run p text = cut := by simpa using h
    exact ⟨run_of p text, fun hempty => hne _ (Prod.ext hempty rfl)⟩

theorem optional_of (p : Char → Bool) (text : List Char) : Cut.Of (optional p text) text := by
  cases text with
  | nil => rfl
  | cons c rest =>
    simp only [optional]
    split <;> rfl

theorem signed?_proper {recognise : List Char → Option Cut} {text : List Char} {cut : Cut}
    (hproper : ∀ rest inner, recognise rest = some inner → inner.Proper rest)
    (h : signed? recognise text = some cut) : cut.Proper text := by
  have hsign := optional_of (· == '-') text
  unfold signed? at h
  generalize optional (· == '-') text = sign at h hsign
  obtain ⟨sign, rest⟩ := sign
  obtain ⟨inner, hinner, rfl⟩ := Option.map_eq_some_iff.mp h
  have hcut := (hproper _ _ hinner).after sign
  rw [show sign ++ rest = text from hsign] at hcut
  exact hcut

theorem exponent?_proper {text : List Char} {cut : Cut} (h : exponent? text = some cut) :
    cut.Proper text := by
  cases text with
  | nil => simp [exponent?] at h
  | cons c rest =>
    simp only [exponent?] at h
    split at h
    · obtain ⟨inner, hinner, rfl⟩ := Option.map_eq_some_iff.mp h
      have hsign := optional_of (fun s => s == '-' || s == '+') rest
      have hcut := (run?_proper hinner).after
        (c :: (optional (fun s => s == '-' || s == '+') rest).1)
      rw [List.cons_append, show _ ++ _ = rest from hsign] at hcut
      exact hcut
    · exact absurd h (by simp)

theorem unsignedDecimal?_proper {text : List Char} {cut : Cut}
    (h : unsignedDecimal? text = some cut) : cut.Proper text := by
  have hwhole : (run isDigit text).1 ++ (run isDigit text).2 = text := run_of isDigit text
  unfold unsignedDecimal? at h
  generalize run isDigit text = whole at h hwhole
  obtain ⟨whole, rest⟩ := whole
  simp only at h hwhole
  split at h
  · rename_i tail
    have hfraction : (run isDigit tail).1 ++ (run isDigit tail).2 = tail := run_of isDigit tail
    generalize run isDigit tail = fraction at h hfraction
    obtain ⟨fraction, rest⟩ := fraction
    simp only at h hfraction
    split at h
    · exact absurd h (by simp)
    · obtain rfl := Option.some.inj h
      have hfront : whole ++ '.' :: fraction ≠ [] := by simp
      have htext : (whole ++ '.' :: fraction) ++ rest = text := by
        rw [← hwhole, ← hfraction]
        simp
      cases hexp : exponent? rest with
      | none => exact ⟨htext, hfront⟩
      | some inner =>
        have hcut := (exponent?_proper hexp).after (whole ++ '.' :: fraction)
        rw [htext] at hcut
        exact hcut
  · split at h
    · exact absurd h (by simp)
    · obtain ⟨inner, hinner, rfl⟩ := Option.map_eq_some_iff.mp h
      have hcut := (exponent?_proper hinner).after whole
      rw [hwhole] at hcut
      exact hcut

theorem unsignedInteger?_proper {text : List Char} {cut : Cut}
    (h : unsignedInteger? text = some cut) : cut.Proper text := by
  unfold unsignedInteger? at h
  split at h
  · exact absurd h (by simp)
  · split at h
    · obtain rfl := Option.some.inj h
      exact ⟨rfl, by simp⟩
    · rename_i x digits
      have hoctal := (run_of isOctal (x :: digits)).after_proper (List.cons_ne_nil '0' [])
      split at h
      · obtain rfl := Option.some.inj h
        cases hhex : run? isHex digits with
        | none => exact hoctal
        | some inner => exact (run?_proper hhex).after ['0', x]
      · obtain rfl := Option.some.inj h
        exact hoctal
  · rename_i c rest _
    split at h
    · obtain rfl := Option.some.inj h
      exact (run_of isDigit rest).after_proper (List.cons_ne_nil c [])
    · exact absurd h (by simp)

theorem identifier?_proper {text : List Char} {cut : Cut} (h : identifier? text = some cut) :
    cut.Proper text := by
  have hsign := optional_of (fun c => c == '_' || c == '-') text
  unfold identifier? at h
  generalize optional (fun c => c == '_' || c == '-') text = sign at h hsign
  obtain ⟨sign, rest⟩ := sign
  simp only [Cut.Of] at h hsign
  split at h
  · exact absurd h (by simp)
  · rename_i c tail
    split at h
    · obtain rfl := Option.some.inj h
      have hcut := (run_of isWordPart tail).after_proper
        (List.append_ne_nil_of_right_ne_nil sign (List.cons_ne_nil c []))
      rw [List.append_assoc, List.singleton_append, hsign] at hcut
      exact hcut
    · exact absurd h (by simp)

theorem string?_proper {text : List Char} {cut : Cut} (h : string? text = some cut) :
    cut.Proper text := by
  unfold string? at h
  split at h
  · rename_i rest
    have hrest := run_of (· != '"') rest
    split at h
    · rename_i content quote tail heq
      obtain rfl := Option.some.inj h
      rw [heq] at hrest
      exact ⟨by simpa [Cut.Of] using hrest, by simp⟩
    · exact absurd h (by simp)
  · exact absurd h (by simp)

theorem punctuation_ne_nil {mark : String} (h : mark ∈ punctuation) : mark.toList ≠ [] := by
  revert mark
  decide

theorem punctuation?_proper {text : List Char} {cut : Cut} (h : punctuation? text = some cut) :
    cut.Proper text := by
  obtain ⟨mark, hmark, rfl⟩ := Option.map_eq_some_iff.mp h
  have hstart : mark.toList.isPrefixOf text = true := by simpa using List.find?_some hmark
  obtain ⟨tail, htail⟩ := List.isPrefixOf_iff_prefix.mp hstart
  refine ⟨?_, punctuation_ne_nil (List.mem_of_find?_eq_some hmark)⟩
  rw [← htail, ← String.length_toList]
  simp [Cut.Of]

theorem classified?_proper {text : List Char} {kind : Token.Kind} {cut : Cut}
    (h : classified? text = some (kind, cut)) : cut.Proper text := by
  simp only [classified?, Option.orElse_eq_orElse, Option.orElse_eq_or, Option.or_eq_some_iff,
    Option.map_eq_some_iff, Prod.mk.injEq] at h
  rcases h with ⟨_, h, _, rfl⟩ | ⟨_, ⟨_, h, _, rfl⟩ | ⟨_, ⟨_, h, _, rfl⟩ | ⟨_, ⟨_, h, _, rfl⟩ |
    ⟨_, _, h, _, rfl⟩⟩⟩⟩
  · exact signed?_proper (fun _ _ => unsignedDecimal?_proper) h
  · exact signed?_proper (fun _ _ => unsignedInteger?_proper) h
  · exact identifier?_proper h
  · exact string?_proper h
  · exact punctuation?_proper h

theorem scan_proper (c : Char) (rest : List Char) : (scan c rest).2.Proper (c :: rest) := by
  unfold scan
  split
  · exact ⟨rfl, by simp⟩
  · rename_i kind word tail h
    have hcut := classified?_proper h
    split <;> exact hcut

theorem toCommentEnd?_proper {text : List Char} {cut : Cut} (h : toCommentEnd? text = some cut) :
    cut.Proper text := by
  fun_induction toCommentEnd? text generalizing cut with
  | case1 rest =>
    obtain rfl := Option.some.inj h
    exact ⟨rfl, by simp⟩
  | case2 c rest _ ih =>
    obtain ⟨inner, hinner, rfl⟩ := Option.map_eq_some_iff.mp h
    exact (ih hinner).after [c]
  | case3 => exact absurd h (by simp)

theorem comment?_proper {text : List Char} {cut : Cut} (h : comment? text = some cut) :
    cut.Proper text := by
  unfold comment? at h
  split at h
  · obtain rfl := Option.some.inj h
    exact (run_of _ _).after_proper (List.cons_ne_nil _ _)
  · obtain ⟨inner, hinner, rfl⟩ := Option.map_eq_some_iff.mp h
    exact (toCommentEnd?_proper hinner).after ['/', '*']
  · exact absurd h (by simp)

theorem trivia?_proper {text : List Char} {cut : Cut} (h : trivia? text = some cut) :
    cut.Proper text := by
  simp only [trivia?, Option.orElse_eq_orElse, Option.orElse_eq_or, Option.or_eq_some_iff] at h
  rcases h with h | ⟨_, h⟩
  · exact run?_proper h
  · exact comment?_proper h

end WebIdl.Lexeme
