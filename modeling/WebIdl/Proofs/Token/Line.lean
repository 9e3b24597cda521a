import WebIdl.Parser.Basic
import WebIdl.Proofs.Text.Excerpt
import WebIdl.Proofs.Token.Scan

/-!
# Line numbers

A scan counts the newlines of trivia.  No lexeme but a string holds a newline, so the count is behind
the text by the newlines inside the strings that have been passed, and by nothing else
(`Scanned.line`).  The same holds of the lines that errors report, against the line that they show
(`line_counted`): a number is right exactly if no string before it runs over the end of a line, and
it is wrong otherwise (`line_counted_false`).
-/

namespace WebIdl

open WebIdl.Lexeme

/-! ## Newlines in lexemes -/

namespace Lexeme

/-- No lexeme but a string holds a newline. -/
theorem IsLexeme.newline_notMem {kind : Token.Kind} {word : List Char} (h : IsLexeme kind word)
    (hkind : kind ≠ .string) : '\n' ∉ word := by
  intro hmem
  have hnumeral (hall : ∀ c ∈ word, isNumeral c = true) : False :=
    absurd (hall _ hmem) (by decide)
  have hword (hall : ∀ c ∈ word, isWordPart c = true) : False := absurd (hall _ hmem) (by decide)
  cases h with
  | decimal h => exact hnumeral (h.all IsDecimal.all)
  | integer h => exact hnumeral (h.all IsInteger.all)
  | identifier h _ => exact hword h.all
  | keyword h _ => exact hword h.all
  | quoted => exact hkind rfl
  | mark h =>
      obtain ⟨mark, hmark, rfl⟩ := h
      exact absurd (punctuation_char hmark hmem).2.1 (by decide)

theorem newline_notMem_of_scan {c : Char} {rest word tail : List Char} {kind : Token.Kind}
    (hbegins : Begins (c :: rest)) (h : scan c rest = (kind, word, tail)) (hkind : kind ≠ .string) :
    '\n' ∉ word := by
  by_cases hother : kind = .other
  · obtain rfl : word = [c] := by
      rw [scan] at h
      split at h
      · exact (Prod.mk.inj (Prod.mk.inj h).2).1.symm
      · rename_i found front back hfound
        split at h
        · cases (Prod.mk.inj h).1.trans hother
        · exact absurd ((Prod.mk.inj h).1.trans hother) (classified?_kind hfound).2
    rw [List.mem_singleton]
    rintro rfl
    cases stops_cons.mp hbegins.stops_isBlank
  · exact (isLexeme_of_scan h hother).1.newline_notMem hkind

end Lexeme

/-! ## Counting -/

namespace Token

/-- The newlines inside the strings among the tokens. -/
def quotedNewlines (tokens : List Token) : Nat :=
  ((tokens.filter (·.kind == .string)).flatMap (·.text.toList)).count '\n'

theorem quotedNewlines_append (front back : List Token) :
    quotedNewlines (front ++ back) = quotedNewlines front + quotedNewlines back := by
  simp [quotedNewlines, List.count_append]

/-- The newlines of a lexeme are those of a string, or there are none. -/
theorem quotedNewlines_token {c : Char} {rest word tail : List Char} {kind : Kind}
    (hbegins : Begins (c :: rest)) (h : scan c rest = (kind, word, tail)) (progress : Progress) :
    quotedNewlines [progress.token kind word] = word.count '\n' := by
  by_cases hkind : kind = .string
  · simp [quotedNewlines, Progress.token, hkind]
  · have hnone := List.count_eq_zero.mpr (newline_notMem_of_scan hbegins h hkind)
    simp [quotedNewlines, Progress.token, hkind, hnone]

section

variable {text : List Char} {front : List Token} {progress : Progress} {rest : List Char}

/-- A scan counts all newlines but those in strings. -/
theorem Scanned.line (h : Scanned text front progress rest) :
    progress.line + quotedNewlines front =
      1 + (charsOf front ++ progress.trivia).count '\n' := by
  induction h with
  | start => rfl
  | skip _ _ ih =>
      rw [List.count_append] at ih
      simp only [Progress.skip, List.count_append]
      omega
  | cut _ hbegins hscan _ ih =>
      rw [List.count_append] at ih
      rw [quotedNewlines_append, quotedNewlines_token hbegins hscan]
      simp only [Progress.next, charsOf_append, charsOf_cons, charsOf_nil, Progress.chars_token,
        List.count_append, List.count_nil]
      omega

/-- The characters in front of the place that a scan has come to. -/
theorem Scanned.take_eq (h : Scanned text front progress rest) :
    text.take progress.offset = charsOf front ++ progress.trivia := by
  rw [h.counted.2, ← List.length_append, ← h.chars, List.take_left]

theorem Scanned.line_take (h : Scanned text front progress rest) :
    progress.line + quotedNewlines front = 1 + (text.take progress.offset).count '\n' := by
  rw [h.take_eq, h.line]

/-- The line of every token that has been cut off. -/
theorem Scanned.line_getElem? (h : Scanned text front progress rest) {place : Nat} {token : Token}
    (htoken : front[place]? = some token) :
    token.line + quotedNewlines (front.take place) =
      1 + (text.take token.offset).count '\n' := by
  induction h with
  | start => cases htoken
  | skip _ _ ih => exact ih htoken
  | cut hbefore _ _ _ ih =>
      rcases getElem?_snoc_cases htoken with ⟨hplace, htake⟩ | ⟨rfl, htake⟩
      · rw [htake]
        exact ih hplace
      · rw [htake]
        exact hbefore.line_take

end

/-- The line of every token of a text. -/
theorem line_of_stream {text : String} {tokens : List Token} (h : stream text = .ok tokens)
    {place : Nat} {token : Token} (htoken : tokens[place]? = some token) :
    token.line + quotedNewlines (tokens.take place) =
      1 + (text.toList.take token.offset).count '\n' := by
  obtain ⟨front, progress, hscanned, rfl⟩ := stream_eq_ok_iff.mp h
  rcases getElem?_snoc_cases htoken with ⟨hplace, htake⟩ | ⟨rfl, htake⟩
  · rw [htake]
    exact hscanned.line_getElem? hplace
  · rw [htake]
    exact hscanned.line_take

end Token

/-! ## The lines of errors -/

open Token

/-- A failing parser reports the line of the next token, or of the one before the end. -/
theorem Parser.fail_eq_error {α : Type} {problem : Problem} {scope : Scope} {cursor moved : Cursor}
    {error : SyntaxError}
    (h : (fail problem : Parser α) scope cursor = .error (.syntaxError error) moved) :
    ∃ place token, (place = cursor.position ∨ place + 1 = cursor.position) ∧
      scope.source.tokens[place]? = some token ∧ error.line = token.line ∧
      error.excerpt = Excerpt.around scope.source.text token.offset := by
  unfold fail at h
  split at h
  · cases h
  · rename_i next hnext
    obtain ⟨herror, -⟩ := Outcome.error.inj h
    obtain rfl := Failure.syntaxError.inj herror
    dsimp only
    split
    · rename_i hend
      have hpos : 0 < cursor.position := by simpa using (Bool.and_eq_true_iff.mp hend).2
      obtain ⟨hbound, -⟩ := Array.getElem?_eq_some_iff.mp hnext
      obtain ⟨last, hlast⟩ : ∃ last, scope.source.tokens[cursor.position - 1]? = some last :=
        ⟨_, Array.getElem?_eq_getElem (by omega)⟩
      exact ⟨cursor.position - 1, last, Or.inr (by omega), hlast, by rw [hlast]; rfl,
        by rw [hlast]; rfl⟩
    · exact ⟨cursor.position, next, Or.inl rfl, hnext, rfl, rfl⟩

/-- Lines, counted.  The line of a token, together with the newlines inside the strings before it, is
one more than the newlines before its lexeme.  The line that an error reports, whether a reserved
identifier or a parser is the cause, is the number of the line that it shows, less the newlines inside
the strings before the token that it is about. -/
theorem line_counted (text : String) (name : Option String) :
    (∀ error, Source.read text name = .error error →
      ∃ found front rest, Scanned text.toList front found.progress rest ∧
        error = .ofReserved text name found ∧
        error.excerpt.Shows text (error.line + quotedNewlines front)) ∧
    ∀ source, Source.read text name = .ok source →
      (∀ place token, source.tokens[place]? = some token →
        token.line + quotedNewlines (source.tokens.toList.take place) =
          1 + (text.toList.take token.offset).count '\n') ∧
      ∀ (α : Type) extensions cursor problem error moved,
        (Parser.fail problem : Parser α) ⟨source, extensions⟩ cursor =
          .error (.syntaxError error) moved →
        ∃ place, (place = cursor.position ∨ place + 1 = cursor.position) ∧
          error.excerpt.Shows text
            (error.line + quotedNewlines (source.tokens.toList.take place)) := by
  unfold Source.read
  split
  · rename_i tokens htokens
    refine ⟨fun error h => (nomatch h), fun source h => ?_⟩
    obtain rfl := Except.ok.inj h
    have hline {place : Nat} {token : Token} (htoken : tokens.toArray[place]? = some token) :
        token.line + quotedNewlines (tokens.take place) =
          1 + (text.toList.take token.offset).count '\n' :=
      line_of_stream htokens (by simpa using htoken)
    refine ⟨fun place token htoken => by simpa using hline htoken, ?_⟩
    intro α extensions cursor problem error moved hfail
    obtain ⟨place, token, hplace, htoken, herror, hexcerpt⟩ := Parser.fail_eq_error hfail
    refine ⟨place, hplace, ?_⟩
    have hshows := Excerpt.shows_around text token.offset
    rwa [← hline htoken, ← herror, ← hexcerpt] at hshows
  · rename_i found hfound
    refine ⟨fun error h => ?_, fun source h => nomatch h⟩
    obtain rfl := Except.error.inj h
    -- the reserved word ends a front that was scanned
    obtain ⟨front, c, rest, tail, hscanned, -⟩ := stream_eq_error_iff.mp hfound
    refine ⟨found, front, _, hscanned, rfl, ?_⟩
    have hshows := Excerpt.shows_around text found.progress.offset
    rwa [← hscanned.line_take] at hshows

/-- The tokens of a string over two lines and a name behind it. -/
def Token.brokenString : List Token :=
  [{ kind := .string, text := "\"\n\"" },
    { kind := .identifier, text := "a", index := 1, offset := 3 },
    { kind := .eof, text := "", index := 2, offset := 4 }]

/-- A string that runs over the end of a line puts the lines behind it wrong. -/
theorem line_counted_false : ∃ tokens token, Token.stream "\"\n\"a" = .ok tokens ∧
    token ∈ tokens ∧ token.line ≠ 1 + ("\"\n\"a".toList.take token.offset).count '\n' := by
  refine ⟨Token.brokenString, Token.brokenString[1], ?_, ?_, ?_⟩
  · decide +kernel
  · decide
  · decide

end WebIdl
