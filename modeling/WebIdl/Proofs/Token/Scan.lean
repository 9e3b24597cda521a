import WebIdl.Proofs.Token.Lexable

/-!
# The run of a scan

Cutting a text into tokens goes step by step: over trivia, or over one lexeme.  `Scanned` is where
such steps can lead, and what one step keeps holds of every place that a scan comes to: nothing is
lost, tokens and characters are counted, and the trivia that is waiting is a row of blanks and
complete comments.

A text is cut into tokens exactly if its scan comes to the end (`stream_eq_ok_iff`), and it is
refused exactly if the scan comes to a reserved identifier (`stream_eq_error_iff`).  There is no
third way, since a character that begins neither trivia nor a lexeme can stand alone
(`isOther_of_unclassified`).
-/

namespace WebIdl

open WebIdl.Lexeme

/-! ## Trivia, declared -/

namespace Lexeme

/-- A comment in front of `rest`, complete: it ends with its line, or with the first `*/`. -/
inductive IsComment : List Char → List Char → Prop where
  | line {body rest : List Char} (hbody : '\n' ∉ body) (hrest : Stops (· != '\n') rest) :
      IsComment ('/' :: '/' :: body) rest
  | block {body rest : List Char} (hbody : ¬ ['*', '/'] <:+: body ++ ['*']) :
      IsComment ('/' :: '*' :: body ++ ['*', '/']) rest

/-- A row of blanks and complete comments in front of `rest`. -/
inductive IsTrivia : List Char → List Char → Prop where
  | nil {rest : List Char} : IsTrivia [] rest
  | blanks {run others rest : List Char} (hne : run ≠ []) (hrun : ∀ c ∈ run, isBlank c = true)
      (hothers : IsTrivia others rest) : IsTrivia (run ++ others) rest
  | comment {comment others rest : List Char} (hcomment : IsComment comment (others ++ rest))
      (hothers : IsTrivia others rest) : IsTrivia (comment ++ others) rest

/-- Two rows make one. -/
theorem IsTrivia.append {first second rest : List Char} (h : IsTrivia first (second ++ rest))
    (hsecond : IsTrivia second rest) : IsTrivia (first ++ second) rest := by
  generalize hbehind : second ++ rest = behind at h
  induction h with
  | nil => exact hsecond
  | blanks hne hrun _ ih =>
      rw [List.append_assoc]
      exact .blanks hne hrun (ih hbehind)
  | comment hcomment _ ih =>
      subst hbehind
      rw [List.append_assoc]
      exact .comment (by rwa [List.append_assoc]) (ih rfl)

/-- The end of a comment is the first one there is. -/
theorem toCommentEnd?_cases {text body rest : List Char}
    (h : toCommentEnd? text = some (body, rest)) :
    ∃ inner, body = inner ++ ['*', '/'] ∧ ¬ ['*', '/'] <:+: inner ++ ['*'] := by
  fun_induction toCommentEnd? text generalizing body with
  | case1 rest =>
      obtain ⟨rfl, rfl⟩ := Prod.mk.inj (Option.some.inj h)
      exact ⟨[], rfl, by decide⟩
  | case2 c text hnot ih =>
      obtain ⟨⟨later, back⟩, hlater, heq⟩ := Option.map_eq_some_iff.mp h
      obtain ⟨rfl, rfl⟩ := Prod.mk.inj heq
      obtain ⟨inner, rfl, hinner⟩ := ih hlater
      refine ⟨c :: inner, rfl, ?_⟩
      rw [List.cons_append, List.infix_cons_iff, not_or]
      refine ⟨fun hprefix => ?_, hinner⟩
      -- an end that began here would have been taken
      obtain ⟨hc, hslash⟩ := List.cons_prefix_cons.mp hprefix
      have htext : text = inner ++ '*' :: '/' :: back := by
        simpa [Cut.Of] using (toCommentEnd?_proper hlater).1.symm
      cases inner with
      | nil => simp at hslash
      | cons d inner =>
          obtain rfl : '/' = d := by simpa using hslash
          exact hnot _ hc.symm htext
  | case3 => cases h

/-- What is passed over as trivia is a run of blanks or a complete comment. -/
theorem isTrivia_of_trivia? {text blank tail : List Char} (h : trivia? text = some (blank, tail)) :
    IsTrivia blank tail := by
  simp only [trivia?, Option.orElse_eq_orElse, Option.orElse_eq_or, Option.or_eq_some_iff] at h
  rcases h with hblank | ⟨-, hcomment⟩
  · obtain ⟨-, hne, hall, -⟩ := run?_cases hblank
    simpa using IsTrivia.blanks hne hall (@IsTrivia.nil tail)
  · suffices hpiece : IsComment blank tail by
      simpa using @IsTrivia.comment blank [] tail hpiece .nil
    unfold comment? at hcomment
    split at hcomment
    · rename_i rest
      obtain ⟨body, back, hrun, -, hbody, hback⟩ := run_cases (· != '\n') rest
      rw [hrun] at hcomment
      obtain ⟨rfl, rfl⟩ := Prod.mk.inj (Option.some.inj hcomment)
      exact .line (fun hmem => by simpa using hbody _ hmem) hback
    · obtain ⟨⟨body, back⟩, hbody, heq⟩ := Option.map_eq_some_iff.mp hcomment
      obtain ⟨rfl, rfl⟩ := Prod.mk.inj heq
      obtain ⟨inner, rfl, hinner⟩ := toCommentEnd?_cases hbody
      exact .block hinner
    · cases hcomment

/-! ## Characters that stand alone -/

/-- The characters that can be a lexeme of their own: all but blanks, digits and letters. -/
def isOther (c : Char) : Bool :=
  !isBlank c && !isDigit c && !isLetter c

/-- A digit begins a number. -/
theorem classified?_of_isDigit {c : Char} (h : isDigit c = true) (rest : List Char) :
    classified? (c :: rest) ≠ none := by
  have hsign : optional (· == '-') (c :: rest) = ([], c :: rest) := by
    refine optional_miss (stops_cons.mpr ?_)
    cases hc : c == '-' with
    | false => rfl
    | true =>
        rw [beq_iff_eq.mp hc] at h
        revert h
        decide
  have hinteger : (unsignedInteger? (c :: rest)).isSome = true := by
    unfold unsignedInteger?
    split
    · rename_i heq
      cases heq
    · split
      · rfl
      · dsimp only
        split <;> rfl
    · rename_i heq
      obtain ⟨rfl, rfl⟩ := List.cons.inj heq
      rw [if_pos h]
      rfl
  obtain ⟨cut, hcut⟩ := Option.isSome_iff_exists.mp hinteger
  simp [classified?, integer?, signed?, hsign, hcut]

/-- A letter begins an identifier. -/
theorem classified?_of_isLetter {c : Char} (h : isLetter c = true) (rest : List Char) :
    classified? (c :: rest) ≠ none := by
  have hsign : optional (fun c => c == '_' || c == '-') (c :: rest) = ([], c :: rest) := by
    refine optional_miss (stops_cons.mpr ?_)
    cases hc : (c == '_' || c == '-') with
    | false => rfl
    | true =>
        rw [Bool.or_eq_true, beq_iff_eq, beq_iff_eq] at hc
        rcases hc with rfl | rfl <;> revert h <;> decide
  simp [classified?, identifier?, hsign, h]

/-- Where neither trivia nor a lexeme of any class begins, the character can stand alone. -/
theorem isOther_of_unclassified {c : Char} {rest : List Char}
    (htrivia : trivia? (c :: rest) = none) (h : classified? (c :: rest) = none) :
    isOther c = true := by
  have hblank : isBlank c = false := stops_cons.mp (Begins.stops_isBlank ⟨by simp, htrivia⟩)
  have hdigit : isDigit c = false :=
    Bool.eq_false_iff.mpr fun hdigit => classified?_of_isDigit hdigit rest h
  have hletter : isLetter c = false :=
    Bool.eq_false_iff.mpr fun hletter => classified?_of_isLetter hletter rest h
  simp [isOther, hblank, hdigit, hletter]

end Lexeme

/-! ## Steps -/

namespace Token

/-- A scan of `text` has cut off some tokens, come to `progress`, and has `rest` before it. -/
inductive Scanned (text : List Char) : List Token → Progress → List Char → Prop where
  | start : Scanned text [] {} text
  | skip {front : List Token} {progress : Progress} {rest blank tail : List Char}
      (h : Scanned text front progress rest) (htrivia : trivia? rest = some (blank, tail)) :
      Scanned text front (progress.skip blank) tail
  | cut {front : List Token} {progress : Progress} {c : Char} {rest word tail : List Char}
      {kind : Kind} (h : Scanned text front progress (c :: rest)) (hbegins : Begins (c :: rest))
      (hscan : scan c rest = (kind, word, tail))
      (hallowed : (kind == .identifier && Keyword.reserved.contains (String.ofList word)) = false) :
      Scanned text (front ++ [progress.token kind word]) (progress.next word) tail

/-- A scan of `text` comes to this reserved identifier. -/
def Meets (text : List Char) (found : Reserved) : Prop :=
  ∃ front c rest tail, Scanned text front found.progress (c :: rest) ∧ Begins (c :: rest) ∧
    scan c rest = (.identifier, found.word.toList, tail) ∧ found.word ∈ Keyword.reserved

section

variable {text : List Char} {front : List Token} {progress : Progress} {rest : List Char}

/-! ## What a step keeps -/

/-- Nothing is lost on the way. -/
theorem Scanned.chars (h : Scanned text front progress rest) :
    charsOf front ++ progress.trivia ++ rest = text := by
  induction h with
  | start => rfl
  | skip _ htrivia ih =>
      rw [← ih, ← (trivia?_proper htrivia).1]
      simp [Progress.skip]
  | cut _ _ hscan _ ih =>
      rename_i c rest word tail kind _ _ _
      have hcut := (scan_proper c rest).1
      rw [hscan] at hcut
      rw [← ih, ← (show word ++ tail = c :: rest from hcut)]
      simp [Progress.next]

/-- Tokens and characters are counted. -/
theorem Scanned.counted (h : Scanned text front progress rest) :
    progress.index = front.length ∧
      progress.offset = (charsOf front).length + progress.trivia.length := by
  induction h with
  | start => exact ⟨rfl, rfl⟩
  | skip _ _ ih =>
      simp only [Progress.skip, List.length_append]
      omega
  | cut _ _ _ _ ih =>
      simp only [Progress.next, charsOf_append, charsOf_cons, charsOf_nil, List.length_append,
        List.length_cons, List.length_nil, Progress.chars_token]
      omega

/-- What is left of the text begins where the scan has come to. -/
theorem Scanned.drop_offset (h : Scanned text front progress rest) :
    text.drop progress.offset = rest := by
  rw [h.counted.2, ← List.length_append, ← h.chars, List.drop_left]

/-- The trivia that is waiting is a row of blanks and complete comments. -/
theorem Scanned.isTrivia (h : Scanned text front progress rest) :
    IsTrivia progress.trivia rest := by
  induction h with
  | start => exact .nil
  | skip _ htrivia ih =>
      refine IsTrivia.append ?_ (isTrivia_of_trivia? htrivia)
      rwa [(trivia?_proper htrivia).1]
  | cut => exact .nil

/-- Where the lexeme of the token stands in the text, and what comes before it. -/
structure Stands (text : List Char) (before : List Token) (token : Token) : Prop where
  index : token.index = before.length
  offset : token.offset = (charsOf before).length + token.trivia.length
  trivia : IsTrivia token.trivia.toList (text.drop token.offset)

/-- The token that a lexeme makes where a scan has come to. -/
theorem Scanned.stands (h : Scanned text front progress rest) (kind : Kind) (word : List Char) :
    Stands text front (progress.token kind word) := by
  obtain ⟨hindex, hoffset⟩ := h.counted
  refine ⟨hindex, by simpa [Progress.token] using hoffset, ?_⟩
  simpa [Progress.token, h.drop_offset] using h.isTrivia

/-- A place among the tokens and one more is a place among the tokens, or the last one. -/
theorem getElem?_snoc_cases {last token : Token} {place : Nat}
    (h : (front ++ [last])[place]? = some token) :
    (front[place]? = some token ∧ (front ++ [last]).take place = front.take place) ∨
      (token = last ∧ (front ++ [last]).take place = front) := by
  rcases Nat.lt_or_ge place front.length with hlt | hge
  · rw [List.getElem?_append_left hlt] at h
    exact Or.inl ⟨h, List.take_append_of_le_length (Nat.le_of_lt hlt)⟩
  · rw [List.getElem?_append_right hge, List.getElem?_singleton] at h
    split at h
    · rw [show place = front.length by omega, List.take_left]
      exact Or.inr ⟨(Option.some.inj h).symm, rfl⟩
    · cases h

/-- Every token that has been cut off is a lexeme in its place. -/
theorem Scanned.getElem? (h : Scanned text front progress rest) {place : Nat} {token : Token}
    (htoken : front[place]? = some token) :
    Stands text (front.take place) token ∧ token.text ≠ "" ∧ token.kind ≠ .eof := by
  induction h with
  | start => cases htoken
  | skip _ _ ih => exact ih htoken
  | @cut _ _ c rest word tail kind hbefore _ hscan _ ih =>
      rcases getElem?_snoc_cases htoken with ⟨hplace, htake⟩ | ⟨rfl, htake⟩
      · rw [htake]
        exact ih hplace
      · rw [htake]
        have hword := (scan_proper c rest).2
        have hkind := scan_kind_ne_eof c rest
        rw [hscan] at hword hkind
        exact ⟨hbefore.stands kind word, by simpa [Progress.token] using hword, hkind⟩

/-! ## Whole runs -/

/-- What is left of a scan is cut as if the text began there. -/
theorem Scanned.streamFrom_eq (h : Scanned text front progress rest) :
    streamFrom {} text = (streamFrom progress rest).map (front ++ ·) := by
  induction h with
  | start => cases streamFrom {} text <;> simp [Except.map]
  | skip _ htrivia ih => rw [ih, streamFrom_of_trivia htrivia]
  | cut _ hbegins hscan hallowed ih =>
      rw [ih, streamFrom_of_scan hbegins hscan hallowed]
      cases streamFrom _ _ <;> simp [Except.map]

theorem Scanned.streamFrom_nil (h : Scanned text front progress []) :
    streamFrom {} text = .ok (front ++ [progress.token .eof []]) := by
  rw [h.streamFrom_eq, streamFrom]
  rfl

theorem Meets.streamFrom_eq {found : Reserved} (h : Meets text found) :
    streamFrom {} text = .error found := by
  obtain ⟨front, c, rest, tail, hscanned, hbegins, hscan, hreserved⟩ := h
  rw [hscanned.streamFrom_eq, streamFrom]
  split
  · rename_i hblank
    cases hbegins.2.symm.trans hblank
  · split
    rename_i kind word back hscan'
    obtain ⟨rfl, heq⟩ := Prod.mk.inj (hscan.symm.trans hscan')
    obtain ⟨rfl, rfl⟩ := Prod.mk.inj heq
    rw [if_pos (by simpa using hreserved)]
    simp [Except.map]

/-- A scan that has come somewhere goes on to the end, or to a reserved identifier: every step leaves
less of the text. -/
theorem Scanned.exists_end (h : Scanned text front progress rest) :
    (∃ all last, Scanned text all last []) ∨ ∃ found, Meets text found := by
  induction hlength : rest.length using Nat.strong_induction_on generalizing front progress rest with
  | _ length ih =>
      cases rest with
      | nil => exact Or.inl ⟨front, progress, h⟩
      | cons c rest =>
          cases htrivia : trivia? (c :: rest) with
          | some cut =>
              exact ih _ (hlength ▸ (trivia?_proper htrivia).rest_lt) (h.skip htrivia) rfl
          | none =>
              have hbegins : Begins (c :: rest) := ⟨by simp, htrivia⟩
              have hshorter := (scan_proper c rest).rest_lt
              obtain ⟨⟨kind, word, tail⟩, hscan⟩ : ∃ cut, scan c rest = cut := ⟨_, rfl⟩
              rw [hscan, hlength] at hshorter
              by_cases hreserved :
                  (kind == .identifier && Keyword.reserved.contains (String.ofList word)) = true
              · obtain ⟨rfl, hword⟩ :
                    kind = .identifier ∧ String.ofList word ∈ Keyword.reserved := by
                  simpa using hreserved
                exact Or.inr ⟨⟨String.ofList word, progress⟩, front, c, rest, tail, h, hbegins,
                  by simpa using hscan, hword⟩
              · exact ih _ hshorter
                  (h.cut hbegins hscan (Bool.eq_false_iff.mpr hreserved)) rfl

end

/-- A text is cut into tokens exactly if its scan comes to the end. -/
theorem stream_eq_ok_iff {text : String} {tokens : List Token} :
    stream text = .ok tokens ↔
      ∃ front progress, Scanned text.toList front progress [] ∧
        tokens = front ++ [progress.token .eof []] := by
  constructor
  · intro h
    rcases (@Scanned.start text.toList).exists_end with
      ⟨front, progress, hscanned⟩ | ⟨found, hfound⟩
    · exact ⟨front, progress, hscanned, Except.ok.inj (h.symm.trans hscanned.streamFrom_nil)⟩
    · cases h.symm.trans hfound.streamFrom_eq
  · rintro ⟨front, progress, hscanned, rfl⟩
    exact hscanned.streamFrom_nil

/-- A text is refused exactly if its scan comes to a reserved identifier. -/
theorem stream_eq_error_iff {text : String} {found : Reserved} :
    stream text = .error found ↔ Meets text.toList found := by
  refine ⟨fun h => ?_, Meets.streamFrom_eq⟩
  rcases (@Scanned.start text.toList).exists_end with
    ⟨front, progress, hscanned⟩ | ⟨other, hother⟩
  · cases h.symm.trans hscanned.streamFrom_nil
  · obtain rfl := Except.error.inj (h.symm.trans hother.streamFrom_eq)
    exact hother

/-- Every token of a text stands in its place. -/
theorem stands_of_stream {text : String} {tokens : List Token} (h : stream text = .ok tokens)
    {place : Nat} {token : Token} (htoken : tokens[place]? = some token) :
    Stands text.toList (tokens.take place) token := by
  obtain ⟨front, progress, hscanned, rfl⟩ := stream_eq_ok_iff.mp h
  rcases getElem?_snoc_cases htoken with ⟨hplace, htake⟩ | ⟨rfl, htake⟩
  · rw [htake]
    exact (hscanned.getElem? hplace).1
  · rw [htake]
    exact hscanned.stands .eof []

/-- Lossless, numbered tokens, and one way to fail.  The tokens that a text is cut into hold all of
it; each has its number, the number of characters in front of its lexeme, and trivia made of blanks
and complete comments; all but the last are lexemes, and the last one is the end.  A text is refused
exactly if its scan comes to a reserved identifier, and a scan never stands before a character that
belongs to no lexeme and cannot stand alone. -/
theorem stream_lossless (text : String) :
    (∀ tokens, stream text = .ok tokens →
      textOf tokens = text ∧
      (∀ place token, tokens[place]? = some token → Stands text.toList (tokens.take place) token) ∧
      ∃ front last, tokens = front ++ [last] ∧ last.kind = .eof ∧ last.text = "" ∧
        ∀ token ∈ front, token.text ≠ "" ∧ token.kind ≠ .eof) ∧
    (∀ found, stream text = .error found ↔ Meets text.toList found) ∧
    ∀ front progress c rest, Scanned text.toList front progress (c :: rest) →
      Begins (c :: rest) → classified? (c :: rest) = none → isOther c = true := by
  refine ⟨fun tokens h => ⟨textOf_stream h, fun place token htoken => stands_of_stream h htoken, ?_⟩,
    fun found => stream_eq_error_iff,
    fun front progress c rest _ hbegins => isOther_of_unclassified hbegins.2⟩
  obtain ⟨front, progress, hscanned, rfl⟩ := stream_eq_ok_iff.mp h
  refine ⟨front, _, rfl, rfl, rfl, fun token htoken => ?_⟩
  obtain ⟨place, hplace⟩ := List.getElem?_of_mem htoken
  exact (hscanned.getElem? hplace).2

end Token

end WebIdl
