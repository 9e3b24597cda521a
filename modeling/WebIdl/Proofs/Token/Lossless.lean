import WebIdl.Token.Stream
import WebIdl.Tree.Basic

/-!
# A stream of tokens holds its text

Cutting a text into tokens loses nothing: the trivia and lexemes of the stream, read in order, are
the text.  The stream ends with its only `eof` token, and its tokens are numbered.
-/

namespace WebIdl

/-- The characters that a token contributes to its text. -/
def Token.chars (token : Token) : List Char :=
  token.trivia.toList ++ token.text.toList

/-- The characters of a list of tokens. -/
def charsOf (tokens : List Token) : List Char :=
  tokens.flatMap Token.chars

@[simp] theorem charsOf_nil : charsOf [] = [] := rfl

@[simp] theorem charsOf_cons (token : Token) (rest : List Token) :
    charsOf (token :: rest) = token.chars ++ charsOf rest := rfl

@[simp] theorem charsOf_append (front back : List Token) :
    charsOf (front ++ back) = charsOf front ++ charsOf back :=
  List.flatMap_append

@[simp] theorem toList_textOf (tokens : List Token) : (textOf tokens).toList = charsOf tokens := by
  simp only [textOf, charsOf, String.toList_join, List.flatMap_map, Token.full,
    String.toList_append]
  rfl

theorem textOf_append (front back : List Token) :
    textOf (front ++ back) = textOf front ++ textOf back := by
  simp [textOf, String.join_append]

/-! ## Kinds of lexemes -/

theorem Lexeme.classified?_kind {text : List Char} {kind : Token.Kind} {cut : Lexeme.Cut}
    (h : Lexeme.classified? text = some (kind, cut)) : kind ≠ .eof ∧ kind ≠ .other := by
  simp only [Lexeme.classified?, Option.orElse_eq_orElse, Option.orElse_eq_or,
    Option.or_eq_some_iff, Option.map_eq_some_iff, Prod.mk.injEq] at h
  rcases h with ⟨_, _, rfl, _⟩ | ⟨_, ⟨_, _, rfl, _⟩ | ⟨_, ⟨_, _, rfl, _⟩ | ⟨_, ⟨_, _, rfl, _⟩ |
    ⟨_, _, _, rfl, _⟩⟩⟩⟩ <;> simp

theorem Lexeme.scan_kind_ne_eof (c : Char) (rest : List Char) : (Lexeme.scan c rest).1 ≠ .eof := by
  unfold Lexeme.scan
  split
  · simp
  · rename_i kind word tail h
    split
    · simp
    · exact (Lexeme.classified?_kind h).1

/-! ## The stream -/

namespace Token

/-- A stream is closed: its last token, and no other one, is `eof`, which is no lexeme. -/
structure Closed (tokens front : List Token) (last : Token) : Prop where
  split : tokens = front ++ [last]
  last_kind : last.kind = .eof
  last_text : last.text = ""
  front_kind : ∀ token ∈ front, token.kind ≠ .eof

@[simp] theorem Progress.chars_token (progress : Progress) (kind : Kind) (word : List Char) :
    (progress.token kind word).chars = progress.trivia ++ word := by
  simp [Token.chars, Progress.token]

/-- The tokens cut from here on hold the trivia that is waiting and the rest of the text. -/
theorem charsOf_streamFrom {progress : Progress} {text : List Char} {tokens : List Token}
    (h : streamFrom progress text = .ok tokens) : charsOf tokens = progress.trivia ++ text := by
  fun_induction streamFrom progress text generalizing tokens with
  | case1 progress =>
      obtain rfl := Except.ok.inj h
      simp
  | case2 progress c rest blank tail htrivia hshorter ih =>
      have hcut : blank ++ tail = c :: rest := (Lexeme.trivia?_proper htrivia).1
      rw [ih h, Progress.skip, List.append_assoc, hcut]
  | case3 => exact absurd h (by simp)
  | case4 progress c rest htrivia kind word tail hscan hshorter hreserved ih =>
      cases hrest : streamFrom (progress.next word) tail with
      | error found => simp [hrest, Except.map] at h
      | ok others =>
          obtain rfl : progress.token kind word :: others = tokens := by
            simpa [hrest, Except.map] using h
          have hcut : (Lexeme.scan c rest).2.1 ++ (Lexeme.scan c rest).2.2 = c :: rest :=
            (Lexeme.scan_proper c rest).1
          rw [hscan] at hcut
          rw [charsOf_cons, ih hrest, Progress.chars_token, List.append_assoc, ← hcut]
          simp [Progress.next]

theorem closed_streamFrom {progress : Progress} {text : List Char} {tokens : List Token}
    (h : streamFrom progress text = .ok tokens) : ∃ front last, Closed tokens front last := by
  fun_induction streamFrom progress text generalizing tokens with
  | case1 progress =>
      obtain rfl := Except.ok.inj h
      exact ⟨[], progress.token .eof [], rfl, rfl, rfl, by simp⟩
  | case2 progress c rest blank tail htrivia hshorter ih => exact ih h
  | case3 => exact absurd h (by simp)
  | case4 progress c rest htrivia kind word tail hscan hshorter hreserved ih =>
      cases hrest : streamFrom (progress.next word) tail with
      | error found => simp [hrest, Except.map] at h
      | ok others =>
          obtain rfl : progress.token kind word :: others = tokens := by
            simpa [hrest, Except.map] using h
          obtain ⟨front, last, hclosed⟩ := ih hrest
          have hkind : kind ≠ .eof := by
            have hscanned := Lexeme.scan_kind_ne_eof c rest
            rwa [hscan] at hscanned
          refine ⟨progress.token kind word :: front, last, ?_, hclosed.last_kind,
            hclosed.last_text, ?_⟩
          · rw [hclosed.split, List.cons_append]
          · intro token htoken
            rcases List.mem_cons.mp htoken with rfl | htoken
            · exact hkind
            · exact hclosed.front_kind token htoken

/-- The tokens are numbered in order. -/
theorem index_streamFrom {progress : Progress} {text : List Char} {tokens : List Token}
    (h : streamFrom progress text = .ok tokens) {place : Nat} {token : Token}
    (htoken : tokens[place]? = some token) : token.index = progress.index + place := by
  fun_induction streamFrom progress text generalizing tokens place with
  | case1 progress =>
      obtain rfl := Except.ok.inj h
      cases place with
      | zero =>
          obtain rfl := Option.some.inj htoken
          rfl
      | succ place => simp at htoken
  | case2 progress c rest blank tail htrivia hshorter ih => exact ih h htoken
  | case3 => exact absurd h (by simp)
  | case4 progress c rest htrivia kind word tail hscan hshorter hreserved ih =>
      cases hrest : streamFrom (progress.next word) tail with
      | error found => simp [hrest, Except.map] at h
      | ok others =>
          obtain rfl : progress.token kind word :: others = tokens := by
            simpa [hrest, Except.map] using h
          cases place with
          | zero =>
              obtain rfl := Option.some.inj htoken
              rfl
          | succ place =>
              have hnext : (progress.next word).index = progress.index + 1 := rfl
              rw [ih hrest htoken, hnext]
              omega

/-- A token is the end of the text, or it has been cut off a text. -/
theorem scan_of_mem_streamFrom {progress : Progress} {text : List Char} {tokens : List Token}
    (h : streamFrom progress text = .ok tokens) {token : Token} (htoken : token ∈ tokens) :
    (token.kind = .eof ∧ token.text = "") ∨
      ∃ c rest tail, Lexeme.scan c rest = (token.kind, token.text.toList, tail) := by
  fun_induction streamFrom progress text generalizing tokens with
  | case1 progress =>
      obtain rfl := Except.ok.inj h
      obtain rfl := List.mem_singleton.mp htoken
      exact Or.inl ⟨rfl, rfl⟩
  | case2 progress c rest blank tail htrivia hshorter ih => exact ih h htoken
  | case3 => exact absurd h (by simp)
  | case4 progress c rest htrivia kind word tail hscan hshorter hreserved ih =>
      cases hrest : streamFrom (progress.next word) tail with
      | error found => simp [hrest, Except.map] at h
      | ok others =>
          obtain rfl : progress.token kind word :: others = tokens := by
            simpa [hrest, Except.map] using h
          rcases List.mem_cons.mp htoken with rfl | htoken
          · exact Or.inr ⟨c, rest, tail, by simpa [Progress.token] using hscan⟩
          · exact ih hrest htoken

/-- The tokens of a text, written out, are the text. -/
theorem textOf_stream {text : String} {tokens : List Token} (h : stream text = .ok tokens) :
    textOf tokens = text := by
  apply String.toList_inj.mp
  rw [toList_textOf, charsOf_streamFrom h]
  rfl

theorem closed_stream {text : String} {tokens : List Token} (h : stream text = .ok tokens) :
    ∃ front last, Closed tokens front last :=
  closed_streamFrom h

end Token

end WebIdl
