import WebIdl.Token.Lexeme

/-!
# The token stream of a text

`Token.stream` cuts a whole text into tokens.  Blanks and comments gather in front of the next
lexeme, and what is left of them at the end belongs to the closing `eof` token, so the trivia and
lexemes of the stream, read in order, are the text.  Only a reserved identifier stops it.

A token's line counts the newlines of the trivia before it; a newline inside a string is part of a
lexeme and is not counted.
-/

namespace WebIdl

/-- How far a text has been cut: where the next character stands and which trivia is waiting for
its lexeme. -/
structure Token.Progress where
  /-- The number of tokens so far. -/
  index : Nat := 0
  /-- The number of characters so far. -/
  offset : Nat := 0
  line : Nat := 1
  trivia : List Char := []
deriving DecidableEq, Repr

namespace Token

namespace Progress

/-- Passes over blanks or a comment. -/
def skip (progress : Progress) (blank : List Char) : Progress :=
  { progress with
    offset := progress.offset + blank.length
    line := progress.line + blank.count '\n'
    trivia := progress.trivia ++ blank }

/-- The token that the lexeme `word` makes here. -/
def token (progress : Progress) (kind : Kind) (word : List Char) : Token where
  kind := kind
  text := String.ofList word
  trivia := String.ofList progress.trivia
  line := progress.line
  index := progress.index
  offset := progress.offset

/-- Passes over the lexeme `word`. -/
def next (progress : Progress) (word : List Char) : Progress :=
  { progress with
    index := progress.index + 1
    offset := progress.offset + word.length
    trivia := [] }

end Progress

/-- A reserved identifier and the place where it was met. -/
structure Reserved where
  word : String
  progress : Progress
deriving DecidableEq, Repr

/-- Cuts `text` into tokens, going on from `progress`. -/
def streamFrom (progress : Progress) (text : List Char) : Except Reserved (List Token) :=
  match text with
  | [] => .ok [progress.token .eof []]
  | c :: rest =>
    match htrivia : Lexeme.trivia? (c :: rest) with
    | some (blank, tail) =>
      have hshorter : tail.length < (c :: rest).length :=
        (Lexeme.trivia?_proper htrivia).rest_lt
      streamFrom (progress.skip blank) tail
    | none =>
      match hscan : Lexeme.scan c rest with
      | (kind, word, tail) =>
        have hshorter : tail.length < (c :: rest).length := by
          simpa [hscan] using (Lexeme.scan_proper c rest).rest_lt
        if kind == .identifier && Keyword.reserved.contains (String.ofList word) then
          .error ⟨String.ofList word, progress⟩
        else
          (streamFrom (progress.next word) tail).map (progress.token kind word :: ·)
termination_by text.length
decreasing_by all_goals exact hshorter

/-- The tokens of a text, `eof` last. -/
def stream (text : String) : Except Reserved (List Token) :=
  streamFrom {} text.toList

end Token

end WebIdl
