/-!
# Tokens

A token is a lexeme together with the blanks and comments in front of it, so that a stream of
tokens holds every character of the text it was read from.
-/

namespace WebIdl

/-- The lexical classes.  Keywords and punctuation are `inline`; `eof` closes every stream. -/
inductive Token.Kind where
  | identifier | integer | decimal | string | inline | other | eof
deriving DecidableEq, Repr, Inhabited

/-- The name of a lexical class, as messages spell it. -/
def Token.Kind.word : Token.Kind → String
  | .identifier => "identifier"
  | .integer => "integer"
  | .decimal => "decimal"
  | .string => "string"
  | .inline => "inline"
  | .other => "other"
  | .eof => "eof"

/-- A lexeme and where it stands. -/
structure Token where
  kind : Token.Kind
  /-- The lexeme, exactly as matched. -/
  text : String
  /-- The blanks and comments between the previous lexeme and this one. -/
  trivia : String := ""
  /-- The line of the lexeme, counted from one. -/
  line : Nat := 1
  /-- The place of the token in its stream. -/
  index : Nat := 0
  /-- The number of characters in front of the lexeme. -/
  offset : Nat := 0
deriving DecidableEq, Repr, Inhabited

/-- An identifier may be escaped by a leading underscore, which is no part of the name. -/
def unescape (name : String) : String :=
  match name.toList with
  | '_' :: rest => String.ofList rest
  | _ => name

namespace Token

/-- What a token means: an identifier loses its escape, any other lexeme stands for itself. -/
def value (token : Token) : String :=
  match token.kind with
  | .identifier => unescape token.text
  | _ => token.text

/-- Everything that a token contributes to its text. -/
def full (token : Token) : String :=
  token.trivia ++ token.text

/-- Is this the given keyword or punctuation? -/
def isInline (token : Token) (text : String) : Bool :=
  token.kind == .inline && token.text == text

end Token

end WebIdl
