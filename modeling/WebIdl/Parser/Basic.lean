import WebIdl.Grammar.Production
import WebIdl.Parser.Error
import WebIdl.Tree.Edit
import WebIdl.Tweak

/-!
# Parsers over a token stream

A parser moves a cursor over the tokens of a source.  It ends in one of three ways: it finds what it
looks for; it answers `none`, which leaves the choice to other parsers; or it fails, which ends the
parse.  The cursor is kept also on failure, since the definition being read and the trace of what
happened remain of interest then.

Reading at a place past the last token fails with `Failure.pastEnd`, and reading a token that a
construct does not have with `Failure.missing`.  Loops and recursion are bounded by the number of tokens;
a parser that goes round without reading fails with `Failure.exhausted`.
-/

namespace WebIdl

/-- What happened during a parse, for those who want to follow it. -/
inductive Event where
  /-- A production matched, starting at the given token. -/
  | matched (production : Production) (tag : String) (start : Nat)
  /-- An interface turned out to be of another shape and was left to other productions. -/
  | deferred (start : Nat) (reason : String)
  /-- Tweaks were applied to the text of a source. -/
  | tweaked (source : Option String) (tweaks : List Tweak)
  /-- A source was parsed. -/
  | parsed (source : Option String) (definitions : Nat) (dialect : String)
deriving DecidableEq, Repr

/-- Why a parse ended without a result. -/
inductive Failure where
  | syntaxError (error : SyntaxError)
  /-- A token was wanted after the last one. -/
  | pastEnd
  /-- A token was wanted of a construct that does not have it. -/
  | missing (token : Missing)
  /-- The bound on recursion was reached. -/
  | exhausted
deriving DecidableEq, Repr

/-- What a parser may look at and does not change. -/
structure Scope where
  source : Source
  extensions : Extensions := {}

/-- What a parser changes. -/
structure Cursor where
  /-- The index of the next token. -/
  position : Nat := 0
  /-- The definition being read. -/
  current : Option Heading := none
  /-- What happened so far, the latest first. -/
  trace : List Event := []
deriving DecidableEq, Repr

/-- The end of a parse. -/
inductive Outcome (α : Type) where
  | ok (value : α) (cursor : Cursor)
  | error (failure : Failure) (cursor : Cursor)

/-- A parser that finds an `α`. -/
def Parser (α : Type) : Type :=
  Scope → Cursor → Outcome α

namespace Parser

instance : Monad Parser where
  pure value := fun _ cursor => .ok value cursor
  bind parser next := fun scope cursor =>
    match parser scope cursor with
    | .ok value moved => next value scope moved
    | .error failure moved => .error failure moved

/-- Two parsers in a row succeed exactly if the first succeeds and the second does from there. -/
theorem bind_eq_ok {α β : Type} {parser : Parser α} {next : α → Parser β} {scope : Scope}
    {cursor : Cursor} {value : β} {moved : Cursor} :
    (parser >>= next) scope cursor = .ok value moved ↔
      ∃ first middle, parser scope cursor = .ok first middle ∧
        next first scope middle = .ok value moved := by
  simp only [bind]
  cases parser scope cursor with
  | ok first middle =>
    constructor
    · exact fun h => ⟨first, middle, rfl, h⟩
    · rintro ⟨_, _, heq, h⟩
      cases heq
      exact h
  | error failure middle =>
    constructor
    · exact fun h => nomatch h
    · rintro ⟨_, _, heq, _⟩
      cases heq

@[simp] theorem pure_eq_ok {α : Type} {value found : α} {scope : Scope} {cursor moved : Cursor} :
    (pure value : Parser α) scope cursor = .ok found moved ↔ value = found ∧ cursor = moved :=
  ⟨fun h => by cases h; exact ⟨rfl, rfl⟩, fun ⟨hvalue, hcursor⟩ => hvalue ▸ hcursor ▸ rfl⟩

/-! ## Reading tokens -/

/-- The number of tokens of the source. -/
def size : Parser Nat := fun scope cursor =>
  .ok scope.source.tokens.size cursor

/-- The extensions in force. -/
def extensions : Parser Extensions := fun scope cursor =>
  .ok scope.extensions cursor

/-- The index of the next token. -/
def position : Parser Nat := fun _ cursor =>
  .ok cursor.position cursor

/-- Moves the cursor to the given token. -/
def moveTo (position : Nat) : Parser Unit := fun _ cursor =>
  .ok () { cursor with position }

/-- The next token, which stays unread. -/
def peek : Parser Token := fun scope cursor =>
  match scope.source.tokens[cursor.position]? with
  | some token => .ok token cursor
  | none => .error .pastEnd cursor

/-- Reads the next token if it satisfies `test`. -/
def takeIf (test : Token → Bool) : Parser (Option Token) := fun scope cursor =>
  match scope.source.tokens[cursor.position]? with
  | some token =>
    if test token then
      .ok (some token) { cursor with position := cursor.position + 1 }
    else
      .ok none cursor
  | none => .error .pastEnd cursor

/-- Reads a keyword or punctuation mark that is one of `texts`. -/
def inline? (texts : List String) : Parser (Option Token) :=
  takeIf fun token => token.kind == .inline && texts.contains token.text

/-- Reads a token of one of the given kinds. -/
def ofKind? (kinds : List Token.Kind) : Parser (Option Token) :=
  takeIf fun token => kinds.contains token.kind

/-- Reads an identifier with the given spelling. -/
def identifier? (text : String) : Parser (Option Token) :=
  takeIf fun token => token.kind == .identifier && token.text == text

/-- Is the next token the given keyword or punctuation mark? -/
def nextIs (text : String) : Parser Bool := do
  return (← peek).isInline text

/-- Is the next token of the given kind? -/
def nextIsKind (kind : Token.Kind) : Parser Bool := do
  return (← peek).kind == kind

/-! ## Failing -/

/-- The bound on recursion was reached. -/
def exhausted {α : Type} : Parser α := fun _ cursor =>
  .error .exhausted cursor

/-- Ends the parse with a problem at the next token.  At the end of the text the excerpt shows the
last token that was read. -/
def fail {α : Type} (problem : Problem) : Parser α := fun scope cursor =>
  match scope.source.tokens[cursor.position]? with
  | none => .error .pastEnd cursor
  | some next =>
    let shown :=
      if next.kind == .eof && cursor.position > 0 then
        scope.source.tokens[cursor.position - 1]?.getD next
      else
        next
    .error (.syntaxError {
      problem
      sourceName := scope.source.name
      line := shown.line
      position := cursor.position
      excerpt := Excerpt.around scope.source.text shown.offset
      heading := cursor.current }) cursor

/-- What a reading of a construct says, if the tokens that it reads are there. -/
def present {α : Type} (reading : Except Missing α) : Parser α := fun _ cursor =>
  match reading with
  | .ok value => .ok value cursor
  | .error token => .error (.missing token) cursor

/-- Insists on finding something. -/
def expect {α : Type} (parser : Parser (Option α)) (problem : Problem) : Parser α := do
  match ← parser with
  | some value => return value
  | none => fail problem

/-- Ends the parse if `condition` holds. -/
def refuse (condition : Bool) (problem : Problem) : Parser Unit :=
  if condition then fail problem else pure ()

/-! ## Choosing -/

/-- Tries `parser` only if `condition` holds. -/
def when? {α : Type} (condition : Bool) (parser : Parser (Option α)) : Parser (Option α) :=
  if condition then parser else pure none

/-- Tries `second` where `first` finds nothing. -/
def either {α : Type} (first second : Parser (Option α)) : Parser (Option α) := do
  match ← first with
  | some value => return some value
  | none => second

/-- Puts the cursor back where it was if `parser` finds nothing. -/
def rewinding {α : Type} (parser : Parser (Option α)) : Parser (Option α) := do
  let start ← position
  match ← parser with
  | some value => return some value
  | none =>
    moveTo start
    return none

/-- Notes the definition being read. -/
def enter (heading : Heading) : Parser Unit := fun _ cursor =>
  .ok () { cursor with current := some heading }

/-- Notes an event. -/
def note (event : Event) : Parser Unit := fun _ cursor =>
  .ok () { cursor with trace := event :: cursor.trace }

/-- The first production of a list that matches.  The cursor is put back before the next one is
tried, and a match is noted. -/
def firstMatch (parse : Production → Parser (Option Node)) :
    List Production → Parser (Option Node)
  | [] => pure none
  | production :: rest => do
    let start ← position
    match ← parse production with
    | some node =>
      note (.matched production node.tag start)
      return some node
    | none =>
      moveTo start
      firstMatch parse rest

/-- Lets a syntax error count as finding nothing if its reason is one of `reasons`: the cursor goes
to `start`, and the deferral is noted. -/
def deferring (reasons : List String) (start : Nat) (parser : Parser Node) :
    Parser (Option Node) := fun scope cursor =>
  match parser scope cursor with
  | .ok node moved => .ok (some node) moved
  | .error (.syntaxError error) moved =>
    match error.problem.reason? with
    | some reason =>
      if reasons.contains reason then
        .ok none { moved with
          position := start
          trace := .deferred start reason :: moved.trace }
      else
        .error (.syntaxError error) moved
    | none => .error (.syntaxError error) moved
  | .error failure moved => .error failure moved

/-! ## Lists -/

/-- The items of a list from here on; `afterComma` says whether a comma has just been read.  Each
item holds the comma behind it. -/
def itemsFrom (items : String) (mayDangle : Bool) (item : Parser (Option Node)) :
    Nat → Bool → Parser (List Node)
  | 0, _ => exhausted
  | fuel + 1, afterComma => do
    match ← item with
    | none =>
      refuse (afterComma && !mayDangle) (.trailingComma items)
      return []
    | some node =>
      match ← inline? [","] with
      | none => return [node]
      | some comma =>
        let others ← itemsFrom items mayDangle item fuel true
        return node.withSeparator comma :: others

/-- A list of items with commas between them, which may be empty.  A comma behind the last item is
a problem unless the list `mayDangle`; `items` names the list then. -/
def commaList (items : String) (mayDangle : Bool) (item : Parser (Option Node)) :
    Parser (List Node) := do
  itemsFrom items mayDangle item ((← size) + 1) false

end Parser

end WebIdl
