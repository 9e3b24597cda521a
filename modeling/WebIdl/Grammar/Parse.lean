import WebIdl.Grammar.Extended

/-!
# Parsing productions

This module ties the recursion of the grammar.  The depth grows by one each time the grammar comes
round to a production again, and at least every second time a token has been read in between; so a
depth of a little more than twice the number of tokens is never reached by a text.

The bound on the depth is what makes the recursion end, and nothing more.  A host on which the program
runs may have a limit of its own on how deep calls nest, and stop the program where it is reached; that
limit is left out here and comes in with `Dialect.parseWithin`.
-/

namespace WebIdl

/-- The parser of a production, with `nested` for the productions inside. -/
def Production.step (nested : Production → Parser (Option Node)) :
    Production → Parser (Option Node)
  | .extendedAttribute => Grammar.extendedAttribute nested
  | .extendedAttributes => some <$> Grammar.extendedAttributes nested
  | .default => Grammar.default
  | .argument => Grammar.argument nested
  | .genericType place => Grammar.genericType nested place
  | .integerType => Grammar.integerType
  | .decimalType => Grammar.decimalType
  | .primitiveType => Grammar.primitiveType
  | .singleType place => Grammar.singleType nested place
  | .unionType place => Grammar.unionType nested place
  | .type place => Grammar.type nested place
  | .attributedType place => Grammar.attributedType nested place
  | .returnType place => Grammar.returnType nested place
  | .attribute noInherit mustBeReadonly =>
    Grammar.attributeMember nested none noInherit mustBeReadonly
  | .operation isRegular => some <$> Grammar.operation nested isRegular
  | .constant => Grammar.constant
  | .constructor => Grammar.constructor nested
  | .staticMember => Grammar.staticMember nested
  | .stringifier => Grammar.stringifier nested
  | .iterableLike => Grammar.iterableLike nested
  | .field => some <$> Grammar.field nested
  | .dictionary => Grammar.dictionary nested none
  | .namespaceDef => Grammar.namespaceDef nested none
  | .enumeration => Grammar.enumeration
  | .typedef => Grammar.typedef nested
  | .includes => Grammar.includes
  | .callback => Grammar.callback nested
  | .interface => Grammar.interface nested none
  | .partialDefinition => Grammar.partialDefinition nested
  | .bodylessInterface => Grammar.bodylessInterface
  | .callbackConstructor => Grammar.callbackConstructor nested
  | .legacyCaller => Grammar.legacyCaller nested
  | .legacyCallerInterface => Grammar.legacyCallerInterface nested
  | .utf8StringRecord => Grammar.utf8StringRecord nested
  | .utf8StringField => Grammar.utf8StringField nested
  | .utf8StringTypedef => Grammar.utf8StringTypedef nested

/-- The parser of a production, with a bound on the depth of the recursion.  With `depthFor` as its
bound it is the parser on a host that lets calls nest as deep as they like. -/
def Production.parseTo : Nat → Production → Parser (Option Node)
  | 0, _ => Parser.exhausted
  | depth + 1, production => production.step (parseTo depth)

namespace Parser

/-- A depth that parsing a text never reaches.  It goes by the grammar alone: that a host may not let
calls nest so deep is left out. -/
def depthFor (tokens : Nat) : Nat :=
  2 * tokens + 4

/-- Runs a parser that is given the parser of productions.  How deep these may nest goes by the number
of tokens. -/
def recursivelyTo {α : Type} (depth : Nat → Nat)
    (parser : (Production → Parser (Option Node)) → Parser α) : Parser α := do
  parser (Production.parseTo (depth (← size)))

/-- Runs a parser that is given the parser of productions. -/
def recursively {α : Type} (parser : (Production → Parser (Option Node)) → Parser α) :
    Parser α :=
  recursivelyTo depthFor parser

end Parser

/-- The parser of a production. -/
def Production.parse (production : Production) : Parser (Option Node) :=
  Parser.recursively fun nested => nested production

end WebIdl
