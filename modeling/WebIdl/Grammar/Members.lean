import WebIdl.Grammar.Types

/-!
# Arguments and members

What may stand between the parentheses of an operation and between the braces of a definition.
-/

namespace WebIdl.Grammar

open WebIdl.Parser

variable (nested : Production → Parser (Option Node))

/-! ## Defaults and arguments -/

/-- The value of a constant. -/
def constantValue : Parser (Option Token) :=
  either (inline? ["true", "false", "Infinity", "-Infinity", "NaN"]) (ofKind? [.decimal, .integer])

/-- The bracket that closes an empty default value, if it opens with one. -/
def defaultClosing (opening : Token) : Parser (Option Token) :=
  if opening.text == "[" then
    return some (← expect (inline? ["]"]) .nonemptyDefaultSequence)
  else if opening.text == "\x7b" then
    return some (← expect (inline? ["\x7d"]) .nonemptyDefaultDictionary)
  else
    pure none

/-- A default value behind an equals sign. -/
def default : Parser (Option Node) := do
  let some assign ← inline? ["="] | return none
  let value ← expect (either constantValue (either (ofKind? [.string])
    (inline? ["null", "[", "\x7b"]))) .noDefaultValue
  let closing ← defaultClosing value
  return some (.mk { construct := .default } (.token .assign assign :: .token .expression value ::
    Part.ofToken? .expression closing))

/-- An argument.  An optional one may have a default value, any other may be variadic. -/
def argument : Parser (Option Node) :=
  rewinding do
    let attributes ← extendedAttributes nested
    let optional ← inline? ["optional"]
    let some type ← attributedType nested (some "argument-type") | return none
    let variadic ← when? optional.isNone (inline? ["..."])
    let some name ← either (ofKind? [.identifier]) (inline? Keyword.argumentNames) | return none
    let value ← when? optional.isSome default
    return some (.mk { construct := .argument } (.node .attributes attributes ::
      Part.ofToken? .optional optional ++ .node .type type :: Part.ofToken? .variadic variadic ++
      .token .name name :: Part.ofNode? .default value))

/-! ## Attributes and operations -/

/-- An attribute behind the word `special`, if that has been read.  Otherwise the word may be
`inherit`, unless `noInherit`. -/
def attributeMember (special : Option Token) (noInherit mustBeReadonly : Bool) :
    Parser (Option Node) :=
  rewinding do
    let inherit ← when? (special.isNone && !noInherit) (inline? ["inherit"])
    let special := special <|> inherit
    let isInherited := special.any (·.text == "inherit")
    refuse (isInherited && (← nextIs "readonly")) .readonlyInherited
    let readonly ← inline? ["readonly"]
    refuse (mustBeReadonly && readonly.isNone && (← nextIs "attribute")) .writableAttribute
    let some base ← inline? ["attribute"] | return none
    let type ← expect (attributedType nested (some "attribute-type")) .noAttributeType
    let name ← expect (either (ofKind? [.identifier]) (inline? ["async", "required"]))
      .noAttributeName
    let termination ← expect (inline? [";"]) .unterminatedAttribute
    return some (.mk { construct := .attribute } (bare :: Part.ofToken? .special special ++
      Part.ofToken? .readonly readonly ++ [.token .base base, .node .type type, .token .name name,
        .token .termination termination]))

/-- The rest of an operation, behind its words. -/
def operationBody (construct : Construct) (special : Option Token) : Parser Node := do
  let type ← expect (returnType nested none) .noReturnType
  let name ← either (ofKind? [.identifier]) (inline? ["includes"])
  let opening ← expect (inline? ["("]) .invalidOperation
  let arguments ← argumentList nested
  let closing ← expect (inline? [")"]) .unclosedOperation
  let termination ← expect (inline? [";"]) .unterminatedOperation
  return .mk { construct } (bare :: Part.ofToken? .special special ++ .node .type type ::
    Part.ofToken? .name name ++ .token .opening opening :: Part.ofNodes .argument arguments ++
    [.token .closing closing, .token .termination termination])

/-- An operation behind the word `special`.  After `stringifier` there may be nothing but the
semicolon. -/
def specialOperation (construct : Construct) (special : Token) : Parser Node := do
  match ← when? (special.text == "stringifier") (inline? [";"]) with
  | some termination =>
    return .mk { construct } [bare, .token .special special, .token .termination termination]
  | none => operationBody nested construct (some special)

/-- An operation, which may be a getter, setter or deleter unless it is regular. -/
def operation (isRegular : Bool) : Parser Node := do
  let special ← when? (!isRegular) (inline? ["getter", "setter", "deleter"])
  operationBody nested .operation special

/-- An attribute or operation behind the given word. -/
def specialMember (word : String) : Parser (Option Node) := do
  let some special ← inline? [word] | return none
  match ← attributeMember nested (some special) false false with
  | some found => return some found
  | none => return some (← specialOperation nested .operation special)

/-- A static attribute or operation. -/
def staticMember : Parser (Option Node) :=
  specialMember nested "static"

/-- A stringifier. -/
def stringifier : Parser (Option Node) :=
  specialMember nested "stringifier"

/-! ## Other members -/

/-- A constant. -/
def constant : Parser (Option Node) := do
  let some base ← inline? ["const"] | return none
  let type ← expect (either primitiveType (oneWord (ofKind? [.identifier]))) .noConstantType
  refuse (← nextIs "?") .nullableConstant
  let name ← expect (ofKind? [.identifier]) .noConstantName
  let assign ← expect (inline? ["="]) .noConstantAssignment
  let value ← expect constantValue .noConstantValue
  let termination ← expect (inline? [";"]) .unterminatedConstant
  return some (.mk { construct := .constant } [bare, .token .base base,
    .node .type (type.withPlace (some "const-type")), .token .name name, .token .assign assign,
    .token .value value, .token .termination termination])

/-- A constructor. -/
def constructor : Parser (Option Node) := do
  let some base ← inline? ["constructor"] | return none
  let opening ← expect (inline? ["("]) .noConstructorArguments
  let arguments ← argumentList nested
  let closing ← expect (inline? [")"]) .unclosedConstructor
  let termination ← expect (inline? [";"]) .unterminatedConstructor
  return some (.mk { construct := .constructor } (bare :: .token .base base ::
    .token .opening opening :: Part.ofNodes .argument arguments ++ [.token .closing closing,
      .token .termination termination]))

/-- The words that can follow those read so far in a declaration of a collection: only a map or a
set is read-only, and only an iterable is asynchronous. -/
def iterableWords (isReadonly isAsync : Bool) : List String :=
  if isReadonly then ["maplike", "setlike"]
  else if isAsync then ["iterable"]
  else ["iterable", "maplike", "setlike"]

/-- The types that a collection holds: two for a map, one for a set, one or two otherwise. -/
def typeArguments (kind : String) : Parser (List Node) := do
  let first ← expect (attributedType nested none) (.noTypeArgument kind)
  match ← when? (kind != "setlike") (inline? [","]) with
  | some comma =>
    let second ← expect (attributedType nested none) (.noSecondTypeArgument kind)
    return [first.withSeparator comma, second]
  | none =>
    refuse (kind == "maplike") (.noSecondTypeArgument kind)
    return [first]

/-- The arguments of an asynchronous iterable, with their parentheses. -/
def iterableArguments (allowed : Bool) : Parser (List Part) := do
  let isOpen ← nextIs "("
  refuse (isOpen && !allowed) .unexpectedIterableArguments
  match ← inline? ["("] with
  | none => return []
  | some opening =>
    let arguments ← argumentList nested
    let closing ← expect (inline? [")"]) .unclosedIterableArguments
    return .token .argumentsOpening opening :: Part.ofNodes .argument arguments ++
      [.token .argumentsClosing closing]

/-- An iterable, map or set declaration. -/
def iterableLike : Parser (Option Node) :=
  rewinding do
    let readonly ← inline? ["readonly"]
    let async ← when? readonly.isNone (inline? ["async"])
    let some base ← inline? (iterableWords readonly.isSome async.isSome) | return none
    let kind := base.text
    let opening ← expect (inline? ["<"]) (.noIterableOpening kind)
    let types ← typeArguments nested kind
    let closing ← expect (inline? [">"]) (.unclosedIterable kind)
    let arguments ← iterableArguments nested (async.isSome && kind == "iterable")
    let termination ← expect (inline? [";"]) (.unterminatedIterable kind)
    return some (.mk { construct := .iterableLike } (bare :: Part.ofToken? .readonly readonly ++
      Part.ofToken? .async async ++ .token .base base :: .token .opening opening ::
      Part.ofNodes .typeArgument types ++ .token .closing closing :: arguments ++
      [.token .termination termination]))

/-- The rest of a dictionary member, behind its type. -/
def fieldBody (construct : Construct) (required : Option Token) (type : Node) : Parser Node := do
  let name ← expect (ofKind? [.identifier]) .noFieldName
  let value ← default
  refuse (required.isSome && value.isSome) .requiredWithDefault
  let termination ← expect (inline? [";"]) .unterminatedField
  return .mk { construct } (bare :: Part.ofToken? .required required ++ .node .type type ::
    .token .name name :: Part.ofNode? .default value ++ [.token .termination termination])

/-- The position of the types of dictionary members. -/
def fieldPlace : String := "dictionary-type"

/-- A dictionary member. -/
def field : Parser Node := do
  let required ← inline? ["required"]
  let type ← expect (attributedType nested (some fieldPlace)) .noFieldType
  fieldBody .field required type

end WebIdl.Grammar
