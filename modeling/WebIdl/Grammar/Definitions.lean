import WebIdl.Grammar.Members

/-!
# Definitions

Interfaces, mixins, namespaces and dictionaries, which hold members; callbacks, enumerations,
typedefs and includes statements; and the text as a whole.
-/

namespace WebIdl.Grammar

open WebIdl.Parser

variable (nested : Production → Parser (Option Node))

/-! ## Definitions with members -/

/-- What a container is before its name is read. -/
structure Container where
  construct : Construct
  tag : String := construct.tag
  /-- The words that have been read. -/
  lead : List Part
  /-- May it name a definition to inherit from? -/
  inheritable : Bool := false
  isPartial : Bool := false
  /-- The members it takes, in the order in which they are tried. -/
  members : List Production

/-- Adds what a dialect has for this kind of container: its members come first, and its type tag, if
it has one that is not empty, replaces the usual one. -/
def Container.extend (container : Container) (extension : ContainerExtension) : Container :=
  { container with
    members := extension.members ++ container.members
    tag := match extension.tag with
      | none | some "" => container.tag
      | some tag => tag }

/-- The members of a container from here on, and the brace that closes it. -/
def membersFrom (members : List Production) : Nat → Parser (List Node × Token)
  | 0 => exhausted
  | fuel + 1 => do
    match ← inline? ["\x7d"] with
    | some closing => return ([], closing)
    | none =>
      let attributes ← extendedAttributes nested
      let member ← expect (firstMatch nested members) .unknownMember
      let (others, closing) ← membersFrom members fuel
      return (member.withAttributes attributes :: others, closing)

/-- The colon and name of the definition that a container inherits from. -/
def inheritance : Parser (List Part) := do
  let some colon ← inline? [":"] | return []
  let parent ← expect (ofKind? [.identifier]) .noInheritedName
  return [.token .colon colon, .token .inheritance parent]

/-- The name of a container.  A `mixin` in its place shows that the text is of another shape. -/
def containerName (tag : String) : Parser Token := do
  match ← ofKind? [.identifier] with
  | some name => return name
  | none => fail (.noContainerName tag (← nextIs "mixin"))

/-- The rest of a container, behind its words. -/
def containerBody (container : Container) : Parser Node := do
  let name ← containerName container.tag
  enter ⟨container.tag, unescape name.text, container.isPartial⟩
  let inherited ← if container.inheritable then inheritance else pure []
  let opening ← expect (inline? ["\x7b"]) (.bodyless container.tag)
  let (members, closing) ← membersFrom nested container.members ((← size) + 1)
  let termination ← expect (inline? [";"]) (.unterminatedContainer container.tag)
  return .mk { construct := container.construct, tag := container.tag }
    (bare :: container.lead ++ .token .name name :: inherited ++ .token .opening opening ::
      Part.ofNodes .member members ++ [.token .closing closing, .token .termination termination])

/-- The members of an interface. -/
def interfaceMembers : List Production :=
  [.constant, .constructor, .staticMember, .stringifier, .iterableLike, .attribute false false,
    .operation false]

/-- An interface or a mixin, perhaps behind the word `partial`. -/
def interface (partiality : Option Token) : Parser (Option Node) := do
  let some base ← inline? ["interface"] | return none
  let lead := Part.ofToken? .partiality partiality ++ [.token .base base]
  match ← inline? ["mixin"] with
  | some mixin =>
    return some (← containerBody nested {
      construct := .interfaceMixin
      lead := lead ++ [.token .mixin mixin]
      isPartial := partiality.isSome
      members := [.constant, .stringifier, .attribute true false, .operation true] })
  | none =>
    let container : Container := {
      construct := .interface
      lead
      inheritable := partiality.isNone
      isPartial := partiality.isSome
      members := interfaceMembers }
    return some (← containerBody nested (container.extend (← extensions).interface))

/-- A namespace, perhaps behind the word `partial`. -/
def namespaceDef (partiality : Option Token) : Parser (Option Node) := do
  let some base ← inline? ["namespace"] | return none
  let container : Container := {
    construct := .namespaceDef
    lead := Part.ofToken? .partiality partiality ++ [.token .base base]
    isPartial := partiality.isSome
    members := [.attribute true true, .constant, .operation true] }
  return some (← containerBody nested (container.extend (← extensions).namespaceDef))

/-- A dictionary, perhaps behind the word `partial`. -/
def dictionary (partiality : Option Token) : Parser (Option Node) := do
  let some base ← inline? ["dictionary"] | return none
  let container : Container := {
    construct := .dictionary
    lead := Part.ofToken? .partiality partiality ++ [.token .base base]
    inheritable := partiality.isNone
    isPartial := partiality.isSome
    members := [.field] }
  return some (← containerBody nested (container.extend (← extensions).dictionary))

/-- A partial definition. -/
def partialDefinition : Parser (Option Node) := do
  let some partiality ← inline? ["partial"] | return none
  return some (← expect (either (dictionary nested (some partiality))
    (either (interface nested (some partiality)) (namespaceDef nested (some partiality))))
    .nothingPartial)

/-! ## Callbacks -/

/-- A callback function, behind its keyword. -/
def callbackFunction (base : Token) : Parser Node := do
  let name ← expect (ofKind? [.identifier]) .noCallbackName
  enter ⟨Construct.callbackFunction.tag, unescape name.text, false⟩
  let assign ← expect (inline? ["="]) .noCallbackAssignment
  let type ← expect (returnType nested none) .noCallbackType
  let opening ← expect (inline? ["("]) .noCallbackArguments
  let arguments ← argumentList nested
  let closing ← expect (inline? [")"]) .unclosedCallback
  let termination ← expect (inline? [";"]) .unterminatedCallback
  return .mk { construct := .callbackFunction } (bare :: .token .base base :: .token .name name ::
    .token .assign assign :: .node .type type :: .token .opening opening ::
    Part.ofNodes .argument arguments ++ [.token .closing closing, .token .termination termination])

/-- A callback function or a callback interface. -/
def callback : Parser (Option Node) := do
  let some word ← inline? ["callback"] | return none
  match ← inline? ["interface"] with
  | some base =>
    let container : Container := {
      construct := .callbackInterface
      lead := [.token .callback word, .token .base base]
      members := [.constant, .operation true] }
    return some (← containerBody nested (container.extend (← extensions).callbackInterface))
  | none => return some (← callbackFunction nested word)

/-! ## Other definitions -/

/-- A value of an enumeration. -/
def enumValue : Parser (Option Node) := do
  let some value ← ofKind? [.string] | return none
  return some (.mk { construct := .enumValue } [.token .value value])

/-- An enumeration, whose last value may have a comma behind it. -/
def enumeration : Parser (Option Node) := do
  let some base ← inline? ["enum"] | return none
  let name ← expect (ofKind? [.identifier]) .noEnumName
  enter ⟨Construct.enumeration.tag, unescape name.text, false⟩
  let opening ← expect (inline? ["\x7b"]) .bodylessEnum
  let values ← commaList "enumeration" true enumValue
  refuse (← nextIsKind .string) .noEnumComma
  let closing ← expect (inline? ["\x7d"]) .unexpectedEnumValue
  refuse values.isEmpty .emptyEnum
  let termination ← expect (inline? [";"]) .unterminatedEnum
  return some (.mk { construct := .enumeration } (bare :: .token .base base :: .token .name name ::
    .token .opening opening :: Part.ofNodes .enumValue values ++ [.token .closing closing,
      .token .termination termination]))

/-- The rest of a typedef, behind its type. -/
def typedefBody (construct : Construct) (base : Token) (type : Node) : Parser Node := do
  let name ← expect (ofKind? [.identifier]) .noTypedefName
  enter ⟨construct.tag, unescape name.text, false⟩
  let termination ← expect (inline? [";"]) .unterminatedTypedef
  return .mk { construct } [bare, .token .base base, .node .type type, .token .name name,
    .token .termination termination]

/-- The position of the type of a typedef. -/
def typedefPlace : String := "typedef-type"

/-- A typedef. -/
def typedef : Parser (Option Node) := do
  let some base ← inline? ["typedef"] | return none
  let type ← expect (attributedType nested (some typedefPlace)) .noTypedefType
  return some (← typedefBody .typedef base type)

/-- An includes statement. -/
def includes : Parser (Option Node) :=
  rewinding do
    let some target ← ofKind? [.identifier] | return none
    let some word ← inline? ["includes"] | return none
    let mixin ← expect (ofKind? [.identifier]) .incompleteIncludes
    let termination ← expect (inline? [";"]) .unterminatedIncludes
    return some (.mk { construct := .includes } [bare, .token .target target,
      .token .includes word, .token .mixin mixin, .token .termination termination])

/-! ## Whole texts -/

/-- The definitions of the standard grammar, in the order in which they are tried. -/
def standardDefinitions : List Production :=
  [.callback, .interface, .partialDefinition, .dictionary, .enumeration, .typedef, .includes,
    .namespaceDef]

/-- The definitions from here on. -/
def definitionsFrom (productions : List Production) : Nat → Parser (List Node)
  | 0 => exhausted
  | fuel + 1 => do
    let attributes ← extendedAttributes nested
    match ← firstMatch nested productions with
    | some definition =>
      let others ← definitionsFrom productions fuel
      return definition.withAttributes attributes :: others
    | none =>
      refuse (!attributes.items.isEmpty) .strayAttributes
      return []

/-- All the definitions of a text up to its end, those of `productions` tried before the standard
ones.  The last item holds the end of the text. -/
def definitions (productions : List Production) : Parser (List Node) := do
  let found ← definitionsFrom nested (productions ++ standardDefinitions) ((← size) + 1)
  let closing ← expect (ofKind? [.eof]) .unrecognised
  return found ++ [.mk { construct := .eof } [.token .eof closing]]

end WebIdl.Grammar
