import WebIdl.Grammar.Attributes
import WebIdl.Tree.View

/-!
# Types

Primitive types, names, the generics `FrozenArray`, `ObservableArray`, `Promise`, `sequence` and
`record`, and unions.  A type may be followed by one question mark, except where the grammar says
that it cannot be null.
-/

namespace WebIdl.Grammar

open WebIdl.Parser

variable (nested : Production → Parser (Option Node))

/-- The attributes that a construct starts with until it is given its own. -/
def bare : Part :=
  .node .attributes Node.noAttributes

/-- A type made of the given parts. -/
def typeNode (place : Option String) (parts : List Part) : Node :=
  .mk { construct := .type, place } (bare :: parts)

/-- Reads the question mark behind a type, and refuses a second one. -/
def nullableMark : Parser (Option Token) := do
  let mark ← inline? ["?"]
  refuse (← nextIs "?") .doubleNullable
  return mark

/-- Adds the question mark behind a type. -/
def withNullable (mark : Option Token) : Node → Node
  | .mk label parts => .mk label (parts ++ Part.ofToken? .nullable mark)

/-! ## Simple types -/

/-- An integer type. -/
def integerType : Parser (Option Node) := do
  let sign ← inline? ["unsigned"]
  match ← inline? ["short", "long"] with
  | some base =>
    let doubling ← when? (base.text == "long") (inline? ["long"])
    return some (typeNode none (Part.ofToken? .sign sign ++ .token .base base ::
      Part.ofToken? .doubling doubling))
  | none =>
    refuse sign.isSome .incompleteInteger
    return none

/-- A floating-point type. -/
def decimalType : Parser (Option Node) := do
  let sign ← inline? ["unrestricted"]
  match ← inline? ["float", "double"] with
  | some base => return some (typeNode none (Part.ofToken? .sign sign ++ [.token .base base]))
  | none =>
    refuse sign.isSome .incompleteFloat
    return none

/-- A type that is one keyword or name. -/
def oneWord (word : Parser (Option Token)) : Parser (Option Node) := do
  let some base ← word | return none
  return some (typeNode none [.token .base base])

/-- A primitive type. -/
def primitiveType : Parser (Option Node) :=
  either integerType (either decimalType
    (oneWord (inline? ["bigint", "boolean", "byte", "octet", "undefined"])))

/-- A type that goes by its name, which takes no parameters. -/
def namedType : Parser (Option Node) := do
  let word := either (ofKind? [.identifier]) (inline? (Keyword.stringTypes ++ Keyword.typeNames))
  let some base ← word | return none
  refuse (← nextIs "<") (.unknownGeneric base.value)
  return some (typeNode none [.token .base base])

/-! ## Generic types -/

/-- The types between the brackets of a generic. -/
def genericArguments (place : Option String) (generic : String) : Parser (List Node) := do
  match generic with
  | "Promise" =>
    refuse (← nextIs "[") .attributedPromise
    return [← expect (nested (.returnType place)) .noPromiseSubtype]
  | "record" =>
    refuse (← nextIs "[") .attributedRecordKey
    let key ← expect (inline? Keyword.stringTypes) (.recordKey Keyword.stringTypes)
    let comma ← expect (inline? [","]) .noRecordComma
    let value ← expect (nested (.attributedType place)) .noRecordValue
    return [(typeNode place [.token .base key]).withSeparator comma, value]
  | _ => return [← expect (nested (.attributedType place)) (.noSubtype generic)]

/-- A generic type, without its question mark. -/
def genericType (place : Option String) : Parser (Option Node) := do
  let some base ← inline? ["FrozenArray", "ObservableArray", "Promise", "sequence", "record"]
    | return none
  let opening ← expect (inline? ["<"]) (.noGenericOpening base.text)
  let subtypes ← genericArguments nested place base.text
  let closing ← expect (inline? [">"]) (.unclosedGeneric base.text)
  return some (typeNode place (.token .base base :: .token .opening opening ::
    Part.ofNodes .subtype subtypes ++ [.token .closing closing]))

/-- A type that is no union.  The types of extensions come first. -/
def singleType (place : Option String) : Parser (Option Node) := do
  match ← firstMatch nested (← extensions).types with
  | some custom => return some (custom.withPlace place)
  | none =>
    let some type ← either (genericType nested place) (either primitiveType namedType)
      | return none
    let isPromise ← present (type.applies "Promise")
    refuse (isPromise && (← nextIs "?")) .nullablePromise
    let mark ← nullableMark
    refuse (mark.isSome && type.typeName == "any") .nullableAny
    return some (withNullable mark (type.withPlace place))

/-! ## Unions -/

/-- The members of a union from here on, each holding the `or` behind it. -/
def unionMembers : Nat → Parser (List Node)
  | 0 => exhausted
  | fuel + 1 => do
    let type ← expect (nested (.attributedType none)) .noUnionMember
    refuse (type.typeName == "any") .anyInUnion
    refuse (← present (type.applies "Promise")) .promiseInUnion
    match ← inline? ["or"] with
    | none => return [type]
    | some separator =>
      let others ← unionMembers fuel
      return type.withSeparator separator :: others

/-- A union of at least two types. -/
def unionType (place : Option String) : Parser (Option Node) := do
  let some opening ← inline? ["("] | return none
  let members ← unionMembers nested ((← size) + 1)
  refuse (members.length < 2) .tooFewUnionMembers
  let closing ← expect (inline? [")"]) .unterminatedUnion
  let mark ← nullableMark
  return some (withNullable mark (.mk { construct := .unionType, place }
    (bare :: .token .opening opening :: Part.ofNodes .subtype members ++
      [.token .closing closing])))

/-! ## Types of every shape -/

/-- A type without attributes. -/
def type (place : Option String) : Parser (Option Node) :=
  either (singleType nested place) (unionType nested place)

/-- A type behind attributes that belong to it. -/
def attributedType (place : Option String) : Parser (Option Node) :=
  rewinding do
    let attributes ← extendedAttributes nested
    let some found ← type nested place | return none
    return some (found.withAttributes attributes)

/-- The position of types that an operation returns. -/
def returnPlace : String := "return-type"

/-- The type that an operation returns, or `void`. -/
def returnType (place : Option String) : Parser (Option Node) := do
  let inner :=
    match place with
    | none | some "" => returnPlace
    | some given => given
  either (type nested (some inner)) do
    let some void ← inline? ["void"] | return none
    return some (typeNode (some returnPlace) [.token .base void])

end WebIdl.Grammar
