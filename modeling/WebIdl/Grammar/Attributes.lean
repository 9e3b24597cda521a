import WebIdl.Parser.Basic

/-!
# Extended attributes

The attributes in brackets that may stand before most constructs, in their forms `Name`,
`Name=value`, `Name=(values)`, `Name(arguments)`, `Name=value(arguments)` and `Name=*`.

The grammar is recursive, since an attribute may hold arguments and an argument may have attributes.
The functions of the grammar take the parser of productions as an argument, `nested`, and use it
where the recursion goes round.
-/

namespace WebIdl.Grammar

open WebIdl.Parser

variable (nested : Production → Parser (Option Node))

/-- The arguments of an operation, between its parentheses. -/
def argumentList : Parser (List Node) :=
  commaList "arguments list" false (nested .argument)

/-- The kinds of token that can be the value of an attribute. -/
def valueKinds : List Token.Kind :=
  [.identifier, .decimal, .integer, .string]

/-- A value of one kind. -/
def wrappedToken (kind : Token.Kind) : Parser (Option Node) := do
  let some value ← ofKind? [kind] | return none
  return some (.mk { construct := .wrappedToken } [.token .value value])

/-- A list of values that are all of one kind, the first of `kinds` that fits. -/
def valueList : List Token.Kind → Parser (List Node)
  | [] => fail .noAttributeValues
  | kind :: others => do
    match ← commaList s!"{kind.word} list" false (wrappedToken kind) with
    | [] => valueList others
    | values => return values

/-- One attribute. -/
def extendedAttribute : Parser (Option Node) := do
  let some name ← ofKind? [.identifier] | return none
  let assign ← inline? ["="]
  let asterisk ← when? assign.isSome (inline? ["*"])
  let front := .token .name name :: Part.ofToken? .assign assign
  match asterisk with
  | some star =>
    return some (.mk { construct := .extendedAttribute } (front ++ [.token .asterisk star]))
  | none =>
    let secondary ← when? assign.isSome (ofKind? valueKinds)
    let front := front ++ Part.ofToken? .secondaryName secondary
    let isList := assign.isSome && secondary.isNone
    match ← inline? ["("] with
    | some opening =>
      let entries ← if isList then valueList valueKinds else argumentList nested
      let closing ← expect (inline? [")"]) .unclosedAttributeArguments
      return some (.mk { construct := .extendedAttribute }
        (front ++ .token .opening opening :: Part.ofNodes .entry entries ++
          [.token .closing closing]))
    | none =>
      refuse isList .noAttributeValue
      return some (.mk { construct := .extendedAttribute } front)

/-- A list of attributes in brackets.  Without a bracket it is the list that is not written. -/
def extendedAttributes : Parser Node := do
  match ← inline? ["["] with
  | none => return Node.noAttributes
  | some opening =>
    let items ← commaList "extended attribute" false (extendedAttribute nested)
    let closing ← expect (inline? ["]"]) .unclosedAttributes
    refuse items.isEmpty .noAttributes
    refuse (← nextIs "[") .secondAttributeList
    return .mk { construct := .extendedAttributes }
      (.token .opening opening :: Part.ofNodes .item items ++ [.token .closing closing])

end WebIdl.Grammar
