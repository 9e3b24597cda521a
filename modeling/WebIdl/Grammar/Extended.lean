import WebIdl.Grammar.Definitions

/-!
# Extensions of the grammar

Constructs that some dialects have beyond the standard: interfaces without a body, callback
constructors, the `legacycaller` operation and the interfaces that hold it, and records whose keys
are of type `UTF8String`.
-/

namespace WebIdl.Grammar

open WebIdl.Parser

variable (nested : Production → Parser (Option Node))

/-- The word before a legacy caller, which is no keyword. -/
def legacyCallerWord : String := "legacycaller"

/-- The key type of the records that extensions add, which is no keyword. -/
def utf8String : String := "UTF8String"

/-- An interface without a body. -/
def bodylessInterface : Parser (Option Node) :=
  rewinding do
    let some base ← inline? ["interface"] | return none
    let some name ← ofKind? [.identifier] | return none
    let some termination ← inline? [";"] | return none
    enter ⟨Construct.bodylessInterface.tag, unescape name.text, false⟩
    return some (.mk { construct := .bodylessInterface } [bare, .token .base base,
      .token .name name, .token .termination termination])

/-- The rest of a callback constructor, behind its words. -/
def callbackConstructorBody (base word : Token) : Parser Node := do
  let name ← expect (ofKind? [.identifier]) .noCallbackName
  enter ⟨Construct.callbackConstructor.tag, unescape name.text, false⟩
  let assign ← expect (inline? ["="]) .noCallbackConstructorAssignment
  let type ← expect (returnType nested none) .noCallbackConstructorType
  let opening ← expect (inline? ["("]) .noCallbackConstructorArguments
  let arguments ← argumentList nested
  let closing ← expect (inline? [")"]) .unclosedCallbackConstructor
  let termination ← expect (inline? [";"]) .unterminatedCallbackConstructor
  return .mk { construct := .callbackConstructor } (bare :: .token .base base ::
    .token .constructor word :: .token .name name :: .token .assign assign :: .node .type type ::
    .token .opening opening :: Part.ofNodes .argument arguments ++ [.token .closing closing,
      .token .termination termination])

/-- A callback constructor. -/
def callbackConstructor : Parser (Option Node) :=
  rewinding do
    let some base ← inline? ["callback"] | return none
    let some word ← inline? ["constructor"] | return none
    return some (← callbackConstructorBody nested base word)

/-- A legacy caller. -/
def legacyCaller : Parser (Option Node) := do
  let some special ← identifier? legacyCallerWord | return none
  return some (← specialOperation nested .legacyCaller special)

/-- The reasons for which an interface is left to other productions. -/
def deferringReasons : List String :=
  [Problem.bodylessReason, Problem.mixinReason]

/-- An interface that may hold legacy callers.  One without a body, or a mixin, is of another shape
and is left to other productions. -/
def legacyCallerInterface : Parser (Option Node) := do
  let start ← position
  let some base ← inline? ["interface"] | return none
  deferring deferringReasons start (containerBody nested {
    construct := .interface
    tag := "legacycaller interface"
    lead := [.token .base base]
    inheritable := true
    members := .legacyCaller :: interfaceMembers })

/-- A record whose keys are of type `UTF8String`. -/
def utf8StringRecord : Parser (Option Node) :=
  rewinding do
    let some base ← inline? ["record"] | return none
    let some opening ← inline? ["<"] | return none
    let some key ← identifier? utf8String | return none
    let comma ← expect (inline? [","]) (.noUtf8RecordComma utf8String)
    let value ← expect (nested (.attributedType none)) .noRecordValue
    let closing ← expect (inline? [">"]) (.unclosedUtf8Record utf8String)
    let mark ← nullableMark
    let keyType := (typeNode none [.token .base key]).withSeparator comma
    return some (withNullable mark (.mk { construct := .utf8StringRecord } (bare ::
      .token .base base :: .token .opening opening :: Part.ofNodes .subtype [keyType, value] ++
      [.token .closing closing])))

/-- A dictionary member whose type is such a record. -/
def utf8StringField : Parser (Option Node) :=
  rewinding do
    let required ← inline? ["required"]
    let some type ← utf8StringRecord nested | return none
    return some (← fieldBody .utf8StringField required (type.withPlace (some fieldPlace)))

/-- A typedef of such a record. -/
def utf8StringTypedef : Parser (Option Node) :=
  rewinding do
    let some base ← inline? ["typedef"] | return none
    let some type ← utf8StringRecord nested | return none
    return some (← typedefBody .utf8StringTypedef base (type.withPlace (some typedefPlace)))

end WebIdl.Grammar
