/-!
# What can be wrong with a text

Every way in which a text can break the grammar is a constructor of `Problem`; `Problem.message` has
the wording.  A few problems carry a reason, a short word by which an enclosing production can see
that the text may be of another shape.
-/

namespace WebIdl

/-- The causes of syntax errors. -/
inductive Problem where
  /-- An identifier that no text may use. -/
  | reservedIdentifier (word : String)
  -- lists and extended attributes
  | trailingComma (items : String)
  | noAttributeValues
  | unclosedAttributeArguments
  | noAttributeValue
  | unclosedAttributes
  | noAttributes
  | secondAttributeList
  -- defaults
  | noDefaultValue
  | nonemptyDefaultSequence
  | nonemptyDefaultDictionary
  -- types
  | doubleNullable
  | noGenericOpening (generic : String)
  | attributedPromise
  | noPromiseSubtype
  | attributedRecordKey
  | recordKey (allowed : List String)
  | noRecordComma
  | noRecordValue
  | noSubtype (generic : String)
  | unclosedGeneric (generic : String)
  | incompleteInteger
  | incompleteFloat
  | unknownGeneric (name : String)
  | nullablePromise
  | nullableAny
  | noUnionMember
  | anyInUnion
  | promiseInUnion
  | tooFewUnionMembers
  | unterminatedUnion
  -- members
  | readonlyInherited
  | writableAttribute
  | noAttributeType
  | noAttributeName
  | unterminatedAttribute
  | noReturnType
  | invalidOperation
  | unclosedOperation
  | unterminatedOperation
  | noConstantType
  | nullableConstant
  | noConstantName
  | noConstantAssignment
  | noConstantValue
  | unterminatedConstant
  | noConstructorArguments
  | unclosedConstructor
  | unterminatedConstructor
  | noIterableOpening (kind : String)
  | noTypeArgument (kind : String)
  | noSecondTypeArgument (kind : String)
  | unclosedIterable (kind : String)
  | unexpectedIterableArguments
  | unclosedIterableArguments
  | unterminatedIterable (kind : String)
  | noFieldType
  | noFieldName
  | requiredWithDefault
  | unterminatedField
  -- definitions
  | noContainerName (tag : String) (isMixin : Bool)
  | noInheritedName
  | bodyless (tag : String)
  | unterminatedContainer (tag : String)
  | unknownMember
  | noCallbackName
  | noCallbackAssignment
  | noCallbackType
  | noCallbackArguments
  | unclosedCallback
  | unterminatedCallback
  | noEnumName
  | bodylessEnum
  | noEnumComma
  | unexpectedEnumValue
  | emptyEnum
  | unterminatedEnum
  | noTypedefType
  | noTypedefName
  | unterminatedTypedef
  | incompleteIncludes
  | unterminatedIncludes
  | nothingPartial
  | strayAttributes
  | unrecognised
  -- extensions
  | noCallbackConstructorAssignment
  | noCallbackConstructorType
  | noCallbackConstructorArguments
  | unclosedCallbackConstructor
  | unterminatedCallbackConstructor
  | noUtf8RecordComma (key : String)
  | unclosedUtf8Record (key : String)
  /-- A problem that a user of the cursor reports in words of its own. -/
  | reported (message : String) (reason : Option String)
deriving DecidableEq, Repr

namespace Problem

/-- The wording of a problem. -/
def message : Problem → String
  | .reservedIdentifier word => s!"{word} is a reserved identifier and must not be used."
  | .trailingComma items => s!"Trailing comma in {items}"
  | .noAttributeValues => "Expected identifiers, strings, decimals, or integers but none found"
  | .unclosedAttributeArguments => "Unexpected token in extended attribute argument list"
  | .noAttributeValue => "No right hand side to extended attribute assignment"
  | .unclosedAttributes => "Expected a closing token for the extended attribute list"
  | .noAttributes => "An extended attribute list must not be empty"
  | .secondAttributeList => "Illegal double extended attribute lists, consider merging them"
  | .noDefaultValue => "No value for default"
  | .nonemptyDefaultSequence => "Default sequence value must be empty"
  | .nonemptyDefaultDictionary => "Default dictionary value must be empty"
  | .doubleNullable => "Can't nullable more than once"
  | .noGenericOpening generic => s!"No opening bracket after {generic}"
  | .attributedPromise => "Promise type cannot have extended attribute"
  | .noPromiseSubtype => "Missing Promise subtype"
  | .attributedRecordKey => "Record key cannot have extended attribute"
  | .recordKey allowed => "Record key must be one of: " ++ ", ".intercalate allowed
  | .noRecordComma => "Missing comma after record key type"
  | .noRecordValue => "Error parsing generic type record"
  | .noSubtype generic => s!"Missing {generic} subtype"
  | .unclosedGeneric generic => s!"Missing closing bracket after {generic}"
  | .incompleteInteger => "Failed to parse integer type"
  | .incompleteFloat => "Failed to parse float type"
  | .unknownGeneric name => s!"Unsupported generic type {name}"
  | .nullablePromise => "Promise type cannot be nullable"
  | .nullableAny => "Type `any` cannot be made nullable"
  | .noUnionMember => "No type after open parenthesis or 'or' in union type"
  | .anyInUnion => "Type `any` cannot be included in a union type"
  | .promiseInUnion => "Type `Promise` cannot be included in a union type"
  | .tooFewUnionMembers => "At least two types are expected in a union type but found less"
  | .unterminatedUnion => "Unterminated union type"
  | .readonlyInherited => "Inherited attributes cannot be read-only"
  | .writableAttribute => "Attributes must be readonly in this context"
  | .noAttributeType => "Attribute lacks a type"
  | .noAttributeName => "Attribute lacks a name"
  | .unterminatedAttribute => "Unterminated attribute, expected `;`"
  | .noReturnType => "Missing return type"
  | .invalidOperation => "Invalid operation"
  | .unclosedOperation => "Unterminated operation"
  | .unterminatedOperation => "Unterminated operation, expected `;`"
  | .noConstantType => "Const lacks a type"
  | .nullableConstant => "Unexpected nullable constant type"
  | .noConstantName => "Const lacks a name"
  | .noConstantAssignment => "Const lacks value assignment"
  | .noConstantValue => "Const lacks a value"
  | .unterminatedConstant => "Unterminated const, expected `;`"
  | .noConstructorArguments => "No argument list in constructor"
  | .unclosedConstructor => "Unterminated constructor"
  | .unterminatedConstructor => "No semicolon after constructor"
  | .noIterableOpening kind => s!"Missing less-than sign `<` in {kind} declaration"
  | .noTypeArgument kind => s!"Missing a type argument in {kind} declaration"
  | .noSecondTypeArgument kind => s!"Missing second type argument in {kind} declaration"
  | .unclosedIterable kind => s!"Missing greater-than sign `>` in {kind} declaration"
  | .unexpectedIterableArguments => "Arguments are only allowed for `async iterable`"
  | .unclosedIterableArguments => "Unterminated async iterable argument list"
  | .unterminatedIterable kind => s!"Missing semicolon after {kind} declaration"
  | .noFieldType => "Dictionary member lacks a type"
  | .noFieldName => "Dictionary member lacks a name"
  | .requiredWithDefault => "Required member must not have a default"
  | .unterminatedField => "Unterminated dictionary member, expected `;`"
  | .noContainerName tag _ => s!"Missing name in {tag}"
  | .noInheritedName => "Inheritance lacks a type"
  | .bodyless tag => s!"Bodyless {tag}"
  | .unterminatedContainer tag => s!"Missing semicolon after {tag}"
  | .unknownMember => "Unknown member"
  | .noCallbackName => "Callback lacks a name"
  | .noCallbackAssignment => "Callback lacks an assignment"
  | .noCallbackType => "Callback lacks a return type"
  | .noCallbackArguments => "Callback lacks parentheses for arguments"
  | .unclosedCallback => "Unterminated callback"
  | .unterminatedCallback => "Unterminated callback, expected `;`"
  | .noEnumName => "No name for enum"
  | .bodylessEnum => "Bodyless enum"
  | .noEnumComma => "No comma between enum values"
  | .unexpectedEnumValue => "Unexpected value in enum"
  | .emptyEnum => "No value in enum"
  | .unterminatedEnum => "No semicolon after enum"
  | .noTypedefType => "Typedef lacks a type"
  | .noTypedefName => "Typedef lacks a name"
  | .unterminatedTypedef => "Unterminated typedef, expected `;`"
  | .incompleteIncludes => "Incomplete includes statement"
  | .unterminatedIncludes => "No terminating ; for includes statement"
  | .nothingPartial => "Partial doesn't apply to anything"
  | .strayAttributes => "Stray extended attributes"
  | .unrecognised => "Unrecognised tokens"
  | .noCallbackConstructorAssignment => "Callback constructor lacks an assignment"
  | .noCallbackConstructorType => "Callback constructor lacks a return type"
  | .noCallbackConstructorArguments => "Callback constructor lacks parentheses for arguments"
  | .unclosedCallbackConstructor => "Unterminated callback constructor"
  | .unterminatedCallbackConstructor => "Unterminated callback constructor, expected `;`"
  | .noUtf8RecordComma key => s!"Missing comma after record key type {key}"
  | .unclosedUtf8Record key => s!"Unclosed record<{key}>"
  | .reported message _ => message

/-- The reason of a definition without a body. -/
def bodylessReason : String := "bodyless"

/-- The reason of a mixin where a name was expected. -/
def mixinReason : String := "mixin"

/-- The reason that a problem carries.  Only a definition without a body, and a mixin in the place
of a name, have one by themselves. -/
def reason? : Problem → Option String
  | .bodyless _ => some bodylessReason
  | .noContainerName _ true => some mixinReason
  | .reported _ reason => reason
  | _ => none

end Problem

end WebIdl
