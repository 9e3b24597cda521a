import WebIdl.Grammar.Parse

/-!
# The forms of constructs

The grammar as data.  A construct has a form: a row of slots, each for a token of a given set or for
smaller constructs of a given category.  `Symbol.forms` lists the forms that a symbol of the grammar
can take, in the standard language and, with `extended`, in the one that has all the extensions.

Where the parser tries one production before another, the later one never sees what the earlier one
takes.  The forms say so: an operation of an interface with legacy callers does not begin with the
word `legacycaller`, and a member of a dictionary is not a plain `UTF8String` record if there is a
production of its own for it.
-/

namespace WebIdl.Shape

/-! ## Sets of tokens -/

/-- A set of tokens, told by their kinds and spellings. -/
structure Terminal where
  kinds : List Token.Kind := []
  /-- Keywords and punctuation marks. -/
  words : List String := []
  /-- A condition on the text of a token. -/
  spelling : String → Bool := fun _ => true

/-- Is the token in the set?  Nothing but its kind and its text matters. -/
def Terminal.accepts (terminal : Terminal) (token : Token) : Bool :=
  (terminal.kinds.contains token.kind ||
    token.kind == .inline && terminal.words.contains token.text) && terminal.spelling token.text

namespace Terminal

def word (text : String) : Terminal where
  words := [text]

def identifier : Terminal where
  kinds := [.identifier]

/-- The name of an argument. -/
def argumentName : Terminal where
  kinds := [.identifier]
  words := Keyword.argumentNames

/-- The value of a constant. -/
def constant : Terminal where
  kinds := [.decimal, .integer]
  words := ["true", "false", "Infinity", "-Infinity", "NaN"]

/-- What a default value begins with, if its spelling is as given. -/
def default (spelling : String → Bool) : Terminal where
  kinds := [.decimal, .integer, .string]
  words := ["true", "false", "Infinity", "-Infinity", "NaN", "null", "[", "\x7b"]
  spelling := spelling

/-- The identifier of the given spelling. -/
def named (name : String) : Terminal where
  kinds := [.identifier]
  spelling := (· == name)

/-- The spellings of `any`, which may be escaped. -/
def isAny (text : String) : Bool :=
  text == "any" || text == "_any"

/-- A type that goes by its name, if its spelling is as given. -/
def typeName (spelling : String → Bool) : Terminal where
  kinds := [.identifier]
  words := Keyword.stringTypes ++ Keyword.typeNames
  spelling := spelling

end Terminal

/-! ## Symbols -/

/-- Whether attributes are written in front of a construct. -/
inductive Mode where
  | never | maybe | always
deriving DecidableEq

/-- The shapes of types. -/
inductive Stem where
  | integer | float | keyword | name | any | collection | promise | record | union | utf8Record
deriving DecidableEq

/-- What a type may be in its place. -/
inductive Limit where
  /-- Any type. -/
  | all
  /-- Any type, but the name `legacycaller` is no type. -/
  | guarded
  /-- A member of a union. -/
  | unionMember
  /-- Any type except a record with `UTF8String` keys. -/
  | plain
  /-- Such a record. -/
  | utf8Record
deriving DecidableEq

/-- What stands between the braces of a definition.  The members of an interface may include legacy
callers. -/
inductive Body where
  | interface (legacy : Bool) | mixin | callbackInterface | namespaceDef | dictionary
deriving DecidableEq

/-- The symbols of the grammar. -/
inductive Symbol where
  | eof
  | wrappedToken (kind : Token.Kind)
  | extendedAttribute
  | attributes (mode : Mode)
  | default
  | argument
  /-- A type of one of the given shapes, without its question mark. -/
  | stem (stems : List Stem) (place : Option String)
  | type (place : Option String) (limit : Limit)
  | returnType (place : Option String) (limit : Limit)
  | recordKey (place : Option String)
  | utf8Key
  | constantType
  | constant
  | constructor
  | attribute (noInherit mustBeReadonly : Bool)
  | operation (isRegular : Bool) (limit : Limit)
  | special (word : String)
  | iterableLike
  | field (limit : Limit)
  /-- A member of a dictionary that has not been told from the attributes before it. -/
  | loneField
  | legacyCaller
  | utf8StringField
  | member (body : Body)
  | callback
  | interface (tag : String) (legacy : Bool)
  | mixin
  | partialDefinition
  | dictionary
  | namespaceDef
  | enumValue
  | enumeration
  | typedef (limit : Limit)
  | includes
  | bodylessInterface
  | callbackConstructor
  | utf8StringTypedef
  /-- What the production of interfaces finds. -/
  | interfaceOrMixin
  | definition

/-- A symbol, whether attributes are written in front of it, and the separator behind it. -/
structure Category where
  symbol : Symbol
  mode : Mode := .maybe
  separator : Option String := none

/-- A place in a construct. -/
inductive Slot where
  | token (role : Role) (terminal : Terminal)
  | option (role : Role) (terminal : Terminal)
  | node (role : Role) (category : Category)
  | nodeOption (role : Role) (category : Category)
  | many (role : Role) (category : Category)
  /-- Items with a separator between them; the last one may have one too if the list may dangle. -/
  | list (role : Role) (category : Category) (separator : String) (least : Nat) (mayDangle : Bool)

/-- A form of a construct.  If it is `attributed`, attributes come before its slots. -/
structure Form where
  construct : Construct
  tag : String := construct.tag
  place : Option String := none
  attributed : Bool := true
  slots : List Slot

def Form.label (form : Form) : Label where
  construct := form.construct
  tag := form.tag
  place := form.place

namespace Slot

def word (role : Role) (text : String) : Slot :=
  .token role (.word text)

def ending : Slot :=
  .word .termination ";"

/-- Arguments in parentheses. -/
def arguments : List Slot :=
  [.word .opening "(", .list .argument { symbol := .argument } "," 0 false, .word .closing ")"]

end Slot

/-! ## Attributes, defaults and arguments -/

/-- Attributes that are not written. -/
def unwritten : Form where
  construct := .extendedAttributes
  attributed := false
  slots := []

/-- Attributes in brackets. -/
def written : Form where
  construct := .extendedAttributes
  attributed := false
  slots := [.word .opening "[", .list .item { symbol := .extendedAttribute } "," 1 false,
    .word .closing "]"]

def attributesForms : Mode → List Form
  | .never => [unwritten]
  | .always => [written]
  | .maybe => [unwritten, written]

/-- The kinds of token that can be the value of an attribute. -/
def valueKinds : Terminal where
  kinds := Grammar.valueKinds

/-- The right-hand sides of an attribute: with a list of values, with arguments, or plain. -/
def attributeTails : List (List Slot) :=
  let entries := fun (symbol : Symbol) (least : Nat) =>
    [.word .opening "(", .list .entry { symbol } "," least false, .word .closing ")"]
  let assign := Slot.word .assign "="
  let value := Slot.token .secondaryName valueKinds
  [[], [assign, .word .asterisk "*"], [assign, value], entries .argument 0,
    assign :: value :: entries .argument 0] ++
  Grammar.valueKinds.map fun kind => assign :: entries (.wrappedToken kind) 1

def extendedAttributeForms : List Form :=
  attributeTails.map fun tail => {
    construct := .extendedAttribute
    attributed := false
    slots := .token .name .identifier :: tail }

def defaultForms : List Form :=
  let form := fun (value : List Slot) => {
    construct := .default
    attributed := false
    slots := .word .assign "=" :: value : Form }
  [form [.token .expression (.default fun text => text != "[" && text != "\x7b")],
    form [.token .expression (.default (· == "[")), .word .expression "]"],
    form [.token .expression (.default (· == "\x7b")), .word .expression "\x7d"]]

def argumentPlace : Option String := some "argument-type"

def argumentForms : List Form :=
  let form := fun (slots : List Slot) => { construct := .argument, slots : Form }
  [form [.word .optional "optional", .node .type { symbol := .type argumentPlace .all },
      .token .name .argumentName, .nodeOption .default { symbol := .default }],
    form [.node .type { symbol := .type argumentPlace .all, mode := .never },
      .option .variadic (.word "..."), .token .name .argumentName]]

/-! ## Types -/

/-- The place that is noted for a type that is returned. -/
def returnPlaceOf : Option String → Option String
  | none | some "" => some Grammar.returnPlace
  | some place => some place

/-- The slots of a type of one shape. -/
def Stem.slots (place : Option String) (limit : Limit) : Stem → List (List Slot)
  | .integer => [
      [.option .sign (.word "unsigned"), .word .base "short"],
      [.option .sign (.word "unsigned"), .word .base "long", .option .doubling (.word "long")]]
  | .float => [[.option .sign (.word "unrestricted"), .token .base { words := ["float", "double"] }]]
  | .keyword =>
      [[.token .base { words := ["bigint", "boolean", "byte", "octet", "undefined"] }]]
  | .name => [[.token .base (.typeName fun text =>
      !Terminal.isAny text && (limit != .guarded || text != Grammar.legacyCallerWord))]]
  | .any => [[.token .base (.typeName Terminal.isAny)]]
  | .collection => [[.token .base { words := ["FrozenArray", "ObservableArray", "sequence"] },
      .word .opening "<", .node .subtype { symbol := .type place .all }, .word .closing ">"]]
  | .promise => [[.word .base "Promise", .word .opening "<",
      .node .subtype { symbol := .returnType (returnPlaceOf place) .all, mode := .never },
      .word .closing ">"]]
  | .record => [[.word .base "record", .word .opening "<",
      .node .subtype { symbol := .recordKey place, mode := .never, separator := some "," },
      .node .subtype { symbol := .type place .all }, .word .closing ">"]]
  | .union => [[.word .opening "(", .list .subtype { symbol := .type none .unionMember } "or" 2 false,
      .word .closing ")"]]
  | .utf8Record => [[.word .base "record", .word .opening "<",
      .node .subtype { symbol := .utf8Key, mode := .never, separator := some "," },
      .node .subtype { symbol := .type none .all }, .word .closing ">"]]

def Stem.construct : Stem → Construct
  | .union => .unionType
  | .utf8Record => .utf8StringRecord
  | _ => .type

/-- May a question mark follow?  The types `any` and `Promise` cannot be null. -/
def Stem.isNullable : Stem → Bool
  | .any | .promise => false
  | _ => true

/-- The forms of a type of one shape, without its question mark. -/
def Stem.bareForms (place : Option String) (limit : Limit) (stem : Stem) : List Form :=
  (stem.slots place limit).map fun slots => { construct := stem.construct, place, slots }

/-- The forms of a type of one shape. -/
def Stem.forms (place : Option String) (limit : Limit) (stem : Stem) : List Form :=
  (stem.bareForms place limit).map fun form =>
    if stem.isNullable then
      { form with slots := form.slots ++ [.option .nullable (.word "?")] }
    else
      form

/-- The shapes that a type may have. -/
def Limit.stems (extended : Bool) : Limit → List Stem
  | .all | .guarded =>
      [.integer, .float, .keyword, .name, .any, .collection, .promise, .record, .union] ++
        if extended then [.utf8Record] else []
  | .unionMember =>
      [.integer, .float, .keyword, .name, .collection, .record, .union] ++
        if extended then [.utf8Record] else []
  | .plain => [.integer, .float, .keyword, .name, .any, .collection, .promise, .record, .union]
  | .utf8Record => [.utf8Record]

def typeForms (extended : Bool) (place : Option String) (limit : Limit) : List Form :=
  (limit.stems extended).flatMap (Stem.forms place limit)

def voidForm : Form where
  construct := .type
  place := some Grammar.returnPlace
  slots := [.word .base "void"]

def constantPlace : Option String := some "const-type"

def constantTypeForms : List Form :=
  [Stem.integer, .float, .keyword].flatMap (Stem.bareForms constantPlace .all) ++
    [{ construct := .type, place := constantPlace, slots := [.token .base .identifier] }]

/-! ## Members -/

/-- An attribute behind the words before it. -/
def attributeForm (words : List Slot) : Form where
  construct := .attribute
  slots := words ++ [.word .base "attribute",
    .node .type { symbol := .type (some "attribute-type") .all },
    .token .name { kinds := [.identifier], words := ["async", "required"] }, .ending]

/-- An attribute that no word has been read before. -/
def attributeForms (noInherit mustBeReadonly : Bool) : List Form :=
  (if noInherit || mustBeReadonly then [] else [attributeForm [.word .special "inherit"]]) ++
    [attributeForm [if mustBeReadonly then .word .readonly "readonly"
      else .option .readonly (.word "readonly")]]

/-- An operation behind the words before it. -/
def operationForm (construct : Construct) (limit : Limit) (words : List Slot) : Form where
  construct := construct
  slots := words ++
    .node .type { symbol := .returnType (some Grammar.returnPlace) limit, mode := .never } ::
    .option .name { kinds := [.identifier], words := ["includes"] } :: Slot.arguments ++ [.ending]

def operationForms (isRegular : Bool) (limit : Limit) : List Form :=
  (if isRegular then []
    else [operationForm .operation .all [.token .special { words := ["getter", "setter", "deleter"] }]]) ++
    [operationForm .operation limit []]

/-- An attribute or operation behind a word; there may be nothing but the semicolon behind
`stringifier`. -/
def specialForms (word : String) : List Form :=
  [attributeForm [.word .special word, .option .readonly (.word "readonly")],
    operationForm .operation .all [.word .special word]] ++
  if word == "stringifier" then
    [{ construct := .operation, slots := [.word .special word, .ending] }]
  else
    []

def constantForm : Form where
  construct := .constant
  slots := [.word .base "const", .node .type { symbol := .constantType, mode := .never },
    .token .name .identifier, .word .assign "=", .token .value .constant, .ending]

def constructorForm : Form where
  construct := .constructor
  slots := .word .base "constructor" :: Slot.arguments ++ [.ending]

/-- One type of a collection, and two of them. -/
def oneType : List Slot :=
  [.node .typeArgument { symbol := .type none .all }]

def twoTypes : List Slot :=
  .node .typeArgument { symbol := .type none .all, separator := some "," } :: oneType

/-- A collection: the words before its keyword, the keyword, its types, and what follows them. -/
def collectionForm (words : List Slot) (keyword : String) (types tail : List Slot) : Form where
  construct := .iterableLike
  slots := words ++ .word .base keyword :: .word .opening "<" :: types ++
    .word .closing ">" :: tail ++ [.ending]

def iterableLikeForms : List Form :=
  let readonly := Slot.option .readonly (.word "readonly")
  let async := Slot.word .async "async"
  let arguments := [.word .argumentsOpening "(", .list .argument { symbol := .argument } "," 0 false,
    .word .argumentsClosing ")"]
  [collectionForm [readonly] "maplike" twoTypes [], collectionForm [readonly] "setlike" oneType []] ++
  [oneType, twoTypes].flatMap fun types =>
    [collectionForm [] "iterable" types [], collectionForm [async] "iterable" types [],
      collectionForm [async] "iterable" types arguments]

/-- A member of a dictionary.  If it is required it has no default value, and only then can the
attributes of its type be told from its own. -/
def fieldForms (construct : Construct) (limit : Limit) : List Form :=
  let place := some Grammar.fieldPlace
  let type := Slot.node .type { symbol := .type place limit, mode := .never }
  let name := Slot.token .name .identifier
  let required := Slot.word .required "required"
  [{ construct, slots := [required, type, name, .ending] },
    { construct, slots := [type, name, .nodeOption .default { symbol := .default }, .ending] }]

/-- A required member of a dictionary whose type has attributes of its own. -/
def attributedFieldForm : Form where
  construct := .field
  slots := [.word .required "required",
    .node .type { symbol := .type (some Grammar.fieldPlace) .all, mode := .always },
    .token .name .identifier, .ending]

/-- A member of a dictionary whose attributes may be those of its type. -/
def loneFieldForms : List Form :=
  let type := Slot.node .type { symbol := .type (some Grammar.fieldPlace) .all }
  let name := Slot.token .name .identifier
  [{ construct := .field, slots := [.word .required "required", type, name, .ending] },
    { construct := .field
      slots := [type, name, .nodeOption .default { symbol := .default }, .ending] }]

/-- The members of a definition. -/
def Body.members (extended : Bool) : Body → List Symbol
  | .interface legacy =>
      (if legacy then [.legacyCaller] else []) ++
        [.constant, .constructor, .special "static", .special "stringifier", .iterableLike,
          .attribute false false, .operation false (if legacy then .guarded else .all)]
  | .mixin => [.constant, .special "stringifier", .attribute true false, .operation true .all]
  | .callbackInterface =>
      (if extended then [.attribute false false] else []) ++ [.constant, .operation true .all]
  | .namespaceDef => [.attribute true (!extended), .constant, .operation true .all]
  | .dictionary => if extended then [.utf8StringField, .field .plain] else [.field .all]

/-! ## Definitions -/

/-- A definition with a body, behind its words. -/
def containerForm (construct : Construct) (tag : String) (words inheritance : List Slot)
    (body : Body) : Form where
  construct := construct
  tag := tag
  slots := words ++ .token .name .identifier :: inheritance ++
    [.word .opening "\x7b", .many .member { symbol := .member body }, .word .closing "\x7d", .ending]

/-- A definition that may inherit from another one. -/
def heirForms (construct : Construct) (tag : String) (words : List Slot) (body : Body) :
    List Form :=
  [containerForm construct tag words [] body,
    containerForm construct tag words [.word .colon ":", .token .inheritance .identifier] body]

def interfaceForms (tag : String) (legacy : Bool) : List Form :=
  heirForms .interface tag [.word .base "interface"] (.interface legacy)

def mixinForm (words : List Slot) : Form :=
  containerForm .interfaceMixin Construct.interfaceMixin.tag
    (words ++ [.word .base "interface", .word .mixin "mixin"]) [] .mixin

def namespaceForm (extended : Bool) (words : List Slot) : Form :=
  containerForm .namespaceDef (if extended then "custom namespace" else Construct.namespaceDef.tag)
    (words ++ [.word .base "namespace"]) [] .namespaceDef

def partialForms (extended : Bool) : List Form :=
  let partiality := Slot.word .partiality "partial"
  [containerForm .dictionary Construct.dictionary.tag [partiality, .word .base "dictionary"] []
      .dictionary,
    containerForm .interface Construct.interface.tag [partiality, .word .base "interface"] []
      (.interface extended),
    mixinForm [partiality], namespaceForm extended [partiality]]

/-- A function that is called back, behind its words. -/
def callbackForm (construct : Construct) (words : List Slot) : Form where
  construct := construct
  slots := .word .base "callback" :: words ++ .token .name .identifier :: .word .assign "=" ::
    .node .type { symbol := .returnType (some Grammar.returnPlace) .all, mode := .never } ::
    Slot.arguments ++ [.ending]

def callbackForms (extended : Bool) : List Form :=
  let tag := if extended then "callback attr interface" else Construct.callbackInterface.tag
  [containerForm .callbackInterface tag [.word .callback "callback", .word .base "interface"] []
      .callbackInterface,
    callbackForm .callbackFunction []]

def enumerationForm : Form where
  construct := .enumeration
  slots := [.word .base "enum", .token .name .identifier, .word .opening "\x7b",
    .list .enumValue { symbol := .enumValue } "," 1 true, .word .closing "\x7d", .ending]

/-- A typedef whose type is as given. -/
def typedefForm (construct : Construct) (type : Category) : Form where
  construct := construct
  slots := [.word .base "typedef", .node .type type, .token .name .identifier, .ending]

def includesForm : Form where
  construct := .includes
  slots := [.token .target .identifier, .word .includes "includes", .token .mixin .identifier,
    .ending]

def bodylessInterfaceForm : Form where
  construct := .bodylessInterface
  slots := [.word .base "interface", .token .name .identifier, .ending]

/-! ## The forms of every symbol -/

/-- The forms of a symbol that is not made up of others. -/
def Symbol.ownForms (extended : Bool) : Symbol → List Form
  | .eof => [{ construct := .eof, attributed := false, slots := [.token .eof { kinds := [.eof] }] }]
  | .wrappedToken kind => [{
      construct := .wrappedToken
      attributed := false
      slots := [.token .value { kinds := [kind] }] }]
  | .extendedAttribute => extendedAttributeForms
  | .attributes mode => attributesForms mode
  | .default => defaultForms
  | .argument => argumentForms
  | .stem stems place => stems.flatMap (Stem.bareForms place .all)
  | .type place limit => typeForms extended place limit
  | .returnType place limit => typeForms extended place limit ++ [voidForm]
  | .recordKey place =>
      [{ construct := .type, place, slots := [.token .base { words := Keyword.stringTypes }] }]
  | .utf8Key => [{ construct := .type, slots := [.token .base (.named Grammar.utf8String)] }]
  | .constantType => constantTypeForms
  | .constant => [constantForm]
  | .constructor => [constructorForm]
  | .attribute noInherit mustBeReadonly => attributeForms noInherit mustBeReadonly
  | .operation isRegular limit => operationForms isRegular limit
  | .special word => specialForms word
  | .iterableLike => iterableLikeForms
  | .field limit => attributedFieldForm :: fieldForms .field limit
  | .loneField => loneFieldForms
  | .legacyCaller => [operationForm .legacyCaller .all
      [.token .special (.named Grammar.legacyCallerWord)]]
  | .utf8StringField => fieldForms .utf8StringField .utf8Record
  | .callback => callbackForms extended
  | .interface tag legacy => interfaceForms tag legacy
  | .mixin => [mixinForm []]
  | .partialDefinition => partialForms extended
  | .dictionary =>
      heirForms .dictionary Construct.dictionary.tag [.word .base "dictionary"] .dictionary
  | .namespaceDef => [namespaceForm extended []]
  | .enumValue => [{
      construct := .enumValue
      attributed := false
      slots := [.token .value { kinds := [.string] }] }]
  | .enumeration => [enumerationForm]
  | .typedef limit =>
      [typedefForm .typedef { symbol := .type (some Grammar.typedefPlace) .all, mode := .always },
        typedefForm .typedef { symbol := .type (some Grammar.typedefPlace) limit, mode := .never }]
  | .includes => [includesForm]
  | .bodylessInterface => [bodylessInterfaceForm]
  | .callbackConstructor => [callbackForm .callbackConstructor [.word .constructor "constructor"]]
  | .utf8StringTypedef => [typedefForm .utf8StringTypedef
      { symbol := .type (some Grammar.typedefPlace) .utf8Record, mode := .never }]
  | .interfaceOrMixin =>
      interfaceForms Construct.interface.tag extended ++ [mixinForm []]
  | .member _ | .definition => []

/-- The definitions of a text. -/
def definitionSymbols (extended : Bool) : List Symbol :=
  if extended then
    [.bodylessInterface, .callbackConstructor, .interface "legacycaller interface" true,
      .utf8StringTypedef, .callback, .mixin, .partialDefinition, .dictionary, .enumeration,
      .typedef .plain, .includes, .namespaceDef]
  else
    [.callback, .interfaceOrMixin, .partialDefinition, .dictionary, .enumeration, .typedef .all,
      .includes, .namespaceDef]

/-- The forms of a symbol. -/
def Symbol.forms (extended : Bool) : Symbol → List Form
  | .member body => (body.members extended).flatMap (ownForms extended)
  | .definition => (definitionSymbols extended).flatMap (ownForms extended)
  | symbol => symbol.ownForms extended

/-- The slots of a construct of a category in one of its forms. -/
def Category.slots (category : Category) (form : Form) : List Slot :=
  (if form.attributed then [.node .attributes { symbol := .attributes category.mode }] else []) ++
    form.slots ++ category.separator.toList.map (Slot.word .separator)

/-- What a production finds.  The attributes of a construct are added by whoever asks for it, except
those of arguments and of types behind attributes. -/
def symbolOf : Production → Symbol
  | .extendedAttribute => .extendedAttribute
  | .extendedAttributes => .attributes .maybe
  | .default => .default
  | .argument => .argument
  | .genericType place => .stem [.collection, .promise, .record] place
  | .integerType => .stem [.integer] none
  | .decimalType => .stem [.float] none
  | .primitiveType => .stem [.integer, .float, .keyword] none
  | .singleType place => .type place .all
  | .unionType place => .type place .all
  | .type place => .type place .all
  | .attributedType place => .type place .all
  | .returnType place => .returnType (returnPlaceOf place) .all
  | .attribute noInherit mustBeReadonly => .attribute noInherit mustBeReadonly
  | .operation isRegular => .operation isRegular .all
  | .constant => .constant
  | .constructor => .constructor
  | .staticMember => .special "static"
  | .stringifier => .special "stringifier"
  | .iterableLike => .iterableLike
  | .field => .loneField
  | .dictionary => .dictionary
  | .namespaceDef => .namespaceDef
  | .enumeration => .enumeration
  | .typedef => .typedef .all
  | .includes => .includes
  | .callback => .callback
  | .interface => .interfaceOrMixin
  | .partialDefinition => .partialDefinition
  | .bodylessInterface => .bodylessInterface
  | .callbackConstructor => .callbackConstructor
  | .legacyCaller => .legacyCaller
  | .legacyCallerInterface => .interface "legacycaller interface" true
  | .utf8StringRecord => .type none .utf8Record
  | .utf8StringField => .utf8StringField
  | .utf8StringTypedef => .utf8StringTypedef

def modeOf : Production → Mode
  | .extendedAttribute | .extendedAttributes | .default | .argument | .attributedType _ => .maybe
  | _ => .never

/-- What a production finds, with its attributes. -/
def categoryOf (production : Production) : Category where
  symbol := symbolOf production
  mode := modeOf production

end WebIdl.Shape
