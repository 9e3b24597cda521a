import WebIdl.Document
import WebIdl.Text.Quoted
import WebIdl.Tree.View
import WebIdl.Validation.Diagnostic

/-!
# Validation rules

Six rules look over the items of a document.  Four of them come with repairs:

* `replace-void` objects to the type `void`;
* `require-exposed` to interfaces and namespaces that are not exposed anywhere;
* `renamed-legacy` to extended attributes that have got a new name;
* `dict-arg-default` to optional arguments of a dictionary type without a default value.

The others have none: `no-duplicate` objects to a second definition of a name, and
`attr-invalid-type` to attributes that are sequences, records or dictionaries.

A rule fails where a token that it reads is not there.
-/

namespace WebIdl

/-- The validation rules. -/
inductive Rule where
  | replaceVoid | requireExposed | renamedLegacy | dictArgDefault | noDuplicate | attrInvalidType
deriving DecidableEq, Repr

namespace Rule

def name : Rule → String
  | .replaceVoid => "replace-void"
  | .requireExposed => "require-exposed"
  | .renamedLegacy => "renamed-legacy"
  | .dictArgDefault => "dict-arg-default"
  | .noDuplicate => "no-duplicate"
  | .attrInvalidType => "attr-invalid-type"

/-- All rules, in the order in which they are applied. -/
def all : List Rule :=
  [.replaceVoid, .requireExposed, .renamedLegacy, .dictArgDefault, .noDuplicate, .attrInvalidType]

/-- The rule of a given name. -/
def ofName? (name : String) : Option Rule :=
  all.find? (·.name == name)

/-! ## Facts about the items as a whole -/

/-- The definitions among the items, each with its place. -/
def definitionsOf (items : List Node) : List (Site × Node) :=
  (items.zipIdx.map fun (node, item) => (⟨item, []⟩, node)).filter (·.2.isDefinition)

/-- The dictionaries of the given name. -/
def dictionariesNamed (items : List Node) (name : String) : List Node :=
  items.filter fun node => node.construct == .dictionary && node.nameOrEmpty == name

/-- Is there a dictionary of this name? -/
def isDictionary (items : List Node) (name : String) : Bool :=
  !(dictionariesNamed items name).isEmpty

/-- Does a dictionary of this name have a required member? -/
def hasRequiredField (items : List Node) (name : String) : Bool :=
  (dictionariesNamed items name).any fun dictionary =>
    (dictionary.nodesAs .member).any (·.has .required)

/-! ## The rules -/

/-- The objection to a type around `void`. -/
def voidObjection (site : Site) (base : Token) : Diagnostic where
  rule := Rule.name .replaceVoid
  message := "`void` is now replaced by `undefined`. Refer to the relevant GitHub issue " ++
    "for more information."
  site := site
  token := base
  repair := some .replaceVoid

/-- Finds every type that is built around `void`. -/
def replaceVoidOn (items : List Node) : List Diagnostic :=
  (located items).filterMap fun (site, node) => do
    let base ← node.token? .base
    if node.construct.isType && base.text == "void" then
      some (voidObjection site base)
    else
      none

/-- Is this definition exposed, or does it need not be? -/
def isExposed (definition : Node) : Except Missing Bool := do
  let attributes := (definition.node? .attributes).getD Node.noAttributes
  if ← attributes.hasAttribute "Exposed" then
    return true
  else
    attributes.hasAttribute "LegacyNoInterfaceObject"

/-- Must this definition be exposed? -/
def needsExposure (definition : Node) : Bool :=
  (definition.construct == .interface || definition.construct == .namespaceDef) &&
    !definition.isPartial

/-- The objection to a definition that is not exposed. -/
def exposureObjection (site : Site) (definition : Node) : Diagnostic where
  rule := Rule.name .requireExposed
  message := s!"{definition.tag} {definition.nameOrEmpty} must have [Exposed] extended attribute. " ++
    "To fix, add, for example, [Exposed=Window]."
  site := site
  token := definition.token? .name
  repair := some .addExposed

/-- Finds the interfaces and namespaces that must be exposed and are not. -/
def requireExposedOn (items : List Node) : Except Missing (List Diagnostic) :=
  ((definitionsOf items).filter fun (_, node) => needsExposure node).filterMapM
    fun (site, node) => return if ← isExposed node then none else some (exposureObjection site node)

/-- The new names of extended attributes. -/
def legacyNames : List (String × String) :=
  [("NoInterfaceObject", "LegacyNoInterfaceObject"),
    ("OverrideBuiltins", "LegacyOverrideBuiltIns"),
    ("Unforgeable", "LegacyUnforgeable"),
    ("LenientThis", "LegacyLenientThis"),
    ("LenientSetter", "LegacyLenientSetter"),
    ("TreatNonObjectAsNull", "LegacyTreatNonObjectAsNull"),
    ("NamedConstructor", "LegacyFactoryFunction"),
    ("Unscopeable", "LegacyUnscopable")]

/-- The objection to an extended attribute that has got a new name. -/
def renamingObjection (site : Site) (node : Node) (name newName : String) : Diagnostic where
  rule := Rule.name .renamedLegacy
  message := s!"`[{name}]` extended attribute is a legacy feature that is now " ++
    s!"renamed to `[{newName}]`."
  site := site
  token := node.token? .name
  repair := some (.rename newName)

/-- Finds the extended attributes that have got a new name. -/
def renamedLegacyOn (items : List Node) : Except Missing (List Diagnostic) :=
  (located items).filterMapM fun (site, node) => do
    if node.construct == .extendedAttribute then
      let name ← node.name
      return (legacyNames.lookup name).map (renamingObjection site node name)
    else
      return none

/-- Does this optional argument lack a default value that its dictionary type asks for? -/
def lacksDefault (items : List Node) (argument : Node) : Bool :=
  match argument.node? .type with
  | none => false
  | some type =>
    argument.has .optional && (argument.node? .default).isNone && type.construct.isType &&
      !type.isNullable && isDictionary items type.typeName && !hasRequiredField items type.typeName

/-- The objection to an argument that lacks a default value. -/
def defaultObjection (site : Site) (argument : Node) : Diagnostic where
  rule := Rule.name .dictArgDefault
  message := "Optional dictionary arguments must have a default value of `\x7b\x7d`."
  site := site
  token := argument.token? .name
  repair := some .addDefault

/-- Finds the arguments that lack a default value. -/
def dictArgDefaultOn (items : List Node) : List Diagnostic :=
  (located items).flatMap fun (site, owner) =>
    ((owner.numberedAs .argument).filter fun (_, argument) => lacksDefault items argument).map
      fun (number, argument) =>
        defaultObjection { site with path := site.path ++ [number] } argument

/-- Does a definition claim its name for itself?  Partial definitions and interfaces without a body
may repeat a name. -/
def claimsName (definition : Node) : Bool :=
  !definition.isPartial && definition.tag != Construct.bodylessInterface.tag &&
    definition.construct.isNamed && !definition.nameOrEmpty.isEmpty

/-- The objection to a definition whose name another one, of the given tag, has claimed. -/
def duplicateObjection (site : Site) (definition : Node) (tag : String) : Diagnostic where
  rule := Rule.name .noDuplicate
  message := s!"The name \"{definition.nameOrEmpty}\" of type \"{tag}\" was already seen"
  site := site
  token := definition.token? .name

/-- Finds every definition whose name an earlier one among `claimed`, or among those before it, has
claimed. -/
def duplicatesFrom (claimed : List Node) : List (Site × Node) → List Diagnostic
  | [] => []
  | (site, node) :: rest =>
    match claimed.find? (·.nameOrEmpty == node.nameOrEmpty) with
    | some first => duplicateObjection site node first.tag :: duplicatesFrom claimed rest
    | none => duplicatesFrom (claimed ++ [node]) rest

/-- Finds every definition whose name has been claimed before. -/
def noDuplicateOn (items : List Node) : List Diagnostic :=
  duplicatesFrom [] ((definitionsOf items).filter fun (_, node) => claimsName node)

/-- What is wrong with the type of an attribute. -/
def invalidType? (items : List Node) (type : Node) : Except Missing (Option String) := do
  let generic ← type.genericName
  if ["sequence", "record"].contains generic then
    return some s!"`{generic}`"
  else if isDictionary items type.typeName then
    return some "a dictionary"
  else
    return none

/-- The objection to an attribute of a type that attributes cannot have. -/
def typeObjection (site : Site) (node : Node) (reason : String) : Diagnostic where
  rule := Rule.name .attrInvalidType
  message := s!"Attributes cannot accept {reason} types."
  site := site
  token := node.token? .name

/-- Finds the attributes of a type that attributes cannot have. -/
def attrInvalidTypeOn (items : List Node) : Except Missing (List Diagnostic) :=
  (located items).filterMapM fun (site, node) => do
    match node.node? .type with
    | some type =>
      if node.construct == .attribute && type.construct.isType then
        return (← invalidType? items type).map (typeObjection site node)
      else
        return none
    | none => return none

/-- What a rule objects to. -/
def check (rule : Rule) (items : List Node) : Except Missing (List Diagnostic) :=
  match rule with
  | .replaceVoid => .ok (replaceVoidOn items)
  | .requireExposed => requireExposedOn items
  | .renamedLegacy => renamedLegacyOn items
  | .dictArgDefault => .ok (dictArgDefaultOn items)
  | .noDuplicate => .ok (noDuplicateOn items)
  | .attrInvalidType => attrInvalidTypeOn items

end Rule

/-! ## Validation -/

/-- There is no rule of this name. -/
structure UnknownRule where
  name : String
deriving DecidableEq, Repr

def UnknownRule.message (unknown : UnknownRule) : String :=
  Text.quoted unknown.name

/-- The rules of the given names. -/
def rulesNamed : List String → Except UnknownRule (List Rule)
  | [] => .ok []
  | name :: rest =>
    match Rule.ofName? name with
    | none => .error ⟨name⟩
    | some rule => (rulesNamed rest).map (rule :: ·)

/-- What the given rules object to, rule by rule. -/
def validate (rules : List Rule) (items : List Node) : Except Missing (List Diagnostic) :=
  rules.flatMapM fun rule => rule.check items

end WebIdl
