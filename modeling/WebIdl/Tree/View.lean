import WebIdl.Tree.Basic

/-!
# What a construct says

Readings of a node that do not depend on where its tokens stand: names without their escape, the
right-hand side of an extended attribute, the spelling of a type.

Some readings take it for granted that a token is there.  They fail where it is not; in a tree that
was parsed it always is.
-/

namespace WebIdl.Node

/-! ## Names -/

/-- The name of a construct, without its escape.  Definitions with a body and operations may go
without one, which reads as the empty name. -/
def name (node : Node) : Except Missing String :=
  match node.token? .name with
  | some token =>
    .ok (if node.construct == .extendedAttribute then token.value else unescape token.text)
  | none =>
    if node.construct.mayLackName then .ok "" else .error ⟨node.construct, .name⟩

/-- The name of a construct; empty if it has none. -/
def nameOrEmpty (node : Node) : String :=
  match node.name with
  | .ok name => name
  | .error _ => ""

/-- The name of a construct of a class that has names, which may be empty. -/
def name? (node : Node) : Option String :=
  if node.construct.isNamed then some node.nameOrEmpty else none

/-- The name behind the colon of a definition. -/
def inherits? (node : Node) : Option String :=
  (node.token? .inheritance).map fun token => unescape token.text

/-- Is this definition partial? -/
def isPartial (node : Node) : Bool :=
  node.has .partiality

/-! ## Extended attributes -/

/-- The attributes of a list. -/
def items (node : Node) : List Node :=
  node.nodesAs .item

/-- Is the right-hand side of this attribute a list in parentheses? -/
def rhsIsList (node : Node) : Bool :=
  node.has .assign && !node.has .asterisk && !node.has .secondaryName

/-- The value of the token in a role that has to be filled. -/
def valueAs (node : Node) (role : Role) : Except Missing String :=
  (node.tokenIn role).map Token.value

/-- The right-hand side of an attribute: the asterisk, the one value, or the values of the list with
commas between them. -/
def rhs? (node : Node) : Except Missing (Option String) := do
  if node.has .asterisk then
    return some "*"
  match node.token? .secondaryName with
  | some token => return some token.value
  | none =>
    if node.rhsIsList then
      return some (",".intercalate (← (node.nodesAs .entry).mapM (·.valueAs .value)))
    return none

/-- Does this list of attributes have one of the given name?  The names are read up to the first that
is the given one. -/
def hasAttribute (node : Node) (name : String) : Except Missing Bool :=
  node.items.anyM fun item => return (← item.name) == name

/-! ## Types and defaults -/

/-- The generic that a type applies, such as `sequence`; empty for other types. -/
def genericName (node : Node) : Except Missing String :=
  if node.has .opening && node.construct != .unionType then node.valueAs .base else .ok ""

/-- Does the type apply the given generic? -/
def applies (node : Node) (generic : String) : Except Missing Bool :=
  node.genericName.map (· == generic)

/-- The words of a simple type with blanks between them; empty for generic and union types. -/
def typeName (node : Node) : String :=
  if node.construct == .unionType || node.has .opening then
    ""
  else
    " ".intercalate ([Role.sign, .base, .doubling].filterMap fun role =>
      (node.token? role).map Token.value)

/-- Does a question mark follow the type? -/
def isNullable (node : Node) : Bool :=
  node.has .nullable

/-- The spelling of a default value, without trivia. -/
def defaultText (node : Node) : String :=
  String.join ((node.tokensAs .expression).map Token.text)

end WebIdl.Node
