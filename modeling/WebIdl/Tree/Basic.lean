import WebIdl.Token.Basic

/-!
# The syntax tree

A tree is lossless: its nodes hold every token of the text, in source order.  A node says which
construct it is and lists its parts, each a token or a smaller node in a named role.  A role that a
construct leaves empty has no part, and a role that a construct fills several times, such as the
members of an interface, has one part for each filler.

Keeping the parts in one list makes the two views of a tree easy to relate: the tokens of a node
are the tokens of its parts in order, and the constructs below it are its node parts in order.
-/

namespace WebIdl

/-- The constructs of the language and of its extensions. -/
inductive Construct where
  | wrappedToken | extendedAttribute | extendedAttributes
  | type | unionType | default | argument
  | attribute | operation | constant | constructor | iterableLike | field | enumValue
  | interface | interfaceMixin | callbackInterface | namespaceDef | dictionary
  | callbackFunction | enumeration | typedef | includes | eof
  | bodylessInterface | callbackConstructor | legacyCaller
  | utf8StringRecord | utf8StringField | utf8StringTypedef
deriving DecidableEq, Repr, Inhabited

namespace Construct

/-- The type tag of a construct that no extension has renamed. -/
def tag : Construct → String
  | .wrappedToken => "wrapped token"
  | .extendedAttribute => "extended-attribute"
  | .extendedAttributes => "extended-attributes"
  | .type | .unionType => "type"
  | .default => "default"
  | .argument => "argument"
  | .attribute => "attribute"
  | .operation => "operation"
  | .constant => "const"
  | .constructor => "constructor"
  | .iterableLike => "iterable-like"
  | .field => "field"
  | .enumValue => "enum-value"
  | .interface => "interface"
  | .interfaceMixin => "interface mixin"
  | .callbackInterface => "callback interface"
  | .namespaceDef => "namespace"
  | .dictionary => "dictionary"
  | .callbackFunction => "callback"
  | .enumeration => "enum"
  | .typedef => "typedef"
  | .includes => "includes"
  | .eof => "eof"
  | .bodylessInterface => "bodyless interface"
  | .callbackConstructor => "callback constructor"
  | .legacyCaller => "legacycaller operation"
  | .utf8StringRecord => "utf8string record"
  | .utf8StringField => "utf8string field"
  | .utf8StringTypedef => "utf8string typedef"

/-- Types of every shape. -/
def isType : Construct → Bool
  | .type | .unionType | .utf8StringRecord => true
  | _ => false

/-- The definitions with a body of members. -/
def isContainer : Construct → Bool
  | .interface | .interfaceMixin | .callbackInterface | .namespaceDef | .dictionary => true
  | _ => false

/-- The constructs that have a name. -/
def isNamed : Construct → Bool
  | .extendedAttribute | .argument | .attribute | .operation | .constant | .field
  | .interface | .interfaceMixin | .callbackInterface | .namespaceDef | .dictionary
  | .callbackFunction | .enumeration | .typedef
  | .bodylessInterface | .callbackConstructor | .legacyCaller
  | .utf8StringField | .utf8StringTypedef => true
  | _ => false

/-- The constructs with names that may go without one. -/
def mayLackName : Construct → Bool
  | .operation | .legacyCaller => true
  | construct => construct.isContainer

end Construct

/-- What a part does in its construct. -/
inductive Role where
  /-- The extended attributes in front of a construct. -/
  | attributes
  /-- The comma or `or` that follows an item of a list. -/
  | separator
  | name | assign | asterisk
  /-- The right-hand side of an extended attribute. -/
  | secondaryName
  | opening | closing
  /-- A value or argument of an extended attribute. -/
  | entry
  /-- An extended attribute of a list. -/
  | item
  /-- The word `unsigned` or `unrestricted` before a numeric type. -/
  | sign
  /-- The keyword or name that a construct is built around. -/
  | base
  /-- The second `long` of `long long`. -/
  | doubling
  | subtype | nullable
  /-- A token of a default value. -/
  | expression
  | optional | type | variadic | default
  /-- A word before a member such as `static`, `getter` or `inherit`. -/
  | special
  | readonly | argument | value | async | typeArgument
  | argumentsOpening | argumentsClosing
  | required | callback | partiality | mixin | colon | inheritance | member
  /-- A value of an enumeration. -/
  | enumValue
  | target | includes | constructor
  /-- The semicolon that ends a construct. -/
  | termination
  /-- The closing token of a text. -/
  | eof
deriving DecidableEq, Repr, Inhabited

/-- What a node is. -/
structure Label where
  construct : Construct
  /-- The type tag, which extensions may change. -/
  tag : String := construct.tag
  /-- The syntactic position of a type, where it is known. -/
  place : Option String := none
deriving DecidableEq, Repr

mutual

/-- A construct and its parts in source order. -/
inductive Node where
  | mk (label : Label) (parts : List Part)
deriving Repr

/-- A token or a smaller construct, and its role. -/
inductive Part where
  | token (role : Role) (token : Token)
  | node (role : Role) (node : Node)
deriving Repr

end

instance : Inhabited Node := ⟨.mk ⟨.wrappedToken, "", none⟩ []⟩

namespace Node

def label : Node → Label
  | .mk label _ => label

def parts : Node → List Part
  | .mk _ parts => parts

def construct (node : Node) : Construct :=
  node.label.construct

def tag (node : Node) : String :=
  node.label.tag

end Node

namespace Part

/-- The part that an optional token makes: none, or one. -/
def ofToken? (role : Role) (token : Option Token) : List Part :=
  token.toList.map (Part.token role)

/-- The part that an optional node makes: none, or one. -/
def ofNode? (role : Role) (node : Option Node) : List Part :=
  node.toList.map (Part.node role)

/-- The parts that a list of nodes makes in one role. -/
def ofNodes (role : Role) (nodes : List Node) : List Part :=
  nodes.map (Part.node role)

/-- The token of this part, if it is one in the given role. -/
def tokenAs? (role : Role) : Part → Option Token
  | .token own leaf => if own = role then some leaf else none
  | .node _ _ => none

/-- The node of this part, if it is one in the given role. -/
def nodeAs? (role : Role) : Part → Option Node
  | .token _ _ => none
  | .node own inner => if own = role then some inner else none

/-- The node of this part, if it is one. -/
def node? : Part → Option Node
  | .token _ _ => none
  | .node _ inner => some inner

end Part

/-! ## Looking up parts -/

/-- A token is wanted that a construct does not have. -/
structure Missing where
  construct : Construct
  role : Role
deriving DecidableEq, Repr

/-- What is missing, in words.  The program has no words of its own for it. -/
def Missing.message (missing : Missing) : String :=
  s!"a token is missing in {missing.construct.tag}"

namespace Node

/-- The token in a role, if the role is filled. -/
def token? (node : Node) (role : Role) : Option Token :=
  node.parts.findSome? (Part.tokenAs? role)

/-- The token in a role that has to be filled. -/
def tokenIn (node : Node) (role : Role) : Except Missing Token :=
  match node.token? role with
  | some token => .ok token
  | none => .error ⟨node.construct, role⟩

/-- The node in a role, if the role is filled. -/
def node? (node : Node) (role : Role) : Option Node :=
  node.parts.findSome? (Part.nodeAs? role)

/-- All the tokens in a role. -/
def tokensAs (node : Node) (role : Role) : List Token :=
  node.parts.filterMap (Part.tokenAs? role)

/-- All the nodes in a role. -/
def nodesAs (node : Node) (role : Role) : List Node :=
  node.parts.filterMap (Part.nodeAs? role)

/-- The constructs directly below a node, in source order. -/
def children (node : Node) : List Node :=
  node.parts.filterMap Part.node?

/-- Is the role filled by a token? -/
def has (node : Node) (role : Role) : Bool :=
  (node.token? role).isSome

end Node

/-! ## Views of a whole tree -/

mutual

/-- The tokens of a node in source order. -/
def Node.tokens : Node → List Token
  | .mk _ parts => tokensOf parts

/-- The tokens of a list of parts in source order. -/
def tokensOf : List Part → List Token
  | [] => []
  | .token _ token :: rest => token :: tokensOf rest
  | .node _ node :: rest => node.tokens ++ tokensOf rest

end

mutual

/-- A node and all the constructs below it, each before those below it. -/
def Node.walk : Node → List Node
  | .mk label parts => .mk label parts :: walkOf parts

/-- The constructs in a list of parts, each before those below it. -/
def walkOf : List Part → List Node
  | [] => []
  | .token _ _ :: rest => walkOf rest
  | .node _ node :: rest => node.walk ++ walkOf rest

end

/-- The text of a token list: every token's trivia and lexeme. -/
def textOf (tokens : List Token) : String :=
  String.join (tokens.map Token.full)

namespace Node

/-- The text of a node, trivia included. -/
def text (node : Node) : String :=
  textOf node.tokens

/-- The first token of a node, if it has any. -/
def firstToken? (node : Node) : Option Token :=
  node.tokens.head?

end Node

/-! ## Views of joined lists -/

@[simp] theorem tokensOf_append (front back : List Part) :
    tokensOf (front ++ back) = tokensOf front ++ tokensOf back := by
  induction front with
  | nil => rfl
  | cons part rest ih => cases part <;> simp [tokensOf, ih]

@[simp] theorem walkOf_append (front back : List Part) :
    walkOf (front ++ back) = walkOf front ++ walkOf back := by
  induction front with
  | nil => rfl
  | cons part rest ih => cases part <;> simp [walkOf, ih]

@[simp] theorem tokensOf_ofToken? (role : Role) (token : Option Token) :
    tokensOf (Part.ofToken? role token) = token.toList := by
  cases token <;> rfl

@[simp] theorem tokensOf_ofNode? (role : Role) (node : Option Node) :
    tokensOf (Part.ofNode? role node) = node.toList.flatMap Node.tokens := by
  cases node <;> simp [Part.ofNode?, tokensOf]

@[simp] theorem tokensOf_ofNodes (role : Role) (nodes : List Node) :
    tokensOf (Part.ofNodes role nodes) = nodes.flatMap Node.tokens := by
  induction nodes with
  | nil => rfl
  | cons node rest ih =>
    have hcons : Part.ofNodes role (node :: rest) = .node role node :: Part.ofNodes role rest := rfl
    rw [hcons, tokensOf, ih, List.flatMap_cons]

end WebIdl
