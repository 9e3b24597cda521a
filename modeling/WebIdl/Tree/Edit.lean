import WebIdl.Tree.Basic

/-!
# Editing a tree

Small changes to one node, and the way to reach a node inside a tree.  A path names a node by the
numbers of the children to descend through; an edit along a path leaves every other node as it is.
-/

namespace WebIdl

namespace Node

/-! ## Filling roles -/

/-- A list of extended attributes that is not written at all. -/
def noAttributes : Node :=
  .mk { construct := .extendedAttributes } []

/-- Puts extended attributes in front of a node.  Constructs that take attributes start with the
part that holds them; other constructs stay as they are. -/
def withAttributes (node attributes : Node) : Node :=
  match node with
  | .mk label (.node .attributes _ :: rest) => .mk label (.node .attributes attributes :: rest)
  | other => other

/-- Adds the separator that follows a list item, if there is one. -/
def withSeparator (separator : Option Token) : Node → Node
  | .mk label parts => .mk label (parts ++ Part.ofToken? .separator separator)

/-- Notes the syntactic position of a type. -/
def withPlace (place : Option String) : Node → Node
  | .mk label parts =>
    if label.construct.isType then .mk { label with place } parts else .mk label parts

/-- Replaces the first token in a role, if there is one, by what `edit` makes of it. -/
def mapToken (role : Role) (edit : Token → Token) : Node → Node
  | .mk label parts => .mk label (go parts)
where
  go : List Part → List Part
    | [] => []
    | .token own token :: rest =>
      if own = role then .token own (edit token) :: rest else .token own token :: go rest
    | part :: rest => part :: go rest

/-- Replaces the first token in a role, which has to be filled, by what `edit` makes of it. -/
def modifyToken (role : Role) (edit : Token → Token) (node : Node) : Except Missing Node :=
  (node.tokenIn role).map fun _ => node.mapToken role edit

end Node

/-! ## The tokens of changed nodes -/

namespace Node

@[simp] theorem tokens_noAttributes : noAttributes.tokens = [] := by
  simp [noAttributes, Node.tokens, tokensOf]

@[simp] theorem tokens_withSeparator (separator : Option Token) (node : Node) :
    (node.withSeparator separator).tokens = node.tokens ++ separator.toList := by
  obtain ⟨label, parts⟩ := node
  simp [withSeparator, Node.tokens]

@[simp] theorem tokens_withPlace (place : Option String) (node : Node) :
    (node.withPlace place).tokens = node.tokens := by
  obtain ⟨label, parts⟩ := node
  simp only [withPlace]
  split <;> simp [Node.tokens]

/-- Attributes take the place of those that are not written. -/
theorem tokens_withAttributes {label : Label} {parts : List Part} (attributes : Node) :
    (withAttributes (.mk label (.node .attributes noAttributes :: parts)) attributes).tokens =
      attributes.tokens ++ (Node.mk label (.node .attributes noAttributes :: parts)).tokens := by
  simp [withAttributes, Node.tokens, tokensOf]

end Node

/-! ## Paths -/

namespace Part

/-- Replaces the child with the given number among the nodes of a list of parts. -/
def modifyChild (edit : Node → Node) : Nat → List Part → List Part
  | _, [] => []
  | 0, .node role child :: rest => .node role (edit child) :: rest
  | number + 1, .node role child :: rest => .node role child :: modifyChild edit number rest
  | number, part :: rest => part :: modifyChild edit number rest

end Part

namespace Node

/-- Changes the node at the end of a path. -/
def modifyAt (edit : Node → Node) : List Nat → Node → Node
  | [], node => edit node
  | number :: path, .mk label parts =>
    .mk label (Part.modifyChild (modifyAt edit path) number parts)

/-- The node at the end of a path. -/
def at? : List Nat → Node → Option Node
  | [], node => some node
  | number :: path, node => node.children[number]?.bind (at? path)

end Node

mutual

/-- Every node of a tree with its path, in the order of `Node.walk`. -/
def Node.located : Node → List (List Nat × Node)
  | .mk label parts => ([], .mk label parts) :: locatedFrom 0 parts

/-- The nodes of a list of parts with their paths; the first child has the given number. -/
def locatedFrom (number : Nat) : List Part → List (List Nat × Node)
  | [] => []
  | .token _ _ :: rest => locatedFrom number rest
  | .node _ node :: rest =>
    node.located.map (fun (path, inner) => (number :: path, inner)) ++
      locatedFrom (number + 1) rest

end

mutual

/-- The located nodes of a tree are its nodes. -/
theorem map_located (node : Node) : node.located.map (·.2) = node.walk := by
  obtain ⟨label, parts⟩ := node
  simp [Node.located, Node.walk, map_locatedFrom]

theorem map_locatedFrom (number : Nat) (parts : List Part) :
    (locatedFrom number parts).map (·.2) = walkOf parts := by
  match parts with
  | [] => rfl
  | .token _ _ :: rest => simp [locatedFrom, walkOf, map_locatedFrom number rest]
  | .node _ node :: rest =>
    have hnode := map_located node
    have hrest := map_locatedFrom (number + 1) rest
    simp only [locatedFrom, walkOf, List.map_append, List.map_map, hrest]
    rw [← hnode]
    rfl

end

/-- The children in a role, each with its number among all the children. -/
def Node.numberedAs (node : Node) (role : Role) : List (Nat × Node) :=
  go 0 node.parts
where
  go (number : Nat) : List Part → List (Nat × Node)
    | [] => []
    | .token _ _ :: rest => go number rest
    | .node own child :: rest =>
      if own = role then (number, child) :: go (number + 1) rest else go (number + 1) rest

end WebIdl
