import WebIdl.Tree.Edit

/-!
# What a tree says

The essence of a token is its kind, its lexeme and its trivia, without the place where they stand;
that of a tree leaves out, besides, the syntactic position that is noted for a type.  Trees of one
essence have the same constructs with the same type tags, and are written as the same text.
-/

namespace WebIdl

/-- A token without its place in the text. -/
def Token.essence (token : Token) : Token where
  kind := token.kind
  text := token.text
  trivia := token.trivia

mutual

/-- A tree without the places of its tokens and types. -/
def Node.essence : Node → Node
  | .mk label parts => .mk { label with place := none } (essenceOf parts)

/-- Parts without the places of their tokens and types. -/
def essenceOf : List Part → List Part
  | [] => []
  | .token role token :: rest => .token role token.essence :: essenceOf rest
  | .node role node :: rest => .node role node.essence :: essenceOf rest

end

namespace Token

@[simp] theorem kind_essence (token : Token) : token.essence.kind = token.kind := rfl

@[simp] theorem text_essence (token : Token) : token.essence.text = token.text := rfl

@[simp] theorem trivia_essence (token : Token) : token.essence.trivia = token.trivia := rfl

theorem essence_eq_iff {token other : Token} :
    token.essence = other.essence ↔
      token.kind = other.kind ∧ token.text = other.text ∧ token.trivia = other.trivia := by
  simp [essence]

end Token

@[simp] theorem essenceOf_append (front back : List Part) :
    essenceOf (front ++ back) = essenceOf front ++ essenceOf back := by
  induction front with
  | nil => rfl
  | cons part rest ih => cases part <;> simp [essenceOf, ih]

@[simp] theorem essenceOf_ofToken? (role : Role) (token : Option Token) :
    essenceOf (Part.ofToken? role token) = Part.ofToken? role (token.map Token.essence) := by
  cases token <;> rfl

@[simp] theorem essenceOf_ofNodes (role : Role) (nodes : List Node) :
    essenceOf (Part.ofNodes role nodes) = Part.ofNodes role (nodes.map Node.essence) := by
  induction nodes with
  | nil => rfl
  | cons node rest ih => exact congrArg (Part.node role node.essence :: ·) ih

mutual

@[simp] theorem Node.tokens_essence (node : Node) :
    node.essence.tokens = node.tokens.map Token.essence := by
  obtain ⟨label, parts⟩ := node
  simp [Node.essence, Node.tokens, tokensOf_essenceOf]

theorem tokensOf_essenceOf (parts : List Part) :
    tokensOf (essenceOf parts) = (tokensOf parts).map Token.essence := by
  match parts with
  | [] => rfl
  | .token _ _ :: rest => simp [essenceOf, tokensOf, tokensOf_essenceOf rest]
  | .node _ node :: rest =>
    simp [essenceOf, tokensOf, Node.tokens_essence node, tokensOf_essenceOf rest]

end

end WebIdl
