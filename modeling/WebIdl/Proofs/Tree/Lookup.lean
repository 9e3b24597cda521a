import WebIdl.Tree.View

/-!
# Looking up the parts of a node

What a node has in a role is found part by part.
-/

namespace WebIdl

namespace Node

section

variable {label : Label} {own role : Role} {parts : List Part}

@[simp] theorem token?_nil : (Node.mk label []).token? role = none := rfl

@[simp] theorem token?_node {node : Node} :
    (Node.mk label (.node own node :: parts)).token? role = (Node.mk label parts).token? role := by
  simp [Node.token?, Node.parts, List.findSome?_cons, Part.tokenAs?]

@[simp] theorem token?_token {token : Token} :
    (Node.mk label (.token own token :: parts)).token? role =
      if own = role then some token else (Node.mk label parts).token? role := by
  by_cases h : own = role <;> simp [Node.token?, Node.parts, Part.tokenAs?, h]

@[simp] theorem token?_ofToken? {token : Option Token} :
    (Node.mk label (Part.ofToken? own token ++ parts)).token? role =
      (if own = role then token else none).or ((Node.mk label parts).token? role) := by
  cases token with
  | none => simp [Part.ofToken?]
  | some token => by_cases h : own = role <;> simp [Part.ofToken?, h]

@[simp] theorem token?_ofToken?_last {token : Option Token} :
    (Node.mk label (Part.ofToken? own token)).token? role =
      if own = role then token else none := by
  have h := @token?_ofToken? label own role [] token
  simpa using h

@[simp] theorem token?_ofNodes {nodes : List Node} :
    (Node.mk label (Part.ofNodes own nodes ++ parts)).token? role =
      (Node.mk label parts).token? role := by
  induction nodes with
  | nil => rfl
  | cons node nodes ih =>
      rw [show Part.ofNodes own (node :: nodes) = .node own node :: Part.ofNodes own nodes from rfl,
        List.cons_append, token?_node, ih]

@[simp] theorem token?_ofNode? {node : Option Node} :
    (Node.mk label (Part.ofNode? own node ++ parts)).token? role =
      (Node.mk label parts).token? role :=
  token?_ofNodes

theorem token?_append {front back : List Part} :
    (Node.mk label (front ++ back)).token? role =
      ((Node.mk label front).token? role).or ((Node.mk label back).token? role) :=
  List.findSome?_append

/-- A token that is found in a role is one of the parts. -/
theorem mem_parts_of_token? {node : Node} {token : Token}
    (h : node.token? role = some token) : .token role token ∈ node.parts := by
  obtain ⟨part, hpart, hfound⟩ := List.exists_of_findSome?_eq_some h
  cases part with
  | token own leaf =>
      rw [Part.tokenAs?] at hfound
      split at hfound
      · rename_i hrole
        obtain rfl := Option.some.inj hfound
        rwa [hrole] at hpart
      · cases hfound
  | node own inner => cases hfound

@[simp] theorem node?_nil : (Node.mk label []).node? role = none := rfl

@[simp] theorem node?_token {token : Token} :
    (Node.mk label (.token own token :: parts)).node? role = (Node.mk label parts).node? role := by
  simp [Node.node?, Node.parts, List.findSome?_cons, Part.nodeAs?]

@[simp] theorem node?_node {node : Node} :
    (Node.mk label (.node own node :: parts)).node? role =
      if own = role then some node else (Node.mk label parts).node? role := by
  by_cases h : own = role <;> simp [Node.node?, Node.parts, Part.nodeAs?, h]

@[simp] theorem node?_ofToken?_last {token : Option Token} :
    (Node.mk label (Part.ofToken? own token)).node? role = none := by
  cases token <;> rfl

@[simp] theorem node?_ofNodes {nodes : List Node} :
    (Node.mk label (Part.ofNodes own nodes ++ parts)).node? role =
      if own = role then nodes.head?.or ((Node.mk label parts).node? role)
      else (Node.mk label parts).node? role := by
  induction nodes with
  | nil => simp [Part.ofNodes]
  | cons node nodes ih =>
      rw [show Part.ofNodes own (node :: nodes) = .node own node :: Part.ofNodes own nodes from rfl,
        List.cons_append, node?_node, ih]
      split <;> simp

theorem node?_append {front back : List Part} :
    (Node.mk label (front ++ back)).node? role =
      ((Node.mk label front).node? role).or ((Node.mk label back).node? role) :=
  List.findSome?_append

@[simp] theorem nodesAs_nil : (Node.mk label []).nodesAs role = [] := rfl

@[simp] theorem nodesAs_token {token : Token} :
    (Node.mk label (.token own token :: parts)).nodesAs role =
      (Node.mk label parts).nodesAs role := rfl

@[simp] theorem nodesAs_node {node : Node} :
    (Node.mk label (.node own node :: parts)).nodesAs role =
      if own = role then node :: (Node.mk label parts).nodesAs role
      else (Node.mk label parts).nodesAs role := by
  by_cases h : own = role <;> simp [Node.nodesAs, Node.parts, Part.nodeAs?, h]

@[simp] theorem nodesAs_ofNodes {nodes : List Node} :
    (Node.mk label (Part.ofNodes role nodes ++ parts)).nodesAs role =
      nodes ++ (Node.mk label parts).nodesAs role := by
  induction nodes with
  | nil => rfl
  | cons node nodes ih =>
      simp only [Node.nodesAs, Node.parts, Part.ofNodes, List.map_cons, List.cons_append] at ih ⊢
      rw [List.filterMap_cons_some (b := node) (by simp [Part.nodeAs?]), ih]

/-- Nodes that are found in a role are among the parts. -/
theorem mem_parts_of_nodesAs {node inner : Node} (h : inner ∈ node.nodesAs role) :
    .node role inner ∈ node.parts := by
  obtain ⟨part, hpart, hnode⟩ := List.mem_filterMap.mp h
  cases part with
  | token own token => cases hnode
  | node own inner =>
      rw [Part.nodeAs?] at hnode
      split at hnode
      · rename_i hown
        obtain rfl := Option.some.inj hnode
        exact hown ▸ hpart
      · cases hnode

/-- A node that is found in a role is one of the parts. -/
theorem mem_parts_of_node? {node inner : Node} (h : node.node? role = some inner) :
    .node role inner ∈ node.parts := by
  obtain ⟨part, hpart, hfound⟩ := List.exists_of_findSome?_eq_some h
  exact mem_parts_of_nodesAs (List.mem_filterMap.mpr ⟨part, hpart, hfound⟩)

@[simp] theorem construct_mk : (Node.mk label parts).construct = label.construct := rfl

end

end Node

theorem mem_tokensOf_of_token {parts : List Part} {role : Role} {token : Token}
    (h : .token role token ∈ parts) : token ∈ tokensOf parts := by
  obtain ⟨front, back, rfl⟩ := List.append_of_mem h
  simp [tokensOf]

theorem mem_tokens_of_token? {node : Node} {role : Role} {token : Token}
    (h : node.token? role = some token) : token ∈ node.tokens := by
  obtain ⟨label, parts⟩ := node
  rw [Node.tokens]
  exact mem_tokensOf_of_token (Node.mem_parts_of_token? h)

/-! ## Walks -/

/-- A construct below some parts is one of them, or below one of them. -/
theorem mem_walkOf {inner : Node} {parts : List Part} :
    inner ∈ walkOf parts ↔ ∃ role node, .node role node ∈ parts ∧ inner ∈ node.walk := by
  induction parts with
  | nil => simp [walkOf]
  | cons part parts ih =>
      cases part with
      | token role token => simp [walkOf, ih]
      | node role node =>
          rw [walkOf, List.mem_append, ih]
          constructor
          · rintro (hhere | ⟨own, other, hpart, hinner⟩)
            · exact ⟨role, node, List.mem_cons_self, hhere⟩
            · exact ⟨own, other, List.mem_cons_of_mem _ hpart, hinner⟩
          · rintro ⟨own, other, hpart, hinner⟩
            rcases List.mem_cons.mp hpart with heq | hrest
            · obtain ⟨rfl, rfl⟩ := Part.node.inj heq
              exact Or.inl hinner
            · exact Or.inr ⟨own, other, hrest, hinner⟩

theorem mem_walk {inner : Node} {label : Label} {parts : List Part} :
    inner ∈ (Node.mk label parts).walk ↔
      inner = .mk label parts ∨ ∃ role node, .node role node ∈ parts ∧ inner ∈ node.walk := by
  rw [Node.walk, List.mem_cons, mem_walkOf]

end WebIdl
