import WebIdl.Proofs.Tree.Essence
import WebIdl.Proofs.Validation.Objections

/-!
# Trees with other tokens

`Node.map` puts another token in the place of each token of a tree, and another label in the place of
each label, and changes nothing else.  As long as kinds and lexemes, constructs and type tags stay as
they are (`Faithful`), every reading of the tree stays as it is too, and so does what the rules object
to (`objections_map`): no rule looks at trivia, or at where a token stands.
-/

namespace WebIdl

mutual

/-- The tree with other tokens and labels. -/
def Node.map (edit : Token → Token) (relabel : Label → Label) : Node → Node
  | .mk label parts => .mk (relabel label) (mapParts edit relabel parts)

/-- The parts with other tokens and labels. -/
def mapParts (edit : Token → Token) (relabel : Label → Label) : List Part → List Part
  | [] => []
  | .token role token :: rest => .token role (edit token) :: mapParts edit relabel rest
  | .node role node :: rest => .node role (node.map edit relabel) :: mapParts edit relabel rest

end

section

variable {edit : Token → Token} {relabel : Label → Label}

@[simp] theorem mapParts_append (front back : List Part) :
    mapParts edit relabel (front ++ back) =
      mapParts edit relabel front ++ mapParts edit relabel back := by
  induction front with
  | nil => rfl
  | cons part rest ih => cases part <;> simp [mapParts, ih]

@[simp] theorem mapParts_ofToken? (role : Role) (token : Option Token) :
    mapParts edit relabel (Part.ofToken? role token) = Part.ofToken? role (token.map edit) := by
  cases token <;> rfl

@[simp] theorem mapParts_ofNodes (role : Role) (nodes : List Node) :
    mapParts edit relabel (Part.ofNodes role nodes) =
      Part.ofNodes role (nodes.map (Node.map edit relabel)) := by
  induction nodes with
  | nil => rfl
  | cons node rest ih => exact congrArg (Part.node role (node.map edit relabel) :: ·) ih

@[simp] theorem mapParts_ofNode? (role : Role) (node : Option Node) :
    mapParts edit relabel (Part.ofNode? role node) =
      Part.ofNode? role (node.map (Node.map edit relabel)) := by
  cases node <;> rfl

mutual

/-- The essence of a tree is the tree with other tokens and labels. -/
theorem Node.essence_eq_map (node : Node) :
    node.essence = node.map Token.essence fun label => { label with place := none } := by
  match node with
  | .mk label parts => rw [Node.essence, Node.map, essenceOf_eq_mapParts parts]

theorem essenceOf_eq_mapParts (parts : List Part) :
    essenceOf parts = mapParts Token.essence (fun label => { label with place := none }) parts := by
  match parts with
  | [] => rfl
  | .token _ _ :: rest => rw [essenceOf, mapParts, essenceOf_eq_mapParts rest]
  | .node _ node :: rest =>
      rw [essenceOf, mapParts, Node.essence_eq_map node, essenceOf_eq_mapParts rest]

end

end

mutual

theorem Node.map_id (node : Node) : node.map id id = node := by
  obtain ⟨label, parts⟩ := node
  rw [Node.map, mapParts_id parts]
  rfl

theorem mapParts_id (parts : List Part) : mapParts id id parts = parts := by
  match parts with
  | [] => rfl
  | .token role token :: rest => rw [mapParts, mapParts_id rest]; rfl
  | .node role node :: rest => rw [mapParts, mapParts_id rest, Node.map_id node]

end

/-! ## Readings -/

/-- The edits change neither kinds nor lexemes, neither constructs nor type tags. -/
structure Faithful (edit : Token → Token) (relabel : Label → Label) : Prop where
  kind_eq : ∀ token, (edit token).kind = token.kind
  text_eq : ∀ token, (edit token).text = token.text
  construct_eq : ∀ label, (relabel label).construct = label.construct
  tag_eq : ∀ label, (relabel label).tag = label.tag

theorem faithful_essence : Faithful Token.essence fun label => { label with place := none } where
  kind_eq _ := rfl
  text_eq _ := rfl
  construct_eq _ := rfl
  tag_eq _ := rfl

namespace Node

variable {edit : Token → Token} {relabel : Label → Label}

theorem token?_map (node : Node) (role : Role) :
    (node.map edit relabel).token? role = (node.token? role).map edit := by
  obtain ⟨label, parts⟩ := node
  rw [Node.map]
  induction parts with
  | nil => rfl
  | cons part rest ih =>
      cases part with
      | token own token => by_cases hrole : own = role <;> simp [mapParts, hrole, ih]
      | node own inner => simp [mapParts, ih]

theorem node?_map (node : Node) (role : Role) :
    (node.map edit relabel).node? role = (node.node? role).map (Node.map edit relabel) := by
  obtain ⟨label, parts⟩ := node
  rw [Node.map]
  induction parts with
  | nil => rfl
  | cons part rest ih =>
      cases part with
      | token own token => simp [mapParts, ih]
      | node own inner => by_cases hrole : own = role <;> simp [mapParts, hrole, ih]

theorem nodesAs_map (node : Node) (role : Role) :
    (node.map edit relabel).nodesAs role = (node.nodesAs role).map (Node.map edit relabel) := by
  obtain ⟨label, parts⟩ := node
  rw [Node.map]
  induction parts with
  | nil => rfl
  | cons part rest ih =>
      cases part with
      | token own token => simp [mapParts, ih]
      | node own inner => by_cases hrole : own = role <;> simp [mapParts, hrole, ih]

@[simp] theorem has_map (node : Node) (role : Role) :
    (node.map edit relabel).has role = node.has role := by
  simp [has, token?_map]

/-- The generic that a type applies depends on its bracket and on its base. -/
theorem genericName_congr {node other : Node} (hconstruct : other.construct = node.construct)
    (hopening : other.has .opening = node.has .opening)
    (hbase : (other.token? .base).map Token.value = (node.token? .base).map Token.value) :
    other.genericName = node.genericName := by
  have hvalue : other.valueAs .base = node.valueAs .base := by
    simp only [valueAs, tokenIn, hconstruct]
    cases hother : other.token? .base <;> cases hnode : node.token? .base <;>
      simp_all [Except.map]
  simp only [genericName, hconstruct, hopening, hvalue]

/-- The words of a simple type depend on three of its tokens. -/
theorem typeName_congr {node other : Node} (hconstruct : other.construct = node.construct)
    (hopening : other.has .opening = node.has .opening)
    (hwords : ∀ role ∈ [Role.sign, .base, .doubling],
      (other.token? role).map Token.value = (node.token? role).map Token.value) :
    other.typeName = node.typeName := by
  have hsign := hwords .sign (by simp)
  have hbase := hwords .base (by simp)
  have hdoubling := hwords .doubling (by simp)
  simp only [typeName, List.filterMap_cons, List.filterMap_nil, hconstruct, hopening, hsign, hbase,
    hdoubling]

@[simp] theorem isNullable_map (node : Node) :
    (node.map edit relabel).isNullable = node.isNullable := has_map node _

@[simp] theorem isPartial_map (node : Node) :
    (node.map edit relabel).isPartial = node.isPartial := has_map node _

end Node

namespace Faithful

variable {edit : Token → Token} {relabel : Label → Label}

theorem value_eq (h : Faithful edit relabel) (token : Token) : (edit token).value = token.value := by
  simp only [Token.value, h.kind_eq, h.text_eq]

theorem node_construct (h : Faithful edit relabel) (node : Node) :
    (node.map edit relabel).construct = node.construct := by
  obtain ⟨label, parts⟩ := node
  exact h.construct_eq label

theorem node_tag (h : Faithful edit relabel) (node : Node) :
    (node.map edit relabel).tag = node.tag := by
  obtain ⟨label, parts⟩ := node
  exact h.tag_eq label

theorem node_name (h : Faithful edit relabel) (node : Node) :
    (node.map edit relabel).nameOrEmpty = node.nameOrEmpty := by
  simp only [Node.nameOrEmpty_eq, Node.token?_map, h.node_construct]
  cases node.token? .name with
  | none => rfl
  | some token => simp [h.value_eq, h.text_eq]

theorem node_bears (h : Faithful edit relabel) (node : Node) (name : String) :
    (node.map edit relabel).bears name = node.bears name := by
  simp [Node.bears, Node.items, Node.nodesAs_map, List.any_map, Function.comp_def, h.node_name]

theorem token?_value (h : Faithful edit relabel) (node : Node) (role : Role) :
    ((node.map edit relabel).token? role).map Token.value = (node.token? role).map Token.value := by
  rw [Node.token?_map, Option.map_map]
  exact Option.map_congr fun token _ => h.value_eq token

theorem node_genericName (h : Faithful edit relabel) (node : Node) :
    (node.map edit relabel).genericName = node.genericName :=
  Node.genericName_congr (h.node_construct node) (Node.has_map node _) (h.token?_value node _)

theorem node_genericOrEmpty (h : Faithful edit relabel) (node : Node) :
    (node.map edit relabel).genericOrEmpty = node.genericOrEmpty := by
  rw [Node.genericOrEmpty, Node.genericOrEmpty, h.node_genericName]

theorem node_typeName (h : Faithful edit relabel) (node : Node) :
    (node.map edit relabel).typeName = node.typeName :=
  Node.typeName_congr (h.node_construct node) (Node.has_map node _) fun role _ =>
    h.token?_value node role

end Faithful

/-! ## Places -/

section

variable {edit : Token → Token} {relabel : Label → Label}

mutual

theorem Node.located_map (node : Node) :
    (node.map edit relabel).located =
      node.located.map fun entry => (entry.1, entry.2.map edit relabel) := by
  match node with
  | .mk label parts =>
      simp only [Node.map, Node.located, List.map_cons]
      rw [locatedFrom_mapParts 0 parts]

theorem locatedFrom_mapParts (number : Nat) (parts : List Part) :
    locatedFrom number (mapParts edit relabel parts) =
      (locatedFrom number parts).map fun entry => (entry.1, entry.2.map edit relabel) := by
  match parts with
  | [] => rfl
  | .token _ _ :: rest => simp [mapParts, locatedFrom, locatedFrom_mapParts number rest]
  | .node _ node :: rest =>
      simp only [mapParts, locatedFrom, List.map_append, List.map_map,
        locatedFrom_mapParts (number + 1) rest, Node.located_map node]
      rfl

end

theorem located_map (items : List Node) :
    located (items.map (Node.map edit relabel)) =
      (located items).map fun entry => (entry.1, entry.2.map edit relabel) := by
  simp only [located, List.zipIdx_map, List.flatMap_map, List.map_flatMap, Prod.map, id,
    Node.located_map, List.map_map]
  rfl

theorem Node.numberedAs_map (node : Node) (role : Role) :
    (node.map edit relabel).numberedAs role =
      (node.numberedAs role).map fun entry => (entry.1, entry.2.map edit relabel) := by
  obtain ⟨label, parts⟩ := node
  have hgo (number : Nat) : numberedAs.go role number (mapParts edit relabel parts) =
      (numberedAs.go role number parts).map fun entry => (entry.1, entry.2.map edit relabel) := by
    induction parts generalizing number with
    | nil => rfl
    | cons part rest ih =>
        cases part with
        | token own token => simpa [mapParts, numberedAs.go] using ih number
        | node own inner => by_cases hrole : own = role <;> simp [mapParts, numberedAs.go, hrole, ih]
  exact hgo 0

end

/-! ## Rules -/

/-- The diagnostic with another token. -/
def Diagnostic.mapToken (edit : Token → Token) (diagnostic : Diagnostic) : Diagnostic :=
  { diagnostic with token := diagnostic.token.map edit }

namespace Rule

variable {edit : Token → Token} {relabel : Label → Label} (h : Faithful edit relabel)

include h

theorem definitionsOf_map (items : List Node) :
    definitionsOf (items.map (Node.map edit relabel)) =
      (definitionsOf items).map fun entry => (entry.1, entry.2.map edit relabel) := by
  have hdefinition (node : Node) : (node.map edit relabel).isDefinition = node.isDefinition := by
    rw [Node.isDefinition, Node.isDefinition, h.node_construct]
  simp only [definitionsOf, List.zipIdx_map, List.map_map, List.filter_map, Function.comp_def,
    Prod.map, id, hdefinition]

theorem dictionariesNamed_map (items : List Node) (name : String) :
    dictionariesNamed (items.map (Node.map edit relabel)) name =
      (dictionariesNamed items name).map (Node.map edit relabel) := by
  simp only [dictionariesNamed, List.filter_map, Function.comp_def, h.node_construct, h.node_name]

theorem isDictionary_map (items : List Node) (name : String) :
    isDictionary (items.map (Node.map edit relabel)) name = isDictionary items name := by
  simp [isDictionary, dictionariesNamed_map h]

theorem hasRequiredField_map (items : List Node) (name : String) :
    hasRequiredField (items.map (Node.map edit relabel)) name = hasRequiredField items name := by
  simp [hasRequiredField, dictionariesNamed_map h, Node.nodesAs_map, List.any_map, Function.comp_def]

theorem replaceVoidOn_map (items : List Node) :
    replaceVoidOn (items.map (Node.map edit relabel)) =
      (replaceVoidOn items).map (Diagnostic.mapToken edit) := by
  simp only [replaceVoidOn, located_map, List.filterMap_map, List.map_filterMap]
  refine congrArg (List.filterMap · (located items)) (funext fun entry => ?_)
  simp only [Function.comp_def, Node.token?_map, h.node_construct]
  cases entry.2.token? .base with
  | none => rfl
  | some base =>
      simp only [Option.map_some, Option.bind_some, bind, h.text_eq]
      split <;> rfl

theorem bearsExposure_map (node : Node) : bearsExposure (node.map edit relabel) = bearsExposure node := by
  simp only [bearsExposure, Node.node?_map]
  cases node.node? .attributes with
  | none => rfl
  | some attributes => simp [h.node_bears]

theorem needsExposure_map (node : Node) :
    needsExposure (node.map edit relabel) = needsExposure node := by
  simp [needsExposure, h.node_construct]

theorem exposureObjection_map (site : Site) (node : Node) :
    exposureObjection site (node.map edit relabel) =
      (exposureObjection site node).mapToken edit := by
  simp only [exposureObjection, Diagnostic.mapToken, h.node_tag, h.node_name, Node.token?_map]

theorem exposureObjections_map (items : List Node) :
    exposureObjections (items.map (Node.map edit relabel)) =
      (exposureObjections items).map (Diagnostic.mapToken edit) := by
  simp only [exposureObjections, definitionsOf_map h, List.filter_map, List.map_map, Function.comp_def,
    needsExposure_map h, bearsExposure_map h, exposureObjection_map h]

omit h in
theorem renamingObjection_map (site : Site) (node : Node) (name newName : String) :
    renamingObjection site (node.map edit relabel) name newName =
      (renamingObjection site node name newName).mapToken edit := by
  simp only [renamingObjection, Diagnostic.mapToken, Node.token?_map]

theorem renamingObjections_map (items : List Node) :
    renamingObjections (items.map (Node.map edit relabel)) =
      (renamingObjections items).map (Diagnostic.mapToken edit) := by
  simp only [renamingObjections, located_map, List.filterMap_map, List.map_filterMap]
  refine congrArg (List.filterMap · (located items)) (funext fun entry => ?_)
  simp only [Function.comp_def, h.node_construct, h.node_name]
  by_cases hattribute : (entry.2.construct == .extendedAttribute) = true
  · simp only [hattribute, if_true, Option.map_map]
    exact congrArg (Option.map · _) (funext (renamingObjection_map entry.1 entry.2 _))
  · simp [hattribute]

theorem lacksDefault_map (items : List Node) (argument : Node) :
    lacksDefault (items.map (Node.map edit relabel)) (argument.map edit relabel) =
      lacksDefault items argument := by
  simp only [lacksDefault, Node.node?_map]
  cases argument.node? .type with
  | none => rfl
  | some type =>
      simp [h.node_construct, h.node_typeName, isDictionary_map h, hasRequiredField_map h]

omit h in
theorem defaultObjection_map (site : Site) (argument : Node) :
    defaultObjection site (argument.map edit relabel) =
      (defaultObjection site argument).mapToken edit := by
  simp only [defaultObjection, Diagnostic.mapToken, Node.token?_map]

theorem dictArgDefaultOn_map (items : List Node) :
    dictArgDefaultOn (items.map (Node.map edit relabel)) =
      (dictArgDefaultOn items).map (Diagnostic.mapToken edit) := by
  simp only [dictArgDefaultOn, located_map, List.flatMap_map, List.map_flatMap, Node.numberedAs_map,
    List.filter_map, List.map_map, Function.comp_def, lacksDefault_map h, defaultObjection_map]

theorem duplicateObjection_map (site : Site) (node : Node) (tag : String) :
    duplicateObjection site (node.map edit relabel) tag =
      (duplicateObjection site node tag).mapToken edit := by
  simp only [duplicateObjection, Diagnostic.mapToken, h.node_name, Node.token?_map]

theorem claimsName_map (node : Node) : claimsName (node.map edit relabel) = claimsName node := by
  simp [claimsName, h.node_tag, h.node_construct, h.node_name]

theorem duplicatesFrom_map (claimed : List Node) (found : List (Site × Node)) :
    duplicatesFrom (claimed.map (Node.map edit relabel))
        (found.map fun entry => (entry.1, entry.2.map edit relabel)) =
      (duplicatesFrom claimed found).map (Diagnostic.mapToken edit) := by
  induction found generalizing claimed with
  | nil => rfl
  | cons entry rest ih =>
      obtain ⟨site, node⟩ := entry
      simp only [List.map_cons, duplicatesFrom, List.find?_map, Function.comp_def, h.node_name]
      cases claimed.find? (·.nameOrEmpty == node.nameOrEmpty) with
      | none =>
          have happend : claimed.map (Node.map edit relabel) ++ [node.map edit relabel] =
              (claimed ++ [node]).map (Node.map edit relabel) := by simp
          rw [Option.map_none, happend]
          exact ih (claimed ++ [node])
      | some first =>
          simp only [Option.map_some, List.map_cons, h.node_tag, ih claimed, duplicateObjection_map h]

theorem noDuplicateOn_map (items : List Node) :
    noDuplicateOn (items.map (Node.map edit relabel)) =
      (noDuplicateOn items).map (Diagnostic.mapToken edit) := by
  simp only [noDuplicateOn, definitionsOf_map h, List.filter_map, Function.comp_def, claimsName_map h]
  exact duplicatesFrom_map h [] _

theorem invalidReason?_map (items : List Node) (type : Node) :
    invalidReason? (items.map (Node.map edit relabel)) (type.map edit relabel) =
      invalidReason? items type := by
  simp only [invalidReason?, h.node_genericOrEmpty, h.node_typeName, isDictionary_map h]

omit h in
theorem typeObjection_map (site : Site) (node : Node) (reason : String) :
    typeObjection site (node.map edit relabel) reason =
      (typeObjection site node reason).mapToken edit := by
  simp only [typeObjection, Diagnostic.mapToken, Node.token?_map]

theorem typeObjections_map (items : List Node) :
    typeObjections (items.map (Node.map edit relabel)) =
      (typeObjections items).map (Diagnostic.mapToken edit) := by
  simp only [typeObjections, located_map, List.filterMap_map, List.map_filterMap]
  refine congrArg (List.filterMap · (located items)) (funext fun entry => ?_)
  simp only [Function.comp_def, Node.node?_map, h.node_construct]
  cases entry.2.node? .type with
  | none => rfl
  | some type =>
      simp only [Option.map_some, Option.bind_some, h.node_construct, invalidReason?_map h, bind]
      split
      · simp only [Option.map_map]
        exact congrArg (Option.map · _) (funext (typeObjection_map entry.1 entry.2))
      · rfl

theorem objections_map (rule : Rule) (items : List Node) :
    rule.objections (items.map (Node.map edit relabel)) =
      (rule.objections items).map (Diagnostic.mapToken edit) := by
  cases rule with
  | replaceVoid => exact replaceVoidOn_map h items
  | requireExposed => exact exposureObjections_map h items
  | renamedLegacy => exact renamingObjections_map h items
  | dictArgDefault => exact dictArgDefaultOn_map h items
  | noDuplicate => exact noDuplicateOn_map h items
  | attrInvalidType => exact typeObjections_map h items

end Rule

/-- What the rules object to does not depend on trivia and places. -/
theorem objections_map {edit : Token → Token} {relabel : Label → Label} (h : Faithful edit relabel)
    (rules : List Rule) (items : List Node) :
    objections rules (items.map (Node.map edit relabel)) =
      (objections rules items).map (Diagnostic.mapToken edit) := by
  simp only [objections, List.map_flatMap, Rule.objections_map h]

end WebIdl
