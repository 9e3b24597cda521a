import WebIdl.Proofs.Tree.Lookup
import WebIdl.Validation.Rule

/-!
# What the rules object to

A rule fails if it wants a token that a construct lacks.  In items where nothing that a rule may want
is lacking (`Legible`) no rule fails, and what the rules find is a plain list, `objections`
(`validate_eq_ok`).  Facts about what is found are facts about that list.
-/

namespace WebIdl

/-! ## Loops that never fail -/

section

variable {ε α β : Type} {list : List α}

theorem anyM_eq_ok {test : α → Except ε Bool} {plain : α → Bool}
    (h : ∀ item ∈ list, test item = .ok (plain item)) : list.anyM test = .ok (list.any plain) := by
  induction list with
  | nil => rfl
  | cons item rest ih =>
      obtain ⟨hitem, hrest⟩ := List.forall_mem_cons.mp h
      rw [List.anyM, hitem]
      cases hplain : plain item with
      | true => simp [hplain, bind, Except.bind, pure, Except.pure]
      | false => simpa [hplain, bind, Except.bind] using ih hrest

theorem filterMapM_eq_ok {pick : α → Except ε (Option β)} {plain : α → Option β}
    (h : ∀ item ∈ list, pick item = .ok (plain item)) :
    list.filterMapM pick = .ok (list.filterMap plain) := by
  induction list with
  | nil => rfl
  | cons item rest ih =>
      obtain ⟨hitem, hrest⟩ := List.forall_mem_cons.mp h
      rw [List.filterMapM_cons, hitem]
      cases hplain : plain item <;>
        simp [hplain, ih hrest, bind, Except.bind, pure, Except.pure]

theorem flatMapM_eq_ok {expand : α → Except ε (List β)} {plain : α → List β}
    (h : ∀ item ∈ list, expand item = .ok (plain item)) :
    list.flatMapM expand = .ok (list.flatMap plain) := by
  induction list with
  | nil => rfl
  | cons item rest ih =>
      obtain ⟨hitem, hrest⟩ := List.forall_mem_cons.mp h
      rw [List.flatMapM_cons, hitem]
      simp [ih hrest, bind, Except.bind, pure, Except.pure]

end

/-! ## Readings -/

namespace Node

/-- The generic that a type applies; empty if it applies none, or one that is not there. -/
def genericOrEmpty (node : Node) : String :=
  match node.genericName with
  | .ok generic => generic
  | .error _ => ""

/-- Does this list of attributes have one of the given name? -/
def bears (node : Node) (name : String) : Bool :=
  node.items.any (·.nameOrEmpty == name)

/-- The name of a construct is that of its token. -/
theorem nameOrEmpty_eq (node : Node) :
    node.nameOrEmpty = ((node.token? .name).map fun token =>
      if node.construct == .extendedAttribute then token.value else unescape token.text).getD "" := by
  rw [nameOrEmpty, name]
  cases node.token? .name with
  | none => cases node.construct.mayLackName <;> rfl
  | some token => rfl

theorem name_eq_ok {node : Node} (h : ∃ name, node.name = .ok name) :
    node.name = .ok node.nameOrEmpty := by
  obtain ⟨name, hname⟩ := h
  rw [nameOrEmpty, hname]

theorem genericName_eq_ok {node : Node} (h : ∃ generic, node.genericName = .ok generic) :
    node.genericName = .ok node.genericOrEmpty := by
  obtain ⟨generic, hgeneric⟩ := h
  rw [genericOrEmpty, hgeneric]

/-- Nothing that a rule may want of a construct is lacking: its name, the names of its attributes, and
the generic of its type. -/
structure IsLegible (node : Node) : Prop where
  name : node.construct = .extendedAttribute → ∃ name, node.name = .ok name
  attributes : ∀ attributes, node.node? .attributes = some attributes →
    ∀ item ∈ attributes.items, ∃ name, item.name = .ok name
  type : ∀ type, node.node? .type = some type → type.construct.isType = true →
    ∃ generic, type.genericName = .ok generic

end Node

/-- Nothing that a rule may want of the items and of what is inside them is lacking. -/
def Legible (items : List Node) : Prop :=
  ∀ site node, (site, node) ∈ located items → node.IsLegible

/-! ## Rules -/

namespace Rule

/-- Is this definition exposed, or does it need not be? -/
def bearsExposure (definition : Node) : Bool :=
  let attributes := (definition.node? .attributes).getD Node.noAttributes
  attributes.bears "Exposed" || attributes.bears "LegacyNoInterfaceObject"

/-- The interfaces and namespaces that must be exposed and are not. -/
def exposureObjections (items : List Node) : List Diagnostic :=
  ((definitionsOf items).filter fun (_, node) => needsExposure node && !bearsExposure node).map
    fun (site, node) => exposureObjection site node

/-- The extended attributes that have got a new name. -/
def renamingObjections (items : List Node) : List Diagnostic :=
  (located items).filterMap fun (site, node) =>
    if node.construct == .extendedAttribute then
      (legacyNames.lookup node.nameOrEmpty).map (renamingObjection site node node.nameOrEmpty)
    else
      none

/-- What is wrong with the type of an attribute. -/
def invalidReason? (items : List Node) (type : Node) : Option String :=
  if ["sequence", "record"].contains type.genericOrEmpty then
    some s!"`{type.genericOrEmpty}`"
  else if isDictionary items type.typeName then
    some "a dictionary"
  else
    none

/-- The attributes of a type that attributes cannot have. -/
def typeObjections (items : List Node) : List Diagnostic :=
  (located items).filterMap fun (site, node) => do
    let type ← node.node? .type
    if node.construct == .attribute && type.construct.isType then
      (invalidReason? items type).map (typeObjection site node)
    else
      none

/-- What a rule objects to where nothing is lacking. -/
def objections : Rule → List Node → List Diagnostic
  | .replaceVoid => replaceVoidOn
  | .requireExposed => exposureObjections
  | .renamedLegacy => renamingObjections
  | .dictArgDefault => dictArgDefaultOn
  | .noDuplicate => noDuplicateOn
  | .attrInvalidType => typeObjections

end Rule

/-- What the rules object to where nothing is lacking, rule by rule. -/
def objections (rules : List Rule) (items : List Node) : List Diagnostic :=
  rules.flatMap fun rule => rule.objections items

theorem Rule.mem_all (rule : Rule) : rule ∈ all := by
  cases rule <;> simp [all]

/-- What some of the rules object to is among what all of them do. -/
theorem objections_subset_all (rules : List Rule) (items : List Node) :
    objections rules items ⊆ objections Rule.all items := by
  intro diagnostic hmem
  obtain ⟨rule, -, hrule⟩ := List.mem_flatMap.mp hmem
  exact List.mem_flatMap.mpr ⟨rule, rule.mem_all, hrule⟩

/-! ## Where nothing is lacking -/

/-- The definitions are among the located constructs. -/
theorem Rule.mem_located_of_mem_definitionsOf {items : List Node} {site : Site} {node : Node}
    (h : (site, node) ∈ definitionsOf items) : (site, node) ∈ located items := by
  obtain ⟨⟨item, number⟩, hitem, heq⟩ := List.mem_map.mp (List.mem_filter.mp h).1
  cases heq
  refine List.mem_flatMap.mpr ⟨(node, number), hitem, List.mem_map.mpr ⟨([], node), ?_, rfl⟩⟩
  obtain ⟨label, parts⟩ := node
  exact List.mem_cons_self

namespace Legible

open Rule

variable {items : List Node}

theorem hasAttribute_eq_ok {attributes : Node} {name : String}
    (h : ∀ item ∈ attributes.items, ∃ name, item.name = .ok name) :
    attributes.hasAttribute name = .ok (attributes.bears name) := by
  refine anyM_eq_ok fun item hitem => ?_
  rw [Node.name_eq_ok (h item hitem)]
  rfl

theorem isExposed_eq_ok {definition : Node} (h : definition.IsLegible) :
    isExposed definition = .ok (bearsExposure definition) := by
  have hitems : ∀ item ∈ ((definition.node? .attributes).getD Node.noAttributes).items,
      ∃ name, item.name = .ok name := by
    cases hattributes : definition.node? .attributes with
    | none => exact fun item hitem => nomatch hitem
    | some attributes => exact h.attributes attributes hattributes
  simp only [isExposed, bearsExposure, hasAttribute_eq_ok hitems, bind, Except.bind]
  cases Node.bears _ "Exposed" <;> rfl

theorem requireExposedOn_eq_ok (h : Legible items) :
    requireExposedOn items = .ok (exposureObjections items) := by
  have hfound : requireExposedOn items =
      .ok (((definitionsOf items).filter fun (_, node) => needsExposure node).filterMap
        fun (site, node) => if bearsExposure node then none else some (exposureObjection site node)) := by
    refine filterMapM_eq_ok fun (site, node) hnode => ?_
    have hdefinition := mem_located_of_mem_definitionsOf (List.mem_filter.mp hnode).1
    dsimp only
    rw [isExposed_eq_ok (h site node hdefinition)]
    rfl
  rw [hfound, exposureObjections]
  congr 1
  induction definitionsOf items with
  | nil => rfl
  | cons entry rest ih =>
      cases hneeds : needsExposure entry.2 <;> cases hbears : bearsExposure entry.2 <;>
        simp [hneeds, hbears, ih]

theorem renamedLegacyOn_eq_ok (h : Legible items) :
    renamedLegacyOn items = .ok (renamingObjections items) := by
  refine filterMapM_eq_ok fun (site, node) hnode => ?_
  dsimp only
  cases hconstruct : node.construct == .extendedAttribute with
  | false => rfl
  | true =>
      rw [Node.name_eq_ok ((h site node hnode).name (beq_iff_eq.mp hconstruct))]
      rfl

theorem invalidType?_eq_ok {type : Node} (h : ∃ generic, type.genericName = .ok generic) :
    invalidType? items type = .ok (invalidReason? items type) := by
  simp only [invalidType?, invalidReason?, Node.genericName_eq_ok h, bind, Except.bind]
  cases ["sequence", "record"].contains type.genericOrEmpty <;>
    cases isDictionary items type.typeName <;> rfl

theorem attrInvalidTypeOn_eq_ok (h : Legible items) :
    attrInvalidTypeOn items = .ok (typeObjections items) := by
  refine filterMapM_eq_ok fun (site, node) hnode => ?_
  dsimp only
  cases htype : node.node? .type with
  | none => rfl
  | some type =>
      simp only [bind, Option.bind]
      split
      · rename_i hattribute
        rw [invalidType?_eq_ok
          ((h site node hnode).type type htype (Bool.and_eq_true_iff.mp hattribute).2)]
        rfl
      · rfl

theorem check_eq_ok (h : Legible items) (rule : Rule) :
    rule.check items = .ok (rule.objections items) := by
  cases rule with
  | requireExposed => exact h.requireExposedOn_eq_ok
  | renamedLegacy => exact h.renamedLegacyOn_eq_ok
  | attrInvalidType => exact h.attrInvalidTypeOn_eq_ok
  | _ => rfl

end Legible

/-- Where nothing is lacking no rule fails. -/
theorem validate_eq_ok {items : List Node} (h : Legible items) (rules : List Rule) :
    validate rules items = .ok (objections rules items) :=
  flatMapM_eq_ok fun rule _ => h.check_eq_ok rule

end WebIdl
