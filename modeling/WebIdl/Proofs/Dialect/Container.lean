import WebIdl.Proofs.Complete.Text
import WebIdl.Proofs.Dialect.RoundTrip
import WebIdl.Proofs.Shape.Order

/-!
# The rules of definitions and their members

What a definition of the standard language may hold, said of the tree and not of the grammar: which
definitions have no parent (`Node.IsHeirless`), which members a definition may have
(`Construct.Admits`), what a collection declares (`Node.IsCollection`), what an enumeration lists
(`Node.IsListed`) and what an argument is (`Node.IsArgument`).

A document that parses conforms to the grammar, and the grammar is a table of forms.  A rule is
therefore looked up in the table: each form keeps it by the roles and words of its slots alone, and
whatever fills these slots keeps it too.  The main statement is `standard_keeps_rules`.
-/

namespace WebIdl

open WebIdl.Shape

/-! ## The rules -/

namespace Node

/-- The spelling of the token in a role, if the role is filled. -/
def word? (node : Node) (role : Role) : Option String :=
  (node.token? role).map Token.text

/-- A partial definition, a mixin, a callback interface and a namespace have no parent. -/
def IsHeirless (definition : Node) : Prop :=
  definition.isPartial = true ∨
      definition.construct ∈ [.interfaceMixin, .callbackInterface, .namespaceDef] →
    definition.has .colon = false ∧ definition.inherits? = none

/-- A map holds two types, a set one, and an iterable one or two.  Only an iterable is asynchronous,
only an asynchronous one has arguments, and only a map or a set is read-only. -/
structure IsCollection (member : Node) : Prop where
  types : (member.word? .base, (member.nodesAs .typeArgument).length) ∈
    [(some "maplike", 2), (some "setlike", 1), (some "iterable", 1), (some "iterable", 2)]
  async : member.has .async = true → member.word? .base = some "iterable"
  arguments : member.has .argumentsOpening = true ∨ member.nodesAs .argument ≠ [] →
    member.has .async = true ∧ member.word? .base = some "iterable"
  readonly : member.has .readonly = true →
    member.word? .base = some "maplike" ∨ member.word? .base = some "setlike"

/-- An enumeration lists at least one value, and all values but the last have a comma behind them. -/
def IsListed (definition : Node) : Prop :=
  definition.nodesAs .enumValue ≠ [] ∧
    ∀ value ∈ (definition.nodesAs .enumValue).dropLast, value.has .separator = true

/-- An argument with a default value is optional, and an optional one is not variadic. -/
def IsArgument (argument : Node) : Prop :=
  ((argument.node? .default).isSome = true → argument.has .optional = true) ∧
    (argument.has .optional = true → argument.has .variadic = false)

end Node

/-- The definition may have this member. -/
def Construct.Admits (definition : Construct) (member : Node) : Prop :=
  match definition with
  | .dictionary => member.construct = .field ∧
      (member.has .required = true → member.node? .default = none)
  | .interfaceMixin => member.construct = .constant ∨
      member.construct ∈ [.attribute, .operation] ∧
        member.word? .special ∈ [none, some "stringifier"]
  | .callbackInterface => member.construct = .constant ∨
      member.construct = .operation ∧ member.has .special = false
  | .namespaceDef => member.construct = .constant ∨
      member.construct = .operation ∧ member.has .special = false ∨
      member.construct = .attribute ∧ member.has .special = false ∧ member.has .readonly = true
  | .interface =>
      (member.construct = .attribute → member.word? .special = some "inherit" →
        member.has .readonly = false) ∧
      (member.construct = .iterableLike → member.IsCollection)
  | _ => True

/-! ## What slots decide -/

namespace Shape

/-- The role of the constructs that a slot is for. -/
def Slot.nodeRole? : Slot → Option Role
  | .node role _ | .nodeOption role _ | .many role _ | .list role _ _ _ _ => some role
  | .token _ _ | .option _ _ => none

/-- Every token that fills the slot in the role is one of the words. -/
def Slot.spells (role : Role) (words : List String) : Slot → Bool
  | .token own terminal | .option own terminal =>
      own != role || terminal.kinds.isEmpty && terminal.words.all words.contains
  | _ => true

section

variable {belongs : Category → Node → Prop} {slots : List Slot} {parts : List Part} {role : Role}
  {label : Label}

theorem Fits.has_eq_false (h : Fits belongs slots parts)
    (hslots : slots.all (·.tokenRole? != some role) = true) :
    (Node.mk label parts).has role = false := by
  rw [Node.has, h.token?_eq_none hslots]
  rfl

theorem Fits.word?_mem {words : List String} (h : Fits belongs slots parts)
    (hslots : slots.all (·.spells role words) = true) {word : String}
    (hword : (Node.mk label parts).word? role = some word) : word ∈ words := by
  obtain ⟨token, htoken, rfl⟩ := Option.map_eq_some_iff.mp hword
  obtain ⟨terminal, hslot, haccepts⟩ := h.exists_accepts htoken
  have hspells : terminal.kinds = [] ∧ ∀ word ∈ terminal.words, word ∈ words := by
    rcases hslot with hslot | hslot <;>
      simpa [Slot.spells] using List.all_eq_true.mp hslots _ hslot
  have hinline : (token.kind = .inline ∧ token.text ∈ terminal.words) ∧
      terminal.spelling token.text = true := by
    simpa [Terminal.accepts, hspells.1] using haccepts
  exact hspells.2 _ hinline.1.2

theorem Fits.node?_eq_none (h : Fits belongs slots parts)
    (hslots : slots.all (·.nodeRole? != some role) = true) :
    (Node.mk label parts).node? role = none := by
  refine List.findSome?_eq_none_iff.mpr fun part hpart => ?_
  cases part with
  | token own token => rfl
  | node own node =>
      refine if_neg ?_
      rintro rfl
      obtain ⟨slot, hslot, category, hholds, -⟩ := h.exists_holds hpart
      have hrole := List.all_eq_true.mp hslots slot hslot
      cases slot with
      | token | option => exact hholds
      | node | nodeOption | many | list =>
          obtain ⟨rfl, -⟩ := hholds
          simp [Slot.nodeRole?] at hrole

theorem Fits.nodesAs_eq_nil (h : Fits belongs slots parts)
    (hslots : slots.all (·.nodeRole? != some role) = true) :
    (Node.mk label parts).nodesAs role = [] := by
  refine List.filterMap_eq_nil_iff.mpr fun part hpart => ?_
  have hnode : (Node.mk label parts).node? role = none := h.node?_eq_none hslots
  exact List.findSome?_eq_none_iff.mp hnode part hpart

/-- Is the slot for exactly one construct in the role? -/
def Slot.isNode (role : Role) : Slot → Bool
  | .node own _ => own == role
  | _ => false

/-- A construct has as many constructs in a role as it has slots for one of them. -/
theorem Fits.length_nodesAs (h : Fits belongs slots parts)
    (hslots : slots.all (fun slot => slot.nodeRole? != some role || slot.isNode role) = true) :
    ((Node.mk label parts).nodesAs role).length = slots.countP (·.isNode role) := by
  -- a row of nodes in another role does not count
  have hnone {own : Role} (nodes : List Node) (hown : own ≠ role) (rest : List Part) :
      (Node.mk label (Part.ofNodes own nodes ++ rest)).nodesAs role =
        (Node.mk label rest).nodesAs role := by
    simp [Node.nodesAs, Node.parts, Part.ofNodes, List.filterMap_map, Function.comp_def,
      Part.nodeAs?, hown]
  induction h with
  | nil => rfl
  | token _ _ ih => exact ih (Bool.and_eq_true_iff.mp hslots).2
  | @option _ _ token _ _ _ _ ih =>
      rw [List.countP_cons_of_neg (by simp [Slot.isNode]), ← ih (Bool.and_eq_true_iff.mp hslots).2]
      cases token <;> rfl
  | @node own _ _ _ _ _ _ ih =>
      rw [Node.nodesAs_node]
      have hrest := ih (Bool.and_eq_true_iff.mp hslots).2
      by_cases hown : own = role
      · rw [if_pos hown, List.length_cons, hrest, List.countP_cons_of_pos (by simpa [Slot.isNode])]
      · rw [if_neg hown, hrest, List.countP_cons_of_neg (by simpa [Slot.isNode])]
  | @nodeOption _ _ node _ _ _ _ ih =>
      obtain ⟨hown, hrest⟩ := Bool.and_eq_true_iff.mp hslots
      rw [List.countP_cons_of_neg (by simp [Slot.isNode]), ← ih hrest]
      exact congrArg List.length
        (hnone node.toList (by simpa [Slot.nodeRole?, Slot.isNode] using hown) _)
  | many _ _ ih =>
      obtain ⟨hown, hrest⟩ := Bool.and_eq_true_iff.mp hslots
      rw [List.countP_cons_of_neg (by simp [Slot.isNode]), ← ih hrest]
      exact congrArg List.length (hnone _ (by simpa [Slot.nodeRole?, Slot.isNode] using hown) _)
  | list _ _ _ ih =>
      obtain ⟨hown, hrest⟩ := Bool.and_eq_true_iff.mp hslots
      rw [List.countP_cons_of_neg (by simp [Slot.isNode]), ← ih hrest]
      exact congrArg List.length (hnone _ (by simpa [Slot.nodeRole?, Slot.isNode] using hown) _)

end

/-- A form of a construct that only one of the symbols makes is a form of that symbol. -/
theorem mem_ownForms_of_construct {extended : Bool} {symbols : List Symbol} {only : Symbol}
    {form : Form} {construct : Construct}
    (hform : form ∈ symbols.flatMap (Symbol.ownForms extended))
    (hconstruct : form.construct = construct)
    (honly : symbols.filter (fun symbol =>
      (symbol.ownForms extended).any (·.construct == construct)) = [only]) :
    form ∈ only.ownForms extended := by
  obtain ⟨symbol, hsymbol, hform⟩ := List.mem_flatMap.mp hform
  have hmakes : (symbol.ownForms extended).any (·.construct == construct) = true :=
    List.any_eq_true.mpr ⟨form, hform, by simpa using hconstruct⟩
  have hmem : symbol ∈ symbols.filter (fun symbol =>
      (symbol.ownForms extended).any (·.construct == construct)) :=
    List.mem_filter.mpr ⟨hsymbol, hmakes⟩
  rw [honly, List.mem_singleton] at hmem
  exact hmem ▸ hform

/-! ## Members -/

/-- The definition that has such a body. -/
def Body.definition : Body → Construct
  | .interface _ => .interface
  | .mixin => .interfaceMixin
  | .callbackInterface => .callbackInterface
  | .namespaceDef => .namespaceDef
  | .dictionary => .dictionary

/-- Do the slots lack the token in the role? -/
def lacks (slots : List Slot) (role : Role) : Bool :=
  slots.all (·.tokenRole? != some role)

/-- Do the slots keep a member within what its definition admits?  Collections are looked at on their
own. -/
def keepsWithin (definition construct : Construct) (slots : List Slot) : Bool :=
  match definition with
  | .dictionary => construct == .field &&
      (lacks slots .required || slots.all (·.nodeRole? != some .default))
  | .interfaceMixin => construct == .constant ||
      [.attribute, .operation].contains construct && slots.all (·.spells .special ["stringifier"])
  | .callbackInterface => construct == .constant || construct == .operation && lacks slots .special
  | .namespaceDef => construct == .constant || construct == .operation && lacks slots .special ||
      construct == .attribute && lacks slots .special && slots.any (·.demands .readonly)
  | .interface => construct != .attribute || lacks slots .readonly ||
      slots.all (·.spells .special ["static", "stringifier"])
  | _ => true

/-- Do the slots make a collection around the keyword? -/
def collects (slots : List Slot) (keyword : String) : Bool :=
  slots.any (·.demands .base) && slots.all (·.spells .base [keyword]) &&
  slots.all (fun slot => slot.nodeRole? != some .typeArgument || slot.isNode .typeArgument) &&
  [("maplike", 2), ("setlike", 1), ("iterable", 1), ("iterable", 2)].contains
    (keyword, slots.countP (·.isNode .typeArgument)) &&
  (lacks slots .async || keyword == "iterable") &&
  (lacks slots .argumentsOpening && slots.all (·.nodeRole? != some .argument) ||
    slots.any (·.demands .async) && keyword == "iterable") &&
  (lacks slots .readonly || keyword == "maplike" || keyword == "setlike")

theorem Fits.isCollection {belongs : Category → Node → Prop} {slots : List Slot}
    {parts : List Part} {label : Label} {keyword : String} (h : Fits belongs slots parts)
    (hslots : collects slots keyword = true) : (Node.mk label parts).IsCollection := by
  simp only [collects, Bool.and_eq_true] at hslots
  obtain ⟨⟨⟨⟨⟨⟨hdemands, hspells⟩, hcounted⟩, htypes⟩, hasync⟩, harguments⟩, hreadonly⟩ := hslots
  have hbase : (Node.mk label parts).word? .base = some keyword := by
    have hhas : (Node.mk label parts).has .base = true := h.has_of_demands hdemands
    obtain ⟨token, htoken⟩ := Option.isSome_iff_exists.mp hhas
    have hword : (Node.mk label parts).word? .base = some token.text := by
      rw [Node.word?, htoken]
      rfl
    rw [hword, List.mem_singleton.mp (h.word?_mem hspells hword)]
  -- a word that no slot admits is not there
  have hlacks {role : Role} {other : Bool} (hrole : (lacks slots role || other) = true)
      (hhas : (Node.mk label parts).has role = true) : other = true := by
    refine (Bool.or_eq_true_iff.mp hrole).resolve_left fun hnone => ?_
    rw [h.has_eq_false hnone] at hhas
    cases hhas
  refine ⟨?_, fun hhas => ?_, fun hhas => ?_, fun hhas => ?_⟩
  · rw [hbase, h.length_nodesAs hcounted]
    simpa using htypes
  · rw [hbase, beq_iff_eq.mp (hlacks hasync hhas)]
  · rcases Bool.or_eq_true_iff.mp harguments with hnone | hsome
    · obtain ⟨hopening, harguments⟩ := Bool.and_eq_true_iff.mp hnone
      rcases hhas with hhas | hhas
      · rw [h.has_eq_false hopening] at hhas
        cases hhas
      · exact absurd (h.nodesAs_eq_nil harguments) hhas
    · obtain ⟨hdemands, hkeyword⟩ := Bool.and_eq_true_iff.mp hsome
      exact ⟨h.has_of_demands hdemands, by rw [hbase, beq_iff_eq.mp hkeyword]⟩
  · rw [hbase]
    rw [Bool.or_assoc] at hreadonly
    simpa using hlacks hreadonly hhas

theorem Fits.admits {belongs : Category → Node → Prop} {slots : List Slot}
    {parts : List Part} {label : Label} {definition : Construct} (h : Fits belongs slots parts)
    (hslots : keepsWithin definition label.construct slots = true)
    (hcollection : definition = .interface → label.construct = .iterableLike →
      (Node.mk label parts).IsCollection) :
    definition.Admits (.mk label parts) := by
  have hnone {role : Role} (hlacks : lacks slots role = true) :
      (Node.mk label parts).has role = false := h.has_eq_false hlacks
  unfold keepsWithin at hslots
  unfold Construct.Admits
  split at hslots <;> simp only [Bool.or_eq_true, Bool.and_eq_true, beq_iff_eq] at hslots
  · obtain ⟨hfield, hrequired | hdefault⟩ := hslots
    · exact ⟨hfield, fun hhas => by rw [hnone hrequired] at hhas; cases hhas⟩
    · exact ⟨hfield, fun _ => h.node?_eq_none hdefault⟩
  · refine hslots.imp id fun ⟨hconstruct, hspecial⟩ => ⟨by simpa using hconstruct, ?_⟩
    cases hword : (Node.mk label parts).word? .special with
    | none => simp
    | some word => simpa using h.word?_mem hspecial hword
  · exact hslots.imp id fun ⟨hconstruct, hspecial⟩ => ⟨hconstruct, hnone hspecial⟩
  · rcases hslots with (hconstant | ⟨hconstruct, hspecial⟩) | ⟨⟨hconstruct, hspecial⟩, hreadonly⟩
    · exact Or.inl hconstant
    · exact Or.inr (Or.inl ⟨hconstruct, hnone hspecial⟩)
    · exact Or.inr (Or.inr ⟨hconstruct, hnone hspecial, h.has_of_demands hreadonly⟩)
  · refine ⟨fun hconstruct hinherit => ?_, hcollection rfl⟩
    rcases hslots with (hother | hreadonly) | hspecial
    · exact absurd hconstruct (by simpa using hother)
    · exact hnone hreadonly
    · exact absurd (h.word?_mem hspecial hinherit) (by decide)
  · trivial

/-- A member of a body is one that the definition admits. -/
theorem Conforms.admits {body : Body} {node : Node}
    (h : Conforms false { symbol := .member body } node) : body.definition.Admits node := by
  have hkeeps : ((Symbol.member body).forms false).all (fun form =>
      keepsWithin body.definition form.construct
        (Category.slots { symbol := .member body } form)) = true := by
    cases body with
    | interface legacy => cases legacy <;> rfl
    | _ => rfl
  have hcollects : iterableLikeForms.all (fun form => ["maplike", "setlike", "iterable"].any
      (collects (Category.slots { symbol := .member body } form))) = true := rfl
  cases h with
  | @mk _ form _ hform hparts =>
      refine hparts.admits (List.all_eq_true.mp hkeeps _ hform) fun hdefinition hconstruct => ?_
      have hown : form ∈ Symbol.iterableLike.ownForms false := by
        cases body with
        | interface legacy =>
            exact mem_ownForms_of_construct hform hconstruct (by cases legacy <;> rfl)
        | _ => cases hdefinition
      obtain ⟨keyword, -, hkeyword⟩ := List.any_eq_true.mp (List.all_eq_true.mp hcollects _ hown)
      exact hparts.isCollection hkeyword

/-! ## Definitions -/

/-- Do the slots hold only members of the definition, and a parent only where it may have one? -/
def keepsBody (construct : Construct) (slots : List Slot) : Bool :=
  (lacks slots .colon && lacks slots .inheritance || lacks slots .partiality &&
    !List.contains [.interfaceMixin, .callbackInterface, .namespaceDef] construct) &&
  slots.all fun
    | .many .member ⟨.member body, .maybe, none⟩ => body.definition == construct
    | slot => slot.nodeRole? != some .member

theorem keepsBody_of_mem_forms {form : Form} (hform : form ∈ Symbol.definition.forms false) :
    keepsBody form.construct (Category.slots { symbol := .definition } form) = true := by
  have hall : (Symbol.definition.forms false).all (fun form =>
      keepsBody form.construct (Category.slots { symbol := .definition } form)) = true := rfl
  exact List.all_eq_true.mp hall form hform

theorem Conforms.isHeirless {node : Node} (h : Conforms false { symbol := .definition } node) :
    node.IsHeirless := by
  cases h with
  | mk hform hparts =>
      intro hnoHeir
      rcases Bool.or_eq_true_iff.mp (Bool.and_eq_true_iff.mp (keepsBody_of_mem_forms hform)).1 with
        hlacks | hother
      · obtain ⟨hcolon, hinheritance⟩ := Bool.and_eq_true_iff.mp hlacks
        refine ⟨hparts.has_eq_false hcolon, ?_⟩
        rw [Node.inherits?, hparts.token?_eq_none hinheritance]
        rfl
      · obtain ⟨hpartial, hconstruct⟩ := Bool.and_eq_true_iff.mp hother
        rcases hnoHeir with hhas | hmem
        · rw [Node.isPartial, hparts.has_eq_false hpartial] at hhas
          cases hhas
        · rw [Bool.not_eq_true', List.contains_eq_mem, decide_eq_false_iff_not] at hconstruct
          exact absurd hmem hconstruct

theorem Conforms.admits_member {node member : Node}
    (h : Conforms false { symbol := .definition } node) (hmember : member ∈ node.nodesAs .member) :
    node.construct.Admits member := by
  cases h with
  | mk hform hparts =>
      obtain ⟨slot, hslot, category, hholds, hconforms⟩ :=
        hparts.exists_holds (Node.mem_parts_of_nodesAs hmember)
      have hkeeps := List.all_eq_true.mp
        (Bool.and_eq_true_iff.mp (keepsBody_of_mem_forms hform)).2 slot hslot
      split at hkeeps
      · obtain ⟨-, rfl⟩ := hholds
        have hadmits := hconforms.admits
        rwa [beq_iff_eq.mp hkeeps] at hadmits
      · cases slot with
        | token | option => exact hholds.elim
        | node | nodeOption | many | list =>
            obtain ⟨rfl, -⟩ := hholds
            simp [Slot.nodeRole?] at hkeeps

/-- Each item of a list but the last has a separator behind it. -/
theorem Items.separated {extended : Bool} {nodes : List Node} {category : Category}
    {separator : String} {mayDangle : Bool}
    (h : Items (Conforms extended) nodes category separator mayDangle) :
    ∀ node ∈ nodes.dropLast, node.has .separator = true := by
  induction h with
  | nil | last => simp
  | @cons category separator _ first others hnode _ _ ih =>
      cases others with
      | nil => simp
      | cons second others =>
          rw [List.dropLast_cons_of_ne_nil (List.cons_ne_nil _ _)]
          refine List.forall_mem_cons.mpr ⟨?_, ih⟩
          cases hnode with
          | mk _ hparts =>
              refine @Fits.has_token _ _ _ _ _ (.word separator) hparts ?_
              simp [Category.slots, Category.before, Slot.word]

theorem Conforms.isListed {node : Node} (h : Conforms false { symbol := .definition } node)
    (henumeration : node.construct = .enumeration) : node.IsListed := by
  cases h with
  | mk hform hparts =>
      obtain rfl := List.mem_singleton.mp
        (@mem_ownForms_of_construct _ _ .enumeration _ _ hform henumeration rfl)
      simp only [Category.slots, enumerationForm, if_true, List.cons_append, List.nil_append,
        Slot.word, Slot.ending, Option.toList_none, List.map_nil, fits_node, fits_token, fits_list,
        fits_nil] at hparts
      obtain ⟨attributes, _, rfl, -, base, _, rfl, -, name, _, rfl, -, opening, _, rfl, -, values, _,
        rfl, hvalues, hleast, closing, _, rfl, -, termination, _, rfl, -, rfl⟩ := hparts
      rw [Node.IsListed]
      simp only [Node.nodesAs_node, Node.nodesAs_token, Node.nodesAs_ofNodes, Node.nodesAs_nil,
        List.append_nil, reduceCtorEq, if_false]
      exact ⟨List.ne_nil_of_length_pos hleast, hvalues.separated⟩

/-! ## Arguments -/

theorem Conforms.isArgument_of_symbol {extended : Bool} {mode : Mode} {separator : Option String}
    {node : Node} (h : Conforms extended ⟨.argument, mode, separator⟩ node) : node.IsArgument := by
  cases h with
  | mk hform hparts =>
      have hform : _ ∈ argumentForms := hform
      simp only [argumentForms, List.mem_cons, List.not_mem_nil, or_false] at hform
      rcases hform with rfl | rfl
      · refine ⟨fun _ => hparts.has_of_demands rfl, fun _ => hparts.has_eq_false ?_⟩
        cases separator <;> rfl
      · refine ⟨fun hdefault => ?_, fun hoptional => ?_⟩
        · rw [hparts.node?_eq_none (by cases separator <;> rfl)] at hdefault
          cases hdefault
        · rw [hparts.has_eq_false (by cases separator <;> rfl)] at hoptional
          cases hoptional

/-- Every argument in a tree of the grammar is one. -/
theorem Conforms.isArgument {extended : Bool} {category : Category} {node : Node}
    (h : Conforms extended category node) (hcategory : category.isRegular = true) :
    ∀ inner ∈ node.walk, inner.construct = .argument → inner.IsArgument := by
  refine h.induct (motive := fun category node => category.isRegular = true →
    ∀ inner ∈ node.walk, inner.construct = .argument → inner.IsArgument)
    (fun category form parts hform hparts hcategory inner hinner hargument => ?_) hcategory
  rcases mem_walk.mp hinner with rfl | ⟨role, below, hpart, hbelow⟩
  · have hmakes := makes_of_mem_forms hcategory hform
    rw [show form.construct = .argument from hargument] at hmakes
    obtain ⟨symbol, mode, separator⟩ := category
    cases symbol with
    | argument =>
        exact isArgument_of_symbol (@Conforms.mk extended _ _ _ hform (hparts.imp fun _ _ h => h.1))
    | _ => cases hmakes
  · obtain ⟨slot, hslot, own, hholds, -, hown⟩ := hparts.exists_holds hpart
    exact hown (hholds.isApt (isApt_of_mem_slots hcategory hform hslot)).2 inner hbelow hargument

end Shape

/-! ## Documents -/

namespace Dialect

theorem construct_ne_eof {extended : Bool} {node : Node}
    (h : Conforms extended { symbol := .definition } node) : node.isDefinition = true := by
  have hall : (Symbol.definition.forms extended).all (·.construct != .eof) = true := by
    cases extended <;> rfl
  cases h with
  | mk hform _ => exact List.all_eq_true.mp hall _ hform

/-- A text that parses in the standard dialect keeps the rules of definitions.  Its definitions have a
parent only where they may, and only members that they admit; its enumerations list values and its
arguments are optional where they have a default value; and the end of the text is there once, behind
all definitions. -/
theorem standard_keeps_rules {text : String} {sourceName : Option String} {document : Document}
    (h : (standard.parse text sourceName).result = .ok document) :
    (∀ definition ∈ document.definitions,
      definition.IsHeirless ∧
      (∀ member ∈ definition.nodesAs .member, definition.construct.Admits member) ∧
      (definition.construct = .enumeration → definition.IsListed)) ∧
    (∀ node ∈ document.walk, node.construct = .argument → node.IsArgument) ∧
    ∃ last : Token, last.kind = .eof ∧ document.items = document.definitions ++ [Node.ofEof last] := by
  obtain ⟨source, nodes, last, -, -, hlast, hnodes, rfl⟩ :=
    (@parse_eq_ok_iff standard false rfl _ _ _).mp h
  have hdefinitions : (nodes ++ [Node.ofEof last]).filter Node.isDefinition = nodes := by
    rw [List.filter_append, List.filter_eq_self.mpr fun node hnode =>
      construct_ne_eof (hnodes node hnode)]
    exact List.append_nil nodes
  simp only [Document.definitions, Document.walk, hdefinitions]
  refine ⟨fun definition hdefinition => ?_, fun node hnode hargument => ?_, last, hlast, rfl⟩
  · have hconforms := hnodes definition hdefinition
    exact ⟨hconforms.isHeirless, fun member => hconforms.admits_member, hconforms.isListed⟩
  · obtain ⟨item, hitem, hinner⟩ := List.mem_flatMap.mp hnode
    rcases List.mem_append.mp hitem with hdefinition | heof
    · exact (hnodes item hdefinition).isArgument rfl node hinner hargument
    · obtain rfl := List.mem_singleton.mp heof
      obtain rfl : node = Node.ofEof last := by
        simpa [Node.ofEof, Node.walk, walkOf] using hinner
      cases hargument

/-- Definitions of several kinds, with the members that the rules are about. -/
def rulesSample : Sample standard fun document =>
    decide (document.definitions.map Node.construct = [.interface, .dictionary, .enumeration] ∧
      (document.definitions.map fun definition => (definition.nodesAs .member).length) =
        [1, 1, 0]) where
  text := "partial interface A \x7b async iterable<B>(optional C c = 1); \x7d;" ++
    " dictionary D : E \x7b required B d; \x7d; enum F \x7b \"f\", \"g\" \x7d;"
  sourceName := none
  parses := by decide +kernel

/-- The definitions of the sample keep the rules, its arguments and its members among them. -/
theorem standard_keeps_rules_sample : ∃ document,
    (standard.parse rulesSample.text none).result = .ok document ∧
      document.definitions.map Node.construct = [.interface, .dictionary, .enumeration] ∧
      (∀ definition ∈ document.definitions, definition.IsHeirless ∧
        (∀ member ∈ definition.nodesAs .member, definition.construct.Admits member) ∧
        (definition.construct = .enumeration → definition.IsListed)) ∧
      ∀ node ∈ document.walk, node.construct = .argument → node.IsArgument := by
  obtain ⟨document, hdocument, hcheck⟩ := rulesSample.exists_document
  obtain ⟨hdefinitions, harguments, -⟩ := standard_keeps_rules hdocument
  exact ⟨document, hdocument, (of_decide_eq_true hcheck).1, hdefinitions, harguments⟩

end Dialect

end WebIdl
