import WebIdl.Proofs.Shape.Minor
import WebIdl.Proofs.Validation.Effect

/-!
# Arguments that lack a default value

The rule `dict-arg-default` goes from construct to construct and looks at the arguments that each of
them lists.  In a well-formed document this is to look at every argument in the order of the text,
except those of extended attributes (`dictArgDefaultOn_eq`): functions are not inside one another, so
nothing is found between the arguments of one.

The type of an argument that is found is a single word that is spelled like a dictionary.  It is an
identifier, and refers to the dictionary, or a keyword (`lacksDefault_eq`).
-/

namespace WebIdl

open WebIdl.Shape

/-- The construct that a construct is a part of. -/
def Site.owner? (site : Site) (items : List Node) : Option Node :=
  if site.path = [] then none else Site.node? ⟨site.item, site.path.dropLast⟩ items

namespace Rule

/-- Does the place belong to something else than an extended attribute? -/
def isListed (items : List Node) (site : Site) : Bool :=
  (site.owner? items).any (·.construct != .extendedAttribute)

section

variable {extended : Bool} {items : List Node}

theorem isListed_below {site : Site} {owner : Node} (h : site.node? items = some owner)
    (number : Nat) :
    isListed items (site.below [number]) = (owner.construct != .extendedAttribute) := by
  have howner : (site.below [number]).owner? items = some owner := by
    simp [Site.owner?, Site.below, h]
  rw [isListed, howner, Option.any_some]

/-- The objections to the arguments that a construct lists. -/
def objectionsOf (items : List Node) (site : Site) (owner : Node) : List Diagnostic :=
  defaultObjections items site (owner.numberedAs .argument)

/-- The objection to a construct, if it is an argument that is listed. -/
def objectionTo (items : List Node) (site : Site) (node : Node) : List Diagnostic :=
  if isListed items site && node.construct == .argument && lacksDefault items node then
    [defaultObjection site node]
  else
    []

/-- Minor constructs do not list arguments in their role. -/
theorem foundIn_of_isMinor {category : Category} {node : Node} (h : Formed extended category node)
    (hminor : category.symbol.isMinor = true) (site : Site) :
    foundIn (objectionsOf items) site node = [] := by
  refine List.flatMap_eq_nil_iff.mpr ?_
  intro ⟨path, inner⟩ hlocated
  change defaultObjections items _ (inner.numberedAs .argument) = []
  obtain ⟨own, hown, hformed⟩ := h.at?_of_isMinor hminor (Node.at?_of_mem_located hlocated)
  have hnone : inner.numberedAs .argument = [] := by
    refine List.eq_nil_iff_forall_not_mem.mpr ?_
    intro ⟨number, argument⟩ hargument
    obtain ⟨label, parts⟩ := inner
    exact (hformed.child_of_isMinor hown (Node.mem_numberedAs hargument).2).1 rfl
  rw [hnone, defaultObjections_nil]

theorem numberedAs_go_eq_nil {parts : List Part}
    (h : ∀ role child, .node role child ∈ parts → role ≠ .argument) (number : Nat) :
    Node.numberedAs.go .argument number parts = [] := by
  induction parts generalizing number with
  | nil => rfl
  | cons part parts ih =>
      have hrest (number : Nat) := ih (fun role child hchild =>
        h role child (List.mem_cons_of_mem _ hchild)) number
      cases part with
      | token role token => exact hrest number
      | node role child =>
          rw [Node.numberedAs.go, if_neg (h role child List.mem_cons_self), hrest]

/-- The objection to a child is that of the construct that lists it. -/
theorem objectionTo_child {site : Site} {category : Category} {owner child : Node} {role : Role}
    (hcategory : category.isRegular = true) (h : Formed extended category owner)
    (hsite : site.node? items = some owner) (hchild : .node role child ∈ owner.parts)
    (number : Nat) :
    objectionTo items (site.below [number]) child =
      if role = .argument then defaultObjections items site [(number, child)] else [] := by
  obtain ⟨label, parts⟩ := owner
  rw [objectionTo, isListed_below hsite]
  by_cases hrole : role = .argument
  · have hargument := h.argument_of_mem hcategory (hrole ▸ hchild)
    have howner := (h.role_of_argument hcategory hchild hargument).mp hrole
    simp [hrole, hargument, howner, defaultObjections_singleton]
  · rw [if_neg hrole, if_neg]
    simp only [Bool.and_eq_true, bne_iff_ne, beq_iff_eq]
    intro hlisted
    exact hrole ((h.role_of_argument hcategory hchild hlisted.1.2).mpr hlisted.1.1)

/-- A construct that lists arguments has nothing below it that does. -/
theorem silent_or_bare {category : Category} {owner : Node} (h : Formed extended category owner) :
    (∀ role child, .node role child ∈ owner.parts → role ≠ .argument) ∨
      ∀ role child, .node role child ∈ owner.parts →
        ∀ place, foundIn (objectionsOf items) place child = [] := by
  obtain ⟨label, parts⟩ := owner
  by_cases harguments : ∃ argument, .node .argument argument ∈ parts
  · right
    obtain ⟨argument, hargument⟩ := harguments
    intro role child hchild place
    obtain ⟨own, hown, hformed⟩ := h.isMinor_of_arguments hargument hchild
    exact foundIn_of_isMinor hformed hown place
  · left
    intro role child hchild hrole
    exact harguments ⟨child, hrole ▸ hchild⟩

-- By induction on the tree; the parts are the last ones of a construct, and the first child among
-- them has the given number.
mutual

/-- To look at the arguments of each construct is to look at each construct below. -/
theorem foundIn_objectionsOf (node : Node) {site : Site} {category : Category}
    (hcategory : category.isRegular = true) (h : Formed extended category node)
    (hsite : site.node? items = some node) :
    foundIn (objectionsOf items) site node = foundFrom (objectionTo items) site 0 node.parts := by
  match node with
  | .mk label parts =>
      rw [foundIn_mk, objectionsOf, Node.numberedAs_mk, Node.parts]
      refine (foundFrom_objectionTo parts 0 hcategory h hsite (List.Subset.refl _) ?_).symm
      intro step child hchild
      rw [Nat.zero_add, Site.node?_below hsite, Node.at?, Node.children_mk, hchild]
      rfl

theorem foundFrom_objectionTo (parts : List Part) (number : Nat) {site : Site}
    {category : Category} {owner : Node} (hcategory : category.isRegular = true)
    (h : Formed extended category owner) (hsite : site.node? items = some owner)
    (hparts : parts ⊆ owner.parts)
    (hnumber : ∀ step child, (childrenOf parts)[step]? = some child →
      (site.below [number + step]).node? items = some child) :
    foundFrom (objectionTo items) site number parts =
      defaultObjections items site (Node.numberedAs.go .argument number parts) ++
        foundFrom (objectionsOf items) site number parts := by
  match parts with
  | [] => simp [Node.numberedAs.go]
  | .token role token :: rest =>
      rw [foundFrom_token, foundFrom_token, Node.numberedAs.go]
      exact foundFrom_objectionTo rest number hcategory h hsite
        (List.subset_of_cons_subset hparts) hnumber
  | .node role child :: rest =>
      have hrest := foundFrom_objectionTo rest (number + 1) hcategory h hsite
        (List.subset_of_cons_subset hparts) (fun step inner hinner => by
          rw [Nat.add_assoc, Nat.add_comm 1]
          exact hnumber (step + 1) inner hinner)
      have hchild := hparts List.mem_cons_self
      have hself := objectionTo_child hcategory h hsite hchild number
      have hplace : (site.below [number]).node? items = some child := hnumber 0 child rfl
      have hfound : foundIn (objectionTo items) (site.below [number]) child =
          objectionTo items (site.below [number]) child ++
            foundIn (objectionsOf items) (site.below [number]) child := by
        obtain ⟨label, all⟩ := owner
        obtain ⟨own, hregular, hformed, -⟩ := h.child hcategory hchild
        rw [foundIn_objectionsOf child hregular hformed hplace]
        obtain ⟨own, inside⟩ := child
        exact foundIn_mk _ _ _
      rw [foundFrom_node, foundFrom_node, hfound, hself, hrest, Node.numberedAs.go]
      -- a node has no arguments, or nothing below its children is objected to
      rcases silent_or_bare h with hsilent | hbare
      · have hnone : Node.numberedAs.go .argument (number + 1) rest = [] :=
          numberedAs_go_eq_nil (fun role child hmem =>
            hsilent role child (hparts (List.mem_cons_of_mem _ hmem))) _
        simp [hsilent role child hchild, hnone]
      · rw [hbare role child hchild]
        by_cases hrole : role = .argument
        · rw [if_pos hrole, if_pos hrole,
            @defaultObjections_cons items site (Node.numberedAs.go .argument (number + 1) rest)]
          simp
        · simp [hrole]

end

/-- The rule finds, in the order of the text, each argument that is listed and lacks a default
value. -/
theorem dictArgDefaultOn_eq (hitems : FormedItems extended items) :
    dictArgDefaultOn items =
      ((located items).filter fun (site, node) =>
        isListed items site && node.construct == .argument && lacksDefault items node).map
          fun (site, node) => defaultObjection site node := by
  have hto : ((located items).filter fun (site, node) =>
      isListed items site && node.construct == .argument && lacksDefault items node).map
        (fun (site, node) => defaultObjection site node) =
      (located items).flatMap fun (site, node) => objectionTo items site node := by
    induction located items with
    | nil => rfl
    | cons entry rest ih =>
        obtain ⟨site, node⟩ := entry
        rw [List.flatMap_cons, ← ih, List.filter_cons]
        dsimp only
        rw [objectionTo]
        split <;> rfl
  have hof : dictArgDefaultOn items =
      (located items).flatMap fun (site, node) => objectionsOf items site node := rfl
  rw [hto, hof, flatMap_located, flatMap_located]
  refine List.flatMap_congr ?_
  intro ⟨node, item⟩ hmem
  have hsite : Site.node? ⟨item, []⟩ items = some node := by
    rw [Site.node?, List.mk_mem_zipIdx_iff_getElem?.mp hmem]
    rfl
  -- an item is not part of anything
  have htop : objectionTo items ⟨item, []⟩ node = [] := by
    simp [objectionTo, isListed, Site.owner?]
  rcases hitems.node? hsite with ⟨category, hcategory, hformed, -⟩ | ⟨last, rfl⟩
  · dsimp only
    rw [foundIn_objectionsOf node hcategory hformed hsite]
    obtain ⟨label, parts⟩ := node
    rw [foundIn_mk, htop]
    rfl
  · rw [Node.ofEof] at htop
    dsimp only
    rw [Node.ofEof, foundIn_mk, foundIn_mk, htop]
    simp [objectionsOf, Node.numberedAs_mk, Node.numberedAs.go]

end

end Rule

/-! ## The words of a type -/

namespace Node

/-- Is the type neither nullable nor generic nor a union? -/
def isPlain (type : Node) : Bool :=
  type.construct.isType && type.construct != .unionType && !type.has .opening && !type.isNullable

/-- The words that a plain type is made of. -/
def words (type : Node) : List Token :=
  [Role.sign, .base, .doubling].filterMap type.token?

/-- The name that a type refers to, if its base is an identifier. -/
def typeNamed? (type : Node) : Option String :=
  (type.token? .base).bind fun base =>
    if base.kind = .identifier then some (unescape base.text) else none

/-- The keyword that a type consists of, if it is a single one. -/
def typeKeyword? (type : Node) : Option String :=
  match type.words with
  | [word] => if word.kind = .inline then some word.text else none
  | _ => none

theorem typeName_eq {type : Node} (hunion : type.construct ≠ .unionType)
    (hopening : type.has .opening = false) :
    type.typeName = " ".intercalate (type.words.map Token.value) := by
  rw [typeName, if_neg (by simp [hunion, hopening]), words, List.map_filterMap]

end Node

/-- A token of a type by its role: an identifier is the base, and everything else is a keyword. -/
def Shape.Slot.isTypeWord : Slot → Bool
  | .token role terminal | .option role terminal =>
      role != .sign && role != .base && role != .doubling || terminal.kinds.isEmpty ||
        role == .base && terminal.kinds == [.identifier]
  | _ => true

/-- The base of a type is a keyword, or there are no other words. -/
def Shape.Form.isWorded (form : Form) : Bool :=
  form.slots.all Slot.isTypeWord &&
    (form.slots.all (fun slot => slot.tokenRole? != some .sign && slot.tokenRole? != some .doubling) ||
      form.slots.all fun
        | .token .base terminal | .option .base terminal => terminal.kinds.isEmpty
        | _ => true)

theorem Shape.isWorded_of_mem_forms {extended : Bool} {place : Option String} {limit : Limit}
    {form : Form} (hform : form ∈ (Symbol.type place limit).forms extended) :
    form.isWorded = true := by
  refine List.all_eq_true.mp
    (?_ : ((Symbol.type place limit).forms extended).all Form.isWorded = true) form hform
  cases limit <;> cases extended <;> rfl

section

variable {extended : Bool} {category : Category} {form : Form} {label : Label} {parts : List Part}
  {role : Role} {token : Token}

/-- A token other than the separator fills a slot of the form. -/
theorem Shape.Fits.exists_own {belongs : Category → Node → Prop}
    (h : Fits belongs (category.slots form) parts) (hrole : role ≠ .separator)
    (htoken : (Node.mk label parts).token? role = some token) :
    ∃ terminal, (.token role terminal ∈ form.slots ∨ .option role terminal ∈ form.slots) ∧
      terminal.accepts token = true := by
  obtain ⟨terminal, hslot, haccepts⟩ := h.exists_accepts htoken
  refine ⟨terminal, hslot.imp (fun hslot => ?_) fun hslot => ?_, haccepts⟩
  · rcases mem_slots_iff.mp hslot with ⟨-, heq⟩ | hown | ⟨separator, -, heq⟩
    · cases heq
    · exact hown
    · exact absurd (Slot.token.inj heq).1 hrole
  · rcases mem_slots_iff.mp hslot with ⟨-, heq⟩ | hown | ⟨separator, -, heq⟩
    · cases heq
    · exact hown
    · cases heq

/-- The role of a token is not that of any slot of the form, so it is not filled. -/
theorem Shape.Fits.token?_eq_none_of_own {belongs : Category → Node → Prop}
    (h : Fits belongs (category.slots form) parts) (hrole : role ≠ .separator)
    (hslots : ∀ slot ∈ form.slots, slot.tokenRole? ≠ some role) :
    (Node.mk label parts).token? role = none := by
  refine h.token?_eq_none (List.all_eq_true.mpr fun slot hslot => ?_)
  rcases mem_slots_iff.mp hslot with ⟨-, rfl⟩ | hown | ⟨separator, -, rfl⟩
  · rfl
  · simpa using hslots slot hown
  · simpa [Slot.word, Slot.tokenRole?] using hrole.symm

/-- A word of a type is a keyword, or it is the base and an identifier. -/
theorem Shape.Formed.kind_of_word {node : Node} (h : Formed extended category node)
    {place : Option String} {limit : Limit} (hsymbol : category.symbol = .type place limit)
    (hrole : role ∈ [.sign, .base, .doubling]) (htoken : node.token? role = some token) :
    token.kind = .inline ∨ role = .base ∧ token.kind = .identifier := by
  obtain ⟨hform, -, -, hparts⟩ := h
  obtain ⟨terminal, hslot, haccepts⟩ := hparts.exists_own (by rintro rfl; simp at hrole) htoken
  have hworded := isWorded_of_mem_forms (hsymbol ▸ hform)
  rw [Form.isWorded, Bool.and_eq_true, List.all_eq_true] at hworded
  have hword : terminal.kinds.isEmpty = true ∨
      role = .base ∧ terminal.kinds = [.identifier] := by
    have hcheck : (role != .sign && role != .base && role != .doubling ||
        terminal.kinds.isEmpty || role == .base && terminal.kinds == [.identifier]) = true := by
      rcases hslot with hslot | hslot <;> exact hworded.1 _ hslot
    simp only [List.mem_cons, List.not_mem_nil, or_false] at hrole
    rcases hrole with rfl | rfl | rfl <;> simpa using hcheck
  have hkind : token.kind ∈ terminal.kinds ∨ token.kind = .inline := by
    simp only [Terminal.accepts, Bool.and_eq_true, Bool.or_eq_true, List.contains_iff_mem,
      beq_iff_eq] at haccepts
    exact haccepts.1.imp_right And.left
  rcases hword with hnone | ⟨hbase, hkinds⟩
  · rw [List.isEmpty_iff.mp hnone] at hkind
    exact Or.inl (hkind.resolve_left List.not_mem_nil)
  · rw [hkinds, List.mem_singleton] at hkind
    exact hkind.symm.imp_right fun hidentifier => ⟨hbase, hidentifier⟩

/-- A type whose base is an identifier has no other words. -/
theorem Shape.Formed.words_eq {node : Node} (h : Formed extended category node)
    {place : Option String} {limit : Limit} (hsymbol : category.symbol = .type place limit)
    (hbase : node.token? .base = some token) (hkind : token.kind = .identifier) :
    node.words = [token] := by
  obtain ⟨hform, -, -, hparts⟩ := h
  rename_i form label parts
  obtain ⟨terminal, hslot, haccepts⟩ := hparts.exists_own (by decide) hbase
  have hkinds : terminal.kinds.isEmpty = false := by
    cases hempty : terminal.kinds with
    | nil => simp [Terminal.accepts, hempty, hkind] at haccepts
    | cons kind kinds => rfl
  have hworded := isWorded_of_mem_forms (hsymbol ▸ hform)
  rw [Form.isWorded, Bool.and_eq_true, Bool.or_eq_true, List.all_eq_true, List.all_eq_true,
    List.all_eq_true] at hworded
  rcases hworded.2 with hlone | hkeyword
  · have hlone (slot : Slot) (hslot : slot ∈ form.slots) :
        slot.tokenRole? ≠ some .sign ∧ slot.tokenRole? ≠ some .doubling := by
      simpa using hlone slot hslot
    have hsign : (Node.mk label parts).token? .sign = none :=
      hparts.token?_eq_none_of_own (by decide) fun slot hslot => (hlone slot hslot).1
    have hdoubling : (Node.mk label parts).token? .doubling = none :=
      hparts.token?_eq_none_of_own (by decide) fun slot hslot => (hlone slot hslot).2
    rw [Node.words, List.filterMap_cons_none hsign, List.filterMap_cons_some hbase,
      List.filterMap_cons_none hdoubling, List.filterMap_nil]
  · -- the slot of the base would be for keywords only
    rcases hslot with hslot | hslot
    · exact absurd (hkeyword _ hslot) (by simp [hkinds])
    · exact absurd (hkeyword _ hslot) (by simp [hkinds])

/-- The type of an argument. -/
theorem Shape.Formed.type_of_argument {argument type : Node} (h : Formed extended category argument)
    (hcategory : category.isRegular = true) (hargument : argument.construct = .argument)
    (htype : argument.node? .type = some type) :
    ∃ (own : Category) (place : Option String) (limit : Limit), Formed extended own type ∧
      own.symbol = .type place limit := by
  obtain ⟨own, -, hformed, hapt⟩ := h.child hcategory (Node.mem_parts_of_node? htype)
  rw [hargument] at hapt
  obtain ⟨symbol, mode, separator⟩ := own
  cases symbol with
  | type place limit => exact ⟨_, place, limit, hformed, rfl⟩
  | _ => cases hapt

end

namespace Rule

/-- Is this an optional argument without a default value, of a plain type that names a dictionary of
which no definition has a required member?  What a type names is for `named` to say. -/
def needsDefault (items : List Node) (named : Node → Option String) (argument : Node) : Bool :=
  argument.construct == .argument && argument.has .optional && (argument.node? .default).isNone &&
    (argument.node? .type).any fun type => type.isPlain && (named type).any fun name =>
      isDictionary items name && !hasRequiredField items name

section

variable {extended : Bool} {items : List Node} {argument type : Node} {name : String}

theorem needsDefault_iff {named : Node → Option String} :
    needsDefault items named argument = true ↔
      argument.construct = .argument ∧ argument.has .optional = true ∧
        argument.node? .default = none ∧ ∃ type name, argument.node? .type = some type ∧
          type.isPlain = true ∧ named type = some name ∧ isDictionary items name = true ∧
          hasRequiredField items name = false := by
  simp only [needsDefault, Bool.and_eq_true, beq_iff_eq, Option.isNone_iff_eq_none,
    Option.any_eq_true, Bool.not_eq_true', and_assoc]
  constructor
  · rintro ⟨hconstruct, hoptional, hdefault, type, htype, hplain, name, hname, hrest⟩
    exact ⟨hconstruct, hoptional, hdefault, type, name, htype, hplain, hname, hrest⟩
  · rintro ⟨hconstruct, hoptional, hdefault, type, name, htype, hplain, hname, hrest⟩
    exact ⟨hconstruct, hoptional, hdefault, type, htype, hplain, name, hname, hrest⟩

theorem lacksDefault_iff :
    lacksDefault items argument = true ↔
      argument.has .optional = true ∧ argument.node? .default = none ∧
        ∃ type, argument.node? .type = some type ∧ type.construct.isType = true ∧
          type.isNullable = false ∧ isDictionary items type.typeName = true ∧
          hasRequiredField items type.typeName = false := by
  rw [lacksDefault]
  cases argument.node? .type with
  | none => simp
  | some type => simp [and_assoc]

/-- The names of dictionaries are words. -/
def NamesWords (items : List Node) : Prop :=
  ∀ name, isDictionary items name = true → name ≠ "" ∧ ' ' ∉ name.toList

/-- A type that is spelled like a dictionary is plain, and it consists of one word. -/
theorem exists_word_of_isDictionary (hnames : NamesWords items)
    (htype : type.construct.isType = true) (hnullable : type.isNullable = false)
    (h : isDictionary items type.typeName = true) :
    type.isPlain = true ∧ ∃ word, type.words = [word] ∧ type.typeName = word.value := by
  obtain ⟨hne, hblank⟩ := hnames _ h
  have hspelled : type.construct ≠ .unionType ∧ type.has .opening = false := by
    constructor
    · intro hunion
      exact hne (by simp [Node.typeName, hunion])
    · cases hopening : type.has .opening with
      | false => rfl
      | true => exact absurd (by simp [Node.typeName, hopening]) hne
  have hwords := Node.typeName_eq hspelled.1 hspelled.2
  refine ⟨by simp [Node.isPlain, htype, hnullable, hspelled], ?_⟩
  cases hlist : type.words with
  | nil => exact absurd (by simp [hwords, hlist]) hne
  | cons word rest =>
      cases rest with
      | nil => exact ⟨word, rfl, by simp [hwords, hlist]⟩
      | cons next rest =>
          -- there is a blank between the first two words
          rw [hwords, hlist] at hblank
          simp at hblank

/-- A type of one word is spelled like it. -/
theorem typeName_of_word {word : Token} (hplain : type.isPlain = true)
    (hwords : type.words = [word]) : type.typeName = word.value := by
  simp only [Node.isPlain, Bool.and_eq_true, bne_iff_ne, Bool.not_eq_true'] at hplain
  rw [Node.typeName_eq hplain.1.1.2 hplain.1.2, hwords, List.map_singleton,
    String.intercalate_singleton]

theorem typeName_of_keyword (hplain : type.isPlain = true) (h : type.typeKeyword? = some name) :
    type.typeName = name := by
  rw [Node.typeKeyword?] at h
  split at h
  · rename_i word hwords
    split at h
    · rename_i hinline
      obtain rfl := Option.some.inj h
      rw [typeName_of_word hplain hwords]
      simp [Token.value, hinline]
    · cases h
  · cases h

theorem typeName_of_named {own : Category} {place : Option String} {limit : Limit}
    (hformed : Formed extended own type) (hsymbol : own.symbol = .type place limit)
    (hplain : type.isPlain = true) (h : type.typeNamed? = some name) : type.typeName = name := by
  obtain ⟨base, hbase, hname⟩ := Option.bind_eq_some_iff.mp h
  split at hname
  · rename_i hidentifier
    obtain rfl := Option.some.inj hname
    rw [typeName_of_word hplain (hformed.words_eq hsymbol hbase hidentifier)]
    simp [Token.value, hidentifier]
  · cases hname

theorem lacksDefault_of_needsDefault {named : Node → Option String}
    (hspelled : ∀ type name, argument.node? .type = some type → type.isPlain = true →
      named type = some name → type.typeName = name)
    (h : needsDefault items named argument = true) : lacksDefault items argument = true := by
  obtain ⟨-, hoptional, hdefault, type, name, htype, hplain, hname, hrest⟩ :=
    needsDefault_iff.mp h
  have heq := hspelled type name htype hplain hname
  simp only [Node.isPlain, Bool.and_eq_true, bne_iff_ne, Bool.not_eq_true'] at hplain
  exact lacksDefault_iff.mpr ⟨hoptional, hdefault, type, htype, hplain.1.1.1, hplain.2, heq ▸ hrest⟩

/-- An argument is taken to lack a default value if it needs one, or if its type is a keyword that is
spelled like the name of a dictionary. -/
theorem lacksDefault_eq {category : Category} (hnames : NamesWords items)
    (hcategory : category.isRegular = true) (h : Formed extended category argument)
    (hargument : argument.construct = .argument) :
    lacksDefault items argument =
      (needsDefault items Node.typeNamed? argument ||
        needsDefault items Node.typeKeyword? argument) := by
  rw [Bool.eq_iff_iff, Bool.or_eq_true]
  constructor
  · intro hlacks
    obtain ⟨hoptional, hdefault, type, htype, hisType, hnullable, hdictionary, hrequired⟩ :=
      lacksDefault_iff.mp hlacks
    obtain ⟨own, place, limit, hformed, hsymbol⟩ := h.type_of_argument hcategory hargument htype
    obtain ⟨hplain, word, hwords, hname⟩ :=
      exists_word_of_isDictionary hnames hisType hnullable hdictionary
    rw [hname] at hdictionary hrequired
    obtain ⟨role, hrole, htoken⟩ : ∃ role ∈ [Role.sign, .base, .doubling],
        type.token? role = some word := by
      have hmem : word ∈ type.words := by simp [hwords]
      exact List.mem_filterMap.mp hmem
    rw [needsDefault_iff, needsDefault_iff]
    -- the only word of such a type is a name or a keyword
    rcases hformed.kind_of_word hsymbol hrole htoken with hinline | ⟨rfl, hidentifier⟩
    · refine Or.inr ⟨hargument, hoptional, hdefault, type, word.text, htype, hplain, ?_, ?_⟩
      · simp [Node.typeKeyword?, hwords, hinline]
      · have hvalue : word.value = word.text := by simp [Token.value, hinline]
        rw [← hvalue]
        exact ⟨hdictionary, hrequired⟩
    · refine Or.inl ⟨hargument, hoptional, hdefault, type, word.value, htype, hplain, ?_,
        hdictionary, hrequired⟩
      simp [Node.typeNamed?, htoken, hidentifier, Token.value]
  · rintro (hneeds | hneeds)
    · refine lacksDefault_of_needsDefault (fun type name htype hplain hname => ?_) hneeds
      obtain ⟨own, place, limit, hformed, hsymbol⟩ := h.type_of_argument hcategory hargument htype
      exact typeName_of_named hformed hsymbol hplain hname
    · exact lacksDefault_of_needsDefault
        (fun type name _ hplain hname => typeName_of_keyword hplain hname) hneeds

end

end Rule

end WebIdl
