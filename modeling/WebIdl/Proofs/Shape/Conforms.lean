import WebIdl.Proofs.Shape.Form

/-!
# Trees that conform to the grammar

A node belongs to a category of the grammar if it has one of the category's forms: its label is the
form's, and its parts fill the form's slots one after the other (`Fits`).  What it takes to fill a
slot for smaller constructs is that they belong to the slot's category, so `Conforms` is the least
relation of this kind.
-/

namespace WebIdl.Shape

/-! ## Filling slots -/

/-- The same category with a separator behind it. -/
def Category.before (category : Category) (separator : String) : Category :=
  { category with separator := some separator }

/-- The items of a list.  Each one but the last holds the separator behind it, and the last one may
hold one if the list may dangle. -/
inductive Items (belongs : Category → Node → Prop) :
    List Node → Category → String → Bool → Prop where
  | nil {category : Category} {separator : String} {mayDangle : Bool} :
      Items belongs [] category separator mayDangle
  | last {category : Category} {separator : String} {mayDangle : Bool} {node : Node}
      (hnode : belongs category node) : Items belongs [node] category separator mayDangle
  | cons {category : Category} {separator : String} {mayDangle : Bool} {node : Node}
      {others : List Node} (hnode : belongs (category.before separator) node)
      (hlast : others = [] → mayDangle) (hothers : Items belongs others category separator mayDangle) :
      Items belongs (node :: others) category separator mayDangle

/-- The parts fill the slots, where `belongs` says which nodes a category has. -/
inductive Fits (belongs : Category → Node → Prop) : List Slot → List Part → Prop where
  | nil : Fits belongs [] []
  | token {role : Role} {terminal : Terminal} {token : Token} {slots : List Slot}
      {parts : List Part} (htoken : terminal.accepts token) (hrest : Fits belongs slots parts) :
      Fits belongs (.token role terminal :: slots) (.token role token :: parts)
  | option {role : Role} {terminal : Terminal} {token : Option Token} {slots : List Slot}
      {parts : List Part} (htoken : ∀ found ∈ token, terminal.accepts found)
      (hrest : Fits belongs slots parts) :
      Fits belongs (.option role terminal :: slots) (Part.ofToken? role token ++ parts)
  | node {role : Role} {category : Category} {node : Node} {slots : List Slot}
      {parts : List Part} (hnode : belongs category node) (hrest : Fits belongs slots parts) :
      Fits belongs (.node role category :: slots) (.node role node :: parts)
  | nodeOption {role : Role} {category : Category} {node : Option Node} {slots : List Slot}
      {parts : List Part} (hnode : ∀ found ∈ node, belongs category found)
      (hrest : Fits belongs slots parts) :
      Fits belongs (.nodeOption role category :: slots) (Part.ofNode? role node ++ parts)
  | many {role : Role} {category : Category} {nodes : List Node} {slots : List Slot}
      {parts : List Part} (hnodes : ∀ node ∈ nodes, belongs category node)
      (hrest : Fits belongs slots parts) :
      Fits belongs (.many role category :: slots) (Part.ofNodes role nodes ++ parts)
  | list {role : Role} {category : Category} {separator : String} {least : Nat} {mayDangle : Bool}
      {nodes : List Node} {slots : List Slot} {parts : List Part}
      (hnodes : Items belongs nodes category separator mayDangle) (hleast : least ≤ nodes.length)
      (hrest : Fits belongs slots parts) :
      Fits belongs (.list role category separator least mayDangle :: slots)
        (Part.ofNodes role nodes ++ parts)

/-- The node belongs to the category. -/
inductive Conforms (extended : Bool) : Category → Node → Prop where
  | mk {category : Category} {form : Form} {parts : List Part}
      (hform : form ∈ category.symbol.forms extended)
      (hparts : Fits (Conforms extended) (category.slots form) parts) :
      Conforms extended category (.mk form.label parts)

/-! ## What fills a row of slots -/

section

variable {belongs : Category → Node → Prop} {slots : List Slot} {parts : List Part}

@[simp] theorem fits_nil : Fits belongs [] parts ↔ parts = [] :=
  ⟨fun h => by cases h; rfl, fun h => h ▸ .nil⟩

@[simp] theorem fits_token {role : Role} {terminal : Terminal} :
    Fits belongs (.token role terminal :: slots) parts ↔
      ∃ token rest, parts = .token role token :: rest ∧ terminal.accepts token ∧
        Fits belongs slots rest := by
  constructor
  · intro h
    cases h with
    | token htoken hrest => exact ⟨_, _, rfl, htoken, hrest⟩
  · rintro ⟨token, rest, rfl, htoken, hrest⟩
    exact .token htoken hrest

@[simp] theorem fits_option {role : Role} {terminal : Terminal} :
    Fits belongs (.option role terminal :: slots) parts ↔
      ∃ token rest, parts = Part.ofToken? role token ++ rest ∧
        (∀ found ∈ token, terminal.accepts found) ∧ Fits belongs slots rest := by
  constructor
  · intro h
    cases h with
    | option htoken hrest => exact ⟨_, _, rfl, htoken, hrest⟩
  · rintro ⟨token, rest, rfl, htoken, hrest⟩
    exact .option htoken hrest

@[simp] theorem fits_node {role : Role} {category : Category} :
    Fits belongs (.node role category :: slots) parts ↔
      ∃ node rest, parts = .node role node :: rest ∧ belongs category node ∧
        Fits belongs slots rest := by
  constructor
  · intro h
    cases h with
    | node hnode hrest => exact ⟨_, _, rfl, hnode, hrest⟩
  · rintro ⟨node, rest, rfl, hnode, hrest⟩
    exact .node hnode hrest

@[simp] theorem fits_nodeOption {role : Role} {category : Category} :
    Fits belongs (.nodeOption role category :: slots) parts ↔
      ∃ node rest, parts = Part.ofNode? role node ++ rest ∧
        (∀ found ∈ node, belongs category found) ∧ Fits belongs slots rest := by
  constructor
  · intro h
    cases h with
    | nodeOption hnode hrest => exact ⟨_, _, rfl, hnode, hrest⟩
  · rintro ⟨node, rest, rfl, hnode, hrest⟩
    exact .nodeOption hnode hrest

@[simp] theorem fits_many {role : Role} {category : Category} :
    Fits belongs (.many role category :: slots) parts ↔
      ∃ nodes rest, parts = Part.ofNodes role nodes ++ rest ∧
        (∀ node ∈ nodes, belongs category node) ∧ Fits belongs slots rest := by
  constructor
  · intro h
    cases h with
    | many hnodes hrest => exact ⟨_, _, rfl, hnodes, hrest⟩
  · rintro ⟨nodes, rest, rfl, hnodes, hrest⟩
    exact .many hnodes hrest

@[simp] theorem fits_list {role : Role} {category : Category} {separator : String} {least : Nat}
    {mayDangle : Bool} :
    Fits belongs (.list role category separator least mayDangle :: slots) parts ↔
      ∃ nodes rest, parts = Part.ofNodes role nodes ++ rest ∧
        Items belongs nodes category separator mayDangle ∧ least ≤ nodes.length ∧
        Fits belongs slots rest := by
  constructor
  · intro h
    cases h with
    | list hnodes hleast hrest => exact ⟨_, _, rfl, hnodes, hleast, hrest⟩
  · rintro ⟨nodes, rest, rfl, hnodes, hleast, hrest⟩
    exact .list hnodes hleast hrest

/-- An optional token at the end of a row. -/
theorem Fits.lastOption {role : Role} {terminal : Terminal} {token : Option Token}
    (htoken : ∀ found ∈ token, terminal.accepts found) :
    Fits belongs [.option role terminal] (Part.ofToken? role token) := by
  have h : Fits belongs [.option role terminal] (Part.ofToken? role token ++ []) :=
    .option htoken .nil
  rwa [List.append_nil] at h

/-- An optional node at the end of a row. -/
theorem Fits.lastNodeOption {role : Role} {category : Category} {node : Option Node}
    (hnode : ∀ found ∈ node, belongs category found) :
    Fits belongs [.nodeOption role category] (Part.ofNode? role node) := by
  have h : Fits belongs [.nodeOption role category] (Part.ofNode? role node ++ []) :=
    .nodeOption hnode .nil
  rwa [List.append_nil] at h

/-- Two rows of slots are filled one after the other. -/
theorem fits_append {front back : List Slot} :
    Fits belongs (front ++ back) parts ↔
      ∃ first second, parts = first ++ second ∧ Fits belongs front first ∧
        Fits belongs back second := by
  constructor
  · -- the slots in front use up the parts in front
    intro h
    induction front generalizing parts with
    | nil => exact ⟨[], parts, rfl, .nil, h⟩
    | cons slot front ih =>
        cases h with
        | token htoken hrest =>
            obtain ⟨first, second, rfl, hfirst, hsecond⟩ := ih hrest
            exact ⟨_, second, rfl, .token htoken hfirst, hsecond⟩
        | option htoken hrest =>
            obtain ⟨first, second, rfl, hfirst, hsecond⟩ := ih hrest
            exact ⟨_, second, (List.append_assoc ..).symm, .option htoken hfirst, hsecond⟩
        | node hnode hrest =>
            obtain ⟨first, second, rfl, hfirst, hsecond⟩ := ih hrest
            exact ⟨_, second, rfl, .node hnode hfirst, hsecond⟩
        | nodeOption hnode hrest =>
            obtain ⟨first, second, rfl, hfirst, hsecond⟩ := ih hrest
            exact ⟨_, second, (List.append_assoc ..).symm, .nodeOption hnode hfirst, hsecond⟩
        | many hnodes hrest =>
            obtain ⟨first, second, rfl, hfirst, hsecond⟩ := ih hrest
            exact ⟨_, second, (List.append_assoc ..).symm, .many hnodes hfirst, hsecond⟩
        | list hnodes hleast hrest =>
            obtain ⟨first, second, rfl, hfirst, hsecond⟩ := ih hrest
            exact ⟨_, second, (List.append_assoc ..).symm, .list hnodes hleast hfirst, hsecond⟩
  · rintro ⟨first, second, rfl, hfirst, hsecond⟩
    induction hfirst with
    | nil => exact hsecond
    | token htoken _ ih => exact .token htoken ih
    | option htoken _ ih =>
        rw [List.append_assoc]
        exact .option htoken ih
    | node hnode _ ih => exact .node hnode ih
    | nodeOption hnode _ ih =>
        rw [List.append_assoc]
        exact .nodeOption hnode ih
    | many hnodes _ ih =>
        rw [List.append_assoc]
        exact .many hnodes ih
    | list hnodes hleast _ ih =>
        rw [List.append_assoc]
        exact .list hnodes hleast ih

/-- The items of a list under a weaker notion of belonging. -/
theorem Items.imp {other : Category → Node → Prop} {category : Category} {separator : String}
    {mayDangle : Bool} {nodes : List Node}
    (himp : ∀ category node, belongs category node → other category node)
    (h : Items belongs nodes category separator mayDangle) :
    Items other nodes category separator mayDangle := by
  induction h with
  | nil => exact .nil
  | last hnode => exact .last (himp _ _ hnode)
  | cons hnode hlast _ ih => exact .cons (himp _ _ hnode) hlast ih

theorem Fits.imp {other : Category → Node → Prop}
    (himp : ∀ category node, belongs category node → other category node)
    (h : Fits belongs slots parts) : Fits other slots parts := by
  induction h with
  | nil => exact .nil
  | token htoken _ ih => exact .token htoken ih
  | option htoken _ ih => exact .option htoken ih
  | node hnode _ ih => exact .node (himp _ _ hnode) ih
  | nodeOption hnode _ ih => exact .nodeOption (fun found h => himp _ _ (hnode found h)) ih
  | many hnodes _ ih => exact .many (fun node h => himp _ _ (hnodes node h)) ih
  | list hnodes hleast _ ih => exact .list (hnodes.imp himp) hleast ih

end

/-! ## Nodes of a category -/

section

variable {extended : Bool} {category : Category} {node : Node}

/-- A node of a category has one of its forms. -/
theorem conforms_iff :
    Conforms extended category node ↔
      ∃ form ∈ category.symbol.forms extended, node.label = form.label ∧
        Fits (Conforms extended) (category.slots form) node.parts := by
  constructor
  · rintro ⟨hform, hparts⟩
    exact ⟨_, hform, rfl, hparts⟩
  · rintro ⟨form, hform, hlabel, hparts⟩
    obtain ⟨label, parts⟩ := node
    obtain rfl : label = form.label := hlabel
    exact .mk hform hparts

/-- A node of the given form. -/
theorem Conforms.of_form {label : Label} {parts : List Part} (form : Form)
    (hform : form ∈ category.symbol.forms extended) (hlabel : form.label = label)
    (hparts : Fits (Conforms extended) (category.slots form) parts) :
    Conforms extended category (.mk label parts) :=
  hlabel ▸ .mk hform hparts

/-- What holds of a construct whenever it holds of those below it, holds of all. -/
theorem Conforms.induct {motive : Category → Node → Prop}
    (step : ∀ category form parts, form ∈ category.symbol.forms extended →
      Fits (fun category node => Conforms extended category node ∧ motive category node)
        (category.slots form) parts →
      motive category (.mk form.label parts))
    (h : Conforms extended category node) : motive category node := by
  let both : Category → Node → Prop := fun category node =>
    Conforms extended category node ∧ motive category node
  refine @Conforms.rec extended (fun category node _ => motive category node)
    (fun slots parts _ => Fits both slots parts)
    (fun nodes category separator mayDangle _ => Items both nodes category separator mayDangle)
    ?mk ?nil ?token ?option ?node ?nodeOption ?many ?list ?none ?last ?cons category node h
  case mk => exact fun hform _ ih => step _ _ _ hform ih
  case nil => exact .nil
  case token => exact fun htoken _ ih => .token htoken ih
  case option => exact fun htoken _ ih => .option htoken ih
  case node => exact fun hnode _ ihnode ih => .node ⟨hnode, ihnode⟩ ih
  case nodeOption =>
    exact fun hnode _ ihnode ih => .nodeOption (fun found h => ⟨hnode found h, ihnode found h⟩) ih
  case many =>
    exact fun hnodes _ ihnodes ih => .many (fun node h => ⟨hnodes node h, ihnodes node h⟩) ih
  case list => exact fun _ hleast _ ihnodes ih => .list ihnodes hleast ih
  case none => exact .nil
  case last => exact fun hnode ihnode => .last ⟨hnode, ihnode⟩
  case cons => exact fun hnode hlast _ ihnode ih => .cons ⟨hnode, ihnode⟩ hlast ih

/-- A symbol takes over the nodes of one whose forms it has. -/
theorem Conforms.of_subset {symbol : Symbol} {mode : Mode} {separator : Option String}
    {larger : Symbol} (hforms : symbol.forms extended ⊆ larger.forms extended)
    (h : Conforms extended ⟨symbol, mode, separator⟩ node) :
    Conforms extended ⟨larger, mode, separator⟩ node := by
  cases h with
  | mk hform hparts => exact .mk (hforms hform) hparts

/-- A separator behind a node. -/
theorem Conforms.withSeparator {symbol : Symbol} {mode : Mode} {separator : String}
    {token : Token} (htoken : (Terminal.word separator).accepts token)
    (h : Conforms extended { symbol, mode } node) :
    Conforms extended { symbol, mode, separator := some separator }
      (node.withSeparator (some token)) := by
  cases h with
  | mk hform hparts =>
      refine .mk hform (fits_append.2 ⟨_, [.token .separator token], rfl, ?_, .token htoken .nil⟩)
      simpa only [Category.slots, Option.toList_none, List.map_nil, List.append_nil] using hparts

/-! ## Attributes in front of a node -/

theorem conforms_noAttributes {mode : Mode} (h : mode ≠ .always) :
    Conforms extended { symbol := .attributes mode } Node.noAttributes := by
  have hform : unwritten ∈ (Symbol.attributes mode).forms extended := by
    cases mode
    · exact List.mem_singleton_self _
    · exact List.mem_cons_self
    · exact absurd rfl h
  have hparts : Fits (Conforms extended)
      (Category.slots { symbol := .attributes mode } unwritten) [] := .nil
  exact .mk hform hparts

/-- Attributes that are never written are not written. -/
theorem eq_noAttributes_of_conforms {mode : Mode} {separator : Option String}
    (h : Conforms extended ⟨.attributes .never, mode, separator⟩ node) (hnone : separator = none) :
    node = Node.noAttributes := by
  cases h with
  | mk hform hparts =>
      obtain rfl := List.mem_singleton.mp hform
      subst hnone
      obtain rfl := fits_nil.mp hparts
      rfl

/-- Every form of the symbol begins with attributes. -/
def Symbol.Attributed (extended : Bool) (symbol : Symbol) : Prop :=
  (symbol.forms extended).all Form.attributed = true

/-- A construct without attributes begins with attributes that are not written. -/
theorem Conforms.bare {symbol : Symbol} {separator : Option String}
    (hattributed : symbol.Attributed extended)
    (h : Conforms extended { symbol, mode := .never, separator } node) :
    ∃ label parts, node = .mk label (Grammar.bare :: parts) := by
  cases h with
  | mk hform hparts =>
      simp only [Category.slots, List.all_eq_true.mp hattributed _ hform, if_true, List.cons_append,
        List.nil_append, fits_node] at hparts
      obtain ⟨attributes, rest, rfl, hattributes, -⟩ := hparts
      obtain rfl := eq_noAttributes_of_conforms hattributes rfl
      exact ⟨_, rest, rfl⟩

/-- A construct without attributes has one of the forms of its symbol behind them. -/
theorem Conforms.split_form {symbol : Symbol}
    (h : Conforms extended { symbol, mode := .never } node)
    (hattributed : symbol.Attributed extended) :
    ∃ form ∈ symbol.forms extended, ∃ parts, node = .mk form.label (Grammar.bare :: parts) ∧
      node.tokens = tokensOf parts ∧ Fits (Conforms extended) form.slots parts := by
  cases h with
  | mk hform hparts =>
      rename_i form parts
      simp only [Category.slots, List.all_eq_true.mp hattributed _ hform, if_true, List.cons_append,
        List.nil_append, Option.toList_none, List.map_nil, List.append_nil] at hparts
      obtain ⟨attributes, rest, rfl, hattributes, hrest⟩ := fits_node.mp hparts
      obtain rfl := eq_noAttributes_of_conforms hattributes rfl
      exact ⟨form, hform, rest, rfl, by simp [Node.tokens, tokensOf], hrest⟩

/-- Attributes take the place of those that are not written. -/
theorem Conforms.withAttributes {symbol : Symbol} {mode : Mode} {separator : Option String}
    {attributes : Node} (hattributed : symbol.Attributed extended)
    (h : Conforms extended { symbol, mode := .never, separator } node)
    (hattributes : Conforms extended { symbol := .attributes mode } attributes) :
    Conforms extended { symbol, mode, separator } (node.withAttributes attributes) := by
  cases h with
  | mk hform hparts =>
      have hcase := List.all_eq_true.mp hattributed _ hform
      simp only [Category.slots, hcase, if_true, List.cons_append, List.nil_append,
        fits_node] at hparts
      obtain ⟨before, rest, rfl, -, hrest⟩ := hparts
      refine .mk hform ?_
      simp only [Category.slots, hcase, if_true, List.cons_append, List.nil_append]
      exact .node hattributes hrest

theorem Conforms.tokens_withAttributes {symbol : Symbol} {separator : Option String}
    (hattributed : symbol.Attributed extended) (attributes : Node)
    (h : Conforms extended { symbol, mode := .never, separator } node) :
    (node.withAttributes attributes).tokens = attributes.tokens ++ node.tokens := by
  obtain ⟨label, parts, rfl⟩ := h.bare hattributed
  exact Node.tokens_withAttributes attributes

/-- Attributes that are written begin with a bracket. -/
theorem Conforms.tokens_attributes {mode : Mode}
    (h : Conforms extended { symbol := .attributes .always, mode } node) :
    ∃ opening rest, node.tokens = opening :: rest ∧
      (Terminal.word "[").accepts opening = true := by
  cases h with
  | mk hform hparts =>
      obtain rfl := List.mem_singleton.mp hform
      obtain ⟨opening, rest, rfl, hopening, -⟩ := fits_token.mp hparts
      exact ⟨opening, tokensOf rest, by simp [Node.tokens, tokensOf], hopening⟩

/-- The attributes of a construct and what follows them. -/
theorem Conforms.split_attributes {symbol : Symbol} {mode : Mode} {separator : Option String}
    (hattributed : symbol.Attributed extended)
    (h : Conforms extended { symbol, mode, separator } node) :
    ∃ attributes core, node = core.withAttributes attributes ∧
      Conforms extended { symbol := .attributes mode } attributes ∧
      Conforms extended { symbol, mode := .never, separator } core := by
  cases h with
  | mk hform hparts =>
      rename_i form parts
      have hcase := List.all_eq_true.mp hattributed _ hform
      simp only [Category.slots, hcase, if_true, List.cons_append, List.nil_append,
        fits_node] at hparts
      obtain ⟨attributes, rest, rfl, hattributes, hrest⟩ := hparts
      refine ⟨attributes, .mk form.label (Grammar.bare :: rest), rfl, hattributes, .mk hform ?_⟩
      simp only [Category.slots, hcase, if_true, List.cons_append, List.nil_append]
      exact .node (conforms_noAttributes (by simp)) hrest

/-- Attributes that may be written are written or not. -/
theorem Conforms.attributes_cases {mode : Mode}
    (h : Conforms extended { symbol := .attributes .maybe, mode } node) :
    node = Node.noAttributes ∨ Conforms extended { symbol := .attributes .always, mode } node := by
  cases h with
  | mk hform hparts =>
      rcases List.mem_cons.mp hform with rfl | hwritten
      · obtain rfl := fits_nil.mp hparts
        exact Or.inl rfl
      · exact Or.inr (.mk hwritten hparts)

/-- A construct that may have attributes has none or some. -/
theorem Conforms.never_or_always {symbol : Symbol} {separator : Option String}
    (hattributed : symbol.Attributed extended)
    (h : Conforms extended { symbol, separator } node) :
    Conforms extended { symbol, mode := .never, separator } node ∨
      Conforms extended { symbol, mode := .always, separator } node := by
  obtain ⟨attributes, core, rfl, hattributes, hcore⟩ := h.split_attributes hattributed
  rcases hattributes.attributes_cases with rfl | hwritten
  · exact Or.inl (hcore.withAttributes hattributed (conforms_noAttributes (by simp)))
  · exact Or.inr (hcore.withAttributes hattributed hwritten)

theorem Conforms.tokens_always {symbol : Symbol} {separator : Option String}
    (hattributed : symbol.Attributed extended)
    (h : Conforms extended { symbol, mode := .always, separator } node) :
    ∃ opening rest, node.tokens = opening :: rest ∧
      (Terminal.word "[").accepts opening = true := by
  obtain ⟨attributes, core, rfl, hattributes, hcore⟩ := h.split_attributes hattributed
  obtain ⟨opening, rest, htokens, hopening⟩ := hattributes.tokens_attributes
  exact ⟨opening, rest ++ core.tokens, by
    rw [hcore.tokens_withAttributes hattributed, htokens, List.cons_append], hopening⟩

/-- A construct that does not begin with a bracket has no attributes. -/
theorem Conforms.never_of_head {symbol : Symbol} {separator : Option String}
    (hattributed : symbol.Attributed extended)
    (h : Conforms extended { symbol, separator } node)
    (hhead : ∀ token ∈ node.tokens.head?, (Terminal.word "[").accepts token = false) :
    Conforms extended { symbol, mode := .never, separator } node := by
  refine (h.never_or_always hattributed).resolve_right fun halways => ?_
  obtain ⟨opening, rest, htokens, hopening⟩ := halways.tokens_always hattributed
  simp [htokens, hopening] at hhead

/-- A node without attributes is one that may have them. -/
theorem Conforms.maybe {symbol : Symbol} {separator : Option String}
    (hattributed : symbol.Attributed extended)
    (h : Conforms extended { symbol, mode := .never, separator } node) :
    Conforms extended { symbol, separator } node := by
  obtain ⟨label, parts, rfl⟩ := h.bare hattributed
  exact h.withAttributes hattributed (conforms_noAttributes (by decide))

end

end WebIdl.Shape
