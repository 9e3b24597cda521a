import WebIdl.Proofs.Shape.Swap
import WebIdl.Proofs.Validation.Objections

/-!
# What repairs do

A repair is made to a construct that it suits: a type around `void`, an extended attribute, an
optional argument, an interface or namespace.  In a well-formed tree such a construct has a known
shape, and the repair changes one lexeme of it or puts in a few tokens.  `Mends` lists the changes,
and `exists_mends` says that there are no others: everything that is proved of repairs is proved from
this list.

A repair may be made again.  Replacing a word that has been replaced, or adding a default value that
has been added, changes nothing; and a definition may be exposed twice.
-/

namespace WebIdl

open WebIdl.Shape

/-- The name is one that has been changed, or what it has been changed into. -/
def Rule.IsRenamed (former newName name : String) : Prop :=
  (former, newName) ∈ Rule.legacyNames ∧ (name = former ∨ name = newName)

/-- No name belongs to two changes. -/
theorem Rule.IsRenamed.unique {former newName other otherName name : String}
    (h : Rule.IsRenamed former newName name) (hother : Rule.IsRenamed other otherName name) :
    newName = otherName := by
  have hall : ∀ first ∈ Rule.legacyNames, ∀ second ∈ Rule.legacyNames,
      (first.1 = second.1 ∨ first.1 = second.2 ∨ first.2 = second.1 ∨ first.2 = second.2) →
        first.2 = second.2 := by decide
  refine hall _ h.1 _ hother.1 ?_
  rcases h.2 with rfl | rfl <;> rcases hother.2 with hname | hname <;> simp [hname]

/-- The construct is one that the repair is for, or one for which it has been made already. -/
def Repair.Suits : Repair → Node → Prop
  | .replaceVoid, node =>
      node.construct.isType = true ∧ ∃ base, node.token? .base = some base ∧
        base.kind = .inline ∧ (base.text = "void" ∨ base.text = "undefined")
  | .addExposed, node => Rule.needsExposure node = true
  | .rename name, node =>
      node.construct = .extendedAttribute ∧ ∃ former, Rule.IsRenamed former name node.nameOrEmpty
  | .addDefault, node =>
      node.construct = .argument ∧ node.has .optional = true ∧
        (node.node? .default = none ∨ node.node? .default = some Repair.emptyDictionary)

/-- The repair has been made to the construct, and to make it again changes nothing. -/
def Repair.Made : Repair → Node → Prop
  | .replaceVoid, node => ∃ base, node.token? .base = some base ∧ base.text = "undefined"
  | .addDefault, node => node.node? .default = some Repair.emptyDictionary
  | .addExposed, _ | .rename _, _ => False

namespace Repair

/-- The comma that joins an attribute to those before it. -/
def comma : Token where
  kind := .inline
  text := ","

/-- The attribute `Exposed=Window` in brackets, with the given trivia in front. -/
def exposedList (trivia : String) : Node :=
  .mk { construct := .extendedAttributes }
    [.token .opening (inline "[" trivia), .node .item (exposed ""), .token .closing (inline "]" "")]

end Repair

/-- The repair changes the first construct into the second. -/
inductive Mends : Repair → Node → Node → Prop where
  | void {label : Label} {attributes : Node} {base : Token} {separator : Option Token}
      (htype : label.construct.isType = true) (hkind : base.kind = .inline)
      (htext : base.text = "void") :
      Mends .replaceVoid
        (.mk label (.node .attributes attributes :: .token .base base ::
          Part.ofToken? .separator separator))
        (.mk label (.node .attributes attributes :: .token .base { base with text := "undefined" } ::
          Part.ofToken? .separator separator))
  | rename {label : Label} {name : Token} {rest : List Part} {newName : String}
      (hconstruct : label.construct = .extendedAttribute) (hkind : name.kind = .identifier)
      {former : String} (hname : Rule.IsRenamed former newName (unescape name.text)) :
      Mends (.rename newName) (.mk label (.token .name name :: rest))
        (.mk label (.token .name { name with text := newName } :: rest))
  | default {label : Label} {attributes type : Node} {optional name : Token}
      {separator : Option Token} (hconstruct : label.construct = .argument)
      (hname : Terminal.argumentName.accepts name = true) :
      Mends .addDefault
        (.mk label (.node .attributes attributes :: .token .optional optional ::
          .node .type type :: .token .name name :: Part.ofToken? .separator separator))
        (.mk label (.node .attributes attributes :: .token .optional optional ::
          .node .type type :: .token .name name :: .node .default Repair.emptyDictionary ::
          Part.ofToken? .separator separator))
  | join {label own : Label} {opening closing : Token} {front : List Node} {last : Node}
      {rest : List Part} (hclosing : (Terminal.word "]").accepts closing = true)
      (hlast : last.tokens ≠ []) :
      Mends .addExposed
        (.mk label (.node .attributes (.mk own (.token .opening opening ::
          Part.ofNodes .item (front ++ [last]) ++ [.token .closing closing])) :: rest))
        (.mk label (.node .attributes (.mk own (.token .opening opening ::
          Part.ofNodes .item (front ++ [last.withSeparator Repair.comma, Repair.exposed " "]) ++
            [.token .closing closing])) :: rest))
  | lead {label own : Label} {base : Token} {rest : List Part}
      (hown : own.construct = .extendedAttributes)
      (hbase : Terminal.accepts { words := ["interface", "namespace"] } base = true) :
      Mends .addExposed
        (.mk label (.node .attributes (.mk own []) :: .token .base base :: rest))
        (.mk label (.node .attributes (Repair.exposedList base.trivia) ::
          .token .base { base with trivia := "\n" } :: rest))

/-! ## Lookup in changed nodes -/

theorem Node.mapToken_eq_self {node : Node} {role : Role} {edit : Token → Token}
    (h : ∀ token ∈ node.token? role, edit token = token) : node.mapToken role edit = node := by
  obtain ⟨label, parts⟩ := node
  rw [Node.mapToken]
  congr 1
  induction parts with
  | nil => rfl
  | cons part parts ih =>
      cases part with
      | token own token =>
          rw [Node.token?_token] at h
          by_cases hrole : own = role
          · rw [if_pos hrole] at h
            simp [Node.mapToken.go, hrole, h token rfl]
          · rw [if_neg hrole] at h
            simp [Node.mapToken.go, hrole, ih h]
      | node own node =>
          rw [Node.token?_node] at h
          simp [Node.mapToken.go, ih h]

theorem Node.modifyToken_eq_ok {node : Node} {role : Role} {token : Token} {edit : Token → Token}
    (h : node.token? role = some token) :
    node.modifyToken role edit = .ok (node.mapToken role edit) := by
  rw [Node.modifyToken, Node.tokenIn, h]
  rfl

/-- What fills the slot of a separator. -/
theorem fits_separator {belongs : Category → Node → Prop} {separator : Option String}
    {parts : List Part} (h : Fits belongs (separator.toList.map (Slot.word .separator)) parts) :
    ∃ token, parts = Part.ofToken? .separator token := by
  cases separator with
  | none => exact ⟨none, fits_nil.mp h⟩
  | some separator =>
      obtain ⟨token, rest, rfl, -, hrest⟩ := fits_token.mp h
      obtain rfl := fits_nil.mp hrest
      exact ⟨some token, rfl⟩

/-! ## The word `void` -/

section

variable {extended : Bool} {category : Category} {node : Node}

/-- Only a type that is returned is spelled `void`. -/
theorem Shape.Formed.void_cases (h : Formed extended category node)
    (hcategory : category.isRegular = true) (htype : node.construct.isType = true) {base : Token}
    (hbase : node.token? .base = some base) (hkind : base.kind = .inline)
    (htext : base.text = "void") :
    ∃ place limit, category.symbol = .returnType place limit ∧ limit.isReturned = true ∧
      node.tag = voidForm.tag ∧ node.construct = .type ∧
      Fits (Formed extended) (category.slots voidForm) node.parts := by
  obtain ⟨hform, hconstruct, htag, hparts⟩ := h
  obtain ⟨terminal, hslot, haccepts⟩ := hparts.exists_accepts hbase
  have hvoid : terminal.accepts voidToken = true := by
    rwa [Terminal.accepts, hkind, htext] at haccepts
  obtain ⟨slot, hmem, hspelled⟩ : ∃ slot ∈ category.slots _, slot.isVoidless = false := by
    rcases hslot with hslot | hslot
    · exact ⟨_, hslot, by simp [Slot.isVoidless, hvoid]⟩
    · exact ⟨_, hslot, by simp [Slot.isVoidless, hvoid]⟩
  rcases isVoidless_of_mem_slots hcategory hform (hconstruct ▸ htype) hmem with
    hvoidless | ⟨place, limit, hsymbol, hlimit, rfl⟩
  · rw [hspelled] at hvoidless
    cases hvoidless
  · exact ⟨place, limit, hsymbol, hlimit, htag, hconstruct, hparts⟩

/-- The form of the keyword types, which has room for the word `undefined`. -/
theorem exists_undefinedForm (extended : Bool) (place : Option String) {limit : Limit}
    (hlimit : limit.isReturned = true) :
    ∃ form ∈ (Symbol.returnType place limit).forms extended, form.construct = .type ∧
      form.tag = Construct.type.tag ∧ form.attributed = true ∧
      form.slots = [.token .base { words := ["bigint", "boolean", "byte", "octet", "undefined"] },
        .option .nullable (.word "?")] := by
  refine ⟨_, List.mem_append_left _ (List.mem_flatMap.mpr ⟨.keyword, ?_, List.mem_singleton.mpr rfl⟩),
    rfl, rfl, rfl, rfl⟩
  cases limit with
  | all | guarded => simp [Limit.stems]
  | _ => cases hlimit

theorem exists_mends_void (h : Formed extended category node)
    (hcategory : category.isRegular = true) (hsuits : Repair.replaceVoid.Suits node) :
    ∃ changed, Repair.replaceVoid.apply node = .ok changed ∧
      (changed = node ∧ Repair.replaceVoid.Made node ∨ Mends .replaceVoid node changed) ∧
      Formed extended category changed := by
  obtain ⟨htype, base, hbase, hkind, htext | htext⟩ := hsuits
  · obtain ⟨place, limit, hsymbol, hlimit, htag, hconstruct, hparts⟩ :=
      h.void_cases hcategory htype hbase hkind htext
    obtain ⟨label, parts⟩ := node
    simp only [Category.slots, voidForm, if_true, List.cons_append, List.nil_append,
      Slot.word] at hparts
    obtain ⟨attributes, rest, rfl, hattributes, hrest⟩ := fits_node.mp hparts
    obtain ⟨token, tail, rfl, -, htail⟩ := fits_token.mp hrest
    obtain ⟨separator, rfl⟩ := fits_separator htail
    obtain rfl : token = base := by simpa using hbase
    obtain ⟨form, hform, hform_construct, hform_tag, hattributed, hslots⟩ :=
      exists_undefinedForm extended place hlimit
    refine ⟨_, rfl, Or.inr (.void htype hkind htext), .mk (hsymbol ▸ hform)
      (hconstruct.trans hform_construct.symm) (htag.trans hform_tag.symm) ?_⟩
    rw [Category.slots, hattributed, hslots]
    refine .node hattributes (.token ?_ (@Fits.option _ .nullable _ none _ _ (by simp) htail))
    simp [Terminal.accepts, hkind]
  · refine ⟨node, ?_, Or.inl ⟨rfl, base, hbase, htext⟩, h⟩
    rw [Repair.apply, Node.modifyToken_eq_ok hbase, Node.mapToken_eq_self]
    · rfl
    intro token htoken
    obtain rfl := Option.some.inj (hbase.symm.trans htoken)
    rw [← htext]

/-! ## Names of attributes -/

theorem Node.nameOrEmpty_extendedAttribute {label : Label} {name : Token} {rest : List Part}
    (hconstruct : label.construct = .extendedAttribute) (hkind : name.kind = .identifier) :
    (Node.mk label (.token .name name :: rest)).nameOrEmpty = unescape name.text := by
  simp [Node.nameOrEmpty_eq, hconstruct, Token.value, hkind]

theorem exists_mends_rename {newName : String} (h : Formed extended category node)
    (hcategory : category.isRegular = true) (hsuits : (Repair.rename newName).Suits node) :
    ∃ changed, (Repair.rename newName).apply node = .ok changed ∧
      Mends (.rename newName) node changed ∧ Formed extended category changed := by
  obtain ⟨hconstruct, former, hname⟩ := hsuits
  have hmakes := h.makes hcategory
  rw [hconstruct] at hmakes
  obtain ⟨hform, hlabel, htag, hparts⟩ := h
  obtain ⟨symbol, mode, separator⟩ := category
  cases symbol with
  | extendedAttribute =>
      obtain ⟨tail, -, rfl⟩ := List.mem_map.mp hform
      obtain ⟨name, rest, rfl, haccepts, hrest⟩ := fits_token.mp hparts
      have hkind : name.kind = .identifier := by
        simpa [Terminal.identifier, Terminal.accepts] using haccepts
      rw [Node.construct_mk] at hconstruct
      rw [Node.nameOrEmpty_extendedAttribute hconstruct hkind] at hname
      refine ⟨_, rfl, .rename hconstruct hkind hname, .mk hform hlabel htag (.token ?_ hrest)⟩
      simp [Terminal.identifier, Terminal.accepts, hkind]
  | _ => cases hmakes

/-! ## Default values -/

theorem formed_emptyDictionary (extended : Bool) :
    Formed extended { symbol := .default } Repair.emptyDictionary := by
  have hform : (defaultForms.get ⟨2, by decide⟩) ∈ Symbol.default.forms extended :=
    List.get_mem _ _
  refine .mk hform rfl rfl (.token ?_ (.token ?_ (.token ?_ .nil))) <;> decide

/-- An optional argument, and that a default value may be put into it. -/
theorem Shape.Formed.optional_argument (h : Formed extended category node)
    (hcategory : category.isRegular = true) (hconstruct : node.construct = .argument)
    (hoptional : node.has .optional = true) :
    ∃ label attributes optional type name value separator,
      node = .mk label (.node .attributes attributes :: .token .optional optional ::
        .node .type type :: .token .name name :: (Part.ofNode? .default value ++
          Part.ofToken? .separator separator)) ∧
      Terminal.argumentName.accepts name = true ∧
      Formed extended category (.mk label (.node .attributes attributes ::
        .token .optional optional :: .node .type type :: .token .name name ::
        .node .default Repair.emptyDictionary :: Part.ofToken? .separator separator)) := by
  have hmakes := h.makes hcategory
  rw [hconstruct] at hmakes
  obtain ⟨hform, hlabel, htag, hparts⟩ := h
  rename_i label _
  obtain ⟨symbol, mode, separator⟩ := category
  cases symbol with
  | argument =>
      have hfirst := hform
      simp only [Symbol.forms, Symbol.ownForms, argumentForms, List.mem_cons, List.not_mem_nil,
        or_false] at hform
      rcases hform with rfl | rfl
      · obtain ⟨attributes, parts, rfl, hattributes, hparts⟩ := fits_node.mp hparts
        obtain ⟨optional, parts, rfl, haccepts, hparts⟩ := fits_token.mp hparts
        obtain ⟨type, parts, rfl, htype, hparts⟩ := fits_node.mp hparts
        obtain ⟨name, parts, rfl, hname, hparts⟩ := fits_token.mp hparts
        obtain ⟨value, parts, rfl, hvalue, hrest⟩ := fits_nodeOption.mp hparts
        obtain ⟨token, rfl⟩ := fits_separator hrest
        refine ⟨label, attributes, optional, type, name, value, token, rfl, hname, ?_⟩
        refine .mk hfirst hlabel htag (.node hattributes (.token haccepts (.node htype (.token hname
          (@Fits.nodeOption _ _ _ (some Repair.emptyDictionary) _ _ ?_ hrest)))))
        rintro _ ⟨⟩
        exact formed_emptyDictionary extended
      · -- the other arguments have no slot for the word
        rw [Node.has, hparts.token?_eq_none] at hoptional
        · cases hoptional
        · cases separator <;> rfl
  | _ => cases hmakes

theorem exists_mends_default (h : Formed extended category node)
    (hcategory : category.isRegular = true) (hsuits : Repair.addDefault.Suits node) :
    ∃ changed, Repair.addDefault.apply node = .ok changed ∧
      (changed = node ∧ Repair.addDefault.Made node ∨ Mends .addDefault node changed) ∧
      Formed extended category changed := by
  obtain ⟨hconstruct, hoptional, hdefault⟩ := hsuits
  obtain ⟨label, attributes, optional, type, name, value, separator, rfl, hname, hformed⟩ :=
    h.optional_argument hcategory hconstruct hoptional
  have hvalue : (Node.mk label (.node .attributes attributes :: .token .optional optional ::
      .node .type type :: .token .name name :: (Part.ofNode? .default value ++
        Part.ofToken? .separator separator))).node? .default = value := by
    cases value <;> cases separator <;> rfl
  rw [hvalue] at hdefault
  rcases hdefault with rfl | rfl
  · refine ⟨_, ?_, Or.inr (.default hconstruct hname), hformed⟩
    cases separator <;> rfl
  · refine ⟨_, ?_, Or.inl ⟨rfl, hvalue⟩, hformed⟩
    cases separator <;> rfl

/-! ## Exposure -/

theorem Shape.Formed.withSeparator {symbol : Symbol} {mode : Mode} {separator : String}
    {token : Token} (h : Formed extended { symbol, mode } node)
    (htoken : (Terminal.word separator).accepts token = true) :
    Formed extended { symbol, mode, separator := some separator }
      (node.withSeparator (some token)) := by
  obtain ⟨hform, hlabel, htag, hparts⟩ := h
  refine .mk hform hlabel htag
    (fits_append.mpr ⟨_, [.token .separator token], rfl, ?_, .token htoken .nil⟩)
  simpa only [Category.slots, Option.toList_none, List.map_nil, List.append_nil] using hparts

theorem formed_exposed (extended : Bool) (trivia : String) :
    Formed extended { symbol := .extendedAttribute } (Repair.exposed trivia) := by
  have hform : (extendedAttributeForms.get ⟨2, by decide⟩) ∈
      Symbol.extendedAttribute.forms extended := List.get_mem _ _
  refine .mk hform rfl rfl (.token ?_ (.token ?_ (.token ?_ .nil))) <;> rfl

theorem formed_exposedList (extended : Bool) (trivia : String) :
    Formed extended { symbol := .attributes .maybe } (Repair.exposedList trivia) := by
  have hitems : Items (Formed extended) [Repair.exposed ""] { symbol := .extendedAttribute } ","
      false := .last (formed_exposed extended "")
  have hform : written ∈ (Symbol.attributes .maybe).forms extended := by
    simp [Symbol.forms, Symbol.ownForms, attributesForms]
  exact .mk hform rfl rfl (.token rfl (.list hitems (Nat.le_refl 1) (.token rfl .nil)))

/-- An item may be put behind the last one of a list, if a separator comes between them. -/
theorem Shape.Items.exists_last {belongs : Category → Node → Prop} {nodes : List Node}
    {separator : String} (h : Items belongs nodes category separator false) (hne : nodes ≠ []) :
    ∃ front last, nodes = front ++ [last] ∧ belongs category last ∧
      ∀ changed added, belongs (category.before separator) changed → belongs category added →
        Items belongs (front ++ [changed, added]) category separator false := by
  generalize hdangle : false = mayDangle at h
  induction h with
  | nil => exact absurd rfl hne
  | last hnode =>
      exact ⟨[], _, rfl, hnode, fun changed added hchanged hadded =>
        .cons hchanged (by simp) (.last hadded)⟩
  | cons hnode hlast _ ih =>
      subst hdangle
      obtain ⟨front, last, rfl, hbelongs, hadd⟩ := ih (fun hnil => by simpa using hlast hnil) rfl
      exact ⟨_ :: front, last, rfl, hbelongs, fun changed added hchanged hadded =>
        .cons hnode (by simp) (hadd changed added hchanged hadded)⟩

/-- If the form is of an interface or a namespace, attributes come before it, and it begins with the
word `partial` or with the keyword. -/
def Shape.Form.isExposable (form : Form) : Bool :=
  !(form.construct == .interface || form.construct == .namespaceDef) || form.attributed &&
    match form.slots with
    | .token .partiality _ :: _ => true
    | .token .base terminal :: _ => terminal.within { words := ["interface", "namespace"] }
    | _ => false

theorem isExposable_of_mem_forms {form : Form} (hform : form ∈ Symbol.definition.forms extended) :
    form.isExposable = true := by
  refine List.all_eq_true.mp
    (?_ : (Symbol.definition.forms extended).all Form.isExposable = true) form hform
  cases extended <;> rfl

/-- A definition that must be exposed begins with its attributes and its keyword, and may have other
attributes. -/
theorem Shape.Formed.exposable (h : Formed extended { symbol := .definition } node)
    (hneeds : Rule.needsExposure node = true) :
    ∃ label attributes base rest,
      node = .mk label (.node .attributes attributes :: .token .base base :: rest) ∧
      Terminal.accepts { words := ["interface", "namespace"] } base = true ∧
      Formed extended { symbol := .attributes .maybe } attributes ∧
      ∀ others trivia, Formed extended { symbol := .attributes .maybe } others →
        Formed extended { symbol := .definition } (.mk label (.node .attributes others ::
          .token .base { base with trivia := trivia } :: rest)) := by
  obtain ⟨hform, hlabel, htag, hparts⟩ := h
  rename_i form label parts
  simp only [Rule.needsExposure, Bool.and_eq_true, Bool.not_eq_true', Node.construct_mk] at hneeds
  have hexposable := isExposable_of_mem_forms hform
  simp only [Form.isExposable, ← hlabel, hneeds.1, Bool.not_true, Bool.false_or,
    Bool.and_eq_true] at hexposable
  obtain ⟨hattributed, hslots⟩ := hexposable
  have hall {slots : List Slot} (heq : form.slots = slots) :
      Category.slots { symbol := .definition } form =
        .node .attributes { symbol := .attributes .maybe } :: slots := by
    simp [Category.slots, hattributed, heq]
  split at hslots
  · -- the word `partial` would make the definition a partial one
    rename_i heq
    rw [hall heq] at hparts
    have hpartial : (Node.mk label parts).has .partiality = true :=
      hparts.has_token (List.mem_cons_of_mem _ List.mem_cons_self)
    rw [Node.isPartial, hpartial] at hneeds
    cases hneeds.2
  · rename_i terminal slots heq
    rw [hall heq] at hparts
    obtain ⟨attributes, parts, rfl, hattributes, hparts⟩ := fits_node.mp hparts
    obtain ⟨base, rest, rfl, hbase, hrest⟩ := fits_token.mp hparts
    refine ⟨label, attributes, base, rest, rfl, Terminal.accepts_of_within hslots hbase,
      hattributes, fun others trivia hothers => .mk hform hlabel htag ?_⟩
    rw [hall heq]
    exact .node hothers (.token hbase hrest)
  · cases hslots

/-- The last attribute of a written list, and that the list may go on behind it. -/
theorem Shape.Formed.attributes_cases (h : Formed extended { symbol := .attributes .maybe } node) :
    (∃ label, node = .mk label [] ∧ label.construct = .extendedAttributes) ∨
      ∃ label opening front last closing,
        node = .mk label (.token .opening opening ::
          (Part.ofNodes .item (front ++ [last]) ++ [.token .closing closing])) ∧
        (Terminal.word "]").accepts closing = true ∧
        Formed extended { symbol := .extendedAttribute } last ∧
        Formed extended { symbol := .attributes .maybe } (.mk label (.token .opening opening ::
          (Part.ofNodes .item (front ++ [last.withSeparator Repair.comma, Repair.exposed " "]) ++
            [.token .closing closing]))) := by
  obtain ⟨hform, hlabel, htag, hparts⟩ := h
  rename_i form label parts
  have hforms := hform
  simp only [Symbol.forms, Symbol.ownForms, attributesForms, List.mem_cons, List.not_mem_nil,
    or_false] at hform
  rcases hform with rfl | rfl
  · exact Or.inl ⟨label, by rw [fits_nil.mp hparts], hlabel⟩
  · obtain ⟨opening, parts, rfl, hopening, hparts⟩ := fits_token.mp hparts
    obtain ⟨nodes, parts, rfl, hitems, hleast, hparts⟩ := fits_list.mp hparts
    obtain ⟨closing, parts, rfl, hclosing, hparts⟩ := fits_token.mp hparts
    obtain rfl := fits_nil.mp hparts
    obtain ⟨front, last, rfl, hlast, hadd⟩ :=
      hitems.exists_last (List.ne_nil_of_length_pos hleast)
    have hcomma : (Terminal.word ",").accepts Repair.comma = true := rfl
    have hmore := hadd _ _ (hlast.withSeparator hcomma) (formed_exposed extended " ")
    refine Or.inr ⟨label, opening, front, last, closing, rfl, hclosing, hlast, .mk hforms hlabel htag
      (.token hopening (.list hmore ?_ (.token hclosing .nil)))⟩
    simp

/-- An attribute that no separator belongs to has none, and it begins with its name. -/
theorem Shape.Formed.lone_attribute (h : Formed extended { symbol := .extendedAttribute } node) :
    node.has .separator = false ∧ node.tokens ≠ [] := by
  obtain ⟨hform, -, -, hparts⟩ := h
  obtain ⟨tail, htail, rfl⟩ := List.mem_map.mp hform
  constructor
  · rw [Node.has, hparts.token?_eq_none, Option.isSome_none]
    have hall : attributeTails.all (·.all (·.tokenRole? != some .separator)) = true := by decide
    simpa [Category.slots, Slot.tokenRole?] using List.all_eq_true.mp hall tail htail
  · obtain ⟨name, rest, rfl, -, -⟩ := fits_token.mp hparts
    simp [Node.tokens, tokensOf]

/-- The attribute joins those of a written list, if no separator is behind the last one. -/
theorem Repair.apply_addExposed_written {label own : Label} {opening closing : Token}
    {front : List Node} {last : Node} {rest : List Part} (hbare : last.has .separator = false) :
    Repair.addExposed.apply (.mk label (.node .attributes (.mk own (.token .opening opening ::
        (Part.ofNodes .item (front ++ [last]) ++ [.token .closing closing]))) :: rest)) =
      .ok (.mk label (.node .attributes (.mk own (.token .opening opening ::
        (Part.ofNodes .item (front ++ [last.withSeparator comma, exposed " "]) ++
          [.token .closing closing]))) :: rest)) := by
  have hadded : (Node.mk own (.token .opening opening ::
      (Part.ofNodes .item (front ++ [last]) ++ [.token .closing closing]))).addAttribute
        (exposed " ") =
      some (.mk own (.token .opening opening ::
        (Part.ofNodes .item (front ++ [last.withSeparator comma, exposed " "]) ++
          [.token .closing closing]))) := by
    simp [Node.addAttribute, Node.addToReversed, Node.parts, Node.label, Part.ofNodes,
      Node.setSeparator, hbare, comma]
  rw [apply, expose, Node.node?_node, if_pos rfl, Option.getD_some, if_pos, hadded]
  · rfl
  · simp [Node.has]

theorem exists_mends_exposed (h : Formed extended { symbol := .definition } node)
    (hsuits : Repair.addExposed.Suits node) :
    ∃ changed, Repair.addExposed.apply node = .ok changed ∧ Mends .addExposed node changed ∧
      Formed extended { symbol := .definition } changed := by
  obtain ⟨label, attributes, base, rest, rfl, hbase, hattributes, hwith⟩ := h.exposable hsuits
  rcases hattributes.attributes_cases with ⟨own, rfl, hown⟩ | ⟨own, opening, front, last, closing,
    rfl, hclosing, hlast, hmore⟩
  · exact ⟨_, rfl, .lead hown hbase, hwith _ "\n" (formed_exposedList extended base.trivia)⟩
  · obtain ⟨hbare, htokens⟩ := hlast.lone_attribute
    exact ⟨_, Repair.apply_addExposed_written hbare, .join hclosing htokens,
      hwith _ base.trivia hmore⟩

end

/-- What a repair does to a construct that it suits, in a well-formed tree.  Definitions are exposed
in their place among the items of a document. -/
theorem exists_mends {extended : Bool} {repair : Repair} {node : Node} {category : Category}
    (h : Formed extended category node) (hcategory : category.isRegular = true)
    (hsuits : repair.Suits node)
    (hexposed : repair = .addExposed → category = { symbol := .definition }) :
    ∃ changed, repair.apply node = .ok changed ∧
      (changed = node ∧ repair.Made node ∨ Mends repair node changed) ∧
      Formed extended category changed := by
  cases repair with
  | replaceVoid => exact exists_mends_void h hcategory hsuits
  | addExposed =>
      obtain rfl := hexposed rfl
      obtain ⟨changed, happly, hmends, hformed⟩ := exists_mends_exposed h hsuits
      exact ⟨changed, happly, Or.inr hmends, hformed⟩
  | rename name =>
      obtain ⟨changed, happly, hmends, hformed⟩ := exists_mends_rename h hcategory hsuits
      exact ⟨changed, happly, Or.inr hmends, hformed⟩
  | addDefault => exact exists_mends_default h hcategory hsuits

end WebIdl
