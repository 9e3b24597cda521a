import WebIdl.Proofs.Complete.Types

/-!
# The grammar of types

Types, the attributes in front of them and the arguments inside these, as rules that derive a row of
tokens together with the tree it stands for.  `Derives` has the rules of single phrases, and `Row`
those of phrases with a separator between them.

The rules are those of the language, with no word on how it is parsed.  They agree with the forms of
constructs: a phrase is derived exactly if its tree conforms to the category of the phrase and has
these tokens (`derives_iff`).
-/

namespace WebIdl.Derivation

open WebIdl.Shape WebIdl.Grammar

/-! ## Rules -/

/-- The phrases of the grammar.  Types are noted to be in a place. -/
inductive Phrase where
  | attributes
  /-- One of the attributes. -/
  | item
  /-- A value of an attribute, of the given kind. -/
  | value (kind : Token.Kind)
  | argument
  | default
  /-- A type without its question mark. -/
  | stem (place : Option String)
  | type (place : Option String)
  /-- What a promise is for: a type, or `void`. -/
  | promised (place : Option String)
  | attributedType (place : Option String)
  | unionMember

/-- An attribute of the given parts. -/
def attributeNode (parts : List Part) : Node :=
  .mk { construct := .extendedAttribute } parts

/-- A default value of the given tokens. -/
def defaultNode (assign : Token) (expression : List Token) : Node :=
  .mk { construct := .default }
    (.token .assign assign :: expression.map (Part.token .expression))

mutual

/-- The tokens are a phrase of this sort, and the node is its tree. -/
inductive Derives : Phrase → List Token → Node → Prop where
  /-- Attributes may be missing. -/
  | unwritten : Derives .attributes [] Node.noAttributes
  /-- Attributes in brackets, at least one. -/
  | written {opening closing : Token} {tokens : List Token} {items : List Node}
      (hopening : (Terminal.word "[").accepts opening) (hitems : Row .item "," tokens items)
      (hsome : items ≠ []) (hclosing : (Terminal.word "]").accepts closing) :
      Derives .attributes (opening :: tokens ++ [closing])
        (.mk { construct := .extendedAttributes } (.token .opening opening ::
          Part.ofNodes .item items ++ [.token .closing closing]))
  /-- An attribute `Name`. -/
  | name {name : Token} (hname : Terminal.identifier.accepts name) :
      Derives .item [name] (attributeNode [.token .name name])
  /-- An attribute `Name=*`. -/
  | asterisk {name assign asterisk : Token} (hname : Terminal.identifier.accepts name)
      (hassign : (Terminal.word "=").accepts assign)
      (hasterisk : (Terminal.word "*").accepts asterisk) :
      Derives .item [name, assign, asterisk] (attributeNode
        [.token .name name, .token .assign assign, .token .asterisk asterisk])
  /-- An attribute `Name=value`. -/
  | equals {name assign value : Token} (hname : Terminal.identifier.accepts name)
      (hassign : (Terminal.word "=").accepts assign) (hvalue : Shape.valueKinds.accepts value) :
      Derives .item [name, assign, value] (attributeNode
        [.token .name name, .token .assign assign, .token .secondaryName value])
  /-- An attribute `Name=(values)`.  There is a value, and all are of one kind. -/
  | values {name assign opening closing : Token} {kind : Token.Kind} {tokens : List Token}
      {values : List Node} (hname : Terminal.identifier.accepts name)
      (hassign : (Terminal.word "=").accepts assign)
      (hopening : (Terminal.word "(").accepts opening) (hkind : kind ∈ Grammar.valueKinds)
      (hvalues : Row (.value kind) "," tokens values) (hsome : values ≠ [])
      (hclosing : (Terminal.word ")").accepts closing) :
      Derives .item (name :: assign :: opening :: tokens ++ [closing]) (attributeNode
        (.token .name name :: .token .assign assign :: .token .opening opening ::
          Part.ofNodes .entry values ++ [.token .closing closing]))
  /-- An attribute `Name(arguments)`. -/
  | call {name opening closing : Token} {tokens : List Token} {arguments : List Node}
      (hname : Terminal.identifier.accepts name)
      (hopening : (Terminal.word "(").accepts opening)
      (harguments : Row .argument "," tokens arguments)
      (hclosing : (Terminal.word ")").accepts closing) :
      Derives .item (name :: opening :: tokens ++ [closing]) (attributeNode
        (.token .name name :: .token .opening opening :: Part.ofNodes .entry arguments ++
          [.token .closing closing]))
  /-- An attribute `Name=value(arguments)`. -/
  | equalsCall {name assign value opening closing : Token} {tokens : List Token}
      {arguments : List Node} (hname : Terminal.identifier.accepts name)
      (hassign : (Terminal.word "=").accepts assign) (hvalue : Shape.valueKinds.accepts value)
      (hopening : (Terminal.word "(").accepts opening)
      (harguments : Row .argument "," tokens arguments)
      (hclosing : (Terminal.word ")").accepts closing) :
      Derives .item (name :: assign :: value :: opening :: tokens ++ [closing]) (attributeNode
        (.token .name name :: .token .assign assign :: .token .secondaryName value ::
          .token .opening opening :: Part.ofNodes .entry arguments ++ [.token .closing closing]))
  | value {kind : Token.Kind} {value : Token} (hvalue : value.kind = kind) :
      Derives (.value kind) [value] (.mk { construct := .wrappedToken } [.token .value value])
  /-- An optional argument, which may have a default value.  Its type may have attributes. -/
  | optional {optional name : Token} {front middle : List Token} {attributes type : Node}
      (hattributes : Derives .attributes front attributes)
      (hoptional : (Terminal.word "optional").accepts optional)
      (htype : Derives (.attributedType argumentPlace) middle type)
      (hname : Terminal.argumentName.accepts name) :
      Derives .argument (front ++ optional :: middle ++ [name]) (.mk { construct := .argument }
        [.node .attributes attributes, .token .optional optional, .node .type type,
          .token .name name])
  | optionalDefault {optional name : Token} {front middle back : List Token}
      {attributes type default : Node} (hattributes : Derives .attributes front attributes)
      (hoptional : (Terminal.word "optional").accepts optional)
      (htype : Derives (.attributedType argumentPlace) middle type)
      (hname : Terminal.argumentName.accepts name) (hdefault : Derives .default back default) :
      Derives .argument (front ++ optional :: middle ++ name :: back)
        (.mk { construct := .argument }
          [.node .attributes attributes, .token .optional optional, .node .type type,
            .token .name name, .node .default default])
  /-- An argument that is not optional may be variadic.  The attributes in front of it are its own:
  no second list directly follows them. -/
  | required {dots : Option Token} {name : Token} {front middle : List Token}
      {attributes type : Node} (hattributes : Derives .attributes front attributes)
      (htype : Derives (.type argumentPlace) middle type)
      (hdots : ∀ token ∈ dots, (Terminal.word "...").accepts token)
      (hname : Terminal.argumentName.accepts name) :
      Derives .argument (front ++ middle ++ dots.toList ++ [name]) (.mk { construct := .argument }
        (.node .attributes attributes :: .node .type type :: Part.ofToken? .variadic dots ++
          [.token .name name]))
  /-- A default value of one token. -/
  | constant {assign value : Token} (hassign : (Terminal.word "=").accepts assign)
      (hvalue : (Terminal.default fun text => text != "[" && text != "\x7b").accepts value) :
      Derives .default [assign, value] (defaultNode assign [value])
  | emptySequence {assign opening closing : Token} (hassign : (Terminal.word "=").accepts assign)
      (hopening : (Terminal.default (· == "[")).accepts opening)
      (hclosing : (Terminal.word "]").accepts closing) :
      Derives .default [assign, opening, closing] (defaultNode assign [opening, closing])
  | emptyDictionary {assign opening closing : Token} (hassign : (Terminal.word "=").accepts assign)
      (hopening : (Terminal.default (· == "\x7b")).accepts opening)
      (hclosing : (Terminal.word "\x7d").accepts closing) :
      Derives .default [assign, opening, closing] (defaultNode assign [opening, closing])
  | short {place : Option String} {sign : Option Token} {base : Token}
      (hsign : ∀ token ∈ sign, (Terminal.word "unsigned").accepts token)
      (hbase : (Terminal.word "short").accepts base) :
      Derives (.stem place) (sign.toList ++ [base])
        (typeNode place (Part.ofToken? .sign sign ++ [.token .base base]))
  | long {place : Option String} {sign doubling : Option Token} {base : Token}
      (hsign : ∀ token ∈ sign, (Terminal.word "unsigned").accepts token)
      (hbase : (Terminal.word "long").accepts base)
      (hdoubling : ∀ token ∈ doubling, (Terminal.word "long").accepts token) :
      Derives (.stem place) (sign.toList ++ base :: doubling.toList)
        (typeNode place (Part.ofToken? .sign sign ++ .token .base base ::
          Part.ofToken? .doubling doubling))
  | float {place : Option String} {sign : Option Token} {base : Token}
      (hsign : ∀ token ∈ sign, (Terminal.word "unrestricted").accepts token)
      (hbase : Terminal.accepts { words := ["float", "double"] } base) :
      Derives (.stem place) (sign.toList ++ [base])
        (typeNode place (Part.ofToken? .sign sign ++ [.token .base base]))
  | primitive {place : Option String} {base : Token}
      (hbase : Terminal.accepts
        { words := ["bigint", "boolean", "byte", "octet", "undefined"] } base) :
      Derives (.stem place) [base] (typeNode place [.token .base base])
  /-- An identifier, a string type, or one of the other types that go by a keyword. -/
  | named {place : Option String} {base : Token}
      (hbase : (Terminal.typeName fun _ => true).accepts base) :
      Derives (.stem place) [base] (typeNode place [.token .base base])
  | collection {place : Option String} {base opening closing : Token} {tokens : List Token}
      {type : Node}
      (hbase : Terminal.accepts { words := ["FrozenArray", "ObservableArray", "sequence"] } base)
      (hopening : (Terminal.word "<").accepts opening)
      (htype : Derives (.attributedType place) tokens type)
      (hclosing : (Terminal.word ">").accepts closing) :
      Derives (.stem place) (base :: opening :: tokens ++ [closing]) (typeNode place
        [.token .base base, .token .opening opening, .node .subtype type,
          .token .closing closing])
  | promise {place : Option String} {base opening closing : Token} {tokens : List Token}
      {type : Node} (hbase : (Terminal.word "Promise").accepts base)
      (hopening : (Terminal.word "<").accepts opening)
      (htype : Derives (.promised (returnPlaceOf place)) tokens type)
      (hclosing : (Terminal.word ">").accepts closing) :
      Derives (.stem place) (base :: opening :: tokens ++ [closing]) (typeNode place
        [.token .base base, .token .opening opening, .node .subtype type,
          .token .closing closing])
  /-- A record; its key is a string type. -/
  | record {place : Option String} {base opening key comma closing : Token} {tokens : List Token}
      {type : Node} (hbase : (Terminal.word "record").accepts base)
      (hopening : (Terminal.word "<").accepts opening)
      (hkey : Terminal.accepts { words := Keyword.stringTypes } key)
      (hcomma : (Terminal.word ",").accepts comma)
      (htype : Derives (.attributedType place) tokens type)
      (hclosing : (Terminal.word ">").accepts closing) :
      Derives (.stem place) (base :: opening :: key :: comma :: tokens ++ [closing])
        (typeNode place [.token .base base, .token .opening opening,
          .node .subtype ((typeNode place [.token .base key]).withSeparator (some comma)),
          .node .subtype type, .token .closing closing])
  /-- A union of at least two types. -/
  | union {place : Option String} {opening closing : Token} {tokens : List Token}
      {members : List Node} (hopening : (Terminal.word "(").accepts opening)
      (hmembers : Row .unionMember "or" tokens members) (htwo : 2 ≤ members.length)
      (hclosing : (Terminal.word ")").accepts closing) :
      Derives (.stem place) (opening :: tokens ++ [closing])
        (.mk { construct := .unionType, place } (bare :: .token .opening opening ::
          Part.ofNodes .subtype members ++ [.token .closing closing]))
  | plain {place : Option String} {tokens : List Token} {type : Node}
      (htype : Derives (.stem place) tokens type) : Derives (.type place) tokens type
  /-- A type that can be null is neither a promise nor `any`. -/
  | nullable {place : Option String} {tokens : List Token} {type : Node} {mark : Token}
      (htype : Derives (.stem place) tokens type) (hpromise : type.applies "Promise" = .ok false)
      (hany : type.typeName ≠ "any") (hmark : (Terminal.word "?").accepts mark) :
      Derives (.type place) (tokens ++ [mark]) (withNullable (some mark) type)
  | promised {place : Option String} {tokens : List Token} {type : Node}
      (htype : Derives (.type place) tokens type) : Derives (.promised place) tokens type
  | void {place : Option String} {base : Token} (hbase : (Terminal.word "void").accepts base) :
      Derives (.promised place) [base] (typeNode (some returnPlace) [.token .base base])
  | attributed {place : Option String} {front back : List Token} {attributes type : Node}
      (hattributes : Derives .attributes front attributes)
      (htype : Derives (.type place) back type) :
      Derives (.attributedType place) (front ++ back) (type.withAttributes attributes)
  /-- A member of a union is neither a promise nor `any`. -/
  | unionMember {tokens : List Token} {type : Node}
      (htype : Derives (.attributedType none) tokens type)
      (hpromise : type.applies "Promise" = .ok false) (hany : type.typeName ≠ "any") :
      Derives .unionMember tokens type

/-- The tokens are phrases of one sort with a separator between them, and each node but the last holds
the separator behind it. -/
inductive Row : Phrase → String → List Token → List Node → Prop where
  | nil {phrase : Phrase} {separator : String} : Row phrase separator [] []
  | last {phrase : Phrase} {separator : String} {tokens : List Token} {node : Node}
      (hnode : Derives phrase tokens node) : Row phrase separator tokens [node]
  | cons {phrase : Phrase} {separator : String} {mark : Token} {front back : List Token}
      {node : Node} {others : List Node} (hnode : Derives phrase front node)
      (hmark : (Terminal.word separator).accepts mark) (hothers : Row phrase separator back others)
      (hmore : others ≠ []) :
      Row phrase separator (front ++ mark :: back) (node.withSeparator (some mark) :: others)

end

/-! ## The trees that are derived -/

/-- The shapes of a type in the standard language. -/
def standardStems : List Stem :=
  Limit.stems false .all

/-- The category of the trees that a phrase has. -/
def Phrase.category : Phrase → Category
  | .attributes => { symbol := .attributes .maybe }
  | .item => { symbol := .extendedAttribute }
  | .value kind => { symbol := .wrappedToken kind }
  | .argument => { symbol := .argument }
  | .default => { symbol := .default }
  | .stem place => { symbol := .stem standardStems place, mode := .never }
  | .type place => { symbol := .type place .all, mode := .never }
  | .promised place => { symbol := .returnType place .all, mode := .never }
  | .attributedType place => { symbol := .type place .all }
  | .unionMember => { symbol := .type none .unionMember }

/-- A separator behind a phrase. -/
theorem conforms_before {phrase : Phrase} {separator : String} {mark : Token} {node : Node}
    (hmark : (Terminal.word separator).accepts mark) (h : Conforms false phrase.category node) :
    Conforms false (phrase.category.before separator) (node.withSeparator (some mark)) := by
  cases phrase <;> exact h.withSeparator hmark

theorem conforms_attributeNode {name : Token} {tail : List Slot} {parts : List Part}
    (hname : Terminal.identifier.accepts name) (htail : tail ∈ attributeTails)
    (hparts : Fits (Conforms false) tail parts) :
    Conforms false Phrase.item.category (attributeNode (.token .name name :: parts)) := by
  refine .of_form _ (List.mem_map_of_mem htail) rfl (.token hname ?_)
  simpa [Phrase.category] using hparts

theorem conforms_defaultNode {assign : Token} {expression : List Token} {form : Form}
    (hform : form ∈ defaultForms) {slots : List Slot}
    (hslots : form.slots = .word .assign "=" :: slots)
    (hassign : (Terminal.word "=").accepts assign)
    (hparts : Fits (Conforms false) slots (expression.map (Part.token .expression))) :
    Conforms false Phrase.default.category (defaultNode assign expression) := by
  have hlabel : form.label = { construct := .default } ∧ form.attributed = false := by
    simp only [defaultForms, List.mem_cons, List.not_mem_nil, or_false] at hform
    rcases hform with rfl | rfl | rfl <;> exact ⟨rfl, rfl⟩
  refine .of_form form hform hlabel.1 ?_
  simp only [Category.slots, hlabel.2, Bool.false_eq_true, if_false, hslots, List.nil_append,
    Phrase.category, Option.toList_none, List.map_nil, List.append_nil]
  exact .token hassign hparts

/-- A type that is not a union, of one of the shapes. -/
theorem conforms_typeNode (stem : Stem) {place : Option String} {slots : List Slot}
    {parts : List Part} (hstem : stem ∈ standardStems) (hconstruct : stem.construct = .type)
    (hslots : slots ∈ stem.slots place .all) (hparts : Fits (Conforms false) slots parts) :
    Conforms false (Phrase.category (.stem place)) (typeNode place parts) := by
  have hconforms := conforms_stem stem hstem hslots hparts
  rwa [hconstruct] at hconforms

theorem tokens_typeNode (place : Option String) (parts : List Part) :
    (typeNode place parts).tokens = tokensOf parts := by
  simp [typeNode, bare, Node.tokens, tokensOf]

theorem withNullable_none (type : Node) : withNullable none type = type := by
  obtain ⟨label, parts⟩ := type
  simp [withNullable, Part.ofToken?]

/-- A type and its question mark. -/
theorem conforms_marked {place : Option String} {type : Node} {mark : Option Token}
    (h : Conforms false (Phrase.category (.stem place)) type)
    (hmark : ∀ token ∈ mark, (Terminal.word "?").accepts token = true)
    (hpromise : mark.isSome → type.applies "Promise" = .ok false)
    (hany : mark.isSome → type.typeName ≠ "any") :
    Conforms false (Phrase.category (.type place)) (withNullable mark type) := by
  have hplace : type.withPlace place = type := by
    obtain ⟨stem, -, slots, -, parts, rfl, -⟩ := conforms_stem_iff.mp h
    have hisType : stem.construct.isType = true := by cases stem <;> rfl
    simp [Node.withPlace, hisType]
  rw [← hplace]
  exact conforms_withNullable (fun _ => id) (Or.inl rfl) h hmark hpromise hany

mutual

/-- What is derived conforms to the category of its phrase, and has the tokens that it is derived
from. -/
theorem Derives.conforms {phrase : Phrase} {tokens : List Token} {node : Node}
    (h : Derives phrase tokens node) :
    Conforms false phrase.category node ∧ node.tokens = tokens := by
  -- each rule writes out the parts of one form, and the recursion goes down to the phrases inside
  match h with
  | .unwritten => exact ⟨conforms_noAttributes (by simp), by simp⟩
  | .written hopening hitems hsome hclosing =>
      obtain ⟨hconforms, htokens⟩ := hitems.conforms
      refine ⟨.of_form written (List.mem_cons_of_mem _ List.mem_cons_self) rfl ?_,
        by simp [Node.tokens, tokensOf, htokens]⟩
      exact .token hopening (.list hconforms (List.length_pos_iff.mpr hsome) (.token hclosing .nil))
  -- the forms of attributes are named by their places in `attributeTails`
  | .name hname =>
      exact ⟨conforms_attributeNode hname (List.mem_of_getElem? (i := 0) rfl) .nil, rfl⟩
  | .asterisk hname hassign hasterisk =>
      exact ⟨conforms_attributeNode hname (List.mem_of_getElem? (i := 1) rfl)
        (.token hassign (.token hasterisk .nil)), rfl⟩
  | .equals hname hassign hvalue =>
      exact ⟨conforms_attributeNode hname (List.mem_of_getElem? (i := 2) rfl)
        (.token hassign (.token hvalue .nil)), rfl⟩
  | .values hname hassign hopening hkind hvalues hsome hclosing =>
      obtain ⟨hconforms, htokens⟩ := hvalues.conforms
      refine ⟨conforms_attributeNode hname (List.mem_append_right _ (List.mem_map_of_mem hkind)) ?_,
        by simp [attributeNode, Node.tokens, tokensOf, htokens]⟩
      exact .token hassign (.token hopening
        (.list hconforms (List.length_pos_iff.mpr hsome) (.token hclosing .nil)))
  | .call hname hopening harguments hclosing =>
      obtain ⟨hconforms, htokens⟩ := harguments.conforms
      refine ⟨conforms_attributeNode hname (List.mem_of_getElem? (i := 3) rfl) ?_,
        by simp [attributeNode, Node.tokens, tokensOf, htokens]⟩
      exact .token hopening (.list hconforms (Nat.zero_le _) (.token hclosing .nil))
  | .equalsCall hname hassign hvalue hopening harguments hclosing =>
      obtain ⟨hconforms, htokens⟩ := harguments.conforms
      refine ⟨conforms_attributeNode hname (List.mem_of_getElem? (i := 4) rfl) ?_,
        by simp [attributeNode, Node.tokens, tokensOf, htokens]⟩
      exact .token hassign (.token hvalue (.token hopening
        (.list hconforms (Nat.zero_le _) (.token hclosing .nil))))
  | .value hvalue =>
      refine ⟨.of_form _ (List.mem_singleton_self _) rfl (.token ?_ .nil), rfl⟩
      exact accepts_kinds.mpr (List.mem_singleton.mpr hvalue)
  -- an argument without a default value leaves the last slot empty
  | .optional hattributes hoptional htype hname =>
      obtain ⟨hfront, rfl⟩ := hattributes.conforms
      obtain ⟨hmiddle, rfl⟩ := htype.conforms
      refine ⟨.of_form _ List.mem_cons_self rfl ?_, by simp [Node.tokens, tokensOf]⟩
      exact .node hfront (.token hoptional (.node hmiddle (.token hname
        (@Fits.lastNodeOption _ .default { symbol := .default } none (by simp)))))
  | .optionalDefault hattributes hoptional htype hname hdefault =>
      obtain ⟨hfront, rfl⟩ := hattributes.conforms
      obtain ⟨hmiddle, rfl⟩ := htype.conforms
      obtain ⟨hback, rfl⟩ := hdefault.conforms
      refine ⟨.of_form _ List.mem_cons_self rfl ?_, by simp [Node.tokens, tokensOf]⟩
      exact .node hfront (.token hoptional (.node hmiddle (.token hname
        (@Fits.lastNodeOption _ .default { symbol := .default } (some _) fun found hfound =>
          Option.some.inj hfound ▸ hback))))
  | .required hattributes htype hdots hname =>
      obtain ⟨hfront, rfl⟩ := hattributes.conforms
      obtain ⟨hmiddle, rfl⟩ := htype.conforms
      refine ⟨.of_form _ (List.mem_cons_of_mem _ List.mem_cons_self) rfl ?_,
        by simp [Node.tokens, tokensOf]⟩
      exact .node hfront (.node hmiddle (.option hdots (.token hname .nil)))
  | .constant hassign hvalue =>
      exact ⟨conforms_defaultNode List.mem_cons_self rfl hassign (.token hvalue .nil), rfl⟩
  | .emptySequence hassign hopening hclosing =>
      exact ⟨conforms_defaultNode (List.mem_cons_of_mem _ List.mem_cons_self) rfl hassign
        (.token hopening (.token hclosing .nil)), rfl⟩
  | .emptyDictionary hassign hopening hclosing =>
      exact ⟨conforms_defaultNode (List.mem_cons_of_mem _ (List.mem_cons_of_mem _
        List.mem_cons_self)) rfl hassign (.token hopening (.token hclosing .nil)), rfl⟩
  | .short hsign hbase =>
      refine ⟨conforms_typeNode .integer (by decide) rfl List.mem_cons_self ?_,
        by simp [tokens_typeNode, tokensOf]⟩
      exact .option hsign (.token hbase .nil)
  | .long hsign hbase hdoubling =>
      refine ⟨conforms_typeNode .integer (by decide) rfl
        (List.mem_cons_of_mem _ List.mem_cons_self) ?_, by simp [tokens_typeNode, tokensOf]⟩
      exact .option hsign (.token hbase (.lastOption hdoubling))
  | .float hsign hbase =>
      refine ⟨conforms_typeNode .float (by decide) rfl List.mem_cons_self ?_,
        by simp [tokens_typeNode, tokensOf]⟩
      exact .option hsign (.token hbase .nil)
  | .primitive hbase =>
      exact ⟨conforms_typeNode .keyword (by decide) rfl List.mem_cons_self (.token hbase .nil),
        by simp [tokens_typeNode, tokensOf]⟩
  | @Derives.named _ base hbase =>
      refine ⟨?_, by simp [tokens_typeNode, tokensOf]⟩
      obtain ⟨hword, -⟩ := accepts_typeName.mp hbase
      -- a name and the word `any` are one rule here and two stems there
      cases hany : Terminal.isAny base.text with
      | true =>
          exact conforms_typeNode .any (by decide) rfl List.mem_cons_self
            (.token (accepts_typeName.mpr ⟨hword, hany⟩) .nil)
      | false =>
          exact conforms_typeNode .name (by decide) rfl List.mem_cons_self
            (.token (accepts_typeName.mpr ⟨hword, by simp [hany]⟩) .nil)
  | .collection hbase hopening htype hclosing =>
      obtain ⟨hconforms, rfl⟩ := htype.conforms
      refine ⟨conforms_typeNode .collection (by decide) rfl List.mem_cons_self ?_,
        by simp [tokens_typeNode, tokensOf]⟩
      exact .token hbase (.token hopening (.node hconforms (.token hclosing .nil)))
  | .promise hbase hopening htype hclosing =>
      obtain ⟨hconforms, rfl⟩ := htype.conforms
      refine ⟨conforms_typeNode .promise (by decide) rfl List.mem_cons_self ?_,
        by simp [tokens_typeNode, tokensOf]⟩
      exact .token hbase (.token hopening (.node hconforms (.token hclosing .nil)))
  | .record hbase hopening hkey hcomma htype hclosing =>
      obtain ⟨hconforms, rfl⟩ := htype.conforms
      refine ⟨conforms_typeNode .record (by decide) rfl List.mem_cons_self ?_,
        by simp [tokens_typeNode, tokensOf]⟩
      exact .token hbase (.token hopening (.node ((conforms_recordKey hkey).withSeparator hcomma)
        (.node hconforms (.token hclosing .nil))))
  | .union hopening hmembers htwo hclosing =>
      obtain ⟨hconforms, htokens⟩ := hmembers.conforms
      refine ⟨conforms_stem .union (by decide) List.mem_cons_self ?_,
        by simp [bare, Node.tokens, tokensOf, htokens]⟩
      exact .token hopening (.list hconforms htwo (.token hclosing .nil))
  -- without a question mark the node is the one with an absent mark
  | .plain htype =>
      obtain ⟨hconforms, htokens⟩ := htype.conforms
      refine ⟨?_, htokens⟩
      rw [← withNullable_none node]
      exact conforms_marked hconforms (by simp) (by simp) (by simp)
  | .nullable htype hpromise hany hmark =>
      obtain ⟨hconforms, rfl⟩ := htype.conforms
      exact ⟨conforms_marked hconforms (by simpa using hmark) (fun _ => hpromise) fun _ => hany,
        by simp⟩
  | .promised htype =>
      obtain ⟨hconforms, htokens⟩ := htype.conforms
      exact ⟨hconforms.of_subset (List.subset_append_left _ _), htokens⟩
  | .void hbase =>
      refine ⟨.of_form voidForm (List.mem_append_right _ (List.mem_singleton_self _)) rfl ?_,
        by simp [tokens_typeNode, tokensOf]⟩
      exact .node (conforms_noAttributes (by simp [Phrase.category])) (.token hbase .nil)
  | .attributed hattributes htype =>
      obtain ⟨hfront, rfl⟩ := hattributes.conforms
      obtain ⟨hback, rfl⟩ := htype.conforms
      exact ⟨hback.withAttributes (attributed_type _ _) hfront,
        hback.tokens_withAttributes (attributed_type _ _) _⟩
  | .unionMember htype hpromise hany =>
      obtain ⟨hconforms, htokens⟩ := htype.conforms
      exact ⟨conforms_unionMember hconforms hany hpromise, htokens⟩

theorem Row.conforms {phrase : Phrase} {separator : String} {tokens : List Token}
    {nodes : List Node} (h : Row phrase separator tokens nodes) :
    Items (Conforms false) nodes phrase.category separator false ∧
      nodes.flatMap Node.tokens = tokens := by
  match h with
  | .nil => exact ⟨.nil, rfl⟩
  | .last hnode =>
      obtain ⟨hconforms, rfl⟩ := hnode.conforms
      exact ⟨.last hconforms, by simp⟩
  | .cons hnode hmark hothers hmore =>
      obtain ⟨hconforms, rfl⟩ := hnode.conforms
      obtain ⟨hitems, rfl⟩ := hothers.conforms
      exact ⟨.cons (conforms_before hmark hconforms) (fun hnil => absurd hnil hmore) hitems, by simp⟩

end

/-! ## The derivations of trees -/

/-- A tree of a category has a derivation as a phrase of this category.  If the category has a
separator, what comes before the separator has one. -/
structure Derived (category : Category) (node : Node) : Prop where
  conforms : Conforms false category node
  derives : ∀ phrase : Phrase, category = phrase.category → Derives phrase node.tokens node
  separated : ∀ (phrase : Phrase) (separator : String),
    category = phrase.category.before separator →
      ∃ core mark, node = core.withSeparator (some mark) ∧
        (Terminal.word separator).accepts mark ∧ Derives phrase core.tokens core

theorem row_of_items {phrase : Phrase} {separator : String} {nodes : List Node}
    (h : Items Derived nodes phrase.category separator false) :
    Row phrase separator (nodes.flatMap Node.tokens) nodes := by
  generalize hcategory : phrase.category = category, hdangle : false = mayDangle at h
  induction h with
  | nil => exact .nil
  | last hnode => simpa using Row.last (hnode.derives phrase hcategory.symm)
  | cons hnode hlast _ ih =>
      subst hcategory hdangle
      obtain ⟨core, mark, rfl, hmark, hcore⟩ := hnode.separated phrase _ rfl
      have hrow := Row.cons hcore hmark (ih rfl rfl) fun hnil => by simpa using hlast hnil
      simpa using hrow

section

variable {parts : List Part} {form : Form} {slots : List Slot} {place : Option String}

/-- The shapes of types. -/
theorem derives_stem {stem : Stem} (hstem : stem ∈ standardStems)
    (hslots : slots ∈ stem.slots place .all) (hparts : Fits Derived slots parts) :
    Derives (.stem place) (tokensOf parts)
      (.mk { construct := stem.construct, place } (bare :: parts)) := by
  -- the parts that fill the slots of a stem are the premises of its rule
  cases stem with
  | integer =>
      simp only [Stem.slots, List.mem_cons, List.not_mem_nil, or_false] at hslots
      rcases hslots with rfl | rfl
      · obtain ⟨sign, rest, rfl, hsign, hrest⟩ := fits_option.mp hparts
        obtain ⟨base, rest, rfl, hbase, hrest⟩ := fits_token.mp hrest
        obtain rfl := fits_nil.mp hrest
        simpa [tokensOf, typeNode, Stem.construct] using Derives.short hsign hbase
      · obtain ⟨sign, rest, rfl, hsign, hrest⟩ := fits_option.mp hparts
        obtain ⟨base, rest, rfl, hbase, hrest⟩ := fits_token.mp hrest
        obtain ⟨doubling, rest, rfl, hdoubling, hrest⟩ := fits_option.mp hrest
        obtain rfl := fits_nil.mp hrest
        simpa [tokensOf, typeNode, Stem.construct] using Derives.long hsign hbase hdoubling
  | float =>
      obtain rfl := List.mem_singleton.mp hslots
      obtain ⟨sign, rest, rfl, hsign, hrest⟩ := fits_option.mp hparts
      obtain ⟨base, rest, rfl, hbase, hrest⟩ := fits_token.mp hrest
      obtain rfl := fits_nil.mp hrest
      simpa [tokensOf, typeNode, Stem.construct] using Derives.float hsign hbase
  | keyword =>
      obtain rfl := List.mem_singleton.mp hslots
      obtain ⟨base, rest, rfl, hbase, hrest⟩ := fits_token.mp hparts
      obtain rfl := fits_nil.mp hrest
      exact .primitive hbase
  | name =>
      obtain rfl := List.mem_singleton.mp hslots
      obtain ⟨base, rest, rfl, hbase, hrest⟩ := fits_token.mp hparts
      obtain rfl := fits_nil.mp hrest
      exact .named (accepts_typeName.mpr ⟨(accepts_typeName.mp hbase).1, rfl⟩)
  | any =>
      obtain rfl := List.mem_singleton.mp hslots
      obtain ⟨base, rest, rfl, hbase, hrest⟩ := fits_token.mp hparts
      obtain rfl := fits_nil.mp hrest
      exact .named (accepts_typeName.mpr ⟨(accepts_typeName.mp hbase).1, rfl⟩)
  | collection =>
      obtain rfl := List.mem_singleton.mp hslots
      obtain ⟨base, rest, rfl, hbase, hrest⟩ := fits_token.mp hparts
      obtain ⟨opening, rest, rfl, hopening, hrest⟩ := fits_token.mp hrest
      obtain ⟨type, rest, rfl, htype, hrest⟩ := fits_node.mp hrest
      obtain ⟨closing, rest, rfl, hclosing, hrest⟩ := fits_token.mp hrest
      obtain rfl := fits_nil.mp hrest
      exact .collection hbase hopening (htype.derives (.attributedType place) rfl) hclosing
  | promise =>
      obtain rfl := List.mem_singleton.mp hslots
      obtain ⟨base, rest, rfl, hbase, hrest⟩ := fits_token.mp hparts
      obtain ⟨opening, rest, rfl, hopening, hrest⟩ := fits_token.mp hrest
      obtain ⟨type, rest, rfl, htype, hrest⟩ := fits_node.mp hrest
      obtain ⟨closing, rest, rfl, hclosing, hrest⟩ := fits_token.mp hrest
      obtain rfl := fits_nil.mp hrest
      exact .promise hbase hopening (htype.derives (.promised (returnPlaceOf place)) rfl) hclosing
  | record =>
      obtain rfl := List.mem_singleton.mp hslots
      obtain ⟨base, rest, rfl, hbase, hrest⟩ := fits_token.mp hparts
      obtain ⟨opening, rest, rfl, hopening, hrest⟩ := fits_token.mp hrest
      obtain ⟨key, rest, rfl, hkey, hrest⟩ := fits_node.mp hrest
      obtain ⟨type, rest, rfl, htype, hrest⟩ := fits_node.mp hrest
      obtain ⟨closing, rest, rfl, hclosing, hrest⟩ := fits_token.mp hrest
      obtain rfl := fits_nil.mp hrest
      -- the comma behind the key belongs to the key in the tree, and to the record in the rule
      obtain ⟨word, comma, rfl, hword, hcomma⟩ := Conforms.split_recordKey hkey.conforms
      simpa [tokensOf, typeNode, bare, Node.tokens, Stem.construct] using Derives.record hbase
        hopening hword hcomma (htype.derives (.attributedType place) rfl) hclosing
  | union =>
      obtain rfl := List.mem_singleton.mp hslots
      obtain ⟨opening, rest, rfl, hopening, hrest⟩ := fits_token.mp hparts
      obtain ⟨members, rest, rfl, hmembers, htwo, hrest⟩ := fits_list.mp hrest
      obtain ⟨closing, rest, rfl, hclosing, hrest⟩ := fits_token.mp hrest
      obtain rfl := fits_nil.mp hrest
      have hrow : Row .unionMember "or" _ members := row_of_items hmembers
      simpa [tokensOf, Stem.construct] using @Derives.union place _ _ _ _ hopening hrow htwo hclosing
  -- the standard language has no such record
  | utf8Record => exact absurd hstem (by decide)

/-- A type with its question mark, which the types `any` and `Promise` do not have. -/
theorem derives_marked {stem : Stem} {mark : Option Token} (hstem : stem ∈ standardStems)
    (hslots : slots ∈ stem.slots place .all) (hparts : Fits Derived slots parts)
    (hmark : ∀ token ∈ mark, (Terminal.word "?").accepts token = true)
    (hnullable : mark.isSome → stem.isNullable) :
    Derives (.type place) (tokensOf parts ++ mark.toList)
      (.mk { construct := stem.construct, place }
        (bare :: (parts ++ Part.ofToken? .nullable mark))) := by
  have hstem := derives_stem hstem hslots hparts
  cases mark with
  | none => simpa [Part.ofToken?] using Derives.plain hstem
  | some mark =>
      obtain ⟨hpromise, hany⟩ := applies_typeName_of_fits hslots hparts (unmarked_eq _ parts)
      have hnull := hnullable rfl
      refine Derives.nullable hstem (hpromise.trans (congrArg _ (decide_eq_false fun h => ?_)))
        (fun h => ?_) (hmark mark rfl)
      · rw [h] at hnull
        cases hnull
      · rw [hany.mp h] at hnull
        cases hnull

/-- A type with its attributes, if these are derived. -/
theorem derives_attributed {stem : Stem} {mark : Option Token} {attributes : Node}
    (hattributes : Derives .attributes attributes.tokens attributes)
    (htype : Derives (.type place) (tokensOf parts ++ mark.toList)
      (.mk { construct := stem.construct, place }
        (bare :: (parts ++ Part.ofToken? .nullable mark)))) :
    Derives (.attributedType place)
      (tokensOf (.node .attributes attributes :: (parts ++ Part.ofToken? .nullable mark)))
      (.mk { construct := stem.construct, place }
        (.node .attributes attributes :: (parts ++ Part.ofToken? .nullable mark))) := by
  have htokens : tokensOf (.node .attributes attributes ::
      (parts ++ Part.ofToken? .nullable mark)) =
      attributes.tokens ++ (tokensOf parts ++ mark.toList) := by
    simp [tokensOf]
  rw [htokens]
  exact .attributed hattributes htype

/-- Entries in parentheses. -/
theorem split_entries {symbol : Symbol} {least : Nat}
    (h : Fits Derived [.word .opening "(", .list .entry { symbol } "," least false,
      .word .closing ")"] parts) :
    ∃ opening entries closing, parts = .token .opening opening :: (Part.ofNodes .entry entries ++
        [.token .closing closing]) ∧ (Terminal.word "(").accepts opening ∧
      Items Derived entries { symbol } "," false ∧ least ≤ entries.length ∧
      (Terminal.word ")").accepts closing := by
  obtain ⟨opening, rest, rfl, hopening, hrest⟩ := fits_token.mp h
  obtain ⟨entries, rest, rfl, hentries, hleast, hrest⟩ := fits_list.mp hrest
  obtain ⟨closing, rest, rfl, hclosing, hrest⟩ := fits_token.mp hrest
  obtain rfl := fits_nil.mp hrest
  exact ⟨opening, entries, closing, rfl, hopening, hentries, hleast, hclosing⟩

theorem derives_attribute (hform : form ∈ extendedAttributeForms)
    (hparts : Fits Derived (Phrase.item.category.slots form) parts) :
    Derives .item (tokensOf parts) (.mk form.label parts) := by
  obtain ⟨tail, htail, rfl⟩ := List.mem_map.mp hform
  obtain ⟨name, rest, rfl, hname, hrest⟩ := fits_token.mp hparts
  replace hrest : Fits Derived tail rest := by simpa [Phrase.category] using hrest
  simp only [attributeTails, List.mem_append, List.mem_cons, List.not_mem_nil, or_false,
    List.mem_map] at htail
  rcases htail with (rfl | rfl | rfl | rfl | rfl) | ⟨kind, hkind, rfl⟩
  · -- `Name`
    obtain rfl := fits_nil.mp hrest
    exact .name hname
  · -- `Name=*`
    obtain ⟨assign, rest, rfl, hassign, hrest⟩ := fits_token.mp hrest
    obtain ⟨asterisk, rest, rfl, hasterisk, hrest⟩ := fits_token.mp hrest
    obtain rfl := fits_nil.mp hrest
    exact .asterisk hname hassign hasterisk
  · -- `Name=value`
    obtain ⟨assign, rest, rfl, hassign, hrest⟩ := fits_token.mp hrest
    obtain ⟨value, rest, rfl, hvalue, hrest⟩ := fits_token.mp hrest
    obtain rfl := fits_nil.mp hrest
    exact .equals hname hassign hvalue
  · -- `Name(arguments)`
    obtain ⟨opening, arguments, closing, rfl, hopening, harguments, -, hclosing⟩ :=
      split_entries hrest
    have hrow : Row .argument "," _ arguments := row_of_items harguments
    simpa [tokensOf, Form.label, attributeNode] using Derives.call hname hopening hrow hclosing
  · -- `Name=value(arguments)`
    obtain ⟨assign, rest, rfl, hassign, hrest⟩ := fits_token.mp hrest
    obtain ⟨value, rest, rfl, hvalue, hrest⟩ := fits_token.mp hrest
    obtain ⟨opening, arguments, closing, rfl, hopening, harguments, -, hclosing⟩ :=
      split_entries hrest
    have hrow : Row .argument "," _ arguments := row_of_items harguments
    simpa [tokensOf, Form.label, attributeNode] using
      Derives.equalsCall hname hassign hvalue hopening hrow hclosing
  · -- `Name=(values)`
    obtain ⟨assign, rest, rfl, hassign, hrest⟩ := fits_token.mp hrest
    obtain ⟨opening, values, closing, rfl, hopening, hvalues, hleast, hclosing⟩ :=
      split_entries hrest
    have hrow : Row (.value kind) "," _ values := row_of_items hvalues
    simpa [tokensOf, Form.label, attributeNode] using Derives.values hname hassign hopening hkind
      hrow (List.length_pos_iff.mp hleast) hclosing

theorem derives_argument (hform : form ∈ argumentForms)
    (hparts : Fits Derived (Phrase.argument.category.slots form) parts) :
    Derives .argument (tokensOf parts) (.mk form.label parts) := by
  simp only [argumentForms, List.mem_cons, List.not_mem_nil, or_false] at hform
  rcases hform with rfl | rfl
  · obtain ⟨attributes, rest, rfl, hattributes, hrest⟩ := fits_node.mp hparts
    obtain ⟨optional, rest, rfl, hoptional, hrest⟩ := fits_token.mp hrest
    obtain ⟨type, rest, rfl, htype, hrest⟩ := fits_node.mp hrest
    obtain ⟨name, rest, rfl, hname, hrest⟩ := fits_token.mp hrest
    obtain ⟨value, rest, rfl, hvalue, hrest⟩ := fits_nodeOption.mp hrest
    obtain rfl := fits_nil.mp hrest
    have hattributes := hattributes.derives .attributes rfl
    have htype := htype.derives (.attributedType argumentPlace) rfl
    cases value with
    | none =>
        simpa [tokensOf, Part.ofNode?, Form.label] using
          Derives.optional hattributes hoptional htype hname
    | some value =>
        have hvalue := (hvalue value rfl).derives .default rfl
        simpa [tokensOf, Part.ofNode?, Form.label] using
          Derives.optionalDefault hattributes hoptional htype hname hvalue
  · obtain ⟨attributes, rest, rfl, hattributes, hrest⟩ := fits_node.mp hparts
    obtain ⟨type, rest, rfl, htype, hrest⟩ := fits_node.mp hrest
    obtain ⟨dots, rest, rfl, hdots, hrest⟩ := fits_option.mp hrest
    obtain ⟨name, rest, rfl, hname, hrest⟩ := fits_token.mp hrest
    obtain rfl := fits_nil.mp hrest
    simpa [tokensOf, Form.label] using Derives.required (hattributes.derives .attributes rfl)
      (htype.derives (.type argumentPlace) rfl) hdots hname

theorem derives_default (hform : form ∈ defaultForms)
    (hparts : Fits Derived (Phrase.default.category.slots form) parts) :
    Derives .default (tokensOf parts) (.mk form.label parts) := by
  simp only [defaultForms, List.mem_cons, List.not_mem_nil, or_false] at hform
  rcases hform with rfl | rfl | rfl
  · obtain ⟨assign, rest, rfl, hassign, hrest⟩ := fits_token.mp hparts
    obtain ⟨value, rest, rfl, hvalue, hrest⟩ := fits_token.mp hrest
    obtain rfl := fits_nil.mp hrest
    exact .constant hassign hvalue
  · obtain ⟨assign, rest, rfl, hassign, hrest⟩ := fits_token.mp hparts
    obtain ⟨opening, rest, rfl, hopening, hrest⟩ := fits_token.mp hrest
    obtain ⟨closing, rest, rfl, hclosing, hrest⟩ := fits_token.mp hrest
    obtain rfl := fits_nil.mp hrest
    exact .emptySequence hassign hopening hclosing
  · obtain ⟨assign, rest, rfl, hassign, hrest⟩ := fits_token.mp hparts
    obtain ⟨opening, rest, rfl, hopening, hrest⟩ := fits_token.mp hrest
    obtain ⟨closing, rest, rfl, hclosing, hrest⟩ := fits_token.mp hrest
    obtain rfl := fits_nil.mp hrest
    exact .emptyDictionary hassign hopening hclosing

/-- A type without attributes. -/
theorem derives_type {symbol : Symbol} (hform : form ∈ typeForms false place .all)
    (hparts : Fits Derived (Category.slots { symbol, mode := .never } form) parts) :
    Derives (.type place) (tokensOf parts) (.mk form.label parts) := by
  obtain ⟨stem, hstem, slots, hslots, attributes, inner, mark, hlabel, rfl, hattributes, hinner,
    hmark, hnullable⟩ := split_typeForm hform hparts
  obtain rfl := eq_noAttributes_of_conforms hattributes.conforms rfl
  rw [hlabel]
  simpa [tokensOf, bare] using derives_marked hstem hslots hinner hmark hnullable

/-- A type behind attributes of its own. -/
theorem derives_attributedType {limit : Limit} (hlimit : limit ≠ .guarded)
    (hstems : limit.stems false ⊆ standardStems) {symbol : Symbol}
    (hform : form ∈ typeForms false place limit)
    (hparts : Fits Derived (Category.slots { symbol } form) parts) :
    Derives (.attributedType place) (tokensOf parts) (.mk form.label parts) := by
  obtain ⟨stem, hstem, slots, hslots, attributes, inner, mark, hlabel, rfl, hattributes, hinner,
    hmark, hnullable⟩ := split_typeForm hform hparts
  rw [Stem.slots_eq_of_ne_guarded hlimit] at hslots
  rw [hlabel]
  exact derives_attributed (hattributes.derives .attributes rfl)
    (derives_marked (hstems hstem) hslots hinner hmark hnullable)

/-- What fills a form of a phrase is derived, if the constructs inside are. -/
theorem derives_of_fits (phrase : Phrase) (hform : form ∈ phrase.category.symbol.forms false)
    (hparts : Fits Derived (phrase.category.slots form) parts) :
    Derives phrase (tokensOf parts) (.mk form.label parts) := by
  cases phrase with
  | attributes =>
      rcases List.mem_cons.mp hform with rfl | hwritten
      · obtain rfl := fits_nil.mp hparts
        exact .unwritten
      · obtain rfl := List.mem_singleton.mp hwritten
        obtain ⟨opening, rest, rfl, hopening, hrest⟩ := fits_token.mp hparts
        obtain ⟨items, rest, rfl, hitems, hleast, hrest⟩ := fits_list.mp hrest
        obtain ⟨closing, rest, rfl, hclosing, hrest⟩ := fits_token.mp hrest
        obtain rfl := fits_nil.mp hrest
        have hrow : Row .item "," _ items := row_of_items hitems
        simpa [tokensOf, written, Form.label] using
          Derives.written hopening hrow (List.length_pos_iff.mp hleast) hclosing
  | item => exact derives_attribute hform hparts
  | value kind =>
      obtain rfl := List.mem_singleton.mp hform
      obtain ⟨value, rest, rfl, hvalue, hrest⟩ := fits_token.mp hparts
      obtain rfl := fits_nil.mp hrest
      exact .value (List.mem_singleton.mp (accepts_kinds.mp hvalue))
  | argument => exact derives_argument hform hparts
  | default => exact derives_default hform hparts
  | stem place =>
      obtain ⟨stem, hstem, hform⟩ := List.mem_flatMap.mp hform
      obtain ⟨slots, hslots, rfl⟩ := List.mem_map.mp hform
      obtain ⟨attributes, rest, rfl, hattributes, hrest⟩ := fits_node.mp hparts
      obtain rfl := eq_noAttributes_of_conforms hattributes.conforms rfl
      have hrest : Fits Derived slots rest := by simpa [Phrase.category] using hrest
      simpa [tokensOf, Form.label, bare] using derives_stem hstem hslots hrest
  | type place => exact derives_type hform hparts
  | promised place =>
      rcases List.mem_append.mp hform with htype | hvoid
      · exact .promised (derives_type htype hparts)
      · -- the word `void` is a type of its own, which takes no attributes
        obtain rfl := List.mem_singleton.mp hvoid
        obtain ⟨attributes, rest, rfl, hattributes, hrest⟩ := fits_node.mp hparts
        obtain ⟨base, rest, rfl, hbase, hrest⟩ := fits_token.mp hrest
        obtain rfl := fits_nil.mp hrest
        obtain rfl := eq_noAttributes_of_conforms hattributes.conforms rfl
        exact .void hbase
  | attributedType place =>
      exact derives_attributedType (by decide) (fun _ => id) hform hparts
  | unionMember =>
      -- that a member is neither `any` nor a promise is read off its category
      have hmember : Conforms false { symbol := .type none .unionMember } (.mk form.label parts) :=
        .mk hform (hparts.imp fun _ _ h => h.conforms)
      obtain ⟨-, hany, hpromise⟩ := conforms_of_unionMember hmember
      exact .unionMember (derives_attributedType (by decide) (by decide) hform hparts) hpromise hany

end

/-- Every tree of the grammar has a derivation. -/
theorem derived_of_conforms {category : Category} {node : Node}
    (h : Conforms false category node) : Derived category node := by
  refine h.induct fun category form parts hform hparts => ?_
  have hparts : Fits Derived (category.slots form) parts := hparts.imp fun _ _ h => h.2
  refine ⟨.mk hform (hparts.imp fun _ _ h => h.conforms), ?_, ?_⟩
  · rintro phrase rfl
    exact derives_of_fits phrase hform hparts
  · rintro phrase separator rfl
    have hslots : (phrase.category.before separator).slots form =
        phrase.category.slots form ++ [.word .separator separator] := by
      cases phrase <;> simp [Phrase.category, Category.before, Category.slots]
    rw [hslots] at hparts
    obtain ⟨front, back, rfl, hfront, hback⟩ := fits_append.mp hparts
    obtain ⟨mark, rest, rfl, hmark, hrest⟩ := fits_token.mp hback
    obtain rfl := fits_nil.mp hrest
    exact ⟨.mk form.label front, mark, rfl, hmark, derives_of_fits phrase hform hfront⟩

/-- A phrase is derived exactly if its tree conforms to the grammar of constructs and has its
tokens. -/
theorem derives_iff {phrase : Phrase} {tokens : List Token} {node : Node} :
    Derives phrase tokens node ↔ Conforms false phrase.category node ∧ node.tokens = tokens := by
  refine ⟨Derives.conforms, ?_⟩
  rintro ⟨hconforms, rfl⟩
  exact (derived_of_conforms hconforms).derives phrase rfl

end WebIdl.Derivation
