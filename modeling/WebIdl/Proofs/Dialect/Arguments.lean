import WebIdl.Proofs.Dialect.Container
import WebIdl.Proofs.Dialect.Mending
import WebIdl.Proofs.Validation.Arguments

/-!
# Which arguments are asked for a default value

An optional argument of a dictionary type needs a default value, unless a member of the dictionary is
required.  For a document that was parsed, `dictArgDefault_finds` says which arguments the rule finds,
and in which order.  These are the arguments that need one, with two exceptions: the rule does not look
into the arguments of extended attributes, and it takes a keyword for the name of a dictionary that is
spelled like it.

Required members are looked for in the definitions of the dictionary itself.  Arguments of dictionaries
that inherit them are asked for a default value too, and no others (`dictArgDefault_spares`).
-/

namespace WebIdl

open WebIdl.Shape WebIdl.Lexeme

/-! ## The names of dictionaries -/

theorem unescape_cases (text : String) :
    unescape text = text ∨ text.toList = '_' :: (unescape text).toList := by
  rw [unescape]
  split
  · rename_i rest htext
    right
    rw [htext, String.toList_ofList]
  · exact Or.inl rfl

/-- A word without its escape is not empty, and there is no blank in it. -/
theorem unescape_of_isWord {text : String} (h : IsWord text.toList) :
    unescape text ≠ "" ∧ ' ' ∉ (unescape text).toList := by
  have hblank : ' ' ∉ text.toList := by
    intro hmem
    have hpart := h.all ' ' hmem
    revert hpart
    decide
  obtain ⟨sign, c, rest, htext, hsign, hletter, -⟩ := h
  rcases unescape_cases text with heq | hescaped
  · rw [heq]
    refine ⟨?_, hblank⟩
    rintro rfl
    simp at htext
  · refine ⟨?_, fun hmem => hblank (hescaped ▸ List.mem_cons_of_mem _ hmem)⟩
    intro hempty
    -- a lone underscore is no word
    rw [hempty] at hescaped
    rw [hescaped] at htext
    rcases hsign with rfl | rfl | rfl
    · obtain ⟨rfl, -⟩ := List.cons.inj htext
      revert hletter
      decide
    · simp at htext
    · simp at htext

/-- A form of a dictionary has a place for its name, and it is for an identifier. -/
def Shape.Form.isTitled (form : Form) : Bool :=
  form.construct != .dictionary || form.slots.any (·.demands .name) && form.slots.all fun
    | .token .name terminal | .option .name terminal =>
        terminal.words.isEmpty && terminal.kinds == [.identifier]
    | _ => true

theorem Shape.isTitled_of_mem_forms {extended : Bool} {form : Form}
    (hform : form ∈ Symbol.definition.forms extended) : form.isTitled = true := by
  refine List.all_eq_true.mp
    (?_ : (Symbol.definition.forms extended).all Form.isTitled = true) form hform
  cases extended <;> rfl

/-- The name of a dictionary is an identifier. -/
theorem Shape.Formed.name_of_dictionary {extended : Bool} {node : Node}
    (h : Formed extended { symbol := .definition } node) (hconstruct : node.construct = .dictionary) :
    ∃ token, node.token? .name = some token ∧ token.kind = .identifier := by
  obtain ⟨hform, hlabel, -, hparts⟩ := h
  rename_i form label parts
  have htitled := isTitled_of_mem_forms hform
  rw [Node.construct_mk] at hconstruct
  rw [Form.isTitled, ← hlabel, hconstruct] at htitled
  simp only [bne_self_eq_false, Bool.false_or, Bool.and_eq_true, List.all_eq_true] at htitled
  obtain ⟨token, htoken⟩ := hparts.exists_token htitled.1
  refine ⟨token, htoken, ?_⟩
  obtain ⟨terminal, hslot, haccepts⟩ := hparts.exists_own (by decide) htoken
  have hidentifier : terminal.words = [] ∧ terminal.kinds = [.identifier] := by
    rcases hslot with hslot | hslot <;> simpa using htitled.2 _ hslot
  have haccepted : token.kind = .identifier ∧ terminal.spelling token.text = true := by
    simpa [Terminal.accepts, hidentifier] using haccepts
  exact haccepted.1

namespace Mending.Intact

variable {extended : Bool} {available applied : List Tweak} {mending : Mending}

theorem readable (h : Intact extended available applied mending) {token : Token}
    (htoken : token ∈ mending.tokens) (hkind : token.kind ≠ .eof) : token.Readable := by
  obtain ⟨front, last, hsplit, hlexable⟩ := h.lexable
  rw [hsplit] at htoken
  rcases List.mem_append.mp htoken with htoken | htoken
  · exact hlexable.readable token htoken
  · rw [List.mem_singleton.mp htoken] at hkind
    exact absurd hlexable.kind hkind

/-- The dictionaries of an intact document are named by words. -/
theorem namesWords (h : Intact extended available applied mending) :
    Rule.NamesWords mending.items := by
  intro name hname
  obtain ⟨node, hnode⟩ := List.exists_mem_of_ne_nil (Rule.dictionariesNamed mending.items name)
    (by simpa [Rule.isDictionary] using hname)
  obtain ⟨hmem, hdictionary⟩ := List.mem_filter.mp hnode
  simp only [Bool.and_eq_true, beq_iff_eq] at hdictionary
  obtain ⟨hconstruct, rfl⟩ := hdictionary
  obtain ⟨nodes, last, hitems, -, hformed⟩ := h.formed
  have hdefinition : Formed extended { symbol := .definition } node := by
    rw [hitems] at hmem
    rcases List.mem_append.mp hmem with hmem | hmem
    · exact hformed node hmem
    · rw [List.mem_singleton.mp hmem] at hconstruct
      cases hconstruct
  obtain ⟨token, htoken, hkind⟩ := hdefinition.name_of_dictionary hconstruct
  have hname : node.nameOrEmpty = unescape token.text := by
    simp [Node.nameOrEmpty_eq, htoken, hconstruct]
  have hreadable : token.Readable := h.readable
    (List.mem_flatMap.mpr ⟨node, hmem, mem_tokens_of_token? htoken⟩) (by simp [hkind])
  rw [hname]
  apply unescape_of_isWord
  have hlexeme := hreadable.lexeme
  rw [hkind] at hlexeme
  cases hlexeme with
  | identifier hword _ => exact hword

/-- What the rule finds in an intact document. -/
theorem dictArgDefaultOn_eq (h : Intact extended available applied mending) :
    Rule.dictArgDefaultOn mending.items =
      ((located mending.items).filter fun (site, node) => Rule.isListed mending.items site &&
        (Rule.needsDefault mending.items Node.typeNamed? node ||
          Rule.needsDefault mending.items Node.typeKeyword? node)).map
        fun (site, node) => Rule.defaultObjection site node := by
  rw [Rule.dictArgDefaultOn_eq h.formed]
  congr 1
  refine List.filter_congr ?_
  intro ⟨site, node⟩ hlocated
  dsimp only
  rw [Bool.and_assoc]
  congr 1
  by_cases hargument : node.construct = .argument
  · rcases h.formed.node? (node?_of_mem_located hlocated) with
      ⟨category, hcategory, hformed, -⟩ | ⟨last, rfl⟩
    · rw [Rule.lacksDefault_eq h.namesWords hcategory hformed hargument]
      simp [hargument]
    · cases hargument
  · have hother : (node.construct == .argument) = false := by simpa using hargument
    simp [Rule.needsDefault, hother]

end Mending.Intact

namespace Dialect

/-- What the rule `dict-arg-default` finds in a document that was parsed under a named dialect.  In the
order of the text, and once each, these are the arguments of operations, constructors, callbacks and
iterables that are optional, have no default value, and are of a plain type that names a dictionary of
the document, none of whose definitions has a required member.  The type refers to the dictionary by
an identifier, or it is a keyword that is spelled like the name. -/
theorem dictArgDefault_finds {dialectName : String} {dialect : Dialect}
    (hdialect : named dialectName = .ok dialect) {text : String} {sourceName : Option String}
    {document : Document} (h : (dialect.parse text sourceName).result = .ok document) :
    Rule.check .dictArgDefault document.items = .ok
      (((located document.items).filter fun (site, node) => Rule.isListed document.items site &&
        (Rule.needsDefault document.items Node.typeNamed? node ||
          Rule.needsDefault document.items Node.typeKeyword? node)).map
        fun (site, node) => Rule.defaultObjection site node) := by
  obtain ⟨extended, -, -, hextended⟩ := exists_extended (mem_known_of_named hdialect)
  exact congrArg Except.ok (intact_of_parse hextended h).dictArgDefaultOn_eq

/-- Arguments of a dictionary type, an escaped one among them, between others. -/
def namedSample : Sample standard fun document =>
    (((located document.items).filter fun (site, node) => Rule.isListed document.items site &&
      (Rule.needsDefault document.items Node.typeNamed? node ||
        Rule.needsDefault document.items Node.typeKeyword? node)).map
      fun (_, node) => node.nameOrEmpty) == ["a", "c"] where
  text := "dictionary D\x7b\x7d;interface I\x7bundefined f(optional D a,optional D? b,optional _D c);\x7d;"
  sourceName := none
  parses := by decide +kernel

/-- Two of the three arguments are found. -/
theorem dictArgDefault_finds_named : ∃ document found,
    (standard.parse namedSample.text none).result = .ok document ∧
      Rule.check .dictArgDefault document.items = .ok found ∧ found.length = 2 := by
  obtain ⟨document, hdocument, hcheck⟩ := namedSample.exists_document
  refine ⟨document, _, hdocument,
    dictArgDefault_finds (show named "webidl" = .ok standard from rfl) hdocument, ?_⟩
  have hlength := congrArg List.length (beq_iff_eq.mp hcheck)
  rw [List.length_map]
  simpa using hlength

/-- An argument of an extended attribute. -/
def missedSample : Sample standard fun document =>
    Rule.dictArgDefaultOn document.items == [] &&
      (located document.items).any fun (_, node) =>
        Rule.needsDefault document.items Node.typeNamed? node where
  text := "[NamedConstructor=F(optional D d)]interface I\x7b\x7d;dictionary D\x7b\x7d;"
  sourceName := none
  parses := by decide +kernel

/-- An argument of the type `any`, and a dictionary whose escaped name is spelled like it. -/
def mistakenSample : Sample standard fun document =>
    Rule.dictArgDefaultOn document.items != [] &&
      (located document.items).all fun (_, node) =>
        !Rule.needsDefault document.items Node.typeNamed? node where
  text := "dictionary _any\x7b\x7d;interface I\x7bundefined f(optional any x);\x7d;"
  sourceName := none
  parses := by decide +kernel

/-- The rule does not find all arguments that need a default value, and it finds others. -/
theorem dictArgDefault_finds_false :
    (∃ document, (standard.parse missedSample.text none).result = .ok document ∧
      Rule.check .dictArgDefault document.items = .ok [] ∧
      ∃ entry ∈ located document.items,
        Rule.needsDefault document.items Node.typeNamed? entry.2 = true) ∧
    ∃ document found, (standard.parse mistakenSample.text none).result = .ok document ∧
      Rule.check .dictArgDefault document.items = .ok found ∧ found ≠ [] ∧
      ∀ entry ∈ located document.items,
        Rule.needsDefault document.items Node.typeNamed? entry.2 = false := by
  constructor
  · obtain ⟨document, hdocument, hcheck⟩ := missedSample.exists_document
    rw [Bool.and_eq_true, beq_iff_eq, List.any_eq_true] at hcheck
    exact ⟨document, hdocument, congrArg Except.ok hcheck.1, hcheck.2⟩
  · obtain ⟨document, hdocument, hcheck⟩ := mistakenSample.exists_document
    rw [Bool.and_eq_true, bne_iff_ne, List.all_eq_true] at hcheck
    exact ⟨document, _, hdocument, rfl, hcheck.1,
      fun entry hentry => by simpa using hcheck.2 entry hentry⟩

end Dialect

/-! ## Required members -/

namespace Rule

/-- A dictionary of the first name inherits from the second one. -/
def Inherits (items : List Node) (name parent : String) : Prop :=
  ∃ definition ∈ dictionariesNamed items name, definition.inherits? = some parent

/-- A dictionary of this name, or one that it inherits from, has a required member. -/
def Requires (items : List Node) (name : String) : Prop :=
  ∃ ancestor, Relation.ReflTransGen (Inherits items) name ancestor ∧
    hasRequiredField items ancestor = true

variable {items : List Node} {name : String}

/-- Only dictionaries have members. -/
theorem Requires.isDictionary (h : Requires items name) : isDictionary items name = true := by
  have hne (hany : ∃ definition, definition ∈ dictionariesNamed items name) :
      Rule.isDictionary items name = true := by
    obtain ⟨definition, hmem⟩ := hany
    simp [Rule.isDictionary, List.ne_nil_of_mem hmem]
  obtain ⟨ancestor, hreaches, hrequired⟩ := h
  rcases hreaches.cases_head with rfl | ⟨parent, ⟨definition, hmem, -⟩, -⟩
  · obtain ⟨definition, hmem, -⟩ := List.any_eq_true.mp hrequired
    exact hne ⟨definition, hmem⟩
  · exact hne ⟨definition, hmem⟩

/-- What is required, but not by the dictionary itself, is required by one that it inherits from. -/
theorem Requires.exists_parent (h : Requires items name)
    (hown : hasRequiredField items name = false) :
    ∃ parent, Inherits items name parent ∧ Requires items parent := by
  obtain ⟨ancestor, hreaches, hrequired⟩ := h
  rcases hreaches.cases_head with rfl | ⟨parent, hparent, hrest⟩
  · rw [hown] at hrequired
    cases hrequired
  · exact ⟨parent, hparent, ancestor, hrest, hrequired⟩

/-- What an argument that the rule objects to is: its type is spelled like a dictionary, and no
definition of that dictionary has a required member. -/
theorem exists_argument_of_mem {diagnostic : Diagnostic}
    (h : diagnostic ∈ dictArgDefaultOn items) :
    ∃ argument type, diagnostic.site.node? items = some argument ∧
      argument.node? .type = some type ∧ isDictionary items type.typeName = true ∧
      hasRequiredField items type.typeName = false := by
  obtain ⟨⟨site, owner⟩, hlocated, hmem⟩ := List.mem_flatMap.mp h
  obtain ⟨⟨number, argument⟩, hfiltered, rfl⟩ := List.mem_map.mp hmem
  obtain ⟨hnumbered, hlacks⟩ := List.mem_filter.mp hfiltered
  obtain ⟨-, -, type, htype, -, -, hdictionary, hrequired⟩ := lacksDefault_iff.mp hlacks
  refine ⟨argument, type, ?_, htype, hdictionary, hrequired⟩
  change (site.below [number]).node? items = some argument
  rw [Site.node?_below (node?_of_mem_located hlocated), Node.at?, (Node.mem_numberedAs hnumbered).1]
  rfl

/-- The argument is optional and has no default value, and its type refers to a dictionary of this
name. -/
structure Takes (items : List Node) (argument : Node) (name : String) : Prop where
  construct : argument.construct = .argument
  optional : argument.has .optional = true
  bare : argument.node? .default = none
  type : ∃ type, argument.node? .type = some type ∧ type.isPlain = true ∧
    type.typeNamed? = some name
  dictionary : isDictionary items name = true

theorem Takes.needsDefault {argument : Node} (h : Takes items argument name)
    (hrequired : hasRequiredField items name = false) :
    needsDefault items Node.typeNamed? argument = true := by
  obtain ⟨type, htype, hplain, hname⟩ := h.type
  exact needsDefault_iff.mpr ⟨h.construct, h.optional, h.bare, type, name, htype, hplain, hname,
    h.dictionary, hrequired⟩

end Rule

namespace Dialect

/-- Default values and required members, in a document that was parsed under a named dialect.  An
argument of a dictionary type that lacks a default value is asked for it, if no member of the
dictionary is required, be it in a partial definition, in another one, or in a dictionary that it
inherits from at any remove.

No argument is asked for it if a definition of the dictionary itself has a required member.  If a
member is required all the same, then by another dictionary of the document that this one inherits
from. -/
theorem dictArgDefault_spares {dialectName : String} {dialect : Dialect}
    (hdialect : named dialectName = .ok dialect) {text : String} {sourceName : Option String}
    {document : Document} (h : (dialect.parse text sourceName).result = .ok document) :
    ∃ found, Rule.check .dictArgDefault document.items = .ok found ∧
    (∀ site argument name, site.node? document.items = some argument →
      Rule.isListed document.items site = true → Rule.Takes document.items argument name →
      ¬ Rule.Requires document.items name → Rule.defaultObjection site argument ∈ found) ∧
    ∀ diagnostic ∈ found, ∃ argument type,
      diagnostic.site.node? document.items = some argument ∧ argument.node? .type = some type ∧
      Rule.isDictionary document.items type.typeName = true ∧
      (∀ definition ∈ Rule.dictionariesNamed document.items type.typeName,
        ∀ member ∈ definition.nodesAs .member, member.has .required = false) ∧
      (Rule.Requires document.items type.typeName →
        ∃ parent, Rule.Inherits document.items type.typeName parent ∧
          Rule.isDictionary document.items parent = true ∧
          Rule.Requires document.items parent) := by
  refine ⟨Rule.dictArgDefaultOn document.items, rfl, ?_, ?_⟩
  · intro site argument name hnode hlisted htakes hspared
    obtain ⟨extended, -, -, hextended⟩ := exists_extended (mem_known_of_named hdialect)
    -- a dictionary that requires nothing has no required field of its own
    have hnone : Rule.hasRequiredField document.items name = false := by
      by_contra hrequired
      exact hspared ⟨name, .refl, by simpa using hrequired⟩
    have hneeds := htakes.needsDefault hnone
    rw [(intact_of_parse hextended h).dictArgDefaultOn_eq]
    refine List.mem_map.mpr ⟨(site, argument), List.mem_filter.mpr ⟨mem_located_of_node? hnode, ?_⟩,
      rfl⟩
    simp [hlisted, hneeds]
  · intro diagnostic hfound
    obtain ⟨argument, type, hargument, htype, hdictionary, hnone⟩ :=
      Rule.exists_argument_of_mem hfound
    refine ⟨argument, type, hargument, htype, hdictionary, ?_, ?_⟩
    · intro definition hdefinition member hmember
      have hmembers := List.any_eq_false.mp hnone definition hdefinition
      rw [Bool.not_eq_true, List.any_eq_false] at hmembers
      simpa using hmembers member hmember
    · intro hrequires
      -- what is required and not its own is inherited
      obtain ⟨parent, hparent, hinherited⟩ := hrequires.exists_parent hnone
      exact ⟨parent, hparent, hinherited.isDictionary, hinherited⟩

/-- An argument of a dictionary that inherits a required member. -/
def heirSample : Sample standard fun document =>
    ((Rule.dictArgDefaultOn document.items).any fun diagnostic =>
      ((diagnostic.site.node? document.items).bind (Node.node? · .type)).any (·.typeName == "B")) &&
    (Rule.dictionariesNamed document.items "B").any (·.inherits? == some "A") &&
    Rule.hasRequiredField document.items "A" where
  text := "dictionary A\x7brequired long x;\x7d;dictionary B:A\x7b\x7d;" ++
    "interface I\x7bundefined f(optional B b);\x7d;"
  sourceName := none
  parses := by decide +kernel

/-- In the sample an argument of type `B` is found, and a member of `B` is required. -/
theorem exists_heir : ∃ document diagnostic argument type,
    (standard.parse heirSample.text none).result = .ok document ∧
      diagnostic ∈ Rule.dictArgDefaultOn document.items ∧
      diagnostic.site.node? document.items = some argument ∧
      argument.node? .type = some type ∧ type.typeName = "B" ∧
      Rule.Requires document.items "B" := by
  obtain ⟨document, hdocument, hcheck⟩ := heirSample.exists_document
  simp only [Bool.and_eq_true, List.any_eq_true, Option.any_eq_true, beq_iff_eq] at hcheck
  obtain ⟨⟨⟨diagnostic, hfound, type, htype, hname⟩, definition, hmem, hparent⟩, hrequired⟩ := hcheck
  obtain ⟨argument, hargument, htype⟩ := Option.bind_eq_some_iff.mp htype
  exact ⟨document, diagnostic, argument, type, hdocument, hfound, hargument, htype, hname, "A",
    .single ⟨definition, hmem, hparent⟩, hrequired⟩

/-- A default value is asked for where the dictionary inherits a required member. -/
theorem dictArgDefault_spares_false : ∃ document found diagnostic argument type,
    (standard.parse heirSample.text none).result = .ok document ∧
      Rule.check .dictArgDefault document.items = .ok found ∧ diagnostic ∈ found ∧
      diagnostic.site.node? document.items = some argument ∧
      argument.node? .type = some type ∧ Rule.Requires document.items type.typeName := by
  obtain ⟨document, diagnostic, argument, type, hdocument, hfound, hargument, htype, hname,
    hrequires⟩ := exists_heir
  exact ⟨document, _, diagnostic, argument, type, hdocument, rfl, hfound, hargument, htype,
    hname.symm ▸ hrequires⟩

/-- An argument of a dictionary without members. -/
def sparedSample : Sample standard fun document =>
    ((located document.items).any fun (site, node) => Rule.isListed document.items site &&
      (node.construct == .argument && node.has .optional && (node.node? .default).isNone) &&
      (node.node? .type).any fun type => type.isPlain && type.typeNamed? == some "D") &&
    Rule.isDictionary document.items "D" && !Rule.hasRequiredField document.items "D" &&
    (Rule.dictionariesNamed document.items "D").all (·.inherits? == none) where
  text := "dictionary D\x7b\x7d;interface I\x7bundefined f(optional D d);\x7d;"
  sourceName := none
  parses := by decide +kernel

theorem exists_spared : ∃ document site argument,
    (standard.parse sparedSample.text none).result = .ok document ∧
      site.node? document.items = some argument ∧ Rule.isListed document.items site = true ∧
      Rule.Takes document.items argument "D" ∧ ¬ Rule.Requires document.items "D" := by
  obtain ⟨document, hdocument, hcheck⟩ := sparedSample.exists_document
  simp only [Bool.and_eq_true, List.any_eq_true, Option.any_eq_true, beq_iff_eq, List.all_eq_true,
    Bool.not_eq_true', Option.isNone_iff_eq_none] at hcheck
  obtain ⟨⟨⟨⟨⟨site, argument⟩, hlocated, ⟨hlisted, hargument⟩, type, htype, hnamed⟩, hdictionary⟩,
    hrequired⟩, hparents⟩ := hcheck
  refine ⟨document, site, argument, hdocument, node?_of_mem_located hlocated, hlisted,
    ⟨hargument.1.1, hargument.1.2, hargument.2, ⟨type, htype, hnamed⟩, hdictionary⟩, ?_⟩
  intro hrequires
  obtain ⟨parent, ⟨definition, hmem, hparent⟩, -⟩ := hrequires.exists_parent hrequired
  rw [hparents definition hmem] at hparent
  cases hparent

/-- The first sample is asked for a default value; and in the second one, where this happens too, the
member is required by a dictionary that `B` inherits from. -/
theorem dictArgDefault_spares_heir :
    (∃ document found site argument,
      (standard.parse sparedSample.text none).result = .ok document ∧
      ¬ Rule.Requires document.items "D" ∧ Rule.check .dictArgDefault document.items = .ok found ∧
      Rule.defaultObjection site argument ∈ found) ∧
    ∃ document found diagnostic parent,
      (standard.parse heirSample.text none).result = .ok document ∧
      Rule.check .dictArgDefault document.items = .ok found ∧ diagnostic ∈ found ∧
      Rule.Inherits document.items "B" parent ∧ Rule.Requires document.items parent := by
  have hstandard : named "webidl" = .ok standard := rfl
  constructor
  · obtain ⟨document, site, argument, hdocument, hnode, hlisted, htakes, hspared⟩ := exists_spared
    obtain ⟨found, hfound, hasks, -⟩ := dictArgDefault_spares hstandard hdocument
    exact ⟨document, found, site, argument, hdocument, hspared, hfound,
      hasks site argument "D" hnode hlisted htakes hspared⟩
  · obtain ⟨document, diagnostic, argument, type, hdocument, hfound, hargument, htype, hname,
      hrequires⟩ := exists_heir
    obtain ⟨found, hcheck, -, hspares⟩ := dictArgDefault_spares hstandard hdocument
    obtain rfl := Except.ok.inj hcheck
    obtain ⟨other, own, hother, hown, -, -, hinherited⟩ := hspares diagnostic hfound
    obtain rfl := Option.some.inj (hargument.symm.trans hother)
    obtain rfl := Option.some.inj (htype.symm.trans hown)
    rw [hname] at hinherited
    obtain ⟨parent, hparent, -, hrequired⟩ := hinherited hrequires
    exact ⟨document, _, diagnostic, parent, hdocument, rfl, hfound, hparent, hrequired⟩

end Dialect

end WebIdl
