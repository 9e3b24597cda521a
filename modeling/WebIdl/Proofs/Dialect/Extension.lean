import WebIdl.Proofs.Complete.Text
import WebIdl.Proofs.Shape.Below
import WebIdl.Proofs.Shape.Lift

/-!
# The extended language extends the standard one

A text of the standard language is one of Gecko's, with the same tree: only the type tags of
interfaces, callback interfaces and namespaces tell the dialects apart (`Node.retagged`).  The one
condition is that nothing in the text is named `legacycaller`, which begins an operation there.
-/

namespace WebIdl

open WebIdl.Parser WebIdl.Shape WebIdl.Grammar

/-! ## Type tags -/

/-- The type tag that Gecko's dialect has for a definition. -/
def Node.geckoTag (node : Node) : String :=
  match node.construct with
  | .interface => if node.isPartial then node.tag else "legacycaller interface"
  | .callbackInterface => "callback attr interface"
  | .namespaceDef => "custom namespace"
  | _ => node.tag

/-- The definition with the type tag that Gecko's dialect has for it. -/
def Node.retagged (node : Node) : Node :=
  .mk { node.label with tag := node.geckoTag } node.parts

@[simp] theorem Node.tokens_retagged (node : Node) : node.retagged.tokens = node.tokens := by
  cases node
  rw [retagged, Node.tokens, Node.tokens]
  rfl

namespace Shape

/-- Does the form begin with the word `partial`? -/
def Form.isPartial (form : Form) : Bool :=
  form.slots.any (·.tokenRole? == some .partiality)

/-- The type tag that Gecko's dialect has for a definition of this form. -/
def Form.geckoTag (form : Form) : String :=
  match form.construct with
  | .interface => if form.isPartial then form.tag else "legacycaller interface"
  | .callbackInterface => "callback attr interface"
  | .namespaceDef => "custom namespace"
  | _ => form.tag

/-- The forms of definitions in which the word `partial` may be left out. -/
def Form.maybePartial (form : Form) : Bool :=
  form.slots.any fun
    | .option .partiality _ => true
    | _ => false

/-- A definition is partial if its form is. -/
theorem isPartial_of_fits {belongs : Category → Node → Prop} {form : Form} {parts : List Part}
    (h : Fits belongs form.slots parts) (hnever : form.maybePartial = false) {label : Label} :
    (Node.mk label parts).isPartial = form.isPartial := by
  cases hpartial : form.isPartial with
  | false =>
      rw [Node.isPartial, Node.has, h.token?_eq_none]
      · rfl
      · rw [Form.isPartial, List.any_eq_false] at hpartial
        simpa [List.all_eq_true] using hpartial
  | true =>
      obtain ⟨slot, hslot, hrole⟩ := List.any_eq_true.mp hpartial
      cases slot with
      | token role terminal =>
          obtain rfl : role = .partiality := by simpa [Slot.tokenRole?] using hrole
          exact h.has_token hslot
      | option role terminal =>
          obtain rfl : role = .partiality := by simpa [Slot.tokenRole?] using hrole
          have hmaybe : form.maybePartial = true := List.any_eq_true.mpr ⟨_, hslot, rfl⟩
          rw [hnever] at hmaybe
          cases hmaybe
      | _ => cases hrole

/-- Every form of a definition takes its place in the extended language, with Gecko's tag. -/
theorem exists_lifts_definition {form : Form} (hform : form ∈ Symbol.definition.forms false) :
    form.maybePartial = false ∧ ∃ target ∈ Symbol.definition.forms true,
      Form.Lifts { form with tag := form.geckoTag } target := by
  -- each form stands at its place in the wider list
  have hplace (index : Nat) {target : Form}
      (htarget : (Symbol.definition.forms true)[index]? = some target)
      (hmaybe : form.maybePartial = false)
      (hlifts : Form.Lifts { form with tag := form.geckoTag } target) :
      form.maybePartial = false ∧ ∃ target ∈ Symbol.definition.forms true,
        Form.Lifts { form with tag := form.geckoTag } target :=
    ⟨hmaybe, target, List.mem_of_getElem? htarget, hlifts⟩
  have hmembers : Category.Lifts { symbol := .member (.interface false) }
      { symbol := .member (.interface true) } := ⟨by simp [Symbol.lifted], rfl, rfl⟩
  have htype : Category.Lifts { symbol := .type (some typedefPlace) .all, mode := .never }
      { symbol := .type (some typedefPlace) .plain, mode := .never } :=
    ⟨by simp [Symbol.lifted], rfl, rfl⟩
  simp only [Symbol.forms, definitionSymbols, Bool.false_eq_true, if_false, List.flatMap_cons,
    List.flatMap_nil, Symbol.ownForms, callbackForms, interfaceForms, heirForms, partialForms,
    List.cons_append, List.nil_append, List.append_nil, List.mem_cons, List.not_mem_nil,
    or_false] at hform
  rcases hform with rfl | rfl | rfl | rfl | rfl | rfl | rfl | rfl | rfl | rfl | rfl | rfl | rfl |
    rfl | rfl | rfl
  · exact hplace 5 rfl rfl ⟨rfl, rfl, .refl rfl⟩
  · exact hplace 6 rfl rfl ⟨rfl, rfl, .refl rfl⟩
  · -- the members of interfaces are those of the wider body
    exact hplace 2 rfl rfl ⟨rfl, rfl, .token (.refl _) (.token (.refl _) (.token (.refl _)
      (.many hmembers (.refl rfl))))⟩
  · exact hplace 3 rfl rfl ⟨rfl, rfl, .token (.refl _) (.token (.refl _) (.token (.refl _)
      (.token (.refl _) (.token (.refl _) (.many hmembers (.refl rfl))))))⟩
  · exact hplace 7 rfl rfl ⟨rfl, rfl, .refl rfl⟩
  · exact hplace 8 rfl rfl ⟨rfl, rfl, .refl rfl⟩
  · exact hplace 9 rfl rfl ⟨rfl, rfl, .token (.refl _) (.token (.refl _) (.token (.refl _)
      (.token (.refl _) (.many hmembers (.refl rfl)))))⟩
  · exact hplace 10 rfl rfl ⟨rfl, rfl, .refl rfl⟩
  · exact hplace 11 rfl rfl ⟨rfl, rfl, .refl rfl⟩
  · exact hplace 12 rfl rfl ⟨rfl, rfl, .refl rfl⟩
  · exact hplace 13 rfl rfl ⟨rfl, rfl, .refl rfl⟩
  · exact hplace 14 rfl rfl ⟨rfl, rfl, .refl rfl⟩
  · exact hplace 15 rfl rfl ⟨rfl, rfl, .refl rfl⟩
  · -- a plain definition of a type may not be of the record type that is added
    exact hplace 16 rfl rfl ⟨rfl, rfl, .token (.refl _) (.node htype (.refl rfl))⟩
  · exact hplace 17 rfl rfl ⟨rfl, rfl, .refl rfl⟩
  · exact hplace 18 rfl rfl ⟨rfl, rfl, .refl rfl⟩

/-- A definition of the standard language is one of the extended language, up to its tag. -/
theorem Conforms.lift_definition {node : Node}
    (h : Conforms false { symbol := .definition } node) (hfree : Unlegacy node.tokens) :
    Conforms true { symbol := .definition } node.retagged := by
  cases h with
  | mk hform hparts =>
      rename_i form parts
      obtain ⟨hmaybe, target, htarget, hlifts⟩ := exists_lifts_definition hform
      have htag : (Node.mk form.label parts).geckoTag = form.geckoTag := by
        have hpartial : (Node.mk form.label parts).isPartial = form.isPartial := by
          simp only [Category.slots, List.all_eq_true.mp attributed_definition form hform, if_true,
            List.cons_append, List.nil_append, Option.toList_none, List.map_nil,
            List.append_nil] at hparts
          obtain ⟨attributes, rest, rfl, -, hrest⟩ := fits_node.mp hparts
          rw [← isPartial_of_fits hrest hmaybe, Node.isPartial, Node.isPartial, Node.has, Node.has,
            Node.token?_node]
        simp only [Node.geckoTag, Form.geckoTag, hpartial]
        rfl
      refine .of_form target htarget ?_ (Fits.lift (fun hconforms => hconforms.lift)
        (hlifts.categorySlots rfl rfl) hparts (by rwa [Node.tokens] at hfree))
      rw [hlifts.label, htag]
      rfl

/-! ## Constructs of the extensions -/

/-- Does the slot hold only constructs of the standard language? -/
def Slot.isStandard : Slot → Bool
  | .token _ _ | .option _ _ => true
  | .node _ category | .nodeOption _ category | .many _ category | .list _ category _ _ _ =>
      !category.symbol.lifted.isEmpty

theorem Slot.Holds.isStandard {slot : Slot} {role : Role} {category : Category}
    (h : slot.Holds role category) (hslot : slot.isStandard = true) :
    category.symbol.lifted.isEmpty = false := by
  cases slot with
  | token | option => exact h.elim
  | node | nodeOption | many =>
      obtain ⟨-, rfl⟩ := h
      exact Bool.not_eq_true' _ ▸ hslot
  | list =>
      obtain ⟨-, rfl | rfl⟩ := h <;> exact Bool.not_eq_true' _ ▸ hslot

end Shape

/-- The constructs that only the extended language has. -/
def Construct.isExtension : Construct → Bool
  | .bodylessInterface | .callbackConstructor | .legacyCaller | .utf8StringRecord
  | .utf8StringField | .utf8StringTypedef => true
  | _ => false

namespace Shape

/-- The form is of a construct of the standard language, and so are the constructs in it. -/
def Form.isStandard (form : Form) : Bool :=
  !form.construct.isExtension && form.slots.all Slot.isStandard

/-- The forms of the symbols of the standard language. -/
theorem isStandard_of_mem_forms {symbol : Symbol} {form : Form}
    (hsymbol : symbol.lifted.isEmpty = false ∨ symbol = .definition)
    (hform : form ∈ symbol.forms false) : form.isStandard = true := by
  refine List.all_eq_true.mp (?_ : (symbol.forms false).all Form.isStandard = true) form hform
  cases symbol with
  | type place limit =>
      cases limit with
      | all | unionMember => rfl
      | _ => simp [Symbol.lifted] at hsymbol
  | returnType place limit =>
      cases limit with
      | all => rfl
      | _ => simp [Symbol.lifted] at hsymbol
  | member body =>
      cases body with
      | interface legacy =>
          cases legacy with
          | false => rfl
          | true => simp [Symbol.lifted] at hsymbol
      | _ => rfl
  | attributes mode => cases mode <;> rfl
  | wrappedToken | extendedAttribute | default | argument | recordKey | constantType | enumValue
  | definition => rfl
  | _ => simp [Symbol.lifted] at hsymbol

/-- A tree of the standard language has no construct of the extensions. -/
theorem Conforms.isExtension_eq_false {category : Category} {node : Node}
    (h : Conforms false category node)
    (hsymbol : category.symbol.lifted.isEmpty = false ∨ category.symbol = .definition) :
    ∀ inner ∈ node.walk, inner.construct.isExtension = false := by
  refine h.induct (motive := fun category node =>
    category.symbol.lifted.isEmpty = false ∨ category.symbol = .definition →
      ∀ inner ∈ node.walk, inner.construct.isExtension = false)
    (fun category form parts hform hparts hsymbol inner hinner => ?_) hsymbol
  have hstandard := isStandard_of_mem_forms hsymbol hform
  rw [Form.isStandard, Bool.and_eq_true, Bool.not_eq_true'] at hstandard
  rcases mem_walk.mp hinner with rfl | ⟨role, below, hpart, hbelow⟩
  · exact hstandard.1
  · obtain ⟨slot, hslot, inside, hholds, hboth⟩ := hparts.exists_holds hpart
    refine hboth.2 (Or.inl (hholds.isStandard ?_)) inner hbelow
    rcases List.mem_append.mp hslot with hfront | hseparator
    · rcases List.mem_append.mp hfront with hattributes | hown
      · split at hattributes
        · rw [List.mem_singleton.mp hattributes]
          rfl
        · cases hattributes
      · exact List.all_eq_true.mp hstandard.2 slot hown
    · obtain ⟨separator, -, rfl⟩ := List.mem_map.mp hseparator
      rfl

end Shape

/-! ## Documents -/

theorem Node.walk_retagged {inner node : Node} (h : inner ∈ node.retagged.walk) :
    inner = node.retagged ∨ inner ∈ node.walk := by
  obtain ⟨label, parts⟩ := node
  exact (mem_walk.mp h).imp_right fun hbelow => mem_walk.mpr (Or.inr hbelow)

namespace Dialect

/-- No source but `Window.webidl` has tweaks. -/
theorem tweaksFor_eq_nil {dialect : Dialect} (hdialect : dialect ∈ known)
    {sourceName : Option String} (h : ∀ path ∈ sourceName, baseName path ≠ "Window.webidl") :
    dialect.tweaksFor sourceName = [] := by
  unfold tweaksFor
  split
  · rfl
  · rfl
  · rename_i path _
    simp only [known, List.mem_cons, List.not_mem_nil, or_false] at hdialect
    rcases hdialect with rfl | rfl
    · simp [gecko, List.lookup_cons, beq_false_of_ne (h path rfl)]
    · rfl

/-- Gecko's dialect extends the standard one.  A text that the standard dialect parses, in which no
identifier is spelled `legacycaller` and which is not the text of `Window.webidl`, is parsed by
Gecko's dialect too, as the same document except for the type tags of its definitions; and none of
the constructs that only the extended language has is in it. -/
theorem gecko_parse_of_standard {text : String} {sourceName : Option String} {document : Document}
    (h : (standard.parse text sourceName).result = .ok document)
    (hname : ∀ path ∈ sourceName, baseName path ≠ "Window.webidl") {tokens : List Token}
    (htokens : Token.stream (Directive.mask text) = .ok tokens)
    (hfree : ∀ token ∈ tokens, token.kind = .identifier → token.text ≠ legacyCallerWord) :
    (gecko.parse text sourceName).result =
        .ok { document with items := document.items.map Node.retagged } ∧
      ∀ item ∈ document.items.map Node.retagged, ∀ node ∈ item.walk,
        node.construct.isExtension = false := by
  obtain ⟨source, nodes, last, hsource, hsplit, hlast, hnodes, rfl⟩ :=
    (@parse_eq_ok_iff standard false rfl text sourceName document).mp h
  rw [tweaksFor_eq_nil (by simp [known]) hname] at hsource ⊢
  have hsame : source.tokens.toList = tokens := by
    have hread := hsource
    simp only [Tweak.applyAll, Source.read, htokens] at hread
    rw [← Except.ok.inj hread]
  -- no token of a definition is the word of legacy callers
  have hunlegacy {node : Node} (hnode : node ∈ nodes) : Unlegacy node.tokens := by
    intro token htoken
    rw [Bool.eq_false_iff, Ne, accepts_named]
    rintro ⟨hkind, htext⟩
    refine hfree token ?_ hkind htext
    rw [← hsame, hsplit]
    exact List.mem_append_left _ (List.mem_flatMap.mpr ⟨node, hnode, htoken⟩)
  constructor
  · refine (@parse_eq_ok_iff gecko true rfl text sourceName _).mpr
      ⟨source, nodes.map Node.retagged, last, ?_, ?_, hlast, ?_, ?_⟩
    · rwa [tweaksFor_eq_nil (by simp [known]) hname]
    · simpa [List.flatMap_map] using hsplit
    · intro node hnode
      obtain ⟨plain, hplain, rfl⟩ := List.mem_map.mp hnode
      exact (hnodes plain hplain).lift_definition (hunlegacy hplain)
    · rw [tweaksFor_eq_nil (by simp [known]) hname]
      simp [Node.ofEof, Node.retagged, Node.geckoTag, Node.label, Node.parts, Node.tag,
        Node.construct]
  · -- only the tag of an item differs, and the nodes below are the same
    intro item hitem node hnode
    obtain ⟨plain, hplain, rfl⟩ := List.mem_map.mp hitem
    have hstandard : ∀ inner ∈ plain.walk, inner.construct.isExtension = false := by
      rcases List.mem_append.mp hplain with hdefinition | heof
      · exact (hnodes plain hdefinition).isExtension_eq_false (Or.inr rfl)
      · rw [List.mem_singleton.mp heof]
        simp [Node.ofEof, Node.walk, walkOf, Construct.isExtension]
    rcases Node.walk_retagged hnode with rfl | hbelow
    · obtain ⟨label, parts⟩ := plain
      exact hstandard (.mk label parts) (mem_walk.mpr (Or.inl rfl))
    · exact hstandard node hbelow

/-- A text with the definitions whose type tags the dialects tell apart. -/
def plainText : String :=
  "interface A : B { void f(); };\npartial interface A {};\ncallback interface C {};\n" ++
    "partial namespace D {};"

/-- The text is parsed, and nothing in it is named `legacycaller`. -/
def plainSample : Sample standard fun document =>
    document.items.map Node.geckoTag == ["legacycaller interface", "interface",
      "callback attr interface", "custom namespace", "eof"] &&
    (match Token.stream (Directive.mask plainText) with
      | .ok tokens => tokens.all fun token => token.text != legacyCallerWord
      | .error _ => false) where
  text := plainText
  sourceName := some "dom/A.webidl"
  parses := by decide +kernel

/-- The tags of the text's definitions change, but for that of the partial interface. -/
theorem gecko_parse_of_standard_plain : ∃ document,
    (standard.parse plainText (some "dom/A.webidl")).result = .ok document ∧
      (gecko.parse plainText (some "dom/A.webidl")).result =
        .ok { document with items := document.items.map Node.retagged } ∧
      document.items.map Node.geckoTag = ["legacycaller interface", "interface",
        "callback attr interface", "custom namespace", "eof"] := by
  obtain ⟨document, hdocument, hcheck⟩ := plainSample.exists_document
  obtain ⟨htags, hstream⟩ := Bool.and_eq_true_iff.mp hcheck
  split at hstream
  · rename_i tokens htokens
    have hname : ∀ path ∈ some "dom/A.webidl", baseName path ≠ "Window.webidl" := by
      rintro _ ⟨⟩
      decide
    obtain ⟨hgecko, -⟩ := gecko_parse_of_standard hdocument hname htokens
      fun token htoken _ => by simpa using List.all_eq_true.mp hstream token htoken
    exact ⟨document, hdocument, hgecko, beq_iff_eq.mp htags⟩
  · cases hstream

end Dialect

end WebIdl
