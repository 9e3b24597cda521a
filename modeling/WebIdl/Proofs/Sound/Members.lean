import WebIdl.Proofs.Sound.Types

/-!
# What the productions of members find

Arguments, and what may stand between the braces of a definition.
-/

namespace WebIdl.Grammar

open WebIdl.Parser WebIdl.Shape

/-! ## Sets of values -/

theorem oneOf_constantValue : OneOf .constant constantValue :=
  ⟨either_inline?_ofKind? _ _, by decide⟩

theorem oneOf_defaultValue :
    OneOf (.default fun _ => true)
      (either constantValue (either (ofKind? [.string]) (inline? ["null", "[", "\x7b"]))) := by
  refine ⟨?_, by simp [Terminal.default]⟩
  rw [oneOf_constantValue.eq, either_ofKind?_inline?, either_takeIf]
  congr 1
  funext token
  rw [Bool.eq_iff_iff]
  simp only [Terminal.accepts, Terminal.constant, Terminal.default, List.contains_iff_mem,
    Bool.and_true, Bool.or_eq_true, Bool.and_eq_true, List.mem_cons, List.not_mem_nil, or_false]
  grind

theorem accepts_default {spelling : String → Bool} {token : Token} :
    (Terminal.default spelling).accepts token = true ↔
      (Terminal.default fun _ => true).accepts token = true ∧ spelling token.text = true := by
  simp [Terminal.accepts, Terminal.default]

section

variable {extended : Bool} {scope : Scope} {nested : Production → Parser (Option Node)}
  {cursor moved : Cursor}

/-! ## Defaults and arguments -/

/-- The bracket behind an opening one has been read, and nothing behind another value. -/
theorem reads_defaultClosing {opening : Token} {closing : Option Token}
    (h : defaultClosing opening scope cursor = .ok closing moved) :
    Reads scope cursor moved closing.toList ∧
      (opening.text = "[" ∧ (∃ token, closing = some token ∧ (Terminal.word "]").accepts token) ∨
        opening.text = "\x7b" ∧
          (∃ token, closing = some token ∧ (Terminal.word "\x7d").accepts token) ∨
        opening.text ≠ "[" ∧ opening.text ≠ "\x7b" ∧ closing = none) := by
  unfold defaultClosing at h
  split at h
  · rename_i hbracket
    obtain ⟨token, _, hreads, haccepts, h⟩ := (oneOf_inline? _).expect_bind h
    obtain ⟨rfl, rfl⟩ := pure_eq_ok.mp h
    exact ⟨hreads, Or.inl ⟨by simpa using hbracket, token, rfl, haccepts⟩⟩
  · split at h
    · rename_i hbrace
      obtain ⟨token, _, hreads, haccepts, h⟩ := (oneOf_inline? _).expect_bind h
      obtain ⟨rfl, rfl⟩ := pure_eq_ok.mp h
      exact ⟨hreads, Or.inr (Or.inl ⟨by simpa using hbrace, token, rfl, haccepts⟩)⟩
    · rename_i hbracket hbrace
      obtain ⟨rfl, rfl⟩ := pure_eq_ok.mp h
      exact ⟨.refl rfl, Or.inr (Or.inr ⟨by simpa using hbracket, by simpa using hbrace, rfl⟩)⟩

theorem found_default (extended : Bool) {found : Option Node}
    (h : default scope cursor = .ok found moved) :
    Found scope (Conforms extended { symbol := .default }) cursor found moved := by
  obtain ⟨assign, afterAssign, hassign, h⟩ := (oneOf_inline? _).bind h
  cases assign with
  | none =>
      obtain ⟨rfl, rfl⟩ := pure_eq_ok.mp h
      exact hassign.none
  | some assign =>
      obtain ⟨value, afterValue, hvalue, hfirst, h⟩ := oneOf_defaultValue.expect_bind h
      obtain ⟨closing, _, hclosing, h⟩ := bind_eq_ok.mp h
      obtain ⟨rfl, rfl⟩ := pure_eq_ok.mp h
      obtain ⟨hclosing, hcases⟩ := reads_defaultClosing hclosing
      refine ⟨by simpa [Node.tokens, tokensOf] using (hassign.reads.trans hvalue).trans hclosing, ?_⟩
      have hassign := hassign.accepted assign rfl
      rcases hcases with ⟨htext, token, rfl, htoken⟩ | ⟨htext, token, rfl, htoken⟩ |
        ⟨hbracket, hbrace, rfl⟩
      · exact .of_form _ (List.mem_of_getElem? (show defaultForms[1]? = some _ from rfl)) rfl
          (.token hassign (.token (accepts_default.mpr ⟨hfirst, by simp [htext]⟩)
            (.token htoken .nil)))
      · exact .of_form _ (List.mem_of_getElem? (show defaultForms[2]? = some _ from rfl)) rfl
          (.token hassign (.token (accepts_default.mpr ⟨hfirst, by simp [htext]⟩)
            (.token htoken .nil)))
      · exact .of_form _ (List.mem_of_getElem? (show defaultForms[0]? = some _ from rfl)) rfl
          (.token hassign (.token (accepts_default.mpr ⟨hfirst, by simp [hbracket, hbrace]⟩) .nil))

/-- A default value that is read only under a condition. -/
theorem reads_when?_default (extended : Bool) {condition : Bool} {found : Option Node}
    (h : when? condition default scope cursor = .ok found moved) :
    Reads scope cursor moved (found.toList.flatMap Node.tokens) ∧
      (∀ node ∈ found, Conforms extended { symbol := .default } node) ∧
      (found.isSome → condition) := by
  rcases when?_eq_ok.mp h with ⟨hcondition, h⟩ | ⟨-, rfl, rfl⟩
  · have hfound := found_default extended h
    cases found with
    | none => exact ⟨.refl hfound, by simp, by simp⟩
    | some node => exact ⟨by simpa using hfound.1, by simpa using hfound.2, fun _ => hcondition⟩
  · exact ⟨.refl rfl, by simp, by simp⟩

theorem found_argument (hnested : Sound extended scope nested) {found : Option Node}
    (h : argument nested scope cursor = .ok found moved) :
    Found scope (Conforms extended { symbol := .argument }) cursor found moved := by
  refine found_rewinding h fun node hnode => ?_
  obtain ⟨attributes, afterAttributes, hattributes, hnode⟩ := bind_eq_ok.mp hnode
  obtain ⟨hreads, hattributes, hnext⟩ := reads_extendedAttributes hnested hattributes
  obtain ⟨optional, afterOptional, hoptional, hnode⟩ := (oneOf_inline? _).bind hnode
  obtain ⟨type, afterType, htype, hnode⟩ := bind_eq_ok.mp hnode
  have htype := found_attributedType hnested htype
  cases type with
  | none => exact absurd (pure_eq_ok.mp hnode).1 (by simp)
  | some type =>
  obtain ⟨hreadsType, htype⟩ := htype
  obtain ⟨variadic, afterVariadic, hvariadic, hdots, hmandatory, hnode⟩ :=
    (oneOf_inline? _).when?_bind hnode
  obtain ⟨name, afterName, hname, hnode⟩ := (oneOf_name _).bind hnode
  cases name with
  | none => exact absurd (pure_eq_ok.mp hnode).1 (by simp)
  | some name =>
  obtain ⟨value, _, hvalue, hnode⟩ := bind_eq_ok.mp hnode
  obtain ⟨hreadsValue, hdefault, hoptionalValue⟩ := reads_when?_default extended hvalue
  obtain ⟨hsome, rfl⟩ := pure_eq_ok.mp hnode
  obtain rfl := Option.some.inj hsome
  refine ⟨by simpa [Node.tokens, tokensOf] using ((((hreads.trans hoptional.reads).trans
    hreadsType).trans hvariadic).trans hname.reads).trans hreadsValue, ?_⟩
  cases optional with
  -- behind `optional` no dots are looked for
  | some optional =>
      obtain rfl : variadic = none := by simpa using hmandatory
      exact .of_form _ (List.mem_of_getElem? (show argumentForms[0]? = some _ from rfl)) rfl
        (.node (conforms_attributes hattributes) (.token (hoptional.accepted optional rfl)
          (.node htype (.token (hname.accepted name rfl) (.lastNodeOption hdefault)))))
  | none =>
      obtain rfl : value = none := by simpa using hoptionalValue
      -- attributes in front of the type are those of the argument, unless `optional` parts them
      have hbare : Conforms extended { symbol := .type argumentPlace .all, mode := .never } type := by
        refine htype.never_of_head (attributed_type _ _) fun token htoken => ?_
        refine hnext token ?_
        rw [← Scope.rest_congr hoptional.none]
        exact hreadsType.mem_head? htoken
      exact .of_form _ (List.mem_of_getElem? (show argumentForms[1]? = some _ from rfl)) rfl
        (.node (conforms_attributes hattributes) (.node hbare (.option hdots
          (.token (hname.accepted name rfl) .nil))))

/-! ## Attributes -/

/-- What an attribute has behind its words. -/
def attributeTail : List Slot :=
  [.word .base "attribute", .node .type { symbol := .type (some "attribute-type") .all },
    .token .name { kinds := [.identifier], words := ["async", "required"] }, .ending]

/-- An attribute is its words and its tail; the word `inherit` is read only if no other word has
been, and it is not followed by `readonly`. -/
theorem attributeMember_eq_ok (hnested : Sound extended scope nested) {special : Option Token}
    {noInherit mustBeReadonly : Bool} {found : Option Node}
    (h : attributeMember nested special noInherit mustBeReadonly scope cursor = .ok found moved) :
    (found = none ∧ moved.position = cursor.position) ∨
    ∃ inherit readonly parts,
      found = some (.mk { construct := .attribute } (bare ::
        (Part.ofToken? .special (special <|> inherit) ++ (Part.ofToken? .readonly readonly ++
          parts)))) ∧
      Reads scope cursor moved (inherit.toList ++ (readonly.toList ++ tokensOf parts)) ∧
      Fits (Conforms extended) attributeTail parts ∧
      (∀ token ∈ inherit, (Terminal.word "inherit").accepts token = true) ∧
      (∀ token ∈ readonly, (Terminal.word "readonly").accepts token = true) ∧
      (inherit.isSome → special = none ∧ noInherit = false ∧ readonly = none) ∧
      (mustBeReadonly = true → readonly.isSome) := by
  -- either an attribute is found whole or the cursor is set back
  rcases rewinding_eq_ok.mp h with ⟨node, rfl, hnode⟩ | ⟨rfl, middle, -, rfl⟩
  · obtain ⟨inherit, afterInherit, hinherit, hinherited, hfirst, hnode⟩ :=
      (oneOf_inline? _).when?_bind hnode
    obtain ⟨next, hnext, hnode⟩ := nextIs_bind.mp hnode
    obtain ⟨hnoReadonly, hnode⟩ := refuse_bind.mp hnode
    obtain ⟨readonly, afterReadonly, hreadonly, hnode⟩ := (oneOf_inline? _).bind hnode
    obtain ⟨second, hsecond, hnode⟩ := nextIs_bind.mp hnode
    obtain ⟨hwritable, hnode⟩ := refuse_bind.mp hnode
    obtain ⟨base, afterBase, hbase, hnode⟩ := (oneOf_inline? _).bind hnode
    cases base with
    | none => exact absurd (pure_eq_ok.mp hnode).1 (by simp)
    | some base =>
    obtain ⟨type, afterType, htype, hnode⟩ := Parser.expect_bind.mp hnode
    obtain ⟨hreadsType, htype⟩ := found_attributedType hnested htype
    obtain ⟨name, afterName, hname, hnamed, hnode⟩ := (oneOf_name _).expect_bind hnode
    obtain ⟨termination, _, htermination, hended, hnode⟩ := (oneOf_inline? _).expect_bind hnode
    obtain ⟨hsome, rfl⟩ := pure_eq_ok.mp hnode
    obtain rfl := Option.some.inj hsome
    refine Or.inr ⟨inherit, readonly, [.token .base base, .node .type type, .token .name name,
      .token .termination termination], by simp, ?_, ?_, hinherited, hreadonly.accepted, ?_, ?_⟩
    · simpa [tokensOf] using ((((hinherit.trans hreadonly.reads).trans hbase.reads).trans
        hreadsType).trans hname).trans htermination
    · exact .token (hbase.accepted base rfl) (.node htype (.token hnamed (.token hended .nil)))
    · -- `inherit` is read only where nothing rules it out, and `readonly` behind it is refused
      intro hsomeInherit
      obtain ⟨token, rfl⟩ := Option.isSome_iff_exists.mp hsomeInherit
      obtain ⟨hspecial, hallowed⟩ : special = none ∧ noInherit = false := by
        simpa using hfirst rfl
      refine ⟨hspecial, hallowed, ?_⟩
      have htext := (accepts_word.mp (hinherited token rfl)).2
      cases readonly with
      | none => rfl
      | some readonly =>
          obtain rfl : next = readonly := by simpa [hnext] using hreadonly.head?_eq
          have hinline : next.isInline "readonly" = true := by
            simpa [Token.isInline] using accepts_word.mp (hreadonly.accepted next rfl)
          simp [hspecial, htext, hinline] at hnoReadonly
    · -- where `readonly` is asked for, the word `attribute` alone is refused
      intro hmust
      cases readonly with
      | some readonly => rfl
      | none =>
          obtain rfl : second = base := by simpa [hsecond] using hbase.head?_eq
          have hinline : second.isInline "attribute" = true := by
            simpa [Token.isInline] using accepts_word.mp (hbase.accepted second rfl)
          simp [hmust, hinline] at hwritable
  · exact Or.inl ⟨rfl, rfl⟩

theorem found_attribute (hnested : Sound extended scope nested) {noInherit mustBeReadonly : Bool}
    {found : Option Node}
    (h : attributeMember nested none noInherit mustBeReadonly scope cursor = .ok found moved) :
    Found scope (Conforms extended
      { symbol := .attribute noInherit mustBeReadonly, mode := .never }) cursor found moved := by
  rcases attributeMember_eq_ok hnested h with ⟨rfl, hposition⟩ |
    ⟨inherit, readonly, parts, rfl, hreads, hparts, hinherited, hreadonly, hfirst, hmust⟩
  · exact hposition
  · refine ⟨by simpa [bare, Node.tokens, tokensOf] using hreads, ?_⟩
    have hattributes : Conforms extended { symbol := .attributes .never } Node.noAttributes :=
      conforms_noAttributes (by simp)
    cases inherit with
    | some inherit =>
        obtain ⟨-, rfl, rfl⟩ := hfirst rfl
        obtain rfl : mustBeReadonly = false := by simpa using hmust
        exact .of_form (attributeForm [.word .special "inherit"])
          (List.mem_append_left _ (List.mem_singleton_self _)) rfl
          (.node hattributes (.token (hinherited inherit rfl) hparts))
    | none =>
        cases mustBeReadonly with
        | true =>
            obtain ⟨readonly, rfl⟩ := Option.isSome_iff_exists.mp (hmust rfl)
            exact .of_form (attributeForm [.word .readonly "readonly"])
              (List.mem_append_right _ (List.mem_singleton_self _)) rfl
              (.node hattributes (.token (hreadonly readonly rfl) hparts))
        | false =>
            exact .of_form (attributeForm [.option .readonly (.word "readonly")])
              (List.mem_append_right _ (List.mem_singleton_self _)) rfl
              (.node hattributes (.option hreadonly hparts))

/-! ## Operations -/

/-- What an operation has behind its words. -/
def operationTail (limit : Limit) : List Slot :=
  .node .type { symbol := .returnType (some returnPlace) limit, mode := .never } ::
    .option .name { kinds := [.identifier], words := ["includes"] } :: Slot.arguments ++ [.ending]

theorem operationBody_eq_ok (hnested : Sound extended scope nested) {construct : Construct}
    {special : Option Token} {node : Node}
    (h : operationBody nested construct special scope cursor = .ok node moved) :
    ∃ parts, node = .mk { construct } (bare :: (Part.ofToken? .special special ++ parts)) ∧
      Reads scope cursor moved (tokensOf parts) ∧
      Fits (Conforms extended) (operationTail .all) parts := by
  obtain ⟨type, afterType, htype, h⟩ := Parser.expect_bind.mp h
  obtain ⟨hreadsType, htype⟩ := found_returnType hnested htype
  obtain ⟨name, afterName, hname, h⟩ := (oneOf_name _).bind h
  obtain ⟨opening, afterOpening, hopening, hopened, h⟩ := (oneOf_inline? _).expect_bind h
  obtain ⟨arguments, afterArguments, harguments, h⟩ := bind_eq_ok.mp h
  obtain ⟨hreadsArguments, hitems⟩ := reads_argumentList hnested harguments
  obtain ⟨closing, afterClosing, hclosing, hclosed, h⟩ := (oneOf_inline? _).expect_bind h
  obtain ⟨termination, _, htermination, hended, h⟩ := (oneOf_inline? _).expect_bind h
  obtain ⟨rfl, rfl⟩ := pure_eq_ok.mp h
  refine ⟨.node .type type :: (Part.ofToken? .name name ++ .token .opening opening ::
    (Part.ofNodes .argument arguments ++ [.token .closing closing,
      .token .termination termination])), by simp, ?_, ?_⟩
  · simpa [tokensOf] using ((((hreadsType.trans hname.reads).trans hopening).trans
      hreadsArguments).trans hclosing).trans htermination
  · exact .node htype (.option hname.accepted (.token hopened (.list hitems (Nat.zero_le _)
      (.token hclosed (.token hended .nil)))))

theorem found_operation (hnested : Sound extended scope nested) {isRegular : Bool} {node : Node}
    (h : operation nested isRegular scope cursor = .ok node moved) :
    Reads scope cursor moved node.tokens ∧
      Conforms extended { symbol := .operation isRegular .all, mode := .never } node := by
  obtain ⟨special, afterSpecial, hspecial, hword, hregular, h⟩ := (oneOf_inline? _).when?_bind h
  obtain ⟨parts, rfl, hreads, hparts⟩ := operationBody_eq_ok hnested h
  refine ⟨by simpa [bare, Node.tokens, tokensOf] using hspecial.trans hreads, ?_⟩
  have hattributes : Conforms extended { symbol := .attributes .never } Node.noAttributes :=
    conforms_noAttributes (by simp)
  cases special with
  | none =>
      exact .of_form (operationForm .operation .all [])
        (List.mem_append_right _ (List.mem_singleton_self _)) rfl
        (.node hattributes hparts)
  | some special =>
      obtain rfl : isRegular = false := by simpa using hregular rfl
      exact .of_form
        (operationForm .operation .all [.token .special { words := ["getter", "setter", "deleter"] }])
        (List.mem_append_left _ (List.mem_singleton_self _)) rfl
        (.node hattributes (.token (hword special rfl) hparts))

/-- An operation behind a word that has been read. -/
theorem specialOperation_eq_ok (hnested : Sound extended scope nested) {construct : Construct}
    {special : Token} {node : Node}
    (h : specialOperation nested construct special scope cursor = .ok node moved) :
    ∃ parts, node = .mk { construct } (bare :: .token .special special :: parts) ∧
      Reads scope cursor moved (tokensOf parts) ∧
      (special.text = "stringifier" ∧ Fits (Conforms extended) [.ending] parts ∨
        Fits (Conforms extended) (operationTail .all) parts) := by
  obtain ⟨termination, afterTermination, htermination, hended, hstringifier, h⟩ :=
    (oneOf_inline? _).when?_bind h
  cases termination with
  | some termination =>
      obtain ⟨rfl, rfl⟩ := pure_eq_ok.mp h
      exact ⟨[.token .termination termination], rfl, by simpa [tokensOf] using htermination,
        Or.inl ⟨by simpa using hstringifier rfl, .token (hended termination rfl) .nil⟩⟩
  | none =>
      obtain ⟨parts, rfl, hreads, hparts⟩ := operationBody_eq_ok hnested h
      exact ⟨parts, rfl, by simpa using htermination.trans hreads, Or.inr hparts⟩

theorem found_specialMember (hnested : Sound extended scope nested) {word : String}
    (hword : word ≠ "inherit") {found : Option Node}
    (h : specialMember nested word scope cursor = .ok found moved) :
    Found scope (Conforms extended { symbol := .special word, mode := .never }) cursor
      found moved := by
  obtain ⟨special, afterSpecial, hspecial, h⟩ := (oneOf_inline? _).bind h
  cases special with
  | none =>
      obtain ⟨rfl, rfl⟩ := pure_eq_ok.mp h
      exact hspecial.none
  | some special =>
  have hattributes : Conforms extended { symbol := .attributes .never } Node.noAttributes :=
    conforms_noAttributes (by simp)
  have haccepts := hspecial.accepted special rfl
  obtain ⟨member, afterMember, hmember, h⟩ := bind_eq_ok.mp h
  rcases attributeMember_eq_ok hnested hmember with ⟨rfl, hposition⟩ |
    ⟨inherit, readonly, parts, rfl, hreads, hparts, -, hreadonly, hfirst, -⟩
  · -- no attribute stands behind the word, so an operation does
    obtain ⟨node, _, hnode, h⟩ := bind_eq_ok.mp h
    obtain ⟨rfl, rfl⟩ := pure_eq_ok.mp h
    obtain ⟨parts, rfl, hreads, hcases⟩ := specialOperation_eq_ok hnested hnode
    refine ⟨by simpa [bare, Node.tokens, tokensOf] using
      hspecial.reads.trans (hreads.congr hposition.symm rfl), ?_⟩
    rcases hcases with ⟨htext, hparts⟩ | hparts
    · obtain rfl : "stringifier" = word := by rw [← htext, (accepts_word.mp haccepts).2]
      exact .of_form _ (List.mem_append_right _ (List.mem_singleton_self _)) rfl
        (.node hattributes (.token haccepts hparts))
    · exact .of_form (operationForm .operation .all [.word .special word])
        (List.mem_append_left _ (List.mem_cons_of_mem _ (List.mem_singleton_self _))) rfl
        (.node hattributes (.token haccepts hparts))
  · -- an attribute, which cannot be inherited behind the word
    obtain ⟨rfl, rfl⟩ := pure_eq_ok.mp h
    obtain rfl : inherit = none := by simpa using fun hsome => (hfirst hsome).1
    refine ⟨by simpa [bare, Node.tokens, tokensOf] using hspecial.reads.trans hreads, ?_⟩
    exact .of_form (attributeForm [.word .special word, .option .readonly (.word "readonly")])
      (List.mem_append_left _ List.mem_cons_self) rfl
      (.node hattributes (.token haccepts (.option hreadonly hparts)))

/-! ## Other members -/

/-- The type of a constant in its place. -/
theorem conforms_constantType {type : Node}
    (h : (Conforms extended
        { symbol := .stem [.integer, .float, .keyword] none, mode := .never } type) ∨
      ∃ base, Terminal.identifier.accepts base = true ∧ type = typeNode none [.token .base base]) :
    Conforms extended { symbol := .constantType, mode := .never }
      (type.withPlace constantPlace) := by
  have hattributes : Conforms extended { symbol := .attributes .never } Node.noAttributes :=
    conforms_noAttributes (by simp)
  rcases h with hprimitive | ⟨base, hbase, rfl⟩
  · obtain ⟨stem, hstem, slots, hslots, parts, rfl, hparts⟩ := conforms_stem_iff.mp hprimitive
    have hnode : (Node.mk { construct := stem.construct } (bare :: parts)).withPlace constantPlace =
        .mk { construct := stem.construct, place := constantPlace } (bare :: parts) := by
      cases stem <;> rfl
    have hplaced : slots ∈ stem.slots constantPlace .all := by
      rwa [Stem.slots_eq_of_simple] at hslots
      simp only [List.mem_cons, List.not_mem_nil, or_false] at hstem ⊢
      rcases hstem with rfl | rfl | rfl <;> simp
    rw [hnode]
    exact .of_form { construct := stem.construct, place := constantPlace, slots }
      (List.mem_append_left _ (List.mem_flatMap.mpr ⟨stem, hstem, List.mem_map_of_mem hplaced⟩)) rfl
      (.node hattributes (by simpa using hparts))
  · exact .of_form _ (List.mem_append_right _ (List.mem_singleton_self _)) rfl
      (.node hattributes (.token hbase .nil))

theorem found_constant (extended : Bool) {found : Option Node}
    (h : constant scope cursor = .ok found moved) :
    Found scope (Conforms extended { symbol := .constant, mode := .never }) cursor found moved := by
  obtain ⟨base, afterBase, hbase, h⟩ := (oneOf_inline? _).bind h
  cases base with
  | none =>
      obtain ⟨rfl, rfl⟩ := pure_eq_ok.mp h
      exact hbase.none
  | some base =>
      obtain ⟨type, afterType, htype, h⟩ := Parser.expect_bind.mp h
      obtain ⟨next, hnext, h⟩ := nextIs_bind.mp h
      obtain ⟨-, h⟩ := refuse_bind.mp h
      obtain ⟨name, afterName, hname, hnamed, h⟩ := oneOf_identifier.expect_bind h
      obtain ⟨assign, afterAssign, hassign, hassigned, h⟩ := (oneOf_inline? _).expect_bind h
      obtain ⟨value, afterValue, hvalue, hvalued, h⟩ := oneOf_constantValue.expect_bind h
      obtain ⟨termination, _, htermination, hended, h⟩ := (oneOf_inline? _).expect_bind h
      obtain ⟨rfl, rfl⟩ := pure_eq_ok.mp h
      obtain ⟨hreadsType, hplain⟩ := found_either htype
        (fun _ _ hprimitive => (found_primitiveType extended hprimitive).imp fun _ => Or.inl)
        (fun _ _ _ hword => (found_oneWord oneOf_identifier hword).imp fun _ => Or.inr)
      refine ⟨by simpa [bare, Node.tokens, tokensOf] using ((((hbase.reads.trans hreadsType).trans
        hname).trans hassign).trans hvalue).trans htermination, ?_⟩
      exact .of_form constantForm (List.mem_singleton_self _) rfl
        (.node (conforms_noAttributes (by simp)) (.token (hbase.accepted base rfl)
          (.node (conforms_constantType hplain) (.token hnamed (.token hassigned (.token hvalued
            (.token hended .nil)))))))

theorem found_constructor (hnested : Sound extended scope nested) {found : Option Node}
    (h : constructor nested scope cursor = .ok found moved) :
    Found scope (Conforms extended { symbol := .constructor, mode := .never }) cursor
      found moved := by
  obtain ⟨base, afterBase, hbase, h⟩ := (oneOf_inline? _).bind h
  cases base with
  | none =>
      obtain ⟨rfl, rfl⟩ := pure_eq_ok.mp h
      exact hbase.none
  | some base =>
      obtain ⟨opening, afterOpening, hopening, hopened, h⟩ := (oneOf_inline? _).expect_bind h
      obtain ⟨arguments, afterArguments, harguments, h⟩ := bind_eq_ok.mp h
      obtain ⟨hreadsArguments, hitems⟩ := reads_argumentList hnested harguments
      obtain ⟨closing, afterClosing, hclosing, hclosed, h⟩ := (oneOf_inline? _).expect_bind h
      obtain ⟨termination, _, htermination, hended, h⟩ := (oneOf_inline? _).expect_bind h
      obtain ⟨rfl, rfl⟩ := pure_eq_ok.mp h
      refine ⟨by simpa [bare, Node.tokens, tokensOf] using (((hbase.reads.trans hopening).trans
        hreadsArguments).trans hclosing).trans htermination, ?_⟩
      exact .of_form constructorForm (List.mem_singleton_self _) rfl
        (.node (conforms_noAttributes (by simp)) (.token (hbase.accepted base rfl) (.token hopened
          (.list hitems (Nat.zero_le _) (.token hclosed (.token hended .nil))))))

/-! ## Collections -/

/-- One type or two: two for a map, one for a set. -/
theorem reads_typeArguments (hnested : Sound extended scope nested) {kind : String}
    {types : List Node} (h : typeArguments nested kind scope cursor = .ok types moved) :
    Reads scope cursor moved (types.flatMap Node.tokens) ∧
      (kind ≠ "maplike" ∧ Fits (Conforms extended) oneType (Part.ofNodes .typeArgument types) ∨
        kind ≠ "setlike" ∧
          Fits (Conforms extended) twoTypes (Part.ofNodes .typeArgument types)) := by
  obtain ⟨first, afterFirst, hfirst, h⟩ := Parser.expect_bind.mp h
  obtain ⟨hreadsFirst, hfirst⟩ := found_attributedType hnested hfirst
  obtain ⟨comma, afterComma, hcomma, hseparator, hallowed, h⟩ := (oneOf_inline? _).when?_bind h
  cases comma with
  | some comma =>
      obtain ⟨second, _, hsecond, h⟩ := Parser.expect_bind.mp h
      obtain ⟨rfl, rfl⟩ := pure_eq_ok.mp h
      obtain ⟨hreadsSecond, hsecond⟩ := found_attributedType hnested hsecond
      refine ⟨by simpa using (hreadsFirst.trans hcomma).trans hreadsSecond, Or.inr ⟨?_, ?_⟩⟩
      · simpa using hallowed rfl
      · exact .node (hfirst.withSeparator (hseparator comma rfl)) (.node hsecond .nil)
  | none =>
      obtain ⟨hset, h⟩ := refuse_bind.mp h
      obtain ⟨rfl, rfl⟩ := pure_eq_ok.mp h
      exact ⟨by simpa using hreadsFirst.trans hcomma, Or.inl ⟨by simpa using hset, .node hfirst .nil⟩⟩

/-- The slots for the arguments of an asynchronous iterable. -/
def iterableTail : List Slot :=
  [.word .argumentsOpening "(", .list .argument { symbol := .argument } "," 0 false,
    .word .argumentsClosing ")"]

theorem reads_iterableArguments (hnested : Sound extended scope nested) {allowed : Bool}
    {parts : List Part} (h : iterableArguments nested allowed scope cursor = .ok parts moved) :
    Reads scope cursor moved (tokensOf parts) ∧
      (parts = [] ∨ allowed = true ∧ Fits (Conforms extended) iterableTail parts) := by
  obtain ⟨next, hnext, h⟩ := nextIs_bind.mp h
  obtain ⟨hunexpected, h⟩ := refuse_bind.mp h
  obtain ⟨opening, afterOpening, hopening, h⟩ := (oneOf_inline? _).bind h
  cases opening with
  | none =>
      obtain ⟨rfl, rfl⟩ := pure_eq_ok.mp h
      exact ⟨.refl hopening.none, Or.inl rfl⟩
  | some opening =>
      obtain ⟨arguments, afterArguments, harguments, h⟩ := bind_eq_ok.mp h
      obtain ⟨hreadsArguments, hitems⟩ := reads_argumentList hnested harguments
      obtain ⟨closing, _, hclosing, hclosed, h⟩ := (oneOf_inline? _).expect_bind h
      obtain ⟨rfl, rfl⟩ := pure_eq_ok.mp h
      obtain rfl : next = opening := by simpa [hnext] using hopening.head?_eq
      have hinline : next.isInline "(" = true := by
        simpa [Token.isInline] using accepts_word.mp (hopening.accepted next rfl)
      refine ⟨by simpa [tokensOf] using (hopening.reads.trans hreadsArguments).trans hclosing,
        Or.inr ⟨by simpa [hinline] using hunexpected, ?_⟩⟩
      exact .token (hopening.accepted next rfl) (.list hitems (Nat.zero_le _)
        (.token hclosed .nil))

/-- A collection is its words, its keyword, its types and what follows them. -/
theorem conforms_iterableLike {words types tail : List Slot} {keyword : String}
    {wordParts typeParts tailParts : List Part} {base opening closing termination : Token}
    (hform : collectionForm words keyword types tail ∈ iterableLikeForms)
    (hwords : Fits (Conforms extended) words wordParts)
    (hbase : (Terminal.word keyword).accepts base = true)
    (hopening : (Terminal.word "<").accepts opening = true)
    (htypes : Fits (Conforms extended) types typeParts)
    (hclosing : (Terminal.word ">").accepts closing = true)
    (htail : Fits (Conforms extended) tail tailParts)
    (htermination : (Terminal.word ";").accepts termination = true) :
    Conforms extended { symbol := .iterableLike, mode := .never }
      (.mk { construct := .iterableLike } (bare :: (wordParts ++ .token .base base ::
        .token .opening opening :: (typeParts ++ .token .closing closing ::
          (tailParts ++ [.token .termination termination]))))) := by
  refine .of_form (collectionForm words keyword types tail) hform rfl
    (.node (conforms_noAttributes (by simp)) ?_)
  simp only [collectionForm, List.nil_append, List.append_eq, List.append_assoc, List.cons_append,
    Option.toList_none, List.map_nil, List.append_nil]
  refine fits_append.mpr ⟨wordParts, _, rfl, hwords, .token hbase (.token hopening ?_)⟩
  refine fits_append.mpr ⟨typeParts, _, rfl, htypes, .token hclosing ?_⟩
  exact fits_append.mpr ⟨tailParts, _, rfl, htail, .token htermination .nil⟩

theorem found_iterableLike (hnested : Sound extended scope nested) {found : Option Node}
    (h : iterableLike nested scope cursor = .ok found moved) :
    Found scope (Conforms extended { symbol := .iterableLike, mode := .never }) cursor
      found moved := by
  refine found_rewinding h fun node hnode => ?_
  obtain ⟨readonly, afterReadonly, hreadonly, hnode⟩ := (oneOf_inline? _).bind hnode
  obtain ⟨async, afterAsync, hasync, hasyncWord, hwritable, hnode⟩ :=
    (oneOf_inline? _).when?_bind hnode
  obtain ⟨base, afterBase, hbase, hnode⟩ := (oneOf_inline? _).bind hnode
  cases base with
  | none => exact absurd (pure_eq_ok.mp hnode).1 (by simp)
  | some base =>
  obtain ⟨opening, afterOpening, hopening, hopened, hnode⟩ := (oneOf_inline? _).expect_bind hnode
  obtain ⟨types, afterTypes, htypes, hnode⟩ := bind_eq_ok.mp hnode
  obtain ⟨hreadsTypes, htypes⟩ := reads_typeArguments hnested htypes
  obtain ⟨closing, afterClosing, hclosing, hclosed, hnode⟩ := (oneOf_inline? _).expect_bind hnode
  obtain ⟨tail, afterTail, htail, hnode⟩ := bind_eq_ok.mp hnode
  obtain ⟨hreadsTail, htail⟩ := reads_iterableArguments hnested htail
  obtain ⟨termination, _, htermination, hended, hnode⟩ := (oneOf_inline? _).expect_bind hnode
  obtain ⟨hsome, rfl⟩ := pure_eq_ok.mp hnode
  obtain rfl := Option.some.inj hsome
  refine ⟨by simpa [bare, Node.tokens, tokensOf] using (((((((hreadonly.reads.trans hasync).trans
    hbase.reads).trans hopening).trans hreadsTypes).trans hclosing).trans hreadsTail).trans
    htermination), ?_⟩
  -- the eight forms differ in the words in front, the number of types and the arguments
  obtain ⟨hkind, htext⟩ := accepts_words.mp (hbase.accepted base rfl)
  have hword {keyword : String} (h : base.text = keyword) :
      (Terminal.word keyword).accepts base = true := accepts_word.mpr ⟨hkind, h⟩
  have hform {form : Form} {index : Nat} (h : iterableLikeForms[index]? = some form) :
      form ∈ iterableLikeForms := List.mem_of_getElem? h
  simp only [List.cons_append, List.append_assoc]
  cases async with
  -- only `iterable` may be asynchronous, and it is not `readonly` then
  | some async =>
      obtain rfl : readonly = none := by simpa using hwritable rfl
      have hiterable := hword (List.mem_singleton.mp htext)
      have hfront : Fits (Conforms extended) [.word .async "async"] [.token .async async] :=
        .token (hasyncWord async rfl) .nil
      rcases htail with rfl | ⟨-, htail⟩ <;> rcases htypes with ⟨-, htypes⟩ | ⟨-, htypes⟩
      · exact conforms_iterableLike (hform (show _[3]? = _ from rfl)) hfront hiterable hopened
          htypes hclosed .nil hended
      · exact conforms_iterableLike (hform (show _[6]? = _ from rfl)) hfront hiterable hopened
          htypes hclosed .nil hended
      · exact conforms_iterableLike (hform (show _[4]? = _ from rfl)) hfront hiterable hopened
          htypes hclosed htail hended
      · exact conforms_iterableLike (hform (show _[7]? = _ from rfl)) hfront hiterable hopened
          htypes hclosed htail hended
  | none =>
      obtain rfl : tail = [] := htail.resolve_right (by simp)
      have hfront : Fits (Conforms extended) [.option .readonly (.word "readonly")]
          (Part.ofToken? .readonly readonly) := .lastOption hreadonly.accepted
      rcases htypes with ⟨hmap, htypes⟩ | ⟨hset, htypes⟩
      · -- one type: a set or an `iterable`
        by_cases hsetlike : base.text = "setlike"
        · exact conforms_iterableLike (hform (show _[1]? = _ from rfl)) hfront (hword hsetlike)
            hopened htypes hclosed .nil hended
        · obtain ⟨rfl, hiterable⟩ : readonly = none ∧ base.text = "iterable" := by
            cases readonly <;> simp_all [iterableWords]
          exact conforms_iterableLike (hform (show _[2]? = _ from rfl)) .nil (hword hiterable)
            hopened htypes hclosed .nil hended
      · -- two types: a map or an `iterable`
        by_cases hmaplike : base.text = "maplike"
        · exact conforms_iterableLike (hform (show _[0]? = _ from rfl)) hfront (hword hmaplike)
            hopened htypes hclosed .nil hended
        · obtain ⟨rfl, hiterable⟩ : readonly = none ∧ base.text = "iterable" := by
            cases readonly <;> simp_all [iterableWords]
          exact conforms_iterableLike (hform (show _[5]? = _ from rfl)) .nil (hword hiterable)
            hopened htypes hclosed .nil hended

/-! ## Members of dictionaries -/

/-- What a member of a dictionary has behind its type. -/
theorem fieldBody_eq_ok (extended : Bool) {construct : Construct} {required : Option Token}
    {type node : Node} (h : fieldBody construct required type scope cursor = .ok node moved) :
    ∃ name value termination,
      node = .mk { construct } (bare :: (Part.ofToken? .required required ++ .node .type type ::
        .token .name name :: (Part.ofNode? .default value ++ [.token .termination termination]))) ∧
      Reads scope cursor moved
        (name :: (value.toList.flatMap Node.tokens ++ [termination])) ∧
      Terminal.identifier.accepts name = true ∧
      (∀ node ∈ value, Conforms extended { symbol := .default } node) ∧
      (Terminal.word ";").accepts termination = true ∧ (required.isSome → value = none) := by
  obtain ⟨name, afterName, hname, hnamed, h⟩ := oneOf_identifier.expect_bind h
  obtain ⟨value, afterValue, hvalue, h⟩ := bind_eq_ok.mp h
  have hvalue := found_default extended hvalue
  obtain ⟨hboth, h⟩ := refuse_bind.mp h
  obtain ⟨termination, _, htermination, hended, h⟩ := (oneOf_inline? _).expect_bind h
  obtain ⟨rfl, rfl⟩ := pure_eq_ok.mp h
  refine ⟨name, value, termination, by simp, ?_, hnamed, ?_, hended, ?_⟩
  · cases value with
    | none => simpa using (hname.congr rfl (show _ = _ from hvalue)).trans htermination
    | some value => simpa using (hname.trans hvalue.1).trans htermination
  · cases value with
    | none => simp
    | some value => simpa using hvalue.2
  · simpa using hboth

theorem found_field (hnested : Sound extended scope nested) {node : Node}
    (h : field nested scope cursor = .ok node moved) :
    Reads scope cursor moved node.tokens ∧
      Conforms extended { symbol := .loneField, mode := .never } node := by
  obtain ⟨required, afterRequired, hrequired, h⟩ := (oneOf_inline? _).bind h
  obtain ⟨type, afterType, htype, h⟩ := Parser.expect_bind.mp h
  obtain ⟨hreadsType, htype⟩ := found_attributedType hnested htype
  obtain ⟨name, value, termination, rfl, hreads, hname, hvalue, htermination, hplain⟩ :=
    fieldBody_eq_ok extended h
  refine ⟨by simpa [bare, Node.tokens, tokensOf] using
    (hrequired.reads.trans hreadsType).trans hreads, ?_⟩
  have hattributes : Conforms extended { symbol := .attributes .never } Node.noAttributes :=
    conforms_noAttributes (by simp)
  cases required with
  | some required =>
      obtain rfl := hplain rfl
      exact .of_form _ List.mem_cons_self rfl
        (.node hattributes (.token (hrequired.accepted required rfl) (.node htype
          (.token hname (.token htermination .nil)))))
  | none =>
      exact .of_form _ (List.mem_cons_of_mem _ List.mem_cons_self) rfl
        (.node hattributes (.node htype (.token hname (.nodeOption hvalue
          (.token htermination .nil)))))

end

end WebIdl.Grammar
