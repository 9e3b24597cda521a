import WebIdl.Proofs.Complete.Extended
import WebIdl.Proofs.Sound.Coverage

/-!
# Every text of the grammar is parsed

The recursion of the grammar is tied by a bound on its depth.  By induction on the bound, the
parsers of productions find all constructs that need no more than it.  A text needs far less than
the depth that its parse is given, so the definitions of a text are found as they are
(`Grammar.definitions_of_conforms`).
-/

namespace WebIdl

open WebIdl.Parser WebIdl.Shape WebIdl.Grammar

section

variable {extended : Bool} {scope : Scope} {depth : Nat}
  {nested : Production → Parser (Option Node)}

/-! ## One step -/

/-- Where a production has nothing to find, its parser declines. -/
theorem Production.declines_step (hcomplete : Complete extended scope depth nested)
    {production : Production} {tokens : List Token} (hrank : production.rank ≤ depth + 1)
    (h : Misses production tokens) :
    Yields scope (production.step nested) tokens none tokens := by
  -- each way to miss a production ends in one of its first tests
  cases h with
  | head hstarts htoken =>
      -- a head that differs is seen by the first token the production looks for
      cases production with
      | extendedAttribute =>
          cases hstarts
          exact oneOf_identifier.yields_bind_none htoken (yields_pure none)
      | argument =>
          cases hstarts
          simp only [rank] at hrank
          exact yields_argument_none hcomplete (by omega) htoken
      | «attribute» noInherit mustBeReadonly =>
          cases hstarts
          exact yields_attributeMember_none htoken
      | constant =>
          cases hstarts
          exact (oneOf_inline? _).yields_bind_none htoken (yields_pure none)
      | constructor =>
          cases hstarts
          exact (oneOf_inline? _).yields_bind_none htoken (yields_pure none)
      | staticMember =>
          cases hstarts
          exact (oneOf_inline? _).yields_bind_none htoken (yields_pure none)
      | stringifier =>
          cases hstarts
          exact (oneOf_inline? _).yields_bind_none htoken (yields_pure none)
      | iterableLike =>
          cases hstarts
          exact yields_iterableLike_none htoken
      | legacyCaller =>
          cases hstarts
          exact (oneOf_identifier? _).yields_bind_none htoken (yields_pure none)
      | utf8StringRecord => exact yields_utf8StringRecord_none (.head hstarts htoken)
      | utf8StringField => exact yields_utf8StringField_none (.head hstarts htoken)
      | callback =>
          cases hstarts
          exact (oneOf_inline? _).yields_bind_none htoken (yields_pure none)
      | callbackConstructor =>
          cases hstarts
          exact Yields.rewinding_none
            ((oneOf_inline? _).yields_bind_none htoken (yields_pure none))
      | interface =>
          cases hstarts
          exact yields_interface_none htoken
      | bodylessInterface =>
          cases hstarts
          exact Yields.rewinding_none
            ((oneOf_inline? _).yields_bind_none htoken (yields_pure none))
      | legacyCallerInterface =>
          cases hstarts
          exact yields_position_bind fun _ =>
            (oneOf_inline? _).yields_bind_none htoken (yields_pure none)
      | partialDefinition =>
          cases hstarts
          exact (oneOf_inline? _).yields_bind_none htoken (yields_pure none)
      | dictionary =>
          cases hstarts
          exact yields_dictionary_none htoken
      | namespaceDef =>
          cases hstarts
          exact yields_namespaceDef_none htoken
      | enumeration =>
          cases hstarts
          exact (oneOf_inline? _).yields_bind_none htoken (yields_pure none)
      | typedef =>
          cases hstarts
          exact (oneOf_inline? _).yields_bind_none htoken (yields_pure none)
      | utf8StringTypedef => exact yields_utf8StringTypedef_none (.head hstarts htoken)
      | includes =>
          cases hstarts
          exact Yields.rewinding_none (oneOf_identifier.yields_bind_none htoken (yields_pure none))
      | _ => cases hstarts
  -- `readonly` alone may open a set or map, so the token behind it decides
  | iterableLike hreadonly htoken => exact yields_iterableLike_readonly hreadonly htoken
  | record hbase hopening htoken =>
      exact yields_utf8StringRecord_none (.record hbase hopening htoken)
  | field htoken hmisses => exact yields_utf8StringField_none (.field htoken hmisses)
  | required hrequired hmisses => exact yields_utf8StringField_none (.required hrequired hmisses)
  | typedef hbase hmisses => exact yields_utf8StringTypedef_none (.typedef hbase hmisses)
  -- these two are told apart only behind the word `interface`, and rewind
  | bodyless hbase hname htoken =>
      exact Yields.rewinding_none ((oneOf_inline? _).yields_bind hbase
        (oneOf_identifier.yields_bind hname
          ((oneOf_inline? _).yields_bind_none htoken (yields_pure none))))
  | nameless hbase htoken =>
      exact Yields.rewinding_none ((oneOf_inline? _).yields_bind hbase
        (oneOf_identifier.yields_bind_none htoken (yields_pure none)))
  | callback hbase htoken =>
      exact Yields.rewinding_none ((oneOf_inline? _).yields_bind hbase
        ((oneOf_inline? _).yields_bind_none htoken (yields_pure none)))
  | mixin hbase hmixin => exact yields_legacyCallerInterface_mixin hbase hmixin

theorem attributed_stem (stems : List Stem) (place : Option String) :
    (Symbol.stem stems place).Attributed extended := by
  refine List.all_eq_true.mpr fun form hform => ?_
  obtain ⟨stem, -, hform⟩ := List.mem_flatMap.mp hform
  obtain ⟨slots, -, rfl⟩ := List.mem_map.mp hform
  rfl

/-- A type of one of the given shapes, without its question mark. -/
theorem split_stem {stems : List Stem} {place : Option String} {node : Node}
    (h : Conforms extended { symbol := .stem stems place, mode := .never } node)
    (hstems : stems.all (·.construct == .type) = true) :
    ∃ stem ∈ stems, ∃ slots ∈ stem.slots place .all, ∃ parts, node = typeNode place parts ∧
      node.tokens = tokensOf parts ∧ Fits (Conforms extended) slots parts := by
  obtain ⟨form, hform, parts, rfl, htokens, hparts⟩ := h.split_form (attributed_stem stems place)
  obtain ⟨stem, hstem, hform⟩ := List.mem_flatMap.mp hform
  obtain ⟨slots, hslots, rfl⟩ := List.mem_map.mp hform
  have hconstruct : stem.construct = .type := by
    simpa using List.all_eq_true.mp hstems stem hstem
  refine ⟨stem, hstem, slots, hslots, parts, ?_, htokens, hparts⟩
  simp [typeNode, Form.label, hconstruct]

/-- A production finds a construct of its category, one level above the productions inside. -/
theorem Production.yields_step (hcomplete : Complete extended scope depth nested)
    {production : Production} {node : Node} {next : Token} {more : List Token}
    (hdecided : IsDecided production) (h : Conforms extended (categoryOf production) node)
    (hdepth : 2 * node.tokens.length + production.rank ≤ depth + 1)
    (hnext : (continuations production).accepts next = false) :
    Yields scope (production.step nested) (node.tokens ++ next :: more) (some node)
      (next :: more) := by
  -- a production of rank one or more leaves the rest of the depth to what it nests
  have hshort : 2 * node.tokens.length ≤ depth := by
    have hrank := production.one_le_rank
    omega
  cases production with
  | extendedAttribute => exact yields_extendedAttribute hcomplete h hshort hnext
  | extendedAttributes => exact (yields_extendedAttributes hcomplete h hshort hnext).map some
  | default => exact yields_default h
  | argument => exact yields_argument hcomplete h hshort hnext
  -- a type is split into its stem and the parts in the slots of that
  | genericType place =>
      obtain ⟨stem, hstem, slots, hslots, parts, rfl, htokens, hparts⟩ := split_stem h rfl
      rw [htokens] at hshort ⊢
      exact yields_genericType hcomplete hstem hslots hparts hshort
  | integerType =>
      obtain ⟨stem, hstem, slots, hslots, parts, rfl, htokens, hparts⟩ := split_stem h rfl
      obtain rfl := List.mem_singleton.mp hstem
      rw [htokens]
      refine yields_integerType hslots hparts fun _ => ?_
      rwa [isInline_eq]
  | decimalType =>
      obtain ⟨stem, hstem, slots, hslots, parts, rfl, htokens, hparts⟩ := split_stem h rfl
      obtain rfl := List.mem_singleton.mp hstem
      rw [htokens]
      exact yields_decimalType hslots hparts
  | primitiveType =>
      obtain ⟨stem, hstem, slots, hslots, parts, rfl, htokens, hparts⟩ := split_stem h rfl
      rw [htokens]
      refine yields_primitiveType hstem hslots hparts fun _ => ?_
      rwa [isInline_eq]
  | singleType place => exact hdecided.elim
  | unionType place => exact hdecided.elim
  -- these only pass on to another production, so the rank has to make room
  | type place =>
      simp only [rank] at hdepth
      exact yields_type hcomplete h (by omega) (goesOn_eq_false hnext node)
  | attributedType place =>
      simp only [rank] at hdepth
      exact yields_attributedType hcomplete h (by omega) (goesOn_eq_false hnext node)
  | returnType place =>
      simp only [rank] at hdepth
      exact yields_returnType hcomplete h (by omega) hnext
  | «attribute» noInherit mustBeReadonly => exact yields_attribute hcomplete h hshort
  | operation isRegular => exact (yields_operation hcomplete h hshort).map some
  | constant => exact yields_constant h
  | constructor => exact yields_constructor hcomplete h hshort
  | staticMember => exact yields_specialMember hcomplete (by decide) h hshort
  | stringifier => exact yields_specialMember hcomplete (by decide) h hshort
  | iterableLike => exact yields_iterableLike hcomplete h hshort
  | field => exact (yields_field hcomplete h hshort).map some
  | dictionary => exact yields_heirDictionary hcomplete h hshort
  | namespaceDef => exact yields_namespace hcomplete h hshort
  | enumeration => exact yields_enumeration h
  | typedef => exact yields_typedef hcomplete h hshort
  | includes => exact yields_includes h
  | callback => exact yields_callback hcomplete h hshort
  | interface => exact yields_interfaceOrMixin hcomplete h hshort
  | partialDefinition => exact yields_partialDefinition hcomplete h hshort
  | bodylessInterface => exact yields_bodylessInterface h
  | callbackConstructor => exact yields_callbackConstructor hcomplete h hshort
  | legacyCaller => exact yields_legacyCaller hcomplete h hshort
  | legacyCallerInterface => exact yields_legacyCallerInterface hcomplete h hshort
  | utf8StringRecord =>
      obtain ⟨parts, mark, rfl, hfound⟩ := yields_utf8StringRecord hcomplete h hshort hnext
      exact hfound
  | utf8StringField => exact yields_utf8StringField hcomplete h hshort
  | utf8StringTypedef => exact yields_utf8StringTypedef hcomplete h hshort

/-- At every depth the parsers of productions find the constructs that need no more. -/
theorem Production.complete_parseTo (hextensions : scope.extensions = extensionsOf extended)
    (depth : Nat) : Complete extended scope depth (parseTo depth) := by
  induction depth with
  | zero =>
      refine ⟨hextensions, fun {production} _ _ hdepth _ => ?_, fun {production} hrank _ => ?_⟩
      · have hpos := production.one_le_rank
        omega
      · have hpos := production.one_le_rank
        omega
  | succ depth ih =>
      exact ⟨hextensions, fun hdecided h hdepth hnext => yields_step ih hdecided h hdepth hnext,
        fun hrank h => declines_step ih hrank h⟩

/-! ## Whole texts -/

theorem attributed_definition : Symbol.definition.Attributed extended := by
  cases extended <;> rfl

/-- A definition without attributes does not begin with a bracket. -/
theorem head_definition {node : Node}
    (h : Conforms extended { symbol := .definition, mode := .never } node) :
    ∃ token rest, node.tokens = token :: rest ∧ (Terminal.word "[").accepts token = false := by
  refine h.head_apart ?_
  cases extended <;> rfl

/-- The productions of definitions say everything about what they find, and stop at once. -/
theorem isDecided_defining {production : Production}
    (h : production ∈ definingProductions extended) :
    modeOf production = .never ∧ IsDecided production ∧ continuations production = {} := by
  have hall : ∀ production ∈ definingProductions extended,
      modeOf production = .never ∧ IsDecided production ∧ continuations production = {} := by
    cases extended <;>
      simp [definingProductions, Dialect.gecko, standardDefinitions, modeOf, IsDecided,
        continuations]
  exact hall production h

/-- The productions of definitions decline at the end of the text. -/
theorem misses_eof {production : Production} (h : production ∈ definingProductions extended)
    {last : Token} (hlast : last.kind = .eof) : Misses production [last] := by
  have hall : ∀ production ∈ definingProductions extended,
      ∃ terminal, startsOf production = some terminal ∧ .eof ∉ terminal.kinds := by
    cases extended <;>
      simp [definingProductions, Dialect.gecko, standardDefinitions, startsOf, Terminal.word,
        Terminal.identifier]
  obtain ⟨terminal, hstarts, heof⟩ := hall production h
  refine .head hstarts ?_
  simp [Terminal.accepts, hlast, heof]

theorem Grammar.yields_definitionsFrom (hcomplete : Complete extended scope depth nested)
    {nodes : List Node} {last : Token} (hlast : last.kind = .eof)
    (hnodes : ∀ node ∈ nodes, Conforms extended { symbol := .definition } node)
    (hdepth : 2 * (nodes.flatMap Node.tokens).length + 2 ≤ depth) {fuel : Nat}
    (hfuel : nodes.length < fuel) :
    Yields scope (definitionsFrom nested (definingProductions extended) fuel)
      (nodes.flatMap Node.tokens ++ [last]) nodes [last] := by
  -- on the definitions, with fuel for one more than there are
  induction fuel generalizing nodes with
  | zero => exact absurd hfuel (Nat.not_lt_zero _)
  | succ fuel ih =>
      cases nodes with
      | nil =>
          -- at the end no attributes and no definition are found
          have hbracket : (Terminal.word "[").accepts last = false := by
            simp [Terminal.accepts, Terminal.word, hlast]
          refine (yields_extendedAttributes_none hbracket).bind ?_
          have hnone : Yields scope (firstMatch nested (definingProductions extended)) [last] none
              [last] :=
            yields_firstMatch_none fun production hproduction =>
              hcomplete.declines (Nat.le_trans production.rank_le_two (by simpa using hdepth))
                (misses_eof hproduction hlast)
          exact hnone.bind (yields_refuse_bind rfl (yields_pure []))
      | cons node others =>
          obtain ⟨hnode, hothers⟩ := List.forall_mem_cons.mp hnodes
          -- the attributes are read in front of the definition and put into it afterwards
          obtain ⟨attributes, core, rfl, hattributes, hcore⟩ :=
            hnode.split_attributes attributed_definition
          simp only [List.flatMap_cons, hcore.tokens_withAttributes attributed_definition,
            List.length_append, List.append_assoc, List.length_cons] at hdepth hfuel ⊢
          -- a definition is read whatever token stands behind it
          obtain ⟨behind, rest, hbehind⟩ : ∃ behind rest,
              others.flatMap Node.tokens ++ [last] = behind :: rest := by
            cases others.flatMap Node.tokens <;> exact ⟨_, _, rfl⟩
          have hfound : Yields scope (firstMatch nested (definingProductions extended))
              (core.tokens ++ behind :: rest) (some core) (behind :: rest) :=
            yields_chosen hcomplete hcore.chosen_definition (fun _ => isDecided_defining) (by omega)
          have hrest := ih hothers (by omega) (by omega)
          obtain ⟨token, tokens, htokens, htoken⟩ := head_definition hcore
          rw [← hbehind, htokens, List.cons_append] at hfound
          rw [htokens, List.cons_append]
          refine (yields_extendedAttributes hcomplete hattributes (by omega) htoken).bind ?_
          exact hfound.bind (hrest.bind (yields_pure _))

/-- The definitions of a text, and the end of the text behind them. -/
theorem Grammar.yields_definitions (hcomplete : Complete extended scope depth nested)
    {productions : List Production}
    (hproductions : productions ++ standardDefinitions = definingProductions extended)
    {nodes : List Node} {last : Token} (hlast : last.kind = .eof)
    (hnodes : ∀ node ∈ nodes, Conforms extended { symbol := .definition } node)
    (hdepth : 2 * (nodes.flatMap Node.tokens).length + 2 ≤ depth) :
    Yields scope (definitions nested productions) (nodes.flatMap Node.tokens ++ [last])
      (nodes ++ [Node.ofEof last]) [] := by
  have hfound : Yields scope (definitionsFrom nested (productions ++ standardDefinitions)
      (scope.source.tokens.size + 1)) (nodes.flatMap Node.tokens ++ [last]) nodes [last] := by
    intro cursor hcursor
    have hlength := congrArg List.length hcursor
    simp only [Scope.rest, List.length_drop, List.length_append, List.length_cons,
      Array.length_toList] at hlength
    have hshort := length_le_of_written fun node hnode => (hnodes node hnode).tokens_ne_nil rfl
    rw [hproductions]
    exact yields_definitionsFrom hcomplete hlast hnodes hdepth (by omega) cursor hcursor
  have hclosing : Yields scope (ofKind? [.eof]) [last] (some last) [] := by
    intro cursor hcursor
    have htoken : scope.source.tokens[cursor.position]? = some last := by
      rw [← Scope.head?_rest, hcursor]
      rfl
    refine ⟨{ cursor with position := cursor.position + 1 }, ?_, ?_⟩
    · simp [ofKind?, takeIf, htoken, hlast]
    · have hcons := Scope.rest_eq_cons htoken
        (rfl : ({ cursor with position := cursor.position + 1 } : Cursor).position = _)
      rw [hcursor] at hcons
      exact (List.cons.inj hcons).2.symm
  exact yields_size_bind (hfound.bind ((hclosing.expect _).bind (yields_pure _)))

/-- A text whose tokens are those of definitions of the grammar is parsed as these definitions. -/
theorem Grammar.definitions_of_conforms (hextensions : scope.extensions = extensionsOf extended)
    {productions : List Production}
    (hproductions : productions ++ standardDefinitions = definingProductions extended)
    {nodes : List Node} {last : Token} (hlast : last.kind = .eof)
    (hnodes : ∀ node ∈ nodes, Conforms extended { symbol := .definition } node)
    (htokens : scope.source.tokens.toList = nodes.flatMap Node.tokens ++ [last]) :
    ∃ moved, recursively (fun nested => definitions nested productions) scope {} =
      .ok (nodes ++ [Node.ofEof last]) moved := by
  have hsize := congrArg List.length htokens
  simp only [Array.length_toList, List.length_append, List.length_singleton] at hsize
  have hdefinitions : Yields scope
      (definitions (Production.parseTo (depthFor scope.source.tokens.size)) productions)
      (nodes.flatMap Node.tokens ++ [last]) (nodes ++ [Node.ofEof last]) [] := by
    refine yields_definitions (Production.complete_parseTo hextensions _) hproductions hlast hnodes ?_
    simp only [depthFor]
    omega
  obtain ⟨moved, hmoved, -⟩ := hdefinitions {} (by simpa [Scope.rest] using htokens)
  exact ⟨moved, recursively_eq_ok.mpr hmoved⟩

end

end WebIdl
