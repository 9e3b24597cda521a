import WebIdl.Proofs.Complete.Types

/-!
# The productions of members find every member

Arguments, and what may stand between the braces of a definition.  A production whose words come
before the construct proper is treated in two steps: first what stands behind the words, for any
words before it, and then the words of each form.
-/

namespace WebIdl.Grammar

open WebIdl.Parser WebIdl.Shape

section

variable {extended : Bool} {scope : Scope} {depth : Nat}
  {nested : Production → Parser (Option Node)} {node : Node} {next : Token} {more : List Token}

/-! ## Defaults and arguments -/

theorem yields_default (h : Conforms extended { symbol := .default } node) :
    Yields scope default (node.tokens ++ more) (some node) more := by
  cases h with
  | mk hform hparts =>
      simp only [Symbol.forms, Symbol.ownForms, defaultForms, List.mem_cons, List.not_mem_nil,
        or_false] at hform
      rcases hform with rfl | rfl | rfl
      · -- a single value
        obtain ⟨assign, rest, rfl, hassign, hrest⟩ := fits_token.mp hparts
        obtain ⟨value, rest, rfl, hvalue, hrest⟩ := fits_token.mp hrest
        obtain rfl := fits_nil.mp hrest
        obtain ⟨hvalue, hspelling⟩ := accepts_default.mp hvalue
        simp only [Bool.and_eq_true, bne_iff_ne, ne_eq] at hspelling
        have hclosing : Yields scope (defaultClosing value) more none more := by
          simp only [defaultClosing, beq_iff_eq, hspelling.1, hspelling.2, if_false]
          exact yields_pure none
        refine (oneOf_inline? _).yields_bind hassign ?_
        exact oneOf_defaultValue.yields_expect_bind hvalue (hclosing.bind (yields_pure _))
      · -- the empty sequence
        obtain ⟨assign, rest, rfl, hassign, hrest⟩ := fits_token.mp hparts
        obtain ⟨value, rest, rfl, hvalue, hrest⟩ := fits_token.mp hrest
        obtain ⟨closing, rest, rfl, hclosing, hrest⟩ := fits_token.mp hrest
        obtain rfl := fits_nil.mp hrest
        obtain ⟨hvalue, hspelling⟩ := accepts_default.mp hvalue
        have hclosing : Yields scope (defaultClosing value) (closing :: more) (some closing)
            more := by
          simp only [defaultClosing, hspelling, if_true]
          exact (oneOf_inline? _).yields_expect_bind hclosing (yields_pure _)
        refine (oneOf_inline? _).yields_bind hassign ?_
        exact oneOf_defaultValue.yields_expect_bind hvalue (hclosing.bind (yields_pure _))
      · -- the empty dictionary, told from the sequence by its bracket
        obtain ⟨assign, rest, rfl, hassign, hrest⟩ := fits_token.mp hparts
        obtain ⟨value, rest, rfl, hvalue, hrest⟩ := fits_token.mp hrest
        obtain ⟨closing, rest, rfl, hclosing, hrest⟩ := fits_token.mp hrest
        obtain rfl := fits_nil.mp hrest
        obtain ⟨hvalue, hspelling⟩ := accepts_default.mp hvalue
        have hbracket : (value.text == "[") = false := by
          rw [beq_iff_eq.mp hspelling]
          decide
        have hclosing : Yields scope (defaultClosing value) (closing :: more) (some closing)
            more := by
          simp only [defaultClosing, hspelling, hbracket, Bool.false_eq_true, if_false, if_true]
          exact (oneOf_inline? _).yields_expect_bind hclosing (yields_pure _)
        refine (oneOf_inline? _).yields_bind hassign ?_
        exact oneOf_defaultValue.yields_expect_bind hvalue (hclosing.bind (yields_pure _))

/-- A default value, or none where no equals sign follows. -/
theorem yields_default? {value : Option Node}
    (hvalue : ∀ node ∈ value, Conforms extended { symbol := .default } node)
    (hnext : (Terminal.word "=").accepts next = false) :
    Yields scope default (value.toList.flatMap Node.tokens ++ next :: more) value
      (next :: more) := by
  cases value with
  | none => exact (oneOf_inline? _).yields_bind_none hnext (yields_pure none)
  | some value => simpa using yields_default (hvalue value rfl)

/-- A type begins with a word of types or with the bracket of its attributes. -/
theorem begins_attributedType {place : Option String} {limit : Limit}
    (h : Conforms extended { symbol := .type place limit } node) :
    Begins { kinds := [.identifier], words := "[" :: typeWords } node.tokens := by
  rcases h.never_or_always (attributed_type _ _) with hnever | halways
  · exact hnever.begins_type.within rfl
  · obtain ⟨opening, rest, htokens, hopening⟩ := halways.tokens_always (attributed_type _ _)
    exact ⟨opening, rest, htokens, Terminal.accepts_of_within rfl hopening⟩

theorem yields_argument (hcomplete : Complete extended scope depth nested)
    (h : Conforms extended { symbol := .argument } node) (hdepth : 2 * node.tokens.length ≤ depth)
    (hnext : (Terminal.word "=").accepts next = false) :
    Yields scope (argument nested) (node.tokens ++ next :: more) (some node) (next :: more) := by
  refine Yields.rewinding ?_
  cases h with
  | mk hform hparts =>
      simp only [Symbol.forms, Symbol.ownForms, argumentForms, List.mem_cons, List.not_mem_nil,
        or_false] at hform
      rcases hform with rfl | rfl
      · -- an optional argument, where a default value may follow the name
        obtain ⟨attributes, rest, rfl, hattributes, hrest⟩ := fits_node.mp hparts
        obtain ⟨optional, rest, rfl, hoptional, hrest⟩ := fits_token.mp hrest
        obtain ⟨type, rest, rfl, htype, hrest⟩ := fits_node.mp hrest
        obtain ⟨name, rest, rfl, hname, hrest⟩ := fits_token.mp hrest
        obtain ⟨value, rest, rfl, hvalue, hrest⟩ := fits_nodeOption.mp hrest
        obtain rfl := fits_nil.mp hrest
        simp only [Node.tokens, tokensOf, tokensOf_append, tokensOf_ofNode?, List.length_cons,
          List.length_append, List.cons_append, List.append_assoc, List.nil_append] at hdepth ⊢
        refine (yields_extendedAttributes hcomplete hattributes (by omega)
          (Terminal.rejects_of_avoids rfl hoptional)).bind ?_
        refine (oneOf_inline? _).yields_bind hoptional ?_
        refine (yields_attributedType hcomplete htype (by omega)
          (goesOn_eq_false (Terminal.rejects_of_avoids rfl hname) type)).bind ?_
        refine (yields_when?_false rfl).bind ?_
        refine (oneOf_name _).yields_bind hname ?_
        refine ((yields_default? hvalue hnext).when? rfl).bind ?_
        simpa [Form.label, Part.ofToken?] using yields_pure _
      · -- an argument that is not optional but may be variadic
        obtain ⟨attributes, rest, rfl, hattributes, hrest⟩ := fits_node.mp hparts
        obtain ⟨type, rest, rfl, htype, hrest⟩ := fits_node.mp hrest
        obtain ⟨variadic, rest, rfl, hvariadic, hrest⟩ := fits_option.mp hrest
        obtain ⟨name, rest, rfl, hname, hrest⟩ := fits_token.mp hrest
        obtain rfl := fits_nil.mp hrest
        simp only [Node.tokens, tokensOf, tokensOf_append, tokensOf_ofToken?, List.length_cons,
          List.length_append, List.cons_append, List.append_assoc, List.nil_append] at hdepth ⊢
        -- the dots or the name stand behind the type
        obtain ⟨behind, others, hbehind, hrejected⟩ : ∃ behind others,
            variadic.toList ++ name :: next :: more = behind :: others ∧
            Terminal.accepts { words := ["?", "<", "long"] } behind = false := by
          cases variadic with
          | none => exact ⟨name, _, rfl, Terminal.rejects_of_avoids rfl hname⟩
          | some variadic =>
              exact ⟨variadic, _, rfl, Terminal.rejects_of_avoids rfl (hvariadic variadic rfl)⟩
        have hfound : Yields scope (attributedType nested (some "argument-type"))
            (type.tokens ++ (variadic.toList ++ name :: next :: more)) (some type)
            (variadic.toList ++ name :: next :: more) := by
          rw [hbehind]
          exact yields_attributedType hcomplete htype (by omega) (goesOn_eq_false hrejected type)
        -- the type opens with neither a bracket nor `optional`, so the parsers in front of it pass
        obtain ⟨token, others, htokens, htoken⟩ := htype.begins_type
        rw [htokens, List.cons_append] at hfound ⊢
        refine (yields_extendedAttributes hcomplete hattributes (by omega)
          (Terminal.rejects_of_avoids rfl htoken)).bind ?_
        refine (oneOf_inline? _).yields_bind_none (Terminal.rejects_of_avoids rfl htoken) ?_
        refine hfound.bind ?_
        refine (oneOf_inline? _).yields_when?_bind variadic hvariadic (fun _ => rfl)
          (fun _ => ⟨name, _, rfl, Terminal.rejects_of_avoids rfl hname⟩) ?_
        refine (oneOf_name _).yields_bind hname ?_
        refine (yields_when?_false rfl).bind ?_
        simpa [Form.label, Part.ofToken?, Part.ofNode?] using yields_pure _

theorem yields_argument_none (hcomplete : Complete extended scope depth nested)
    (hdepth : 1 ≤ depth) {token : Token}
    (h : Terminal.accepts { kinds := [.identifier], words := "[" :: "optional" :: typeWords }
      token = false) :
    Yields scope (argument nested) (token :: more) none (token :: more) := by
  have hattributes : Yields scope (extendedAttributes nested) (token :: more) Node.noAttributes
      (token :: more) :=
    yields_extendedAttributes_none (Terminal.rejects_of_within h rfl)
  have htype : Yields scope (attributedType nested (some "argument-type")) (token :: more) none
      (token :: more) :=
    yields_attributedType_none hcomplete hdepth (Terminal.rejects_of_within h rfl)
  refine Yields.rewinding_none (?_ : Yields scope _ _ _ (token :: more))
  refine hattributes.bind ((oneOf_inline? _).yields_bind_none (Terminal.rejects_of_within h rfl) ?_)
  exact htype.bind (yields_pure none)

/-! ## Attributes -/

/-- What an attribute is behind its words.  The word before it may have been given. -/
theorem yields_attributeMember (hcomplete : Complete extended scope depth nested)
    (inherit : Option Token) {given readonly : Option Token} {noInherit mustBeReadonly : Bool}
    {parts : List Part}
    (hinherit : ∀ token ∈ inherit, (Terminal.word "inherit").accepts token = true)
    (hreadonly : ∀ token ∈ readonly, (Terminal.word "readonly").accepts token = true)
    (hparts : Fits (Conforms extended) (attributeForm []).slots parts)
    (hgiven : ∀ token ∈ given, token.text ≠ "inherit")
    (hsome : inherit.isSome → given = none ∧ noInherit = false ∧ readonly = none)
    (hmust : mustBeReadonly → readonly.isSome)
    (hdepth : 2 * (tokensOf parts).length ≤ depth) :
    Yields scope (attributeMember nested given noInherit mustBeReadonly)
      (inherit.toList ++ (readonly.toList ++ (tokensOf parts ++ more)))
      (some (.mk { construct := .attribute } (bare :: (Part.ofToken? .special (given <|> inherit) ++
        (Part.ofToken? .readonly readonly ++ parts))))) more := by
  obtain ⟨base, rest, rfl, hbase, hrest⟩ := fits_token.mp hparts
  obtain ⟨type, rest, rfl, htype, hrest⟩ := fits_node.mp hrest
  obtain ⟨name, rest, rfl, hname, hrest⟩ := fits_token.mp hrest
  obtain ⟨termination, rest, rfl, htermination, hrest⟩ := fits_token.mp hrest
  obtain rfl := fits_nil.mp hrest
  simp only [tokensOf, List.length_cons, List.length_append, List.cons_append, List.append_assoc,
    List.nil_append] at hdepth ⊢
  -- The token behind `inherit` is `readonly` or `attribute`.
  obtain ⟨head, others, hhead, hrejected, hsame⟩ : ∃ head others,
      readonly.toList ++ base :: (type.tokens ++ name :: termination :: more) = head :: others ∧
      (Terminal.word "inherit").accepts head = false ∧
      head.isInline "readonly" = readonly.isSome := by
    cases readonly with
    | none =>
        refine ⟨base, _, rfl, Terminal.rejects_of_avoids rfl hbase, ?_⟩
        rw [isInline_eq]
        exact Terminal.rejects_of_avoids rfl hbase
    | some readonly =>
        refine ⟨readonly, _, rfl, Terminal.rejects_of_avoids rfl (hreadonly readonly rfl), ?_⟩
        rw [isInline_eq]
        exact hreadonly readonly rfl
  refine Yields.rewinding ?_
  refine (oneOf_inline? _).yields_when?_bind inherit hinherit (fun h => ?_)
    (fun _ => ⟨head, others, hhead, hrejected⟩) ?_
  · simp [(hsome h).1, (hsome h).2.1]
  rw [hhead]
  refine yields_nextIs_bind (yields_refuse_bind ?_ ?_)
  · rw [hsame, Bool.and_eq_false_iff]
    cases inherit with
    | some inherit => exact Or.inr (by simp [(hsome rfl).2.2])
    | none =>
        refine Or.inl ?_
        cases given with
        | none => rfl
        | some given => simpa using hgiven given rfl
  rw [← hhead]
  refine (oneOf_inline? _).yields_option_bind hreadonly
    (fun _ => ⟨base, _, rfl, Terminal.rejects_of_avoids rfl hbase⟩) ?_
  refine yields_nextIs_bind (yields_refuse_bind ?_ ?_)
  · cases mustBeReadonly with
    | false => rfl
    | true => simp [Option.isSome_iff_ne_none.mp (hmust rfl)]
  refine (oneOf_inline? _).yields_bind hbase ?_
  have hfound : Yields scope (attributedType nested (some "attribute-type"))
      (type.tokens ++ name :: termination :: more) (some type) (name :: termination :: more) :=
    yields_attributedType hcomplete htype (by omega)
      (goesOn_eq_false (Terminal.rejects_of_avoids rfl hname) type)
  refine (hfound.expect _).bind ?_
  refine (oneOf_name _).yields_expect_bind hname ?_
  refine (oneOf_inline? _).yields_expect_bind htermination ?_
  simpa using yields_pure _

theorem yields_attributeMember_none {given : Option Token} {noInherit mustBeReadonly : Bool}
    {token : Token}
    (h : Terminal.accepts { words := ["inherit", "readonly", "attribute"] } token = false) :
    Yields scope (attributeMember nested given noInherit mustBeReadonly) (token :: more) none
      (token :: more) := by
  refine Yields.rewinding_none (?_ : Yields scope _ _ _ (token :: more))
  refine (oneOf_inline? _).yields_when?_bind none (by simp) (by simp)
    (fun _ => ⟨token, more, rfl, Terminal.rejects_of_within h rfl⟩) ?_
  refine yields_nextIs_bind (yields_refuse_bind ?_ ?_)
  · rw [isInline_eq, Terminal.rejects_of_within h rfl, Bool.and_false]
  refine (oneOf_inline? _).yields_bind_none (Terminal.rejects_of_within h rfl) ?_
  refine yields_nextIs_bind (yields_refuse_bind ?_ ?_)
  · rw [isInline_eq, Terminal.rejects_of_within h rfl, Bool.and_false]
  exact (oneOf_inline? _).yields_bind_none (Terminal.rejects_of_within h rfl) (yields_pure none)

theorem yields_attribute (hcomplete : Complete extended scope depth nested)
    {noInherit mustBeReadonly : Bool}
    (h : Conforms extended { symbol := .attribute noInherit mustBeReadonly, mode := .never } node)
    (hdepth : 2 * node.tokens.length ≤ depth) :
    Yields scope (attributeMember nested none noInherit mustBeReadonly) (node.tokens ++ more)
      (some node) more := by
  obtain ⟨special, readonly, parts, rfl, hspecial, hreadonly, hparts, hsome, hmust⟩ :=
    h.split_attribute
  simp only [bare, Node.tokens, tokensOf, Node.tokens_noAttributes, tokensOf_append, tokensOf_ofToken?,
    List.length_append, List.append_assoc, List.nil_append] at hdepth ⊢
  exact yields_attributeMember hcomplete special hspecial hreadonly hparts (by simp)
    (fun h => ⟨rfl, (hsome h).1, (hsome h).2.2⟩) hmust (by omega)

/-! ## Operations -/

theorem yields_operationBody (hcomplete : Complete extended scope depth nested)
    {construct : Construct} {special : Option Token} {parts : List Part}
    (hparts : Fits (Conforms extended) (operationForm construct .all []).slots parts)
    (hdepth : 2 * (tokensOf parts).length ≤ depth) :
    Yields scope (operationBody nested construct special) (tokensOf parts ++ more)
      (.mk { construct } (bare :: (Part.ofToken? .special special ++ parts))) more := by
  obtain ⟨type, rest, rfl, htype, hrest⟩ := fits_node.mp hparts
  obtain ⟨name, rest, rfl, hname, hrest⟩ := fits_option.mp hrest
  obtain ⟨opening, rest, rfl, hopening, hrest⟩ := fits_token.mp hrest
  obtain ⟨arguments, rest, rfl, harguments, -, hrest⟩ := fits_list.mp hrest
  obtain ⟨closing, rest, rfl, hclosing, hrest⟩ := fits_token.mp hrest
  obtain ⟨termination, rest, rfl, htermination, hrest⟩ := fits_token.mp hrest
  obtain rfl := fits_nil.mp hrest
  simp only [tokensOf, tokensOf_append, tokensOf_ofToken?, tokensOf_ofNodes, List.length_cons,
    List.length_append, List.cons_append, List.append_assoc, List.nil_append] at hdepth ⊢
  -- the name may be missing, so the bracket can stand behind the type
  obtain ⟨behind, others, hbehind, hrejected⟩ : ∃ behind others,
      name.toList ++ opening :: (arguments.flatMap Node.tokens ++ closing :: termination :: more) =
        behind :: others ∧ Terminal.accepts { words := ["?", "<", "long"] } behind = false := by
    cases name with
    | none => exact ⟨opening, _, rfl, Terminal.rejects_of_avoids rfl hopening⟩
    | some name => exact ⟨name, _, rfl, Terminal.rejects_of_avoids rfl (hname name rfl)⟩
  have hfound : Yields scope (returnType nested none) (type.tokens ++ behind :: others) (some type)
      (behind :: others) :=
    yields_returnType hcomplete htype (by omega) hrejected
  rw [← hbehind] at hfound
  refine (hfound.expect _).bind ?_
  refine (oneOf_name _).yields_option_bind hname
    (fun _ => ⟨opening, _, rfl, Terminal.rejects_of_avoids rfl hopening⟩) ?_
  refine (oneOf_inline? _).yields_expect_bind hopening ?_
  refine (yields_argumentList hcomplete harguments (by omega) hclosing).bind ?_
  refine (oneOf_inline? _).yields_expect_bind hclosing ?_
  refine (oneOf_inline? _).yields_expect_bind htermination ?_
  simpa using yields_pure _

/-- What stands behind the words of an operation begins with its type. -/
theorem begins_operationBody (construct : Construct) {parts : List Part}
    (hparts : Fits (Conforms extended) (operationForm construct .all []).slots parts) :
    Begins { kinds := [.identifier], words := "void" :: typeWords } (tokensOf parts) :=
  hparts.begins (fun hconforms => hconforms.begins_heads) rfl

theorem yields_specialOperation (hcomplete : Complete extended scope depth nested)
    {construct : Construct} {special : Token} {parts : List Part}
    (hparts : Fits (Conforms extended) (operationForm construct .all []).slots parts)
    (hdepth : 2 * (tokensOf parts).length ≤ depth) :
    Yields scope (specialOperation nested construct special) (tokensOf parts ++ more)
      (.mk { construct } (bare :: .token .special special :: parts)) more := by
  have hbody : Yields scope (operationBody nested construct (some special)) (tokensOf parts ++ more)
      (.mk { construct } (bare :: .token .special special :: parts)) more :=
    yields_operationBody hcomplete hparts hdepth
  obtain ⟨token, rest, htokens, htoken⟩ := begins_operationBody construct hparts
  rw [htokens, List.cons_append] at hbody ⊢
  exact (oneOf_inline? _).yields_when?_bind none (by simp) (by simp)
    (fun _ => ⟨token, _, rfl, Terminal.rejects_of_avoids rfl htoken⟩) hbody

theorem yields_operation (hcomplete : Complete extended scope depth nested) {isRegular : Bool}
    (h : Conforms extended { symbol := .operation isRegular .all, mode := .never } node)
    (hdepth : 2 * node.tokens.length ≤ depth) :
    Yields scope (operation nested isRegular) (node.tokens ++ more) node more := by
  obtain ⟨form, hform, parts, rfl, htokens, hparts⟩ :=
    h.split_form (by cases isRegular <;> rfl)
  rw [htokens] at hdepth ⊢
  rcases List.mem_append.mp hform with hspecial | hplain
  · cases isRegular with
    | true => cases hspecial
    | false =>
        obtain rfl := List.mem_singleton.mp hspecial
        obtain ⟨special, rest, rfl, hspecial, hrest⟩ := fits_token.mp hparts
        simp only [tokensOf, List.length_cons] at hdepth
        refine (((oneOf_inline? _).yields_some hspecial).when? rfl).bind ?_
        exact yields_operationBody hcomplete hrest (by omega)
  · obtain rfl := List.mem_singleton.mp hplain
    have hbody : Yields scope (operationBody nested .operation none) (tokensOf parts ++ more)
        (.mk (operationForm .operation .all []).label (bare :: parts)) more :=
      yields_operationBody hcomplete hparts hdepth
    obtain ⟨token, rest, htoken, haccepts⟩ := begins_operationBody .operation hparts
    rw [htoken, List.cons_append] at hbody ⊢
    exact (oneOf_inline? _).yields_when?_bind none (by simp) (by simp)
      (fun _ => ⟨token, _, rfl, Terminal.rejects_of_avoids rfl haccepts⟩) hbody

theorem yields_specialMember (hcomplete : Complete extended scope depth nested) {word : String}
    (hword : word ≠ "inherit")
    (h : Conforms extended { symbol := .special word, mode := .never } node)
    (hdepth : 2 * node.tokens.length ≤ depth) :
    Yields scope (specialMember nested word) (node.tokens ++ more) (some node) more := by
  have hattributed : (Symbol.special word).Attributed extended := by
    simp only [Symbol.Attributed, Symbol.forms, Symbol.ownForms, specialForms]
    split <;> rfl
  obtain ⟨form, hform, parts, rfl, htokens, hparts⟩ := h.split_form hattributed
  rw [htokens] at hdepth ⊢
  -- only `stringifier` has a form of its own beside the attribute and the operation
  rcases List.mem_append.mp hform with hform | hstringifier
  · simp only [List.mem_cons, List.not_mem_nil, or_false] at hform
    rcases hform with rfl | rfl
    · -- an attribute
      obtain ⟨special, rest, rfl, hspecial, hrest⟩ := fits_token.mp hparts
      obtain ⟨readonly, rest, rfl, hreadonly, hrest⟩ := fits_option.mp hrest
      simp only [tokensOf, tokensOf_append, tokensOf_ofToken?, List.length_cons,
        List.length_append, List.cons_append, List.append_assoc] at hdepth ⊢
      have hgiven : ∀ token ∈ some special, token.text ≠ "inherit" := by
        simpa [(accepts_word.mp hspecial).2] using hword
      have hattribute : Yields scope (attributeMember nested (some special) false false)
          (readonly.toList ++ (tokensOf rest ++ more))
          (some (.mk { construct := .attribute } (bare :: .token .special special ::
            (Part.ofToken? .readonly readonly ++ rest)))) more :=
        yields_attributeMember hcomplete none (by simp) hreadonly hrest hgiven
          (by simp) (by simp) (by omega)
      exact (oneOf_inline? _).yields_bind hspecial (hattribute.bind (yields_pure _))
    · -- an operation, which the parser of attributes declines first
      obtain ⟨special, rest, rfl, hspecial, hrest⟩ := fits_token.mp hparts
      simp only [tokensOf, List.length_cons, List.cons_append] at hdepth ⊢
      have hoperation : Yields scope (specialOperation nested .operation special)
          (tokensOf rest ++ more) _ more :=
        yields_specialOperation hcomplete hrest (by omega)
      obtain ⟨token, others, htoken, haccepts⟩ := begins_operationBody .operation hrest
      rw [htoken, List.cons_append] at hoperation ⊢
      refine (oneOf_inline? _).yields_bind hspecial ?_
      refine (yields_attributeMember_none (Terminal.rejects_of_avoids rfl haccepts)).bind ?_
      exact hoperation.bind (yields_pure _)
  · split at hstringifier
    · rename_i hsame
      obtain rfl := List.mem_singleton.mp hstringifier
      obtain ⟨special, rest, rfl, hspecial, hrest⟩ := fits_token.mp hparts
      obtain ⟨termination, rest, rfl, htermination, hrest⟩ := fits_token.mp hrest
      obtain rfl := fits_nil.mp hrest
      have htext : (special.text == "stringifier") = true := by
        rw [(accepts_word.mp hspecial).2, hsame]
      have hoperation : Yields scope (specialOperation nested .operation special)
          (termination :: more) _ more :=
        (((oneOf_inline? _).yields_some htermination).when? htext).bind (yields_pure _)
      refine (oneOf_inline? _).yields_bind hspecial ?_
      refine (yields_attributeMember_none (Terminal.rejects_of_avoids rfl htermination)).bind ?_
      exact hoperation.bind (yields_pure _)
    · cases hstringifier

/-! ## Constants and constructors -/

theorem yields_constantType {type : Node}
    (h : Conforms extended { symbol := .constantType, mode := .never } type)
    (hnext : (Terminal.word "long").accepts next = false) :
    ∃ found, found.withPlace (some "const-type") = type ∧
      Yields scope (either primitiveType (oneWord (ofKind? [.identifier])))
        (type.tokens ++ next :: more) (some found) (next :: more) := by
  obtain ⟨form, hform, parts, rfl, htokens, hparts⟩ := h.split_form rfl
  rw [htokens]
  refine ⟨typeNode none parts, ?_⟩
  rcases List.mem_append.mp hform with hprimitive | hnamed
  · obtain ⟨stem, hstem, hform⟩ := List.mem_flatMap.mp hprimitive
    obtain ⟨slots, hslots, rfl⟩ := List.mem_map.mp hform
    have hconstruct : stem.construct = .type := by
      simp only [List.mem_cons, List.not_mem_nil, or_false] at hstem
      rcases hstem with rfl | rfl | rfl <;> rfl
    rw [← isInline_eq] at hnext
    refine ⟨?_, (yields_primitiveType hstem hslots hparts fun _ => hnext).either_left⟩
    simp [typeNode, Node.withPlace, Form.label, hconstruct, constantPlace, Construct.isType]
  · obtain rfl := List.mem_singleton.mp hnamed
    obtain ⟨base, rest, rfl, hbase, hrest⟩ := fits_token.mp hparts
    obtain rfl := fits_nil.mp hrest
    refine ⟨rfl, ?_⟩
    refine (yields_primitiveType_none (Terminal.rejects_of_avoids rfl hbase)).either_right ?_
    exact yields_oneWord oneOf_identifier hbase

theorem yields_constant (h : Conforms extended { symbol := .constant, mode := .never } node) :
    Yields scope constant (node.tokens ++ more) (some node) more := by
  obtain ⟨form, hform, parts, rfl, htokens, hparts⟩ := h.split_form rfl
  rw [htokens]
  obtain rfl := List.mem_singleton.mp hform
  obtain ⟨base, rest, rfl, hbase, hrest⟩ := fits_token.mp hparts
  obtain ⟨type, rest, rfl, htype, hrest⟩ := fits_node.mp hrest
  obtain ⟨name, rest, rfl, hname, hrest⟩ := fits_token.mp hrest
  obtain ⟨assign, rest, rfl, hassign, hrest⟩ := fits_token.mp hrest
  obtain ⟨value, rest, rfl, hvalue, hrest⟩ := fits_token.mp hrest
  obtain ⟨termination, rest, rfl, htermination, hrest⟩ := fits_token.mp hrest
  obtain rfl := fits_nil.mp hrest
  simp only [tokensOf, List.cons_append, List.append_assoc, List.nil_append]
  obtain ⟨found, rfl, hfound⟩ := yields_constantType htype (Terminal.rejects_of_avoids rfl hname)
  refine (oneOf_inline? _).yields_bind hbase ((hfound.expect _).bind ?_)
  refine yields_nextIs_bind (yields_refuse_bind ?_ ?_)
  · rw [isInline_eq]
    exact Terminal.rejects_of_avoids rfl hname
  refine oneOf_identifier.yields_expect_bind hname ?_
  refine (oneOf_inline? _).yields_expect_bind hassign ?_
  refine oneOf_constantValue.yields_expect_bind hvalue ?_
  exact (oneOf_inline? _).yields_expect_bind htermination (yields_pure _)

theorem yields_constructor (hcomplete : Complete extended scope depth nested)
    (h : Conforms extended { symbol := .constructor, mode := .never } node)
    (hdepth : 2 * node.tokens.length ≤ depth) :
    Yields scope (constructor nested) (node.tokens ++ more) (some node) more := by
  obtain ⟨form, hform, parts, rfl, htokens, hparts⟩ := h.split_form rfl
  rw [htokens] at hdepth ⊢
  obtain rfl := List.mem_singleton.mp hform
  obtain ⟨base, rest, rfl, hbase, hrest⟩ := fits_token.mp hparts
  obtain ⟨opening, rest, rfl, hopening, hrest⟩ := fits_token.mp hrest
  obtain ⟨arguments, rest, rfl, harguments, -, hrest⟩ := fits_list.mp hrest
  obtain ⟨closing, rest, rfl, hclosing, hrest⟩ := fits_token.mp hrest
  obtain ⟨termination, rest, rfl, htermination, hrest⟩ := fits_token.mp hrest
  obtain rfl := fits_nil.mp hrest
  simp only [tokensOf, tokensOf_append, tokensOf_ofNodes, List.length_cons, List.length_append,
    List.cons_append, List.append_assoc, List.nil_append] at hdepth ⊢
  refine (oneOf_inline? _).yields_bind hbase ?_
  refine (oneOf_inline? _).yields_expect_bind hopening ?_
  refine (yields_argumentList hcomplete harguments (by omega) hclosing).bind ?_
  refine (oneOf_inline? _).yields_expect_bind hclosing ?_
  exact (oneOf_inline? _).yields_expect_bind htermination (yields_pure _)

/-! ## Collections -/

/-- The types of a collection: as many as its keyword takes. -/
theorem yields_typeArguments (hcomplete : Complete extended scope depth nested) {kind : String}
    {slots : List Slot} {parts : List Part} {closing : Token}
    (hslots : slots = oneType ∧ kind ≠ "maplike" ∨ slots = twoTypes ∧ kind ≠ "setlike")
    (hparts : Fits (Conforms extended) slots parts)
    (hdepth : 2 * (tokensOf parts).length < depth)
    (hclosing : (Terminal.word ">").accepts closing = true) :
    ∃ types, parts = Part.ofNodes .typeArgument types ∧
      Yields scope (typeArguments nested kind) (tokensOf parts ++ closing :: more) types
        (closing :: more) := by
  have htype {type : Node} {behind : Token} {others : List Token} {problem : Problem}
      (htype : Conforms extended { symbol := .type none .all } type)
      (hlength : 2 * type.tokens.length < depth)
      (hbehind : Terminal.accepts { words := ["?", "<", "long"] } behind = false) :
      Yields scope (expect (attributedType nested none) problem) (type.tokens ++ behind :: others)
        type (behind :: others) :=
    (yields_attributedType hcomplete htype hlength (goesOn_eq_false hbehind type)).expect _
  rcases hslots with ⟨rfl, hkind⟩ | ⟨rfl, hkind⟩
  · obtain ⟨first, rest, rfl, hfirst, hrest⟩ := fits_node.mp hparts
    obtain rfl := fits_nil.mp hrest
    simp only [tokensOf, List.append_nil] at hdepth ⊢
    refine ⟨[first], rfl, ?_⟩
    refine (htype hfirst hdepth (Terminal.rejects_of_avoids rfl hclosing)).bind ?_
    refine (oneOf_inline? _).yields_when?_bind none (by simp) (by simp)
      (fun _ => ⟨closing, more, rfl, Terminal.rejects_of_avoids rfl hclosing⟩) ?_
    exact yields_refuse_bind (by simpa using hkind) (yields_pure _)
  · obtain ⟨first, rest, rfl, hfirst, hrest⟩ := fits_node.mp hparts
    obtain ⟨second, rest, rfl, hsecond, hrest⟩ := fits_node.mp hrest
    obtain rfl := fits_nil.mp hrest
    obtain ⟨first, comma, rfl, hcomma, hfirst⟩ := hfirst.split_separator
    simp only [tokensOf, Node.tokens_withSeparator, Option.toList_some, List.length_append,
      List.length_cons, List.append_assoc, List.cons_append, List.nil_append] at hdepth ⊢
    refine ⟨[first.withSeparator (some comma), second], rfl, ?_⟩
    refine (htype hfirst (by omega) (Terminal.rejects_of_avoids rfl hcomma)).bind ?_
    refine (((oneOf_inline? _).yields_some hcomma).when? (by simpa using hkind)).bind ?_
    exact (htype hsecond (by omega) (Terminal.rejects_of_avoids rfl hclosing)).bind (yields_pure _)

/-- The slots of the arguments of an asynchronous iterable. -/
def iterableArgumentSlots : List Slot :=
  [.word .argumentsOpening "(", .list .argument { symbol := .argument } "," 0 false,
    .word .argumentsClosing ")"]

theorem yields_iterableArguments (hcomplete : Complete extended scope depth nested)
    {allowed : Bool} {slots : List Slot} {parts : List Part} {termination : Token}
    (hslots : slots = [] ∨ slots = iterableArgumentSlots ∧ allowed = true)
    (hparts : Fits (Conforms extended) slots parts)
    (hdepth : 2 * (tokensOf parts).length ≤ depth)
    (htermination : (Terminal.word ";").accepts termination = true) :
    Yields scope (iterableArguments nested allowed) (tokensOf parts ++ termination :: more) parts
      (termination :: more) := by
  rcases hslots with rfl | ⟨rfl, rfl⟩
  · obtain rfl := fits_nil.mp hparts
    have hopening : (Terminal.word "(").accepts termination = false :=
      Terminal.rejects_of_avoids rfl htermination
    refine yields_nextIs_bind (yields_refuse_bind ?_ ?_)
    · rw [isInline_eq, hopening, Bool.false_and]
    · exact (oneOf_inline? _).yields_bind_none hopening (yields_pure [])
  · obtain ⟨opening, rest, rfl, hopening, hrest⟩ := fits_token.mp hparts
    obtain ⟨arguments, rest, rfl, harguments, -, hrest⟩ := fits_list.mp hrest
    obtain ⟨closing, rest, rfl, hclosing, hrest⟩ := fits_token.mp hrest
    obtain rfl := fits_nil.mp hrest
    simp only [tokensOf, tokensOf_append, tokensOf_ofNodes, List.length_cons, List.length_append,
      List.cons_append, List.append_assoc, List.nil_append] at hdepth ⊢
    refine yields_nextIs_bind (yields_refuse_bind (Bool.and_false _) ?_)
    refine (oneOf_inline? _).yields_bind hopening ?_
    refine (yields_argumentList hcomplete harguments (by omega) hclosing).bind ?_
    exact (oneOf_inline? _).yields_expect_bind hclosing (yields_pure _)

/-- A collection behind the words that have been read. -/
theorem yields_collectionForm (hcomplete : Complete extended scope depth nested)
    (readonly async : Option Token) {keyword : String} {types tail : List Slot} {parts : List Part}
    (hreadonly : ∀ token ∈ readonly, (Terminal.word "readonly").accepts token = true)
    (hasync : ∀ token ∈ async, (Terminal.word "async").accepts token = true)
    (halone : readonly.isSome → async = none)
    (hkeyword : keyword ∈ iterableWords readonly.isSome async.isSome)
    (hplain : keyword ∈ ["iterable", "maplike", "setlike"])
    (htypes : types = oneType ∧ keyword ≠ "maplike" ∨ types = twoTypes ∧ keyword ≠ "setlike")
    (htail : tail = [] ∨
      tail = iterableArgumentSlots ∧ (async.isSome && keyword == "iterable") = true)
    (hparts : Fits (Conforms extended) (collectionForm [] keyword types tail).slots parts)
    (hdepth : 2 * (tokensOf parts).length ≤ depth) :
    Yields scope (iterableLike nested)
      (readonly.toList ++ (async.toList ++ (tokensOf parts ++ more)))
      (some (.mk { construct := .iterableLike } (bare :: (Part.ofToken? .readonly readonly ++
        (Part.ofToken? .async async ++ parts))))) more := by
  -- the form is taken apart from its end, where the arguments may be missing
  obtain ⟨front, ending, rfl, hfront, hending⟩ := fits_append.mp hparts
  obtain ⟨termination, rest, rfl, htermination, hrest⟩ := fits_token.mp hending
  obtain rfl := fits_nil.mp hrest
  obtain ⟨front, back, rfl, hwords, hback⟩ := fits_append.mp hfront
  obtain ⟨closing, arguments, rfl, hclosing, harguments⟩ := fits_token.mp hback
  obtain ⟨base, rest, rfl, hbase, hrest⟩ := fits_token.mp hwords
  obtain ⟨opening, rest, rfl, hopening, htypeParts⟩ := fits_token.mp hrest
  have htext := (accepts_word.mp hbase).2
  simp only [tokensOf, tokensOf_append, List.length_cons, List.length_append, List.cons_append,
    List.append_assoc, List.nil_append] at hdepth ⊢
  have hword : Terminal.accepts { words := ["iterable", "maplike", "setlike"] } base = true :=
    accepts_words.mpr ⟨(accepts_word.mp hbase).1, htext ▸ hplain⟩
  obtain ⟨nodes, rfl, hnodes⟩ : ∃ nodes, rest = Part.ofNodes .typeArgument nodes ∧
      Yields scope (typeArguments nested base.text)
        (tokensOf rest ++ closing :: (tokensOf arguments ++ termination :: more)) nodes
        (closing :: (tokensOf arguments ++ termination :: more)) :=
    yields_typeArguments hcomplete (htext ▸ htypes) htypeParts (by omega) hclosing
  -- `readonly` and `async` are optional and never stand together
  refine Yields.rewinding ?_
  refine (oneOf_inline? _).yields_option_bind hreadonly (fun _ => ?_) ?_
  · cases async with
    | none => exact ⟨base, _, rfl, Terminal.rejects_of_avoids rfl hword⟩
    | some async => exact ⟨async, _, rfl, Terminal.rejects_of_avoids rfl (hasync async rfl)⟩
  refine (oneOf_inline? _).yields_when?_bind async hasync (fun hsome => ?_)
    (fun _ => ⟨base, _, rfl, Terminal.rejects_of_avoids rfl hword⟩) ?_
  · cases readonly with
    | none => rfl
    | some readonly => simp [halone rfl] at hsome
  refine (oneOf_inline? _).yields_bind
    (accepts_words.mpr ⟨(accepts_word.mp hbase).1, htext ▸ hkeyword⟩) ?_
  refine (oneOf_inline? _).yields_expect_bind hopening (hnodes.bind ?_)
  refine (oneOf_inline? _).yields_expect_bind hclosing ?_
  refine (yields_iterableArguments hcomplete (htext ▸ htail) harguments (by omega)
    htermination).bind ?_
  refine (oneOf_inline? _).yields_expect_bind htermination ?_
  simpa using yields_pure _

theorem yields_asyncIterable (hcomplete : Complete extended scope depth nested)
    {types tail : List Slot} {parts : List Part} (htypes : types = oneType ∨ types = twoTypes)
    (htail : tail = [] ∨ tail = iterableArgumentSlots)
    (hparts : Fits (Conforms extended)
      (collectionForm [.word .async "async"] "iterable" types tail).slots parts)
    (hdepth : 2 * (tokensOf parts).length ≤ depth) :
    Yields scope (iterableLike nested) (tokensOf parts ++ more)
      (some (.mk { construct := .iterableLike } (bare :: parts))) more := by
  obtain ⟨async, rest, rfl, hasync, hrest⟩ := fits_token.mp hparts
  simp only [tokensOf, List.length_cons] at hdepth
  refine yields_collectionForm hcomplete none (some async) (by simp) ?_ (by simp)
    (List.mem_singleton_self _) (by decide) ?_ (htail.imp_right fun h => ⟨h, rfl⟩) hrest (by omega)
  · rintro _ ⟨⟩
    exact hasync
  · exact htypes.imp (fun h => ⟨h, by decide⟩) fun h => ⟨h, by decide⟩

theorem yields_iterableLike (hcomplete : Complete extended scope depth nested)
    (h : Conforms extended { symbol := .iterableLike, mode := .never } node)
    (hdepth : 2 * node.tokens.length ≤ depth) :
    Yields scope (iterableLike nested) (node.tokens ++ more) (some node) more := by
  obtain ⟨form, hform, parts, rfl, htokens, hparts⟩ := h.split_form rfl
  rw [htokens] at hdepth ⊢
  simp only [Symbol.forms, Symbol.ownForms, iterableLikeForms, List.flatMap_cons, List.flatMap_nil,
    List.append_nil, List.cons_append, List.nil_append, List.mem_cons, List.not_mem_nil,
    or_false] at hform
  rcases hform with rfl | rfl | rfl | rfl | rfl | rfl | rfl | rfl
  · obtain ⟨readonly, rest, rfl, hreadonly, hrest⟩ := fits_option.mp hparts
    simp only [tokensOf_append, tokensOf_ofToken?, List.length_append, List.append_assoc] at hdepth ⊢
    exact yields_collectionForm hcomplete readonly none hreadonly (by simp) (fun _ => rfl)
      (by cases readonly <;> simp [iterableWords]) (by decide) (Or.inr ⟨rfl, by decide⟩)
      (Or.inl rfl) hrest (by omega)
  · obtain ⟨readonly, rest, rfl, hreadonly, hrest⟩ := fits_option.mp hparts
    simp only [tokensOf_append, tokensOf_ofToken?, List.length_append, List.append_assoc] at hdepth ⊢
    exact yields_collectionForm hcomplete readonly none hreadonly (by simp) (fun _ => rfl)
      (by cases readonly <;> simp [iterableWords]) (by decide) (Or.inl ⟨rfl, by decide⟩)
      (Or.inl rfl) hrest (by omega)
  · exact yields_collectionForm hcomplete none none (by simp) (by simp) (fun _ => rfl) (by decide)
      (by decide) (Or.inl ⟨rfl, by decide⟩) (Or.inl rfl) hparts hdepth
  · exact yields_asyncIterable hcomplete (Or.inl rfl) (Or.inl rfl) hparts hdepth
  · exact yields_asyncIterable hcomplete (Or.inl rfl) (Or.inr rfl) hparts hdepth
  · exact yields_collectionForm hcomplete none none (by simp) (by simp) (fun _ => rfl) (by decide)
      (by decide) (Or.inr ⟨rfl, by decide⟩) (Or.inl rfl) hparts hdepth
  · exact yields_asyncIterable hcomplete (Or.inr rfl) (Or.inl rfl) hparts hdepth
  · exact yields_asyncIterable hcomplete (Or.inr rfl) (Or.inr rfl) hparts hdepth

theorem yields_iterableLike_none {token : Token}
    (h : Terminal.accepts { words := ["readonly", "async", "iterable", "maplike", "setlike"] }
      token = false) :
    Yields scope (iterableLike nested) (token :: more) none (token :: more) := by
  refine Yields.rewinding_none (?_ : Yields scope _ _ _ (token :: more))
  refine (oneOf_inline? _).yields_bind_none (Terminal.rejects_of_within h rfl) ?_
  refine (((oneOf_inline? _).yields_none (Terminal.rejects_of_within h rfl)).when? rfl).bind ?_
  exact (oneOf_inline? _).yields_bind_none (Terminal.rejects_of_within h rfl) (yields_pure none)

/-- A read-only member that is neither a map nor a set. -/
theorem yields_iterableLike_readonly {readonly token : Token}
    (hreadonly : (Terminal.word "readonly").accepts readonly = true)
    (htoken : Terminal.accepts { words := ["maplike", "setlike"] } token = false) :
    Yields scope (iterableLike nested) (readonly :: token :: more) none
      (readonly :: token :: more) := by
  refine Yields.rewinding_none (?_ : Yields scope _ _ _ (token :: more))
  refine (oneOf_inline? _).yields_bind hreadonly ((yields_when?_false rfl).bind ?_)
  exact (oneOf_inline? _).yields_bind_none htoken (yields_pure none)

/-! ## Members of dictionaries -/

theorem yields_fieldBody {construct : Construct} {required : Option Token} {type : Node}
    {name termination : Token} {value : Option Node}
    (hname : Terminal.identifier.accepts name = true)
    (hvalue : ∀ node ∈ value, Conforms extended { symbol := .default } node)
    (halone : required.isSome → value = none)
    (htermination : (Terminal.word ";").accepts termination = true) :
    Yields scope (fieldBody construct required type)
      (name :: (value.toList.flatMap Node.tokens ++ termination :: more))
      (.mk { construct } (bare :: (Part.ofToken? .required required ++ .node .type type ::
        .token .name name :: (Part.ofNode? .default value ++ [.token .termination termination]))))
      more := by
  refine oneOf_identifier.yields_expect_bind hname ?_
  refine (yields_default? hvalue (Terminal.rejects_of_avoids rfl htermination)).bind ?_
  refine yields_refuse_bind ?_ ?_
  · cases required with
    | none => rfl
    | some required => simp [halone rfl]
  refine (oneOf_inline? _).yields_expect_bind htermination ?_
  simpa using yields_pure _

theorem yields_field (hcomplete : Complete extended scope depth nested)
    (h : Conforms extended { symbol := .loneField, mode := .never } node)
    (hdepth : 2 * node.tokens.length ≤ depth) :
    Yields scope (field nested) (node.tokens ++ more) node more := by
  obtain ⟨form, hform, parts, rfl, htokens, hparts⟩ := h.split_form rfl
  rw [htokens] at hdepth ⊢
  simp only [Symbol.forms, Symbol.ownForms, loneFieldForms, List.mem_cons, List.not_mem_nil,
    or_false] at hform
  -- behind `required` a field reads on as one that is not
  have hbody {required : Option Token} {type : Node} {name termination : Token}
      {value : Option Node}
      (htype : Conforms extended { symbol := .type (some fieldPlace) .all } type)
      (hlength : 2 * type.tokens.length < depth)
      (hname : Terminal.identifier.accepts name = true)
      (hvalue : ∀ node ∈ value, Conforms extended { symbol := .default } node)
      (halone : required.isSome → value = none)
      (htermination : (Terminal.word ";").accepts termination = true) :
      Yields scope (do
          let type ← expect (attributedType nested (some fieldPlace)) .noFieldType
          fieldBody .field required type)
        (type.tokens ++ name :: (value.toList.flatMap Node.tokens ++ termination :: more))
        (.mk { construct := .field } (bare :: (Part.ofToken? .required required ++
          .node .type type :: .token .name name :: (Part.ofNode? .default value ++
            [.token .termination termination])))) more := by
    have hfound : Yields scope (attributedType nested (some fieldPlace))
        (type.tokens ++ name :: (value.toList.flatMap Node.tokens ++ termination :: more))
        (some type) (name :: (value.toList.flatMap Node.tokens ++ termination :: more)) :=
      yields_attributedType hcomplete htype hlength
        (goesOn_eq_false (Terminal.rejects_of_avoids rfl hname) type)
    exact (hfound.expect _).bind (yields_fieldBody hname hvalue halone htermination)
  rcases hform with rfl | rfl
  · obtain ⟨required, rest, rfl, hrequired, hrest⟩ := fits_token.mp hparts
    obtain ⟨type, rest, rfl, htype, hrest⟩ := fits_node.mp hrest
    obtain ⟨name, rest, rfl, hname, hrest⟩ := fits_token.mp hrest
    obtain ⟨termination, rest, rfl, htermination, hrest⟩ := fits_token.mp hrest
    obtain rfl := fits_nil.mp hrest
    simp only [tokensOf, List.length_cons, List.length_append, List.cons_append, List.append_assoc,
      List.nil_append] at hdepth ⊢
    refine (oneOf_inline? _).yields_bind hrequired ?_
    exact @hbody (some required) _ _ _ none htype (by omega) hname (by simp) (fun _ => rfl)
      htermination
  · obtain ⟨type, rest, rfl, htype, hrest⟩ := fits_node.mp hparts
    obtain ⟨name, rest, rfl, hname, hrest⟩ := fits_token.mp hrest
    obtain ⟨value, rest, rfl, hvalue, hrest⟩ := fits_nodeOption.mp hrest
    obtain ⟨termination, rest, rfl, htermination, hrest⟩ := fits_token.mp hrest
    obtain rfl := fits_nil.mp hrest
    simp only [tokensOf, tokensOf_append, tokensOf_ofNode?, List.length_cons, List.length_append,
      List.cons_append, List.append_assoc, List.nil_append] at hdepth ⊢
    have hrest := @hbody none _ _ _ _ htype (by omega) hname hvalue (by simp) htermination
    -- no type begins with `required`
    obtain ⟨token, others, htoken, haccepts⟩ := begins_attributedType htype
    rw [htoken, List.cons_append] at hrest ⊢
    exact (oneOf_inline? _).yields_bind_none (Terminal.rejects_of_avoids rfl haccepts) hrest

end

end WebIdl.Grammar
