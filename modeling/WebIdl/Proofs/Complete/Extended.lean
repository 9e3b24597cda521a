import WebIdl.Proofs.Complete.Definitions
import WebIdl.Proofs.Sound.Parse

/-!
# The productions of the extensions find every construct

Also where they decline: an interface that may hold legacy callers is left to other productions if
it is a mixin, and a record if its key is of another type.
-/

namespace WebIdl.Grammar

open WebIdl.Parser WebIdl.Shape

section

variable {extended : Bool} {scope : Scope} {depth : Nat}
  {nested : Production → Parser (Option Node)} {node : Node} {next : Token} {more : List Token}

/-! ## Interfaces and callbacks -/

theorem yields_bodylessInterface
    (h : Conforms extended { symbol := .bodylessInterface, mode := .never } node) :
    Yields scope bodylessInterface (node.tokens ++ more) (some node) more := by
  obtain ⟨form, hform, parts, rfl, htokens, hparts⟩ := h.split_form rfl
  rw [htokens]
  obtain rfl := List.mem_singleton.mp hform
  obtain ⟨base, rest, rfl, hbase, hrest⟩ := fits_token.mp hparts
  obtain ⟨name, rest, rfl, hname, hrest⟩ := fits_token.mp hrest
  obtain ⟨termination, rest, rfl, htermination, hrest⟩ := fits_token.mp hrest
  obtain rfl := fits_nil.mp hrest
  refine Yields.rewinding ?_
  refine (oneOf_inline? _).yields_bind hbase (oneOf_identifier.yields_bind hname ?_)
  exact (oneOf_inline? _).yields_bind htermination (yields_enter_bind (yields_pure _))

theorem yields_callbackConstructor (hcomplete : Complete extended scope depth nested)
    (h : Conforms extended { symbol := .callbackConstructor, mode := .never } node)
    (hdepth : 2 * node.tokens.length ≤ depth) :
    Yields scope (callbackConstructor nested) (node.tokens ++ more) (some node) more := by
  obtain ⟨form, hform, parts, rfl, htokens, hparts⟩ := h.split_form rfl
  rw [htokens] at hdepth ⊢
  obtain rfl := List.mem_singleton.mp hform
  obtain ⟨base, rest, rfl, hbase, hrest⟩ := fits_token.mp hparts
  obtain ⟨word, rest, rfl, hword, hrest⟩ := fits_token.mp hrest
  obtain ⟨name, rest, rfl, hname, hrest⟩ := fits_token.mp hrest
  obtain ⟨assign, rest, rfl, hassign, hrest⟩ := fits_token.mp hrest
  obtain ⟨type, rest, rfl, htype, hrest⟩ := fits_node.mp hrest
  obtain ⟨opening, rest, rfl, hopening, hrest⟩ := fits_token.mp hrest
  obtain ⟨arguments, rest, rfl, harguments, -, hrest⟩ := fits_list.mp hrest
  obtain ⟨closing, rest, rfl, hclosing, hrest⟩ := fits_token.mp hrest
  obtain ⟨termination, rest, rfl, htermination, hrest⟩ := fits_token.mp hrest
  obtain rfl := fits_nil.mp hrest
  simp only [tokensOf, tokensOf_append, tokensOf_ofNodes, List.length_cons, List.length_append,
    List.cons_append, List.append_assoc, List.nil_append] at hdepth ⊢
  have hfound : Yields scope (returnType nested none)
      (type.tokens ++ opening :: (arguments.flatMap Node.tokens ++ closing :: termination :: more))
      (some type) (opening :: (arguments.flatMap Node.tokens ++ closing :: termination :: more)) :=
    yields_returnType hcomplete htype (by omega) (Terminal.rejects_of_avoids rfl hopening)
  refine Yields.rewinding ?_
  refine (oneOf_inline? _).yields_bind hbase ((oneOf_inline? _).yields_bind hword ?_)
  refine Yields.bind ?_ (yields_pure _)
  refine oneOf_identifier.yields_expect_bind hname (yields_enter_bind ?_)
  refine (oneOf_inline? _).yields_expect_bind hassign ((hfound.expect _).bind ?_)
  refine (oneOf_inline? _).yields_expect_bind hopening ?_
  refine (yields_argumentList hcomplete harguments (by omega) hclosing).bind ?_
  refine (oneOf_inline? _).yields_expect_bind hclosing ?_
  exact (oneOf_inline? _).yields_expect_bind htermination (yields_pure _)

theorem yields_legacyCaller (hcomplete : Complete extended scope depth nested)
    (h : Conforms extended { symbol := .legacyCaller, mode := .never } node)
    (hdepth : 2 * node.tokens.length ≤ depth) :
    Yields scope (legacyCaller nested) (node.tokens ++ more) (some node) more := by
  obtain ⟨form, hform, parts, rfl, htokens, hparts⟩ := h.split_form rfl
  rw [htokens] at hdepth ⊢
  obtain rfl := List.mem_singleton.mp hform
  obtain ⟨special, rest, rfl, hspecial, hrest⟩ := fits_token.mp hparts
  simp only [tokensOf, List.length_cons] at hdepth
  refine (oneOf_identifier? _).yields_bind hspecial ?_
  exact (yields_specialOperation hcomplete hrest (by omega)).bind (yields_pure _)

theorem yields_legacyCallerInterface (hcomplete : Complete extended scope depth nested)
    (h : Conforms extended
      { symbol := .interface "legacycaller interface" true, mode := .never } node)
    (hdepth : 2 * node.tokens.length ≤ depth) :
    Yields scope (legacyCallerInterface nested) (node.tokens ++ more) (some node) more := by
  obtain ⟨form, hform, parts, rfl, htokens, hparts⟩ := h.split_form rfl
  rw [htokens] at hdepth ⊢
  have hslots : ∃ inheritance, form = containerForm .interface "legacycaller interface"
        [.word .base "interface"] inheritance (.interface true) ∧
      (inheritance = [] ∨ true = true ∧ inheritance = inheritanceSlots) := by
    simp only [Symbol.forms, Symbol.ownForms, interfaceForms, heirForms, List.mem_cons,
      List.not_mem_nil, or_false] at hform
    rcases hform with rfl | rfl
    · exact ⟨[], rfl, Or.inl rfl⟩
    · exact ⟨inheritanceSlots, rfl, Or.inr ⟨rfl, rfl⟩⟩
  obtain ⟨inheritance, rfl, hinheritance⟩ := hslots
  rw [slots_containerForm] at hparts
  obtain ⟨base, rest, rfl, hbase, hrest⟩ := fits_token.mp hparts
  simp only [tokensOf, List.length_cons] at hdepth
  refine yields_position_bind fun start => (oneOf_inline? _).yields_bind hbase ?_
  exact Yields.deferring
    (yields_containerBody hcomplete (.interface true) rfl hrest hinheritance (by omega))

/-- A `mixin` in the place of a name ends the reading of a container. -/
theorem containerBody_mixin (nested : Production → Parser (Option Node)) (container : Container)
    {mixin : Token} {cursor : Cursor}
    (hmixin : (Terminal.word "mixin").accepts mixin = true)
    (hrest : scope.rest cursor = mixin :: more) :
    ∃ error moved, containerBody nested container scope cursor = .error (.syntaxError error) moved ∧
      error.problem = .noContainerName container.tag true := by
  have htoken : scope.source.tokens[cursor.position]? = some mixin := by
    rw [← Scope.head?_rest, hrest]
    rfl
  have hidentifier : Terminal.identifier.accepts mixin = false :=
    Terminal.rejects_of_avoids rfl hmixin
  have hword : mixin.isInline "mixin" = true := by rwa [isInline_eq]
  simp only [containerBody, containerName, nextIs, peek, fail, oneOf_identifier.eq, takeIf,
    bind, pure, htoken, hidentifier, hword, Bool.false_eq_true, if_false]
  exact ⟨_, _, rfl, rfl⟩

theorem yields_legacyCallerInterface_mixin {base mixin : Token}
    (hbase : (Terminal.word "interface").accepts base = true)
    (hmixin : (Terminal.word "mixin").accepts mixin = true) :
    Yields scope (legacyCallerInterface nested) (base :: mixin :: more) none
      (base :: mixin :: more) := by
  intro cursor hrest
  obtain ⟨behind, hfound, hbehind⟩ := (oneOf_inline? _).yields_some hbase cursor hrest
  obtain ⟨error, moved, herror, hproblem⟩ := containerBody_mixin nested {
      construct := .interface
      tag := "legacycaller interface"
      lead := [.token .base base]
      inheritable := true
      members := .legacyCaller :: interfaceMembers } hmixin hbehind
  refine ⟨{ moved with
    position := cursor.position
    trace := .deferred cursor.position Problem.mixinReason :: moved.trace }, ?_, ?_⟩
  · have hreason : error.problem.reason? = some Problem.mixinReason := by rw [hproblem]; rfl
    have hdeferring : deferringReasons.contains Problem.mixinReason = true := by decide
    simp only [legacyCallerInterface, bind, position, hfound, deferring, herror, hreason,
      hdeferring, if_true]
  · rw [← hrest]
    rfl

/-! ## Records with `UTF8String` keys -/

/-- The key of such a record is one word. -/
theorem Conforms.split_utf8Key {key : Node}
    (h : Conforms extended { symbol := .utf8Key, mode := .never, separator := some "," } key) :
    ∃ base comma, key = (typeNode none [.token .base base]).withSeparator (some comma) ∧
      (Terminal.named utf8String).accepts base = true ∧
      (Terminal.word ",").accepts comma = true := by
  obtain ⟨core, comma, rfl, hcomma, hcore⟩ := h.split_separator
  obtain ⟨form, hform, parts, rfl, -, hparts⟩ := hcore.split_form rfl
  obtain rfl := List.mem_singleton.mp hform
  obtain ⟨base, rest, rfl, hbase, hrest⟩ := fits_token.mp hparts
  obtain rfl := fits_nil.mp hrest
  exact ⟨base, comma, rfl, hbase, hcomma⟩

theorem yields_utf8StringRecord_of_fits (hcomplete : Complete extended scope depth nested)
    {place : Option String} {limit : Limit} {parts : List Part} {slots : List Slot}
    {mark : Option Token} (hslots : slots ∈ Stem.utf8Record.slots place limit)
    (hparts : Fits (Conforms extended) slots parts)
    (hmark : ∀ token ∈ mark, (Terminal.word "?").accepts token = true)
    (hdepth : 2 * (tokensOf parts).length ≤ depth)
    (hnext : (Terminal.word "?").accepts next = false) :
    Yields scope (utf8StringRecord nested) (tokensOf parts ++ (mark.toList ++ next :: more))
      (some (shapedType .utf8Record none parts mark)) (next :: more) := by
  obtain rfl := List.mem_singleton.mp hslots
  obtain ⟨base, rest, rfl, hbase, hrest⟩ := fits_token.mp hparts
  obtain ⟨opening, rest, rfl, hopening, hrest⟩ := fits_token.mp hrest
  obtain ⟨key, rest, rfl, hkey, hrest⟩ := fits_node.mp hrest
  obtain ⟨value, rest, rfl, hvalue, hrest⟩ := fits_node.mp hrest
  obtain ⟨closing, rest, rfl, hclosing, hrest⟩ := fits_token.mp hrest
  obtain rfl := fits_nil.mp hrest
  obtain ⟨word, comma, rfl, hword, hcomma⟩ := Conforms.split_utf8Key hkey
  have hkeyTokens : ((typeNode none [.token .base word]).withSeparator (some comma)).tokens =
      [word, comma] := by
    simp [typeNode, bare, Node.tokens, tokensOf]
  simp only [tokensOf, hkeyTokens, List.length_cons, List.length_append, List.cons_append,
    List.append_assoc, List.nil_append] at hdepth ⊢
  have hfound : Yields scope (nested (.attributedType none))
      (value.tokens ++ closing :: (mark.toList ++ next :: more)) (some value)
      (closing :: (mark.toList ++ next :: more)) :=
    hcomplete.yields trivial hvalue (by simp only [Production.rank]; omega)
      (Terminal.rejects_of_avoids rfl hclosing)
  refine Yields.rewinding ?_
  refine (oneOf_inline? _).yields_bind hbase ((oneOf_inline? _).yields_bind hopening ?_)
  refine (oneOf_identifier? _).yields_bind hword ?_
  refine (oneOf_inline? _).yields_expect_bind hcomma ((hfound.expect _).bind ?_)
  refine (oneOf_inline? _).yields_expect_bind hclosing ?_
  exact (yields_nullableMark hmark hnext).bind (yields_pure _)

/-- A record with `UTF8String` keys, in whatever place it is noted to be. -/
theorem yields_utf8StringRecord (hcomplete : Complete extended scope depth nested)
    {place : Option String}
    (h : Conforms extended { symbol := .type place .utf8Record, mode := .never } node)
    (hdepth : 2 * node.tokens.length ≤ depth)
    (hnext : (Terminal.word "?").accepts next = false) :
    ∃ parts mark, node = shapedType .utf8Record place parts mark ∧
      Yields scope (utf8StringRecord nested) (node.tokens ++ next :: more)
        (some (shapedType .utf8Record none parts mark)) (next :: more) := by
  obtain ⟨stem, hstem, slots, hslots, attributes, parts, mark, hnode, hattributes, hparts, hmark,
    -⟩ := conforms_type_iff.mp h
  obtain rfl := List.mem_singleton.mp hstem
  obtain rfl := eq_noAttributes_of_conforms hattributes rfl
  obtain rfl : node = shapedType .utf8Record place parts mark := hnode
  rw [tokens_shapedType, List.length_append] at hdepth
  rw [tokens_shapedType, List.append_assoc]
  exact ⟨parts, mark, rfl,
    yields_utf8StringRecord_of_fits hcomplete hslots hparts hmark (by omega) hnext⟩

theorem yields_utf8StringRecord_none {tokens : List Token} (h : Misses .utf8StringRecord tokens) :
    Yields scope (utf8StringRecord nested) tokens none tokens := by
  cases h with
  | head hstarts htoken =>
      cases hstarts
      exact Yields.rewinding_none
        ((oneOf_inline? _).yields_bind_none htoken (yields_pure none))
  | record hbase hopening htoken =>
      exact Yields.rewinding_none ((oneOf_inline? _).yields_bind hbase
        ((oneOf_inline? _).yields_bind hopening
          ((oneOf_identifier? _).yields_bind_none htoken (yields_pure none))))

theorem yields_utf8StringField (hcomplete : Complete extended scope depth nested)
    (h : Conforms extended { symbol := .utf8StringField, mode := .never } node)
    (hdepth : 2 * node.tokens.length ≤ depth) :
    Yields scope (utf8StringField nested) (node.tokens ++ more) (some node) more := by
  obtain ⟨form, hform, parts, rfl, htokens, hparts⟩ := h.split_form rfl
  rw [htokens] at hdepth ⊢
  simp only [Symbol.forms, Symbol.ownForms, fieldForms, List.mem_cons, List.not_mem_nil,
    or_false] at hform
  refine Yields.rewinding ?_
  rcases hform with rfl | rfl
  · obtain ⟨required, rest, rfl, hrequired, hrest⟩ := fits_token.mp hparts
    obtain ⟨type, rest, rfl, htype, hrest⟩ := fits_node.mp hrest
    obtain ⟨name, rest, rfl, hname, hrest⟩ := fits_token.mp hrest
    obtain ⟨termination, rest, rfl, htermination, hrest⟩ := fits_token.mp hrest
    obtain rfl := fits_nil.mp hrest
    simp only [tokensOf, List.length_cons, List.length_append, List.cons_append, List.append_assoc,
      List.nil_append] at hdepth ⊢
    obtain ⟨parts, mark, rfl, hfound⟩ := yields_utf8StringRecord hcomplete htype (by omega)
      (Terminal.rejects_of_avoids rfl hname)
    refine (oneOf_inline? _).yields_bind hrequired (hfound.bind ?_)
    -- a required field has no default value
    have hbody : Yields scope (fieldBody .utf8StringField (some required)
        (shapedType .utf8Record (some fieldPlace) parts mark)) (name :: termination :: more) _ more :=
      @yields_fieldBody extended _ _ _ _ _ _ _ none hname (by simp) (fun _ => rfl) htermination
    exact hbody.bind (yields_pure _)
  · -- a field that is not required opens with its type
    obtain ⟨type, rest, rfl, htype, hrest⟩ := fits_node.mp hparts
    obtain ⟨name, rest, rfl, hname, hrest⟩ := fits_token.mp hrest
    obtain ⟨value, rest, rfl, hvalue, hrest⟩ := fits_nodeOption.mp hrest
    obtain ⟨termination, rest, rfl, htermination, hrest⟩ := fits_token.mp hrest
    obtain rfl := fits_nil.mp hrest
    simp only [tokensOf, tokensOf_append, tokensOf_ofNode?, List.length_cons, List.length_append,
      List.cons_append, List.append_assoc, List.nil_append] at hdepth ⊢
    obtain ⟨token, others, htoken, haccepts⟩ := htype.begins_type
    obtain ⟨parts, mark, rfl, hfound⟩ := yields_utf8StringRecord hcomplete htype (by omega)
      (Terminal.rejects_of_avoids rfl hname)
    rw [htoken, List.cons_append] at hfound ⊢
    refine (oneOf_inline? _).yields_bind_none (Terminal.rejects_of_avoids rfl haccepts) ?_
    refine hfound.bind ?_
    exact (yields_fieldBody hname hvalue (by simp) htermination).bind (yields_pure _)

theorem yields_utf8StringField_none {tokens : List Token} (h : Misses .utf8StringField tokens) :
    Yields scope (utf8StringField nested) tokens none tokens := by
  cases h with
  | head hstarts htoken =>
      cases hstarts
      exact Yields.rewinding_none ((oneOf_inline? _).yields_bind_none
        (Terminal.rejects_of_within htoken rfl) ((yields_utf8StringRecord_none
          (.head rfl (Terminal.rejects_of_within htoken rfl))).bind (yields_pure none)))
  | field htoken hmisses =>
      exact Yields.rewinding_none ((oneOf_inline? _).yields_bind_none htoken
        ((yields_utf8StringRecord_none hmisses).bind (yields_pure none)))
  | required hrequired hmisses =>
      exact Yields.rewinding_none ((oneOf_inline? _).yields_bind hrequired
        ((yields_utf8StringRecord_none hmisses).bind (yields_pure none)))

theorem yields_utf8StringTypedef (hcomplete : Complete extended scope depth nested)
    (h : Conforms extended { symbol := .utf8StringTypedef, mode := .never } node)
    (hdepth : 2 * node.tokens.length ≤ depth) :
    Yields scope (utf8StringTypedef nested) (node.tokens ++ more) (some node) more := by
  obtain ⟨form, hform, parts, rfl, htokens, hparts⟩ := h.split_form rfl
  rw [htokens] at hdepth ⊢
  obtain rfl := List.mem_singleton.mp hform
  obtain ⟨base, rest, rfl, hbase, hrest⟩ := fits_token.mp hparts
  obtain ⟨type, rest, rfl, htype, hrest⟩ := fits_node.mp hrest
  obtain ⟨name, rest, rfl, hname, hrest⟩ := fits_token.mp hrest
  obtain ⟨termination, rest, rfl, htermination, hrest⟩ := fits_token.mp hrest
  obtain rfl := fits_nil.mp hrest
  simp only [tokensOf, List.length_cons, List.length_append, List.cons_append, List.append_assoc,
    List.nil_append] at hdepth ⊢
  obtain ⟨parts, mark, rfl, hfound⟩ := yields_utf8StringRecord hcomplete htype (by omega)
    (Terminal.rejects_of_avoids rfl hname)
  refine Yields.rewinding ?_
  refine (oneOf_inline? _).yields_bind hbase (hfound.bind ?_)
  exact (yields_typedefBody hname htermination).bind (yields_pure _)

theorem yields_utf8StringTypedef_none {tokens : List Token}
    (h : Misses .utf8StringTypedef tokens) :
    Yields scope (utf8StringTypedef nested) tokens none tokens := by
  cases h with
  | head hstarts htoken =>
      cases hstarts
      exact Yields.rewinding_none
        ((oneOf_inline? _).yields_bind_none htoken (yields_pure none))
  | typedef hbase hmisses =>
      exact Yields.rewinding_none ((oneOf_inline? _).yields_bind hbase
        ((yields_utf8StringRecord_none hmisses).bind (yields_pure none)))

end

end WebIdl.Grammar
