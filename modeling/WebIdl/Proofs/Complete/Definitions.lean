import WebIdl.Proofs.Complete.Members
import WebIdl.Proofs.Sound.Text

/-!
# The productions of definitions find every definition

A definition with members is found if its members are: each is found by the production that is
chosen for it, behind its attributes.  The definitions of the extensions follow.
-/

namespace WebIdl.Grammar

open WebIdl.Parser WebIdl.Shape

section

variable {extended : Bool} {scope : Scope} {depth : Nat}
  {nested : Production → Parser (Option Node)} {node : Node} {next : Token} {more : List Token}

/-! ## Members in their braces -/

/-- A member without attributes begins with neither a bracket nor the brace behind the members. -/
theorem head_member {body : Body}
    (h : Conforms extended { symbol := .member body, mode := .never } node) :
    ∃ token rest, node.tokens = token :: rest ∧
      Terminal.accepts { words := ["[", "\x7d"] } token = false := by
  refine h.head_apart ?_
  cases body with
  | interface legacy => cases legacy <;> rfl
  | _ => cases extended <;> rfl

theorem Body.isDecided_of_mem {body : Body} {production : Production}
    (h : production ∈ body.productions extended) :
    IsDecided production ∧ continuations production = {} := by
  have hall : ∀ production ∈ body.productions extended,
      IsDecided production ∧ continuations production = {} := by
    cases body with
    | interface legacy =>
        cases legacy <;> simp [Body.productions, interfaceMembers, IsDecided, continuations]
    | _ => cases extended <;> simp [Body.productions, IsDecided, continuations]
  exact hall production h

/-- The production that is chosen for a construct finds it. -/
theorem yields_chosen (hcomplete : Complete extended scope depth nested)
    {productions : List Production} (h : Chosen extended productions node)
    (hdecided : ∀ production ∈ productions,
      modeOf production = .never ∧ IsDecided production ∧ continuations production = {})
    (hdepth : 2 * node.tokens.length + 2 ≤ depth) :
    Yields scope (firstMatch nested productions) (node.tokens ++ next :: more) (some node)
      (next :: more) := by
  obtain ⟨front, production, back, hsplit, hconforms, hmisses⟩ := h
  obtain ⟨hmode, hdecided, hcontinuations⟩ := hdecided production (by simp [hsplit])
  have hrank := production.rank_le_two
  refine yields_firstMatch hsplit (fun earlier hearlier => ?_) ?_
  · have hlow := earlier.rank_le_two
    exact hcomplete.declines (by omega) (hmisses earlier hearlier _)
  · refine hcomplete.yields hdecided ?_ (by omega) ?_
    · rwa [categoryOf, hmode]
    · simp [hcontinuations, Terminal.accepts]

theorem yields_membersFrom (hcomplete : Complete extended scope depth nested) {body : Body}
    {members : List Node} {closing : Token}
    (hmembers : ∀ member ∈ members, Conforms extended { symbol := .member body } member)
    (hdepth : 2 * (members.flatMap Node.tokens).length + 2 ≤ depth)
    (hclosing : (Terminal.word "\x7d").accepts closing = true) {fuel : Nat}
    (hfuel : members.length < fuel) :
    Yields scope (membersFrom nested (body.productions extended) fuel)
      (members.flatMap Node.tokens ++ closing :: next :: more) (members, closing)
      (next :: more) := by
  induction fuel generalizing members with
  | zero => exact absurd hfuel (Nat.not_lt_zero _)
  | succ fuel ih =>
      cases members with
      | nil => exact (oneOf_inline? _).yields_bind hclosing (yields_pure _)
      | cons member others =>
          obtain ⟨hmember, hothers⟩ := List.forall_mem_cons.mp hmembers
          obtain ⟨attributes, core, rfl, hattributes, hcore⟩ :=
            hmember.split_attributes (attributed_member body)
          simp only [List.flatMap_cons, hcore.tokens_withAttributes (attributed_member body),
            List.length_append, List.append_assoc, List.length_cons] at hdepth hfuel ⊢
          -- There is a token behind the member, be it of the next one or the brace.
          obtain ⟨behind, rest, hbehind⟩ : ∃ behind rest,
              others.flatMap Node.tokens ++ closing :: next :: more = behind :: rest := by
            cases others.flatMap Node.tokens <;> exact ⟨_, _, rfl⟩
          have hfound : Yields scope (firstMatch nested (body.productions extended))
              (core.tokens ++ behind :: rest) (some core) (behind :: rest) :=
            yields_chosen hcomplete hcore.chosen_member (fun production hproduction =>
              ⟨Body.isPlain_of_mem hproduction, Body.isDecided_of_mem hproduction⟩) (by omega)
          have hrest := ih hothers (by omega) (by omega)
          obtain ⟨token, tokens, htokens, htoken⟩ := head_member hcore
          rw [← hbehind, htokens, List.cons_append] at hfound
          have hfront : Yields scope (extendedAttributes nested)
              (attributes.tokens ++ token :: (tokens ++ (others.flatMap Node.tokens ++
                closing :: next :: more))) attributes
              (token :: (tokens ++ (others.flatMap Node.tokens ++ closing :: next :: more))) :=
            yields_extendedAttributes hcomplete hattributes (by omega)
              (Terminal.rejects_of_within htoken rfl)
          have hbrace : Yields scope (inline? ["\x7d"])
              (attributes.tokens ++ token :: (tokens ++ (others.flatMap Node.tokens ++
                closing :: next :: more))) none
              (attributes.tokens ++ token :: (tokens ++ (others.flatMap Node.tokens ++
                closing :: next :: more))) := by
            rcases hattributes.attributes_cases with rfl | hwritten
            · exact (oneOf_inline? _).yields_none (Terminal.rejects_of_within htoken rfl)
            · obtain ⟨opening, items, hitems, hopening⟩ := hwritten.tokens_attributes
              rw [hitems, List.cons_append]
              exact (oneOf_inline? _).yields_none (Terminal.rejects_of_avoids rfl hopening)
          rw [htokens, List.cons_append]
          refine hbrace.bind (hfront.bind ((hfound.expect _).bind ?_))
          exact hrest.bind (yields_pure _)

/-! ## Containers -/

theorem yields_inheritance {parts : List Part} {slots : List Slot}
    (hslots : slots = [] ∨ slots = inheritanceSlots) (hparts : Fits (Conforms extended) slots parts)
    (hnext : (Terminal.word ":").accepts next = false) :
    Yields scope inheritance (tokensOf parts ++ next :: more) parts (next :: more) := by
  rcases hslots with rfl | rfl
  · obtain rfl := fits_nil.mp hparts
    exact (oneOf_inline? _).yields_bind_none hnext (yields_pure [])
  · obtain ⟨colon, rest, rfl, hcolon, hrest⟩ := fits_token.mp hparts
    obtain ⟨parent, rest, rfl, hparent, hrest⟩ := fits_token.mp hrest
    obtain rfl := fits_nil.mp hrest
    refine (oneOf_inline? _).yields_bind hcolon ?_
    exact oneOf_identifier.yields_expect_bind hparent (yields_pure _)

/-- A container is found behind its words. -/
theorem yields_containerBody (hcomplete : Complete extended scope depth nested)
    {container : Container} (body : Body) {inheritance : List Slot} {parts : List Part}
    (hmembers : container.members = body.productions extended)
    (hparts : Fits (Conforms extended) (containerTail inheritance body) parts)
    (hinheritance : inheritance = [] ∨ container.inheritable = true ∧ inheritance = inheritanceSlots)
    (hdepth : 2 * (tokensOf parts).length ≤ depth) :
    Yields scope (containerBody nested container) (tokensOf parts ++ more)
      (.mk { construct := container.construct, tag := container.tag }
        (bare :: (container.lead ++ parts))) more := by
  obtain ⟨name, rest, rfl, hname, hrest⟩ := fits_token.mp hparts
  obtain ⟨inherited, back, rfl, hinherited, hback⟩ := fits_append.mp hrest
  obtain ⟨opening, rest, rfl, hopening, hrest⟩ := fits_token.mp hback
  obtain ⟨members, rest, rfl, hconforms, hrest⟩ := fits_many.mp hrest
  obtain ⟨closing, rest, rfl, hclosing, hrest⟩ := fits_token.mp hrest
  obtain ⟨termination, rest, rfl, htermination, hrest⟩ := fits_token.mp hrest
  obtain rfl := fits_nil.mp hrest
  simp only [tokensOf, tokensOf_append, tokensOf_ofNodes, List.length_cons, List.length_append,
    List.cons_append, List.append_assoc, List.nil_append] at hdepth ⊢
  -- no member is empty, so the tokens bound the number of members
  have hlist : Yields scope
      (membersFrom nested container.members (scope.source.tokens.size + 1))
      (members.flatMap Node.tokens ++ closing :: termination :: more) (members, closing)
      (termination :: more) := by
    intro cursor hcursor
    have hlength := congrArg List.length hcursor
    simp only [Scope.rest, List.length_drop, List.length_append, List.length_cons,
      Array.length_toList] at hlength
    have hshort := length_le_of_written fun member hmember =>
      (hconforms member hmember).tokens_ne_nil rfl
    rw [hmembers]
    exact yields_membersFrom hcomplete hconforms (by omega) hclosing (by omega) cursor hcursor
  -- parents are looked for only where the container may have them
  have hparents : Yields scope
      (if container.inheritable then Grammar.inheritance else pure [] : Parser (List Part))
      (tokensOf inherited ++ opening :: (members.flatMap Node.tokens ++
        closing :: termination :: more)) inherited
      (opening :: (members.flatMap Node.tokens ++ closing :: termination :: more)) := by
    split
    · exact yields_inheritance (hinheritance.imp_right And.right) hinherited
        (Terminal.rejects_of_avoids rfl hopening)
    · rename_i hplain
      obtain rfl := hinheritance.resolve_right fun h => hplain h.1
      obtain rfl := fits_nil.mp hinherited
      exact yields_pure []
  rw [containerBody_eq]
  have hnamed : Yields scope (containerName container.tag)
      (name :: (tokensOf inherited ++ opening :: (members.flatMap Node.tokens ++
        closing :: termination :: more))) name _ :=
    oneOf_identifier.yields_bind hname (yields_pure name)
  refine hnamed.bind (yields_enter_bind (hparents.bind ?_))
  refine (oneOf_inline? _).yields_expect_bind hopening (yields_size_bind (hlist.bind ?_))
  refine (oneOf_inline? _).yields_expect_bind htermination ?_
  simpa using yields_pure _

/-- The slots of a container are those of its words and of its tail. -/
theorem slots_containerForm (construct : Construct) (tag : String) (words inheritance : List Slot)
    (body : Body) : (containerForm construct tag words inheritance body).slots =
      words ++ containerTail inheritance body := by
  simp [containerForm, containerTail]

theorem yields_interface (hcomplete : Complete extended scope depth nested)
    (partiality : Option Token) {base : Token} {inheritance : List Slot} {parts : List Part}
    (hbase : (Terminal.word "interface").accepts base = true)
    (hparts : Fits (Conforms extended) (containerTail inheritance (.interface extended)) parts)
    (hinheritance : inheritance = [] ∨ partiality = none ∧ inheritance = inheritanceSlots)
    (hdepth : 2 * (tokensOf parts).length ≤ depth) :
    Yields scope (interface nested partiality) (base :: (tokensOf parts ++ more))
      (some (.mk { construct := .interface } (bare ::
        (Part.ofToken? .partiality partiality ++ .token .base base :: parts)))) more := by
  have hname : ∃ name rest, tokensOf parts = name :: rest ∧
      Terminal.identifier.accepts name = true := by
    obtain ⟨name, rest, rfl, hname, -⟩ := fits_token.mp hparts
    exact ⟨name, _, rfl, hname⟩
  -- the dialect changes the members, and the lemma for bodies covers both lists
  have hcontainer : Yields scope (containerBody nested (Container.extend {
        construct := .interface
        lead := Part.ofToken? .partiality partiality ++ [.token .base base]
        inheritable := partiality.isNone
        isPartial := partiality.isSome
        members := interfaceMembers } (extensionsOf extended).interface))
      (tokensOf parts ++ more)
      (.mk { construct := .interface } (bare ::
        ((Part.ofToken? .partiality partiality ++ [.token .base base]) ++ parts))) more := by
    have hinherits {heir : Bool} (hheir : heir = partiality.isNone) :
        inheritance = [] ∨ heir = true ∧ inheritance = inheritanceSlots :=
      hinheritance.imp_right fun h => ⟨by simp [hheir, h.1], h.2⟩
    cases extended with
    | false =>
        exact yields_containerBody hcomplete (.interface false) rfl hparts (hinherits rfl) hdepth
    | true =>
        exact yields_containerBody hcomplete (.interface true) rfl hparts (hinherits rfl) hdepth
  obtain ⟨name, rest, htokens, hname⟩ := hname
  rw [htokens, List.cons_append] at hcontainer ⊢
  refine (oneOf_inline? _).yields_bind hbase ?_
  refine (oneOf_inline? _).yields_bind_none (Terminal.rejects_of_avoids rfl hname) ?_
  refine yields_extensions_bind ?_
  rw [hcomplete.extensions_eq]
  refine hcontainer.bind ?_
  simpa using yields_pure _

theorem yields_mixin (hcomplete : Complete extended scope depth nested)
    (partiality : Option Token) {base mixin : Token} {parts : List Part}
    (hbase : (Terminal.word "interface").accepts base = true)
    (hmixin : (Terminal.word "mixin").accepts mixin = true)
    (hparts : Fits (Conforms extended) (containerTail [] .mixin) parts)
    (hdepth : 2 * (tokensOf parts).length ≤ depth) :
    Yields scope (interface nested partiality) (base :: mixin :: (tokensOf parts ++ more))
      (some (.mk { construct := .interfaceMixin } (bare :: (Part.ofToken? .partiality partiality ++
        .token .base base :: .token .mixin mixin :: parts)))) more := by
  refine (oneOf_inline? _).yields_bind hbase ((oneOf_inline? _).yields_bind hmixin ?_)
  refine (yields_containerBody hcomplete .mixin rfl hparts (Or.inl rfl) hdepth).bind ?_
  simpa using yields_pure _

theorem yields_namespaceDef (hcomplete : Complete extended scope depth nested)
    (partiality : Option Token) {base : Token} {parts : List Part}
    (hbase : (Terminal.word "namespace").accepts base = true)
    (hparts : Fits (Conforms extended) (containerTail [] .namespaceDef) parts)
    (hdepth : 2 * (tokensOf parts).length ≤ depth) :
    Yields scope (namespaceDef nested partiality) (base :: (tokensOf parts ++ more))
      (some (.mk (namespaceForm extended []).label (bare :: (Part.ofToken? .partiality partiality ++
        .token .base base :: parts)))) more := by
  have hcontainer : Yields scope (containerBody nested (Container.extend {
        construct := .namespaceDef
        lead := Part.ofToken? .partiality partiality ++ [.token .base base]
        isPartial := partiality.isSome
        members := [.attribute true true, .constant, .operation true] }
          (extensionsOf extended).namespaceDef))
      (tokensOf parts ++ more)
      (.mk (namespaceForm extended []).label (bare ::
        ((Part.ofToken? .partiality partiality ++ [.token .base base]) ++ parts))) more := by
    cases extended with
    | false => exact yields_containerBody hcomplete .namespaceDef rfl hparts (Or.inl rfl) hdepth
    | true => exact yields_containerBody hcomplete .namespaceDef rfl hparts (Or.inl rfl) hdepth
  refine (oneOf_inline? _).yields_bind hbase (yields_extensions_bind ?_)
  rw [hcomplete.extensions_eq]
  refine hcontainer.bind ?_
  simpa using yields_pure _

theorem yields_dictionary (hcomplete : Complete extended scope depth nested)
    (partiality : Option Token) {base : Token} {inheritance : List Slot} {parts : List Part}
    (hbase : (Terminal.word "dictionary").accepts base = true)
    (hparts : Fits (Conforms extended) (containerTail inheritance .dictionary) parts)
    (hinheritance : inheritance = [] ∨ partiality = none ∧ inheritance = inheritanceSlots)
    (hdepth : 2 * (tokensOf parts).length ≤ depth) :
    Yields scope (dictionary nested partiality) (base :: (tokensOf parts ++ more))
      (some (.mk { construct := .dictionary } (bare :: (Part.ofToken? .partiality partiality ++
        .token .base base :: parts)))) more := by
  have hcontainer : Yields scope (containerBody nested (Container.extend {
        construct := .dictionary
        lead := Part.ofToken? .partiality partiality ++ [.token .base base]
        inheritable := partiality.isNone
        isPartial := partiality.isSome
        members := [.field] } (extensionsOf extended).dictionary))
      (tokensOf parts ++ more)
      (.mk { construct := .dictionary } (bare ::
        ((Part.ofToken? .partiality partiality ++ [.token .base base]) ++ parts))) more := by
    have hinherits {heir : Bool} (hheir : heir = partiality.isNone) :
        inheritance = [] ∨ heir = true ∧ inheritance = inheritanceSlots :=
      hinheritance.imp_right fun h => ⟨by simp [hheir, h.1], h.2⟩
    cases extended with
    | false => exact yields_containerBody hcomplete .dictionary rfl hparts (hinherits rfl) hdepth
    | true => exact yields_containerBody hcomplete .dictionary rfl hparts (hinherits rfl) hdepth
  refine (oneOf_inline? _).yields_bind hbase (yields_extensions_bind ?_)
  rw [hcomplete.extensions_eq]
  refine hcontainer.bind ?_
  simpa using yields_pure _

/-- What the production of interfaces finds, without the word `partial`. -/
theorem yields_interfaceOrMixin (hcomplete : Complete extended scope depth nested)
    (h : Conforms extended { symbol := .interfaceOrMixin, mode := .never } node)
    (hdepth : 2 * node.tokens.length ≤ depth) :
    Yields scope (interface nested none) (node.tokens ++ more) (some node) more := by
  obtain ⟨form, hform, parts, rfl, htokens, hparts⟩ := h.split_form rfl
  rw [htokens] at hdepth ⊢
  simp only [Symbol.forms, Symbol.ownForms, interfaceForms, heirForms, mixinForm, List.cons_append,
    List.nil_append, List.mem_cons, List.not_mem_nil, or_false] at hform
  rcases hform with rfl | rfl | rfl
  · rw [slots_containerForm] at hparts
    obtain ⟨base, rest, rfl, hbase, hrest⟩ := fits_token.mp hparts
    simp only [tokensOf, List.length_cons] at hdepth
    exact yields_interface hcomplete none hbase hrest (Or.inl rfl) (by omega)
  · rw [slots_containerForm] at hparts
    obtain ⟨base, rest, rfl, hbase, hrest⟩ := fits_token.mp hparts
    simp only [tokensOf, List.length_cons] at hdepth
    exact yields_interface hcomplete none hbase hrest (Or.inr ⟨rfl, rfl⟩) (by omega)
  · rw [slots_containerForm] at hparts
    obtain ⟨base, rest, rfl, hbase, hrest⟩ := fits_token.mp hparts
    obtain ⟨mixin, rest, rfl, hmixin, hrest⟩ := fits_token.mp hrest
    simp only [tokensOf, List.length_cons] at hdepth
    exact yields_mixin hcomplete none hbase hmixin hrest (by omega)

theorem yields_namespace (hcomplete : Complete extended scope depth nested)
    (h : Conforms extended { symbol := .namespaceDef, mode := .never } node)
    (hdepth : 2 * node.tokens.length ≤ depth) :
    Yields scope (namespaceDef nested none) (node.tokens ++ more) (some node) more := by
  obtain ⟨form, hform, parts, rfl, htokens, hparts⟩ := h.split_form rfl
  rw [htokens] at hdepth ⊢
  obtain rfl := List.mem_singleton.mp hform
  rw [namespaceForm, slots_containerForm] at hparts
  obtain ⟨base, rest, rfl, hbase, hrest⟩ := fits_token.mp hparts
  simp only [tokensOf, List.length_cons] at hdepth
  exact yields_namespaceDef hcomplete none hbase hrest (by omega)

theorem yields_heirDictionary (hcomplete : Complete extended scope depth nested)
    (h : Conforms extended { symbol := .dictionary, mode := .never } node)
    (hdepth : 2 * node.tokens.length ≤ depth) :
    Yields scope (dictionary nested none) (node.tokens ++ more) (some node) more := by
  obtain ⟨form, hform, parts, rfl, htokens, hparts⟩ := h.split_form rfl
  rw [htokens] at hdepth ⊢
  simp only [Symbol.forms, Symbol.ownForms, heirForms, List.mem_cons, List.not_mem_nil,
    or_false] at hform
  rcases hform with rfl | rfl
  · rw [slots_containerForm] at hparts
    obtain ⟨base, rest, rfl, hbase, hrest⟩ := fits_token.mp hparts
    simp only [tokensOf, List.length_cons] at hdepth
    exact yields_dictionary hcomplete none hbase hrest (Or.inl rfl) (by omega)
  · rw [slots_containerForm] at hparts
    obtain ⟨base, rest, rfl, hbase, hrest⟩ := fits_token.mp hparts
    simp only [tokensOf, List.length_cons] at hdepth
    exact yields_dictionary hcomplete none hbase hrest (Or.inr ⟨rfl, rfl⟩) (by omega)

theorem yields_interface_none {partiality : Option Token} {token : Token}
    (h : (Terminal.word "interface").accepts token = false) :
    Yields scope (interface nested partiality) (token :: more) none (token :: more) :=
  (oneOf_inline? _).yields_bind_none h (yields_pure none)

theorem yields_namespaceDef_none {partiality : Option Token} {token : Token}
    (h : (Terminal.word "namespace").accepts token = false) :
    Yields scope (namespaceDef nested partiality) (token :: more) none (token :: more) :=
  (oneOf_inline? _).yields_bind_none h (yields_pure none)

theorem yields_dictionary_none {partiality : Option Token} {token : Token}
    (h : (Terminal.word "dictionary").accepts token = false) :
    Yields scope (dictionary nested partiality) (token :: more) none (token :: more) :=
  (oneOf_inline? _).yields_bind_none h (yields_pure none)

theorem yields_partialDefinition (hcomplete : Complete extended scope depth nested)
    (h : Conforms extended { symbol := .partialDefinition, mode := .never } node)
    (hdepth : 2 * node.tokens.length ≤ depth) :
    Yields scope (partialDefinition nested) (node.tokens ++ more) (some node) more := by
  obtain ⟨form, hform, parts, rfl, htokens, hparts⟩ := h.split_form rfl
  rw [htokens] at hdepth ⊢
  simp only [Symbol.forms, Symbol.ownForms, partialForms, mixinForm, namespaceForm,
    List.cons_append, List.nil_append, List.mem_cons, List.not_mem_nil, or_false] at hform
  rcases hform with rfl | rfl | rfl | rfl
  · rw [slots_containerForm] at hparts
    obtain ⟨partiality, rest, rfl, hpartiality, hrest⟩ := fits_token.mp hparts
    obtain ⟨base, rest, rfl, hbase, hrest⟩ := fits_token.mp hrest
    simp only [tokensOf, List.length_cons] at hdepth
    have hfound : Yields scope (dictionary nested (some partiality))
        (base :: (tokensOf rest ++ more)) _ more :=
      yields_dictionary hcomplete (some partiality) hbase hrest (Or.inl rfl) (by omega)
    refine (oneOf_inline? _).yields_bind hpartiality ?_
    exact (hfound.either_left.expect _).bind (yields_pure _)
  · rw [slots_containerForm] at hparts
    obtain ⟨partiality, rest, rfl, hpartiality, hrest⟩ := fits_token.mp hparts
    obtain ⟨base, rest, rfl, hbase, hrest⟩ := fits_token.mp hrest
    simp only [tokensOf, List.length_cons] at hdepth
    have hfound : Yields scope (interface nested (some partiality))
        (base :: (tokensOf rest ++ more)) _ more :=
      yields_interface hcomplete (some partiality) hbase hrest (Or.inl rfl) (by omega)
    refine (oneOf_inline? _).yields_bind hpartiality ((Yields.expect ?_ _).bind (yields_pure _))
    exact (yields_dictionary_none (Terminal.rejects_of_avoids rfl hbase)).either_right
      hfound.either_left
  · rw [slots_containerForm] at hparts
    obtain ⟨partiality, rest, rfl, hpartiality, hrest⟩ := fits_token.mp hparts
    obtain ⟨base, rest, rfl, hbase, hrest⟩ := fits_token.mp hrest
    obtain ⟨mixin, rest, rfl, hmixin, hrest⟩ := fits_token.mp hrest
    simp only [tokensOf, List.length_cons] at hdepth
    have hfound : Yields scope (interface nested (some partiality))
        (base :: mixin :: (tokensOf rest ++ more)) _ more :=
      yields_mixin hcomplete (some partiality) hbase hmixin hrest (by omega)
    refine (oneOf_inline? _).yields_bind hpartiality ((Yields.expect ?_ _).bind (yields_pure _))
    exact (yields_dictionary_none (Terminal.rejects_of_avoids rfl hbase)).either_right
      hfound.either_left
  · rw [slots_containerForm] at hparts
    obtain ⟨partiality, rest, rfl, hpartiality, hrest⟩ := fits_token.mp hparts
    obtain ⟨base, rest, rfl, hbase, hrest⟩ := fits_token.mp hrest
    simp only [tokensOf, List.length_cons] at hdepth
    have hfound : Yields scope (namespaceDef nested (some partiality))
        (base :: (tokensOf rest ++ more)) _ more :=
      yields_namespaceDef hcomplete (some partiality) hbase hrest (by omega)
    refine (oneOf_inline? _).yields_bind hpartiality ((Yields.expect ?_ _).bind (yields_pure _))
    refine (yields_dictionary_none (Terminal.rejects_of_avoids rfl hbase)).either_right ?_
    exact (yields_interface_none (Terminal.rejects_of_avoids rfl hbase)).either_right hfound

/-! ## Callbacks -/

theorem yields_callbackFunction (hcomplete : Complete extended scope depth nested) {base : Token}
    {parts : List Part} (hparts : Fits (Conforms extended) callbackTail parts)
    (hdepth : 2 * (tokensOf parts).length ≤ depth) :
    Yields scope (callbackFunction nested base) (tokensOf parts ++ more)
      (.mk { construct := .callbackFunction } (bare :: .token .base base :: parts)) more := by
  obtain ⟨name, rest, rfl, hname, hrest⟩ := fits_token.mp hparts
  obtain ⟨assign, rest, rfl, hassign, hrest⟩ := fits_token.mp hrest
  obtain ⟨type, rest, rfl, htype, hrest⟩ := fits_node.mp hrest
  obtain ⟨opening, rest, rfl, hopening, hrest⟩ := fits_token.mp hrest
  obtain ⟨arguments, rest, rfl, harguments, -, hrest⟩ := fits_list.mp hrest
  obtain ⟨closing, rest, rfl, hclosing, hrest⟩ := fits_token.mp hrest
  obtain ⟨termination, rest, rfl, htermination, hrest⟩ := fits_token.mp hrest
  obtain rfl := fits_nil.mp hrest
  simp only [tokensOf, tokensOf_append, tokensOf_ofNodes, List.length_cons, List.length_append,
    List.cons_append, List.append_assoc, List.nil_append] at hdepth ⊢
  have hfound : Yields scope (returnType nested none)
      (type.tokens ++ opening :: (arguments.flatMap Node.tokens ++ closing :: termination :: more))
      (some type) (opening :: (arguments.flatMap Node.tokens ++ closing :: termination :: more)) :=
    yields_returnType hcomplete htype (by omega) (Terminal.rejects_of_avoids rfl hopening)
  refine oneOf_identifier.yields_expect_bind hname (yields_enter_bind ?_)
  refine (oneOf_inline? _).yields_expect_bind hassign ((hfound.expect _).bind ?_)
  refine (oneOf_inline? _).yields_expect_bind hopening ?_
  refine (yields_argumentList hcomplete harguments (by omega) hclosing).bind ?_
  refine (oneOf_inline? _).yields_expect_bind hclosing ?_
  exact (oneOf_inline? _).yields_expect_bind htermination (yields_pure _)

theorem yields_callback (hcomplete : Complete extended scope depth nested)
    (h : Conforms extended { symbol := .callback, mode := .never } node)
    (hdepth : 2 * node.tokens.length ≤ depth) :
    Yields scope (callback nested) (node.tokens ++ more) (some node) more := by
  obtain ⟨form, hform, parts, rfl, htokens, hparts⟩ := h.split_form rfl
  rw [htokens] at hdepth ⊢
  simp only [Symbol.forms, Symbol.ownForms, callbackForms, List.mem_cons, List.not_mem_nil,
    or_false] at hform
  rcases hform with rfl | rfl
  · -- callback interface
    rw [slots_containerForm] at hparts
    obtain ⟨word, rest, rfl, hword, hrest⟩ := fits_token.mp hparts
    obtain ⟨base, rest, rfl, hbase, hrest⟩ := fits_token.mp hrest
    simp only [tokensOf, List.length_cons] at hdepth
    have hcontainer : Yields scope (containerBody nested (Container.extend {
          construct := .callbackInterface
          lead := [.token .callback word, .token .base base]
          members := [.constant, .operation true] } (extensionsOf extended).callbackInterface))
        (tokensOf rest ++ more)
        (.mk { construct := .callbackInterface, tag := if extended then "callback attr interface"
            else Construct.callbackInterface.tag }
          (bare :: ([.token .callback word, .token .base base] ++ rest))) more := by
      cases extended with
      | false =>
          exact yields_containerBody hcomplete .callbackInterface rfl hrest (Or.inl rfl) (by omega)
      | true =>
          exact yields_containerBody hcomplete .callbackInterface rfl hrest (Or.inl rfl) (by omega)
    refine (oneOf_inline? _).yields_bind hword ((oneOf_inline? _).yields_bind hbase ?_)
    refine yields_extensions_bind ?_
    rw [hcomplete.extensions_eq]
    exact hcontainer.bind (yields_pure _)
  · -- callback function: a name, not the word `interface`, stands behind the first word
    obtain ⟨word, rest, rfl, hword, hrest⟩ := fits_token.mp hparts
    simp only [tokensOf, List.length_cons] at hdepth
    have hfunction : Yields scope (callbackFunction nested word) (tokensOf rest ++ more)
        (.mk { construct := .callbackFunction } (bare :: .token .base word :: rest)) more :=
      yields_callbackFunction hcomplete hrest (by omega)
    obtain ⟨name, others, rfl, hname, -⟩ := fits_token.mp hrest
    refine (oneOf_inline? _).yields_bind hword ?_
    refine (oneOf_inline? _).yields_bind_none (Terminal.rejects_of_avoids rfl hname) ?_
    exact hfunction.bind (yields_pure _)

/-! ## Other definitions -/

theorem yields_enumeration (h : Conforms extended { symbol := .enumeration, mode := .never } node) :
    Yields scope enumeration (node.tokens ++ more) (some node) more := by
  obtain ⟨form, hform, parts, rfl, htokens, hparts⟩ := h.split_form rfl
  rw [htokens]
  obtain rfl := List.mem_singleton.mp hform
  obtain ⟨base, rest, rfl, hbase, hrest⟩ := fits_token.mp hparts
  obtain ⟨name, rest, rfl, hname, hrest⟩ := fits_token.mp hrest
  obtain ⟨opening, rest, rfl, hopening, hrest⟩ := fits_token.mp hrest
  obtain ⟨values, rest, rfl, hvalues, hleast, hrest⟩ := fits_list.mp hrest
  obtain ⟨closing, rest, rfl, hclosing, hrest⟩ := fits_token.mp hrest
  obtain ⟨termination, rest, rfl, htermination, hrest⟩ := fits_token.mp hrest
  obtain rfl := fits_nil.mp hrest
  have hstring : (Terminal.accepts { kinds := [.string] } closing) = false :=
    Terminal.rejects_of_avoids rfl hclosing
  have hvalue {value : Node} {rest : List Token}
      (h : Conforms extended { symbol := .enumValue } value) :
      Yields scope enumValue (value.tokens ++ rest) (some value) rest := by
    cases h with
    | mk hform hparts =>
        obtain rfl := List.mem_singleton.mp hform
        obtain ⟨value, others, rfl, hvalue, hnil⟩ := fits_token.mp hparts
        obtain rfl := fits_nil.mp hnil
        exact (oneOf_ofKind? (by decide)).yields_bind hvalue (yields_pure _)
  simp only [tokensOf, tokensOf_append, tokensOf_ofNodes, List.cons_append, List.append_assoc,
    List.nil_append]
  refine (oneOf_inline? _).yields_bind hbase ?_
  refine oneOf_identifier.yields_expect_bind hname (yields_enter_bind ?_)
  refine (oneOf_inline? _).yields_expect_bind hopening ?_
  refine (yields_commaList (fun hnode _ _ => hvalue hnode)
    ((oneOf_ofKind? (by decide)).yields_bind_none hstring (yields_pure none))
    (Terminal.rejects_of_avoids rfl hclosing) rfl hvalues (Nat.le_refl _)).bind ?_
  -- a string behind the values would be a missing comma
  refine yields_nextIsKind_bind (yields_refuse_bind ?_ ?_)
  · simp [(accepts_word.mp hclosing).1]
  refine (oneOf_inline? _).yields_expect_bind hclosing (yields_refuse_bind ?_ ?_)
  · cases values with
    | nil => cases hleast
    | cons value values => rfl
  exact (oneOf_inline? _).yields_expect_bind htermination (yields_pure _)

theorem yields_typedefBody {construct : Construct} {base : Token} {type : Node}
    {name termination : Token} (hname : Terminal.identifier.accepts name = true)
    (htermination : (Terminal.word ";").accepts termination = true) :
    Yields scope (typedefBody construct base type) (name :: termination :: more)
      (.mk { construct } [bare, .token .base base, .node .type type, .token .name name,
        .token .termination termination]) more := by
  refine oneOf_identifier.yields_expect_bind hname (yields_enter_bind ?_)
  exact (oneOf_inline? _).yields_expect_bind htermination (yields_pure _)

theorem yields_typedef (hcomplete : Complete extended scope depth nested)
    (h : Conforms extended { symbol := .typedef .all, mode := .never } node)
    (hdepth : 2 * node.tokens.length ≤ depth) :
    Yields scope (typedef nested) (node.tokens ++ more) (some node) more := by
  obtain ⟨form, hform, parts, rfl, htokens, hparts⟩ := h.split_form (by cases extended <;> rfl)
  rw [htokens] at hdepth ⊢
  obtain ⟨mode, rfl⟩ : ∃ mode, form =
      typedefForm .typedef { symbol := .type (some typedefPlace) .all, mode } := by
    simp only [Symbol.forms, Symbol.ownForms, List.mem_cons, List.not_mem_nil, or_false] at hform
    rcases hform with rfl | rfl <;> exact ⟨_, rfl⟩
  obtain ⟨base, rest, rfl, hbase, hrest⟩ := fits_token.mp hparts
  obtain ⟨type, rest, rfl, htype, hrest⟩ := fits_node.mp hrest
  obtain ⟨name, rest, rfl, hname, hrest⟩ := fits_token.mp hrest
  obtain ⟨termination, rest, rfl, htermination, hrest⟩ := fits_token.mp hrest
  obtain rfl := fits_nil.mp hrest
  simp only [tokensOf, List.length_cons, List.length_append, List.cons_append, List.append_assoc,
    List.nil_append] at hdepth ⊢
  have hfound : Yields scope (attributedType nested (some typedefPlace))
      (type.tokens ++ name :: termination :: more) (some type) (name :: termination :: more) :=
    yields_attributedType hcomplete htype (by omega)
      (goesOn_eq_false (Terminal.rejects_of_avoids rfl hname) type)
  refine (oneOf_inline? _).yields_bind hbase ((hfound.expect _).bind ?_)
  exact (yields_typedefBody hname htermination).bind (yields_pure _)

theorem yields_includes (h : Conforms extended { symbol := .includes, mode := .never } node) :
    Yields scope includes (node.tokens ++ more) (some node) more := by
  obtain ⟨form, hform, parts, rfl, htokens, hparts⟩ := h.split_form rfl
  rw [htokens]
  obtain rfl := List.mem_singleton.mp hform
  obtain ⟨target, rest, rfl, htarget, hrest⟩ := fits_token.mp hparts
  obtain ⟨word, rest, rfl, hword, hrest⟩ := fits_token.mp hrest
  obtain ⟨mixin, rest, rfl, hmixin, hrest⟩ := fits_token.mp hrest
  obtain ⟨termination, rest, rfl, htermination, hrest⟩ := fits_token.mp hrest
  obtain rfl := fits_nil.mp hrest
  refine Yields.rewinding ?_
  refine oneOf_identifier.yields_bind htarget ((oneOf_inline? _).yields_bind hword ?_)
  refine oneOf_identifier.yields_expect_bind hmixin ?_
  exact (oneOf_inline? _).yields_expect_bind htermination (yields_pure _)

end

end WebIdl.Grammar
