import WebIdl.Proofs.Sound.Members

/-!
# What the productions of definitions find

A container is its words and its tail: the name, what it inherits from, and the members between the
braces.  The other definitions are rows of tokens, types and arguments.
-/

namespace WebIdl.Grammar

open WebIdl.Parser WebIdl.Shape

section

variable {extended : Bool} {scope : Scope} {nested : Production → Parser (Option Node)}
  {cursor moved : Cursor}

/-! ## Definitions with members -/

theorem reads_member (hnested : Sound extended scope nested) {body : Body} {node : Node}
    (h : firstMatch nested (body.productions extended) scope cursor = .ok (some node) moved)
    (hbracket : ∀ token ∈ (scope.rest cursor).head?, (Terminal.word "[").accepts token = false) :
    Reads scope cursor moved node.tokens ∧
      Conforms extended { symbol := .member body, mode := .never } node := by
  rcases hnested.firstMatch (fun _ => Body.isPlain_of_mem) h with ⟨hnone, -⟩ |
    ⟨front, production, back, _, hsplit, hsome, hreads, hconforms, habsent⟩
  · cases hnone
  · obtain rfl := Option.some.inj hsome
    rw [hreads.rest_eq] at habsent
    exact ⟨hreads, conforms_member_of_production hsplit hconforms
      (fun token htoken => hbracket token (hreads.mem_head? htoken)) habsent⟩

theorem reads_membersFrom (hnested : Sound extended scope nested) {body : Body} {fuel : Nat}
    {members : List Node} {closing : Token}
    (h : membersFrom nested (body.productions extended) fuel scope cursor =
      .ok (members, closing) moved) :
    Reads scope cursor moved (members.flatMap Node.tokens ++ [closing]) ∧
      (∀ node ∈ members, Conforms extended { symbol := .member body } node) ∧
      (Terminal.word "\x7d").accepts closing = true := by
  induction fuel generalizing cursor members with
  | zero => exact absurd h exhausted_ne_ok
  | succ fuel ih =>
      obtain ⟨brace, afterBrace, hbrace, h⟩ := (oneOf_inline? _).bind h
      cases brace with
      | some brace =>
          obtain ⟨heq, rfl⟩ := pure_eq_ok.mp h
          obtain ⟨rfl, rfl⟩ := Prod.mk.inj heq
          exact ⟨by simpa using hbrace.reads, by simp, hbrace.accepted _ rfl⟩
      | none =>
          obtain ⟨attributes, afterAttributes, hattributes, h⟩ := bind_eq_ok.mp h
          obtain ⟨hreads, hattributes, hbracket⟩ := reads_extendedAttributes hnested hattributes
          obtain ⟨member, afterMember, hmember, h⟩ := Parser.expect_bind.mp h
          obtain ⟨hreadsMember, hmember⟩ := reads_member hnested hmember hbracket
          obtain ⟨⟨others, last⟩, _, hothers, h⟩ := bind_eq_ok.mp h
          obtain ⟨heq, rfl⟩ := pure_eq_ok.mp h
          obtain ⟨rfl, rfl⟩ := Prod.mk.inj heq
          obtain ⟨hrest, hconforms, hclosing⟩ := ih hothers
          refine ⟨?_, List.forall_mem_cons.mpr ⟨hmember.withAttributes (attributed_member body)
            (conforms_attributes hattributes), hconforms⟩, hclosing⟩
          rw [List.flatMap_cons, hmember.tokens_withAttributes (attributed_member body)]
          simpa using ((hreads.congr hbrace.none.symm rfl).trans hreadsMember).trans hrest

/-- The slots for what a definition inherits from. -/
def inheritanceSlots : List Slot :=
  [.word .colon ":", .token .inheritance .identifier]

theorem reads_inheritance (extended : Bool) {parts : List Part}
    (h : inheritance scope cursor = .ok parts moved) :
    Reads scope cursor moved (tokensOf parts) ∧
      (parts = [] ∨ Fits (Conforms extended) inheritanceSlots parts) := by
  obtain ⟨colon, afterColon, hcolon, h⟩ := (oneOf_inline? _).bind h
  cases colon with
  | none =>
      obtain ⟨rfl, rfl⟩ := pure_eq_ok.mp h
      exact ⟨.refl hcolon.none, Or.inl rfl⟩
  | some colon =>
      obtain ⟨parent, _, hparent, hnamed, h⟩ := oneOf_identifier.expect_bind h
      obtain ⟨rfl, rfl⟩ := pure_eq_ok.mp h
      exact ⟨by simpa [tokensOf] using hcolon.reads.trans hparent,
        Or.inr (.token (hcolon.accepted colon rfl) (.token hnamed .nil))⟩

theorem reads_containerName {tag : String} {name : Token}
    (h : containerName tag scope cursor = .ok name moved) :
    Reads scope cursor moved [name] ∧ Terminal.identifier.accepts name = true := by
  obtain ⟨found, middle, hfound, h⟩ := oneOf_identifier.bind h
  cases found with
  | none =>
      obtain ⟨next, hnext, h⟩ := nextIs_bind.mp h
      exact absurd h fail_ne_ok
  | some found =>
      obtain ⟨rfl, rfl⟩ := pure_eq_ok.mp h
      exact ⟨hfound.reads, hfound.accepted _ rfl⟩

/-- The members of a container in their braces, behind its name and what it inherits from. -/
def bracedBody (nested : Production → Parser (Option Node)) (container : Container) (name : Token)
    (inherited : List Part) : Parser Node := do
  let opening ← expect (inline? ["\x7b"]) (.bodyless container.tag)
  let (members, closing) ← membersFrom nested container.members ((← size) + 1)
  let termination ← expect (inline? [";"]) (.unterminatedContainer container.tag)
  return .mk { construct := container.construct, tag := container.tag }
    (bare :: container.lead ++ .token .name name :: inherited ++ .token .opening opening ::
      Part.ofNodes .member members ++ [.token .closing closing, .token .termination termination])

theorem containerBody_eq (nested : Production → Parser (Option Node)) (container : Container) :
    containerBody nested container = (do
      let name ← containerName container.tag
      enter ⟨container.tag, unescape name.text, container.isPartial⟩
      let inherited ← (if container.inheritable then inheritance else pure [] : Parser (List Part))
      bracedBody nested container name inherited) := by
  cases h : container.inheritable <;> simp only [containerBody, h] <;> rfl

/-- What a container has behind its words. -/
def containerTail (inheritance : List Slot) (body : Body) : List Slot :=
  .token .name .identifier :: (inheritance ++
    [.word .opening "\x7b", .many .member { symbol := .member body }, .word .closing "\x7d", .ending])

theorem bracedBody_eq_ok (hnested : Sound extended scope nested) {container : Container}
    {body : Body} (hmembers : container.members = body.productions extended) {name : Token}
    {inherited : List Part} {node : Node}
    (h : bracedBody nested container name inherited scope cursor = .ok node moved) :
    ∃ parts, node = .mk { construct := container.construct, tag := container.tag }
        (bare :: (container.lead ++ .token .name name :: (inherited ++ parts))) ∧
      Reads scope cursor moved (tokensOf parts) ∧
      Fits (Conforms extended) [.word .opening "\x7b", .many .member { symbol := .member body },
        .word .closing "\x7d", .ending] parts := by
  obtain ⟨opening, afterOpening, hopening, hopened, h⟩ := (oneOf_inline? _).expect_bind h
  obtain ⟨⟨members, closing⟩, afterMembers, hfound, h⟩ := bind_eq_ok.mp (size_bind.mp h)
  rw [hmembers] at hfound
  obtain ⟨hreads, hconforms, hclosing⟩ := reads_membersFrom hnested hfound
  obtain ⟨termination, _, htermination, hended, h⟩ := (oneOf_inline? _).expect_bind h
  obtain ⟨rfl, rfl⟩ := pure_eq_ok.mp h
  refine ⟨.token .opening opening :: (Part.ofNodes .member members ++ [.token .closing closing,
    .token .termination termination]), by simp, ?_, ?_⟩
  · simpa [tokensOf] using (hopening.trans hreads).trans htermination
  · exact .token hopened (.many hconforms (.token hclosing (.token hended .nil)))

theorem containerBody_eq_ok (hnested : Sound extended scope nested) {container : Container}
    (body : Body) (hmembers : container.members = body.productions extended) {node : Node}
    (h : containerBody nested container scope cursor = .ok node moved) :
    ∃ inheritance parts,
      node = .mk { construct := container.construct, tag := container.tag }
        (bare :: (container.lead ++ parts)) ∧
      Reads scope cursor moved (tokensOf parts) ∧
      Fits (Conforms extended) (containerTail inheritance body) parts ∧
      (inheritance = [] ∨ container.inheritable = true ∧ inheritance = inheritanceSlots) := by
  rw [containerBody_eq] at h
  obtain ⟨name, afterName, hname, h⟩ := bind_eq_ok.mp h
  obtain ⟨hreadsName, hname⟩ := reads_containerName hname
  obtain ⟨inherited, afterInherited, hinherited, h⟩ := bind_eq_ok.mp (enter_bind.mp h)
  obtain ⟨parts, rfl, hreads, hparts⟩ := bracedBody_eq_ok hnested hmembers h
  split at hinherited
  · rename_i hinheritable
    obtain ⟨hreadsInherited, hcases⟩ := reads_inheritance extended hinherited
    have hread : Reads scope cursor moved
        (tokensOf (.token .name name :: (inherited ++ parts))) := by
      simpa [tokensOf] using (hreadsName.trans (hreadsInherited.congr rfl rfl)).trans hreads
    rcases hcases with rfl | hinherited
    · exact ⟨[], _, rfl, hread, .token hname hparts, Or.inl rfl⟩
    · exact ⟨inheritanceSlots, _, rfl, hread,
        .token hname (fits_append.mpr ⟨inherited, parts, rfl, hinherited, hparts⟩),
        Or.inr ⟨hinheritable, rfl⟩⟩
  · obtain ⟨rfl, rfl⟩ := pure_eq_ok.mp hinherited
    exact ⟨[], _, rfl, by simpa [tokensOf] using hreadsName.trans (hreads.congr rfl rfl),
      .token hname hparts, Or.inl rfl⟩

/-- A container is its words and its tail. -/
theorem conforms_container {symbol : Symbol} {construct : Construct} {tag : String}
    {words inheritance : List Slot} {body : Body} {lead parts : List Part}
    (hform : containerForm construct tag words inheritance body ∈ symbol.forms extended)
    (hwords : Fits (Conforms extended) words lead)
    (hparts : Fits (Conforms extended) (containerTail inheritance body) parts) :
    Conforms extended { symbol, mode := .never }
      (.mk { construct, tag } (bare :: (lead ++ parts))) := by
  refine .of_form (containerForm construct tag words inheritance body) hform rfl
    (.node (conforms_noAttributes (by simp)) ?_)
  simp only [containerForm, List.nil_append, List.append_eq, List.append_assoc, List.cons_append,
    Option.toList_none, List.map_nil, List.append_nil]
  exact fits_append.mpr ⟨lead, parts, rfl, hwords, hparts⟩

/-- Like `Found`, for a parser that is given the tokens `lead` of the node, which have been read
before. -/
def FoundBehind (lead : List Token) (scope : Scope) (good : Node → Prop) (cursor : Cursor) :
    Option Node → Cursor → Prop
  | none, moved => moved.position = cursor.position
  | some node, moved =>
      ∃ read, Reads scope cursor moved read ∧ node.tokens = lead ++ read ∧ good node

theorem FoundBehind.found {good : Node → Prop} {found : Option Node}
    (h : FoundBehind [] scope good cursor found moved) : Found scope good cursor found moved := by
  cases found with
  | none => exact h
  | some node =>
      obtain ⟨read, hreads, htokens, hgood⟩ := h
      exact ⟨by simpa [htokens] using hreads, hgood⟩

theorem FoundBehind.congr {lead : List Token} {good : Node → Prop} {found : Option Node}
    {cursor' : Cursor} (h : FoundBehind lead scope good cursor found moved)
    (hcursor : cursor'.position = cursor.position) :
    FoundBehind lead scope good cursor' found moved := by
  cases found with
  | none => exact (show moved.position = _ from h).trans hcursor.symm
  | some node =>
      obtain ⟨read, hreads, htokens, hgood⟩ := h
      exact ⟨read, hreads.congr hcursor rfl, htokens, hgood⟩

/-- A container found behind a word `partial` or none: its own words have been read, and its forms
are those of the symbol. -/
theorem foundBehind_container (hnested : Sound extended scope nested) {container : Container}
    {symbol : Symbol} {partiality : Option Token} {words : List Slot} {lead : List Part}
    {front : List Slot} {start : Cursor} (body : Body)
    (hmembers : container.members = body.productions extended)
    (hlead : container.lead = Part.ofToken? .partiality partiality ++ lead)
    (hfront : Fits (Conforms extended) front (Part.ofToken? .partiality partiality))
    (hwords : Fits (Conforms extended) words lead)
    (hplain : containerForm container.construct container.tag (front ++ words) [] body ∈
      symbol.forms extended)
    (hheir : container.inheritable = true →
      containerForm container.construct container.tag (front ++ words) inheritanceSlots body ∈
        symbol.forms extended)
    (hreads : Reads scope start cursor (tokensOf lead)) {node : Node}
    (h : containerBody nested container scope cursor = .ok node moved) :
    FoundBehind partiality.toList scope (Conforms extended { symbol, mode := .never }) start
      (some node) moved := by
  obtain ⟨inheritance, parts, rfl, hrest, hparts, hcases⟩ :=
    containerBody_eq_ok hnested body hmembers h
  refine ⟨tokensOf lead ++ tokensOf parts, hreads.trans hrest, ?_, ?_⟩
  · simp [hlead, bare, Node.tokens, tokensOf]
  · have hlead' : Fits (Conforms extended) (front ++ words) container.lead :=
      fits_append.mpr ⟨_, _, hlead, hfront, hwords⟩
    rcases hcases with rfl | ⟨hinheritable, rfl⟩
    · exact conforms_container hplain hlead' hparts
    · exact conforms_container (hheir hinheritable) hlead' hparts

theorem foundBehind_interface (hnested : Sound extended scope nested) {symbol : Symbol}
    {partiality : Option Token} {front : List Slot}
    (hfront : Fits (Conforms extended) front (Part.ofToken? .partiality partiality))
    (hmixin : mixinForm front ∈ symbol.forms extended)
    (hplain : containerForm .interface Construct.interface.tag (front ++ [.word .base "interface"])
      [] (.interface extended) ∈ symbol.forms extended)
    (hheir : partiality = none → containerForm .interface Construct.interface.tag
      (front ++ [.word .base "interface"]) inheritanceSlots (.interface extended) ∈
        symbol.forms extended)
    {found : Option Node} (h : interface nested partiality scope cursor = .ok found moved) :
    FoundBehind partiality.toList scope (Conforms extended { symbol, mode := .never }) cursor
      found moved := by
  obtain ⟨base, afterBase, hbase, h⟩ := (oneOf_inline? _).bind h
  cases base with
  | none =>
      obtain ⟨rfl, rfl⟩ := pure_eq_ok.mp h
      exact hbase.none
  | some base =>
  have hword := hbase.accepted base rfl
  obtain ⟨mixin, afterMixin, hmixinWord, h⟩ := (oneOf_inline? _).bind h
  -- the word `mixin` behind `interface` makes the definition another one
  cases mixin with
  | some mixin =>
      obtain ⟨node, _, hnode, h⟩ := bind_eq_ok.mp h
      obtain ⟨rfl, rfl⟩ := pure_eq_ok.mp h
      exact foundBehind_container hnested .mixin rfl (List.append_assoc ..) hfront
        (.token hword (.token (hmixinWord.accepted mixin rfl) .nil)) hmixin (by simp)
        (by simpa [tokensOf] using hbase.reads.trans hmixinWord.reads) hnode
  | none =>
      obtain ⟨node, _, hnode, h⟩ := bind_eq_ok.mp (extensions_bind.mp h)
      obtain ⟨rfl, rfl⟩ := pure_eq_ok.mp h
      rw [hnested.extensions_eq] at hnode
      have hreads : Reads scope cursor afterMixin (tokensOf [.token .base base]) := by
        simpa [tokensOf] using hbase.reads.congr rfl hmixinWord.none
      cases extended with
      | false =>
          exact foundBehind_container hnested (.interface false) rfl rfl hfront (.token hword .nil)
            hplain (fun hinheritable => hheir (by simpa [Container.extend] using hinheritable))
            hreads hnode
      | true =>
          exact foundBehind_container hnested (.interface true) rfl rfl hfront (.token hword .nil)
            hplain (fun hinheritable => hheir (by simpa [Container.extend] using hinheritable))
            hreads hnode

theorem foundBehind_namespaceDef (hnested : Sound extended scope nested) {symbol : Symbol}
    {partiality : Option Token} {front : List Slot}
    (hfront : Fits (Conforms extended) front (Part.ofToken? .partiality partiality))
    (hform : namespaceForm extended front ∈ symbol.forms extended)
    {found : Option Node} (h : namespaceDef nested partiality scope cursor = .ok found moved) :
    FoundBehind partiality.toList scope (Conforms extended { symbol, mode := .never }) cursor
      found moved := by
  obtain ⟨base, afterBase, hbase, h⟩ := (oneOf_inline? _).bind h
  cases base with
  | none =>
      obtain ⟨rfl, rfl⟩ := pure_eq_ok.mp h
      exact hbase.none
  | some base =>
      have hword := hbase.accepted base rfl
      obtain ⟨node, _, hnode, h⟩ := bind_eq_ok.mp (extensions_bind.mp h)
      obtain ⟨rfl, rfl⟩ := pure_eq_ok.mp h
      rw [hnested.extensions_eq] at hnode
      have hreads : Reads scope cursor afterBase (tokensOf [.token .base base]) := by
        simpa [tokensOf] using hbase.reads
      cases extended <;>
        exact foundBehind_container hnested .namespaceDef rfl rfl hfront (.token hword .nil) hform
          (by simp [Container.extend]) hreads hnode

theorem foundBehind_dictionary (hnested : Sound extended scope nested) {symbol : Symbol}
    {partiality : Option Token} {front : List Slot}
    (hfront : Fits (Conforms extended) front (Part.ofToken? .partiality partiality))
    (hplain : containerForm .dictionary Construct.dictionary.tag
      (front ++ [.word .base "dictionary"]) [] .dictionary ∈ symbol.forms extended)
    (hheir : partiality = none → containerForm .dictionary Construct.dictionary.tag
      (front ++ [.word .base "dictionary"]) inheritanceSlots .dictionary ∈ symbol.forms extended)
    {found : Option Node} (h : dictionary nested partiality scope cursor = .ok found moved) :
    FoundBehind partiality.toList scope (Conforms extended { symbol, mode := .never }) cursor
      found moved := by
  obtain ⟨base, afterBase, hbase, h⟩ := (oneOf_inline? _).bind h
  cases base with
  | none =>
      obtain ⟨rfl, rfl⟩ := pure_eq_ok.mp h
      exact hbase.none
  | some base =>
      have hword := hbase.accepted base rfl
      obtain ⟨node, _, hnode, h⟩ := bind_eq_ok.mp (extensions_bind.mp h)
      obtain ⟨rfl, rfl⟩ := pure_eq_ok.mp h
      rw [hnested.extensions_eq] at hnode
      have hreads : Reads scope cursor afterBase (tokensOf [.token .base base]) := by
        simpa [tokensOf] using hbase.reads
      cases extended <;>
        exact foundBehind_container hnested .dictionary rfl rfl hfront (.token hword .nil) hplain
          (fun hinheritable => hheir (by simpa [Container.extend] using hinheritable)) hreads hnode

theorem found_interface (hnested : Sound extended scope nested) {found : Option Node}
    (h : interface nested none scope cursor = .ok found moved) :
    Found scope (Conforms extended { symbol := .interfaceOrMixin, mode := .never }) cursor
      found moved :=
  (foundBehind_interface hnested .nil (List.mem_append_right _ (List.mem_singleton_self _))
    (List.mem_append_left _ List.mem_cons_self)
    (fun _ => List.mem_append_left _ (List.mem_cons_of_mem _ List.mem_cons_self)) h).found

theorem found_namespaceDef (hnested : Sound extended scope nested) {found : Option Node}
    (h : namespaceDef nested none scope cursor = .ok found moved) :
    Found scope (Conforms extended { symbol := .namespaceDef, mode := .never }) cursor
      found moved :=
  (foundBehind_namespaceDef hnested .nil (List.mem_singleton_self _) h).found

theorem found_dictionary (hnested : Sound extended scope nested) {found : Option Node}
    (h : dictionary nested none scope cursor = .ok found moved) :
    Found scope (Conforms extended { symbol := .dictionary, mode := .never }) cursor
      found moved :=
  (foundBehind_dictionary hnested .nil List.mem_cons_self
    (fun _ => List.mem_cons_of_mem _ List.mem_cons_self) h).found

theorem found_partialDefinition (hnested : Sound extended scope nested) {found : Option Node}
    (h : partialDefinition nested scope cursor = .ok found moved) :
    Found scope (Conforms extended { symbol := .partialDefinition, mode := .never }) cursor
      found moved := by
  obtain ⟨partiality, afterPartiality, hpartiality, h⟩ := (oneOf_inline? _).bind h
  cases partiality with
  | none =>
      obtain ⟨rfl, rfl⟩ := pure_eq_ok.mp h
      exact hpartiality.none
  | some partiality =>
      obtain ⟨node, _, hnode, h⟩ := Parser.expect_bind.mp h
      obtain ⟨rfl, rfl⟩ := pure_eq_ok.mp h
      have hfront : Fits (Conforms extended) [.word .partiality "partial"]
          (Part.ofToken? .partiality (some partiality)) :=
        .token (hpartiality.accepted partiality rfl) .nil
      have hform {form : Form} {index : Nat} (h : (partialForms extended)[index]? = some form) :
          form ∈ Symbol.partialDefinition.forms extended := List.mem_of_getElem? h
      obtain ⟨read, hreads, htokens, hconforms⟩ : FoundBehind [partiality] scope
          (Conforms extended { symbol := .partialDefinition, mode := .never }) afterPartiality
          (some node) _ := by
        rcases either_eq_ok.mp hnode with ⟨_, hsome, hdictionary⟩ | ⟨middle, hnone, hrest⟩
        · obtain rfl := Option.some.inj hsome
          exact foundBehind_dictionary hnested hfront (hform (show _[0]? = _ from rfl)) (by simp)
            hdictionary
        -- a parser that finds nothing leaves the cursor where the next one starts
        have hmiddle := foundBehind_dictionary hnested hfront (hform (show _[0]? = _ from rfl))
          (by simp) hnone
        rcases either_eq_ok.mp hrest with ⟨_, hsome, hinterface⟩ | ⟨last, hnone, hnamespace⟩
        · obtain rfl := Option.some.inj hsome
          exact (foundBehind_interface hnested hfront (hform (show _[2]? = _ from rfl))
            (hform (show _[1]? = _ from rfl)) (by simp) hinterface).congr hmiddle.symm
        · have hlast := foundBehind_interface hnested hfront (hform (show _[2]? = _ from rfl))
            (hform (show _[1]? = _ from rfl)) (by simp) hnone
          exact (foundBehind_namespaceDef hnested hfront (hform (show _[3]? = _ from rfl))
            hnamespace).congr (hmiddle.symm.trans hlast.symm)
      exact ⟨by simpa [htokens] using hpartiality.reads.trans hreads, hconforms⟩

/-! ## Callbacks -/

/-- What a function that is called back has behind its words. -/
def callbackTail : List Slot :=
  .token .name .identifier :: .word .assign "=" ::
    .node .type { symbol := .returnType (some returnPlace) .all, mode := .never } ::
    (Slot.arguments ++ [.ending])

theorem callbackFunction_eq_ok (hnested : Sound extended scope nested) {base : Token} {node : Node}
    (h : callbackFunction nested base scope cursor = .ok node moved) :
    ∃ parts, node = .mk { construct := .callbackFunction } (bare :: .token .base base :: parts) ∧
      Reads scope cursor moved (tokensOf parts) ∧
      Fits (Conforms extended) callbackTail parts := by
  obtain ⟨name, afterName, hname, hnamed, h⟩ := oneOf_identifier.expect_bind h
  obtain ⟨assign, afterAssign, hassign, hassigned, h⟩ :=
    (oneOf_inline? _).expect_bind (enter_bind.mp h)
  obtain ⟨type, afterType, htype, h⟩ := Parser.expect_bind.mp h
  obtain ⟨hreadsType, htype⟩ := found_returnType hnested htype
  obtain ⟨opening, afterOpening, hopening, hopened, h⟩ := (oneOf_inline? _).expect_bind h
  obtain ⟨arguments, afterArguments, harguments, h⟩ := bind_eq_ok.mp h
  obtain ⟨hreadsArguments, hitems⟩ := reads_argumentList hnested harguments
  obtain ⟨closing, afterClosing, hclosing, hclosed, h⟩ := (oneOf_inline? _).expect_bind h
  obtain ⟨termination, _, htermination, hended, h⟩ := (oneOf_inline? _).expect_bind h
  obtain ⟨rfl, rfl⟩ := pure_eq_ok.mp h
  refine ⟨.token .name name :: .token .assign assign :: .node .type type ::
    .token .opening opening :: (Part.ofNodes .argument arguments ++ [.token .closing closing,
      .token .termination termination]), by simp, ?_, ?_⟩
  · simpa [tokensOf] using (((((hname.trans (hassign.congr rfl rfl)).trans hreadsType).trans
      hopening).trans hreadsArguments).trans hclosing).trans htermination
  · exact .token hnamed (.token hassigned (.node htype (.token hopened (.list hitems (Nat.zero_le _)
      (.token hclosed (.token hended .nil))))))

theorem found_callback (hnested : Sound extended scope nested) {found : Option Node}
    (h : callback nested scope cursor = .ok found moved) :
    Found scope (Conforms extended { symbol := .callback, mode := .never }) cursor found moved := by
  obtain ⟨word, afterWord, hword, h⟩ := (oneOf_inline? _).bind h
  cases word with
  | none =>
      obtain ⟨rfl, rfl⟩ := pure_eq_ok.mp h
      exact hword.none
  | some word =>
  have hcallback := hword.accepted word rfl
  obtain ⟨base, afterBase, hbase, h⟩ := (oneOf_inline? _).bind h
  cases base with
  | some base =>
      obtain ⟨node, _, hnode, h⟩ := bind_eq_ok.mp (extensions_bind.mp h)
      obtain ⟨rfl, rfl⟩ := pure_eq_ok.mp h
      rw [hnested.extensions_eq] at hnode
      have hreads : Reads scope cursor afterBase
          (tokensOf [.token .callback word, .token .base base]) := by
        simpa [tokensOf] using hword.reads.trans hbase.reads
      have hwords : Fits (Conforms extended) [.word .callback "callback", .word .base "interface"]
          [.token .callback word, .token .base base] :=
        .token hcallback (.token (hbase.accepted base rfl) .nil)
      refine FoundBehind.found (?_ : FoundBehind [] _ _ _ (some node) _)
      cases extended <;>
        exact foundBehind_container hnested .callbackInterface rfl
          (show _ = Part.ofToken? .partiality none ++ _ from rfl) .nil hwords List.mem_cons_self
          (by simp [Container.extend]) hreads hnode
  | none =>
      obtain ⟨node, _, hnode, h⟩ := bind_eq_ok.mp h
      obtain ⟨rfl, rfl⟩ := pure_eq_ok.mp h
      obtain ⟨parts, rfl, hreads, hparts⟩ := callbackFunction_eq_ok hnested hnode
      refine ⟨by simpa [bare, Node.tokens, tokensOf] using
        hword.reads.trans (hreads.congr hbase.none.symm rfl), ?_⟩
      exact .of_form (callbackForm .callbackFunction [])
        (List.mem_cons_of_mem _ (List.mem_singleton_self _)) rfl
        (.node (conforms_noAttributes (by simp)) (.token hcallback hparts))

/-! ## Other definitions -/

theorem found_enumValue (extended : Bool) {found : Option Node}
    (h : enumValue scope cursor = .ok found moved) :
    Found scope (Conforms extended { symbol := .enumValue }) cursor found moved := by
  obtain ⟨value, middle, hvalue, h⟩ := (oneOf_ofKind? (by decide)).bind h
  cases value with
  | none =>
      obtain ⟨rfl, rfl⟩ := pure_eq_ok.mp h
      exact hvalue.none
  | some value =>
      obtain ⟨rfl, rfl⟩ := pure_eq_ok.mp h
      refine ⟨by simpa [Node.tokens, tokensOf] using hvalue.reads, ?_⟩
      exact .of_form _ (List.mem_singleton_self _) rfl (.token (hvalue.accepted value rfl) .nil)

theorem found_enumeration (extended : Bool) {found : Option Node}
    (h : enumeration scope cursor = .ok found moved) :
    Found scope (Conforms extended { symbol := .enumeration, mode := .never }) cursor
      found moved := by
  obtain ⟨base, afterBase, hbase, h⟩ := (oneOf_inline? _).bind h
  cases base with
  | none =>
      obtain ⟨rfl, rfl⟩ := pure_eq_ok.mp h
      exact hbase.none
  | some base =>
      obtain ⟨name, afterName, hname, hnamed, h⟩ := oneOf_identifier.expect_bind h
      obtain ⟨opening, afterOpening, hopening, hopened, h⟩ :=
        (oneOf_inline? _).expect_bind (enter_bind.mp h)
      obtain ⟨values, afterValues, hvalues, h⟩ := bind_eq_ok.mp h
      obtain ⟨hreads, hitems⟩ := reads_commaList (fun _ _ _ => found_enumValue extended) hvalues
      obtain ⟨next, hnext, h⟩ := nextIsKind_bind.mp h
      obtain ⟨-, h⟩ := refuse_bind.mp h
      obtain ⟨closing, afterClosing, hclosing, hclosed, h⟩ := (oneOf_inline? _).expect_bind h
      obtain ⟨hsome, h⟩ := refuse_bind.mp h
      obtain ⟨termination, _, htermination, hended, h⟩ := (oneOf_inline? _).expect_bind h
      obtain ⟨rfl, rfl⟩ := pure_eq_ok.mp h
      have hlength : 1 ≤ values.length := by
        cases values with
        | nil => exact absurd hsome (by simp)
        | cons value others => simp
      refine ⟨by simpa [bare, Node.tokens, tokensOf] using ((((hbase.reads.trans hname).trans
        (hopening.congr rfl rfl)).trans hreads).trans hclosing).trans htermination, ?_⟩
      exact .of_form enumerationForm (List.mem_singleton_self _) rfl
        (.node (conforms_noAttributes (by simp)) (.token (hbase.accepted base rfl)
          (.token hnamed (.token hopened (.list hitems hlength (.token hclosed
            (.token hended .nil)))))))

/-- What a typedef has behind its type. -/
theorem typedefBody_eq_ok {construct : Construct} {base : Token} {type node : Node}
    (h : typedefBody construct base type scope cursor = .ok node moved) :
    ∃ name termination, node = .mk { construct } [bare, .token .base base, .node .type type,
        .token .name name, .token .termination termination] ∧
      Reads scope cursor moved [name, termination] ∧
      Terminal.identifier.accepts name = true ∧ (Terminal.word ";").accepts termination = true := by
  obtain ⟨name, afterName, hname, hnamed, h⟩ := oneOf_identifier.expect_bind h
  obtain ⟨termination, _, htermination, hended, h⟩ :=
    (oneOf_inline? _).expect_bind (enter_bind.mp h)
  obtain ⟨rfl, rfl⟩ := pure_eq_ok.mp h
  exact ⟨name, termination, rfl, hname.trans (htermination.congr rfl rfl), hnamed, hended⟩

theorem found_typedef (hnested : Sound extended scope nested) {found : Option Node}
    (h : typedef nested scope cursor = .ok found moved) :
    Found scope (Conforms extended { symbol := .typedef .all, mode := .never }) cursor
      found moved := by
  obtain ⟨base, afterBase, hbase, h⟩ := (oneOf_inline? _).bind h
  cases base with
  | none =>
      obtain ⟨rfl, rfl⟩ := pure_eq_ok.mp h
      exact hbase.none
  | some base =>
      obtain ⟨type, afterType, htype, h⟩ := Parser.expect_bind.mp h
      obtain ⟨hreadsType, htype⟩ := found_attributedType hnested htype
      obtain ⟨node, _, hnode, h⟩ := bind_eq_ok.mp h
      obtain ⟨rfl, rfl⟩ := pure_eq_ok.mp h
      obtain ⟨name, termination, rfl, hreads, hname, htermination⟩ := typedefBody_eq_ok hnode
      refine ⟨by simpa [bare, Node.tokens, tokensOf] using
        (hbase.reads.trans hreadsType).trans hreads, ?_⟩
      have hattributes : Conforms extended { symbol := .attributes .never } Node.noAttributes :=
        conforms_noAttributes (by simp)
      have hword := hbase.accepted base rfl
      rcases htype.never_or_always (attributed_type _ _) with hnever | halways
      · exact .of_form _ (List.mem_cons_of_mem _ (List.mem_singleton_self _)) rfl
          (.node hattributes (.token hword (.node hnever (.token hname
            (.token htermination .nil)))))
      · exact .of_form _ List.mem_cons_self rfl
          (.node hattributes (.token hword (.node halways (.token hname
            (.token htermination .nil)))))

theorem found_includes (extended : Bool) {found : Option Node}
    (h : includes scope cursor = .ok found moved) :
    Found scope (Conforms extended { symbol := .includes, mode := .never }) cursor found moved := by
  refine found_rewinding h fun node hnode => ?_
  obtain ⟨target, afterTarget, htarget, hnode⟩ := oneOf_identifier.bind hnode
  cases target with
  | none => exact absurd (pure_eq_ok.mp hnode).1 (by simp)
  | some target =>
  obtain ⟨word, afterWord, hword, hnode⟩ := (oneOf_inline? _).bind hnode
  cases word with
  | none => exact absurd (pure_eq_ok.mp hnode).1 (by simp)
  | some word =>
  obtain ⟨mixin, afterMixin, hmixin, hnamed, hnode⟩ := oneOf_identifier.expect_bind hnode
  obtain ⟨termination, _, htermination, hended, hnode⟩ := (oneOf_inline? _).expect_bind hnode
  obtain ⟨hsome, rfl⟩ := pure_eq_ok.mp hnode
  obtain rfl := Option.some.inj hsome
  refine ⟨by simpa [bare, Node.tokens, tokensOf] using ((htarget.reads.trans hword.reads).trans
    hmixin).trans htermination, ?_⟩
  exact .of_form includesForm (List.mem_singleton_self _) rfl
    (.node (conforms_noAttributes (by simp)) (.token (htarget.accepted target rfl)
      (.token (hword.accepted word rfl) (.token hnamed (.token hended .nil)))))

end

end WebIdl.Grammar
