import WebIdl.Proofs.Quiet.Members
import WebIdl.Proofs.Safe.Definitions

/-!
# What definitions note and report

A definition with a name notes that it is being read as soon as it has read the name.  Whatever it
finds behind the name leaves that note alone, so that a definition that has been found is the one
being read (`Heading.of`).

A container is the one construct that fails with a reason, and it does so at its head only: where a
`mixin` stands in the place of its name, and where no brace opens its body (`Unlike`).  From the
opening brace on it keeps quiet, since its members do.
-/

namespace WebIdl

open WebIdl.Parser

/-- What is noted of a definition while it is read. -/
def Heading.of (node : Node) : Heading :=
  ⟨node.tag, node.nameOrEmpty, node.isPartial⟩

theorem Heading.of_eq {label : Label} {parts : List Part} {name : Token} {isPartial : Bool}
    (hconstruct : label.construct ≠ .extendedAttribute)
    (hname : (Node.mk label parts).token? .name = some name)
    (hpartial : (Node.mk label parts).isPartial = isPartial) :
    Heading.of (.mk label parts) = ⟨label.tag, unescape name.text, isPartial⟩ := by
  have hother : ((Node.mk label parts).construct == .extendedAttribute) = false := by
    simpa using hconstruct
  have hunescaped : (Node.mk label parts).nameOrEmpty = unescape name.text := by
    simp only [Node.nameOrEmpty, Node.name, hname, hother, Bool.false_eq_true, if_false]
  rw [Heading.of, hunescaped, hpartial]
  rfl

/-! ## Tokens that are there -/

namespace Parser

variable {scope : Scope} {cursor : Cursor} {token : Token} {more : List Token}

theorem getElem?_of_rest (h : scope.rest cursor = token :: more) :
    scope.source.tokens[cursor.position]? = some token := by
  rw [← Scope.head?_rest, h, List.head?_cons]

theorem rest_of_rest (h : scope.rest cursor = token :: more) {moved : Cursor}
    (hmoved : moved.position = cursor.position + 1) : scope.rest moved = more := by
  have hcons := Scope.rest_eq_cons (getElem?_of_rest h) hmoved
  rw [h] at hcons
  exact (List.cons.inj hcons).2.symm

theorem exists_rest (h : cursor.position < scope.source.tokens.size) :
    ∃ token more, scope.rest cursor = token :: more := by
  have hrest : scope.rest cursor = _ :: scope.rest { cursor with position := cursor.position + 1 } :=
    Scope.rest_eq_cons (Array.getElem?_eq_getElem h) rfl
  exact ⟨_, _, hrest⟩

/-- Behind a token that does not end the text there is another one. -/
theorem exists_next (hends : scope.Ends) (h : scope.rest cursor = token :: more)
    (hkind : token.kind ≠ .eof) : ∃ next others, more = next :: others := by
  have hsize : ({ cursor with position := cursor.position + 1 } : Cursor).position <
      scope.source.tokens.size := hends cursor.position token (getElem?_of_rest h) hkind
  obtain ⟨next, others, hnext⟩ := exists_rest hsize
  exact ⟨next, others, by rw [← hnext, rest_of_rest h rfl]⟩

theorem bind_of_ok {α β : Type} {parser : Parser α} {next : α → Parser β} {value : α}
    {moved : Cursor} (h : parser scope cursor = .ok value moved) :
    (parser >>= next) scope cursor = next value scope moved := by
  simp only [Bind.bind, h]

theorem bind_of_error {α β : Type} {parser : Parser α} {next : α → Parser β} {failure : Failure}
    {moved : Cursor} (h : parser scope cursor = .error failure moved) :
    (parser >>= next) scope cursor = .error failure moved := by
  simp only [Bind.bind, h]

theorem inline?_eq_takeIf (word : String) : inline? [word] = takeIf (·.isInline word) := by
  simp only [inline?, Token.isInline, List.contains_cons, List.contains_nil, Bool.or_false]

theorem inline?_of_accepts {word : String} (h : scope.rest cursor = token :: more)
    (hword : token.isInline word = true) :
    inline? [word] scope cursor = .ok (some token) { cursor with position := cursor.position + 1 } := by
  simp only [inline?_eq_takeIf, takeIf, getElem?_of_rest h, hword, if_true]

theorem inline?_of_rejects {word : String} (h : scope.rest cursor = token :: more)
    (hword : token.isInline word = false) : inline? [word] scope cursor = .ok none cursor := by
  simp only [inline?_eq_takeIf, takeIf, getElem?_of_rest h, hword, Bool.false_eq_true, if_false]

theorem identifier_of_accepts (h : scope.rest cursor = token :: more)
    (hkind : token.kind = .identifier) :
    ofKind? [.identifier] scope cursor =
      .ok (some token) { cursor with position := cursor.position + 1 } := by
  simp [ofKind?, takeIf, getElem?_of_rest h, hkind]

theorem identifier_of_rejects (h : scope.rest cursor = token :: more)
    (hkind : token.kind ≠ .identifier) : ofKind? [.identifier] scope cursor = .ok none cursor := by
  simp [ofKind?, takeIf, getElem?_of_rest h, hkind]

/-- Insisting on what is not there fails at the next token. -/
theorem expect_of_none {α : Type} {parser : Parser (Option α)} (h : scope.rest cursor = token :: more)
    (hnone : parser scope cursor = .ok none cursor) (problem : Problem) :
    ∃ error, expect parser problem scope cursor = .error (.syntaxError error) cursor ∧
      error.problem = problem := by
  simp only [expect, Bind.bind, hnone, fail, getElem?_of_rest h]
  exact ⟨_, rfl, rfl⟩

end Parser

namespace Grammar

section

variable {scope : Scope} {nested : Production → Parser (Option Node)} {cursor moved : Cursor}
  {container : Container}

/-! ## The body of a container -/

theorem quiet_membersFrom (hnested : Hushed scope nested) {members : List Production}
    (hmembers : ∀ production ∈ members, production.isHeaded = false) (fuel : Nat) :
    Quiet scope (membersFrom nested members fuel) := by
  induction fuel with
  | zero => exact quiet_exhausted
  | succ fuel ih =>
      refine (quiet_inline? _).bind fun closing => ?_
      cases closing with
      | some closing => exact quiet_pure _
      | none =>
          refine (quiet_extendedAttributes hnested).bind fun attributes => ?_
          refine ((quiet_firstMatch fun production hproduction =>
            hnested.quiet (hmembers production hproduction)).expect rfl).bind fun member => ?_
          exact ih.bind fun others => quiet_pure _

/-- Behind the opening brace a container keeps quiet. -/
theorem quiet_bracedBody (hnested : Hushed scope nested)
    (hmembers : ∀ production ∈ container.members, production.isHeaded = false) {opening : Token}
    {more : List Token} (hrest : scope.rest cursor = opening :: more)
    (hopening : opening.isInline "\x7b" = true) (name : Token) (inherited : List Part) :
    (bracedBody nested container name inherited scope cursor).Quiet cursor.current := by
  have hbrace : expect (inline? ["\x7b"]) (.bodyless container.tag) scope cursor =
      .ok opening { cursor with position := cursor.position + 1 } :=
    expect_eq_ok.mpr (inline?_of_accepts hrest hopening)
  rw [bracedBody, bind_of_ok hbrace]
  refine quiet_size_bind ((quiet_membersFrom hnested hmembers _).bind fun (members, closing) => ?_)
    { cursor with position := cursor.position + 1 }
  exact ((quiet_inline? _).expect rfl).bind fun termination => quiet_pure _

/-- Where no brace opens the body there is a reason to report. -/
theorem bracedBody_bodyless {next : Token} {more : List Token}
    (hrest : scope.rest cursor = next :: more) (hnext : next.isInline "\x7b" = false)
    (name : Token) (inherited : List Part) :
    ∃ error, bracedBody nested container name inherited scope cursor =
        .error (.syntaxError error) cursor ∧
      error.problem = .bodyless container.tag := by
  obtain ⟨error, hfailed, hproblem⟩ :=
    expect_of_none hrest (inline?_of_rejects hrest hnext) (.bodyless container.tag)
  exact ⟨error, by rw [bracedBody, bind_of_error hfailed], hproblem⟩

/-! ## The head of a container -/

/-- Behind its name, and perhaps a colon and the name of another definition, no brace follows. -/
inductive Bodyless : List Token → Prop
  | alone {next : Token} {more : List Token} (hcolon : next.isInline ":" = false)
      (hbrace : next.isInline "\x7b" = false) : Bodyless (next :: more)
  | heir {colon parent next : Token} {more : List Token} (hcolon : colon.isInline ":" = true)
      (hparent : parent.kind = .identifier) (hbrace : next.isInline "\x7b" = false) :
      Bodyless (colon :: parent :: next :: more)

/-- Behind its words, a container that may inherit is unlike what it should be, for a reason.  The
heading is what it has noted by then. -/
inductive Unlike (container : Container) : List Token → String → Option Heading → Prop
  | mixin {next : Token} {more : List Token} (hnext : next.isInline "mixin" = true) :
      Unlike container (next :: more) Problem.mixinReason none
  | bodyless {name : Token} {more : List Token} (hname : name.kind = .identifier)
      (hmore : Bodyless more) :
      Unlike container (name :: more) Problem.bodylessReason
        (some ⟨container.tag, unescape name.text, container.isPartial⟩)

/-- The parse failed with a reason, and what is noted then is `noted`. -/
def FailsWith (outcome : Outcome Node) (reason : String) (noted : Option Heading) : Prop :=
  ∃ error moved, outcome = .error (.syntaxError error) moved ∧
    error.problem.reason? = some reason ∧ moved.current = noted

/-- If the parse failed, it was without a reason. -/
def FailsPlainly {α : Type} (outcome : Outcome α) : Prop :=
  ∀ failure moved, outcome = .error failure moved → failure.reason? = none

theorem failsPlainly_of_quiet {outcome : Outcome Node} {current : Option Heading}
    (h : outcome.Quiet current) : FailsPlainly outcome := by
  rintro failure moved rfl
  exact h

theorem failsPlainly_of_problem {error : SyntaxError} (h : error.problem.reason? = none) :
    FailsPlainly (.error (.syntaxError error) cursor : Outcome Node) := by
  rintro failure moved heq
  cases heq
  exact h

theorem containerName_of_identifier {name : Token} {more : List Token}
    (hrest : scope.rest cursor = name :: more) (hname : name.kind = .identifier) (tag : String) :
    containerName tag scope cursor =
      .ok name { cursor with position := cursor.position + 1 } := by
  rw [containerName, bind_of_ok (identifier_of_accepts hrest hname)]
  rfl

theorem containerName_of_other {next : Token} {more : List Token}
    (hrest : scope.rest cursor = next :: more) (hnext : next.kind ≠ .identifier) (tag : String) :
    ∃ error, containerName tag scope cursor = .error (.syntaxError error) cursor ∧
      error.problem = .noContainerName tag (next.isInline "mixin") := by
  rw [containerName, bind_of_ok (identifier_of_rejects hrest hnext)]
  simp only [nextIs, peek, Bind.bind, pure, fail, getElem?_of_rest hrest]
  exact ⟨_, rfl, rfl⟩

theorem inheritance_absent {next : Token} {more : List Token}
    (hrest : scope.rest cursor = next :: more) (hcolon : next.isInline ":" = false) :
    inheritance scope cursor = .ok [] cursor := by
  rw [inheritance, bind_of_ok (inline?_of_rejects hrest hcolon)]
  rfl

/-- Behind a colon the name of a definition is read, or its lack is a plain problem. -/
theorem inheritance_present {colon parent : Token} {more : List Token}
    (hrest : scope.rest cursor = colon :: parent :: more) (hcolon : colon.isInline ":" = true) :
    (parent.kind = .identifier → inheritance scope cursor =
        .ok [.token .colon colon, .token .inheritance parent]
          { cursor with position := cursor.position + 1 + 1 }) ∧
      (parent.kind ≠ .identifier → ∃ error moved,
        inheritance scope cursor = .error (.syntaxError error) moved ∧
          error.problem = .noInheritedName) := by
  have hbehind : scope.rest { cursor with position := cursor.position + 1 } = parent :: more :=
    rest_of_rest hrest rfl
  rw [inheritance, bind_of_ok (inline?_of_accepts hrest hcolon)]
  constructor
  · intro hparent
    exact bind_of_ok (expect_eq_ok.mpr (identifier_of_accepts hbehind hparent))
  · intro hparent
    obtain ⟨error, hfailed, hproblem⟩ :=
      expect_of_none hbehind (identifier_of_rejects hbehind hparent) .noInheritedName
    exact ⟨error, _, bind_of_error hfailed, hproblem⟩

/-- With or without a brace, the body of a container. -/
theorem bracedBody_ends (hnested : Hushed scope nested)
    (hmembers : ∀ production ∈ container.members, production.isHeaded = false) {next : Token}
    {more : List Token} (hrest : scope.rest cursor = next :: more) (name : Token)
    (inherited : List Part) :
    (next.isInline "\x7b" = false → FailsWith (bracedBody nested container name inherited scope
        cursor) Problem.bodylessReason cursor.current) ∧
      (next.isInline "\x7b" = true →
        FailsPlainly (bracedBody nested container name inherited scope cursor)) := by
  constructor
  · intro hnext
    obtain ⟨error, hfailed, hproblem⟩ := bracedBody_bodyless hrest hnext name inherited
    exact ⟨error, cursor, hfailed, by rw [hproblem]; rfl, rfl⟩
  · intro hnext
    exact failsPlainly_of_quiet (quiet_bracedBody hnested hmembers hrest hnext name inherited)

theorem kind_of_isInline {token : Token} {word : String} (h : token.isInline word = true) :
    token.kind = .inline := by
  simp only [Token.isInline, Bool.and_eq_true, beq_iff_eq] at h
  exact h.1

/-- Behind its name a container ends with a reason just if it has no body. -/
theorem behindName_ends (hnested : Hushed scope nested) (hends : scope.Ends)
    (hmembers : ∀ production ∈ container.members, production.isHeaded = false)
    {next : Token} {more : List Token} (hrest : scope.rest cursor = next :: more) (name : Token) :
    Bodyless (scope.rest cursor) ∧
        FailsWith ((inheritance >>= bracedBody nested container name) scope cursor)
          Problem.bodylessReason cursor.current ∨
      ¬ Bodyless (scope.rest cursor) ∧
        FailsPlainly ((inheritance >>= bracedBody nested container name) scope cursor) := by
  rw [hrest]
  by_cases hcolon : next.isInline ":" = true
  · -- the brace is looked for behind the name that follows the colon
    obtain ⟨parent, more, rfl⟩ := exists_next hends hrest (by simp [kind_of_isInline hcolon])
    obtain ⟨hnamed, hunnamed⟩ := inheritance_present hrest hcolon
    by_cases hparent : parent.kind = .identifier
    · rw [bind_of_ok (hnamed hparent)]
      have hbehind : scope.rest { cursor with position := cursor.position + 1 } = parent :: more :=
        rest_of_rest hrest rfl
      obtain ⟨third, more, rfl⟩ := exists_next hends hbehind (by simp [hparent])
      have hthird : scope.rest { cursor with position := cursor.position + 1 + 1 } =
          third :: more := rest_of_rest hbehind rfl
      obtain ⟨hbodyless, hbraced⟩ := bracedBody_ends hnested hmembers hthird name
        [.token .colon next, .token .inheritance parent]
      cases hbrace : third.isInline "\x7b" with
      | false => exact Or.inl ⟨.heir hcolon hparent hbrace, hbodyless hbrace⟩
      | true =>
          refine Or.inr ⟨fun h => ?_, hbraced hbrace⟩
          cases h with
          | alone hother => simp [hcolon] at hother
          | heir _ _ hother => simp [hbrace] at hother
    · obtain ⟨error, moved, hfailed, hproblem⟩ := hunnamed hparent
      rw [bind_of_error hfailed]
      refine Or.inr ⟨fun h => ?_, failsPlainly_of_problem (by rw [hproblem]; rfl)⟩
      cases h with
      | alone hother => simp [hcolon] at hother
      | heir _ hother => exact hparent hother
  · replace hcolon : next.isInline ":" = false := by simpa using hcolon
    rw [bind_of_ok (inheritance_absent hrest hcolon)]
    obtain ⟨hbodyless, hbraced⟩ := bracedBody_ends hnested hmembers hrest name []
    cases hbrace : next.isInline "\x7b" with
    | false => exact Or.inl ⟨.alone hcolon hbrace, hbodyless hbrace⟩
    | true =>
        refine Or.inr ⟨fun h => ?_, hbraced hbrace⟩
        cases h with
        | alone _ hother => simp [hbrace] at hother
        | heir hother => simp [hcolon] at hother

/-- How a container that may inherit ends: where its head is unlike what it should be it fails with
the reason, and everywhere else it fails without one, if it fails. -/
theorem containerBody_ends (hnested : Hushed scope nested) (hends : scope.Ends)
    (hmembers : ∀ production ∈ container.members, production.isHeaded = false)
    (hinheritable : container.inheritable = true)
    (hcursor : cursor.position < scope.source.tokens.size) :
    (∃ reason heading, Unlike container (scope.rest cursor) reason heading ∧
      FailsWith (containerBody nested container scope cursor) reason
        (heading <|> cursor.current)) ∨
    (∀ reason heading, ¬ Unlike container (scope.rest cursor) reason heading) ∧
      FailsPlainly (containerBody nested container scope cursor) := by
  obtain ⟨first, more, hfirst⟩ := exists_rest hcursor
  rw [containerBody_eq, hfirst, hinheritable, if_pos rfl]
  by_cases hname : first.kind = .identifier
  · obtain ⟨second, more, rfl⟩ := exists_next hends hfirst (by simp [hname])
    rw [bind_of_ok (containerName_of_identifier hfirst hname container.tag)]
    -- what is read from here on is read with the name noted
    have hbehind : scope.rest { cursor with
        position := cursor.position + 1
        current := some ⟨container.tag, unescape first.text, container.isPartial⟩ } =
          second :: more := rest_of_rest hfirst rfl
    rcases behindName_ends hnested hends hmembers hbehind first with
      ⟨hbodyless, hfails⟩ | ⟨hbody, hplain⟩
    · rw [hbehind] at hbodyless
      exact Or.inl ⟨_, _, .bodyless hname hbodyless, hfails⟩
    · refine Or.inr ⟨fun reason heading h => ?_, hplain⟩
      cases h with
      | mixin hmixin => simp [kind_of_isInline hmixin] at hname
      | bodyless _ hbodyless => exact hbody (hbehind ▸ hbodyless)
  · -- nothing has been noted yet, and only a mixin is a reason
    obtain ⟨error, hfailed, hproblem⟩ := containerName_of_other hfirst hname container.tag
    rw [bind_of_error hfailed]
    cases hmixin : first.isInline "mixin" with
    | true =>
        exact Or.inl ⟨_, _, .mixin hmixin, error, cursor, rfl, by rw [hproblem, hmixin]; rfl, rfl⟩
    | false =>
        refine Or.inr ⟨fun reason heading h => ?_,
          failsPlainly_of_problem (by rw [hproblem, hmixin]; rfl)⟩
        cases h with
        | mixin hother => simp [hmixin] at hother
        | bodyless hother => exact hname hother

/-! ## Definitions that have been found -/

/-- A definition that has been found is the one being read; where none has been found nothing has
changed. -/
def Marks (before : Option Heading) : Option Node → Option Heading → Prop
  | none, heading => heading = before
  | some node, heading => heading = some (Heading.of node)

/-- Among the words of a container there is no name, and there is a `partial` just if it is noted. -/
structure Container.WellLed (container : Container) : Prop where
  construct_ne : container.construct ≠ .extendedAttribute
  name_eq : ∀ label, (Node.mk label container.lead).token? .name = none
  partial_eq : ∀ label, (Node.mk label container.lead).has .partiality = container.isPartial

/-- In these parts there is no word `partial`. -/
def Impartial (parts : List Part) : Prop :=
  ∀ label, (Node.mk label parts).token? .partiality = none

theorem headingOf_container (hled : container.WellLed) {name : Token} {inherited rest : List Part}
    (hinherited : Impartial inherited) (hrest : Impartial rest) :
    Heading.of (.mk { construct := container.construct, tag := container.tag }
      (bare :: (container.lead ++ .token .name name :: (inherited ++ rest)))) =
        ⟨container.tag, unescape name.text, container.isPartial⟩ := by
  refine Heading.of_eq hled.construct_ne ?_ ?_
  · simp [bare, Node.token?_append, hled.name_eq]
  · simp [Node.isPartial, Node.has, bare, Node.token?_append, hinherited _, hrest _,
      ← hled.partial_eq { construct := container.construct, tag := container.tag }]

theorem tracks_inheritance {before : Option Heading} :
    Tracks scope before inheritance fun parts heading => heading = before ∧ Impartial parts := by
  refine (quiet_inline? _).tracks_bind fun colon => ?_
  cases colon with
  | none => exact tracks_pure ⟨rfl, fun _ => rfl⟩
  | some colon =>
      exact (quiet_ofKind? _).tracks_expect_bind fun parent => tracks_pure ⟨rfl, fun _ => rfl⟩

/-- A container that has been found is the definition being read. -/
theorem tracks_containerBody (hnested : Hushed scope nested)
    (hmembers : ∀ production ∈ container.members, production.isHeaded = false)
    (hled : container.WellLed) {before : Option Heading} :
    Tracks scope before (containerBody nested container) fun node heading =>
      node.construct = container.construct ∧ node.tag = container.tag ∧
        heading = some (Heading.of node) := by
  rw [containerBody_eq]
  have hname : Tracks scope before (containerName container.tag) fun _ _ => True :=
    fun _ _ _ _ _ => trivial
  refine hname.bind fun name noted _ => tracks_enter_bind ?_
  -- the heading is noted before the parents, and nothing behind it changes that
  have hinherited : Tracks scope
      (some ⟨container.tag, unescape name.text, container.isPartial⟩)
      (if container.inheritable then inheritance else pure [] : Parser (List Part))
      fun parts heading =>
        heading = some ⟨container.tag, unescape name.text, container.isPartial⟩ ∧
          Impartial parts := by
    split
    · exact tracks_inheritance
    · exact tracks_pure ⟨rfl, fun _ => rfl⟩
  refine hinherited.bind ?_
  rintro inherited _ ⟨rfl, hfree⟩
  refine (quiet_inline? _).tracks_expect_bind fun opening => tracks_size_bind ?_
  refine (quiet_membersFrom hnested hmembers _).tracks_bind fun (members, closing) => ?_
  refine (quiet_inline? _).tracks_expect_bind fun termination => tracks_pure ⟨rfl, rfl, ?_⟩
  -- nothing in the body makes the container partial
  have hrest : Impartial (.token .opening opening :: (Part.ofNodes .member members ++
      [.token .closing closing, .token .termination termination])) := by
    intro label
    simp
  rw [← headingOf_container hled hfree hrest]
  simp

/-- A production that finds just what a parser of definitions finds. -/
theorem tracks_found {before : Option Heading} {parser : Parser Node}
    (hparser : Tracks scope before parser fun node heading => heading = some (Heading.of node)) :
    Tracks scope before (do return some (← parser)) (Marks before) :=
  hparser.bind fun _ _ hheading => tracks_pure hheading

theorem tracks_container (hnested : Hushed scope nested)
    (hmembers : ∀ production ∈ container.members, production.isHeaded = false)
    (hled : container.WellLed) {before : Option Heading} :
    Tracks scope before (containerBody nested container) fun node heading =>
      heading = some (Heading.of node) :=
  fun cursor node moved hcursor h =>
    (tracks_containerBody hnested hmembers hled cursor node moved hcursor h).2.2

/-- What a dialect adds to a container changes neither its words nor what it takes notice of. -/
theorem Container.WellLed.extend (hled : container.WellLed) (extension : ContainerExtension) :
    (container.extend extension).WellLed :=
  ⟨hled.construct_ne, hled.name_eq, hled.partial_eq⟩

theorem headless_extend {extension : ContainerExtension}
    (hadded : ∀ production ∈ extension.members, production.isHeaded = false)
    (hmembers : ∀ production ∈ container.members, production.isHeaded = false) :
    ∀ production ∈ (container.extend extension).members, production.isHeaded = false := by
  intro production hproduction
  rcases List.mem_append.mp hproduction with hmember | hmember
  · exact hadded production hmember
  · exact hmembers production hmember

theorem Hushed.extension_headless (hnested : Hushed scope nested) {extension : ContainerExtension}
    (hextension : extension ∈ [scope.extensions.interface, scope.extensions.callbackInterface,
      scope.extensions.namespaceDef, scope.extensions.dictionary]) :
    ∀ production ∈ extension.members, production.isHeaded = false := by
  intro production hproduction
  refine hnested.added_headless production ?_
  simp only [List.mem_cons, List.not_mem_nil, or_false] at hextension
  rcases hextension with rfl | rfl | rfl | rfl <;> simp [Extensions.added, hproduction]

theorem wellLed_of_words {partiality : Option Token} {words : List Part}
    (hconstruct : container.construct ≠ .extendedAttribute)
    (hlead : container.lead = Part.ofToken? .partiality partiality ++ words)
    (hpartial : container.isPartial = partiality.isSome)
    (hname : ∀ label, (Node.mk label words).token? .name = none) (hwords : Impartial words) :
    container.WellLed := by
  refine ⟨hconstruct, fun label => ?_, fun label => ?_⟩
  · simp [hlead, hname]
  · simp [Node.has, hlead, hpartial, hwords label]

/-- A container that a dialect may extend is the definition being read once it has been found. -/
theorem tracks_extended (hnested : Hushed scope nested) {pick : Extensions → ContainerExtension}
    (hpick : pick scope.extensions ∈ [scope.extensions.interface,
      scope.extensions.callbackInterface, scope.extensions.namespaceDef,
      scope.extensions.dictionary])
    (hmembers : ∀ production ∈ container.members, production.isHeaded = false)
    (hled : container.WellLed) {before : Option Heading} :
    Tracks scope before (do
        let extensions ← extensions
        return some (← containerBody nested (container.extend (pick extensions))))
      (Marks before) := by
  refine tracks_extensions_bind (tracks_found (tracks_container hnested ?_ (hled.extend _)))
  exact headless_extend (hnested.extension_headless hpick) hmembers

theorem tracks_interface (hnested : Hushed scope nested) {before : Option Heading}
    (partiality : Option Token) :
    Tracks scope before (interface nested partiality) (Marks before) := by
  refine (quiet_inline? _).tracks_bind fun base => ?_
  cases base with
  | none => exact tracks_pure rfl
  | some base =>
      refine (quiet_inline? _).tracks_bind fun mixin => ?_
      cases mixin with
      | some mixin =>
          refine tracks_found (tracks_container hnested (by simp [Production.isHeaded]) ?_)
          exact wellLed_of_words (by simp) (List.append_assoc ..) rfl (fun _ => rfl) fun _ => rfl
      | none =>
          refine tracks_extended hnested (by simp) (by simp [interfaceMembers, Production.isHeaded]) ?_
          exact wellLed_of_words (by simp) rfl rfl (fun _ => rfl) fun _ => rfl

theorem tracks_namespaceDef (hnested : Hushed scope nested) {before : Option Heading}
    (partiality : Option Token) :
    Tracks scope before (namespaceDef nested partiality) (Marks before) := by
  refine (quiet_inline? _).tracks_bind fun base => ?_
  cases base with
  | none => exact tracks_pure rfl
  | some base =>
      refine tracks_extended hnested (by simp) (by simp [Production.isHeaded]) ?_
      exact wellLed_of_words (by simp) rfl rfl (fun _ => rfl) fun _ => rfl

theorem tracks_dictionary (hnested : Hushed scope nested) {before : Option Heading}
    (partiality : Option Token) :
    Tracks scope before (dictionary nested partiality) (Marks before) := by
  refine (quiet_inline? _).tracks_bind fun base => ?_
  cases base with
  | none => exact tracks_pure rfl
  | some base =>
      refine tracks_extended hnested (by simp) (by simp [Production.isHeaded]) ?_
      exact wellLed_of_words (by simp) rfl rfl (fun _ => rfl) fun _ => rfl

/-- What the first parser leaves as it was is there for the second one. -/
theorem tracks_either {before : Option Heading} {first second : Parser (Option Node)}
    (hfirst : Tracks scope before first (Marks before))
    (hsecond : Tracks scope before second (Marks before)) :
    Tracks scope before (either first second) (Marks before) := by
  refine hfirst.bind fun found heading hmarks => ?_
  cases found with
  | some node => exact tracks_pure hmarks
  | none =>
      obtain rfl : heading = before := hmarks
      exact hsecond

theorem tracks_partialDefinition (hnested : Hushed scope nested) {before : Option Heading} :
    Tracks scope before (partialDefinition nested) (Marks before) := by
  refine (quiet_inline? _).tracks_bind fun partiality => ?_
  cases partiality with
  | none => exact tracks_pure rfl
  | some partiality =>
      have hdictionary : Tracks scope before (dictionary nested (some partiality)) (Marks before) :=
        tracks_dictionary hnested (some partiality)
      have hfound := tracks_either hdictionary
        (tracks_either (tracks_interface hnested (some partiality))
          (tracks_namespaceDef hnested (some partiality)))
      refine tracks_found fun cursor node moved hcursor h => ?_
      exact hfound cursor (some node) moved hcursor (expect_eq_ok.mp h)

/-! ## Other definitions -/

/-- The type and the arguments of a function that is called back leave the note of its name alone. -/
theorem tracks_signature (hnested : Hushed scope nested) {before : Option Heading} {heading : Heading}
    {unassigned untyped unopened unclosed unterminated : Problem}
    {build : Token → Node → Token → List Node → Token → Token → Node}
    (hbuild : ∀ assign type opening arguments closing termination,
      Heading.of (build assign type opening arguments closing termination) = heading) :
    Tracks scope before (do
        enter heading
        let assign ← expect (inline? ["="]) unassigned
        let type ← expect (returnType nested none) untyped
        let opening ← expect (inline? ["("]) unopened
        let arguments ← argumentList nested
        let closing ← expect (inline? [")"]) unclosed
        let termination ← expect (inline? [";"]) unterminated
        return build assign type opening arguments closing termination)
      fun node noted => noted = some (Heading.of node) := by
  refine tracks_enter_bind ((quiet_inline? _).tracks_expect_bind fun assign => ?_)
  refine (quiet_returnType hnested).tracks_expect_bind fun type => ?_
  refine (quiet_inline? _).tracks_expect_bind fun opening => ?_
  refine (quiet_argumentList hnested).tracks_bind fun arguments => ?_
  refine (quiet_inline? _).tracks_expect_bind fun closing => ?_
  refine (quiet_inline? _).tracks_expect_bind fun termination => tracks_pure ?_
  rw [hbuild]

theorem tracks_callbackFunction (hnested : Hushed scope nested) {before : Option Heading}
    (base : Token) : Tracks scope before (callbackFunction nested base) fun node heading =>
      heading = some (Heading.of node) := by
  refine (quiet_ofKind? _).tracks_expect_bind fun name => tracks_signature hnested ?_
  intros
  exact Heading.of_eq (by simp) (by simp [bare]) (by simp [Node.isPartial, Node.has, bare])

theorem tracks_callback (hnested : Hushed scope nested) {before : Option Heading} :
    Tracks scope before (callback nested) (Marks before) := by
  refine (quiet_inline? _).tracks_bind fun word => ?_
  cases word with
  | none => exact tracks_pure rfl
  | some word =>
      refine (quiet_inline? _).tracks_bind fun base => ?_
      cases base with
      | none => exact tracks_found (tracks_callbackFunction hnested word)
      | some base =>
          refine tracks_extended hnested (by simp) (by simp [Production.isHeaded]) ?_
          exact ⟨by simp, fun _ => rfl, fun _ => rfl⟩

theorem tracks_enumeration {before : Option Heading} :
    Tracks scope before enumeration (Marks before) := by
  refine (quiet_inline? _).tracks_bind fun base => ?_
  cases base with
  | none => exact tracks_pure rfl
  | some base =>
      refine (quiet_ofKind? _).tracks_expect_bind fun name => tracks_enter_bind ?_
      refine (quiet_inline? _).tracks_expect_bind fun opening => ?_
      refine (quiet_commaList quiet_enumValue _ _).tracks_bind fun values => ?_
      refine (quiet_nextIsKind _).tracks_bind fun isString => ?_
      refine (quiet_refuse rfl).tracks_bind fun _ => ?_
      refine (quiet_inline? _).tracks_expect_bind fun closing => ?_
      refine (quiet_refuse rfl).tracks_bind fun _ => ?_
      refine (quiet_inline? _).tracks_expect_bind fun termination =>
        tracks_pure (congrArg some (Eq.symm ?_))
      exact Heading.of_eq (by simp) (by simp [bare]) (by simp [Node.isPartial, Node.has, bare])

theorem tracks_typedefBody {before : Option Heading} {construct : Construct}
    (hconstruct : construct ≠ .extendedAttribute) (base : Token) (type : Node) :
    Tracks scope before (typedefBody construct base type) fun node heading =>
      heading = some (Heading.of node) := by
  refine (quiet_ofKind? _).tracks_expect_bind fun name => tracks_enter_bind ?_
  refine (quiet_inline? _).tracks_expect_bind fun termination =>
    tracks_pure (congrArg some (Eq.symm ?_))
  exact Heading.of_eq hconstruct (by simp [bare]) (by simp [Node.isPartial, Node.has, bare])

theorem tracks_typedef (hnested : Hushed scope nested) {before : Option Heading} :
    Tracks scope before (typedef nested) (Marks before) := by
  refine (quiet_inline? _).tracks_bind fun base => ?_
  cases base with
  | none => exact tracks_pure rfl
  | some base =>
      refine (quiet_attributedType hnested).tracks_expect_bind fun type => ?_
      exact tracks_found (tracks_typedefBody (by simp) base type)

theorem tracks_utf8StringTypedef (hnested : Hushed scope nested) {before : Option Heading} :
    Tracks scope before (utf8StringTypedef nested) (Marks before) := by
  refine Tracks.rewinding ((quiet_inline? _).tracks_bind fun base => ?_)
  cases base with
  | none => exact tracks_pure rfl
  | some base =>
      refine (quiet_utf8StringRecord hnested).tracks_bind fun type => ?_
      cases type with
      | none => exact tracks_pure rfl
      | some type => exact tracks_found (tracks_typedefBody (by simp) base _)

theorem tracks_bodylessInterface {before : Option Heading} :
    Tracks scope before bodylessInterface (Marks before) := by
  refine Tracks.rewinding ((quiet_inline? _).tracks_bind fun base => ?_)
  cases base with
  | none => exact tracks_pure rfl
  | some base =>
      refine (quiet_ofKind? _).tracks_bind fun name => ?_
      cases name with
      | none => exact tracks_pure rfl
      | some name =>
          refine (quiet_inline? _).tracks_bind fun termination => ?_
          cases termination with
          | none => exact tracks_pure rfl
          | some termination =>
              refine tracks_enter_bind (tracks_pure (congrArg some (Eq.symm ?_)))
              exact Heading.of_eq (by simp) (by simp [bare])
                (by simp [Node.isPartial, Node.has, bare])

theorem tracks_callbackConstructor (hnested : Hushed scope nested) {before : Option Heading} :
    Tracks scope before (callbackConstructor nested) (Marks before) := by
  refine Tracks.rewinding ((quiet_inline? _).tracks_bind fun base => ?_)
  cases base with
  | none => exact tracks_pure rfl
  | some base =>
      refine (quiet_inline? _).tracks_bind fun word => ?_
      cases word with
      | none => exact tracks_pure rfl
      | some word =>
          refine tracks_found ((quiet_ofKind? _).tracks_expect_bind fun name =>
            tracks_signature hnested ?_)
          intros
          exact Heading.of_eq (by simp) (by simp [bare]) (by simp [Node.isPartial, Node.has, bare])

end

end Grammar

/-- A definition with a name is the one being read once it has been found, and where it is not found
nothing changes.  The exception is an interface that is left to other productions. -/
theorem Production.tracks_step {scope : Scope} {nested : Production → Parser (Option Node)}
    (hnested : Grammar.Hushed scope nested) {production : Production}
    (hheaded : production.isHeaded = true) (hproduction : production ≠ .legacyCallerInterface)
    {before : Option Heading} :
    Tracks scope before (production.step nested) (Grammar.Marks before) := by
  cases production with
  | dictionary => exact Grammar.tracks_dictionary hnested none
  | namespaceDef => exact Grammar.tracks_namespaceDef hnested none
  | enumeration => exact Grammar.tracks_enumeration
  | typedef => exact Grammar.tracks_typedef hnested
  | callback => exact Grammar.tracks_callback hnested
  | interface => exact Grammar.tracks_interface hnested none
  | partialDefinition => exact Grammar.tracks_partialDefinition hnested
  | bodylessInterface => exact Grammar.tracks_bodylessInterface
  | callbackConstructor => exact Grammar.tracks_callbackConstructor hnested
  | utf8StringTypedef => exact Grammar.tracks_utf8StringTypedef hnested
  | legacyCallerInterface => exact absurd rfl hproduction
  | _ => exact absurd hheaded (by simp [isHeaded])

end WebIdl
