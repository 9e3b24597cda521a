import WebIdl.Proofs.Mirror.Members
import WebIdl.Proofs.Sound.Definitions

/-!
# What a view shows of definitions

Definitions and whole texts are parsed alike on a stream of tokens and on what a view shows of it
(`mirrors_definitions`).  So two streams that look alike under a view are parsed alike.
-/

namespace WebIdl

open WebIdl.Parser WebIdl.Shape WebIdl.Grammar

namespace Grammar

section

variable {mirror : Mirror} {nested nested' : Production → Parser (Option Node)}

/-! ## Definitions with members -/

theorem Reflects.firstMatch (h : Reflects mirror nested nested') {productions : List Production}
    (hproductions : ∀ production ∈ productions,
      mirror.view.Spells ∨ isExtension production = false) :
    Mirrors mirror (Option.map mirror.view.node) (ForSome Always)
      (Parser.firstMatch nested productions) (Parser.firstMatch nested' productions) :=
  mirrors_firstMatch fun production hproduction =>
    h.production production (hproductions production hproduction)

theorem mirrors_membersFrom (h : Reflects mirror nested nested') {members : List Production}
    (hmembers : ∀ production ∈ members, mirror.view.Spells ∨ isExtension production = false)
    (fuel : Nat) :
    Mirrors mirror (Prod.map (List.map mirror.view.node) mirror.view.of) Always
      (membersFrom nested members fuel) (membersFrom nested' members fuel) := by
  induction fuel with
  | zero => exact fun _ _ _ => .cut
  | succ fuel ih =>
      refine (mirrors_inline? _).bind fun closing _ => ?_
      cases closing with
      | some closing => exact mirrors_pure rfl trivial
      | none =>
          refine (mirrors_extendedAttributes h).bind fun attributes _ => ?_
          refine ((h.firstMatch hmembers).expect (.refl _)).bind fun member _ => ?_
          exact ih.bind fun others _ => mirrors_pure (by simp) trivial

theorem mirrors_inheritance :
    Mirrors mirror mirror.view.parts Always inheritance inheritance := by
  refine (mirrors_inline? _).bind fun colon _ => ?_
  cases colon with
  | none => exact mirrors_pure rfl trivial
  | some colon =>
      exact ((mirrors_ofKind? _).expect (.refl _)).bind fun parent _ => mirrors_pure rfl trivial

theorem mirrors_containerName (tag : String) :
    Mirrors mirror mirror.view.of Always (containerName tag) (containerName tag) := by
  refine (mirrors_ofKind? _).bind fun name _ => ?_
  cases name with
  | some name => exact mirrors_pure rfl trivial
  | none => exact (mirrors_nextIs _).bind fun isMixin _ => mirrors_fail (.refl _)

/-- The container behind the words that the view shows. -/
def Container.shown (view : View) (container : Container) : Container :=
  { container with lead := view.parts container.lead }

theorem mirrors_containerBody (h : Reflects mirror nested nested') {container image : Container}
    (hshown : image = container.shown mirror.view)
    (hmembers : ∀ production ∈ container.members,
      mirror.view.Spells ∨ isExtension production = false) :
    Mirrors mirror mirror.view.node Always (containerBody nested container)
      (containerBody nested' image) := by
  rw [hshown, containerBody_eq, containerBody_eq]
  refine (mirrors_containerName _).bind fun name _ => mirrors_enter_bind ?_
  have hinherited : Mirrors mirror mirror.view.parts Always
      (if container.inheritable then inheritance else pure [] : Parser (List Part))
      (if container.inheritable then inheritance else pure [] : Parser (List Part)) := by
    split
    · exact mirrors_inheritance
    · exact mirrors_pure rfl trivial
  refine hinherited.bind fun inherited _ => ?_
  refine ((mirrors_inline? _).expect (.refl _)).bind fun opening _ => mirrors_size_bind fun size => ?_
  refine (mirrors_membersFrom h hmembers (size + 1)).bind fun body _ => ?_
  refine ((mirrors_inline? _).expect (.refl _)).bind fun termination _ => ?_
  exact mirrors_pure (by simp [Container.shown]) trivial

/-- What a dialect adds to a container is for a view that shows spellings. -/
theorem Reflects.extend (h : Reflects mirror nested nested') {container : Container}
    (hown : container.members.all (!isExtension ·) = true)
    {slot : Extensions → ContainerExtension} (hslot : slot {} = {}) :
    ∀ production ∈ (container.extend (slot mirror.scope.extensions)).members,
      mirror.view.Spells ∨ isExtension production = false := by
  intro production hproduction
  rcases h.spells with hspells | hnone
  · exact Or.inl hspells
  · rw [hnone, hslot] at hproduction
    exact Or.inr (by simpa using List.all_eq_true.mp hown production hproduction)

theorem mirrors_interface (h : Reflects mirror nested nested') (partiality : Option Token) :
    Mirrors mirror (Option.map mirror.view.node) (ForSome Always) (interface nested partiality)
      (interface nested' (partiality.map mirror.view.of)) := by
  refine (mirrors_inline? _).bind fun base _ => ?_
  cases base with
  | none => exact mirrors_pure rfl forSome_none
  | some base =>
      simp only [Option.map_some, Option.isSome_map, Option.isNone_map]
      refine (mirrors_inline? _).bind fun mixin _ => ?_
      cases mixin with
      | some mixin =>
          refine (mirrors_containerBody h (by simp [Container.shown]) ?_).bind fun node _ =>
            mirrors_pure rfl (forSome_some trivial)
          simp [isExtension]
      | none =>
          refine mirrors_extensions_bind ((mirrors_containerBody h
            (by simp [Container.shown, Container.extend]) ?_).bind fun node _ =>
              mirrors_pure rfl (forSome_some trivial))
          exact h.extend rfl rfl

theorem mirrors_namespaceDef (h : Reflects mirror nested nested') (partiality : Option Token) :
    Mirrors mirror (Option.map mirror.view.node) (ForSome Always) (namespaceDef nested partiality)
      (namespaceDef nested' (partiality.map mirror.view.of)) := by
  refine (mirrors_inline? _).bind fun base _ => ?_
  cases base with
  | none => exact mirrors_pure rfl forSome_none
  | some base =>
      refine mirrors_extensions_bind ((mirrors_containerBody h
        (by simp [Container.shown, Container.extend]) ?_).bind fun node _ =>
          mirrors_pure rfl (forSome_some trivial))
      exact h.extend rfl rfl

theorem mirrors_dictionary (h : Reflects mirror nested nested') (partiality : Option Token) :
    Mirrors mirror (Option.map mirror.view.node) (ForSome Always) (dictionary nested partiality)
      (dictionary nested' (partiality.map mirror.view.of)) := by
  refine (mirrors_inline? _).bind fun base _ => ?_
  cases base with
  | none => exact mirrors_pure rfl forSome_none
  | some base =>
      refine mirrors_extensions_bind ((mirrors_containerBody h
        (by simp [Container.shown, Container.extend]) ?_).bind fun node _ =>
          mirrors_pure rfl (forSome_some trivial))
      exact h.extend rfl rfl

theorem mirrors_partialDefinition (h : Reflects mirror nested nested') :
    Mirrors mirror (Option.map mirror.view.node) (ForSome Always) (partialDefinition nested)
      (partialDefinition nested') := by
  refine (mirrors_inline? _).bind fun partiality _ => ?_
  cases partiality with
  | none => exact mirrors_pure rfl forSome_none
  | some partiality =>
      refine (((mirrors_dictionary h (some partiality)).either
        ((mirrors_interface h (some partiality)).either
          (mirrors_namespaceDef h (some partiality)))).expect (.refl _)).bind fun node _ => ?_
      exact mirrors_pure rfl (forSome_some trivial)

/-! ## Callbacks -/

theorem mirrors_callbackFunction (h : Reflects mirror nested nested') (base : Token) :
    Mirrors mirror mirror.view.node Always (callbackFunction nested base)
      (callbackFunction nested' (mirror.view.of base)) := by
  refine ((mirrors_ofKind? _).expect (.refl _)).bind fun name _ => mirrors_enter_bind ?_
  refine ((mirrors_inline? _).expect (.refl _)).bind fun assign _ => ?_
  refine ((mirrors_returnType h).expect (.refl _)).bind fun type _ => ?_
  refine ((mirrors_inline? _).expect (.refl _)).bind fun opening _ => ?_
  refine (mirrors_argumentList h).bind fun arguments _ => ?_
  refine ((mirrors_inline? _).expect (.refl _)).bind fun closing _ => ?_
  refine ((mirrors_inline? _).expect (.refl _)).bind fun termination _ => ?_
  exact mirrors_pure (by simp) trivial

theorem mirrors_callback (h : Reflects mirror nested nested') :
    Mirrors mirror (Option.map mirror.view.node) (ForSome Always) (callback nested)
      (callback nested') := by
  refine (mirrors_inline? _).bind fun word _ => ?_
  cases word with
  | none => exact mirrors_pure rfl forSome_none
  | some word =>
      refine (mirrors_inline? _).bind fun base _ => ?_
      cases base with
      | some base =>
          refine mirrors_extensions_bind ((mirrors_containerBody h
            (by simp [Container.shown, Container.extend]) ?_).bind fun node _ =>
              mirrors_pure rfl (forSome_some trivial))
          exact h.extend rfl rfl
      | none =>
          exact (mirrors_callbackFunction h word).bind fun node _ =>
            mirrors_pure rfl (forSome_some trivial)

/-! ## Other definitions -/

theorem mirrors_enumValue :
    Mirrors mirror (Option.map mirror.view.node) (ForSome Always) enumValue enumValue := by
  refine (mirrors_ofKind? _).bind fun value _ => ?_
  cases value with
  | none => exact mirrors_pure rfl forSome_none
  | some value => exact mirrors_pure rfl (forSome_some trivial)

theorem mirrors_enumeration :
    Mirrors mirror (Option.map mirror.view.node) (ForSome Always) enumeration enumeration := by
  refine (mirrors_inline? _).bind fun base _ => ?_
  cases base with
  | none => exact mirrors_pure rfl forSome_none
  | some base =>
      refine ((mirrors_ofKind? _).expect (.refl _)).bind fun name _ => mirrors_enter_bind ?_
      refine ((mirrors_inline? _).expect (.refl _)).bind fun opening _ => ?_
      refine (mirrors_commaList mirrors_enumValue _ _).bind fun values _ => ?_
      refine (mirrors_nextIsKind _).bind fun isString _ => mirrors_refuse_bind rfl (.refl _) ?_
      refine ((mirrors_inline? _).expect (.refl _)).bind fun closing _ => ?_
      refine mirrors_refuse_bind (by simp) (.refl _) ?_
      refine ((mirrors_inline? _).expect (.refl _)).bind fun termination _ => ?_
      exact mirrors_pure (by simp) (forSome_some trivial)

theorem mirrors_typedefBody (construct : Construct) (base : Token) {type type' : Node}
    (htype : type' = mirror.view.node type) :
    Mirrors mirror mirror.view.node Always (typedefBody construct base type)
      (typedefBody construct (mirror.view.of base) type') := by
  subst htype
  refine ((mirrors_ofKind? _).expect (.refl _)).bind fun name _ => mirrors_enter_bind ?_
  exact ((mirrors_inline? _).expect (.refl _)).bind fun termination _ => mirrors_pure rfl trivial

theorem mirrors_typedef (h : Reflects mirror nested nested') :
    Mirrors mirror (Option.map mirror.view.node) (ForSome Always) (typedef nested)
      (typedef nested') := by
  refine (mirrors_inline? _).bind fun base _ => ?_
  cases base with
  | none => exact mirrors_pure rfl forSome_none
  | some base =>
      refine ((mirrors_typed h).expect (.refl _)).bind fun type _ => ?_
      exact (mirrors_typedefBody .typedef base rfl).bind fun node _ =>
        mirrors_pure rfl (forSome_some trivial)

theorem mirrors_includes :
    Mirrors mirror (Option.map mirror.view.node) (ForSome Always) includes includes := by
  refine Mirrors.rewinding ((mirrors_ofKind? _).bind fun target _ => ?_)
  cases target with
  | none => exact mirrors_pure rfl forSome_none
  | some target =>
      refine (mirrors_inline? _).bind fun word _ => ?_
      cases word with
      | none => exact mirrors_pure rfl forSome_none
      | some word =>
          refine ((mirrors_ofKind? _).expect (.refl _)).bind fun mixin _ => ?_
          refine ((mirrors_inline? _).expect (.refl _)).bind fun termination _ => ?_
          exact mirrors_pure rfl (forSome_some trivial)

/-! ## Extensions -/

theorem mirrors_bodylessInterface :
    Mirrors mirror (Option.map mirror.view.node) (ForSome Always) bodylessInterface
      bodylessInterface := by
  refine Mirrors.rewinding ((mirrors_inline? _).bind fun base _ => ?_)
  cases base with
  | none => exact mirrors_pure rfl forSome_none
  | some base =>
      refine (mirrors_ofKind? _).bind fun name _ => ?_
      cases name with
      | none => exact mirrors_pure rfl forSome_none
      | some name =>
          refine (mirrors_inline? _).bind fun termination _ => ?_
          cases termination with
          | none => exact mirrors_pure rfl forSome_none
          | some termination =>
              exact mirrors_enter_bind (mirrors_pure rfl (forSome_some trivial))

theorem mirrors_callbackConstructorBody (h : Reflects mirror nested nested') (base word : Token) :
    Mirrors mirror mirror.view.node Always (callbackConstructorBody nested base word)
      (callbackConstructorBody nested' (mirror.view.of base) (mirror.view.of word)) := by
  refine ((mirrors_ofKind? _).expect (.refl _)).bind fun name _ => mirrors_enter_bind ?_
  refine ((mirrors_inline? _).expect (.refl _)).bind fun assign _ => ?_
  refine ((mirrors_returnType h).expect (.refl _)).bind fun type _ => ?_
  refine ((mirrors_inline? _).expect (.refl _)).bind fun opening _ => ?_
  refine (mirrors_argumentList h).bind fun arguments _ => ?_
  refine ((mirrors_inline? _).expect (.refl _)).bind fun closing _ => ?_
  refine ((mirrors_inline? _).expect (.refl _)).bind fun termination _ => ?_
  exact mirrors_pure (by simp) trivial

theorem mirrors_callbackConstructor (h : Reflects mirror nested nested') :
    Mirrors mirror (Option.map mirror.view.node) (ForSome Always) (callbackConstructor nested)
      (callbackConstructor nested') := by
  refine Mirrors.rewinding ((mirrors_inline? _).bind fun base _ => ?_)
  cases base with
  | none => exact mirrors_pure rfl forSome_none
  | some base =>
      refine (mirrors_inline? _).bind fun word _ => ?_
      cases word with
      | none => exact mirrors_pure rfl forSome_none
      | some word =>
          exact (mirrors_callbackConstructorBody h base word).bind fun node _ =>
            mirrors_pure rfl (forSome_some trivial)

theorem mirrors_legacyCaller (h : Reflects mirror nested nested') (hspells : mirror.view.Spells) :
    Mirrors mirror (Option.map mirror.view.node) (ForSome Always) (legacyCaller nested)
      (legacyCaller nested') := by
  refine (mirrors_identifier? hspells _).bind fun special hspecial => ?_
  cases special with
  | none => exact mirrors_pure rfl forSome_none
  | some special =>
      exact (mirrors_specialOperation h .legacyCaller hspecial.of_some).bind fun node _ =>
        mirrors_pure rfl (forSome_some trivial)

theorem mirrors_legacyCallerInterface (h : Reflects mirror nested nested')
    (hspells : mirror.view.Spells) :
    Mirrors mirror (Option.map mirror.view.node) (ForSome Always) (legacyCallerInterface nested)
      (legacyCallerInterface nested') := by
  intro cursor other hposition
  refine ((mirrors_inline? _).bind fun base _ => ?_) cursor other hposition
  cases base with
  | none => exact mirrors_pure rfl forSome_none
  | some base =>
      rw [hposition]
      exact (mirrors_containerBody h (by simp [Container.shown])
        fun _ _ => Or.inl hspells).deferring _ _

theorem mirrors_utf8StringRecord (h : Reflects mirror nested nested')
    (hspells : mirror.view.Spells) :
    Mirrors mirror (Option.map mirror.view.node) (ForSome Always) (utf8StringRecord nested)
      (utf8StringRecord nested') := by
  refine Mirrors.rewinding ((mirrors_inline? _).bind fun base _ => ?_)
  cases base with
  | none => exact mirrors_pure rfl forSome_none
  | some base =>
      refine (mirrors_inline? _).bind fun opening _ => ?_
      cases opening with
      | none => exact mirrors_pure rfl forSome_none
      | some opening =>
          refine (mirrors_identifier? hspells _).bind fun key _ => ?_
          cases key with
          | none => exact mirrors_pure rfl forSome_none
          | some key =>
              refine ((mirrors_inline? _).expect (.refl _)).bind fun comma _ => ?_
              refine ((h.standard rfl).expect (.refl _)).bind fun value _ => ?_
              refine ((mirrors_inline? _).expect (.refl _)).bind fun closing _ => ?_
              refine mirrors_nullableMark.bind fun mark _ => ?_
              exact mirrors_pure (by simp) (forSome_some trivial)

theorem mirrors_utf8StringField (h : Reflects mirror nested nested')
    (hspells : mirror.view.Spells) :
    Mirrors mirror (Option.map mirror.view.node) (ForSome Always) (utf8StringField nested)
      (utf8StringField nested') := by
  refine Mirrors.rewinding ((mirrors_inline? _).bind fun required _ => ?_)
  refine (mirrors_utf8StringRecord h hspells).bind fun type _ => ?_
  cases type with
  | none => exact mirrors_pure rfl forSome_none
  | some type =>
      exact (mirrors_fieldBody .utf8StringField required (by simp)).bind fun node _ =>
        mirrors_pure rfl (forSome_some trivial)

theorem mirrors_utf8StringTypedef (h : Reflects mirror nested nested')
    (hspells : mirror.view.Spells) :
    Mirrors mirror (Option.map mirror.view.node) (ForSome Always) (utf8StringTypedef nested)
      (utf8StringTypedef nested') := by
  refine Mirrors.rewinding ((mirrors_inline? _).bind fun base _ => ?_)
  cases base with
  | none => exact mirrors_pure rfl forSome_none
  | some base =>
      refine (mirrors_utf8StringRecord h hspells).bind fun type _ => ?_
      cases type with
      | none => exact mirrors_pure rfl forSome_none
      | some type =>
          exact (mirrors_typedefBody .utf8StringTypedef base (by simp)).bind fun node _ =>
            mirrors_pure rfl (forSome_some trivial)

end

end Grammar

/-! ## The recursion -/

section

variable {mirror : Mirror} {nested nested' : Production → Parser (Option Node)}

theorem Production.mirrors_step (h : Reflects mirror nested nested') {production : Production}
    (hproduction : mirror.view.Spells ∨ isExtension production = false) :
    Mirrors mirror (Option.map mirror.view.node) (ForSome Always) (production.step nested)
      (production.step nested') := by
  have htype {parser parser' : Parser (Option Node)}
      (htells : Mirrors mirror (Option.map mirror.view.node) (ForSome mirror.view.Tells) parser
        parser') :
      Mirrors mirror (Option.map mirror.view.node) (ForSome Always) parser parser' :=
    htells.weaken fun _ _ _ _ => trivial
  have hfound {parser parser' : Parser Node}
      (hparser : Mirrors mirror mirror.view.node Always parser parser') :
      Mirrors mirror (Option.map mirror.view.node) (ForSome Always) (some <$> parser)
        (some <$> parser') :=
    hparser.bind fun _ _ => mirrors_pure rfl (forSome_some trivial)
  -- the productions of extensions compare spellings
  have hspells (hextension : isExtension production = true) : mirror.view.Spells := by
    rcases hproduction with hspells | hstandard
    · exact hspells
    · cases hextension.symm.trans hstandard
  cases production with
  | extendedAttribute => exact mirrors_extendedAttribute h
  | extendedAttributes => exact hfound (mirrors_extendedAttributes h)
  | default => exact mirrors_default
  | argument => exact mirrors_argument h
  | genericType place => exact htype (mirrors_genericType h)
  | integerType => exact htype mirrors_integerType
  | decimalType => exact htype mirrors_decimalType
  | primitiveType => exact htype mirrors_primitiveType
  | singleType place => exact htype (mirrors_singleType h)
  | unionType place => exact htype (mirrors_unionType h)
  | type place => exact htype (mirrors_type h)
  | attributedType place => exact mirrors_typed h
  | returnType place => exact htype (mirrors_returnType h)
  | «attribute» noInherit mustBeReadonly => exact mirrors_attributeMember h forSome_none _ _
  | operation isRegular => exact hfound (mirrors_operation h isRegular)
  | constant => exact mirrors_constant
  | constructor => exact mirrors_constructor h
  | staticMember => exact mirrors_specialMember h _
  | stringifier => exact mirrors_specialMember h _
  | iterableLike => exact mirrors_iterableLike h
  | field => exact hfound (mirrors_field h)
  | dictionary => exact mirrors_dictionary h none
  | namespaceDef => exact mirrors_namespaceDef h none
  | enumeration => exact mirrors_enumeration
  | typedef => exact mirrors_typedef h
  | includes => exact mirrors_includes
  | callback => exact mirrors_callback h
  | interface => exact mirrors_interface h none
  | partialDefinition => exact mirrors_partialDefinition h
  | bodylessInterface => exact mirrors_bodylessInterface
  | callbackConstructor => exact mirrors_callbackConstructor h
  | legacyCaller => exact mirrors_legacyCaller h (hspells rfl)
  | legacyCallerInterface => exact mirrors_legacyCallerInterface h (hspells rfl)
  | utf8StringRecord => exact mirrors_utf8StringRecord h (hspells rfl)
  | utf8StringField => exact mirrors_utf8StringField h (hspells rfl)
  | utf8StringTypedef => exact mirrors_utf8StringTypedef h (hspells rfl)

/-- At a greater depth a production ends alike, unless the smaller one was reached. -/
theorem Production.reflects_parseTo (h : mirror.view.Spells ∨ mirror.scope.extensions = {})
    {depth deeper : Nat} (hdepth : depth ≤ deeper) :
    Reflects mirror (parseTo depth) (parseTo deeper) := by
  induction depth generalizing deeper with
  | zero => exact ⟨h, fun _ _ _ _ _ => .cut, fun _ _ _ _ => .cut⟩
  | succ depth ih =>
      obtain ⟨deeper, rfl⟩ : ∃ less, deeper = less + 1 := ⟨deeper - 1, by omega⟩
      have hnested := ih (Nat.le_of_succ_le_succ hdepth)
      exact ⟨h, fun _ hproduction => mirrors_step hnested hproduction,
        fun _ => mirrors_attributedType hnested⟩

theorem Grammar.mirrors_definitionsFrom (h : Reflects mirror nested nested')
    {productions : List Production}
    (hproductions : ∀ production ∈ productions,
      mirror.view.Spells ∨ isExtension production = false) (fuel : Nat) :
    Mirrors mirror (List.map mirror.view.node) Always (definitionsFrom nested productions fuel)
      (definitionsFrom nested' productions fuel) := by
  induction fuel with
  | zero => exact fun _ _ _ => .cut
  | succ fuel ih =>
      refine (mirrors_extendedAttributes h).bind fun attributes _ => ?_
      refine (h.firstMatch hproductions).bind fun found _ => ?_
      cases found with
      | none => exact mirrors_refuse_bind (by simp) (.refl _) (mirrors_pure rfl trivial)
      | some definition => exact ih.bind fun others _ => mirrors_pure (by simp) trivial

/-- A text is parsed alike on its tokens and on what a view shows of them. -/
theorem Grammar.mirrors_definitions {productions : List Production}
    (hspells : mirror.view.Spells ∨ mirror.scope.extensions = {} ∧ productions = [])
    {depth deeper : Nat → Nat} (hdepth : ∀ tokens, depth tokens ≤ deeper tokens) :
    Mirrors mirror (List.map mirror.view.node) Always
      (recursivelyTo depth fun nested => definitions nested productions)
      (recursivelyTo deeper fun nested => definitions nested productions) := by
  have hextensions : mirror.view.Spells ∨ mirror.scope.extensions = {} := hspells.imp_right (·.1)
  have hproductions : ∀ production ∈ productions ++ standardDefinitions,
      mirror.view.Spells ∨ isExtension production = false := by
    intro production hproduction
    rcases hspells with hspells | ⟨-, rfl⟩
    · exact Or.inl hspells
    · have hstandard : standardDefinitions.all (!isExtension ·) = true := by decide
      exact Or.inr (by simpa using List.all_eq_true.mp hstandard production hproduction)
  refine mirrors_size_bind fun tokens => mirrors_size_bind fun size => ?_
  have h := Production.reflects_parseTo hextensions (hdepth tokens)
  refine (mirrors_definitionsFrom h hproductions (size + 1)).bind fun found _ => ?_
  exact ((mirrors_ofKind? _).expect (.refl _)).bind fun closing _ => mirrors_pure (by simp) trivial

end

/-! ## Scopes that look alike -/

/-- If the view shows spellings, what is shown of a problem is the problem itself. -/
theorem Problem.Mirrors.eq_of_spells {view : View} (hspells : view.Spells) {problem image : Problem}
    (h : problem.Mirrors view image) : image = problem := by
  rcases h with rfl | ⟨token, rfl, rfl⟩
  · rfl
  · rw [(hspells token).value_eq]

/-- Two parses that are shown alike failed at one place. -/
theorem Failure.Mirrors.position_eq {view : View} {error other : SyntaxError} {shown : Failure}
    (h : (Failure.syntaxError error).Mirrors view shown)
    (hother : (Failure.syntaxError other).Mirrors view shown) :
    other.position = error.position := by
  cases h with
  | syntaxError _ hposition =>
      cases hother with
      | syntaxError _ hposition' => rw [← hposition, ← hposition']

/-- If the view shows spellings, they failed for one reason. -/
theorem Failure.Mirrors.problem_eq {view : View} (hspells : view.Spells)
    {error other : SyntaxError} {shown : Failure}
    (h : (Failure.syntaxError error).Mirrors view shown)
    (hother : (Failure.syntaxError other).Mirrors view shown) : other.problem = error.problem := by
  cases h with
  | syntaxError hproblem _ =>
      cases hother with
      | syntaxError hproblem' _ => rw [← hproblem.eq_of_spells hspells, ← hproblem'.eq_of_spells hspells]

/-- Texts whose tokens look alike are parsed alike, as far as the bound on the depth is not reached. -/
theorem Grammar.definitions_of_view {view : View} {productions : List Production}
    {scope other : Scope}
    (hscope : ∀ moved, recursively (definitions · productions) scope {} ≠ .error .exhausted moved)
    (hother : ∀ moved, recursively (definitions · productions) other {} ≠ .error .exhausted moved)
    (htokens : other.source.tokens.map view.of = scope.source.tokens.map view.of)
    (hextensions : other.extensions = scope.extensions)
    (hspells : view.Spells ∨ scope.extensions = {} ∧ productions = []) :
    (∃ items moved others stopped,
      recursively (definitions · productions) scope {} = .ok items moved ∧
      recursively (definitions · productions) other {} = .ok others stopped ∧
      others.map view.node = items.map view.node) ∨
    ∃ failure moved reported stopped shown,
      recursively (definitions · productions) scope {} = .error failure moved ∧
      recursively (definitions · productions) other {} = .error reported stopped ∧
      failure.Mirrors view shown ∧ reported.Mirrors view shown := by
  -- both scopes are compared with the one whose tokens are looked at already
  let image : Scope := { scope with
    source := { scope.source with tokens := scope.source.tokens.map view.of } }
  let first : Mirror := ⟨view, scope, image, rfl, rfl⟩
  let second : Mirror := ⟨view, other, image, htokens.symm, hextensions.symm⟩
  have hdepth (tokens : Nat) : depthFor tokens ≤ depthFor tokens := Nat.le_refl _
  have hfirst := @mirrors_definitions first productions hspells _ _ hdepth {} {} rfl
  have hsecond := @mirrors_definitions second productions
    (hspells.imp_right fun h => ⟨hextensions.trans h.1, h.2⟩) _ _ hdepth {} {} rfl
  change Outcome.Mirrors _ _ _ (recursively (definitions · productions) scope {})
    (recursively (definitions · productions) image {}) at hfirst
  change Outcome.Mirrors _ _ _ (recursively (definitions · productions) other {})
    (recursively (definitions · productions) image {}) at hsecond
  generalize recursively (definitions · productions) image {} = shown at hfirst hsecond
  generalize recursively (definitions · productions) scope {} = outcome at hfirst hscope ⊢
  generalize recursively (definitions · productions) other {} = outcome' at hsecond hother ⊢
  -- the outcome on the image is the outcome on either
  cases hfirst with
  | ok _ hposition =>
      generalize hitems : List.map view.node _ = images at hsecond
      cases hsecond with
      | ok _ hposition' => exact Or.inl ⟨_, _, _, _, rfl, rfl, hitems.symm⟩
      | cut => exact absurd rfl (hother _)
  | error hfailure =>
      cases hsecond with
      | error hreported => exact Or.inr ⟨_, _, _, _, _, rfl, rfl, hfailure, hreported⟩
      | cut => exact absurd rfl (hother _)
  | cut => exact absurd rfl (hscope _)

/-! ## Greater depths -/

/-- With a greater bound on the depth a text is parsed alike, unless the smaller one was reached. -/
theorem Grammar.definitions_deeper {productions : List Production} {scope : Scope}
    {depth deeper : Nat → Nat} (hdepth : ∀ tokens, depth tokens ≤ deeper tokens) :
    (∃ moved, recursivelyTo depth (definitions · productions) scope {} = .error .exhausted moved) ∨
    (∃ items moved stopped,
      recursivelyTo depth (definitions · productions) scope {} = .ok items moved ∧
      recursivelyTo deeper (definitions · productions) scope {} = .ok items stopped) ∨
    ∃ failure moved reported stopped,
      recursivelyTo depth (definitions · productions) scope {} = .error failure moved ∧
      recursivelyTo deeper (definitions · productions) scope {} = .error reported stopped ∧
      failure.Mirrors View.whole reported := by
  have houtcome := @mirrors_definitions (.same scope) productions (Or.inl View.spells_whole) _ _
    hdepth {} {} rfl
  simp only [Mirror.same] at houtcome
  generalize recursivelyTo depth (definitions · productions) scope {} = outcome at houtcome ⊢
  generalize recursivelyTo deeper (definitions · productions) scope {} = outcome' at houtcome ⊢
  cases houtcome with
  | ok _ hposition =>
      rw [View.node_whole, List.map_id]
      exact Or.inr (Or.inl ⟨_, _, _, rfl, rfl⟩)
  | error hfailure => exact Or.inr (Or.inr ⟨_, _, _, _, rfl, rfl, hfailure⟩)
  | cut => exact Or.inl ⟨_, rfl⟩

/-- Two parses ended alike: they found the same, or they failed with one problem at one token. -/
def Outcome.Agrees {α : Type} (outcome other : Outcome α) : Prop :=
  (∃ value moved stopped, outcome = .ok value moved ∧ other = .ok value stopped) ∨
    ∃ error moved reported stopped, outcome = .error (.syntaxError error) moved ∧
      other = .error (.syntaxError reported) stopped ∧
      error.problem = reported.problem ∧ error.position = reported.position

theorem Outcome.Agrees.symm {α : Type} {outcome other : Outcome α} (h : outcome.Agrees other) :
    other.Agrees outcome := by
  rcases h with ⟨value, moved, stopped, hleft, hright⟩ |
    ⟨error, moved, reported, stopped, hleft, hright, hproblem, hposition⟩
  · exact Or.inl ⟨value, stopped, moved, hright, hleft⟩
  · exact Or.inr ⟨reported, stopped, error, moved, hright, hleft, hproblem.symm, hposition.symm⟩

/-- Failures that mirror each other agree, if one of them is a syntax error. -/
theorem Failure.Mirrors.agrees {α : Type} {failure reported : Failure} {moved stopped : Cursor}
    (h : failure.Mirrors View.whole reported)
    (hrefused : (∃ error, failure = .syntaxError error) ∨ ∃ error, reported = .syntaxError error) :
    (Outcome.error failure moved : Outcome α).Agrees (.error reported stopped) := by
  cases h with
  | syntaxError hproblem hposition =>
      exact Or.inr ⟨_, _, _, _, rfl, rfl, (hproblem.eq_of_spells View.spells_whole).symm,
        hposition.symm⟩
  | pastEnd => simp at hrefused
  | missing token => simp at hrefused

end WebIdl
