import WebIdl.Proofs.Parser.Mirror
import WebIdl.Proofs.Sound.Types

/-!
# What a view shows of productions below definitions

The parsers of attributes, types and members end alike on a stream of tokens and on what a view shows
of it.  Of the types that are looked at after they have been found, the view tells whether they are
promises and whether they are `any`.
-/

namespace WebIdl.Grammar

open WebIdl.Parser WebIdl.Shape

/-- The productions that extensions add. -/
def isExtension : Production → Bool
  | .bodylessInterface | .callbackConstructor | .legacyCaller | .legacyCallerInterface
  | .utf8StringRecord | .utf8StringField | .utf8StringTypedef => true
  | _ => false

/-- The productions inside end alike.  Extensions look at the spelling of names, so a view that does
not show it is for the standard language. -/
structure Reflects (mirror : Mirror) (nested nested' : Production → Parser (Option Node)) : Prop where
  spells : mirror.view.Spells ∨ mirror.scope.extensions = {}
  production : ∀ production, mirror.view.Spells ∨ isExtension production = false →
    Mirrors mirror (Option.map mirror.view.node) (ForSome Always) (nested production)
      (nested' production)
  attributedType : ∀ place,
    Mirrors mirror (Option.map mirror.view.node) (ForSome mirror.view.Tells)
      (nested (.attributedType place)) (nested' (.attributedType place))

section

variable {mirror : Mirror} {nested nested' : Production → Parser (Option Node)}
  {place : Option String}

theorem Reflects.standard (h : Reflects mirror nested nested') {production : Production}
    (hproduction : isExtension production = false) :
    Mirrors mirror (Option.map mirror.view.node) (ForSome Always) (nested production)
      (nested' production) :=
  h.production production (Or.inr hproduction)

/-! ## Attributes -/

theorem mirrors_argumentList (h : Reflects mirror nested nested') :
    Mirrors mirror (List.map mirror.view.node) Always (argumentList nested) (argumentList nested') :=
  mirrors_commaList (h.standard rfl) _ _

theorem mirrors_wrappedToken (kind : Token.Kind) :
    Mirrors mirror (Option.map mirror.view.node) (ForSome Always) (wrappedToken kind)
      (wrappedToken kind) := by
  refine (mirrors_ofKind? _).bind fun value _ => ?_
  cases value with
  | none => exact mirrors_pure rfl forSome_none
  | some value => exact mirrors_pure rfl (forSome_some trivial)

theorem mirrors_valueList (kinds : List Token.Kind) :
    Mirrors mirror (List.map mirror.view.node) Always (valueList kinds) (valueList kinds) := by
  induction kinds with
  | nil => exact mirrors_fail (.refl _)
  | cons kind others ih =>
      refine (mirrors_commaList (mirrors_wrappedToken kind) _ _).bind fun values _ => ?_
      cases values with
      | nil => exact ih
      | cons value values => exact mirrors_pure rfl trivial

theorem mirrors_extendedAttribute (h : Reflects mirror nested nested') :
    Mirrors mirror (Option.map mirror.view.node) (ForSome Always) (extendedAttribute nested)
      (extendedAttribute nested') := by
  refine (mirrors_ofKind? _).bind fun name _ => ?_
  cases name with
  | none => exact mirrors_pure rfl forSome_none
  | some name =>
      refine (mirrors_inline? _).bind fun assign _ => ?_
      refine ((mirrors_inline? _).when? (by simp)).bind fun asterisk _ => ?_
      cases asterisk with
      | some star => exact mirrors_pure (by simp) (forSome_some trivial)
      | none =>
          refine ((mirrors_ofKind? _).when? (by simp)).bind fun secondary _ => ?_
          refine (mirrors_inline? _).bind fun opening _ => ?_
          cases opening with
          | none =>
              exact mirrors_refuse_bind (by simp) (.refl _)
                (mirrors_pure (by simp) (forSome_some trivial))
          | some opening =>
              simp only [Option.map_some, Option.isSome_map, Option.isNone_map]
              split
              · refine (mirrors_valueList _).bind fun entries _ => ?_
                refine ((mirrors_inline? _).expect (.refl _)).bind fun closing _ => ?_
                exact mirrors_pure (by simp) (forSome_some trivial)
              · refine (mirrors_argumentList h).bind fun entries _ => ?_
                refine ((mirrors_inline? _).expect (.refl _)).bind fun closing _ => ?_
                exact mirrors_pure (by simp) (forSome_some trivial)

theorem mirrors_extendedAttributes (h : Reflects mirror nested nested') :
    Mirrors mirror mirror.view.node Always (extendedAttributes nested)
      (extendedAttributes nested') := by
  refine (mirrors_inline? _).bind fun opening _ => ?_
  cases opening with
  | none => exact mirrors_pure rfl trivial
  | some opening =>
      refine (mirrors_commaList (mirrors_extendedAttribute h) _ _).bind fun items _ => ?_
      refine ((mirrors_inline? _).expect (.refl _)).bind fun closing _ => ?_
      refine mirrors_refuse_bind (by simp) (.refl _) ((mirrors_nextIs _).bind fun second _ => ?_)
      exact mirrors_refuse_bind rfl (.refl _) (mirrors_pure (by simp) trivial)

/-! ## Types -/

@[simp] theorem node_typeNode (parts : List Part) :
    mirror.view.node (typeNode place parts) = typeNode place (mirror.view.parts parts) := rfl

@[simp] theorem parts_bare (rest : List Part) :
    mirror.view.parts (bare :: rest) = bare :: mirror.view.parts rest := rfl

theorem mirrors_nullableMark :
    Mirrors mirror (Option.map mirror.view.of) (ForSome Always) nullableMark nullableMark := by
  refine (mirrors_word _).bind fun mark _ => (mirrors_nextIs _).bind fun second _ => ?_
  exact mirrors_refuse_bind rfl (.refl _) (mirrors_pure rfl fun _ _ => trivial)

theorem mirrors_integerType :
    Mirrors mirror (Option.map mirror.view.node) (ForSome mirror.view.Tells) integerType
      integerType := by
  refine (mirrors_inline? _).bind fun sign hsign => (mirrors_inline? _).bind fun base hbase => ?_
  cases base with
  | none =>
      exact mirrors_refuse_bind (by simp) (.refl _) (mirrors_pure rfl forSome_none)
  | some base =>
      have htext : (mirror.view.of base).text = base.text := hbase.of_some
      refine ((mirrors_inline? _).when? (by rw [htext])).bind fun doubling hdoubling => ?_
      refine mirrors_pure (by simp) (forSome_some (View.tells_of_keeps fun role hrole token htoken => ?_))
      simp only [List.mem_cons, List.not_mem_nil, or_false] at hrole
      rcases hrole with rfl | rfl | rfl
      · exact hsign token (by simpa [typeNode, bare] using htoken)
      · exact hbase token (by simpa [typeNode, bare] using htoken)
      · exact hdoubling token (by simpa [typeNode, bare] using htoken)

theorem mirrors_decimalType :
    Mirrors mirror (Option.map mirror.view.node) (ForSome mirror.view.Tells) decimalType
      decimalType := by
  refine (mirrors_inline? _).bind fun sign hsign => (mirrors_inline? _).bind fun base hbase => ?_
  cases base with
  | none =>
      exact mirrors_refuse_bind (by simp) (.refl _) (mirrors_pure rfl forSome_none)
  | some base =>
      refine mirrors_pure (by simp) (forSome_some (View.tells_of_keeps fun role hrole token htoken => ?_))
      simp only [List.mem_cons, List.not_mem_nil, or_false] at hrole
      rcases hrole with rfl | rfl | rfl
      · exact hsign token (by simpa [typeNode, bare] using htoken)
      · exact hbase token (by simpa [typeNode, bare] using htoken)
      · simp [typeNode, bare] at htoken

/-- Of a type that is one word the view shows whether that is `any`. -/
theorem tells_oneWord (base : Token) : mirror.view.Tells (typeNode place [.token .base base]) := by
  have hany := mirror.view.any_of base
  simpa [View.Tells, typeNode, bare, Node.applies, Node.genericName, Node.typeName, Node.has] using hany

theorem mirrors_oneWord {word word' : Parser (Option Token)}
    (hword : Mirrors mirror (Option.map mirror.view.of) (ForSome Always) word word') :
    Mirrors mirror (Option.map mirror.view.node) (ForSome mirror.view.Tells) (oneWord word)
      (oneWord word') := by
  refine hword.bind fun base _ => ?_
  cases base with
  | none => exact mirrors_pure rfl forSome_none
  | some base => exact mirrors_pure rfl (forSome_some (tells_oneWord base))

theorem mirrors_primitiveType :
    Mirrors mirror (Option.map mirror.view.node) (ForSome mirror.view.Tells) primitiveType
      primitiveType :=
  mirrors_integerType.either (mirrors_decimalType.either (mirrors_oneWord (mirrors_word _)))

theorem mirrors_namedType :
    Mirrors mirror (Option.map mirror.view.node) (ForSome mirror.view.Tells) namedType namedType := by
  refine ((mirrors_ofKind? _).either (mirrors_word _)).bind fun base _ => ?_
  cases base with
  | none => exact mirrors_pure rfl forSome_none
  | some base =>
      refine (mirrors_nextIs _).bind fun isGeneric _ => ?_
      exact mirrors_refuse_bind rfl (Or.inr ⟨base, rfl, rfl⟩)
        (mirrors_pure rfl (forSome_some (tells_oneWord base)))

theorem mirrors_genericArguments (h : Reflects mirror nested nested') (generic : String) :
    Mirrors mirror (List.map mirror.view.node) Always (genericArguments nested place generic)
      (genericArguments nested' place generic) := by
  unfold genericArguments
  split
  · refine (mirrors_nextIs _).bind fun isAttributed _ => mirrors_refuse_bind rfl (.refl _) ?_
    exact ((h.standard rfl).expect (.refl _)).bind fun type _ => mirrors_pure rfl trivial
  · refine (mirrors_nextIs _).bind fun isAttributed _ => mirrors_refuse_bind rfl (.refl _) ?_
    refine ((mirrors_inline? _).expect (.refl _)).bind fun key _ => ?_
    refine ((mirrors_inline? _).expect (.refl _)).bind fun comma _ => ?_
    refine ((h.standard rfl).expect (.refl _)).bind fun value _ => mirrors_pure ?_ trivial
    simp
  · exact ((h.standard rfl).expect (.refl _)).bind fun type _ => mirrors_pure rfl trivial

theorem mirrors_genericType (h : Reflects mirror nested nested') :
    Mirrors mirror (Option.map mirror.view.node) (ForSome mirror.view.Tells)
      (genericType nested place) (genericType nested' place) := by
  refine (mirrors_inline? _).bind fun base hbase => ?_
  cases base with
  | none => exact mirrors_pure rfl forSome_none
  | some base =>
      have htext : (mirror.view.of base).text = base.text := hbase.of_some
      simp only [Option.map_some, htext]
      refine ((mirrors_inline? _).expect (.refl _)).bind fun opening _ => ?_
      refine (mirrors_genericArguments h base.text).bind fun subtypes _ => ?_
      refine ((mirrors_inline? _).expect (.refl _)).bind fun closing _ => ?_
      refine mirrors_pure (by simp) (forSome_some (View.tells_of_keeps fun role hrole token htoken => ?_))
      simp only [List.mem_cons, List.not_mem_nil, or_false] at hrole
      rcases hrole with rfl | rfl | rfl
      · simp [typeNode, bare] at htoken
      · exact hbase token (by simpa [typeNode, bare] using htoken)
      · simp [typeNode, bare] at htoken

@[simp] theorem node_withNullable (mark : Option Token) (type : Node) :
    mirror.view.node (withNullable mark type) =
      withNullable (mark.map mirror.view.of) (mirror.view.node type) := by
  cases type
  simp [withNullable]

theorem tells_withNullable {type : Node} (h : mirror.view.Tells type) (mark : Option Token) :
    mirror.view.Tells (withNullable mark type) := by
  obtain ⟨label, parts⟩ := type
  refine h.congr rfl fun role hrole => ?_
  have hother : Role.nullable ≠ role := by
    rintro rfl
    simp at hrole
  simp [withNullable, Node.token?_append, hother]

theorem mirrors_singleType (h : Reflects mirror nested nested') :
    Mirrors mirror (Option.map mirror.view.node) (ForSome mirror.view.Tells)
      (singleType nested place) (singleType nested' place) := by
  refine mirrors_extensions_bind ?_
  have hcustom : Mirrors mirror (Option.map mirror.view.node) (ForSome mirror.view.Tells)
      (firstMatch nested mirror.scope.extensions.types)
      (firstMatch nested' mirror.scope.extensions.types) := by
    refine mirrors_firstMatch fun production hproduction => ?_
    rcases h.spells with hspells | hnone
    · exact (h.production production (Or.inl hspells)).weaken fun _ _ type _ => hspells.tells type
    · rw [hnone] at hproduction
      cases hproduction
  refine hcustom.bind fun custom hcustom => ?_
  cases custom with
  | some custom => exact mirrors_pure (by simp) (forSome_some (hcustom.of_some.withPlace place))
  | none =>
      refine ((mirrors_genericType h).either
        (mirrors_primitiveType.either mirrors_namedType)).bind fun found hfound => ?_
      cases found with
      | none => exact mirrors_pure rfl forSome_none
      | some type =>
          have htells : mirror.view.Tells type := hfound.of_some
          refine mirrors_present_bind htells.1 fun isPromise =>
            (mirrors_nextIs _).bind fun isNullable _ => mirrors_refuse_bind rfl (.refl _) ?_
          refine mirrors_nullableMark.bind fun mark _ =>
            mirrors_refuse_bind (by rw [htells.2, Option.isSome_map]) (.refl _) ?_
          exact mirrors_pure (by simp) (forSome_some (tells_withNullable (htells.withPlace place) mark))

theorem mirrors_unionMembers (h : Reflects mirror nested nested') (fuel : Nat) :
    Mirrors mirror (List.map mirror.view.node) Always (unionMembers nested fuel)
      (unionMembers nested' fuel) := by
  induction fuel with
  | zero => exact fun _ _ _ => .cut
  | succ fuel ih =>
      refine ((h.attributedType none).expect (.refl _)).bind fun type htells => ?_
      refine mirrors_refuse_bind htells.2 (.refl _) (mirrors_present_bind htells.1 fun isPromise => ?_)
      refine mirrors_refuse_bind rfl (.refl _) ?_
      refine (mirrors_inline? _).bind fun separator _ => ?_
      cases separator with
      | none => exact mirrors_pure rfl trivial
      | some separator => exact ih.bind fun others _ => mirrors_pure (by simp) trivial

theorem mirrors_unionType (h : Reflects mirror nested nested') :
    Mirrors mirror (Option.map mirror.view.node) (ForSome mirror.view.Tells)
      (unionType nested place) (unionType nested' place) := by
  refine (mirrors_inline? _).bind fun opening _ => ?_
  cases opening with
  | none => exact mirrors_pure rfl forSome_none
  | some opening =>
      refine mirrors_size_bind fun size => (mirrors_unionMembers h (size + 1)).bind fun members _ => ?_
      refine mirrors_refuse_bind (by simp) (.refl _) ?_
      refine ((mirrors_inline? _).expect (.refl _)).bind fun closing _ => ?_
      refine mirrors_nullableMark.bind fun mark _ => mirrors_pure (by simp) (forSome_some ?_)
      exact tells_withNullable (View.tells_of_union rfl) mark

theorem mirrors_type (h : Reflects mirror nested nested') :
    Mirrors mirror (Option.map mirror.view.node) (ForSome mirror.view.Tells)
      (type nested place) (type nested' place) :=
  (mirrors_singleType h).either (mirrors_unionType h)

theorem mirrors_attributedType (h : Reflects mirror nested nested') :
    Mirrors mirror (Option.map mirror.view.node) (ForSome mirror.view.Tells)
      (attributedType nested place) (attributedType nested' place) := by
  refine Mirrors.rewinding ((mirrors_extendedAttributes h).bind fun attributes _ => ?_)
  refine (mirrors_type h).bind fun found hfound => ?_
  cases found with
  | none => exact mirrors_pure rfl forSome_none
  | some type =>
      exact mirrors_pure (by simp) (forSome_some (hfound.of_some.withAttributes attributes))

/-- What is found is a type, whichever it is. -/
theorem mirrors_typed (h : Reflects mirror nested nested') :
    Mirrors mirror (Option.map mirror.view.node) (ForSome Always)
      (attributedType nested place) (attributedType nested' place) :=
  (mirrors_attributedType h).weaken fun _ _ _ _ => trivial

theorem mirrors_returnType (h : Reflects mirror nested nested') :
    Mirrors mirror (Option.map mirror.view.node) (ForSome mirror.view.Tells)
      (returnType nested place) (returnType nested' place) := by
  rw [returnType_eq, returnType_eq]
  refine (mirrors_type h).either ((mirrors_inline? _).bind fun base _ => ?_)
  cases base with
  | none => exact mirrors_pure rfl forSome_none
  | some base => exact mirrors_pure rfl (forSome_some (tells_oneWord base))

/-! ## Defaults and arguments -/

theorem mirrors_constantValue :
    Mirrors mirror (Option.map mirror.view.of) (ForSome Always) constantValue constantValue :=
  (mirrors_word _).either (mirrors_ofKind? _)

theorem mirrors_defaultClosing (opening : Token) :
    Mirrors mirror (Option.map mirror.view.of) (ForSome Always) (defaultClosing opening)
      (defaultClosing (mirror.view.of opening)) := by
  simp only [defaultClosing, mirror.view.square_of, mirror.view.brace_of]
  split
  · exact ((mirrors_word _).expect (.refl _)).bind fun closing _ => mirrors_pure rfl (forSome_some trivial)
  · split
    · exact ((mirrors_word _).expect (.refl _)).bind fun closing _ =>
        mirrors_pure rfl (forSome_some trivial)
    · exact mirrors_pure rfl forSome_none

theorem mirrors_default :
    Mirrors mirror (Option.map mirror.view.node) (ForSome Always) default default := by
  refine (mirrors_inline? _).bind fun assign _ => ?_
  cases assign with
  | none => exact mirrors_pure rfl forSome_none
  | some assign =>
      refine ((mirrors_constantValue.either ((mirrors_ofKind? _).either (mirrors_word _))).expect
        (.refl _)).bind fun value _ => ?_
      refine (mirrors_defaultClosing value).bind fun closing _ => ?_
      exact mirrors_pure (by simp) (forSome_some trivial)

theorem mirrors_argument (h : Reflects mirror nested nested') :
    Mirrors mirror (Option.map mirror.view.node) (ForSome Always) (argument nested)
      (argument nested') := by
  refine Mirrors.rewinding ((mirrors_extendedAttributes h).bind fun attributes _ => ?_)
  refine (mirrors_inline? _).bind fun optional _ => (mirrors_typed h).bind fun type _ => ?_
  cases type with
  | none => exact mirrors_pure rfl forSome_none
  | some type =>
      refine ((mirrors_inline? _).when? (by simp)).bind fun variadic _ => ?_
      refine ((mirrors_ofKind? _).either (mirrors_word _)).bind fun name _ => ?_
      cases name with
      | none => exact mirrors_pure rfl forSome_none
      | some name =>
          refine (mirrors_default.when? (by simp)).bind fun value _ => ?_
          exact mirrors_pure (by simp) (forSome_some trivial)

/-! ## Members -/

theorem mirrors_attributeMember (h : Reflects mirror nested nested') {special : Option Token}
    (hspecial : ForSome mirror.view.Keeps special) (noInherit mustBeReadonly : Bool) :
    Mirrors mirror (Option.map mirror.view.node) (ForSome Always)
      (attributeMember nested special noInherit mustBeReadonly)
      (attributeMember nested' (special.map mirror.view.of) noInherit mustBeReadonly) := by
  refine Mirrors.rewinding (((mirrors_inline? _).when? (by simp)).bind fun inherit hinherit => ?_)
  have hword : ForSome mirror.view.Keeps (special <|> inherit) := by
    cases special with
    | none => simpa using hinherit
    | some special => simpa using hspecial
  have hshown : (special.map mirror.view.of <|> inherit.map mirror.view.of) =
      (special <|> inherit).map mirror.view.of := by
    cases special <;> rfl
  -- whether the first word is `inherit` can be seen from what is kept of it
  have hinherited : ((special <|> inherit).map mirror.view.of).any (·.text == "inherit") =
      (special <|> inherit).any (·.text == "inherit") := by
    cases hcase : special <|> inherit with
    | none => rfl
    | some token =>
        rw [hcase] at hword
        simp only [Option.map_some, Option.any_some,
          show (mirror.view.of token).text = token.text from hword.of_some]
  simp only [hshown]
  refine (mirrors_nextIs _).bind fun isReadonly _ => mirrors_refuse_bind (by rw [hinherited]; rfl)
    (.refl _) ?_
  refine (mirrors_inline? _).bind fun readonly _ => (mirrors_nextIs _).bind fun isAttribute _ => ?_
  refine mirrors_refuse_bind (by simp) (.refl _) ((mirrors_inline? _).bind fun base _ => ?_)
  cases base with
  | none => exact mirrors_pure rfl forSome_none
  | some base =>
      refine ((mirrors_typed h).expect (.refl _)).bind fun type _ => ?_
      refine (((mirrors_ofKind? _).either (mirrors_word _)).expect (.refl _)).bind fun name _ => ?_
      refine ((mirrors_inline? _).expect (.refl _)).bind fun termination _ => ?_
      exact mirrors_pure (by simp) (forSome_some trivial)

theorem mirrors_operationBody (h : Reflects mirror nested nested') (construct : Construct)
    (special : Option Token) :
    Mirrors mirror mirror.view.node Always (operationBody nested construct special)
      (operationBody nested' construct (special.map mirror.view.of)) := by
  refine ((mirrors_returnType h).expect (.refl _)).bind fun type _ => ?_
  refine ((mirrors_ofKind? _).either (mirrors_word _)).bind fun name _ => ?_
  refine ((mirrors_inline? _).expect (.refl _)).bind fun opening _ => ?_
  refine (mirrors_argumentList h).bind fun arguments _ => ?_
  refine ((mirrors_inline? _).expect (.refl _)).bind fun closing _ => ?_
  refine ((mirrors_inline? _).expect (.refl _)).bind fun termination _ => ?_
  exact mirrors_pure (by simp) trivial

theorem mirrors_specialOperation (h : Reflects mirror nested nested') (construct : Construct)
    {special : Token} (hspecial : mirror.view.Keeps special) :
    Mirrors mirror mirror.view.node Always (specialOperation nested construct special)
      (specialOperation nested' construct (mirror.view.of special)) := by
  have htext : (mirror.view.of special).text = special.text := hspecial
  refine ((mirrors_inline? _).when? (by rw [htext])).bind fun termination _ => ?_
  cases termination with
  | some termination => exact mirrors_pure rfl trivial
  | none => exact mirrors_operationBody h construct (some special)

theorem mirrors_operation (h : Reflects mirror nested nested') (isRegular : Bool) :
    Mirrors mirror mirror.view.node Always (operation nested isRegular)
      (operation nested' isRegular) :=
  ((mirrors_inline? _).when? rfl).bind fun special _ => mirrors_operationBody h .operation special

theorem mirrors_specialMember (h : Reflects mirror nested nested') (word : String) :
    Mirrors mirror (Option.map mirror.view.node) (ForSome Always) (specialMember nested word)
      (specialMember nested' word) := by
  refine (mirrors_inline? _).bind fun special hspecial => ?_
  cases special with
  | none => exact mirrors_pure rfl forSome_none
  | some special =>
      refine (mirrors_attributeMember h hspecial false false).bind fun found hfound => ?_
      cases found with
      | some found => exact mirrors_pure rfl (forSome_some trivial)
      | none =>
          refine (mirrors_specialOperation h .operation hspecial.of_some).bind fun node _ => ?_
          exact mirrors_pure rfl (forSome_some trivial)

theorem mirrors_constant :
    Mirrors mirror (Option.map mirror.view.node) (ForSome Always) constant constant := by
  refine (mirrors_inline? _).bind fun base _ => ?_
  cases base with
  | none => exact mirrors_pure rfl forSome_none
  | some base =>
      refine ((mirrors_primitiveType.either (mirrors_oneWord (mirrors_ofKind? _))).expect
        (.refl _)).bind fun type _ => ?_
      refine (mirrors_nextIs _).bind fun isNullable _ => mirrors_refuse_bind rfl (.refl _) ?_
      refine ((mirrors_ofKind? _).expect (.refl _)).bind fun name _ => ?_
      refine ((mirrors_inline? _).expect (.refl _)).bind fun assign _ => ?_
      refine (mirrors_constantValue.expect (.refl _)).bind fun value _ => ?_
      refine ((mirrors_inline? _).expect (.refl _)).bind fun termination _ => ?_
      exact mirrors_pure (by simp) (forSome_some trivial)

theorem mirrors_constructor (h : Reflects mirror nested nested') :
    Mirrors mirror (Option.map mirror.view.node) (ForSome Always) (constructor nested)
      (constructor nested') := by
  refine (mirrors_inline? _).bind fun base _ => ?_
  cases base with
  | none => exact mirrors_pure rfl forSome_none
  | some base =>
      refine ((mirrors_inline? _).expect (.refl _)).bind fun opening _ => ?_
      refine (mirrors_argumentList h).bind fun arguments _ => ?_
      refine ((mirrors_inline? _).expect (.refl _)).bind fun closing _ => ?_
      refine ((mirrors_inline? _).expect (.refl _)).bind fun termination _ => ?_
      exact mirrors_pure (by simp) (forSome_some trivial)

theorem mirrors_typeArguments (h : Reflects mirror nested nested') (kind : String) :
    Mirrors mirror (List.map mirror.view.node) Always (typeArguments nested kind)
      (typeArguments nested' kind) := by
  refine ((mirrors_typed h).expect (.refl _)).bind fun first _ => ?_
  refine ((mirrors_inline? _).when? rfl).bind fun comma _ => ?_
  cases comma with
  | none => exact mirrors_refuse_bind rfl (.refl _) (mirrors_pure rfl trivial)
  | some comma =>
      refine ((mirrors_typed h).expect (.refl _)).bind fun second _ => ?_
      exact mirrors_pure (by simp) trivial

theorem mirrors_iterableArguments (h : Reflects mirror nested nested') (allowed : Bool) :
    Mirrors mirror mirror.view.parts Always (iterableArguments nested allowed)
      (iterableArguments nested' allowed) := by
  refine (mirrors_nextIs _).bind fun isOpen _ => mirrors_refuse_bind rfl (.refl _) ?_
  refine (mirrors_inline? _).bind fun opening _ => ?_
  cases opening with
  | none => exact mirrors_pure rfl trivial
  | some opening =>
      refine (mirrors_argumentList h).bind fun arguments _ => ?_
      refine ((mirrors_inline? _).expect (.refl _)).bind fun closing _ => ?_
      exact mirrors_pure (by simp) trivial

theorem mirrors_iterableLike (h : Reflects mirror nested nested') :
    Mirrors mirror (Option.map mirror.view.node) (ForSome Always) (iterableLike nested)
      (iterableLike nested') := by
  refine Mirrors.rewinding ((mirrors_inline? _).bind fun readonly _ => ?_)
  refine ((mirrors_inline? _).when? (by simp)).bind fun async _ => ?_
  simp only [Option.isSome_map]
  refine (mirrors_inline? _).bind fun base hbase => ?_
  cases base with
  | none => exact mirrors_pure rfl forSome_none
  | some base =>
      have htext : (mirror.view.of base).text = base.text := hbase.of_some
      simp only [Option.map_some, htext]
      refine ((mirrors_inline? _).expect (.refl _)).bind fun opening _ => ?_
      refine (mirrors_typeArguments h base.text).bind fun types _ => ?_
      refine ((mirrors_inline? _).expect (.refl _)).bind fun closing _ => ?_
      refine (mirrors_iterableArguments h _).bind fun arguments _ => ?_
      refine ((mirrors_inline? _).expect (.refl _)).bind fun termination _ => ?_
      exact mirrors_pure (by simp) (forSome_some trivial)

theorem mirrors_fieldBody (construct : Construct) (required : Option Token) {type type' : Node}
    (htype : type' = mirror.view.node type) :
    Mirrors mirror mirror.view.node Always (fieldBody construct required type)
      (fieldBody construct (required.map mirror.view.of) type') := by
  subst htype
  refine ((mirrors_ofKind? _).expect (.refl _)).bind fun name _ => ?_
  refine mirrors_default.bind fun value _ => mirrors_refuse_bind (by simp) (.refl _) ?_
  refine ((mirrors_inline? _).expect (.refl _)).bind fun termination _ => ?_
  exact mirrors_pure (by simp) trivial

theorem mirrors_field (h : Reflects mirror nested nested') :
    Mirrors mirror mirror.view.node Always (field nested) (field nested') := by
  refine (mirrors_inline? _).bind fun required _ => ?_
  refine ((mirrors_typed h).expect (.refl _)).bind fun type _ => ?_
  exact mirrors_fieldBody .field required rfl

end

end WebIdl.Grammar
