import WebIdl.Grammar.Parse
import WebIdl.Proofs.Parser.Quiet

/-!
# Productions below definitions keep quiet

Only definitions with a name note that they are being read, and only they fail with a reason.  The
parsers of attributes, types, arguments and members do neither, however deep they go, since no
definition is looked for inside them.
-/

namespace WebIdl

open WebIdl.Parser

/-- Does the production note the definition that it reads? -/
def Production.isHeaded : Production → Bool
  | .dictionary | .namespaceDef | .enumeration | .typedef | .callback | .interface
  | .partialDefinition | .bodylessInterface | .callbackConstructor | .legacyCallerInterface
  | .utf8StringTypedef => true
  | _ => false

/-- What the extensions add to types and containers. -/
def Extensions.added (extensions : Extensions) : List Production :=
  extensions.types ++ extensions.interface.members ++ extensions.callbackInterface.members ++
    extensions.namespaceDef.members ++ extensions.dictionary.members

namespace Grammar

/-- The productions inside keep quiet, other than definitions with a name, and extensions add no such
definition to types and containers. -/
structure Hushed (scope : Scope) (nested : Production → Parser (Option Node)) : Prop where
  added_headless : ∀ production ∈ scope.extensions.added, production.isHeaded = false
  quiet : ∀ {production : Production}, production.isHeaded = false →
    Quiet scope (nested production)

section

variable {scope : Scope} {nested : Production → Parser (Option Node)} {place : Option String}

/-! ## Attributes -/

theorem quiet_argumentList (hnested : Hushed scope nested) : Quiet scope (argumentList nested) :=
  quiet_commaList (hnested.quiet rfl) _ _

theorem quiet_wrappedToken (kind : Token.Kind) : Quiet scope (wrappedToken kind) := by
  refine (quiet_ofKind? _).bind fun value => ?_
  cases value <;> exact quiet_pure _

theorem quiet_valueList (kinds : List Token.Kind) : Quiet scope (valueList kinds) := by
  induction kinds with
  | nil => exact quiet_fail rfl
  | cons kind others ih =>
      refine (quiet_commaList (quiet_wrappedToken kind) _ _).bind fun values => ?_
      cases values with
      | nil => exact ih
      | cons value values => exact quiet_pure _

theorem quiet_extendedAttribute (hnested : Hushed scope nested) :
    Quiet scope (extendedAttribute nested) := by
  refine (quiet_ofKind? _).bind fun name => ?_
  cases name with
  | none => exact quiet_pure none
  | some name =>
      refine (quiet_inline? _).bind fun assign => ?_
      refine ((quiet_inline? _).when? _).bind fun asterisk => ?_
      cases asterisk with
      | some star => exact quiet_pure _
      | none =>
          refine ((quiet_ofKind? _).when? _).bind fun secondary => ?_
          refine (quiet_inline? _).bind fun opening => ?_
          cases opening with
          | none => exact quiet_refuse_bind rfl (quiet_pure _)
          | some opening =>
              dsimp only
              split
              · refine (quiet_valueList _).bind fun entries => ?_
                exact ((quiet_inline? _).expect rfl).bind fun closing => quiet_pure _
              · refine (quiet_argumentList hnested).bind fun entries => ?_
                exact ((quiet_inline? _).expect rfl).bind fun closing => quiet_pure _

theorem quiet_extendedAttributes (hnested : Hushed scope nested) :
    Quiet scope (extendedAttributes nested) := by
  refine (quiet_inline? _).bind fun opening => ?_
  cases opening with
  | none => exact quiet_pure _
  | some opening =>
      refine (quiet_commaList (quiet_extendedAttribute hnested) _ _).bind fun items => ?_
      refine ((quiet_inline? _).expect rfl).bind fun closing => quiet_refuse_bind rfl ?_
      exact (quiet_nextIs _).bind fun second => quiet_refuse_bind rfl (quiet_pure _)

/-! ## Types -/

theorem quiet_nullableMark : Quiet scope nullableMark :=
  (quiet_inline? _).bind fun _ => (quiet_nextIs _).bind fun _ => quiet_refuse_bind rfl (quiet_pure _)

theorem quiet_integerType : Quiet scope integerType := by
  refine (quiet_inline? _).bind fun sign => (quiet_inline? _).bind fun base => ?_
  cases base with
  | none => exact quiet_refuse_bind rfl (quiet_pure none)
  | some base => exact ((quiet_inline? _).when? _).bind fun doubling => quiet_pure _

theorem quiet_decimalType : Quiet scope decimalType := by
  refine (quiet_inline? _).bind fun sign => (quiet_inline? _).bind fun base => ?_
  cases base with
  | none => exact quiet_refuse_bind rfl (quiet_pure none)
  | some base => exact quiet_pure _

theorem quiet_oneWord {word : Parser (Option Token)} (hword : Quiet scope word) :
    Quiet scope (oneWord word) := by
  refine hword.bind fun base => ?_
  cases base <;> exact quiet_pure _

theorem quiet_primitiveType : Quiet scope primitiveType :=
  quiet_integerType.either (quiet_decimalType.either (quiet_oneWord (quiet_inline? _)))

theorem quiet_namedType : Quiet scope namedType := by
  refine ((quiet_ofKind? _).either (quiet_inline? _)).bind fun base => ?_
  cases base with
  | none => exact quiet_pure none
  | some base => exact (quiet_nextIs _).bind fun isGeneric => quiet_refuse_bind rfl (quiet_pure _)

theorem quiet_genericArguments (hnested : Hushed scope nested) (generic : String) :
    Quiet scope (genericArguments nested place generic) := by
  unfold genericArguments
  split
  · refine (quiet_nextIs _).bind fun isAttributed => quiet_refuse_bind rfl ?_
    exact ((hnested.quiet rfl).expect rfl).bind fun type => quiet_pure _
  · refine (quiet_nextIs _).bind fun isAttributed => quiet_refuse_bind rfl ?_
    refine ((quiet_inline? _).expect rfl).bind fun key => ?_
    refine ((quiet_inline? _).expect rfl).bind fun comma => ?_
    exact ((hnested.quiet rfl).expect rfl).bind fun value => quiet_pure _
  · exact ((hnested.quiet rfl).expect rfl).bind fun type => quiet_pure _

theorem quiet_genericType (hnested : Hushed scope nested) :
    Quiet scope (genericType nested place) := by
  refine (quiet_inline? _).bind fun base => ?_
  cases base with
  | none => exact quiet_pure none
  | some base =>
      refine ((quiet_inline? _).expect rfl).bind fun opening => ?_
      refine (quiet_genericArguments hnested base.text).bind fun subtypes => ?_
      exact ((quiet_inline? _).expect rfl).bind fun closing => quiet_pure _

theorem quiet_singleType (hnested : Hushed scope nested) :
    Quiet scope (singleType nested place) := by
  refine quiet_extensions_bind ?_
  refine (quiet_firstMatch fun production hproduction => hnested.quiet
    (hnested.added_headless production (by simp [Extensions.added, hproduction]))).bind
      fun custom => ?_
  cases custom with
  | some custom => exact quiet_pure _
  | none =>
      refine ((quiet_genericType hnested).either
        (quiet_primitiveType.either quiet_namedType)).bind fun found => ?_
      cases found with
      | none => exact quiet_pure none
      | some type =>
          refine (quiet_present _).bind fun isPromise => ?_
          refine (quiet_nextIs _).bind fun isNullable => quiet_refuse_bind rfl ?_
          exact quiet_nullableMark.bind fun mark => quiet_refuse_bind rfl (quiet_pure _)

theorem quiet_unionMembers (hnested : Hushed scope nested) (fuel : Nat) :
    Quiet scope (unionMembers nested fuel) := by
  induction fuel with
  | zero => exact quiet_exhausted
  | succ fuel ih =>
      refine ((hnested.quiet rfl).expect rfl).bind fun type => ?_
      refine quiet_refuse_bind rfl ((quiet_present _).bind fun isPromise => ?_)
      refine quiet_refuse_bind rfl ((quiet_inline? _).bind fun word => ?_)
      cases word with
      | none => exact quiet_pure _
      | some separator => exact ih.bind fun others => quiet_pure _

theorem quiet_unionType (hnested : Hushed scope nested) :
    Quiet scope (unionType nested place) := by
  refine (quiet_inline? _).bind fun opening => ?_
  cases opening with
  | none => exact quiet_pure none
  | some opening =>
      refine quiet_size_bind ((quiet_unionMembers hnested _).bind fun members => ?_)
      refine quiet_refuse_bind rfl (((quiet_inline? _).expect rfl).bind fun closing => ?_)
      exact quiet_nullableMark.bind fun mark => quiet_pure _

theorem quiet_type (hnested : Hushed scope nested) : Quiet scope (type nested place) :=
  (quiet_singleType hnested).either (quiet_unionType hnested)

theorem quiet_attributedType (hnested : Hushed scope nested) :
    Quiet scope (attributedType nested place) := by
  refine Quiet.rewinding ((quiet_extendedAttributes hnested).bind fun attributes => ?_)
  refine (quiet_type hnested).bind fun found => ?_
  cases found <;> exact quiet_pure _

theorem quiet_returnType (hnested : Hushed scope nested) :
    Quiet scope (returnType nested place) := by
  refine (quiet_type hnested).either ((quiet_inline? _).bind fun base => ?_)
  cases base <;> exact quiet_pure _

/-! ## Defaults and arguments -/

theorem quiet_constantValue : Quiet scope constantValue :=
  (quiet_inline? _).either (quiet_ofKind? _)

theorem quiet_defaultClosing (opening : Token) : Quiet scope (defaultClosing opening) := by
  unfold defaultClosing
  split
  · exact ((quiet_inline? _).expect rfl).bind fun closing => quiet_pure _
  · split
    · exact ((quiet_inline? _).expect rfl).bind fun closing => quiet_pure _
    · exact quiet_pure none

theorem quiet_default : Quiet scope default := by
  refine (quiet_inline? _).bind fun assign => ?_
  cases assign with
  | none => exact quiet_pure none
  | some assign =>
      have hvalue : Quiet scope (either constantValue (either (ofKind? [.string])
          (inline? ["null", "[", "\x7b"]))) :=
        quiet_constantValue.either ((quiet_ofKind? _).either (quiet_inline? _))
      refine (hvalue.expect rfl).bind fun value => ?_
      exact (quiet_defaultClosing value).bind fun closing => quiet_pure _

theorem quiet_argument (hnested : Hushed scope nested) : Quiet scope (argument nested) := by
  refine Quiet.rewinding ((quiet_extendedAttributes hnested).bind fun attributes => ?_)
  refine (quiet_inline? _).bind fun optional => ?_
  refine (quiet_attributedType hnested).bind fun type => ?_
  cases type with
  | none => exact quiet_pure none
  | some type =>
      refine ((quiet_inline? _).when? _).bind fun variadic => ?_
      refine ((quiet_ofKind? _).either (quiet_inline? _)).bind fun name => ?_
      cases name with
      | none => exact quiet_pure none
      | some name => exact (quiet_default.when? _).bind fun value => quiet_pure _

/-! ## Members -/

theorem quiet_attributeMember (hnested : Hushed scope nested) (special : Option Token)
    (noInherit mustBeReadonly : Bool) :
    Quiet scope (attributeMember nested special noInherit mustBeReadonly) := by
  refine Quiet.rewinding (((quiet_inline? _).when? _).bind fun inherit => ?_)
  refine (quiet_nextIs _).bind fun isReadonly => quiet_refuse_bind rfl ?_
  refine (quiet_inline? _).bind fun readonly => ?_
  refine (quiet_nextIs _).bind fun isAttribute => quiet_refuse_bind rfl ?_
  refine (quiet_inline? _).bind fun base => ?_
  cases base with
  | none => exact quiet_pure none
  | some base =>
      refine ((quiet_attributedType hnested).expect rfl).bind fun type => ?_
      refine (((quiet_ofKind? _).either (quiet_inline? _)).expect rfl).bind fun name => ?_
      exact ((quiet_inline? _).expect rfl).bind fun termination => quiet_pure _

theorem quiet_operationBody (hnested : Hushed scope nested) (construct : Construct)
    (special : Option Token) : Quiet scope (operationBody nested construct special) := by
  refine ((quiet_returnType hnested).expect rfl).bind fun type => ?_
  refine ((quiet_ofKind? _).either (quiet_inline? _)).bind fun name => ?_
  refine ((quiet_inline? _).expect rfl).bind fun opening => ?_
  refine (quiet_argumentList hnested).bind fun arguments => ?_
  refine ((quiet_inline? _).expect rfl).bind fun closing => ?_
  exact ((quiet_inline? _).expect rfl).bind fun termination => quiet_pure _

theorem quiet_specialOperation (hnested : Hushed scope nested) (construct : Construct)
    (special : Token) : Quiet scope (specialOperation nested construct special) := by
  refine ((quiet_inline? _).when? _).bind fun termination => ?_
  cases termination with
  | some termination => exact quiet_pure _
  | none => exact quiet_operationBody hnested construct (some special)

theorem quiet_operation (hnested : Hushed scope nested) (isRegular : Bool) :
    Quiet scope (operation nested isRegular) :=
  ((quiet_inline? _).when? _).bind fun special => quiet_operationBody hnested .operation special

theorem quiet_specialMember (hnested : Hushed scope nested) (word : String) :
    Quiet scope (specialMember nested word) := by
  refine (quiet_inline? _).bind fun special => ?_
  cases special with
  | none => exact quiet_pure none
  | some special =>
      refine (quiet_attributeMember hnested (some special) false false).bind fun found => ?_
      cases found with
      | some found => exact quiet_pure _
      | none => exact (quiet_specialOperation hnested .operation special).bind fun _ => quiet_pure _

theorem quiet_constant : Quiet scope constant := by
  refine (quiet_inline? _).bind fun base => ?_
  cases base with
  | none => exact quiet_pure none
  | some base =>
      refine ((quiet_primitiveType.either (quiet_oneWord (quiet_ofKind? _))).expect rfl).bind
        fun type => ?_
      refine (quiet_nextIs _).bind fun isNullable => quiet_refuse_bind rfl ?_
      refine ((quiet_ofKind? _).expect rfl).bind fun name => ?_
      refine ((quiet_inline? _).expect rfl).bind fun assign => ?_
      refine (quiet_constantValue.expect rfl).bind fun value => ?_
      exact ((quiet_inline? _).expect rfl).bind fun termination => quiet_pure _

theorem quiet_constructor (hnested : Hushed scope nested) : Quiet scope (constructor nested) := by
  refine (quiet_inline? _).bind fun base => ?_
  cases base with
  | none => exact quiet_pure none
  | some base =>
      refine ((quiet_inline? _).expect rfl).bind fun opening => ?_
      refine (quiet_argumentList hnested).bind fun arguments => ?_
      refine ((quiet_inline? _).expect rfl).bind fun closing => ?_
      exact ((quiet_inline? _).expect rfl).bind fun termination => quiet_pure _

theorem quiet_typeArguments (hnested : Hushed scope nested) (kind : String) :
    Quiet scope (typeArguments nested kind) := by
  refine ((quiet_attributedType hnested).expect rfl).bind fun first => ?_
  refine ((quiet_inline? _).when? _).bind fun comma => ?_
  cases comma with
  | none => exact quiet_refuse_bind rfl (quiet_pure _)
  | some comma => exact ((quiet_attributedType hnested).expect rfl).bind fun second => quiet_pure _

theorem quiet_iterableArguments (hnested : Hushed scope nested) (allowed : Bool) :
    Quiet scope (iterableArguments nested allowed) := by
  refine (quiet_nextIs _).bind fun isOpen => quiet_refuse_bind rfl ?_
  refine (quiet_inline? _).bind fun opening => ?_
  cases opening with
  | none => exact quiet_pure []
  | some opening =>
      refine (quiet_argumentList hnested).bind fun arguments => ?_
      exact ((quiet_inline? _).expect rfl).bind fun closing => quiet_pure _

theorem quiet_iterableLike (hnested : Hushed scope nested) :
    Quiet scope (iterableLike nested) := by
  refine Quiet.rewinding ((quiet_inline? _).bind fun readonly => ?_)
  refine ((quiet_inline? _).when? _).bind fun async => ?_
  refine (quiet_inline? _).bind fun base => ?_
  cases base with
  | none => exact quiet_pure none
  | some base =>
      refine ((quiet_inline? _).expect rfl).bind fun opening => ?_
      refine (quiet_typeArguments hnested _).bind fun types => ?_
      refine ((quiet_inline? _).expect rfl).bind fun closing => ?_
      refine (quiet_iterableArguments hnested _).bind fun arguments => ?_
      exact ((quiet_inline? _).expect rfl).bind fun termination => quiet_pure _

theorem quiet_fieldBody (construct : Construct) (required : Option Token) (type : Node) :
    Quiet scope (fieldBody construct required type) := by
  refine ((quiet_ofKind? _).expect rfl).bind fun name => ?_
  refine quiet_default.bind fun value => quiet_refuse_bind rfl ?_
  exact ((quiet_inline? _).expect rfl).bind fun termination => quiet_pure _

theorem quiet_field (hnested : Hushed scope nested) : Quiet scope (field nested) := by
  refine (quiet_inline? _).bind fun required => ?_
  refine ((quiet_attributedType hnested).expect rfl).bind fun type => ?_
  exact quiet_fieldBody .field required type

/-! ## Parts of definitions, and definitions without a name -/

theorem quiet_enumValue : Quiet scope enumValue := by
  refine (quiet_ofKind? _).bind fun value => ?_
  cases value <;> exact quiet_pure _

theorem quiet_includes : Quiet scope includes := by
  refine Quiet.rewinding ((quiet_ofKind? _).bind fun target => ?_)
  cases target with
  | none => exact quiet_pure none
  | some target =>
      refine (quiet_inline? _).bind fun word => ?_
      cases word with
      | none => exact quiet_pure none
      | some word =>
          refine ((quiet_ofKind? _).expect rfl).bind fun mixin => ?_
          exact ((quiet_inline? _).expect rfl).bind fun termination => quiet_pure _

theorem quiet_legacyCaller (hnested : Hushed scope nested) :
    Quiet scope (legacyCaller nested) := by
  refine (quiet_identifier? _).bind fun special => ?_
  cases special with
  | none => exact quiet_pure none
  | some special =>
      exact (quiet_specialOperation hnested .legacyCaller special).bind fun node => quiet_pure _

theorem quiet_utf8StringRecord (hnested : Hushed scope nested) :
    Quiet scope (utf8StringRecord nested) := by
  refine Quiet.rewinding ((quiet_inline? _).bind fun base => ?_)
  cases base with
  | none => exact quiet_pure none
  | some base =>
      refine (quiet_inline? _).bind fun opening => ?_
      cases opening with
      | none => exact quiet_pure none
      | some opening =>
          refine (quiet_identifier? _).bind fun key => ?_
          cases key with
          | none => exact quiet_pure none
          | some key =>
              refine ((quiet_inline? _).expect rfl).bind fun comma => ?_
              refine ((hnested.quiet rfl).expect rfl).bind fun value => ?_
              refine ((quiet_inline? _).expect rfl).bind fun closing => ?_
              exact quiet_nullableMark.bind fun mark => quiet_pure _

theorem quiet_utf8StringField (hnested : Hushed scope nested) :
    Quiet scope (utf8StringField nested) := by
  refine Quiet.rewinding ((quiet_inline? _).bind fun required => ?_)
  refine (quiet_utf8StringRecord hnested).bind fun type => ?_
  cases type with
  | none => exact quiet_pure none
  | some type =>
      exact (quiet_fieldBody .utf8StringField required _).bind fun node => quiet_pure _

end

end Grammar

/-! ## At any depth -/

section

open Grammar

variable {scope : Scope} {nested : Production → Parser (Option Node)}

/-- What is not a definition with a name keeps quiet if the productions inside it do. -/
theorem Production.quiet_step (hnested : Hushed scope nested) {production : Production}
    (hheadless : production.isHeaded = false) : Quiet scope (production.step nested) := by
  cases production with
  | extendedAttribute => exact quiet_extendedAttribute hnested
  | extendedAttributes => exact (quiet_extendedAttributes hnested).map some
  | default => exact quiet_default
  | argument => exact quiet_argument hnested
  | genericType place => exact quiet_genericType hnested
  | integerType => exact quiet_integerType
  | decimalType => exact quiet_decimalType
  | primitiveType => exact quiet_primitiveType
  | singleType place => exact quiet_singleType hnested
  | unionType place => exact quiet_unionType hnested
  | type place => exact quiet_type hnested
  | attributedType place => exact quiet_attributedType hnested
  | returnType place => exact quiet_returnType hnested
  | «attribute» noInherit mustBeReadonly => exact quiet_attributeMember hnested none _ _
  | operation isRegular => exact (quiet_operation hnested isRegular).map some
  | constant => exact quiet_constant
  | constructor => exact quiet_constructor hnested
  | staticMember => exact quiet_specialMember hnested _
  | stringifier => exact quiet_specialMember hnested _
  | iterableLike => exact quiet_iterableLike hnested
  | field => exact (quiet_field hnested).map some
  | includes => exact quiet_includes
  | legacyCaller => exact quiet_legacyCaller hnested
  | utf8StringRecord => exact quiet_utf8StringRecord hnested
  | utf8StringField => exact quiet_utf8StringField hnested
  | _ => exact absurd hheadless (by simp [isHeaded])

theorem Production.hushed_parseTo
    (hadded : ∀ production ∈ scope.extensions.added, production.isHeaded = false) (depth : Nat) :
    Hushed scope (parseTo depth) := by
  induction depth with
  | zero => exact ⟨hadded, fun _ => quiet_exhausted⟩
  | succ depth ih => exact ⟨hadded, fun hheadless => quiet_step ih hheadless⟩

end

end WebIdl
