import WebIdl.Proofs.Parser.Safe
import WebIdl.Proofs.Sound.Members

/-!
# Productions below definitions stay within the text

The parsers of attributes, types and members are safe.  Where the grammar goes round, a token has
been read since the production began, so that fewer tokens are left; only records with `UTF8String`
keys are looked for where a type begins.
-/

namespace WebIdl.Grammar

open WebIdl.Parser WebIdl.Shape

/-- The productions that begin behind `start` stay within the text. -/
structure ReadyBehind (scope : Scope) (start : Nat) (nested : Production → Parser (Option Node)) :
    Prop where
  ends : scope.Ends
  later : ∀ production {place}, start < place → Safe scope place (nested production)

/-- The productions inside one that begins at `start` stay within the text.  They begin at a later
token, except for records with `UTF8String` keys.  What they find is as the grammar says. -/
structure Ready (scope : Scope) (start : Nat) (nested : Production → Parser (Option Node)) : Prop
    extends ReadyBehind scope start nested where
  types_subset : ∀ production ∈ scope.extensions.types, production = .utf8StringRecord
  record : ∀ {place}, start ≤ place → Safe scope place (nested .utf8StringRecord)
  sound : ∃ extended, Sound extended scope nested

section

variable {scope : Scope} {start least : Nat} {nested : Production → Parser (Option Node)}
  {place : Option String}

/-! ## Attributes -/

theorem safe_argumentList (hready : Ready scope start nested) (hleast : start < least) :
    Safe scope least (argumentList nested) :=
  safe_commaList hready.ends fun _ hlater =>
    hready.later .argument (Nat.lt_of_lt_of_le hleast hlater)

theorem safe_wrappedToken (hends : scope.Ends) {kind : Token.Kind} (hkind : kind ≠ .eof) :
    Safe scope least (wrappedToken kind) :=
  (oneOf_ofKind? (by simpa using hkind.symm)).safe_bind hends (safe_pure none)
    fun _ => safe_pure _

theorem safe_valueList (hends : scope.Ends) {kinds : List Token.Kind} (hkinds : .eof ∉ kinds) :
    Safe scope least (valueList kinds) := by
  induction kinds with
  | nil => exact safe_fail _
  | cons kind others ih =>
      obtain ⟨hkind, hothers⟩ : kind ≠ .eof ∧ .eof ∉ others := by
        simpa [eq_comm] using hkinds
      refine (safe_commaList hends fun _ _ => safe_wrappedToken hends hkind).bind fun values => ?_
      cases values with
      | nil => exact ih hothers
      | cons value values => exact safe_pure _

theorem safe_extendedAttribute (hready : Ready scope start nested) (hleast : start ≤ least) :
    Safe scope least (extendedAttribute nested) := by
  have hends := hready.ends
  refine oneOf_identifier.safe_bind hends (safe_pure none) fun name => ?_
  refine ((oneOf_inline? _).safe hends).bind fun assign => ?_
  refine (((oneOf_inline? _).safe hends).when? _).bind fun asterisk => ?_
  cases asterisk with
  | some star => exact safe_pure _
  | none =>
      refine (((oneOf_ofKind? (by decide)).safe hends).when? _).bind fun secondary => ?_
      refine ((oneOf_inline? _).safe hends).bind fun opening => ?_
      cases opening with
      | none => exact safe_refuse_bind (safe_pure _)
      | some opening =>
          dsimp only
          split
          · refine (safe_valueList hends (by decide)).bind fun entries => ?_
            exact (((oneOf_inline? _).safe hends).expect _).bind fun closing => safe_pure _
          · refine (safe_argumentList hready (by omega)).bind fun entries => ?_
            exact (((oneOf_inline? _).safe hends).expect _).bind fun closing => safe_pure _

theorem safe_extendedAttributes (hready : Ready scope start nested) (hleast : start ≤ least) :
    Safe scope least (extendedAttributes nested) := by
  have hends := hready.ends
  refine ((oneOf_inline? _).safe hends).bind fun opening => ?_
  cases opening with
  | none => exact safe_pure _
  | some opening =>
      refine (safe_commaList hends fun later hlater =>
        safe_extendedAttribute hready (Nat.le_trans hleast hlater)).bind fun items => ?_
      refine (((oneOf_inline? _).safe hends).expect _).bind fun closing => safe_refuse_bind ?_
      exact (safe_nextIs _).bind fun second => safe_refuse_bind (safe_pure _)

/-! ## Types -/

theorem safe_nullableMark (hends : scope.Ends) : Safe scope least nullableMark :=
  ((oneOf_inline? _).safe hends).bind fun _ =>
    (safe_nextIs _).bind fun _ => safe_refuse_bind (safe_pure _)

theorem safe_integerType (hends : scope.Ends) : Safe scope least integerType := by
  refine ((oneOf_inline? _).safe hends).bind fun sign => ?_
  refine ((oneOf_inline? _).safe hends).bind fun base => ?_
  cases base with
  | none => exact safe_refuse_bind (safe_pure none)
  | some base => exact (((oneOf_inline? _).safe hends).when? _).bind fun doubling => safe_pure _

theorem safe_decimalType (hends : scope.Ends) : Safe scope least decimalType := by
  refine ((oneOf_inline? _).safe hends).bind fun sign => ?_
  refine ((oneOf_inline? _).safe hends).bind fun base => ?_
  cases base with
  | none => exact safe_refuse_bind (safe_pure none)
  | some base => exact safe_pure _

theorem safe_oneWord {terminal : Terminal} {word : Parser (Option Token)}
    (hword : OneOf terminal word) (hends : scope.Ends) : Safe scope least (oneWord word) := by
  refine (hword.safe hends).bind fun base => ?_
  cases base <;> exact safe_pure _

theorem safe_primitiveType (hends : scope.Ends) : Safe scope least primitiveType :=
  (safe_integerType hends).either
    ((safe_decimalType hends).either (safe_oneWord (oneOf_inline? _) hends))

theorem safe_namedType (hends : scope.Ends) : Safe scope least namedType := by
  refine (oneOf_typeName.safe hends).bind fun base => ?_
  cases base with
  | none => exact safe_pure none
  | some base => exact (safe_nextIs _).bind fun isGeneric => safe_refuse_bind (safe_pure _)

theorem safe_genericArguments (hready : Ready scope start nested) (hleast : start < least)
    (generic : String) : Safe scope least (genericArguments nested place generic) := by
  have hends := hready.ends
  unfold genericArguments
  split
  · refine (safe_nextIs _).bind fun isAttributed => safe_refuse_bind ?_
    exact ((hready.later _ hleast).expect _).bind fun type => safe_pure _
  · refine (safe_nextIs _).bind fun isAttributed => safe_refuse_bind ?_
    refine (((oneOf_inline? _).safe hends).expect _).bind fun key => ?_
    refine (((oneOf_inline? _).safe hends).expect _).bind fun comma => ?_
    exact ((hready.later _ hleast).expect _).bind fun value => safe_pure _
  · exact ((hready.later _ hleast).expect _).bind fun type => safe_pure _

theorem safe_genericType (hready : Ready scope start nested) (hleast : start ≤ least) :
    Safe scope least (genericType nested place) := by
  have hends := hready.ends
  refine (oneOf_inline? _).safe_bind hends (safe_pure none) fun base => ?_
  refine (((oneOf_inline? _).safe hends).expect _).bind fun opening => ?_
  refine (safe_genericArguments hready (by omega) base.text).bind fun subtypes => ?_
  exact (((oneOf_inline? _).safe hends).expect _).bind fun closing => safe_pure _

theorem safe_singleType (hready : Ready scope start nested) (hleast : start ≤ least) :
    Safe scope least (singleType nested place) := by
  have hends := hready.ends
  refine safe_extensions_bind ?_
  have hcustom : Safe scope least (firstMatch nested scope.extensions.types) := by
    refine safe_firstMatch fun production hproduction => ?_
    rw [hready.types_subset production hproduction]
    exact hready.record hleast
  refine hcustom.bind fun custom => ?_
  cases custom with
  | some custom => exact safe_pure _
  | none =>
      obtain ⟨extended, hsound⟩ := hready.sound
      refine ((safe_genericType hready hleast).either
        ((safe_primitiveType hends).either (safe_namedType hends))).bind_within
          fun {cursor found moved} _ hmoved hsize hfound => ?_
      cases found with
      | none => exact safe_pure none moved hmoved hsize
      | some type =>
          have happlies := exists_applies_of_plainType hsound hfound
          refine safe_present_bind happlies (fun isPromise => ?_) moved hmoved hsize
          refine (safe_nextIs _).bind fun isNullable => safe_refuse_bind ?_
          exact (safe_nullableMark hends).bind fun mark => safe_refuse_bind (safe_pure _)

/-- Each round of a union but the last reads an `or`. -/
theorem safe_unionMembers (hready : Ready scope start nested) (hleast : start < least) {fuel : Nat}
    (hfuel : scope.source.tokens.size < fuel + least) :
    Safe scope least (unionMembers nested fuel) := by
  induction fuel generalizing least with
  | zero =>
      intro cursor hcursor hsize
      omega
  | succ fuel ih =>
      obtain ⟨extended, hsound⟩ := hready.sound
      refine ((hready.later _ hleast).expect _).bind_within
        fun {cursor type moved} _ hmoved hsize hfound => ?_
      have happlies := exists_applies_of_conforms (hsound.found (Parser.expect_eq_ok.mp hfound)).2
      refine safe_refuse_bind (safe_present_bind happlies fun isPromise => safe_refuse_bind ?_)
        moved hmoved hsize
      refine (oneOf_inline? _).safe_bind hready.ends (safe_pure _) fun separator => ?_
      exact (ih (by omega) (by omega)).bind fun others => safe_pure _

theorem safe_unionType (hready : Ready scope start nested) (hleast : start ≤ least) :
    Safe scope least (unionType nested place) := by
  have hends := hready.ends
  refine (oneOf_inline? _).safe_bind hends (safe_pure none) fun opening => safe_size_bind ?_
  refine (safe_unionMembers hready (by omega) (by omega)).bind fun members => safe_refuse_bind ?_
  refine (((oneOf_inline? _).safe hends).expect _).bind fun closing => ?_
  exact (safe_nullableMark hends).bind fun mark => safe_pure _

theorem safe_type (hready : Ready scope start nested) (hleast : start ≤ least) :
    Safe scope least (type nested place) :=
  (safe_singleType hready hleast).either (safe_unionType hready hleast)

theorem safe_attributedType (hready : Ready scope start nested) (hleast : start ≤ least) :
    Safe scope least (attributedType nested place) := by
  refine Safe.rewinding ((safe_extendedAttributes hready hleast).bind fun attributes => ?_)
  refine (safe_type hready hleast).bind fun found => ?_
  cases found <;> exact safe_pure _

theorem safe_returnType (hready : Ready scope start nested) (hleast : start ≤ least) :
    Safe scope least (returnType nested place) := by
  rw [returnType_eq]
  refine (safe_type hready hleast).either (((oneOf_inline? _).safe hready.ends).bind fun base => ?_)
  cases base <;> exact safe_pure _

/-! ## Defaults and arguments -/

theorem safe_defaultClosing (hends : scope.Ends) (opening : Token) :
    Safe scope least (defaultClosing opening) := by
  unfold defaultClosing
  split
  · exact (((oneOf_inline? _).safe hends).expect _).bind fun closing => safe_pure _
  · split
    · exact (((oneOf_inline? _).safe hends).expect _).bind fun closing => safe_pure _
    · exact safe_pure none

theorem safe_default (hends : scope.Ends) : Safe scope least default := by
  refine ((oneOf_inline? _).safe hends).bind fun assign => ?_
  cases assign with
  | none => exact safe_pure none
  | some assign =>
      refine ((oneOf_defaultValue.safe hends).expect _).bind fun value => ?_
      exact (safe_defaultClosing hends value).bind fun closing => safe_pure _

theorem safe_argument (hready : Ready scope start nested) (hleast : start ≤ least) :
    Safe scope least (argument nested) := by
  have hends := hready.ends
  refine Safe.rewinding ((safe_extendedAttributes hready hleast).bind fun attributes => ?_)
  refine ((oneOf_inline? _).safe hends).bind fun optional => ?_
  refine (safe_attributedType hready hleast).bind fun type => ?_
  cases type with
  | none => exact safe_pure none
  | some type =>
      refine (((oneOf_inline? _).safe hends).when? _).bind fun variadic => ?_
      refine ((oneOf_name _).safe hends).bind fun name => ?_
      cases name with
      | none => exact safe_pure none
      | some name => exact ((safe_default hends).when? _).bind fun value => safe_pure _

/-! ## Members -/

theorem safe_attributeMember (hready : Ready scope start nested) (hleast : start ≤ least)
    (special : Option Token) (noInherit mustBeReadonly : Bool) :
    Safe scope least (attributeMember nested special noInherit mustBeReadonly) := by
  have hends := hready.ends
  refine Safe.rewinding ((((oneOf_inline? _).safe hends).when? _).bind fun inherit => ?_)
  refine (safe_nextIs _).bind fun isReadonly => safe_refuse_bind ?_
  refine ((oneOf_inline? _).safe hends).bind fun readonly => ?_
  refine (safe_nextIs _).bind fun isAttribute => safe_refuse_bind ?_
  refine ((oneOf_inline? _).safe hends).bind fun base => ?_
  cases base with
  | none => exact safe_pure none
  | some base =>
      refine ((safe_attributedType hready hleast).expect _).bind fun type => ?_
      refine (((oneOf_name _).safe hends).expect _).bind fun name => ?_
      exact (((oneOf_inline? _).safe hends).expect _).bind fun termination => safe_pure _

theorem safe_operationBody (hready : Ready scope start nested) (hleast : start ≤ least)
    (construct : Construct) (special : Option Token) :
    Safe scope least (operationBody nested construct special) := by
  have hends := hready.ends
  refine ((safe_returnType hready hleast).expect _).bind fun type => ?_
  refine ((oneOf_name _).safe hends).bind fun name => ?_
  refine (oneOf_inline? _).safe_expect_bind hends fun opening => ?_
  refine (safe_argumentList hready (by omega)).bind fun arguments => ?_
  refine (((oneOf_inline? _).safe hends).expect _).bind fun closing => ?_
  exact (((oneOf_inline? _).safe hends).expect _).bind fun termination => safe_pure _

theorem safe_specialOperation (hready : Ready scope start nested) (hleast : start ≤ least)
    (construct : Construct) (special : Token) :
    Safe scope least (specialOperation nested construct special) := by
  refine (((oneOf_inline? _).safe hready.ends).when? _).bind fun termination => ?_
  cases termination with
  | some termination => exact safe_pure _
  | none => exact safe_operationBody hready hleast construct (some special)

theorem safe_operation (hready : Ready scope start nested) (hleast : start ≤ least)
    (isRegular : Bool) : Safe scope least (operation nested isRegular) :=
  (((oneOf_inline? _).safe hready.ends).when? _).bind fun special =>
    safe_operationBody hready hleast .operation special

theorem safe_specialMember (hready : Ready scope start nested) (hleast : start ≤ least)
    (word : String) : Safe scope least (specialMember nested word) := by
  refine ((oneOf_inline? _).safe hready.ends).bind fun special => ?_
  cases special with
  | none => exact safe_pure none
  | some special =>
      refine (safe_attributeMember hready hleast (some special) false false).bind fun found => ?_
      cases found with
      | some found => exact safe_pure _
      | none =>
          exact (safe_specialOperation hready hleast .operation special).bind fun node => safe_pure _

theorem safe_constant (hends : scope.Ends) : Safe scope least constant := by
  refine ((oneOf_inline? _).safe hends).bind fun base => ?_
  cases base with
  | none => exact safe_pure none
  | some base =>
      refine (((safe_primitiveType hends).either (safe_oneWord oneOf_identifier hends)).expect
        _).bind fun type => ?_
      refine (safe_nextIs _).bind fun isNullable => safe_refuse_bind ?_
      refine ((oneOf_identifier.safe hends).expect _).bind fun name => ?_
      refine (((oneOf_inline? _).safe hends).expect _).bind fun assign => ?_
      refine ((oneOf_constantValue.safe hends).expect _).bind fun value => ?_
      exact (((oneOf_inline? _).safe hends).expect _).bind fun termination => safe_pure _

theorem safe_constructor (hready : Ready scope start nested) (hleast : start ≤ least) :
    Safe scope least (constructor nested) := by
  have hends := hready.ends
  refine (oneOf_inline? _).safe_bind hends (safe_pure none) fun base => ?_
  refine (((oneOf_inline? _).safe hends).expect _).bind fun opening => ?_
  refine (safe_argumentList hready (by omega)).bind fun arguments => ?_
  refine (((oneOf_inline? _).safe hends).expect _).bind fun closing => ?_
  exact (((oneOf_inline? _).safe hends).expect _).bind fun termination => safe_pure _

theorem safe_typeArguments (hready : Ready scope start nested) (hleast : start ≤ least)
    (kind : String) : Safe scope least (typeArguments nested kind) := by
  refine ((safe_attributedType hready hleast).expect _).bind fun first => ?_
  refine (((oneOf_inline? _).safe hready.ends).when? _).bind fun comma => ?_
  cases comma with
  | none => exact safe_refuse_bind (safe_pure _)
  | some comma =>
      exact ((safe_attributedType hready hleast).expect _).bind fun second => safe_pure _

theorem safe_iterableArguments (hready : Ready scope start nested) (hleast : start ≤ least)
    (allowed : Bool) : Safe scope least (iterableArguments nested allowed) := by
  have hends := hready.ends
  refine (safe_nextIs _).bind fun isOpen => safe_refuse_bind ?_
  refine (oneOf_inline? _).safe_bind hends (safe_pure []) fun opening => ?_
  refine (safe_argumentList hready (by omega)).bind fun arguments => ?_
  exact (((oneOf_inline? _).safe hends).expect _).bind fun closing => safe_pure _

theorem safe_iterableLike (hready : Ready scope start nested) (hleast : start ≤ least) :
    Safe scope least (iterableLike nested) := by
  have hends := hready.ends
  refine Safe.rewinding (((oneOf_inline? _).safe hends).bind fun readonly => ?_)
  refine (((oneOf_inline? _).safe hends).when? _).bind fun async => ?_
  refine ((oneOf_inline? _).safe hends).bind fun base => ?_
  cases base with
  | none => exact safe_pure none
  | some base =>
      refine (((oneOf_inline? _).safe hends).expect _).bind fun opening => ?_
      refine (safe_typeArguments hready hleast _).bind fun types => ?_
      refine (((oneOf_inline? _).safe hends).expect _).bind fun closing => ?_
      refine (safe_iterableArguments hready hleast _).bind fun arguments => ?_
      exact (((oneOf_inline? _).safe hends).expect _).bind fun termination => safe_pure _

theorem safe_fieldBody (hends : scope.Ends) (construct : Construct) (required : Option Token)
    (type : Node) : Safe scope least (fieldBody construct required type) := by
  refine ((oneOf_identifier.safe hends).expect _).bind fun name => ?_
  refine (safe_default hends).bind fun value => safe_refuse_bind ?_
  exact (((oneOf_inline? _).safe hends).expect _).bind fun termination => safe_pure _

theorem safe_field (hready : Ready scope start nested) (hleast : start ≤ least) :
    Safe scope least (field nested) := by
  refine ((oneOf_inline? _).safe hready.ends).bind fun required => ?_
  refine ((safe_attributedType hready hleast).expect _).bind fun type => ?_
  exact safe_fieldBody hready.ends .field required type

end

end WebIdl.Grammar
