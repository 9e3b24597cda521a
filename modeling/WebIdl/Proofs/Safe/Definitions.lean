import WebIdl.Proofs.Safe.Members
import WebIdl.Proofs.Sound.Coverage

/-!
# Parsing a text ends with a tree or a syntax error

The loops over members and definitions read something in each round, since every production that
finds something has read its tokens.  The depth of the recursion is bounded by the number of tokens
that are left when it goes round: twice that number is enough, since at most every second turn is
made without reading.
-/

namespace WebIdl

open WebIdl.Parser WebIdl.Shape WebIdl.Grammar

namespace Grammar

section

variable {extended : Bool} {scope : Scope} {start least : Nat}
  {nested : Production → Parser (Option Node)}

/-! ## Definitions with members -/

/-- A production of a construct that must be written reads something wherever it matches. -/
theorem Sound.advances_firstMatch (hsound : Sound extended scope nested)
    {productions : List Production} (hplain : ∀ production ∈ productions, IsPlain production) :
    Advances scope (Parser.firstMatch nested productions) := by
  intro cursor node moved h
  rcases hsound.firstMatch hplain h with ⟨hnone, -⟩ |
    ⟨front, production, back, _, rfl, hsome, hreads, hconforms, -⟩
  · cases hnone
  · obtain rfl := Option.some.inj hsome
    have hwritten : (symbolOf production).isWritten = true := by
      cases production with
      | extendedAttributes => exact absurd (hplain .extendedAttributes (by simp)) (by simp [IsPlain, modeOf])
      | _ => rfl
    have hlength := List.length_pos_iff.mpr (hconforms.tokens_ne_nil hwritten)
    have hposition := hreads.position_eq
    omega

theorem safe_membersFrom (hready : Ready scope start nested) (hsound : Sound extended scope nested)
    (hleast : start < least) {members : List Production}
    (hplain : ∀ production ∈ members, IsPlain production) {fuel : Nat}
    (hfuel : scope.source.tokens.size < fuel + least) :
    Safe scope least (membersFrom nested members fuel) := by
  induction fuel generalizing least with
  | zero =>
      intro cursor hcursor hsize
      omega
  | succ fuel ih =>
      refine ((oneOf_inline? _).safe hready.ends).bind fun closing => ?_
      cases closing with
      | some closing => exact safe_pure _
      | none =>
          refine (safe_extendedAttributes hready (Nat.le_of_lt hleast)).bind fun attributes => ?_
          have hmember : Safe scope least (firstMatch nested members) :=
            safe_firstMatch fun production _ => hready.later production hleast
          refine hmember.advance_expect_bind (hsound.advances_firstMatch hplain) fun member => ?_
          exact (ih (by omega) (by omega)).bind fun others => safe_pure _

theorem safe_inheritance (hends : scope.Ends) : Safe scope least inheritance := by
  refine ((oneOf_inline? _).safe hends).bind fun colon => ?_
  cases colon with
  | none => exact safe_pure []
  | some colon => exact ((oneOf_identifier.safe hends).expect _).bind fun parent => safe_pure _

theorem safe_containerName (hends : scope.Ends) (tag : String) :
    Safe scope least (containerName tag) := by
  refine (oneOf_identifier.safe hends).bind fun name => ?_
  cases name with
  | some name => exact safe_pure name
  | none => exact (safe_nextIs _).bind fun isMixin => safe_fail _

theorem safe_containerBody (hready : Ready scope start nested)
    (hsound : Sound extended scope nested) (hleast : start < least) {container : Container}
    (hplain : ∀ production ∈ container.members, IsPlain production) :
    Safe scope least (containerBody nested container) := by
  have hends := hready.ends
  rw [containerBody_eq]
  refine (safe_containerName hends _).bind fun name => safe_enter_bind ?_
  have hinherited : Safe scope least
      (if container.inheritable then inheritance else pure [] : Parser (List Part)) := by
    split
    · exact safe_inheritance hends
    · exact safe_pure []
  refine hinherited.bind fun inherited => ?_
  refine (((oneOf_inline? _).safe hends).expect _).bind fun opening => safe_size_bind ?_
  refine (safe_membersFrom hready hsound hleast hplain (by omega)).bind fun ⟨members, closing⟩ => ?_
  exact (((oneOf_inline? _).safe hends).expect _).bind fun termination => safe_pure _

/-- What a dialect adds to a container are members like its own. -/
theorem isPlain_extend (extended : Bool) {container : Container} {extension : ContainerExtension}
    (hextension : extension ∈ [(extensionsOf extended).interface,
      (extensionsOf extended).callbackInterface, (extensionsOf extended).namespaceDef,
      (extensionsOf extended).dictionary])
    (hplain : ∀ production ∈ container.members, IsPlain production) :
    ∀ production ∈ (container.extend extension).members, IsPlain production := by
  intro production hproduction
  rcases List.mem_append.mp hproduction with hadded | hown
  · cases extended with
    | false =>
        have hnone : extension.members = [] := by
          simp only [extensionsOf, List.mem_cons, List.not_mem_nil, or_false, Bool.false_eq_true,
            if_false] at hextension
          rcases hextension with rfl | rfl | rfl | rfl <;> rfl
        rw [hnone] at hadded
        cases hadded
    | true =>
        simp only [extensionsOf, Dialect.gecko, List.mem_cons, List.not_mem_nil, or_false,
          if_true] at hextension
        rcases hextension with rfl | rfl | rfl | rfl <;>
          (obtain rfl := List.mem_singleton.mp hadded
           simp [IsPlain, modeOf])
  · exact hplain production hown

theorem safe_interface (hready : Ready scope start nested) (hsound : Sound extended scope nested)
    (hleast : start ≤ least) (partiality : Option Token) :
    Safe scope least (interface nested partiality) := by
  refine (oneOf_inline? _).safe_bind hready.ends (safe_pure none) fun base => ?_
  refine ((oneOf_inline? _).safe hready.ends).bind fun mixin => ?_
  cases mixin with
  | some mixin =>
      exact (safe_containerBody hready hsound (by omega) (by simp [IsPlain, modeOf])).bind
        fun node => safe_pure _
  | none =>
      refine safe_extensions_bind ((safe_containerBody hready hsound (by omega) ?_).bind
        fun node => safe_pure _)
      rw [hsound.extensions_eq]
      exact isPlain_extend extended (by simp) (by simp [interfaceMembers, IsPlain, modeOf])

theorem safe_namespaceDef (hready : Ready scope start nested) (hsound : Sound extended scope nested)
    (hleast : start ≤ least) (partiality : Option Token) :
    Safe scope least (namespaceDef nested partiality) := by
  refine (oneOf_inline? _).safe_bind hready.ends (safe_pure none) fun base => ?_
  refine safe_extensions_bind ((safe_containerBody hready hsound (by omega) ?_).bind
    fun node => safe_pure _)
  rw [hsound.extensions_eq]
  exact isPlain_extend extended (by simp) (by simp [IsPlain, modeOf])

theorem safe_dictionary (hready : Ready scope start nested) (hsound : Sound extended scope nested)
    (hleast : start ≤ least) (partiality : Option Token) :
    Safe scope least (dictionary nested partiality) := by
  refine (oneOf_inline? _).safe_bind hready.ends (safe_pure none) fun base => ?_
  refine safe_extensions_bind ((safe_containerBody hready hsound (by omega) ?_).bind
    fun node => safe_pure _)
  rw [hsound.extensions_eq]
  exact isPlain_extend extended (by simp) (by simp [IsPlain, modeOf])

theorem safe_partialDefinition (hready : Ready scope start nested)
    (hsound : Sound extended scope nested) (hleast : start ≤ least) :
    Safe scope least (partialDefinition nested) := by
  refine ((oneOf_inline? _).safe hready.ends).bind fun partiality => ?_
  cases partiality with
  | none => exact safe_pure none
  | some partiality =>
      refine (((safe_dictionary hready hsound hleast _).either
        ((safe_interface hready hsound hleast _).either
          (safe_namespaceDef hready hsound hleast _))).expect _).bind fun node => ?_
      exact safe_pure _

/-! ## Other definitions -/

/-- The type that is returned and the arguments, up to the end of a callback. -/
theorem safe_callbackTail (hready : Ready scope start nested) (hleast : start ≤ least)
    {first second third fourth : Problem} {finish : Node → Token → List Node → Token → Token → Node} :
    Safe scope least (do
      let type ← expect (returnType nested none) first
      let opening ← expect (inline? ["("]) second
      let arguments ← argumentList nested
      let closing ← expect (inline? [")"]) third
      let termination ← expect (inline? [";"]) fourth
      return finish type opening arguments closing termination) := by
  have hends := hready.ends
  refine ((safe_returnType hready hleast).expect _).bind fun type => ?_
  refine (oneOf_inline? _).safe_expect_bind hends fun opening => ?_
  refine (safe_argumentList hready (by omega)).bind fun arguments => ?_
  refine (((oneOf_inline? _).safe hends).expect _).bind fun closing => ?_
  exact (((oneOf_inline? _).safe hends).expect _).bind fun termination => safe_pure _

theorem safe_callbackFunction (hready : Ready scope start nested) (hleast : start ≤ least)
    (base : Token) : Safe scope least (callbackFunction nested base) := by
  have hends := hready.ends
  refine ((oneOf_identifier.safe hends).expect _).bind fun name => safe_enter_bind ?_
  refine (((oneOf_inline? _).safe hends).expect _).bind fun assign => ?_
  exact safe_callbackTail hready hleast

theorem safe_callback (hready : Ready scope start nested) (hsound : Sound extended scope nested)
    (hleast : start ≤ least) : Safe scope least (callback nested) := by
  refine (oneOf_inline? _).safe_bind hready.ends (safe_pure none) fun word => ?_
  refine ((oneOf_inline? _).safe hready.ends).bind fun base => ?_
  cases base with
  | some base =>
      refine safe_extensions_bind ((safe_containerBody hready hsound (by omega) ?_).bind
        fun node => safe_pure _)
      rw [hsound.extensions_eq]
      exact isPlain_extend extended (by simp) (by simp [IsPlain, modeOf])
  | none => exact (safe_callbackFunction hready (by omega) word).bind fun node => safe_pure _

theorem safe_enumeration (hends : scope.Ends) : Safe scope least enumeration := by
  have hvalue (later : Nat) : Safe scope later enumValue :=
    (oneOf_ofKind? (by decide)).safe_bind hends (safe_pure none) fun value => safe_pure _
  refine ((oneOf_inline? _).safe hends).bind fun base => ?_
  cases base with
  | none => exact safe_pure none
  | some base =>
      refine ((oneOf_identifier.safe hends).expect _).bind fun name => safe_enter_bind ?_
      refine (((oneOf_inline? _).safe hends).expect _).bind fun opening => ?_
      refine (safe_commaList hends fun later _ => hvalue later).bind fun values => ?_
      refine (safe_nextIsKind _).bind fun isString => safe_refuse_bind ?_
      refine (((oneOf_inline? _).safe hends).expect _).bind fun closing => safe_refuse_bind ?_
      exact (((oneOf_inline? _).safe hends).expect _).bind fun termination => safe_pure _

theorem safe_typedefBody (hends : scope.Ends) (construct : Construct) (base : Token) (type : Node) :
    Safe scope least (typedefBody construct base type) :=
  ((oneOf_identifier.safe hends).expect _).bind fun _ => safe_enter_bind
    ((((oneOf_inline? _).safe hends).expect _).bind fun _ => safe_pure _)

theorem safe_typedef (hready : Ready scope start nested) (hleast : start ≤ least) :
    Safe scope least (typedef nested) := by
  refine ((oneOf_inline? _).safe hready.ends).bind fun base => ?_
  cases base with
  | none => exact safe_pure none
  | some base =>
      refine ((safe_attributedType hready hleast).expect _).bind fun type => ?_
      exact (safe_typedefBody hready.ends .typedef base type).bind fun node => safe_pure _

theorem safe_includes (hends : scope.Ends) : Safe scope least includes := by
  refine Safe.rewinding ((oneOf_identifier.safe hends).bind fun target => ?_)
  cases target with
  | none => exact safe_pure none
  | some target =>
      refine ((oneOf_inline? _).safe hends).bind fun word => ?_
      cases word with
      | none => exact safe_pure none
      | some word =>
          refine ((oneOf_identifier.safe hends).expect _).bind fun mixin => ?_
          exact (((oneOf_inline? _).safe hends).expect _).bind fun termination => safe_pure _

/-! ## Extensions -/

theorem safe_bodylessInterface (hends : scope.Ends) : Safe scope least bodylessInterface := by
  refine Safe.rewinding (((oneOf_inline? _).safe hends).bind fun base => ?_)
  cases base with
  | none => exact safe_pure none
  | some base =>
      refine (oneOf_identifier.safe hends).bind fun name => ?_
      cases name with
      | none => exact safe_pure none
      | some name =>
          refine ((oneOf_inline? _).safe hends).bind fun termination => ?_
          cases termination with
          | none => exact safe_pure none
          | some termination => exact safe_enter_bind (safe_pure _)

theorem safe_callbackConstructor (hready : Ready scope start nested) (hleast : start ≤ least) :
    Safe scope least (callbackConstructor nested) := by
  have hends := hready.ends
  refine Safe.rewinding (((oneOf_inline? _).safe hends).bind fun base => ?_)
  cases base with
  | none => exact safe_pure none
  | some base =>
      refine ((oneOf_inline? _).safe hends).bind fun word => ?_
      cases word with
      | none => exact safe_pure none
      | some word =>
          have hbody : Safe scope least (callbackConstructorBody nested base word) := by
            refine ((oneOf_identifier.safe hends).expect _).bind fun name => safe_enter_bind ?_
            refine (((oneOf_inline? _).safe hends).expect _).bind fun assign => ?_
            exact safe_callbackTail hready hleast
          exact hbody.bind fun node => safe_pure _

theorem safe_legacyCaller (hready : Ready scope start nested) (hleast : start ≤ least) :
    Safe scope least (legacyCaller nested) := by
  refine ((oneOf_identifier? _).safe hready.ends).bind fun special => ?_
  cases special with
  | none => exact safe_pure none
  | some special =>
      exact (safe_specialOperation hready hleast .legacyCaller special).bind fun node => safe_pure _

theorem safe_legacyCallerInterface (hready : Ready scope start nested)
    (hsound : Sound extended scope nested) (hleast : start ≤ least) :
    Safe scope least (legacyCallerInterface nested) := by
  intro cursor hcursor hsize
  -- The cursor may go back to where the production began, but not further.
  have hword : Safe scope cursor.position (inline? ["interface"]) :=
    (oneOf_inline? _).safe hready.ends
  refine (hword.bind_within fun {before base moved} hbefore hmoved hmovedSize hbase => ?_)
    cursor (Nat.le_refl _) hsize |>.mono hcursor
  cases base with
  | none => exact ⟨hmoved, hmovedSize⟩
  | some base =>
      have hposition : before.position < moved.position := (oneOf_inline? _).advances hbase
      have hbody : Safe scope (cursor.position + 1) (containerBody nested {
          construct := .interface
          tag := "legacycaller interface"
          lead := [.token .base base]
          inheritable := true
          members := .legacyCaller :: interfaceMembers }) :=
        safe_containerBody hready hsound (by omega)
          (by simp [interfaceMembers, IsPlain, modeOf])
      exact hbody.within_deferring (Nat.le_succ _) (Nat.le_refl _) hsize _ (by omega) hmovedSize

theorem safe_utf8StringRecord (hready : ReadyBehind scope start nested) (hleast : start ≤ least) :
    Safe scope least (utf8StringRecord nested) := by
  have hends := hready.ends
  refine Safe.rewinding ((oneOf_inline? _).safe_bind hends (safe_pure none) fun base => ?_)
  refine ((oneOf_inline? _).safe hends).bind fun opening => ?_
  cases opening with
  | none => exact safe_pure none
  | some opening =>
      refine ((oneOf_identifier? _).safe hends).bind fun key => ?_
      cases key with
      | none => exact safe_pure none
      | some key =>
          refine (((oneOf_inline? _).safe hends).expect _).bind fun comma => ?_
          refine ((hready.later _ (by omega)).expect _).bind fun value => ?_
          refine (((oneOf_inline? _).safe hends).expect _).bind fun closing => ?_
          exact (safe_nullableMark hends).bind fun mark => safe_pure _

theorem safe_utf8StringField (hready : Ready scope start nested) (hleast : start ≤ least) :
    Safe scope least (utf8StringField nested) := by
  refine Safe.rewinding (((oneOf_inline? _).safe hready.ends).bind fun required => ?_)
  refine (safe_utf8StringRecord hready.toReadyBehind hleast).bind fun type => ?_
  cases type with
  | none => exact safe_pure none
  | some type =>
      exact (safe_fieldBody hready.ends .utf8StringField required _).bind fun node => safe_pure _

theorem safe_utf8StringTypedef (hready : Ready scope start nested) (hleast : start ≤ least) :
    Safe scope least (utf8StringTypedef nested) := by
  refine Safe.rewinding (((oneOf_inline? _).safe hready.ends).bind fun base => ?_)
  cases base with
  | none => exact safe_pure none
  | some base =>
      refine (safe_utf8StringRecord hready.toReadyBehind hleast).bind fun type => ?_
      cases type with
      | none => exact safe_pure none
      | some type =>
          exact (safe_typedefBody hready.ends .utf8StringTypedef base _).bind fun node => safe_pure _

end

end Grammar

/-! ## The depth of the recursion -/

section

variable {extended : Bool} {scope : Scope} {least : Nat}

theorem Production.safe_step {nested : Production → Parser (Option Node)}
    (hready : Ready scope least nested) (hsound : Sound extended scope nested)
    (production : Production) : Safe scope least (production.step nested) := by
  have hends := hready.ends
  have hleast : least ≤ least := Nat.le_refl least
  cases production with
  | extendedAttribute => exact safe_extendedAttribute hready hleast
  | extendedAttributes => exact (safe_extendedAttributes hready hleast).map some
  | default => exact safe_default hends
  | argument => exact safe_argument hready hleast
  | genericType place => exact safe_genericType hready hleast
  | integerType => exact safe_integerType hends
  | decimalType => exact safe_decimalType hends
  | primitiveType => exact safe_primitiveType hends
  | singleType place => exact safe_singleType hready hleast
  | unionType place => exact safe_unionType hready hleast
  | type place => exact safe_type hready hleast
  | attributedType place => exact safe_attributedType hready hleast
  | returnType place => exact safe_returnType hready hleast
  | «attribute» noInherit mustBeReadonly => exact safe_attributeMember hready hleast none _ _
  | operation isRegular => exact (safe_operation hready hleast isRegular).map some
  | constant => exact safe_constant hends
  | constructor => exact safe_constructor hready hleast
  | staticMember => exact safe_specialMember hready hleast _
  | stringifier => exact safe_specialMember hready hleast _
  | iterableLike => exact safe_iterableLike hready hleast
  | field => exact (safe_field hready hleast).map some
  | dictionary => exact safe_dictionary hready hsound hleast none
  | namespaceDef => exact safe_namespaceDef hready hsound hleast none
  | enumeration => exact safe_enumeration hends
  | typedef => exact safe_typedef hready hleast
  | includes => exact safe_includes hends
  | callback => exact safe_callback hready hsound hleast
  | interface => exact safe_interface hready hsound hleast none
  | partialDefinition => exact safe_partialDefinition hready hsound hleast
  | bodylessInterface => exact safe_bodylessInterface hends
  | callbackConstructor => exact safe_callbackConstructor hready hleast
  | legacyCaller => exact safe_legacyCaller hready hleast
  | legacyCallerInterface => exact safe_legacyCallerInterface hready hsound hleast
  | utf8StringRecord => exact safe_utf8StringRecord hready.toReadyBehind hleast
  | utf8StringField => exact safe_utf8StringField hready hleast
  | utf8StringTypedef => exact safe_utf8StringTypedef hready hleast

/-- The types of extensions are records with `UTF8String` keys. -/
theorem eq_utf8StringRecord_of_mem (hextensions : scope.extensions = extensionsOf extended)
    {production : Production} (h : production ∈ scope.extensions.types) :
    production = .utf8StringRecord := by
  rw [hextensions] at h
  cases extended with
  | false => cases h
  | true => exact List.mem_singleton.mp h

/-- A depth of two for each token that is left, and a little more, is never exhausted. -/
theorem Production.safe_parseTo (hends : scope.Ends)
    (hextensions : scope.extensions = extensionsOf extended) (production : Production)
    {depth : Nat} (hdepth : 2 * (scope.source.tokens.size - least) + production.rank ≤ depth) :
    Safe scope least (parseTo depth production) := by
  induction depth generalizing least production with
  | zero =>
      have hrank := production.one_le_rank
      omega
  | succ depth ih =>
      intro cursor hleast hsize
      have hbehind : ReadyBehind scope least (parseTo depth) := by
        refine ⟨hends, fun inner place hplace => ih inner ?_⟩
        have hinner := inner.rank_le_two
        have hrank := production.one_le_rank
        omega
      have hsound : Sound extended scope (parseTo depth) := sound_parseTo hextensions depth
      by_cases hrecord : production = .utf8StringRecord
      · subst hrecord
        exact safe_utf8StringRecord hbehind (Nat.le_refl least) cursor hleast hsize
      · have hrank : production.rank = 2 := by
          cases production <;> first | rfl | exact absurd rfl hrecord
        have hready : Ready scope least (parseTo depth) := {
          toReadyBehind := hbehind
          types_subset := fun _ => eq_utf8StringRecord_of_mem hextensions
          record := fun {place} hplace => ih .utf8StringRecord (by simp only [rank]; omega)
          sound := ⟨extended, hsound⟩ }
        exact safe_step hready hsound production cursor hleast hsize

/-! ## Whole texts -/

theorem Grammar.safe_definitionsFrom {nested : Production → Parser (Option Node)}
    {start : Nat} (hready : Ready scope start nested) (hsound : Sound extended scope nested)
    {productions : List Production}
    (hsafe : ∀ production ∈ productions, ∀ place, Safe scope place (nested production))
    (hplain : ∀ production ∈ productions, IsPlain production) (hleast : start ≤ least) {fuel : Nat}
    (hfuel : scope.source.tokens.size < fuel + least) :
    Safe scope least (definitionsFrom nested productions fuel) := by
  induction fuel generalizing least with
  | zero =>
      intro cursor hcursor hsize
      omega
  | succ fuel ih =>
      refine (safe_extendedAttributes hready hleast).bind fun attributes => ?_
      have hdefinition : Safe scope least (firstMatch nested productions) :=
        safe_firstMatch fun production hproduction => hsafe production hproduction least
      refine hdefinition.advance_bind (hsound.advances_firstMatch hplain)
        (safe_refuse_bind (safe_pure [])) fun definition => ?_
      exact (ih (by omega) (by omega)).bind fun others => safe_pure _

/-- At the depth that fits a source every production stays within the text. -/
theorem Production.safe_parseTo_depthFor (hends : scope.Ends)
    (hextensions : scope.extensions = extensionsOf extended) (production : Production) :
    Safe scope least (parseTo (depthFor scope.source.tokens.size) production) := by
  refine safe_parseTo hends hextensions production ?_
  have hrank := production.rank_le_two
  simp only [depthFor]
  omega

/-- Reading all the definitions of a text ends with its items, or with a syntax error at a token. -/
theorem Grammar.definitions_total (hends : scope.Ends)
    (hextensions : scope.extensions = extensionsOf extended) {productions : List Production}
    (hdefining : ∀ production ∈ productions, IsDefining extended production)
    (hsize : 0 < scope.source.tokens.size) :
    (∃ items moved, recursively (definitions · productions) scope {} = .ok items moved) ∨
      ∃ error moved, recursively (definitions · productions) scope {} =
        .error (.syntaxError error) moved ∧ error.position < scope.source.tokens.size := by
  have hready : Ready scope 0 (Production.parseTo (depthFor scope.source.tokens.size)) := {
    ends := hends
    later := fun production _ _ => Production.safe_parseTo_depthFor hends hextensions production
    types_subset := fun _ => eq_utf8StringRecord_of_mem hextensions
    record := fun _ => Production.safe_parseTo_depthFor hends hextensions .utf8StringRecord
    sound := ⟨extended, Production.sound_parseTo hextensions _⟩ }
  have hall : ∀ production ∈ productions ++ standardDefinitions, IsDefining extended production :=
    fun production hproduction => (List.mem_append.mp hproduction).elim (hdefining production)
      isDefining_standard
  have hsafe : Safe scope 0 (definitionsFrom
      (Production.parseTo (depthFor scope.source.tokens.size)) (productions ++ standardDefinitions)
      (scope.source.tokens.size + 1)) :=
    safe_definitionsFrom hready (Production.sound_parseTo hextensions _)
      (fun production _ _ => Production.safe_parseTo_depthFor hends hextensions production)
      (fun production hproduction => (hall production hproduction).1) (Nat.le_refl 0) (by omega)
  have hwithin := hsafe {} (Nat.le_refl 0) hsize
  simp only [recursively, recursivelyTo, definitions, Bind.bind, Parser.size]
  cases hfound : definitionsFrom _ _ _ scope {} with
  | error failure moved =>
      rw [hfound] at hwithin
      cases failure with
      | syntaxError error => exact Or.inr ⟨error, moved, rfl, hwithin⟩
      | pastEnd => exact hwithin.elim
      | missing token => exact hwithin.elim
      | exhausted => exact hwithin.elim
  | ok nodes moved =>
      rw [hfound] at hwithin
      -- Behind the definitions there is a token, and if it is not the end it is the problem.
      obtain ⟨next, hnext⟩ : ∃ next, scope.source.tokens[moved.position]? = some next :=
        ⟨_, Array.getElem?_eq_getElem hwithin.2⟩
      cases hkind : next.kind == .eof with
      | true =>
          simp only [expect, Bind.bind, ofKind?, takeIf, hnext, List.contains_cons, hkind,
            Bool.true_or, if_true]
          exact Or.inl ⟨_, _, rfl⟩
      | false =>
          simp only [expect, Bind.bind, ofKind?, takeIf, hnext, List.contains_cons, hkind,
            List.contains_nil, Bool.or_false, Bool.false_eq_true, if_false, fail]
          exact Or.inr ⟨_, _, rfl, hwithin.2⟩

end

end WebIdl
