import WebIdl.Proofs.Complete.Parse
import WebIdl.Proofs.Derivation.Grammar

/-!
# The type parser accepts the grammar of types

Where the parser of types finds one, the tokens that it has read are a type of the grammar
(`Derivation.Derives`) with this tree, and the next token does not go on with it (`Shape.goesOn`).
Conversely a type of the grammar is found wherever such a token is behind it.  The parser is greedy,
so the condition on the next token cannot be left out: before a second `long` the type `long` is not
found, and before a bracket or a second question mark the parser reports an error.

That the parser finds the right trees is known already, in both directions; what is left is the token
behind a type that has been found.
-/

namespace WebIdl.Grammar

open WebIdl.Parser WebIdl.Shape

/-! ## The token behind -/

/-- No token behind the type makes a longer type of its words. -/
structure Ends (scope : Scope) (moved : Cursor) (type : Node) : Prop where
  long : isSingleLong type = true →
    ∀ next ∈ (scope.rest moved).head?, next.isInline "long" = false
  bracket : isNamed type = true → ∀ next ∈ (scope.rest moved).head?, next.isInline "<" = false

section

variable {scope : Scope} {nested : Production → Parser (Option Node)} {cursor moved : Cursor}
  {place : Option String} {type : Node}

theorem behind_nullableMark {mark : Option Token}
    (h : nullableMark scope cursor = .ok mark moved) :
    ∃ next, (scope.rest moved).head? = some next ∧ next.isInline "?" = false := by
  obtain ⟨mark, middle, -, h⟩ := bind_eq_ok.mp h
  obtain ⟨next, hnext, h⟩ := nextIs_bind.mp h
  obtain ⟨hsecond, h⟩ := refuse_bind.mp h
  obtain ⟨-, rfl⟩ := pure_eq_ok.mp h
  exact ⟨next, hnext, hsecond⟩

/-- A type around a word that is neither `long` nor a name. -/
theorem ends_of_base {base : Token} (hbase : type.token? .base = some base)
    (hlong : (Terminal.word "long").accepts base = false)
    (hname : (Terminal.typeName fun _ => true).accepts base = false) : Ends scope moved type where
  long hsingle := by simp [isSingleLong, hbase, isInline_eq, hlong] at hsingle
  bracket hnamed := by simp [isNamed, hbase, hname] at hnamed

theorem ends_integerType (h : integerType scope cursor = .ok (some type) moved) :
    Ends scope moved type := by
  obtain ⟨sign, afterSign, -, h⟩ := (oneOf_inline? _).bind h
  obtain ⟨base, afterBase, hbase, h⟩ := (oneOf_inline? _).bind h
  cases base with
  | none =>
      obtain ⟨-, h⟩ := refuse_bind.mp h
      exact absurd (pure_eq_ok.mp h).1 (by simp)
  | some base =>
      obtain ⟨doubling, _, hdoubling, h⟩ := bind_eq_ok.mp h
      obtain ⟨htype, rfl⟩ := pure_eq_ok.mp h
      obtain rfl := Option.some.inj htype
      have hword := hbase.accepted base rfl
      refine ⟨fun hsingle next hnext => ?_, fun hnamed => ?_⟩
      · obtain ⟨hlong, hnone⟩ : base.isInline "long" = true ∧ doubling = none := by
          simpa [isSingleLong, typeNode, bare, Node.has] using hsingle
        subst hnone
        rcases when?_eq_ok.mp hdoubling with ⟨-, htaken⟩ | ⟨hother, -⟩
        · have htakes := (oneOf_inline? _).takes htaken
          rw [isInline_eq]
          refine htakes.declined rfl next ?_
          rwa [← Scope.rest_congr htakes.none]
        · simp [Token.isInline] at hlong
          simp [hlong.2] at hother
      · have hname : (Terminal.typeName fun _ => true).accepts base = false :=
          Terminal.rejects_of_avoids rfl hword
        simp [isNamed, typeNode, bare, hname] at hnamed

theorem ends_decimalType (h : decimalType scope cursor = .ok (some type) moved) :
    Ends scope moved type := by
  obtain ⟨sign, afterSign, -, h⟩ := (oneOf_inline? _).bind h
  obtain ⟨base, afterBase, hbase, h⟩ := (oneOf_inline? _).bind h
  cases base with
  | none =>
      obtain ⟨-, h⟩ := refuse_bind.mp h
      exact absurd (pure_eq_ok.mp h).1 (by simp)
  | some base =>
      obtain ⟨htype, rfl⟩ := pure_eq_ok.mp h
      obtain rfl := Option.some.inj htype
      have hword := hbase.accepted base rfl
      exact ends_of_base (by simp [typeNode, bare]) (Terminal.rejects_of_avoids rfl hword)
        (Terminal.rejects_of_avoids rfl hword)

theorem ends_primitiveType (h : primitiveType scope cursor = .ok (some type) moved) :
    Ends scope moved type := by
  rcases either_eq_ok.mp h with ⟨_, hsame, hinteger⟩ | ⟨_, -, h⟩
  · obtain rfl := Option.some.inj hsame
    exact ends_integerType hinteger
  rcases either_eq_ok.mp h with ⟨_, hsame, hdecimal⟩ | ⟨_, -, hkeyword⟩
  · obtain rfl := Option.some.inj hsame
    exact ends_decimalType hdecimal
  · obtain ⟨-, base, hword, rfl⟩ := found_oneWord (oneOf_inline? _) hkeyword
    exact ends_of_base (by simp [typeNode, bare]) (Terminal.rejects_of_avoids rfl hword)
      (Terminal.rejects_of_avoids rfl hword)

theorem ends_namedType (h : namedType scope cursor = .ok (some type) moved) :
    Ends scope moved type := by
  obtain ⟨base, afterBase, hbase, h⟩ := oneOf_typeName.bind h
  cases base with
  | none => exact absurd (pure_eq_ok.mp h).1 (by simp)
  | some base =>
      obtain ⟨next, hnext, h⟩ := nextIs_bind.mp h
      obtain ⟨hbracket, h⟩ := refuse_bind.mp h
      obtain ⟨htype, rfl⟩ := pure_eq_ok.mp h
      obtain rfl := Option.some.inj htype
      refine ⟨fun hsingle => ?_, fun _ behind hbehind => ?_⟩
      · have hlong : (Terminal.word "long").accepts base = false :=
          Terminal.rejects_of_avoids rfl (hbase.accepted base rfl)
        simp [isSingleLong, typeNode, bare, isInline_eq, hlong] at hsingle
      · obtain rfl : next = behind := by simpa [hnext] using hbehind
        exact hbracket

theorem ends_genericType (h : genericType nested place scope cursor = .ok (some type) moved) :
    Ends scope moved type := by
  obtain ⟨base, afterBase, hbase, h⟩ := (oneOf_inline? _).bind h
  cases base with
  | none => exact absurd (pure_eq_ok.mp h).1 (by simp)
  | some base =>
      obtain ⟨opening, afterOpening, -, -, h⟩ := (oneOf_inline? _).expect_bind h
      obtain ⟨subtypes, afterSubtypes, -, h⟩ := bind_eq_ok.mp h
      obtain ⟨closing, _, -, -, h⟩ := (oneOf_inline? _).expect_bind h
      obtain ⟨htype, rfl⟩ := pure_eq_ok.mp h
      obtain rfl := Option.some.inj htype
      have hword := hbase.accepted base rfl
      exact ends_of_base (by simp [typeNode, bare]) (Terminal.rejects_of_avoids rfl hword)
        (Terminal.rejects_of_avoids rfl hword)

/-- What comes before the question mark is as long as it can be. -/
theorem ends_plainType
    (h : either (genericType nested place) (either primitiveType namedType) scope cursor =
      .ok (some type) moved) : Ends scope moved type := by
  rcases either_eq_ok.mp h with ⟨_, hsame, hgeneric⟩ | ⟨_, -, h⟩
  · obtain rfl := Option.some.inj hsame
    exact ends_genericType hgeneric
  rcases either_eq_ok.mp h with ⟨_, hsame, hprimitive⟩ | ⟨_, -, hnamed⟩
  · obtain rfl := Option.some.inj hsame
    exact ends_primitiveType hprimitive
  · exact ends_namedType hnamed

/-- With a question mark only a second one goes on with a type, and without one only what makes its
words longer. -/
theorem Ends.goesOn_withNullable {middle : Cursor} {mark : Option Token} {next : Token}
    (hends : Ends scope middle type) (hquestion : next.isInline "?" = false)
    (hnext : mark = none → next ∈ (scope.rest middle).head?) :
    goesOn (withNullable mark (type.withPlace place)) next = false := by
  obtain ⟨label, parts⟩ := type
  have hplaced : ∃ placed, (Node.mk label parts).withPlace place = .mk placed parts := by
    rw [Node.withPlace]
    split <;> exact ⟨_, rfl⟩
  obtain ⟨placed, hplaced⟩ := hplaced
  rw [hplaced, withNullable]
  cases mark with
  | some mark =>
      have hnullable : (Node.mk placed (parts ++ Part.ofToken? .nullable (some mark))).isNullable =
          true := by
        rw [Node.isNullable, Node.has, Node.token?_append, Node.token?_ofToken?_last, if_pos rfl,
          Option.isSome_or, Option.isSome_some, Bool.or_true]
      simp [goesOn, hquestion, hnullable]
  | none =>
      have hlong : (isSingleLong (.mk placed parts) && next.isInline "long") = false :=
        Bool.and_eq_false_imp.mpr fun hsingle => hends.long hsingle next (hnext rfl)
      have hbracket : (isNamed (.mk placed parts) && next.isInline "<") = false :=
        Bool.and_eq_false_imp.mpr fun hnamed => hends.bracket hnamed next (hnext rfl)
      rw [Part.ofToken?, Option.toList_none, List.map_nil, List.append_nil, goesOn, hquestion,
        hlong, hbracket, Bool.or_false, Bool.and_false, Bool.or_false]

/-- The next token does not go on with the type. -/
def Stops (scope : Scope) (moved : Cursor) (type : Node) : Prop :=
  ∃ next, (scope.rest moved).head? = some next ∧ goesOn type next = false

theorem stops_singleType (hextensions : scope.extensions.types = [])
    (h : singleType nested place scope cursor = .ok (some type) moved) : Stops scope moved type := by
  obtain ⟨custom, afterCustom, hcustom, h⟩ := bind_eq_ok.mp (extensions_bind.mp h)
  rw [hextensions] at hcustom
  obtain ⟨rfl, rfl⟩ := pure_eq_ok.mp hcustom
  obtain ⟨plain, afterPlain, hplain, h⟩ := bind_eq_ok.mp h
  cases plain with
  | none => exact absurd (pure_eq_ok.mp h).1 (by simp)
  | some plain =>
      obtain ⟨isPromise, -, h⟩ := present_bind.mp h
      obtain ⟨question, -, h⟩ := nextIs_bind.mp h
      obtain ⟨-, h⟩ := refuse_bind.mp h
      obtain ⟨mark, afterMark, hmark, h⟩ := bind_eq_ok.mp h
      obtain ⟨-, h⟩ := refuse_bind.mp h
      obtain ⟨htype, rfl⟩ := pure_eq_ok.mp h
      obtain rfl := Option.some.inj htype
      obtain ⟨next, hnext, hquestion⟩ := behind_nullableMark hmark
      refine ⟨next, hnext, (ends_plainType hplain).goesOn_withNullable hquestion fun hnone => ?_⟩
      subst hnone
      rwa [← Scope.rest_congr (takes_nullableMark hmark).none]

theorem stops_unionType (h : unionType nested place scope cursor = .ok (some type) moved) :
    Stops scope moved type := by
  obtain ⟨opening, afterOpening, -, h⟩ := (oneOf_inline? _).bind h
  cases opening with
  | none => exact absurd (pure_eq_ok.mp h).1 (by simp)
  | some opening =>
      obtain ⟨members, afterMembers, -, h⟩ := bind_eq_ok.mp (size_bind.mp h)
      obtain ⟨-, h⟩ := refuse_bind.mp h
      obtain ⟨closing, afterClosing, -, -, h⟩ := (oneOf_inline? _).expect_bind h
      obtain ⟨mark, afterMark, hmark, h⟩ := bind_eq_ok.mp h
      obtain ⟨htype, rfl⟩ := pure_eq_ok.mp h
      obtain rfl := Option.some.inj htype
      obtain ⟨next, hnext, hquestion⟩ := behind_nullableMark hmark
      refine ⟨next, hnext, ?_⟩
      simp [goesOn, isSingleLong, isNamed, withNullable, bare, hquestion]

theorem stops_attributedType (hnested : Sound false scope nested)
    (h : attributedType nested place scope cursor = .ok (some type) moved) :
    Stops scope moved type := by
  obtain ⟨_, hsame, h⟩ | ⟨hnone, -⟩ := rewinding_eq_ok.mp h
  · obtain rfl := Option.some.inj hsame
    obtain ⟨attributes, afterAttributes, -, h⟩ := bind_eq_ok.mp h
    obtain ⟨found, stop, hfound, h⟩ := bind_eq_ok.mp h
    cases found with
    | none => exact absurd (pure_eq_ok.mp h).1 (by simp)
    | some core =>
        obtain ⟨htype, rfl⟩ := pure_eq_ok.mp h
        obtain rfl := Option.some.inj htype
        have hstops : Stops scope stop core := by
          rcases either_eq_ok.mp hfound with ⟨_, hsame, hsingle⟩ | ⟨_, -, hunion⟩
          · obtain rfl := Option.some.inj hsame
            refine stops_singleType ?_ hsingle
            rw [hnested.extensions_eq]
            rfl
          · exact stops_unionType hunion
        obtain ⟨next, hnext, hgoesOn⟩ := hstops
        refine ⟨next, hnext, ?_⟩
        rwa [Conforms.goesOn_withAttributes (found_type hnested hfound).2]
  · cases hnone

end

end WebIdl.Grammar

namespace WebIdl

open WebIdl.Parser WebIdl.Shape WebIdl.Grammar WebIdl.Derivation

/-! ## Types that are parsed -/

/-- Without extensions the parser of types finds a type with its attributes exactly if the tokens from
its position on begin with a phrase of the grammar that the next token does not go on with.  It finds
the tree of this phrase and stops behind it. -/
theorem Production.attributedType_parse_iff (source : Source) (cursor : Cursor)
    (place : Option String) (type : Node) (stop : Nat) :
    (∃ moved, (Production.attributedType place).parse { source } cursor = .ok (some type) moved ∧
      moved.position = stop) ↔
    ∃ tokens next more, Scope.rest { source } cursor = tokens ++ next :: more ∧
      stop = cursor.position + tokens.length ∧
      Derives (.attributedType place) tokens type ∧ goesOn type next = false := by
  have hextensions : ({ source } : Scope).extensions = extensionsOf false := rfl
  constructor
  · -- what is found conforms, and is followed by a token that does not go on with it
    rintro ⟨moved, hparse, rfl⟩
    have hparse := recursively_eq_ok.mp hparse
    obtain ⟨hreads, hconforms⟩ :=
      (Production.sound_parseTo hextensions _).found hparse
    obtain ⟨next, hnext, hgoesOn⟩ := stops_attributedType
      (Production.sound_parseTo hextensions _) hparse
    obtain ⟨more, hmore⟩ := List.head?_eq_some_iff.mp hnext
    refine ⟨type.tokens, next, more, ?_, hreads.position_eq, derives_iff.mpr ⟨hconforms, rfl⟩,
      hgoesOn⟩
    rw [hreads.rest_eq, hmore]
  · rintro ⟨tokens, next, more, hrest, rfl, hderives, hgoesOn⟩
    obtain ⟨hconforms, rfl⟩ := hderives.conforms
    -- the depth that parsing comes with is enough for the type
    have hlength : type.tokens.length ≤ source.tokens.size := by
      have hlength := congrArg List.length hrest
      simp only [Scope.rest, List.length_drop, List.length_append, List.length_cons,
        Array.length_toList] at hlength
      omega
    have hyields : Yields { source }
        (Grammar.attributedType (Production.parseTo (2 * source.tokens.size + 3)) place)
        (type.tokens ++ next :: more) (some type) (next :: more) :=
      yields_attributedType (Production.complete_parseTo hextensions _) hconforms (by omega) hgoesOn
    obtain ⟨moved, hmoved, -⟩ := hyields cursor hrest
    have hparse : (Production.attributedType place).parse { source } cursor =
        .ok (some type) moved := recursively_eq_ok.mpr hmoved
    obtain ⟨hreads, -⟩ := (Production.sound_parseTo hextensions _).found
      (recursively_eq_ok.mp hparse)
    exact ⟨moved, hparse, hreads.position_eq⟩

end WebIdl
