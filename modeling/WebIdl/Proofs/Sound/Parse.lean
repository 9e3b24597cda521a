import WebIdl.Proofs.Sound.Extended

/-!
# What every production finds

The recursion of the grammar is tied by a bound on its depth.  At every depth the parsers of
productions are right, by induction on it, whatever the bound is.
-/

namespace WebIdl

open WebIdl.Parser WebIdl.Shape WebIdl.Grammar

/-! ## The depth that a production needs -/

/-- How much depth a production needs beyond two for each token that is left.  A type begins with an
attempt at a record with `UTF8String` keys, before anything is read. -/
def Production.rank : Production → Nat
  | .utf8StringRecord => 1
  | _ => 2

theorem Production.one_le_rank (production : Production) : 1 ≤ production.rank := by
  cases production <;> simp [rank]

theorem Production.rank_le_two (production : Production) : production.rank ≤ 2 := by
  cases production <;> simp [rank]

/-! ## Every production -/

section

variable {extended : Bool} {scope : Scope} {nested : Production → Parser (Option Node)}

/-- One step of the recursion. -/
theorem Production.found_step (hnested : Sound extended scope nested) {production : Production}
    {cursor moved : Cursor} {found : Option Node} (h : production.step nested scope cursor = .ok found moved) :
    Found scope (Conforms extended (categoryOf production)) cursor found moved := by
  cases production with
  | extendedAttribute => exact found_extendedAttribute hnested h
  | extendedAttributes =>
      obtain ⟨attributes, rfl, hfound⟩ := map_eq_ok.mp h
      obtain ⟨hreads, hattributes, -⟩ := reads_extendedAttributes hnested hfound
      exact ⟨hreads, conforms_attributes hattributes⟩
  | default => exact found_default extended h
  | argument => exact found_argument hnested h
  | genericType place => exact found_genericType hnested h
  | integerType => exact found_integerType extended h
  | decimalType => exact found_decimalType extended h
  | primitiveType => exact found_primitiveType extended h
  | singleType place => exact found_singleType hnested h
  | unionType place => exact found_unionType hnested h
  | type place => exact found_type hnested h
  | attributedType place => exact found_attributedType hnested h
  | returnType place => exact found_returnType hnested h
  | «attribute» noInherit mustBeReadonly => exact found_attribute hnested h
  | operation isRegular =>
      obtain ⟨node, rfl, hfound⟩ := map_eq_ok.mp h
      exact found_operation hnested hfound
  | constant => exact found_constant extended h
  | constructor => exact found_constructor hnested h
  | staticMember => exact found_specialMember hnested (by decide) h
  | stringifier => exact found_specialMember hnested (by decide) h
  | iterableLike => exact found_iterableLike hnested h
  | field =>
      obtain ⟨node, rfl, hfound⟩ := map_eq_ok.mp h
      exact found_field hnested hfound
  | dictionary => exact found_dictionary hnested h
  | namespaceDef => exact found_namespaceDef hnested h
  | enumeration => exact found_enumeration extended h
  | typedef => exact found_typedef hnested h
  | includes => exact found_includes extended h
  | callback => exact found_callback hnested h
  | interface => exact found_interface hnested h
  | partialDefinition => exact found_partialDefinition hnested h
  | bodylessInterface => exact found_bodylessInterface extended h
  | callbackConstructor => exact found_callbackConstructor hnested h
  | legacyCaller => exact (found_legacyCaller hnested h).1
  | legacyCallerInterface => exact found_legacyCallerInterface hnested h
  | utf8StringRecord => exact (found_utf8StringRecord hnested h).1
  | utf8StringField => exact (found_utf8StringField hnested h).1
  | utf8StringTypedef => exact (found_utf8StringTypedef hnested h).1

theorem Production.absent_step (hnested : Sound extended scope nested) {production : Production}
    {cursor moved : Cursor} (h : production.step nested scope cursor = .ok none moved) :
    Absent production (scope.rest cursor) := by
  cases production with
  | legacyCaller => exact (found_legacyCaller hnested h).2 rfl
  | utf8StringField => exact (found_utf8StringField hnested h).2 rfl
  | utf8StringTypedef => exact (found_utf8StringTypedef hnested h).2 rfl
  | _ => trivial

/-- The parsers of productions are right at every depth. -/
theorem Production.sound_parseTo (hextensions : scope.extensions = extensionsOf extended)
    (depth : Nat) : Sound extended scope (Production.parseTo depth) := by
  induction depth with
  | zero =>
      exact ⟨hextensions, fun h => absurd h exhausted_ne_ok, fun h => absurd h exhausted_ne_ok⟩
  | succ depth ih =>
      exact ⟨hextensions, fun h => found_step ih h, fun h => absent_step ih h⟩

end

end WebIdl
