/-!
# Productions and extension points

A production is a piece of the grammar that can be tried at a place in the text.  Productions are
data, so that a dialect can list those that it adds: definitions tried before the standard ones,
members tried before those of a container, and types tried before the standard types.
-/

namespace WebIdl

/-- The productions of the grammar and of its extensions. -/
inductive Production where
  | extendedAttribute
  /-- Attributes in brackets; without a bracket it finds the empty list. -/
  | extendedAttributes
  | default
  | argument
  /-- The type productions note the syntactic position that they are tried in. -/
  | genericType (place : Option String)
  | integerType
  | decimalType
  | primitiveType
  | singleType (place : Option String)
  | unionType (place : Option String)
  | type (place : Option String)
  | attributedType (place : Option String)
  | returnType (place : Option String)
  /-- An attribute; `inherit` may be refused, and `readonly` required. -/
  | attribute (noInherit mustBeReadonly : Bool)
  /-- An operation; a regular one has no word before its type. -/
  | operation (isRegular : Bool)
  | constant
  | constructor
  | staticMember
  | stringifier
  | iterableLike
  | field
  | dictionary
  | namespaceDef
  | enumeration
  | typedef
  | includes
  | callback
  | interface
  | partialDefinition
  | bodylessInterface
  | callbackConstructor
  | legacyCaller
  | legacyCallerInterface
  | utf8StringRecord
  | utf8StringField
  | utf8StringTypedef
deriving DecidableEq, Repr

/-- What a dialect adds to one kind of container. -/
structure ContainerExtension where
  /-- Members that are tried before the container's own. -/
  members : List Production := []
  /-- The type tag of such containers, if it is not the usual one. -/
  tag : Option String := none
deriving DecidableEq, Repr

/-- What a dialect adds to the grammar below the level of definitions. -/
structure Extensions where
  interface : ContainerExtension := {}
  callbackInterface : ContainerExtension := {}
  namespaceDef : ContainerExtension := {}
  dictionary : ContainerExtension := {}
  /-- Types that are tried before the standard ones. -/
  types : List Production := []
deriving DecidableEq, Repr

end WebIdl
