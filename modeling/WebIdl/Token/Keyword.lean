/-!
# The words of the language

Identifier-shaped lexemes that are keywords, the punctuation, and the identifiers that no text may
use.
-/

namespace WebIdl

namespace Keyword

/-- Keywords that may also name an argument. -/
def argumentNames : List String :=
  ["async", "attribute", "callback", "const", "constructor", "deleter", "dictionary", "enum",
    "getter", "includes", "inherit", "interface", "iterable", "maplike", "namespace", "partial",
    "required", "setlike", "setter", "static", "stringifier", "typedef", "unrestricted"]

/-- The string types, which are also the keys a record may have. -/
def stringTypes : List String :=
  ["ByteString", "DOMString", "USVString"]

/-- Buffer types and the types without structure. -/
def typeNames : List String :=
  ["ArrayBuffer", "SharedArrayBuffer", "DataView", "Int8Array", "Int16Array", "Int32Array",
    "Uint8Array", "Uint16Array", "Uint32Array", "Uint8ClampedArray", "BigInt64Array",
    "BigUint64Array", "Float32Array", "Float64Array", "any", "object", "symbol"]

/-- The remaining keywords: primitive and generic types, literals and modifiers. -/
def others : List String :=
  ["-Infinity", "FrozenArray", "Infinity", "NaN", "ObservableArray", "Promise", "bigint",
    "boolean", "byte", "double", "false", "float", "long", "mixin", "null", "octet", "optional",
    "or", "readonly", "record", "sequence", "short", "true", "undefined", "unsigned", "void"]

/-- Every keyword. -/
def all : List String :=
  others ++ argumentNames ++ stringTypes ++ typeNames

/-- Identifiers that a text must not use. -/
def reserved : List String :=
  ["_constructor", "toString", "_toString"]

end Keyword

/-- The punctuation marks.  No mark begins with another one. -/
def punctuation : List String :=
  ["(", ")", ",", "...", ":", ";", "<", "=", ">", "?", "*", "[", "]", "\x7b", "\x7d"]

end WebIdl
