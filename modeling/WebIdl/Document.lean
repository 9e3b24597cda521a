import WebIdl.Directive
import WebIdl.Tree.Basic
import WebIdl.Tweak

/-!
# Documents

A document is a parsed file: its definitions in source order, the item that holds the end of the
text, and the tweaks that were applied before parsing.
-/

namespace WebIdl

/-- A parsed file. -/
structure Document where
  sourceName : Option String
  /-- The tweaks that were applied to the text. -/
  tweaks : List Tweak
  /-- The definitions, and the end of the text as the last item. -/
  items : List Node

/-- Is this item a definition, and not the end of the text? -/
def Node.isDefinition (node : Node) : Bool :=
  node.construct != .eof

namespace Document

/-- The definitions of a document. -/
def definitions (document : Document) : List Node :=
  document.items.filter Node.isDefinition

/-- All the constructs of a document, each before those below it. -/
def walk (document : Document) : List Node :=
  document.items.flatMap Node.walk

/-- The text that was parsed, with tweaks and masked directives in it. -/
def parsedText (document : Document) : String :=
  String.join (document.items.map Node.text)

/-- The text of the file. -/
def write (document : Document) : String :=
  Directive.unmask (Tweak.revertAll document.tweaks document.parsedText)

end Document

end WebIdl
