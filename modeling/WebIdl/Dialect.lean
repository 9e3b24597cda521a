import WebIdl.Document
import WebIdl.Grammar.Parse
import WebIdl.Text.Quoted

/-!
# Dialects

A dialect is data: the definitions that it adds to the standard ones, its extensions of members and
types, the tweaks that particular files need, and the validation rules whose repairs it admits.

To parse a file is to mask its directives, apply its tweaks, cut it into tokens and read its
definitions; `Document.write` undoes the first two.
-/

namespace WebIdl

/-- A variant of the language. -/
structure Dialect where
  name : String
  /-- Definitions that are tried before the standard ones. -/
  productions : List Production := []
  extensions : Extensions := {}
  /-- The tweaks for files of given names. -/
  tweaks : List (String × List Tweak) := []
  /-- The rules whose repairs are made. -/
  repairs : List String := []

/-- The last component of a path. -/
def baseName (path : String) : String :=
  String.ofList (path.toList.reverse.takeWhile (· != '/')).reverse

namespace Dialect

/-- The tweaks for a source, which go by the last component of its name. -/
def tweaksFor (dialect : Dialect) (sourceName : Option String) : List Tweak :=
  match sourceName with
  | none | some "" => []
  | some path => (dialect.tweaks.lookup (baseName path)).getD []

/-- Does the dialect make the repairs of this rule? -/
def admits (dialect : Dialect) (rule : String) : Bool :=
  dialect.repairs.contains rule

/-! ## The named dialects -/

/-- The standard language. -/
def standard : Dialect where
  name := "webidl"
  repairs := ["replace-void"]

/-- The language of Gecko's interface files. -/
def gecko : Dialect where
  name := "gecko"
  productions :=
    [.bodylessInterface, .callbackConstructor, .legacyCallerInterface, .utf8StringTypedef]
  extensions := {
    interface := { members := [.legacyCaller] }
    callbackInterface := {
      members := [.attribute false false]
      tag := some "callback attr interface" }
    namespaceDef := { members := [.attribute true false], tag := some "custom namespace" }
    dictionary := { members := [.utf8StringField] }
    types := [.utf8StringRecord] }
  tweaks := [("Window.webidl", [⟨"SharedArrayBuffer", "// SharedArrayBuffer"⟩])]
  repairs := ["replace-void", "renamed-legacy", "dict-arg-default"]

/-- The dialects that can be asked for by name, in the order of their names. -/
def known : List Dialect :=
  [gecko, standard]

/-- There is no dialect of this name. -/
structure Unknown where
  name : String
deriving DecidableEq, Repr

def Unknown.message (unknown : Unknown) : String :=
  let names := ", ".intercalate (known.map Dialect.name)
  s!"Unknown dialect {Text.quoted unknown.name} (expected one of: {names})"

/-- The dialect of the given name. -/
def named (name : String) : Except Unknown Dialect :=
  match known.find? (·.name == name) with
  | some dialect => .ok dialect
  | none => .error ⟨name⟩

/-! ## Parsing files -/

/-- How a parse ended, and what happened on the way. -/
structure Parsed where
  trace : List Event
  result : Except Failure Document

/-- Parses the text of a file.  How deep productions may nest goes by the number of its tokens. -/
def parseTo (depth : Nat → Nat) (dialect : Dialect) (text : String) (sourceName : Option String) :
    Parsed :=
  let (tweaked, applied) := Tweak.applyAll (dialect.tweaksFor sourceName) (Directive.mask text)
  let before := if applied.isEmpty then [] else [Event.tweaked sourceName applied]
  match Source.read tweaked sourceName with
  | .error error => ⟨before, .error (.syntaxError error)⟩
  | .ok source =>
    let parser := Parser.recursivelyTo depth fun nested =>
      Grammar.definitions nested dialect.productions
    match parser ⟨source, dialect.extensions⟩ {} with
    | .error failure cursor => ⟨before ++ cursor.trace.reverse, .error failure⟩
    | .ok items cursor =>
      let document : Document := ⟨sourceName, applied, items⟩
      let count := document.definitions.length
      ⟨before ++ cursor.trace.reverse ++ [.parsed sourceName count dialect.name], .ok document⟩

/-- Parses the text of a file. -/
def parse (dialect : Dialect) (text : String) (sourceName : Option String) : Parsed :=
  dialect.parseTo Parser.depthFor text sourceName

/-- Parses the text of a file on a host that stops a program in which more than `limit` productions are
nested.  A nested production takes at least one call, so a host that lets no more than `limit` calls
nest stops the program there or earlier. -/
def parseWithin (limit : Nat) (dialect : Dialect) (text : String) (sourceName : Option String) :
    Parsed :=
  dialect.parseTo (fun _ => limit) text sourceName

end Dialect

end WebIdl
