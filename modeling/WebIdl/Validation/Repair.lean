import WebIdl.Tree.Edit

/-!
# Repairs

A repair changes one construct so that a rule no longer objects to it.  It changes a lexeme or puts
in a few tokens and leaves all else as it is, so every other place of the text is written as before.
A repair acts on the construct as it finds it, and may be made more than once.  It fails if the
construct lacks the token that it changes.
-/

namespace WebIdl

/-- The ways to repair a construct. -/
inductive Repair where
  /-- Write `undefined` for the base of a type. -/
  | replaceVoid
  /-- Give a definition the attribute `Exposed=Window`. -/
  | addExposed
  /-- Give an extended attribute another name. -/
  | rename (name : String)
  /-- Give an argument the empty dictionary as its default value. -/
  | addDefault
deriving DecidableEq, Repr

/-- Why a repair was not made. -/
inductive RepairError where
  /-- The rule has no repair for this construct. -/
  | notRepairable (rule : String)
  /-- There is no construct, or no list item, in the place that the repair needs. -/
  | noPlace
  /-- A token that the repair reads or changes is not there. -/
  | missing (token : Missing)
deriving DecidableEq, Repr

/-- The wording of a refusal. -/
def RepairError.message : RepairError → String
  | .notRepairable rule => s!"{rule} diagnostic has no autofix"
  | .noPlace => "list index out of range"
  | .missing token => token.message

namespace Node

/-- Sets the separator behind a list item. -/
def setSeparator (separator : Token) (node : Node) : Node :=
  if node.has .separator then
    node.mapToken .separator fun _ => separator
  else
    node.withSeparator separator

/-- Puts a default value among the parts of an argument, before the separator. -/
def partsWithDefault (value : Node) : List Part → List Part
  | [] => [.node .default value]
  | .node .default _ :: rest => .node .default value :: rest
  | .token .separator comma :: rest => .node .default value :: .token .separator comma :: rest
  | part :: rest => part :: partsWithDefault value rest

/-- Sets the default value of an argument. -/
def setDefault (node value : Node) : Node :=
  .mk node.label (partsWithDefault value node.parts)

/-- Puts an attribute behind the last one, with a comma between them.  The parts are given from the
end, and there is no result if no attribute is among them. -/
def addToReversed (added : Node) : List Part → Option (List Part)
  | [] => none
  | .node .item last :: before =>
    let comma : Token := { kind := .inline, text := "," }
    some (.node .item added :: .node .item (last.setSeparator comma) :: before)
  | part :: before => (addToReversed added before).map (part :: ·)

/-- Adds an attribute behind the last one of a list.  A list without attributes has no place for the
comma. -/
def addAttribute (node added : Node) : Option Node :=
  (addToReversed added node.parts.reverse).map fun parts => .mk node.label parts.reverse

end Node

namespace Repair

/-- A keyword or punctuation mark that a repair puts in. -/
def inline (text : String) (trivia : String) : Token where
  kind := .inline
  text := text
  trivia := trivia

/-- An identifier that a repair puts in. -/
def identifier (text : String) (trivia : String) : Token where
  kind := .identifier
  text := text
  trivia := trivia

/-- The attribute `Exposed=Window`. -/
def exposed (trivia : String) : Node :=
  .mk { construct := .extendedAttribute } [.token .name (identifier "Exposed" trivia),
    .token .assign (inline "=" ""), .token .secondaryName (identifier "Window" "")]

/-- The default value ` = {}`. -/
def emptyDictionary : Node :=
  .mk { construct := .default } [.token .assign (inline "=" " "),
    .token .expression (inline "\x7b" " "), .token .expression (inline "\x7d" "")]

/-- Gives a definition the attribute `Exposed=Window`.  It joins the attributes that are there.
Otherwise it stands on a line of its own, and takes over the trivia of the keyword that opens the
definition. -/
def expose (node : Node) : Except RepairError Node := do
  let attributes := (node.node? .attributes).getD Node.noAttributes
  if attributes.has .opening then
    match attributes.addAttribute (exposed " ") with
    | some written => return node.withAttributes written
    | none => throw .noPlace
  else
    let base ← (node.tokenIn .base).mapError .missing
    let written : Node := .mk { construct := .extendedAttributes }
      [.token .opening (inline "[" base.trivia), .node .item (exposed ""),
        .token .closing (inline "]" "")]
    ((node.withAttributes written).modifyToken .base fun base =>
      { base with trivia := "\n" }).mapError .missing

/-- Makes a repair. -/
def apply : Repair → Node → Except RepairError Node
  | .replaceVoid, node =>
    (node.modifyToken .base fun base => { base with text := "undefined" }).mapError .missing
  | .addExposed, node => expose node
  | .rename name, node =>
    (node.modifyToken .name fun token => { token with text := name }).mapError .missing
  | .addDefault, node => .ok (node.setDefault emptyDictionary)

/-- The number of the child that a repair of this construct replaces by a new one, if it replaces
any. -/
def replacedChild? : Repair → Node → Option Nat
  | .addExposed, node =>
    let isWritten := (node.node? .attributes).any (·.has .opening)
    if isWritten then none else (node.numberedAs .attributes).head?.map (·.1)
  | .addDefault, node => (node.numberedAs .default).head?.map (·.1)
  | _, _ => none

end Repair

end WebIdl
