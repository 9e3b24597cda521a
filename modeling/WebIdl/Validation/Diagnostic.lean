import WebIdl.Validation.Repair

/-!
# Diagnostics

A diagnostic says that a rule objects to a construct, and how to repair it if there is a way.  It
points at the construct by its place among the items of a document, so that it can be repaired, and
asked for its line, also after other repairs.
-/

namespace WebIdl

/-- The place of a construct: an item of a list and a path inside it. -/
structure Site where
  item : Nat
  path : List Nat
deriving DecidableEq, Repr

/-- Every construct of a list of items with its place, each before those below it. -/
def located (items : List Node) : List (Site × Node) :=
  items.zipIdx.flatMap fun (node, item) =>
    node.located.map fun (path, inner) => (⟨item, path⟩, inner)

/-- The construct at a place. -/
def Site.node? (site : Site) (items : List Node) : Option Node :=
  items[site.item]?.bind (Node.at? site.path)

/-- An objection of a rule to a construct. -/
structure Diagnostic where
  rule : String
  message : String
  /-- The construct that the rule objects to. -/
  site : Site
  /-- The token that shows the problem, as it was when the rule looked at it. -/
  token : Option Token := none
  repair : Option Repair := none
deriving DecidableEq, Repr

namespace Diagnostic

/-- All rules object with the same severity. -/
def level : String := "error"

/-- The line of a diagnostic: that of its token, else that of the first token that the construct has
now, else zero. -/
def line (diagnostic : Diagnostic) (items : List Node) : Nat :=
  match diagnostic.token with
  | some token => token.line
  | none =>
    (((diagnostic.site.node? items).bind Node.firstToken?).map Token.line).getD 0

/-- A diagnostic in one line. -/
def render (diagnostic : Diagnostic) (items : List Node) : String :=
  s!"line {diagnostic.line items}: {diagnostic.message} [{diagnostic.rule}]"

end Diagnostic

namespace Diagnostic

/-- Makes the repair of a diagnostic. -/
def fix (diagnostic : Diagnostic) (items : List Node) : Except RepairError (List Node) := do
  match diagnostic.repair with
  | none => throw (.notRepairable diagnostic.rule)
  | some repair =>
    match diagnostic.site.node? items with
    | none => throw .noPlace
    | some node =>
      let changed ← repair.apply node
      return items.modify diagnostic.site.item
        (Node.modifyAt (fun _ => changed) diagnostic.site.path)

/-- Is there a repair, and does its rule satisfy `admits`? -/
def isAdmitted (admits : String → Bool) (diagnostic : Diagnostic) : Bool :=
  diagnostic.repair.isSome && admits diagnostic.rule

/-- Makes the repairs of the diagnostics whose rules satisfy `admits`, in order, and counts them. -/
def fixAll (admits : String → Bool) (diagnostics : List Diagnostic) (items : List Node) :
    Except RepairError (List Node × Nat) :=
  diagnostics.foldlM (fun (items, count) diagnostic => do
    if diagnostic.isAdmitted admits then
      return (← diagnostic.fix items, count + 1)
    else
      return (items, count)) (items, 0)

end Diagnostic

end WebIdl
