import WebIdl.Dialect
import WebIdl.Validation.Rule

/-!
# Editing sessions

A session keeps a document open while rules are applied, repairs are made and items are moved
about.  Diagnostics stay valid throughout: they go on pointing at the construct that they were made
for, also when its item has been taken out of the document or the document has been parsed anew.

To that end a session stores every item that it has ever held, and the document is a list of
references into the store.  A child that a repair replaces moves into the store, and diagnostics
that point into it move along.
-/

namespace WebIdl

/-- A document that is being edited. -/
structure Session where
  dialect : Dialect
  sourceName : Option String
  tweaks : List Tweak
  /-- Every item that the session has held. -/
  store : List Node
  /-- The items of the document, as places in the store. -/
  order : List Nat
  /-- The diagnostics found so far; their places refer to the store. -/
  diagnostics : List Diagnostic := []

/-- Why a step of a session failed.  A step that fails changes nothing. -/
inductive SessionError where
  /-- There is no item, construct or diagnostic with this number. -/
  | outOfRange
  /-- The role holds no token. -/
  | noToken
  | unknownRule (rule : UnknownRule)
  /-- A rule wanted a token that is not there. -/
  | missing (token : Missing)
  | repair (error : RepairError)
  | parse (failure : Failure)
deriving DecidableEq, Repr

namespace Session

/-- Opens a session on a document. -/
def start (dialect : Dialect) (document : Document) : Session where
  dialect := dialect
  sourceName := document.sourceName
  tweaks := document.tweaks
  store := document.items
  order := List.range document.items.length

/-- The document as it is now. -/
def document (session : Session) : Document where
  sourceName := session.sourceName
  tweaks := session.tweaks
  items := session.order.filterMap (session.store[·]?)

/-- The place in the store of a place in the document. -/
def toStore (session : Session) (site : Site) : Site :=
  { site with item := (session.order[site.item]?).getD site.item }

/-- The construct with the given number in the walk of the document, and its place in the store. -/
def constructAt? (session : Session) (number : Nat) : Option (Site × Node) :=
  (located session.document.items)[number]?.map fun (site, node) => (session.toStore site, node)

/-- Adds a diagnostic. -/
def addDiagnostic (session : Session) (diagnostic : Diagnostic) : Session :=
  { session with diagnostics := session.diagnostics ++ [diagnostic] }

/-! ## Steps -/

/-- Applies rules, all of them if none are named; the diagnostics are those found now. -/
def check (session : Session) (rules : Option (List String)) : Except SessionError Session := do
  let rules ←
    match rules with
    | none => pure Rule.all
    | some names => (rulesNamed names).mapError .unknownRule
  let found ← (validate rules session.document.items).mapError .missing
  return { session with
    diagnostics := found.map fun diagnostic =>
      { diagnostic with site := session.toStore diagnostic.site } }

/-- The place of a construct after the one at `moved` has become item `item` of the store. -/
def rebase (moved : Site) (item : Nat) (site : Site) : Site :=
  if site.item == moved.item && moved.path.isPrefixOf site.path then
    ⟨item, site.path.drop moved.path.length⟩
  else
    site

/-- Keeps the child that a repair is about to replace, for diagnostics that point into it. -/
def detach (session : Session) (site : Site) (old : Node) : Session :=
  { session with
    store := session.store ++ [old]
    diagnostics := session.diagnostics.map fun diagnostic =>
      { diagnostic with site := rebase site session.store.length diagnostic.site } }

/-- The child that the repair of a diagnostic replaces, and its place. -/
def replacedBy? (session : Session) (diagnostic : Diagnostic) : Option (Site × Node) := do
  let repair ← diagnostic.repair
  let node ← diagnostic.site.node? session.store
  let number ← repair.replacedChild? node
  let site : Site := { diagnostic.site with path := diagnostic.site.path ++ [number] }
  let old ← site.node? session.store
  return (site, old)

/-- Makes the repair of the diagnostic with the given number. -/
def fix (session : Session) (number : Nat) : Except SessionError Session := do
  match session.diagnostics[number]? with
  | none => throw .outOfRange
  | some diagnostic =>
    let store ← (diagnostic.fix session.store).mapError .repair
    let changed := { session with store }
    match session.replacedBy? diagnostic with
    | none => return changed
    | some (site, old) => return changed.detach site old

/-- Makes the repairs of all diagnostics whose rules satisfy `admits`, and counts them. -/
def fixAll (session : Session) (admits : String → Bool) : Except SessionError (Session × Nat) :=
  session.diagnostics.zipIdx.foldlM (fun (session, count) (diagnostic, number) => do
    if diagnostic.isAdmitted admits then
      return (← session.fix number, count + 1)
    else
      return (session, count)) (session, 0)

/-- Adds a diagnostic for a construct of the document, without token and repair. -/
def report (session : Session) (number : Nat) (rule message : String) :
    Except SessionError Session :=
  match session.constructAt? number with
  | none => .error .outOfRange
  | some (site, _) => .ok (session.addDiagnostic { rule, message, site })

/-- Changes the token in a role of a construct of the document, and shows the new token. -/
def editToken (session : Session) (number : Nat) (role : Option Role) (edit : Token → Token) :
    Except SessionError (Session × Token) :=
  match session.constructAt? number with
  | none => .error .outOfRange
  | some (site, node) =>
    match role, role.bind node.token? with
    | some role, some token =>
      let store := session.store.modify site.item
        (Node.modifyAt (Node.mapToken role edit) site.path)
      .ok ({ session with store }, edit token)
    | _, _ => .error .noToken

/-- Takes an item out of the document. -/
def delete (session : Session) (number : Nat) : Except SessionError Session :=
  if number < session.order.length then
    .ok { session with order := session.order.eraseIdx number }
  else
    .error .outOfRange

/-- Takes an item out of the document and puts it in again before the item that has the number
`target` then, or at the end. -/
def move (session : Session) (number target : Nat) : Except SessionError Session :=
  match session.order[number]? with
  | none => .error .outOfRange
  | some item =>
    let rest := session.order.eraseIdx number
    .ok { session with order := rest.take target ++ item :: rest.drop target }

/-- Parses the text of the document anew.  The old items stay in the store. -/
def reparse (session : Session) : Except SessionError Session :=
  match (session.dialect.parse session.document.write session.sourceName).result with
  | .error failure => .error (.parse failure)
  | .ok document =>
    .ok { session with
      tweaks := document.tweaks
      store := session.store ++ document.items
      order := List.range' session.store.length document.items.length }

end Session

end WebIdl
