import WebIdl.Proofs.Tree.Lookup
import WebIdl.Proofs.Tree.Swap

/-!
# Edits along paths

Edits in different places of a tree do not see each other.  Two edits along paths that part somewhere
can be made in either order (`Part.modifyChild_comm`).  If one path goes on behind the end of the
other, it depends on the upper edit whether it leaves the lower place as it is, and this is all that
has to be asked (`Node.modifyAt_comm`).  An edit of the tokens of a node always does
(`Node.mapToken_modifyAt`).
-/

namespace WebIdl

/-- An edit in the front of a list leaves the back as it is. -/
theorem modify_append_of_lt {front back : List Node} {place : Nat} (h : place < front.length)
    (edit : Node → Node) :
    (front ++ back).modify place edit = front.modify place edit ++ back := by
  refine List.ext_getElem? fun index => ?_
  grind

/-! ## Children -/

namespace Part

variable {edit own : Node → Node}

@[simp] theorem modifyChild_token (number : Nat) (role : Role) (token : Token)
    (parts : List Part) :
    modifyChild edit number (.token role token :: parts) =
      .token role token :: modifyChild edit number parts := by
  cases number <;> rfl

@[simp] theorem modifyChild_node_zero (role : Role) (node : Node) (parts : List Part) :
    modifyChild edit 0 (.node role node :: parts) = .node role (edit node) :: parts := rfl

@[simp] theorem modifyChild_node_succ (number : Nat) (role : Role) (node : Node)
    (parts : List Part) :
    modifyChild edit (number + 1) (.node role node :: parts) =
      .node role node :: modifyChild edit number parts := rfl

/-- An edit of a child depends on what it makes of this child only. -/
theorem modifyChild_congr {number : Nat} {parts : List Part}
    (h : ∀ child, (childrenOf parts)[number]? = some child → edit child = own child) :
    modifyChild edit number parts = modifyChild own number parts := by
  induction parts generalizing number with
  | nil => simp [modifyChild]
  | cons part parts ih =>
      cases part with
      | token role token =>
          rw [modifyChild_token, modifyChild_token, ih h]
      | node role node =>
          cases number with
          | zero => rw [modifyChild_node_zero, modifyChild_node_zero, h node rfl]
          | succ number => rw [modifyChild_node_succ, modifyChild_node_succ, ih h]

/-- Two edits of the same child are one. -/
theorem modifyChild_modifyChild (number : Nat) (parts : List Part) :
    modifyChild edit number (modifyChild own number parts) =
      modifyChild (edit ∘ own) number parts := by
  induction parts generalizing number with
  | nil => simp [modifyChild]
  | cons part parts ih =>
      cases part with
      | token role token => simp [ih]
      | node role node =>
          cases number with
          | zero => simp
          | succ number => simp [ih]

/-- Edits of different children can be made in either order. -/
theorem modifyChild_comm {number place : Nat} (hne : number ≠ place) (parts : List Part) :
    modifyChild edit number (modifyChild own place parts) =
      modifyChild own place (modifyChild edit number parts) := by
  induction parts generalizing number place with
  | nil => simp [modifyChild]
  | cons part parts ih =>
      cases part with
      | token role token => simp [ih hne]
      | node role node =>
          cases number with
          | zero =>
              cases place with
              | zero => exact absurd rfl hne
              | succ place => simp
          | succ number =>
              cases place with
              | zero => simp
              | succ place => simp [ih (by omega : number ≠ place)]

/-- In a row of children, an edit picks one out of the row. -/
theorem modifyChild_ofNodes (number : Nat) (role : Role) (nodes : List Node) {back : List Part}
    (hback : childrenOf back = []) :
    modifyChild edit number (ofNodes role nodes ++ back) =
      ofNodes role (nodes.modify number edit) ++ back := by
  induction nodes generalizing number with
  | nil =>
      induction back with
      | nil => simp [ofNodes, modifyChild]
      | cons part back ih =>
          cases part with
          | token own token => simpa [ofNodes] using ih hback
          | node own node => simp at hback
  | cons node nodes ih =>
      cases number with
      | zero => rfl
      | succ number => simpa [ofNodes] using ih number

end Part

/-! ## Trees -/

namespace Node

variable {edit own : Node → Node} {node : Node}

/-- An edit along a path depends on what it makes of the construct at the end only. -/
theorem modifyAt_congr {path : List Nat}
    (h : ∀ inner, node.at? path = some inner → edit inner = own inner) :
    node.modifyAt edit path = node.modifyAt own path := by
  induction path generalizing node with
  | nil => exact h node rfl
  | cons number path ih =>
      obtain ⟨label, parts⟩ := node
      rw [modifyAt, modifyAt]
      congr 1
      refine Part.modifyChild_congr fun child hchild => ih fun inner hinner => h inner ?_
      rw [at?, children_mk, hchild]
      exact hinner

/-- Two edits can be made in either order if, wherever the path of one leads on from the end of the
other's, the upper edit and the lower one can. -/
theorem modifyAt_comm {path other : List Nat}
    (hbelow : ∀ inner rest, node.at? path = some inner → other = path ++ rest →
      edit (inner.modifyAt own rest) = (edit inner).modifyAt own rest)
    (habove : ∀ inner rest, node.at? other = some inner → path = other ++ rest →
      own (inner.modifyAt edit rest) = (own inner).modifyAt edit rest) :
    (node.modifyAt own other).modifyAt edit path = (node.modifyAt edit path).modifyAt own other := by
  induction path generalizing node other with
  | nil => exact hbelow node other rfl rfl
  | cons number path ih =>
      cases other with
      | nil => exact (habove node _ rfl rfl).symm
      | cons place other =>
          obtain ⟨label, parts⟩ := node
          simp only [modifyAt]
          congr 1
          by_cases hplace : number = place
          · -- both paths go through the same child
            subst hplace
            rw [Part.modifyChild_modifyChild, Part.modifyChild_modifyChild]
            refine Part.modifyChild_congr fun child hchild => ?_
            have hat (path : List Nat) :
                (Node.mk label parts).at? (number :: path) = child.at? path := by
              rw [at?, children_mk, hchild, Option.bind_some]
            apply ih
            · intro inner rest hinner hrest
              exact hbelow inner rest (by rw [hat, hinner]) (by rw [hrest, List.cons_append])
            · intro inner rest hinner hrest
              exact habove inner rest (by rw [hat, hinner]) (by rw [hrest, List.cons_append])
          · exact Part.modifyChild_comm hplace parts

/-- A token that is changed is not below any child. -/
theorem mapToken_modifyAt (role : Role) (change : Token → Token) (number : Nat)
    (path : List Nat) :
    (node.modifyAt edit (number :: path)).mapToken role change =
      (node.mapToken role change).modifyAt edit (number :: path) := by
  obtain ⟨label, parts⟩ := node
  simp only [modifyAt, mapToken]
  congr 1
  induction parts generalizing number with
  | nil => rfl
  | cons part parts ih =>
      cases part with
      | token own token =>
          by_cases hrole : own = role
          · simp [mapToken.go, hrole]
          · simp [mapToken.go, hrole, ih]
      | node own child =>
          cases number with
          | zero => rfl
          | succ number => simp [mapToken.go, ih]

/-- Behind the children there may be a separator or none. -/
theorem withSeparator_modifyAt (separator : Option Token) (number : Nat) (path : List Nat) :
    (node.modifyAt edit (number :: path)).withSeparator separator =
      (node.withSeparator separator).modifyAt edit (number :: path) := by
  obtain ⟨label, parts⟩ := node
  simp only [modifyAt, withSeparator]
  congr 1
  induction parts generalizing number with
  | nil => cases separator <;> simp [Part.modifyChild, Part.ofToken?]
  | cons part parts ih =>
      cases part with
      | token own token => simp [ih]
      | node own child =>
          cases number with
          | zero => rfl
          | succ number => simp [ih]

/-- An edit below a node leaves its tokens. -/
theorem token?_modifyAt (role : Role) (number : Nat) (path : List Nat) :
    (node.modifyAt edit (number :: path)).token? role = node.token? role := by
  obtain ⟨label, parts⟩ := node
  simp only [modifyAt]
  induction parts generalizing number with
  | nil => rfl
  | cons part parts ih =>
      cases part with
      | token own token => simp [ih]
      | node own child =>
          cases number with
          | zero => simp
          | succ number => simp [ih]

end Node

end WebIdl
