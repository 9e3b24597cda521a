import WebIdl.Validation.Diagnostic

/-!
# Putting one construct in the place of another

An edit along a path changes the construct at the end of the path and leaves everything around it as
it is.  `Swaps old new path node changed` says so without counting children: the two trees differ in
that `old` stands in the first where `new` stands in the second.
-/

namespace WebIdl

/-- The constructs among some parts. -/
def childrenOf (parts : List Part) : List Node :=
  parts.filterMap Part.node?

@[simp] theorem childrenOf_nil : childrenOf [] = [] := rfl

@[simp] theorem childrenOf_token {role : Role} {token : Token} {parts : List Part} :
    childrenOf (.token role token :: parts) = childrenOf parts := rfl

@[simp] theorem childrenOf_node {role : Role} {node : Node} {parts : List Part} :
    childrenOf (.node role node :: parts) = node :: childrenOf parts := rfl

@[simp] theorem childrenOf_append (front back : List Part) :
    childrenOf (front ++ back) = childrenOf front ++ childrenOf back :=
  List.filterMap_append

@[simp] theorem childrenOf_ofNodes (role : Role) (nodes : List Node) :
    childrenOf (Part.ofNodes role nodes) = nodes := by
  simp [childrenOf, Part.ofNodes, List.filterMap_map, Function.comp_def, Part.node?]

@[simp] theorem childrenOf_ofToken? (role : Role) (token : Option Token) :
    childrenOf (Part.ofToken? role token) = [] := by
  cases token <;> rfl

@[simp] theorem Node.children_mk (label : Label) (parts : List Part) :
    (Node.mk label parts).children = childrenOf parts := rfl

/-- The parts around the child with a given number. -/
theorem exists_split {parts : List Part} {number : Nat} {child : Node}
    (h : (childrenOf parts)[number]? = some child) :
    ∃ front role back, parts = front ++ .node role child :: back ∧
      (childrenOf front).length = number := by
  induction parts generalizing number with
  | nil => simp at h
  | cons part rest ih =>
      cases part with
      | token own token =>
          obtain ⟨front, role, back, rfl, hnumber⟩ := ih h
          exact ⟨.token own token :: front, role, back, rfl, hnumber⟩
      | node own inner =>
          cases number with
          | zero =>
              obtain rfl : inner = child := by simpa using h
              exact ⟨[], own, rest, rfl, rfl⟩
          | succ number =>
              obtain ⟨front, role, back, rfl, hnumber⟩ := ih (by simpa using h)
              exact ⟨.node own inner :: front, role, back, rfl, by simp [hnumber]⟩

theorem Part.modifyChild_split (edit : Node → Node) (front : List Part) (role : Role)
    (child : Node) (back : List Part) :
    Part.modifyChild edit (childrenOf front).length (front ++ .node role child :: back) =
      front ++ .node role (edit child) :: back := by
  induction front with
  | nil => rfl
  | cons part front ih =>
      cases part with
      | token own token =>
          rw [childrenOf_token, List.cons_append, Part.modifyChild, ih, List.cons_append]
          · exact fun _ _ _ h => nomatch h
          · exact fun _ _ _ _ h => nomatch h
      | node own inner =>
          rw [childrenOf_node, List.length_cons, List.cons_append, Part.modifyChild, ih,
            List.cons_append]

/-- The construct `old` stands at the end of the path in the first tree, `new` stands there in the
second one, and nothing else differs. -/
inductive Swaps (old new : Node) : List Nat → Node → Node → Prop where
  | here : Swaps old new [] old new
  | inside {path : List Nat} {child changed : Node} (label : Label) (front : List Part)
      (role : Role) (back : List Part) (h : Swaps old new path child changed) :
      Swaps old new ((childrenOf front).length :: path)
        (.mk label (front ++ .node role child :: back))
        (.mk label (front ++ .node role changed :: back))

/-- An edit along a path swaps the construct at its end. -/
theorem Node.swaps_modifyAt {node old : Node} {path : List Nat} (h : node.at? path = some old)
    (new : Node) : Swaps old new path node (node.modifyAt (fun _ => new) path) := by
  induction path generalizing node with
  | nil =>
      obtain rfl : node = old := by simpa [Node.at?] using h
      exact .here
  | cons number path ih =>
      obtain ⟨label, parts⟩ := node
      obtain ⟨child, hchild, hbelow⟩ := Option.bind_eq_some_iff.mp h
      obtain ⟨front, role, back, rfl, rfl⟩ := exists_split hchild
      rw [Node.modifyAt, Part.modifyChild_split]
      exact .inside label front role back (ih hbelow)

namespace Swaps

variable {old new node changed : Node} {path : List Nat}

theorem at?_eq (h : Swaps old new path node changed) : node.at? path = some old := by
  induction h with
  | here => rfl
  | inside label front role back _ ih => simp [Node.at?, ih]

theorem eq_of_same (h : Swaps old old path node changed) : changed = node := by
  induction h with
  | here => rfl
  | inside label front role back _ ih => rw [ih]

/-- The tokens around those of the construct stay. -/
theorem tokens_eq (h : Swaps old new path node changed) :
    ∃ before after, node.tokens = before ++ old.tokens ++ after ∧
      changed.tokens = before ++ new.tokens ++ after := by
  induction h with
  | here => exact ⟨[], [], by simp, by simp⟩
  | inside label front role back _ ih =>
      obtain ⟨before, after, hnode, hchanged⟩ := ih
      refine ⟨tokensOf front ++ before, after ++ tokensOf back, ?_, ?_⟩
      · simp [Node.tokens, tokensOf, hnode]
      · simp [Node.tokens, tokensOf, hchanged]

end Swaps

/-! ## Items -/

/-- The construct `old` stands at the place in the first list of items, `new` stands there in the
second one, and nothing else differs. -/
def SwapsAt (site : Site) (old new : Node) (items others : List Node) : Prop :=
  ∃ front node changed back, items = front ++ node :: back ∧ front.length = site.item ∧
    Swaps old new site.path node changed ∧ others = front ++ changed :: back

/-- An edit at a place of a list of items swaps the construct there. -/
theorem Site.swapsAt_modify {site : Site} {items : List Node} {old : Node}
    (h : site.node? items = some old) (new : Node) :
    SwapsAt site old new items
      (items.modify site.item (Node.modifyAt (fun _ => new) site.path)) := by
  obtain ⟨node, hnode, hat⟩ := Option.bind_eq_some_iff.mp h
  obtain ⟨hlt, rfl⟩ := List.getElem?_eq_some_iff.mp hnode
  refine ⟨items.take site.item, items[site.item], _, items.drop (site.item + 1), ?_, ?_,
    Node.swaps_modifyAt hat new, ?_⟩
  · simp
  · simp [Nat.le_of_lt hlt]
  · rw [List.modify_eq_take_cons_drop hlt]

theorem SwapsAt.node?_eq {site : Site} {old new : Node} {items others : List Node}
    (h : SwapsAt site old new items others) : site.node? items = some old := by
  obtain ⟨front, node, changed, back, rfl, hlength, hswaps, -⟩ := h
  rw [Site.node?, ← hlength, List.getElem?_append_right (Nat.le_refl _), Nat.sub_self]
  exact hswaps.at?_eq

theorem SwapsAt.eq_of_same {site : Site} {old : Node} {items others : List Node}
    (h : SwapsAt site old old items others) : others = items := by
  obtain ⟨front, node, changed, back, rfl, -, hswaps, rfl⟩ := h
  rw [hswaps.eq_of_same]

/-- The tokens around those of the construct stay. -/
theorem SwapsAt.tokens_eq {site : Site} {old new : Node} {items others : List Node}
    (h : SwapsAt site old new items others) :
    ∃ before after, items.flatMap Node.tokens = before ++ old.tokens ++ after ∧
      others.flatMap Node.tokens = before ++ new.tokens ++ after := by
  obtain ⟨front, node, changed, back, rfl, -, hswaps, rfl⟩ := h
  obtain ⟨before, after, hnode, hchanged⟩ := hswaps.tokens_eq
  refine ⟨front.flatMap Node.tokens ++ before, after ++ back.flatMap Node.tokens, ?_, ?_⟩
  · simp [hnode]
  · simp [hchanged]

end WebIdl
