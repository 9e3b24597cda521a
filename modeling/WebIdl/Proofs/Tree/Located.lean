import WebIdl.Proofs.Tree.Swap

/-!
# Constructs and their places

`located` lists the constructs that are found at a place, each with that place.
-/

namespace WebIdl

/-- A construct among some parts is a child or below one. -/
theorem mem_locatedFrom {number : Nat} {parts : List Part} {path : List Nat} {inner : Node}
    (h : (path, inner) ∈ locatedFrom number parts) :
    ∃ step rest child, path = (number + step) :: rest ∧ (childrenOf parts)[step]? = some child ∧
      (rest, inner) ∈ child.located := by
  induction parts generalizing number with
  | nil => simp [locatedFrom] at h
  | cons part parts ih =>
      cases part with
      | token role token => exact ih (by simpa [locatedFrom] using h)
      | node role node =>
          rw [locatedFrom, List.mem_append, List.mem_map] at h
          rcases h with ⟨⟨rest, found⟩, hfound, heq⟩ | hlater
          · obtain ⟨rfl, rfl⟩ := Prod.mk.inj heq
            exact ⟨0, rest, node, rfl, rfl, hfound⟩
          · obtain ⟨step, rest, child, rfl, hchild, hfound⟩ := ih hlater
            exact ⟨step + 1, rest, child, by rw [Nat.add_assoc, Nat.add_comm 1], hchild, hfound⟩

theorem mem_locatedFrom_of_child {number step : Nat} {parts : List Part} {rest : List Nat}
    {child inner : Node} (hchild : (childrenOf parts)[step]? = some child)
    (hinner : (rest, inner) ∈ child.located) :
    ((number + step) :: rest, inner) ∈ locatedFrom number parts := by
  induction parts generalizing number step with
  | nil => simp at hchild
  | cons part parts ih =>
      cases part with
      | token role token => exact ih hchild
      | node role node =>
          rw [locatedFrom, List.mem_append]
          cases step with
          | zero =>
              obtain rfl := Option.some.inj hchild
              exact Or.inl (List.mem_map.mpr ⟨_, hinner, rfl⟩)
          | succ step =>
              right
              rw [show number + (step + 1) = number + 1 + step by omega]
              exact ih hchild

namespace Node

theorem mem_located_of_at? {node inner : Node} {path : List Nat}
    (h : node.at? path = some inner) : (path, inner) ∈ node.located := by
  induction path generalizing node with
  | nil =>
      obtain rfl := Option.some.inj h
      obtain ⟨label, parts⟩ := node
      exact List.mem_cons_self
  | cons number path ih =>
      obtain ⟨label, parts⟩ := node
      obtain ⟨child, hchild, hat⟩ := Option.bind_eq_some_iff.mp h
      have hbelow := @mem_locatedFrom_of_child 0 _ _ _ _ _ hchild (ih hat)
      rw [Nat.zero_add] at hbelow
      exact List.mem_cons_of_mem _ hbelow

theorem at?_of_mem_located {node inner : Node} {path : List Nat}
    (h : (path, inner) ∈ node.located) : node.at? path = some inner := by
  induction path generalizing node with
  | nil =>
      obtain ⟨label, parts⟩ := node
      rw [located, List.mem_cons] at h
      rcases h with heq | hbelow
      · exact congrArg some (Prod.mk.inj heq).2.symm
      · obtain ⟨step, rest, child, hpath, -, -⟩ := mem_locatedFrom hbelow
        cases hpath
  | cons number path ih =>
      obtain ⟨label, parts⟩ := node
      rw [located, List.mem_cons] at h
      rcases h with heq | hbelow
      · cases (Prod.mk.inj heq).1
      · obtain ⟨step, rest, child, hpath, hchild, hfound⟩ := mem_locatedFrom hbelow
        obtain ⟨rfl, rfl⟩ := List.cons.inj hpath
        rw [at?, children_mk, Nat.zero_add, hchild]
        exact ih hfound

theorem at?_append {node : Node} {front back : List Nat} :
    node.at? (front ++ back) = (node.at? front).bind (Node.at? back) := by
  induction front generalizing node with
  | nil => rfl
  | cons number front ih =>
      rw [List.cons_append, at?, at?, Option.bind_assoc]
      exact Option.bind_congr fun child _ => ih

/-- A child with a number is a child in its role. -/
theorem mem_numberedAs {node child : Node} {role : Role} {number : Nat}
    (h : (number, child) ∈ node.numberedAs role) :
    node.children[number]? = some child ∧ .node role child ∈ node.parts := by
  obtain ⟨label, parts⟩ := node
  have hgo : ∀ {start : Nat} {parts : List Part}, (number, child) ∈ numberedAs.go role start parts →
      ∃ step, number = start + step ∧ (childrenOf parts)[step]? = some child ∧
        .node role child ∈ parts := by
    intro start parts hmem
    induction parts generalizing start with
    | nil => simp [numberedAs.go] at hmem
    | cons part parts ih =>
        have hrest {next : Nat} (hmem : (number, child) ∈ numberedAs.go role next parts) :
            ∃ step, number = next + step ∧ (childrenOf parts)[step]? = some child ∧
              .node role child ∈ part :: parts := by
          obtain ⟨step, hnumber, hchild, hpart⟩ := ih hmem
          exact ⟨step, hnumber, hchild, List.mem_cons_of_mem _ hpart⟩
        cases part with
        | token own token => exact hrest hmem
        | node own inner =>
            have hlater (hmem : (number, child) ∈ numberedAs.go role (start + 1) parts) :
                ∃ step, number = start + step ∧ (inner :: childrenOf parts)[step]? = some child ∧
                  .node role child ∈ .node own inner :: parts := by
              obtain ⟨step, rfl, hchild, hpart⟩ := hrest hmem
              exact ⟨step + 1, by omega, hchild, hpart⟩
            rw [numberedAs.go] at hmem
            split at hmem
            · rename_i hrole
              rcases List.mem_cons.mp hmem with heq | hmem
              · obtain ⟨rfl, rfl⟩ := Prod.mk.inj heq
                exact ⟨0, rfl, rfl, hrole ▸ List.mem_cons_self⟩
              · exact hlater hmem
            · exact hlater hmem
  obtain ⟨step, rfl, hchild, hpart⟩ := hgo (show (number, child) ∈ numberedAs.go role 0 parts from h)
  exact ⟨by rwa [Nat.zero_add], hpart⟩

/-- The first child with a number in a role is the node in that role. -/
theorem map_head?_numberedAs (node : Node) (role : Role) :
    (node.numberedAs role).head?.map (·.2) = node.node? role := by
  obtain ⟨label, parts⟩ := node
  have hgo (start : Nat) : (numberedAs.go role start parts).head?.map (·.2) =
      parts.findSome? (Part.nodeAs? role) := by
    induction parts generalizing start with
    | nil => rfl
    | cons part parts ih =>
        cases part with
        | token own token => exact ih start
        | node own inner =>
            by_cases hrole : own = role
            · simp [numberedAs.go, Part.nodeAs?, hrole]
            · simpa [numberedAs.go, Part.nodeAs?, hrole] using ih (start + 1)
  exact hgo 0

end Node

/-- A construct is found at its place among the items. -/
theorem node?_of_mem_located {items : List Node} {site : Site} {node : Node}
    (h : (site, node) ∈ located items) : site.node? items = some node := by
  obtain ⟨⟨item, index⟩, hitem, hmem⟩ := List.mem_flatMap.mp h
  obtain ⟨⟨path, inner⟩, hinner, heq⟩ := List.mem_map.mp hmem
  obtain ⟨rfl, rfl⟩ := Prod.mk.inj heq
  rw [List.mk_mem_zipIdx_iff_getElem?] at hitem
  rw [Site.node?, hitem]
  exact Node.at?_of_mem_located hinner

theorem mem_located_of_node? {items : List Node} {site : Site} {node : Node}
    (h : site.node? items = some node) : (site, node) ∈ located items := by
  obtain ⟨item, hitem, hat⟩ := Option.bind_eq_some_iff.mp h
  refine List.mem_flatMap.mpr ⟨(item, site.item), List.mk_mem_zipIdx_iff_getElem?.mpr hitem, ?_⟩
  exact List.mem_map.mpr ⟨(site.path, node), Node.mem_located_of_at? hat, rfl⟩

end WebIdl
