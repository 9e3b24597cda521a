import WebIdl.Proofs.Shape.Below
import WebIdl.Proofs.Tree.Essence
import WebIdl.Proofs.Tree.Swap

/-!
# Trees that are well formed

A tree is well formed if it conforms to the grammar up to the syntactic positions that are noted for
types.  A repair may put a type where another position is noted than the parser would, and that is
all it can do wrong: a well-formed tree has the essence of one that conforms, with any tokens of the
same essence in place of its own (`Formed.exists_conforms`).
-/

namespace WebIdl.Shape

/-- The node belongs to the category, whatever positions are noted for its types. -/
inductive Formed (extended : Bool) : Category → Node → Prop where
  | mk {category : Category} {form : Form} {label : Label} {parts : List Part}
      (hform : form ∈ category.symbol.forms extended)
      (hconstruct : label.construct = form.construct) (htag : label.tag = form.tag)
      (hparts : Fits (Formed extended) (category.slots form) parts) :
      Formed extended category (.mk label parts)

section

variable {extended : Bool} {category : Category} {node : Node}

/-- A tree that conforms is well formed. -/
theorem Conforms.formed (h : Conforms extended category node) : Formed extended category node := by
  refine Conforms.induct (fun category form parts hform hparts => ?_) h
  exact .mk hform rfl rfl (hparts.imp fun _ _ h => h.2)

/-- What holds of a construct whenever it holds of those below it, holds of all. -/
theorem Formed.induct {motive : Category → Node → Prop}
    (step : ∀ category form label parts, form ∈ category.symbol.forms extended →
      label.construct = form.construct → label.tag = form.tag →
      Fits (fun category node => Formed extended category node ∧ motive category node)
        (category.slots form) parts →
      motive category (.mk label parts))
    (h : Formed extended category node) : motive category node := by
  let both : Category → Node → Prop := fun category node =>
    Formed extended category node ∧ motive category node
  refine @Formed.rec extended (fun category node _ => motive category node)
    (fun slots parts _ => Fits both slots parts)
    (fun nodes category separator mayDangle _ => Items both nodes category separator mayDangle)
    ?mk ?nil ?token ?option ?node ?nodeOption ?many ?list ?none ?last ?cons category node h
  case mk => exact fun hform hconstruct htag _ ih => step _ _ _ _ hform hconstruct htag ih
  case nil => exact .nil
  case token => exact fun htoken _ ih => .token htoken ih
  case option => exact fun htoken _ ih => .option htoken ih
  case node => exact fun hnode _ ihnode ih => .node ⟨hnode, ihnode⟩ ih
  case nodeOption =>
    exact fun hnode _ ihnode ih => .nodeOption (fun found h => ⟨hnode found h, ihnode found h⟩) ih
  case many =>
    exact fun hnodes _ ihnodes ih => .many (fun node h => ⟨hnodes node h, ihnodes node h⟩) ih
  case list => exact fun _ hleast _ ihnodes ih => .list ihnodes hleast ih
  case none => exact .nil
  case last => exact fun hnode ihnode => .last ⟨hnode, ihnode⟩
  case cons => exact fun hnode hlast _ ihnode ih => .cons ⟨hnode, ihnode⟩ hlast ih

end

/-! ## Other tokens -/

theorem Terminal.accepts_of_essence {terminal : Terminal} {token other : Token}
    (h : token.essence = other.essence) (haccepts : terminal.accepts token = true) :
    terminal.accepts other = true := by
  obtain ⟨hkind, htext, -⟩ := Token.essence_eq_iff.mp h
  rwa [Terminal.accepts, ← hkind, ← htext]

/-- Any tokens of the same essence as those of the node are the tokens of a node that belongs to the
category and has the essence of this one. -/
def Renews (belongs : Category → Node → Prop) (category : Category) (node : Node) : Prop :=
  ∀ tokens : List Token, node.tokens.map Token.essence = tokens.map Token.essence →
    ∃ good, belongs category good ∧ good.tokens = tokens ∧ good.essence = node.essence

section

variable {belongs : Category → Node → Prop} {category : Category} {tokens : List Token}

theorem renews_all {nodes : List Node} (h : ∀ node ∈ nodes, Renews belongs category node)
    (htokens : (nodes.flatMap Node.tokens).map Token.essence = tokens.map Token.essence) :
    ∃ goods : List Node, (∀ good ∈ goods, belongs category good) ∧
      goods.flatMap Node.tokens = tokens ∧ goods.map Node.essence = nodes.map Node.essence := by
  induction nodes generalizing tokens with
  | nil => exact ⟨[], by simp, by simpa using htokens, rfl⟩
  | cons node nodes ih =>
      rw [List.flatMap_cons, List.map_append] at htokens
      obtain ⟨front, back, rfl, hfront, hback⟩ := List.map_eq_append_iff.mp htokens.symm
      obtain ⟨good, hgood, rfl, hessence⟩ := h node List.mem_cons_self front hfront.symm
      obtain ⟨goods, hgoods, rfl, hrest⟩ :=
        ih (fun other hother => h other (List.mem_cons_of_mem _ hother)) hback.symm
      refine ⟨good :: goods, ?_, rfl, by simp [hessence, hrest]⟩
      intro other hother
      rcases List.mem_cons.mp hother with rfl | hother
      · exact hgood
      · exact hgoods other hother

theorem Items.renew {nodes : List Node} {separator : String} {mayDangle : Bool}
    (h : Items (Renews belongs) nodes category separator mayDangle)
    (htokens : (nodes.flatMap Node.tokens).map Token.essence = tokens.map Token.essence) :
    ∃ goods : List Node, Items belongs goods category separator mayDangle ∧
      goods.flatMap Node.tokens = tokens ∧ goods.map Node.essence = nodes.map Node.essence := by
  induction h generalizing tokens with
  | nil => exact ⟨[], .nil, by simpa using htokens, rfl⟩
  | last hnode =>
      obtain ⟨good, hgood, rfl, hessence⟩ := hnode tokens (by simpa using htokens)
      exact ⟨[good], .last hgood, by simp, by simp [hessence]⟩
  | cons hnode hlast _ ih =>
      rw [List.flatMap_cons, List.map_append] at htokens
      obtain ⟨front, back, rfl, hfront, hback⟩ := List.map_eq_append_iff.mp htokens.symm
      obtain ⟨good, hgood, rfl, hessence⟩ := hnode front hfront.symm
      obtain ⟨goods, hgoods, rfl, hrest⟩ := ih hback.symm
      refine ⟨good :: goods, .cons hgood ?_ hgoods, rfl, by simp [hessence, hrest]⟩
      rintro rfl
      exact hlast (by simpa using hrest.symm)

/-- The parts of a row of slots are renewed one by one. -/
theorem Fits.renew {slots : List Slot} {parts : List Part} (h : Fits (Renews belongs) slots parts)
    (htokens : (tokensOf parts).map Token.essence = tokens.map Token.essence) :
    ∃ goods, Fits belongs slots goods ∧ tokensOf goods = tokens ∧
      essenceOf goods = essenceOf parts := by
  -- slot by slot: the tokens of a part are replaced by those with the same essence
  induction h generalizing tokens with
  | nil => exact ⟨[], .nil, by simpa [tokensOf] using htokens, rfl⟩
  | token htoken _ ih =>
      obtain ⟨other, rest, rfl, hother, hrest⟩ := List.map_eq_cons_iff.mp htokens.symm
      obtain ⟨goods, hgoods, rfl, hessence⟩ := ih hrest.symm
      exact ⟨_, .token (Terminal.accepts_of_essence hother.symm htoken) hgoods, rfl,
        by simp [essenceOf, hother, hessence]⟩
  | option htoken _ ih =>
      rename_i role terminal token _ _ _
      cases token with
      | none =>
          obtain ⟨goods, hgoods, rfl, hessence⟩ := ih htokens
          exact ⟨_, @Fits.option _ role terminal none _ _ (by simp) hgoods, rfl, by simp [hessence]⟩
      | some token =>
          obtain ⟨other, rest, rfl, hother, hrest⟩ := List.map_eq_cons_iff.mp htokens.symm
          obtain ⟨goods, hgoods, rfl, hessence⟩ := ih hrest.symm
          have haccepts := Terminal.accepts_of_essence hother.symm (htoken token rfl)
          exact ⟨_, @Fits.option _ role terminal (some other) _ _ (by simpa using haccepts) hgoods,
            rfl, by simp [hother, hessence]⟩
  | node hnode _ ih =>
      rw [tokensOf, List.map_append] at htokens
      obtain ⟨front, back, rfl, hfront, hback⟩ := List.map_eq_append_iff.mp htokens.symm
      obtain ⟨good, hgood, rfl, hessence⟩ := hnode front hfront.symm
      obtain ⟨goods, hgoods, rfl, hrest⟩ := ih hback.symm
      exact ⟨_, .node hgood hgoods, rfl, by simp [essenceOf, hessence, hrest]⟩
  | nodeOption hnode _ ih =>
      rename_i role category node _ _ _
      cases node with
      | none =>
          obtain ⟨goods, hgoods, rfl, hessence⟩ := ih htokens
          exact ⟨_, @Fits.nodeOption _ role category none _ _ (by simp) hgoods, rfl,
            by simp [Part.ofNode?, hessence]⟩
      | some node =>
          rw [show Part.ofNode? role (some node) = [.node role node] from rfl, List.cons_append,
            List.nil_append, tokensOf, List.map_append] at htokens
          obtain ⟨front, back, rfl, hfront, hback⟩ := List.map_eq_append_iff.mp htokens.symm
          obtain ⟨good, hgood, rfl, hessence⟩ := hnode node rfl front hfront.symm
          obtain ⟨goods, hgoods, rfl, hrest⟩ := ih hback.symm
          exact ⟨_, @Fits.nodeOption _ role category (some good) _ _ (by simpa using hgood) hgoods,
            rfl, by simp [Part.ofNode?, essenceOf, hessence, hrest]⟩
  | many hnodes _ ih =>
      rw [tokensOf_append, tokensOf_ofNodes, List.map_append] at htokens
      obtain ⟨front, back, rfl, hfront, hback⟩ := List.map_eq_append_iff.mp htokens.symm
      obtain ⟨nodes, hgood, rfl, hessence⟩ := renews_all hnodes hfront.symm
      obtain ⟨goods, hgoods, rfl, hrest⟩ := ih hback.symm
      exact ⟨_, .many hgood hgoods, by simp, by simp [hessence, hrest]⟩
  | list hnodes hleast _ ih =>
      rw [tokensOf_append, tokensOf_ofNodes, List.map_append] at htokens
      obtain ⟨front, back, rfl, hfront, hback⟩ := List.map_eq_append_iff.mp htokens.symm
      obtain ⟨nodes, hgood, rfl, hessence⟩ := hnodes.renew hfront.symm
      obtain ⟨goods, hgoods, rfl, hrest⟩ := ih hback.symm
      refine ⟨_, .list hgood ?_ hgoods, by simp, by simp [hessence, hrest]⟩
      have hlength := congrArg List.length hessence
      simp only [List.length_map] at hlength
      omega

end

/-- A well-formed tree has the essence of a tree that conforms, whose tokens may be any tokens of the
same essence. -/
theorem Formed.exists_conforms {extended : Bool} {category : Category} {node : Node}
    (h : Formed extended category node) {tokens : List Token}
    (htokens : node.tokens.map Token.essence = tokens.map Token.essence) :
    ∃ good, Conforms extended category good ∧ good.tokens = tokens ∧
      good.essence = node.essence := by
  have hrenews : Renews (Conforms extended) category node := by
    refine Formed.induct
      (fun category form label parts hform hconstruct htag hparts tokens htokens => ?_) h
    rw [Node.tokens] at htokens
    obtain ⟨goods, hgoods, rfl, hessence⟩ := (hparts.imp fun _ _ h => h.2).renew htokens
    refine ⟨_, .mk hform hgoods, by rw [Node.tokens], ?_⟩
    rw [Node.essence, Node.essence, hessence]
    simp [Form.label, hconstruct, htag]
  exact hrenews tokens htokens

end WebIdl.Shape
