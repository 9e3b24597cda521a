import WebIdl.Proofs.Shape.Formed
import WebIdl.Proofs.Tree.Mapped

/-!
# The places of types

The grammar hands down the syntactic position of a type to the types inside it, to be noted there.
Nothing else depends on it: categories that differ in the place of a type only have the same
well-formed trees (`Formed.of_unplaced`).
-/

namespace WebIdl

/-- The label without the place of a type. -/
def Label.unplaced (label : Label) : Label :=
  { label with place := none }

/-- The tree without the places of its types. -/
def Node.unplaced (node : Node) : Node :=
  node.map id Label.unplaced

mutual

/-- Trees of one essence with the same tokens differ in the places of their types only. -/
theorem Node.unplaced_eq_of_essence {node other : Node} (hessence : node.essence = other.essence)
    (htokens : node.tokens = other.tokens) : node.unplaced = other.unplaced := by
  match node, other with
  | .mk label parts, .mk otherLabel others =>
      simp only [Node.essence, Node.mk.injEq] at hessence
      rw [Node.unplaced, Node.unplaced, Node.map, Node.map, Label.unplaced, Label.unplaced,
        hessence.1, mapParts_eq_of_essence hessence.2 htokens]

theorem mapParts_eq_of_essence {parts others : List Part}
    (hessence : essenceOf parts = essenceOf others) (htokens : tokensOf parts = tokensOf others) :
    mapParts id Label.unplaced parts = mapParts id Label.unplaced others := by
  match parts, others with
  | [], [] => rfl
  | .token role token :: parts, .token own other :: others =>
      simp only [essenceOf, List.cons.injEq, Part.token.injEq] at hessence
      simp only [tokensOf, List.cons.injEq] at htokens
      rw [mapParts, mapParts, hessence.1.1, htokens.1,
        mapParts_eq_of_essence hessence.2 htokens.2]
  | .node role node :: parts, .node own other :: others =>
      simp only [essenceOf, List.cons.injEq, Part.node.injEq] at hessence
      rw [tokensOf, tokensOf] at htokens
      have hlength : node.tokens.length = other.tokens.length := by
        simpa using congrArg (fun node => node.tokens.length) hessence.1.2
      obtain ⟨hhere, hrest⟩ := List.append_inj htokens hlength
      have hnode : node.unplaced = other.unplaced :=
        Node.unplaced_eq_of_essence hessence.1.2 hhere
      rw [Node.unplaced, Node.unplaced] at hnode
      rw [mapParts, mapParts, hessence.1.1, hnode, mapParts_eq_of_essence hessence.2 hrest]
  | [], .token _ _ :: _ | [], .node _ _ :: _ | .token _ _ :: _, [] | .node _ _ :: _, []
  | .token _ _ :: _, .node _ _ :: _ | .node _ _ :: _, .token _ _ :: _ =>
      simp [essenceOf] at hessence

end

namespace Shape

/-! ## Categories without places -/

def Symbol.unplaced : Symbol → Symbol
  | .type _ limit => .type none limit
  | .returnType _ limit => .returnType none limit
  | .recordKey _ => .recordKey none
  | symbol => symbol

def Category.unplaced (category : Category) : Category :=
  { category with symbol := category.symbol.unplaced }

def Slot.unplaced : Slot → Slot
  | .node role category => .node role category.unplaced
  | .nodeOption role category => .nodeOption role category.unplaced
  | .many role category => .many role category.unplaced
  | .list role category separator least mayDangle =>
      .list role category.unplaced separator least mayDangle
  | slot => slot

def Form.unplaced (form : Form) : Form :=
  { form with place := none, slots := form.slots.map Slot.unplaced }

theorem Category.before_unplaced {category other : Category} {separator : String}
    (h : category.unplaced = other.unplaced) :
    (category.before separator).unplaced = (other.before separator).unplaced := by
  simp only [Category.unplaced, Category.before, Category.mk.injEq] at h ⊢
  exact ⟨h.1, h.2.1, trivial⟩

/-- The forms of a symbol do not depend on its place, but for the places of the types in them. -/
theorem unplaced_forms (extended : Bool) (symbol : Symbol) :
    (symbol.forms extended).map Form.unplaced =
      (symbol.unplaced.forms extended).map Form.unplaced := by
  cases symbol with
  | type place limit => cases limit <;> cases extended <;> rfl
  | returnType place limit => cases limit <;> cases extended <;> rfl
  | _ => rfl

section

variable {belongs result : Category → Node → Prop}

theorem Items.replaced {nodes : List Node} {category target : Category} {separator : String}
    {mayDangle : Bool} (h : Items belongs nodes category separator mayDangle)
    (hcategory : category.unplaced = target.unplaced)
    (himp : ∀ category target node, category.unplaced = target.unplaced →
      belongs category node → result target node) :
    Items result nodes target separator mayDangle := by
  induction h with
  | nil => exact .nil
  | last hnode => exact .last (himp _ _ _ hcategory hnode)
  | cons hnode hlast _ ih =>
      exact .cons (himp _ _ _ (Category.before_unplaced hcategory) hnode) hlast (ih hcategory)

/-- What fills a row of slots fills one that differs in places only. -/
theorem Fits.replaced {slots targets : List Slot} {parts : List Part}
    (h : Fits belongs slots parts) (hslots : slots.map Slot.unplaced = targets.map Slot.unplaced)
    (himp : ∀ category target node, category.unplaced = target.unplaced →
      belongs category node → result target node) : Fits result targets parts := by
  -- slot by slot: a target of the same kind, for a category that differs in the place only
  induction h generalizing targets with
  | nil =>
      obtain rfl := List.map_eq_nil_iff.mp hslots.symm
      exact .nil
  | token htoken _ ih =>
      obtain ⟨target, rest, rfl, htarget, hrest⟩ := List.map_eq_cons_iff.mp hslots.symm
      cases target with
      | token =>
          obtain ⟨rfl, rfl⟩ := Slot.token.inj htarget
          exact .token htoken (ih hrest.symm)
      | _ => cases htarget
  | option htoken _ ih =>
      obtain ⟨target, rest, rfl, htarget, hrest⟩ := List.map_eq_cons_iff.mp hslots.symm
      cases target with
      | option =>
          obtain ⟨rfl, rfl⟩ := Slot.option.inj htarget
          exact .option htoken (ih hrest.symm)
      | _ => cases htarget
  | node hnode _ ih =>
      obtain ⟨target, rest, rfl, htarget, hrest⟩ := List.map_eq_cons_iff.mp hslots.symm
      cases target with
      | node =>
          obtain ⟨rfl, hcategory⟩ := Slot.node.inj htarget
          exact .node (himp _ _ _ hcategory.symm hnode) (ih hrest.symm)
      | _ => cases htarget
  | nodeOption hnode _ ih =>
      obtain ⟨target, rest, rfl, htarget, hrest⟩ := List.map_eq_cons_iff.mp hslots.symm
      cases target with
      | nodeOption =>
          obtain ⟨rfl, hcategory⟩ := Slot.nodeOption.inj htarget
          exact .nodeOption (fun found hfound => himp _ _ _ hcategory.symm (hnode found hfound))
            (ih hrest.symm)
      | _ => cases htarget
  | many hnodes _ ih =>
      obtain ⟨target, rest, rfl, htarget, hrest⟩ := List.map_eq_cons_iff.mp hslots.symm
      cases target with
      | many =>
          obtain ⟨rfl, hcategory⟩ := Slot.many.inj htarget
          exact .many (fun node hnode => himp _ _ _ hcategory.symm (hnodes node hnode))
            (ih hrest.symm)
      | _ => cases htarget
  | list hnodes hleast _ ih =>
      obtain ⟨target, rest, rfl, htarget, hrest⟩ := List.map_eq_cons_iff.mp hslots.symm
      cases target with
      | list =>
          obtain ⟨rfl, hcategory, rfl, rfl, rfl⟩ := Slot.list.inj htarget
          exact .list (hnodes.replaced hcategory.symm himp) hleast (ih hrest.symm)
      | _ => cases htarget

end

theorem Category.slots_unplaced {category target : Category} {form other : Form}
    (hcategory : category.unplaced = target.unplaced) (hform : form.unplaced = other.unplaced) :
    (category.slots form).map Slot.unplaced = (target.slots other).map Slot.unplaced := by
  simp only [Category.unplaced, Category.mk.injEq] at hcategory
  simp only [Form.unplaced, Form.mk.injEq] at hform
  obtain ⟨-, hmode, hseparator⟩ := hcategory
  obtain ⟨-, -, -, hattributed, hslots⟩ := hform
  simp only [Category.slots, List.map_append, hmode, hseparator, hattributed, hslots]

/-- A well-formed tree is well formed wherever the category differs in the place of a type only. -/
theorem Formed.of_unplaced {extended : Bool} {category target : Category} {node : Node}
    (h : Formed extended category node) (hcategory : category.unplaced = target.unplaced) :
    Formed extended target node := by
  refine @Formed.induct extended _ _
    (fun category node => ∀ target, category.unplaced = target.unplaced →
      Formed extended target node)
    (fun category form label parts hform hconstruct htag hparts target hcategory => ?_) h target
    hcategory
  have hsymbol : category.symbol.unplaced = target.symbol.unplaced :=
    congrArg Category.symbol hcategory
  have hmem : form.unplaced ∈ (target.symbol.forms extended).map Form.unplaced := by
    rw [unplaced_forms, ← hsymbol, ← unplaced_forms]
    exact List.mem_map_of_mem hform
  obtain ⟨other, hother, heq⟩ := List.mem_map.mp hmem
  have hsame : form.construct = other.construct ∧ form.tag = other.tag := by
    simp only [Form.unplaced, Form.mk.injEq] at heq
    exact ⟨heq.1.symm, heq.2.1.symm⟩
  refine .mk hother (hconstruct.trans hsame.1) (htag.trans hsame.2) (hparts.replaced
    (Category.slots_unplaced hcategory heq.symm) fun category target node hcategory hnode => ?_)
  exact hnode.2 target hcategory

end Shape

end WebIdl
