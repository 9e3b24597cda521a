import Mathlib.Data.List.Forall2
import WebIdl.Proofs.Shape.Conforms
import WebIdl.Proofs.Tree.Lookup

/-!
# What the slots of a form say about its parts

Which tokens a construct has, and which constructs are below it, can be read off the slots of its
form.
-/

namespace WebIdl

namespace Shape

/-! ## Tokens -/

/-- The role of the token that a slot is for. -/
def Slot.tokenRole? : Slot → Option Role
  | .token role _ | .option role _ => some role
  | _ => none

/-- Does the slot demand a token in the role? -/
def Slot.demands (role : Role) : Slot → Bool
  | .token own _ => own == role
  | _ => false

section

variable {belongs : Category → Node → Prop} {slots : List Slot} {parts : List Part} {role : Role}
  {label : Label}

/-- A construct has no token in a role that none of its slots is for. -/
theorem Fits.token?_eq_none (h : Fits belongs slots parts)
    (hslots : slots.all (·.tokenRole? != some role) = true) :
    (Node.mk label parts).token? role = none := by
  induction h with
  | nil => rfl
  | token _ _ ih =>
      simp only [List.all_cons, Bool.and_eq_true, Slot.tokenRole?, bne_iff_ne, ne_eq,
        Option.some.injEq] at hslots
      rw [Node.token?_token, if_neg hslots.1, ih hslots.2]
  | option _ _ ih =>
      simp only [List.all_cons, Bool.and_eq_true, Slot.tokenRole?, bne_iff_ne, ne_eq,
        Option.some.injEq] at hslots
      rw [Node.token?_ofToken?, if_neg hslots.1, ih hslots.2]
      rfl
  | node _ _ ih =>
      rw [Node.token?_node]
      exact ih (Bool.and_eq_true_iff.mp hslots).2
  | nodeOption _ _ ih =>
      rw [Node.token?_ofNode?]
      exact ih (Bool.and_eq_true_iff.mp hslots).2
  | many _ _ ih =>
      rw [Node.token?_ofNodes]
      exact ih (Bool.and_eq_true_iff.mp hslots).2
  | list _ _ _ ih =>
      rw [Node.token?_ofNodes]
      exact ih (Bool.and_eq_true_iff.mp hslots).2

/-- A construct has a token in a role that one of its slots has to fill. -/
theorem Fits.has_token {terminal : Terminal} (h : Fits belongs slots parts)
    (hslot : .token role terminal ∈ slots) : (Node.mk label parts).has role = true := by
  rw [Node.has]
  induction h with
  | nil => cases hslot
  | token _ _ ih =>
      rw [Node.token?_token]
      split
      · rfl
      · rename_i hother
        rcases List.mem_cons.mp hslot with heq | hrest
        · exact absurd (Slot.token.inj heq).1.symm hother
        · exact ih hrest
  | option _ _ ih =>
      rw [Node.token?_ofToken?, Option.isSome_or, ih (by simpa using hslot), Bool.or_true]
  | node _ _ ih =>
      rw [Node.token?_node]
      exact ih (by simpa using hslot)
  | nodeOption _ _ ih =>
      rw [Node.token?_ofNode?]
      exact ih (by simpa using hslot)
  | many _ _ ih =>
      rw [Node.token?_ofNodes]
      exact ih (by simpa using hslot)
  | list _ _ _ ih =>
      rw [Node.token?_ofNodes]
      exact ih (by simpa using hslot)

theorem Fits.has_of_demands (h : Fits belongs slots parts)
    (hslots : slots.any (·.demands role) = true) : (Node.mk label parts).has role = true := by
  obtain ⟨slot, hslot, hdemands⟩ := List.any_eq_true.mp hslots
  cases slot with
  | token own terminal =>
      obtain rfl : own = role := by simpa [Slot.demands] using hdemands
      exact h.has_token hslot
  | _ => cases hdemands

/-- A token among the parts fills one of the slots. -/
theorem Fits.exists_accepts_of_mem (h : Fits belongs slots parts) {token : Token}
    (htoken : .token role token ∈ parts) :
    ∃ terminal, (.token role terminal ∈ slots ∨ .option role terminal ∈ slots) ∧
      terminal.accepts token = true := by
  have hlater {own : Role} {nodes : List Node} {rest : List Part}
      (hmem : .token role token ∈ Part.ofNodes own nodes ++ rest) : .token role token ∈ rest := by
    simpa [Part.ofNodes] using hmem
  have hmore {slot : Slot} {slots : List Slot} (hfound : ∃ terminal,
      (.token role terminal ∈ slots ∨ .option role terminal ∈ slots) ∧
        terminal.accepts token = true) :
      ∃ terminal, (.token role terminal ∈ slot :: slots ∨ .option role terminal ∈ slot :: slots) ∧
        terminal.accepts token = true := by
    obtain ⟨terminal, hslot, haccepts⟩ := hfound
    exact ⟨terminal, hslot.imp (List.mem_cons_of_mem _) (List.mem_cons_of_mem _), haccepts⟩
  induction h with
  | nil => cases htoken
  | token haccepts _ ih =>
      rcases List.mem_cons.mp htoken with heq | hrest
      · obtain ⟨rfl, rfl⟩ := Part.token.inj heq
        exact ⟨_, Or.inl List.mem_cons_self, haccepts⟩
      · exact hmore (ih hrest)
  | option haccepts _ ih =>
      rename_i found _ _ _
      rcases List.mem_append.mp htoken with hhere | hrest
      · cases found with
        | none => cases hhere
        | some found =>
            obtain ⟨rfl, rfl⟩ := Part.token.inj (List.mem_singleton.mp hhere)
            exact ⟨_, Or.inr List.mem_cons_self, haccepts _ rfl⟩
      · exact hmore (ih hrest)
  | node _ _ ih => exact hmore (ih (by simpa using htoken))
  | nodeOption _ _ ih => exact hmore (ih (hlater htoken))
  | many _ _ ih => exact hmore (ih (hlater htoken))
  | list _ _ _ ih => exact hmore (ih (hlater htoken))

/-- A token of a construct fills one of its slots. -/
theorem Fits.exists_accepts (h : Fits belongs slots parts) {token : Token}
    (htoken : (Node.mk label parts).token? role = some token) :
    ∃ terminal, (.token role terminal ∈ slots ∨ .option role terminal ∈ slots) ∧
      terminal.accepts token = true :=
  h.exists_accepts_of_mem (Node.mem_parts_of_token? htoken)

/-! ## Constructs below -/

/-- The slot is for constructs of the category, in the given role. -/
def Slot.Holds (role : Role) (category : Category) : Slot → Prop
  | .token _ _ | .option _ _ => False
  | .node own inner | .nodeOption own inner | .many own inner => own = role ∧ inner = category
  | .list own inner separator _ _ =>
      own = role ∧ (inner = category ∨ inner.before separator = category)

theorem Items.belongs_of_mem {nodes : List Node} {category : Category} {separator : String}
    {mayDangle : Bool} (h : Items belongs nodes category separator mayDangle) {node : Node}
    (hnode : node ∈ nodes) : belongs category node ∨ belongs (category.before separator) node := by
  induction h with
  | nil => cases hnode
  | last hlast =>
      obtain rfl := List.mem_singleton.mp hnode
      exact Or.inl hlast
  | cons hfirst _ _ ih =>
      rcases List.mem_cons.mp hnode with rfl | hrest
      · exact Or.inr hfirst
      · exact ih hrest

/-- A construct among the parts fills one of the slots. -/
theorem Fits.exists_holds (h : Fits belongs slots parts) {node : Node}
    (hnode : .node role node ∈ parts) :
    ∃ slot ∈ slots, ∃ category, slot.Holds role category ∧ belongs category node := by
  have hmem {nodes : List Node} {own : Role} (hown : .node role node ∈ Part.ofNodes own nodes) :
      own = role ∧ node ∈ nodes := by
    obtain ⟨other, hother, heq⟩ := List.mem_map.mp hown
    obtain ⟨rfl, rfl⟩ := Part.node.inj heq
    exact ⟨rfl, hother⟩
  induction h with
  | nil => cases hnode
  | token _ _ ih =>
      obtain ⟨slot, hslot, hfound⟩ := ih (by simpa using hnode)
      exact ⟨slot, List.mem_cons_of_mem _ hslot, hfound⟩
  | option _ _ ih =>
      rename_i token _ _ _
      obtain ⟨slot, hslot, hfound⟩ := ih (by cases token <;> simpa [Part.ofToken?] using hnode)
      exact ⟨slot, List.mem_cons_of_mem _ hslot, hfound⟩
  | node hbelongs _ ih =>
      rcases List.mem_cons.mp hnode with heq | hrest
      · obtain ⟨rfl, rfl⟩ := Part.node.inj heq
        exact ⟨_, List.mem_cons_self, _, ⟨rfl, rfl⟩, hbelongs⟩
      · obtain ⟨slot, hslot, hfound⟩ := ih hrest
        exact ⟨slot, List.mem_cons_of_mem _ hslot, hfound⟩
  | nodeOption hbelongs _ ih =>
      rename_i found _ _ _
      rcases List.mem_append.mp hnode with hhere | hrest
      · obtain ⟨rfl, hfound⟩ := hmem (show .node role node ∈ Part.ofNodes _ found.toList from hhere)
        exact ⟨_, List.mem_cons_self, _, ⟨rfl, rfl⟩, hbelongs node (by simpa using hfound)⟩
      · obtain ⟨slot, hslot, hfound⟩ := ih hrest
        exact ⟨slot, List.mem_cons_of_mem _ hslot, hfound⟩
  | many hbelongs _ ih =>
      rcases List.mem_append.mp hnode with hhere | hrest
      · obtain ⟨rfl, hfound⟩ := hmem hhere
        exact ⟨_, List.mem_cons_self, _, ⟨rfl, rfl⟩, hbelongs node hfound⟩
      · obtain ⟨slot, hslot, hfound⟩ := ih hrest
        exact ⟨slot, List.mem_cons_of_mem _ hslot, hfound⟩
  | list hitems _ _ ih =>
      rcases List.mem_append.mp hnode with hhere | hrest
      · obtain ⟨rfl, hfound⟩ := hmem hhere
        rcases hitems.belongs_of_mem hfound with hlast | hbefore
        · exact ⟨_, List.mem_cons_self, _, ⟨rfl, Or.inl rfl⟩, hlast⟩
        · exact ⟨_, List.mem_cons_self, _, ⟨rfl, Or.inr rfl⟩, hbefore⟩
      · obtain ⟨slot, hslot, hfound⟩ := ih hrest
        exact ⟨slot, List.mem_cons_of_mem _ hslot, hfound⟩

end

/-! ## Parts in place of others -/

/-- Two parts are the same token, or constructs in one role that are related. -/
inductive Matches (related : Node → Node → Prop) : Part → Part → Prop where
  | token {role : Role} {token : Token} : Matches related (.token role token) (.token role token)
  | node {role : Role} {node other : Node} (h : related node other) :
      Matches related (.node role node) (.node role other)

section

variable {belongs result : Category → Node → Prop} {related : Node → Node → Prop} {others : List Part}

theorem matches_ofToken? {role : Role} {token : Option Token} {parts : List Part}
    (h : List.Forall₂ (Matches related) (Part.ofToken? role token ++ parts) others) :
    ∃ rest, others = Part.ofToken? role token ++ rest ∧
      List.Forall₂ (Matches related) parts rest := by
  cases token with
  | none => exact ⟨others, rfl, h⟩
  | some token =>
      obtain ⟨_, rest, hpart, hrest, rfl⟩ := List.forall₂_cons_left_iff.mp h
      cases hpart
      exact ⟨rest, rfl, hrest⟩

theorem matches_ofNodes {role : Role} {nodes : List Node} {parts : List Part}
    (h : List.Forall₂ (Matches related) (Part.ofNodes role nodes ++ parts) others) :
    ∃ found rest, others = Part.ofNodes role found ++ rest ∧ List.Forall₂ related nodes found ∧
      List.Forall₂ (Matches related) parts rest := by
  induction nodes generalizing others with
  | nil => exact ⟨[], others, rfl, .nil, h⟩
  | cons node nodes ih =>
      obtain ⟨_, rest, hpart, hrest, rfl⟩ := List.forall₂_cons_left_iff.mp h
      cases hpart with
      | node hnode =>
          obtain ⟨found, rest, rfl, hfound, hparts⟩ := ih hrest
          exact ⟨_ :: found, rest, rfl, .cons hnode hfound, hparts⟩

theorem belongs_of_related {nodes found : List Node} {category : Category}
    (h : ∀ node ∈ nodes, belongs category node) (hfound : List.Forall₂ related nodes found)
    (himp : ∀ node other, related node other → belongs category node → result category other) :
    ∀ other ∈ found, result category other := by
  induction hfound with
  | nil => exact fun other hother => absurd hother List.not_mem_nil
  | cons hother _ ih =>
      intro node hnode
      rcases List.mem_cons.mp hnode with rfl | hnode
      · exact himp _ _ hother (h _ List.mem_cons_self)
      · exact ih (fun inner hinner => h inner (List.mem_cons_of_mem _ hinner)) node hnode

theorem Items.follow {nodes found : List Node} {category : Category} {separator : String}
    {mayDangle : Bool} (h : Items belongs nodes category separator mayDangle)
    (hfound : List.Forall₂ related nodes found)
    (hlast : ∀ node other, related node other → belongs category node → result category other)
    (hbefore : ∀ node other, related node other → belongs (category.before separator) node →
      result (category.before separator) other) :
    Items result found category separator mayDangle := by
  induction h generalizing found with
  | nil =>
      cases hfound
      exact .nil
  | last hnode =>
      obtain ⟨other, rest, hother, hrest, rfl⟩ := List.forall₂_cons_left_iff.mp hfound
      cases hrest
      exact .last (hlast _ _ hother hnode)
  | cons hnode hdangles _ ih =>
      obtain ⟨other, rest, hother, hrest, rfl⟩ := List.forall₂_cons_left_iff.mp hfound
      refine .cons (hbefore _ _ hother hnode) ?_ (ih hrest hlast hbefore)
      rintro rfl
      cases hrest
      exact hdangles rfl

/-- Parts fill the slots that the parts they match have filled, if related constructs belong to the
categories of these slots alike. -/
theorem Fits.follow {slots : List Slot} {parts : List Part} (h : Fits belongs slots parts)
    (hothers : List.Forall₂ (Matches related) parts others)
    (himp : ∀ slot ∈ slots, ∀ role category, slot.Holds role category → ∀ node other,
      related node other → belongs category node → result category other) :
    Fits result slots others := by
  -- slot by slot; tokens are the same, nodes are related
  induction h generalizing others with
  | nil =>
      cases hothers
      exact .nil
  | token htoken _ ih =>
      obtain ⟨_, rest, hpart, hrest, rfl⟩ := List.forall₂_cons_left_iff.mp hothers
      cases hpart
      exact .token htoken (ih hrest fun slot hslot => himp slot (List.mem_cons_of_mem _ hslot))
  | option htoken _ ih =>
      obtain ⟨rest, rfl, hrest⟩ := matches_ofToken? hothers
      exact .option htoken (ih hrest fun slot hslot => himp slot (List.mem_cons_of_mem _ hslot))
  | node hnode _ ih =>
      obtain ⟨_, rest, hpart, hrest, rfl⟩ := List.forall₂_cons_left_iff.mp hothers
      cases hpart with
      | node hrelated =>
          exact .node (himp _ List.mem_cons_self _ _ ⟨rfl, rfl⟩ _ _ hrelated hnode)
            (ih hrest fun slot hslot => himp slot (List.mem_cons_of_mem _ hslot))
  | nodeOption hnode _ ih =>
      rename_i role category node _ _ _
      obtain ⟨found, rest, rfl, hfound, hrest⟩ := matches_ofNodes (show
        List.Forall₂ (Matches related) (Part.ofNodes role node.toList ++ _) others from hothers)
      have hparts := ih hrest fun slot hslot => himp slot (List.mem_cons_of_mem _ hslot)
      cases node with
      | none =>
          cases hfound
          exact @Fits.nodeOption _ role category none _ _ (by simp) hparts
      | some node =>
          obtain ⟨other, _, hother, hnil, rfl⟩ := List.forall₂_cons_left_iff.mp hfound
          cases hnil
          refine @Fits.nodeOption _ role category (some other) _ _ ?_ hparts
          rintro _ ⟨⟩
          exact himp _ List.mem_cons_self _ _ ⟨rfl, rfl⟩ _ _ hother (hnode node rfl)
  | many hnodes _ ih =>
      obtain ⟨found, rest, rfl, hfound, hrest⟩ := matches_ofNodes hothers
      exact .many
        (belongs_of_related hnodes hfound (himp _ List.mem_cons_self _ _ ⟨rfl, rfl⟩))
        (ih hrest fun slot hslot => himp slot (List.mem_cons_of_mem _ hslot))
  | list hnodes hleast _ ih =>
      obtain ⟨found, rest, rfl, hfound, hrest⟩ := matches_ofNodes hothers
      refine .list (hnodes.follow hfound ?_ ?_) (hfound.length_eq ▸ hleast)
        (ih hrest fun slot hslot => himp slot (List.mem_cons_of_mem _ hslot))
      · exact himp _ List.mem_cons_self _ _ ⟨rfl, Or.inl rfl⟩
      · exact himp _ List.mem_cons_self _ _ ⟨rfl, Or.inr rfl⟩

/-- Parts fill slots under another notion of belonging that agrees on the categories of the slots. -/
theorem Fits.imp_of_holds {slots : List Slot} {parts : List Part} (h : Fits belongs slots parts)
    (himp : ∀ slot ∈ slots, ∀ role category, slot.Holds role category → ∀ node,
      belongs category node → result category node) : Fits result slots parts := by
  have hsame : List.Forall₂ (Matches Eq) parts parts := by
    refine List.forall₂_same.mpr fun part _ => ?_
    cases part with
    | token => exact .token
    | node => exact .node rfl
  refine h.follow hsame fun slot hslot role category hholds node other heq hnode => ?_
  exact heq ▸ himp slot hslot role category hholds node hnode

end

end Shape

end WebIdl
