import WebIdl.Proofs.Shape.Swap
import WebIdl.Proofs.Validation.Objections

/-!
# What can be read in well-formed trees

Rules take it for granted that an extended attribute has a name and that a generic type has a base.
Every form of the grammar has room for these tokens and demands them, so in a well-formed tree none of
them is lacking (`Formed.isLegible`).
-/

namespace WebIdl.Shape

variable {extended : Bool} {category : Category} {node : Node}

/-- A construct has the token that its form demands. -/
theorem Fits.exists_token {form : Form} {label : Label} {parts : List Part} {role : Role}
    (h : Fits (Formed extended) (category.slots form) parts)
    (hdemands : form.slots.any (·.demands role) = true) :
    ∃ token, (Node.mk label parts).token? role = some token := by
  have hslots : (category.slots form).any (·.demands role) = true := by
    obtain ⟨slot, hslot, hrole⟩ := List.any_eq_true.mp hdemands
    exact List.any_eq_true.mpr ⟨slot, mem_slots_iff.mpr (Or.inr (Or.inl hslot)), hrole⟩
  exact Option.isSome_iff_exists.mp (h.has_of_demands hslots)

theorem Formed.exists_name (h : Formed extended category node)
    (hcategory : category.isRegular = true) (hconstruct : node.construct = .extendedAttribute) :
    ∃ name, node.name = .ok name := by
  obtain ⟨hform, hlabel, -, hparts⟩ := h
  have hnamed := isNamed_of_mem_forms hcategory hform
  rw [Form.isNamed, ← hlabel, ← Node.construct_mk, hconstruct] at hnamed
  obtain ⟨token, htoken⟩ := hparts.exists_token (Bool.and_eq_true_iff.mp hnamed).1
  exact ⟨_, by rw [Node.name, htoken]⟩

theorem Formed.exists_genericName (h : Formed extended category node)
    (hcategory : category.isRegular = true) (htype : node.construct.isType = true) :
    ∃ generic, node.genericName = .ok generic := by
  rw [Node.genericName]
  split
  · rename_i hbracket
    obtain ⟨hform, hlabel, -, hparts⟩ := h
    have hnamed := isNamed_of_mem_forms hcategory hform
    rw [Form.isNamed, ← hlabel, ← Node.construct_mk, htype] at hnamed
    have hunion := beq_eq_false_iff_ne.mpr (bne_iff_ne.mp (Bool.and_eq_true_iff.mp hbracket).2)
    rw [hunion] at hnamed
    obtain ⟨token, htoken⟩ := hparts.exists_token (Bool.and_eq_true_iff.mp hnamed).2
    exact ⟨token.value, by rw [Node.valueAs, Node.tokenIn, htoken]; rfl⟩
  · exact ⟨"", rfl⟩

/-- Nothing that a rule may want of a well-formed construct is lacking. -/
theorem Formed.isLegible (h : Formed extended category node)
    (hcategory : category.isRegular = true) : node.IsLegible where
  name hconstruct := h.exists_name hcategory hconstruct
  attributes attributes hattributes item hitem := by
    obtain ⟨own, hregular, hformed, -⟩ := h.child hcategory (Node.mem_parts_of_node? hattributes)
    obtain ⟨inner, hinner, hfound, hapt⟩ := hformed.child hregular (Node.mem_parts_of_nodesAs hitem)
    refine hfound.exists_name hinner ?_
    obtain ⟨symbol, mode, separator⟩ := inner
    cases symbol with
    | extendedAttribute =>
        obtain ⟨hform, hlabel, -, -⟩ := hfound
        obtain ⟨tail, -, rfl⟩ := List.mem_map.mp hform
        exact hlabel
    | _ => cases hapt
  type type htype htypeOf := by
    obtain ⟨own, hregular, hformed, -⟩ := h.child hcategory (Node.mem_parts_of_node? htype)
    exact hformed.exists_genericName hregular htypeOf

end WebIdl.Shape
