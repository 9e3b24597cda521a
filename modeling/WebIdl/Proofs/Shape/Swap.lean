import WebIdl.Proofs.Shape.Formed
import WebIdl.Proofs.Shape.Order

/-!
# Edits inside well-formed trees

A construct may be swapped for another one inside a well-formed tree if the other one belongs to
every category that the first one belongs to.
-/

namespace WebIdl.Shape

/-- A construct is one that the symbol of its category can be. -/
theorem Formed.makes {extended : Bool} {category : Category} {node : Node}
    (h : Formed extended category node) (hcategory : category.isRegular = true) :
    category.symbol.makes node.construct = true := by
  obtain ⟨hform, hconstruct, -, -⟩ := h
  exact (congrArg category.symbol.makes hconstruct).trans (makes_of_mem_forms hcategory hform)

/-- A construct inside a well-formed one is well formed and fits its role. -/
theorem Formed.child {extended : Bool} {category : Category} {node : Node}
    (h : Formed extended category node) (hcategory : category.isRegular = true) {role : Role}
    {child : Node} (hchild : .node role child ∈ node.parts) :
    ∃ own : Category, own.isRegular = true ∧ Formed extended own child ∧
      own.symbol.isApt node.construct role = true := by
  obtain ⟨hform, hconstruct, -, hparts⟩ := h
  obtain ⟨slot, hslot, own, hholds, hformed⟩ := hparts.exists_holds hchild
  obtain ⟨hapt, hregular⟩ := hholds.isApt (isApt_of_mem_slots hcategory hform hslot)
  exact ⟨own, hregular, hformed, by rwa [Node.construct_mk, hconstruct]⟩

/-- Wherever the grammar has room for the first construct, it has room for the second. -/
def GivesWay (extended : Bool) (old new : Node) : Prop :=
  ∀ category : Category, category.isRegular = true → Formed extended category old →
    Formed extended category new

theorem GivesWay.refl (extended : Bool) (node : Node) : GivesWay extended node node :=
  fun _ _ h => h

/-- A tree stays well formed if a construct in it gives way to another one. -/
theorem GivesWay.swap {extended : Bool} {old new node changed : Node} {path : List Nat}
    (hold : GivesWay extended old new) (h : Swaps old new path node changed) :
    GivesWay extended node changed := by
  induction h with
  | here => exact hold
  | inside label front role back _ ih =>
      rintro category hcategory ⟨hform, hconstruct, htag, hparts⟩
      have hself (parts : List Part) :
          List.Forall₂ (Matches (GivesWay extended)) parts parts := by
        refine List.forall₂_same.mpr fun part _ => ?_
        cases part with
        | token => exact .token
        | node => exact .node (.refl extended _)
      refine .mk hform hconstruct htag (hparts.follow
        (List.rel_append (hself front) (.cons (.node ih) (hself back))) ?_)
      intro slot hslot own inner hholds node other hother
      exact hother inner (hholds.isApt (isApt_of_mem_slots hcategory hform hslot)).2

end WebIdl.Shape
