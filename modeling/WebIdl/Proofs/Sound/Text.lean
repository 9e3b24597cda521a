import WebIdl.Proofs.Sound.Parse

/-!
# What is found in a whole text

The definitions of a text are read one after the other up to its end.  Each one is found by a
production of the list that is tried, behind attributes of its own, where the productions before it
have found nothing.
-/

namespace WebIdl.Grammar

open WebIdl.Parser WebIdl.Shape

section

variable {extended : Bool} {scope : Scope} {nested : Production → Parser (Option Node)}
  {cursor moved : Cursor} {productions : List Production}

/-- Attributes that are written have items. -/
theorem items_ne_nil {attributes : Node}
    (h : Conforms extended { symbol := .attributes .always } attributes) :
    attributes.items ≠ [] := by
  cases h with
  | mk hform hparts =>
      obtain rfl := List.mem_singleton.mp hform
      obtain ⟨opening, rest, rfl, -, hrest⟩ := fits_token.mp hparts
      obtain ⟨nodes, rest, rfl, -, hleast, -⟩ := fits_list.mp hrest
      cases nodes with
      | nil => exact absurd hleast (by decide)
      | cons node nodes => simp [Node.items]

/-- A production of definitions: it finds constructs without attributes, which can be given some. -/
def IsDefining (extended : Bool) (production : Production) : Prop :=
  IsPlain production ∧ (symbolOf production).Attributed extended

/-- The node was found as a definition: by a production of the list, behind its attributes, where
the productions before it have found nothing. -/
structure FoundAsDefinition (extended : Bool) (scope : Scope)
    (nested : Production → Parser (Option Node)) (productions : List Production) (node : Node) :
    Prop where
  intro ::
  found : ∃ front production back attributes core start more,
    productions = front ++ production :: back ∧
    node = core.withAttributes attributes ∧
    Conforms extended { symbol := .attributes .maybe } attributes ∧
    Conforms extended { symbol := symbolOf production, mode := .never } core ∧
    scope.rest start = core.tokens ++ more ∧
    ∀ earlier ∈ front, Declined nested scope start earlier

theorem reads_definitionsFrom (hnested : Sound extended scope nested)
    (hdefining : ∀ production ∈ productions, IsDefining extended production) {fuel : Nat}
    {nodes : List Node}
    (h : definitionsFrom nested productions fuel scope cursor = .ok nodes moved) :
    Reads scope cursor moved (nodes.flatMap Node.tokens) ∧
      ∀ node ∈ nodes, FoundAsDefinition extended scope nested productions node := by
  -- on the fuel, which goes down by one with each definition
  induction fuel generalizing cursor nodes with
  | zero => exact absurd h exhausted_ne_ok
  | succ fuel ih =>
      obtain ⟨attributes, afterAttributes, hattributes, h⟩ := bind_eq_ok.mp h
      obtain ⟨hreads, hattributes, -⟩ := reads_extendedAttributes hnested hattributes
      obtain ⟨definition, afterDefinition, hdefinition, h⟩ := bind_eq_ok.mp h
      rcases firstMatch_eq_ok hdefinition with ⟨rfl, hposition, -⟩ |
        ⟨front, production, back, node, start, stop, hsplit, hfront, hstart, hnode, rfl, hstop⟩
      · -- no definition is left, and attributes without one are refused
        obtain ⟨hstray, h⟩ := refuse_bind.mp h
        obtain ⟨rfl, rfl⟩ := pure_eq_ok.mp h
        rcases hattributes with rfl | hwritten
        · exact ⟨.refl (hposition.trans hreads.position_eq), by simp⟩
        · exact absurd hstray (by simpa using items_ne_nil hwritten)
      · obtain ⟨others, _, hothers, h⟩ := bind_eq_ok.mp h
        obtain ⟨rfl, rfl⟩ := pure_eq_ok.mp h
        obtain ⟨hrest, hfound⟩ := ih hothers
        obtain ⟨hplain, hattributed⟩ := hdefining production (by simp [hsplit])
        obtain ⟨hreadsNode, hconforms⟩ := hnested.found hnode
        rw [categoryOf, hplain] at hconforms
        refine ⟨?_, List.forall_mem_cons.mpr ⟨⟨front, production, back, attributes, node,
          afterAttributes, scope.rest stop, hsplit, rfl, conforms_attributes hattributes,
          hconforms, ?_, hfront⟩, hfound⟩⟩
        · rw [List.flatMap_cons, hconforms.tokens_withAttributes hattributed]
          exact (hreads.trans (hreadsNode.congr hstart.symm hstop)).trans hrest
        · rw [← hreadsNode.rest_eq, Scope.rest_congr hstart]

/-- The standard definitions, and those of the extended language. -/
theorem isDefining_standard {production : Production} (h : production ∈ standardDefinitions) :
    IsDefining extended production := by
  simp only [standardDefinitions, List.mem_cons, List.not_mem_nil, or_false] at h
  rcases h with rfl | rfl | rfl | rfl | rfl | rfl | rfl | rfl <;>
    exact ⟨rfl, by cases extended <;> rfl⟩

theorem isDefining_gecko {production : Production} (h : production ∈ Dialect.gecko.productions) :
    IsDefining extended production := by
  simp only [Dialect.gecko, List.mem_cons, List.not_mem_nil, or_false] at h
  rcases h with rfl | rfl | rfl | rfl <;> exact ⟨rfl, by cases extended <;> rfl⟩

end

end WebIdl.Grammar
