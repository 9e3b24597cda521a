import WebIdl.Batch
import WebIdl.Proofs.Dialect.Safety
import WebIdl.Proofs.Tree.Mapped
import WebIdl.Proofs.Validation.Converge

/-!
# Mending the text of one file

Under a named dialect a text is mended unless it has a syntax error (`mendText_cases`).  A text that has
been mended needs no repair any more: it parses again, to a document of the same essence as the mended
one, and no rule looks at more than that (`mendText_again`).
-/

namespace WebIdl.Batch

open WebIdl.Mending

variable {dialect : Dialect} {text name : String}

/-- What becomes of a text under a named dialect. -/
theorem mendText_cases (hdialect : dialect ∈ Dialect.known) (text name : String) :
    (∃ error, (dialect.parse text (some name)).result = .error (.syntaxError error) ∧
      mendText dialect text name = .error (.parse (.syntaxError error))) ∨
    ∃ document items count, (dialect.parse text (some name)).result = .ok document ∧
      Diagnostic.fixAll dialect.admits (objections Rule.all document.items) document.items =
        .ok (items, count) ∧
      mendText dialect text name = .ok
        (if count = 0 then none else some ({ document with items }.write, count)) := by
  rcases Dialect.parse_cases hdialect text (some name) with ⟨document, hdocument⟩ | ⟨error, herror⟩
  · right
    obtain ⟨items, hitems⟩ := Dialect.exists_fixAll hdialect hdocument dialect.admits
    refine ⟨document, items, _, hdocument, hitems, ?_⟩
    rw [mendText, hdocument]
    simp only [Except.mapError, bind, Except.bind,
      Dialect.validate_of_parse hdialect hdocument Rule.all, hitems, pure, Except.pure]
    split <;> rfl
  · left
    exact ⟨error, herror, by rw [mendText, herror]; rfl⟩

/-- How many repairs there are to make depends on the essence of a document only. -/
theorem length_isAdmitted_of_essence {items others : List Node}
    (h : others.map Node.essence = items.map Node.essence) (admits : String → Bool) :
    ((objections Rule.all others).filter (Diagnostic.isAdmitted admits)).length =
      ((objections Rule.all items).filter (Diagnostic.isAdmitted admits)).length := by
  have hcount (nodes : List Node) :
      ((objections Rule.all nodes).filter (Diagnostic.isAdmitted admits)).length =
        ((objections Rule.all (nodes.map Node.essence)).filter
          (Diagnostic.isAdmitted admits)).length := by
    have hessence : nodes.map Node.essence =
        nodes.map (Node.map Token.essence fun label => { label with place := none }) :=
      List.map_congr_left fun node _ => node.essence_eq_map
    rw [hessence, objections_map faithful_essence, List.filter_map, List.length_map]
    rfl
  rw [hcount others, hcount items, h]

/-- A text that has been mended needs no repair any more. -/
theorem mendText_again (hdialect : dialect ∈ Dialect.known) {changed : String} {count : Nat}
    (h : mendText dialect text name = .ok (some (changed, count))) :
    mendText dialect changed name = .ok none := by
  obtain ⟨extended, -, -, hextended⟩ := Dialect.exists_extended hdialect
  rcases mendText_cases hdialect text name with
    ⟨error, -, herror⟩ | ⟨document, items, made, hdocument, hitems, hmended⟩
  · cases h.symm.trans herror
  obtain rfl : changed = { document with items }.write := by
    rw [hmended] at h
    split at h
    · cases h
    · exact (Prod.mk.inj (Option.some.inj (Except.ok.inj h))).1.symm
  have hname : document.sourceName = some name := by
    obtain ⟨_, _, _, -, -, rfl⟩ := Dialect.parse_eq_ok.mp hdocument
    rfl
  have hintact := Dialect.intact_of_parse hextended hdocument
  have hrun := hintact.look.fixAll (List.subset_append_right [] _) hitems
  -- what is written parses again
  rw [← hname] at hrun
  obtain ⟨again, hagain, -, -, hessence⟩ := @Dialect.exists_parse_of_intact _ _ hextended
    { document with items } _ hrun
  have hsource : ({ document with items } : Document).sourceName = some name := hname
  rw [hsource] at hagain
  have hcount := length_isAdmitted_of_essence hessence dialect.admits
  rw [hintact.filter_isAdmitted hitems, List.length_nil] at hcount
  rcases mendText_cases hdialect { document with items }.write name with
    ⟨error, herror, -⟩ | ⟨other, _, _, hother, hnone, hmended⟩
  · cases hagain.symm.trans herror
  · obtain rfl : again = other := Except.ok.inj (hagain.symm.trans hother)
    rw [hmended, ← (Diagnostic.fixAll_eq_ok_iff.mp hnone).2, hcount]
    rfl

end WebIdl.Batch
