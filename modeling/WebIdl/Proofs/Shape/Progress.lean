import WebIdl.Proofs.Shape.Conforms

/-!
# Constructs that are written have tokens

Every form has a slot that a token must fill, except that of attributes that are not written.  So a
construct of any other category has tokens.
-/

namespace WebIdl.Shape

/-- Must a token fill this slot? -/
def Slot.isToken : Slot → Bool
  | .token _ _ => true
  | _ => false

theorem Fits.tokensOf_ne_nil {belongs : Category → Node → Prop} {slots : List Slot}
    {parts : List Part} (h : Fits belongs slots parts) (hslots : slots.any Slot.isToken = true) :
    tokensOf parts ≠ [] := by
  induction h with
  | nil => exact absurd hslots (by simp)
  | token => simp [tokensOf]
  | option _ _ ih =>
      have htail := ih (by simpa [Slot.isToken] using hslots)
      simp [htail]
  | node _ _ ih =>
      have htail := ih (by simpa [Slot.isToken] using hslots)
      simp [tokensOf, htail]
  | nodeOption _ _ ih =>
      have htail := ih (by simpa [Slot.isToken] using hslots)
      simp [htail]
  | many _ _ ih =>
      have htail := ih (by simpa [Slot.isToken] using hslots)
      simp [htail]
  | list _ _ _ ih =>
      have htail := ih (by simpa [Slot.isToken] using hslots)
      simp [htail]

/-- Must some token be written for this form? -/
def Form.isWritten (form : Form) : Bool :=
  form.slots.any Slot.isToken

/-- Must some token be written for this symbol? -/
def Symbol.isWritten : Symbol → Bool
  | .attributes mode => mode == .always
  | _ => true

theorem Stem.isWritten_of_mem {stem : Stem} {place : Option String} {limit : Limit}
    {slots : List Slot} (h : slots ∈ stem.slots place limit) :
    slots.any Slot.isToken = true := by
  have hall : (stem.slots place limit).all (·.any Slot.isToken) = true := by
    cases stem <;> rfl
  exact List.all_eq_true.mp hall slots h

theorem Stem.isWritten_bareForms {stem : Stem} {place : Option String} {limit : Limit} {form : Form}
    (h : form ∈ stem.bareForms place limit) : form.isWritten = true := by
  obtain ⟨slots, hslots, rfl⟩ := List.mem_map.mp h
  exact Stem.isWritten_of_mem hslots

theorem isWritten_typeForms {extended : Bool} {place : Option String} {limit : Limit} {form : Form}
    (h : form ∈ typeForms extended place limit) : form.isWritten = true := by
  obtain ⟨stem, -, h⟩ := List.mem_flatMap.mp h
  obtain ⟨bareForm, hbare, rfl⟩ := List.mem_map.mp h
  have hwritten := Stem.isWritten_bareForms hbare
  split
  · rw [Form.isWritten, List.any_append, Bool.or_eq_true]
    exact Or.inl hwritten
  · exact hwritten

theorem Symbol.isWritten_ownForms {extended : Bool} {symbol : Symbol} {form : Form}
    (hsymbol : symbol.isWritten = true) (h : form ∈ symbol.ownForms extended) :
    form.isWritten = true := by
  have of_all {forms : List Form} (hall : forms.all Form.isWritten = true) (h : form ∈ forms) :
      form.isWritten = true := List.all_eq_true.mp hall form h
  cases symbol with
  | attributes mode =>
      obtain rfl : mode = .always := by simpa [Symbol.isWritten] using hsymbol
      exact of_all rfl h
  | stem stems place =>
      obtain ⟨stem, -, h⟩ := List.mem_flatMap.mp h
      exact Stem.isWritten_bareForms h
  | type place limit => exact isWritten_typeForms h
  | returnType place limit =>
      rcases List.mem_append.mp h with htype | hvoid
      · exact isWritten_typeForms htype
      · obtain rfl := List.mem_singleton.mp hvoid
        rfl
  | «attribute» noInherit mustBeReadonly =>
      cases noInherit <;> cases mustBeReadonly <;> exact of_all rfl h
  | operation isRegular limit => cases isRegular <;> exact of_all rfl h
  | special word =>
      simp only [Symbol.ownForms, specialForms] at h
      split at h <;> exact of_all rfl h
  | member body => exact absurd h (by simp [Symbol.ownForms])
  | definition => exact absurd h (by simp [Symbol.ownForms])
  | _ => exact of_all rfl h

theorem Symbol.isWritten_forms {extended : Bool} {symbol : Symbol} {form : Form}
    (hsymbol : symbol.isWritten = true) (h : form ∈ symbol.forms extended) :
    form.isWritten = true := by
  cases symbol with
  | member body =>
      obtain ⟨member, hmember, h⟩ := List.mem_flatMap.mp h
      have hall : ∀ member ∈ body.members extended, member.isWritten = true := by
        cases body with
        | interface legacy => cases legacy <;> simp [Body.members, Symbol.isWritten]
        | _ => cases extended <;> simp [Body.members, Symbol.isWritten]
      exact Symbol.isWritten_ownForms (hall member hmember) h
  | definition =>
      obtain ⟨defined, hdefined, h⟩ := List.mem_flatMap.mp h
      have hall : ∀ defined ∈ definitionSymbols extended, defined.isWritten = true := by
        cases extended <;> simp [definitionSymbols, Symbol.isWritten]
      exact Symbol.isWritten_ownForms (hall defined hdefined) h
  | _ => exact @Symbol.isWritten_ownForms extended _ _ hsymbol h

/-- A construct of a category that must be written has tokens. -/
theorem Conforms.tokens_ne_nil {extended : Bool} {category : Category} {node : Node}
    (h : Conforms extended category node) (hsymbol : category.symbol.isWritten = true) :
    node.tokens ≠ [] := by
  cases h with
  | mk hform hparts =>
      rw [Node.tokens]
      refine hparts.tokensOf_ne_nil ?_
      have hwritten : _ = true := Symbol.isWritten_forms hsymbol hform
      simp only [Category.slots, List.any_append, Bool.or_eq_true]
      exact Or.inl (Or.inr hwritten)

end WebIdl.Shape
