import WebIdl.Proofs.Shape.Swap

/-!
# Arguments and what is inside them

Arguments are listed by functions of all kinds and by extended attributes.  Functions are never inside
other functions: below the arguments of one there are attributes, types and default values, and the
only arguments among them are those of extended attributes.  Each of these facts is read off the forms
of the grammar, and one walk over the symbols checks all of them (`isSheltered_of_mem_forms`).
-/

namespace WebIdl.Shape

/-- The symbols of minor constructs, which are found in members and definitions and declare nothing. -/
def Symbol.isMinor : Symbol → Bool
  | .wrappedToken _ | .extendedAttribute | .attributes _ | .default | .argument => true
  | symbol => symbol.isType

/-- Do the role and the symbol of the slot satisfy the condition, if it is for constructs? -/
def Slot.isFor (condition : Role → Symbol → Bool) : Slot → Bool
  | .token _ _ | .option _ _ => true
  | .node role category | .nodeOption role category | .many role category
  | .list role category _ _ _ => condition role category.symbol

theorem Slot.Holds.isFor {condition : Role → Symbol → Bool} {slot : Slot} {role : Role}
    {category : Category} (h : slot.Holds role category) (hslot : slot.isFor condition = true) :
    condition role category.symbol = true := by
  cases slot with
  | token | option => exact h.elim
  | node | nodeOption | many =>
      obtain ⟨rfl, rfl⟩ := h
      exact hslot
  | list =>
      obtain ⟨rfl, rfl | rfl⟩ := h <;> exact hslot

/-- The slot is not in the role of arguments. -/
def isSilent (role : Role) (_ : Symbol) : Bool :=
  role != .argument

/-- The slot is for minor constructs. -/
def isEnclosed (_ : Role) (symbol : Symbol) : Bool :=
  symbol.isMinor

/-- If the slot is for arguments, it is in their role, except in extended attributes. -/
def isPlaced (construct : Construct) (role : Role) (symbol : Symbol) : Bool :=
  !(symbol matches .argument) || (role == .argument) == (construct != .extendedAttribute)

/-- A form of a minor symbol lists no arguments in their own role, and such a form, like one that
lists arguments, is for minor constructs only. -/
def Form.isSheltered (symbol : Symbol) (form : Form) : Bool :=
  (!symbol.isMinor || form.slots.all (Slot.isFor isSilent)) &&
    (!symbol.isMinor && form.slots.all (Slot.isFor isSilent) ||
      form.slots.all (Slot.isFor isEnclosed)) &&
    form.slots.all (Slot.isFor (isPlaced form.construct))

theorem isSheltered_of_mem_forms {extended : Bool} {symbol : Symbol} {form : Form}
    (hform : form ∈ symbol.forms extended) : form.isSheltered symbol = true := by
  refine List.all_eq_true.mp
    (?_ : (symbol.forms extended).all (·.isSheltered symbol) = true) form hform
  cases symbol with
  | type place limit => cases limit <;> cases extended <;> rfl
  | returnType place limit => cases limit <;> cases extended <;> rfl
  | operation isRegular limit => cases isRegular <;> rfl
  | stem stems place =>
      refine List.all_eq_true.mpr fun form hform => ?_
      obtain ⟨stem, -, hform⟩ := List.mem_flatMap.mp hform
      exact List.all_eq_true.mp (by cases stem <;> rfl : (stem.bareForms place .all).all
        (·.isSheltered (.stem stems place)) = true) form hform
  | attributes mode => cases mode <;> rfl
  | «attribute» noInherit mustBeReadonly => cases noInherit <;> cases mustBeReadonly <;> rfl
  | special word =>
      simp only [Symbol.forms, Symbol.ownForms, specialForms]
      split <;> rfl
  | member body =>
      cases body with
      | interface legacy => cases legacy <;> rfl
      | mixin => rfl
      | _ => cases extended <;> rfl
  | callback | partialDefinition | namespaceDef | interfaceOrMixin | definition =>
      cases extended <;> rfl
  | _ => rfl

section

variable {extended : Bool} {category : Category} {label : Label} {parts : List Part} {role : Role}
  {child : Node}

/-- A slot of a construct is for its attributes, or one of its form, or for no construct. -/
theorem isFor_of_mem_slots {condition : Role → Symbol → Bool} {form : Form} {slot : Slot}
    (hslot : slot ∈ category.slots form) (hform : form.slots.all (Slot.isFor condition) = true)
    (hattributes : condition .attributes (.attributes category.mode) = true) :
    slot.isFor condition = true := by
  rcases mem_slots_iff.mp hslot with ⟨-, rfl⟩ | hown | ⟨separator, -, rfl⟩
  · exact hattributes
  · exact List.all_eq_true.mp hform slot hown
  · rfl

/-- An argument is in the role of arguments, unless it belongs to an extended attribute. -/
theorem Formed.role_of_argument (h : Formed extended category (.mk label parts))
    (hcategory : category.isRegular = true) (hchild : .node role child ∈ parts)
    (hargument : child.construct = .argument) :
    role = .argument ↔ label.construct ≠ .extendedAttribute := by
  obtain ⟨hform, hconstruct, -, hparts⟩ := h
  obtain ⟨slot, hslot, own, hholds, hformed⟩ := hparts.exists_holds hchild
  have hregular := (hholds.isApt (isApt_of_mem_slots hcategory hform hslot)).2
  have hsheltered := isSheltered_of_mem_forms hform
  simp only [Form.isSheltered, Bool.and_eq_true] at hsheltered
  have hplaced := hholds.isFor (isFor_of_mem_slots hslot hsheltered.2 rfl)
  have hmakes : own.symbol.makes .argument = true := hargument ▸ hformed.makes hregular
  obtain ⟨symbol, mode, separator⟩ := own
  cases symbol with
  | argument =>
      rw [← hconstruct] at hplaced
      have hsame : (role == .argument) = (label.construct != .extendedAttribute) := by
        simpa [isPlaced] using hplaced
      rw [← beq_iff_eq, hsame, bne_iff_ne]
  | _ => cases hmakes

/-- What is inside a minor construct is a minor construct and not in the role of arguments. -/
theorem Formed.child_of_isMinor (h : Formed extended category (.mk label parts))
    (hminor : category.symbol.isMinor = true) (hchild : .node role child ∈ parts) :
    role ≠ .argument ∧ ∃ own : Category, own.symbol.isMinor = true ∧ Formed extended own child := by
  obtain ⟨hform, -, -, hparts⟩ := h
  obtain ⟨slot, hslot, own, hholds, hformed⟩ := hparts.exists_holds hchild
  have hsheltered := isSheltered_of_mem_forms hform
  simp only [Form.isSheltered, hminor, Bool.not_true, Bool.false_or, Bool.false_and,
    Bool.and_eq_true] at hsheltered
  have hsilent := hholds.isFor (isFor_of_mem_slots hslot hsheltered.1.1 rfl)
  exact ⟨by simpa [isSilent] using hsilent, own, hholds.isFor (isFor_of_mem_slots hslot hsheltered.1.2 rfl),
    hformed⟩

/-- If a construct has arguments in their role, all that is inside it is minor. -/
theorem Formed.isMinor_of_arguments (h : Formed extended category (.mk label parts))
    {argument : Node} (hargument : .node .argument argument ∈ parts)
    (hchild : .node role child ∈ parts) :
    ∃ own : Category, own.symbol.isMinor = true ∧ Formed extended own child := by
  obtain ⟨hform, -, -, hparts⟩ := h
  obtain ⟨slot, hslot, own, hholds, hformed⟩ := hparts.exists_holds hchild
  have hsheltered := isSheltered_of_mem_forms hform
  simp only [Form.isSheltered, Bool.and_eq_true, Bool.or_eq_true] at hsheltered
  rcases hsheltered.1.2 with ⟨-, hsilent⟩ | hminor
  · -- the arguments have a slot
    obtain ⟨place, hplace, other, hother, -⟩ := hparts.exists_holds hargument
    have hrole := hother.isFor (isFor_of_mem_slots hplace hsilent rfl)
    cases hrole
  · exact ⟨own, hholds.isFor (isFor_of_mem_slots hslot hminor rfl), hformed⟩

/-- Every construct inside a minor one is a minor one. -/
theorem Formed.at?_of_isMinor {node inner : Node} {path : List Nat}
    (h : Formed extended category node) (hminor : category.symbol.isMinor = true)
    (hat : node.at? path = some inner) :
    ∃ own : Category, own.symbol.isMinor = true ∧ Formed extended own inner := by
  induction path generalizing category node with
  | nil =>
      obtain rfl := Option.some.inj hat
      exact ⟨category, hminor, h⟩
  | cons number path ih =>
      obtain ⟨label, parts⟩ := node
      obtain ⟨child, hchild, hbelow⟩ := Option.bind_eq_some_iff.mp hat
      obtain ⟨front, role, back, rfl, -⟩ := exists_split hchild
      obtain ⟨-, own, hown, hformed⟩ :=
        h.child_of_isMinor hminor (List.mem_append_right front List.mem_cons_self)
      exact ih hformed hown hbelow

end

end WebIdl.Shape
