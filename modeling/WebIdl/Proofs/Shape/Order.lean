import WebIdl.Proofs.Shape.Head
import WebIdl.Proofs.Shape.Below

/-!
# The order of the grammar

Some facts hold of every form of the grammar.  Each is a check of a single form, and one walk over
the symbols makes all of them (`isOrderly_of_mem_forms`).

* A form is for a construct that its symbol can be (`Symbol.makes`).
* The roles of its slots say what the slots are for: arguments are in the role of arguments, and so
  on (`Slot.isApt`).
* The word `void` is not the base of a type, except where a type is returned.
* An extended attribute has a name, and a type that is no union has a base (`isNamed`).
* A number is followed by a punctuation mark: the slot behind one that can end in a number is for a
  mark, unless the construct itself can end in a number (`isSettled`).
-/

namespace WebIdl.Shape

/-! ## What symbols can be -/

/-- The symbols of types. -/
def Symbol.isType : Symbol → Bool
  | .stem _ _ | .type _ _ | .returnType _ _ | .recordKey _ | .utf8Key | .constantType => true
  | _ => false

/-- Can the symbol be such a construct?  Some constructs come from one symbol only. -/
def Symbol.makes (symbol : Symbol) (construct : Construct) : Bool :=
  match construct, symbol with
  | .extendedAttribute, .extendedAttribute => true
  | .extendedAttributes, .attributes _ => true
  | .default, .default => true
  | .argument, .argument => true
  | .extendedAttribute, _ | .extendedAttributes, _ | .default, _ | .argument, _ => false
  | construct, symbol => construct.isType == symbol.isType

/-! ## What slots are for -/

/-- May a construct of the symbol fill this role in a construct of the given class? -/
def Symbol.isApt (construct : Construct) (role : Role) (symbol : Symbol) : Bool :=
  match role, symbol with
  | .attributes, .attributes _ => true
  | .item, .extendedAttribute => true
  | .argument, .argument => true
  | .default, .default => true
  | .attributes, _ | .item, _ | .argument, _ | .default, _ => false
  | .type, .type _ _ => true
  | .type, _ => construct != .attribute && construct != .argument
  | _, .attributes _ | _, .extendedAttribute => false
  | _, .default => false
  | _, _ => true

/-- The limits that the types of operations have. -/
def Limit.isReturned (limit : Limit) : Bool :=
  limit == .all || limit == .guarded

/-- Does the symbol occur in the definitions of the grammar, as far as the limit of a returned type
and the kind of a lone token go? -/
def Symbol.isRegular : Symbol → Bool
  | .returnType _ limit | .operation _ limit => limit.isReturned
  | .wrappedToken kind => kind != .other && kind != .eof
  | .eof => false
  | _ => true

/-- The symbols of constructs that can end in a number. -/
def Symbol.isOpen : Symbol → Bool
  | .default | .argument | .extendedAttribute | .wrappedToken _ => true
  | _ => false

/-- The punctuation marks that can follow a number. -/
def marks : List String :=
  punctuation.filter (· != "...")

/-- Does the category occur in the grammar?  What separates constructs that can end in a number is a
punctuation mark. -/
def Category.isRegular (category : Category) : Bool :=
  category.symbol.isRegular && (!category.symbol.isOpen || category.separator.all marks.contains)

/-- Are the tokens in the set lexemes, and neither characters that begin none nor the end? -/
def Terminal.isLexical (terminal : Terminal) : Bool :=
  !terminal.kinds.contains .other && !terminal.kinds.contains .eof

/-- Is the slot for lexemes, or for constructs that may fill its role? -/
def Slot.isApt (construct : Construct) : Slot → Bool
  | .token _ terminal | .option _ terminal => terminal.isLexical
  | .node role category | .nodeOption role category | .many role category =>
      category.symbol.isApt construct role && category.isRegular
  | .list role category separator _ _ =>
      category.symbol.isApt construct role && category.isRegular &&
        (category.before separator).isRegular

theorem Slot.Holds.isApt {construct : Construct} {slot : Slot} {role : Role} {category : Category}
    (h : slot.Holds role category) (hslot : slot.isApt construct = true) :
    category.symbol.isApt construct role = true ∧ category.isRegular = true := by
  cases slot with
  | token | option => exact h.elim
  | node | nodeOption | many =>
      obtain ⟨rfl, rfl⟩ := h
      exact Bool.and_eq_true_iff.mp hslot
  | list =>
      obtain ⟨hboth, hbefore⟩ := Bool.and_eq_true_iff.mp hslot
      obtain ⟨rfl, rfl | rfl⟩ := h
      · exact Bool.and_eq_true_iff.mp hboth
      · exact ⟨(Bool.and_eq_true_iff.mp hboth).1, hbefore⟩

/-! ## The word `void` -/

def voidToken : Token where
  kind := .inline
  text := "void"

/-- Is the slot not for a base that is spelled `void`? -/
def Slot.isVoidless : Slot → Bool
  | .token .base terminal | .option .base terminal => !terminal.accepts voidToken
  | _ => true

/-! ## Names and bases -/

/-- The form has the name that an extended attribute goes by, or the base that a type is built
around. -/
def Form.isNamed (form : Form) : Bool :=
  (form.construct != .extendedAttribute || form.slots.any (·.demands .name)) &&
    (!form.construct.isType || form.construct == .unionType || form.slots.any (·.demands .base))

/-! ## Numbers -/

/-- Can a construct of the category end in a number? -/
def Category.isOpen (category : Category) : Bool :=
  category.separator.isNone && category.symbol.isOpen

/-- The slot does not end in a number. -/
def Slot.isClosed : Slot → Bool
  | .token _ terminal | .option _ terminal =>
      !terminal.kinds.contains .integer && !terminal.kinds.contains .decimal
  | .node _ category | .nodeOption _ category | .many _ category | .list _ category _ _ _ =>
      !category.isOpen

/-- The slot is for any number of constructs, with nothing between them. -/
def Slot.repeats : Slot → Bool
  | .many _ _ => true
  | _ => false

/-- The slot begins with a punctuation mark. -/
def Slot.isMark : Slot → Bool
  | .token _ terminal => terminal.within { words := marks }
  | _ => false

/-- In this row of slots every number is followed by a mark, unless it ends the row and may do so. -/
def isSettled (mayEnd : Bool) : List Slot → Bool
  | [] => true
  | slot :: rest =>
      (slot.isClosed || !slot.repeats &&
        match rest with
        | [] => mayEnd
        | next :: _ => next.isMark) && isSettled mayEnd rest

/-! ## Every form -/

/-- Is the form one that the symbol may have? -/
def Form.isOrderly (symbol : Symbol) (form : Form) : Bool :=
  symbol.makes form.construct && form.slots.all (Slot.isApt form.construct) &&
    (symbol matches .returnType _ _ || !form.construct.isType || form.slots.all Slot.isVoidless) &&
    form.isNamed && isSettled symbol.isOpen form.slots

theorem isOrderly_of_mem_forms {extended : Bool} {symbol : Symbol} {form : Form}
    (hsymbol : symbol.isRegular = true) (hform : form ∈ symbol.forms extended) :
    form.isOrderly symbol = true := by
  refine List.all_eq_true.mp
    (?_ : (symbol.forms extended).all (·.isOrderly symbol) = true) form hform
  cases symbol with
  | type place limit => cases limit <;> cases extended <;> rfl
  | returnType place limit => cases limit <;> cases extended <;> rfl
  | operation isRegular limit =>
      cases isRegular <;> cases limit <;> first | rfl | cases hsymbol
  | stem stems place =>
      refine List.all_eq_true.mpr fun form hform => ?_
      obtain ⟨stem, -, hform⟩ := List.mem_flatMap.mp hform
      exact List.all_eq_true.mp (by cases stem <;> rfl : (stem.bareForms place .all).all
        (·.isOrderly (.stem stems place)) = true) form hform
  | wrappedToken kind => cases kind <;> first | rfl | cases hsymbol
  | eof => cases hsymbol
  | attributes mode => cases mode <;> rfl
  | «attribute» noInherit mustBeReadonly => cases noInherit <;> cases mustBeReadonly <;> rfl
  | special word =>
      simp only [Symbol.forms, Symbol.ownForms, specialForms]
      split <;> rfl
  | member body =>
      cases body with
      | interface legacy => cases legacy <;> rfl
      | mixin => rfl
      | _ => cases extended <;> rfl
  | callback | partialDefinition | namespaceDef | interfaceOrMixin | definition =>
      cases extended <;> rfl
  | _ => rfl

/-! ## The slots of a category -/

section

variable {extended : Bool} {category : Category} {form : Form}

theorem makes_of_mem_forms (hcategory : category.isRegular = true)
    (hform : form ∈ category.symbol.forms extended) :
    category.symbol.makes form.construct = true := by
  have horderly := isOrderly_of_mem_forms (Bool.and_eq_true_iff.mp hcategory).1 hform
  simp only [Form.isOrderly, Bool.and_eq_true] at horderly
  exact horderly.1.1.1.1

/-- The slots of a construct are for its attributes, those of its form, and for its separator. -/
theorem mem_slots_iff {slot : Slot} :
    slot ∈ category.slots form ↔
      (form.attributed = true ∧ slot = .node .attributes { symbol := .attributes category.mode }) ∨
        slot ∈ form.slots ∨ ∃ separator ∈ category.separator, slot = .word .separator separator := by
  cases h : form.attributed <;> simp [Category.slots, h, eq_comm]

theorem isApt_of_mem_slots (hcategory : category.isRegular = true)
    (hform : form ∈ category.symbol.forms extended) {slot : Slot}
    (hslot : slot ∈ category.slots form) : slot.isApt form.construct = true := by
  rcases mem_slots_iff.mp hslot with ⟨-, rfl⟩ | hown | ⟨separator, -, rfl⟩
  · rfl
  · have horderly := isOrderly_of_mem_forms (Bool.and_eq_true_iff.mp hcategory).1 hform
    simp only [Form.isOrderly, Bool.and_eq_true] at horderly
    exact List.all_eq_true.mp horderly.1.1.1.2 slot hown
  · rfl

/-- The type that a construct returns is the only one that may be spelled `void`. -/
theorem isVoidless_of_mem_slots (hcategory : category.isRegular = true)
    (hform : form ∈ category.symbol.forms extended) (htype : form.construct.isType = true)
    {slot : Slot} (hslot : slot ∈ category.slots form) :
    slot.isVoidless = true ∨
      ∃ place limit, category.symbol = .returnType place limit ∧ limit.isReturned = true ∧
        form = voidForm := by
  rcases mem_slots_iff.mp hslot with ⟨-, rfl⟩ | hown | ⟨separator, -, rfl⟩
  · exact Or.inl rfl
  · obtain ⟨symbol, mode, separator⟩ := category
    have hregular := (Bool.and_eq_true_iff.mp hcategory).1
    have horderly := isOrderly_of_mem_forms hregular hform
    simp only [Form.isOrderly, Bool.and_eq_true, htype, Bool.not_true, Bool.or_false] at horderly
    cases symbol with
    | returnType place limit =>
        rcases List.mem_append.mp hform with hplain | hvoid
        · have hplain := @isOrderly_of_mem_forms extended (.type place limit) form rfl hplain
          simp only [Form.isOrderly, Bool.and_eq_true, htype, Bool.not_true, Bool.or_false,
            Bool.false_or] at hplain
          exact Or.inl (List.all_eq_true.mp hplain.1.1.2 slot hown)
        · exact Or.inr ⟨place, limit, rfl, hregular, List.mem_singleton.mp hvoid⟩
    | _ => exact Or.inl (List.all_eq_true.mp (by simpa using horderly.1.1.2) slot hown)
  · exact Or.inl rfl

/-- A construct that has to be named has its name, and one that has to have a base has it. -/
theorem isNamed_of_mem_forms (hcategory : category.isRegular = true)
    (hform : form ∈ category.symbol.forms extended) : form.isNamed = true := by
  have horderly := isOrderly_of_mem_forms (Bool.and_eq_true_iff.mp hcategory).1 hform
  simp only [Form.isOrderly, Bool.and_eq_true] at horderly
  exact horderly.1.2

theorem isSettled_append_mark {mayEnd mayEnd' : Bool} {slots : List Slot} {slot : Slot}
    (h : isSettled mayEnd slots = true) (hclosed : slot.isClosed = true)
    (hmark : mayEnd = false ∨ slot.isMark = true) : isSettled mayEnd' (slots ++ [slot]) = true := by
  induction slots with
  | nil => simp [isSettled, hclosed]
  | cons first rest ih =>
      simp only [isSettled, Bool.and_eq_true] at h
      simp only [List.cons_append, isSettled, Bool.and_eq_true]
      refine ⟨?_, ih h.2⟩
      cases rest with
      | nil =>
          rcases hmark with rfl | hmark
          · have hfirst : first.isClosed = true := by simpa using h.1
            simp [hfirst]
          · simp only [Bool.or_eq_true, Bool.and_eq_true] at h ⊢
            exact h.1.imp_right fun h => ⟨h.1, hmark⟩
      | cons next rest => exact h.1

/-- In the slots of a category every number is followed by a mark, unless it ends the construct and
may do so. -/
theorem isSettled_slots (hcategory : category.isRegular = true)
    (hform : form ∈ category.symbol.forms extended) :
    isSettled category.isOpen (category.slots form) = true := by
  have horderly := isOrderly_of_mem_forms (Bool.and_eq_true_iff.mp hcategory).1 hform
  simp only [Form.isOrderly, Bool.and_eq_true] at horderly
  have hown : isSettled category.isOpen
      (form.slots ++ category.separator.toList.map (Slot.word .separator)) = true := by
    obtain ⟨symbol, mode, separator⟩ := category
    cases separator with
    | none => simpa [Category.isOpen] using horderly.2
    | some separator =>
        refine isSettled_append_mark horderly.2 rfl ?_
        simp only [Category.isRegular, Bool.and_eq_true, Bool.or_eq_true, Bool.not_eq_true',
          Option.all_some] at hcategory
        exact hcategory.2.imp_right fun hmark => by
          simpa [Slot.word, Slot.isMark, Terminal.within, Terminal.word] using hmark
  rw [Category.slots, List.append_assoc]
  split
  · simpa [isSettled, Slot.isClosed, Category.isOpen, Symbol.isOpen] using hown
  · exact hown

end

end WebIdl.Shape
