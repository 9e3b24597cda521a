import WebIdl.Proofs.Shape.Formed
import WebIdl.Proofs.Shape.Order

/-!
# Where the word `void` stands

The word `void` is the whole of a type that is returned and stands nowhere else: no other slot of the
grammar has room for it (`confinesVoid_of_mem_forms`).  Such a type has nothing inside it, so
although a walk visits a construct before what is inside, the types around `void` are met in the order
in which the word stands in the text (`Formed.showsVoid`).
-/

namespace WebIdl

/-- The word `void` that a type is built around. -/
def Node.voidBase? (node : Node) : Option Token :=
  (node.token? .base).filter fun base => node.construct.isType && base.isInline "void"

/-- The types around `void` in a walk over the construct are its words `void`, in their order. -/
def Node.ShowsVoid (node : Node) : Prop :=
  node.walk.filterMap Node.voidBase? = node.tokens.filter (·.isInline "void")

/-- The words of some parts are shown if those of every part are, and no part is one. -/
theorem filterMap_voidBase?_walkOf {parts : List Part}
    (htokens : ∀ role token, .token role token ∈ parts → token.isInline "void" = false)
    (hnodes : ∀ role node, .node role node ∈ parts → node.ShowsVoid) :
    (walkOf parts).filterMap Node.voidBase? = (tokensOf parts).filter (·.isInline "void") := by
  induction parts with
  | nil => simp [walkOf, tokensOf]
  | cons part parts ih =>
      have hrest := ih (fun role token h => htokens role token (List.mem_cons_of_mem _ h))
        fun role node h => hnodes role node (List.mem_cons_of_mem _ h)
      cases part with
      | token role token =>
          have hother := htokens role token List.mem_cons_self
          rw [walkOf, tokensOf, List.filter_cons_of_neg (by simp [hother]), hrest]
      | node role node =>
          have hnode : node.walk.filterMap Node.voidBase? = _ := hnodes role node List.mem_cons_self
          rw [walkOf, tokensOf, List.filterMap_append, List.filter_append, hnode, hrest]

namespace Shape

/-! ## Slots -/

/-- Does a construct of the category have no room for the word `void`, except as the whole of a type
that is returned? -/
def Category.confinesVoid (category : Category) : Bool :=
  category.separator != some "void" &&
    match category.symbol with
    | .wrappedToken kind => kind != .inline
    -- the word in front may be any
    | .special _ => false
    | .returnType _ _ => category.mode == .never && category.separator.isNone
    | _ => true

/-- Does the slot have no room for the word, except inside a construct that confines it? -/
def Slot.confinesVoid : Slot → Bool
  | .token _ terminal | .option _ terminal => !terminal.accepts voidToken
  | .node _ category | .nodeOption _ category | .many _ category => category.confinesVoid
  | .list _ category separator _ _ =>
      category.confinesVoid && (category.before separator).confinesVoid

theorem Slot.Holds.confinesVoid {slot : Slot} {role : Role} {category : Category}
    (h : slot.Holds role category) (hslot : slot.confinesVoid = true) :
    category.confinesVoid = true := by
  cases slot with
  | token | option => exact h.elim
  | node | nodeOption | many =>
      obtain ⟨-, rfl⟩ := h
      exact hslot
  | list =>
      obtain ⟨hinner, hbefore⟩ := Bool.and_eq_true_iff.mp hslot
      obtain ⟨-, rfl | rfl⟩ := h
      · exact hinner
      · exact hbefore

/-- A set of tokens that the word is not in has no token of this spelling. -/
theorem Terminal.isInline_void {terminal : Terminal} {token : Token}
    (hterminal : terminal.accepts voidToken = false) (h : terminal.accepts token = true) :
    token.isInline "void" = false := by
  rw [Bool.eq_false_iff]
  intro hvoid
  obtain ⟨hkind, htext⟩ : token.kind = .inline ∧ token.text = "void" := by
    simpa [Token.isInline] using hvoid
  rw [Terminal.accepts, hkind, htext] at h
  exact absurd (hterminal.symm.trans h) (by simp)

/-! ## Forms -/

/-- The slots of a form confine the word, unless the form is that of the word itself. -/
theorem confinesVoid_of_mem_forms {extended : Bool} {category : Category} {form : Form}
    (hcategory : category.confinesVoid = true) (hform : form ∈ category.symbol.forms extended) :
    form.slots.all Slot.confinesVoid = true ∨
      form = voidForm ∧ category.mode = .never ∧ category.separator = none := by
  obtain ⟨symbol, mode, separator⟩ := category
  have hown := (Bool.and_eq_true_iff.mp hcategory).2
  have hall (h : (symbol.forms extended).all (·.slots.all Slot.confinesVoid) = true) :
      form.slots.all Slot.confinesVoid = true := List.all_eq_true.mp h form hform
  have htypes (place : Option String) (limit : Limit) :
      (typeForms extended place limit).all (·.slots.all Slot.confinesVoid) = true := by
    cases limit <;> cases extended <;> rfl
  -- the word is written out in one form of one symbol only
  cases symbol with
  | returnType place limit =>
      rcases List.mem_append.mp hform with hplain | hvoid
      · exact Or.inl (List.all_eq_true.mp (htypes place limit) form hplain)
      · exact Or.inr ⟨List.mem_singleton.mp hvoid, by simpa using hown⟩
  | type place limit => exact Or.inl (hall (htypes place limit))
  | operation isRegular limit => exact Or.inl (hall (by cases isRegular <;> rfl))
  | stem stems place =>
      obtain ⟨stem, -, hstem⟩ := List.mem_flatMap.mp hform
      exact Or.inl (List.all_eq_true.mp (by cases stem <;> rfl :
        (stem.bareForms place .all).all (·.slots.all Slot.confinesVoid) = true) form hstem)
  | wrappedToken kind =>
      refine Or.inl (hall ?_)
      cases kind <;> first | rfl | cases hown
  | attributes mode => exact Or.inl (hall (by cases mode <;> rfl))
  | «attribute» noInherit mustBeReadonly =>
      exact Or.inl (hall (by cases noInherit <;> cases mustBeReadonly <;> rfl))
  | special word => cases hown
  | member body =>
      refine Or.inl (hall ?_)
      cases body with
      | interface legacy => cases legacy <;> rfl
      | mixin => rfl
      | _ => cases extended <;> rfl
  | callback | partialDefinition | namespaceDef | interfaceOrMixin | definition =>
      refine Or.inl (hall ?_)
      cases extended <;> rfl
  | _ => exact Or.inl (hall rfl)

theorem confinesVoid_of_mem_slots {category : Category} {form : Form} {slot : Slot}
    (hcategory : category.confinesVoid = true) (hform : form.slots.all Slot.confinesVoid = true)
    (hslot : slot ∈ category.slots form) : slot.confinesVoid = true := by
  rcases mem_slots_iff.mp hslot with ⟨-, rfl⟩ | hown | ⟨separator, hseparator, rfl⟩
  · rfl
  · exact List.all_eq_true.mp hform slot hown
  · have hother : separator ≠ "void" := by
      rintro rfl
      have hfree := (Bool.and_eq_true_iff.mp hcategory).1
      rw [Option.mem_def.mp hseparator] at hfree
      cases hfree
    simpa [Slot.word, Slot.confinesVoid, Terminal.word, Terminal.accepts, voidToken]
      using hother.symm

/-! ## Constructs -/

section

variable {extended : Bool} {category : Category}

/-- A type that is the word `void`, without attributes and separator. -/
theorem showsVoid_of_voidForm {label : Label} {parts : List Part}
    (hmode : category.mode = .never) (hseparator : category.separator = none)
    (hconstruct : label.construct = .type)
    (hparts : Fits (Formed extended) (category.slots voidForm) parts) :
    (Node.mk label parts).ShowsVoid := by
  simp only [Category.slots, voidForm, hmode, hseparator, if_true, Option.toList_none, List.map_nil,
    List.append_nil, List.singleton_append, fits_node, Slot.word, fits_token, fits_nil] at hparts
  obtain ⟨attributes, rest, rfl, ⟨hform, -, -, hnone⟩, word, last, rfl, hword, rfl⟩ := hparts
  -- the attributes are not written
  obtain rfl := List.mem_singleton.mp hform
  obtain rfl := fits_nil.mp hnone
  have hvoid : word.isInline "void" = true := by
    simpa [Terminal.word, Terminal.accepts, Token.isInline] using hword
  have hplain : label.construct.isType = true := by
    rw [hconstruct]
    rfl
  have hbase {attributes : Node} : (Node.mk label [.node .attributes attributes,
      .token .base word]).voidBase? = some word := by
    simp [Node.voidBase?, hvoid, hplain]
  have hnothing {own : Label} : (Node.mk own []).voidBase? = none := by simp [Node.voidBase?]
  rw [Node.ShowsVoid, Node.walk, List.filterMap_cons_some hbase]
  simp [walkOf, Node.walk, List.filterMap_cons_none hnothing, Node.tokens, tokensOf, hvoid]

/-- The types around `void` in a walk over a construct are its words `void`, in their order. -/
theorem Formed.showsVoid {node : Node} (h : Formed extended category node)
    (hcategory : category.confinesVoid = true) : node.ShowsVoid := by
  refine @Formed.induct extended _ _
    (fun category node => category.confinesVoid = true → node.ShowsVoid)
    (fun category form label parts hform hconstruct _ hparts hcategory => ?_) h hcategory
  rcases confinesVoid_of_mem_forms hcategory hform with hslots | ⟨rfl, hmode, hseparator⟩
  · -- nothing but what is inside the construct can be the word
    have hconfines {slot : Slot} (hslot : slot ∈ category.slots form) : slot.confinesVoid = true :=
      confinesVoid_of_mem_slots hcategory hslots hslot
    have htokens : ∀ role token, .token role token ∈ parts → token.isInline "void" = false := by
      intro role token htoken
      obtain ⟨terminal, hslot, haccepts⟩ := hparts.exists_accepts_of_mem htoken
      have hterminal : terminal.accepts voidToken = false := by
        rcases hslot with hslot | hslot <;> simpa [Slot.confinesVoid] using hconfines hslot
      exact Terminal.isInline_void hterminal haccepts
    have hnodes : ∀ role node, .node role node ∈ parts → node.ShowsVoid := by
      intro role node hnode
      obtain ⟨slot, hslot, own, hholds, -, hshows⟩ := hparts.exists_holds hnode
      exact hshows (hholds.confinesVoid (hconfines hslot))
    have hbase : (Node.mk label parts).voidBase? = none := by
      rw [Node.voidBase?, Option.filter_eq_none_iff]
      intro base hbase hvoid
      have hother := htokens .base base (Node.mem_parts_of_token? hbase)
      rw [hother, Bool.and_false] at hvoid
      cases hvoid
    rw [Node.ShowsVoid, Node.walk, Node.tokens, List.filterMap_cons_none hbase]
    exact filterMap_voidBase?_walkOf htokens hnodes
  · exact showsVoid_of_voidForm hmode hseparator hconstruct (hparts.imp fun _ _ h => h.1)

end

end Shape

end WebIdl
