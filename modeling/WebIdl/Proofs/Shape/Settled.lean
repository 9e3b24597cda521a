import Mathlib.Data.List.Chain
import WebIdl.Proofs.Shape.Order

/-!
# Numbers are followed by marks

In a tree of the grammar every number is followed by a punctuation mark, so a change to a word never
changes what is read of a number before it.
-/

namespace WebIdl

/-- Is the token a number? -/
def Token.isNumber (token : Token) : Bool :=
  token.kind == .integer || token.kind == .decimal

/-- Is the token a mark that can follow a number? -/
def Token.isMark (token : Token) : Bool :=
  token.kind == .inline && Shape.marks.contains token.text

namespace Shape

/-- Every number among the tokens is followed by a mark; only if `mayEnd` is the last one a number. -/
structure Settled (mayEnd : Bool) (tokens : List Token) : Prop where
  chain : tokens.IsChain fun token next => token.isNumber = true → next.isMark = true
  last : mayEnd = false → ∀ token ∈ tokens.getLast?, token.isNumber = false

namespace Settled

variable {mayEnd : Bool} {front back : List Token}

theorem nil : Settled mayEnd [] where
  chain := .nil
  last _ _ h := by simp at h

theorem weaken (h : Settled mayEnd front) {other : Bool} (hother : other = false → mayEnd = false) :
    Settled other front where
  chain := h.chain
  last hfalse := h.last (hother hfalse)

theorem append_of_closed (hfront : Settled false front) (hback : Settled mayEnd back) :
    Settled mayEnd (front ++ back) where
  chain := by
    refine hfront.chain.append hback.chain fun token htoken next _ hnumber => ?_
    rw [hfront.last rfl token htoken] at hnumber
    cases hnumber
  last hend token htoken := by
    rw [List.getLast?_append, Option.mem_def, Option.or_eq_some_iff] at htoken
    rcases htoken with hlast | ⟨-, hlast⟩
    · exact hback.last hend token hlast
    · exact hfront.last rfl token hlast

theorem append_of_mark {mayEndFront : Bool} {mark : Token} (hmark : mark.isMark = true)
    (hfront : Settled mayEndFront front) (hback : Settled mayEnd (mark :: back)) :
    Settled mayEnd (front ++ mark :: back) where
  chain := by
    refine hfront.chain.append hback.chain fun token _ next hnext _ => ?_
    obtain rfl : mark = next := by simpa using hnext
    exact hmark
  last hend token htoken := by
    refine hback.last hend token ?_
    rwa [List.getLast?_append_of_ne_nil _ (List.cons_ne_nil _ _)] at htoken

end Settled

/-! ## The tokens of slots -/

/-- The tokens of a construct of the category are settled. -/
def Settles (category : Category) (node : Node) : Prop :=
  Settled category.isOpen node.tokens

theorem settled_token (role : Role) {terminal : Terminal} {token : Token}
    (h : terminal.accepts token = true) :
    Settled (!(Slot.token role terminal).isClosed) [token] where
  chain := .singleton token
  last hclosed other hother := by
    obtain rfl : token = other := by simpa using hother
    simp only [Slot.isClosed, Bool.not_eq_false', Bool.and_eq_true, Bool.not_eq_true',
      List.contains_eq_mem, decide_eq_false_iff_not] at hclosed
    simp only [Terminal.accepts, Bool.and_eq_true, Bool.or_eq_true, List.contains_eq_mem,
      decide_eq_true_eq, beq_iff_eq] at h
    rw [Token.isNumber, Bool.or_eq_false_iff, beq_eq_false_iff_ne, beq_eq_false_iff_ne]
    rcases h.1 with hkind | ⟨hkind, -⟩
    · exact ⟨fun heq => hclosed.1 (heq ▸ hkind), fun heq => hclosed.2 (heq ▸ hkind)⟩
    · simp [hkind]

theorem settled_flatMap {category : Category} {nodes : List Node}
    (h : ∀ node ∈ nodes, Settles category node) (hclosed : category.isOpen = false) :
    Settled false (nodes.flatMap Node.tokens) := by
  induction nodes with
  | nil => exact .nil
  | cons node nodes ih =>
      have hnode : Settled false node.tokens := hclosed ▸ h node List.mem_cons_self
      exact hnode.append_of_closed
        (ih fun other hother => h other (List.mem_cons_of_mem _ hother))

theorem Items.settled {category : Category} {separator : String} {mayDangle : Bool}
    {nodes : List Node} (h : Items Settles nodes category separator mayDangle) :
    Settled category.isOpen (nodes.flatMap Node.tokens) := by
  induction h with
  | nil => exact .nil
  | last hnode => simpa [Settles] using hnode
  | cons hnode _ _ ih =>
      -- the separator behind the item is no number
      have hitem : Settled false _ := hnode
      exact hitem.append_of_closed ih

theorem settled_slot {slot : Slot} {parts : List Part} (h : Fits Settles [slot] parts)
    (hslot : slot.isClosed = true ∨ slot.repeats = false) :
    Settled (!slot.isClosed) (tokensOf parts) := by
  -- only a slot that does not repeat may be open
  cases slot with
  | token role terminal =>
      obtain ⟨token, rest, rfl, htoken, hrest⟩ := fits_token.mp h
      obtain rfl := fits_nil.mp hrest
      exact settled_token role htoken
  | option role terminal =>
      obtain ⟨token, rest, rfl, htoken, hrest⟩ := fits_option.mp h
      obtain rfl := fits_nil.mp hrest
      cases token with
      | none => exact .nil
      | some token => exact settled_token role (htoken token rfl)
  | node role category =>
      obtain ⟨node, rest, rfl, hnode, hrest⟩ := fits_node.mp h
      obtain rfl := fits_nil.mp hrest
      simpa [Slot.isClosed, tokensOf, Settles] using hnode
  | nodeOption role category =>
      obtain ⟨node, rest, rfl, hnode, hrest⟩ := fits_nodeOption.mp h
      obtain rfl := fits_nil.mp hrest
      cases node with
      | none => exact .nil
      | some node => simpa [Slot.isClosed, Part.ofNode?, tokensOf, Settles] using hnode node rfl
  | many role category =>
      obtain ⟨nodes, rest, rfl, hnodes, hrest⟩ := fits_many.mp h
      obtain rfl := fits_nil.mp hrest
      have hclosed : category.isOpen = false := by simpa [Slot.isClosed, Slot.repeats] using hslot
      simpa [Slot.isClosed, hclosed] using settled_flatMap hnodes hclosed
  | list role category separator least mayDangle =>
      obtain ⟨nodes, rest, rfl, hnodes, -, hrest⟩ := fits_list.mp h
      obtain rfl := fits_nil.mp hrest
      simpa [Slot.isClosed] using hnodes.settled

theorem Fits.settled {mayEnd : Bool} {slots : List Slot} {parts : List Part}
    (h : Fits Settles slots parts) (hslots : isSettled mayEnd slots = true) :
    Settled mayEnd (tokensOf parts) := by
  induction slots generalizing parts with
  | nil =>
      obtain rfl := fits_nil.mp h
      exact .nil
  | cons slot rest ih =>
      obtain ⟨own, others, rfl, hown, hothers⟩ :=
        (@fits_append Settles parts [slot] rest).mp h
      simp only [isSettled, Bool.and_eq_true, Bool.or_eq_true, Bool.not_eq_true'] at hslots
      have hback := ih hothers hslots.2
      rw [tokensOf_append]
      by_cases hclosed : slot.isClosed = true
      · have hfront := settled_slot hown (Or.inl hclosed)
        rw [hclosed] at hfront
        exact hfront.append_of_closed hback
      · -- what does not end with a mark is followed by one
        obtain ⟨hrepeats, hnext⟩ := hslots.1.resolve_left hclosed
        have hfront := settled_slot hown (Or.inr hrepeats)
        cases rest with
        | nil =>
            obtain rfl := fits_nil.mp hothers
            simp only [tokensOf, List.append_nil]
            exact hfront.weaken fun hfalse => absurd (hfalse.symm.trans hnext) (by decide)
        | cons next rest =>
            cases next with
            | token role terminal =>
                obtain ⟨token, more, rfl, htoken, -⟩ := fits_token.mp hothers
                refine hfront.append_of_mark ?_ hback
                simpa [Token.isMark, Terminal.accepts] using
                  Terminal.accepts_of_within hnext htoken
            | _ => cases hnext

/-- In a tree of the grammar every number is followed by a mark. -/
theorem Conforms.settled {extended : Bool} {category : Category} {node : Node}
    (h : Conforms extended category node) (hcategory : category.isRegular = true) :
    Settled category.isOpen node.tokens := by
  refine h.induct (motive := fun category node => category.isRegular = true →
    Settles category node) (fun category form parts hform hparts hcategory => ?_) hcategory
  rw [Settles, Node.tokens]
  refine Fits.settled (hparts.imp_of_holds fun slot hslot role inner hholds node hnode => ?_)
    (isSettled_slots hcategory hform)
  exact hnode.2 (hholds.isApt (isApt_of_mem_slots hcategory hform hslot)).2

/-! ## Lexemes only -/

theorem Terminal.kind_ne {terminal : Terminal} {token : Token} (hterminal : terminal.isLexical = true)
    (h : terminal.accepts token = true) : token.kind ≠ .other ∧ token.kind ≠ .eof := by
  simp only [Terminal.isLexical, Bool.and_eq_true, Bool.not_eq_true', List.contains_eq_mem,
    decide_eq_false_iff_not] at hterminal
  simp only [Terminal.accepts, Bool.and_eq_true, Bool.or_eq_true, List.contains_eq_mem,
    decide_eq_true_eq, beq_iff_eq] at h
  rcases h.1 with hkind | ⟨hkind, -⟩
  · exact ⟨fun heq => hterminal.1 (heq ▸ hkind), fun heq => hterminal.2 (heq ▸ hkind)⟩
  · simp [hkind]

/-- The tokens of the construct are lexemes. -/
def IsLexical (node : Node) : Prop :=
  ∀ token ∈ node.tokens, token.kind ≠ .other ∧ token.kind ≠ .eof

theorem Items.forall {belongs : Category → Node → Prop} {P : Node → Prop} {category : Category}
    {separator : String} {mayDangle : Bool} {nodes : List Node}
    (h : Items belongs nodes category separator mayDangle)
    (hnode : ∀ own node, belongs own node → P node) : ∀ node ∈ nodes, P node := by
  induction h with
  | nil => simp
  | last hlast => simpa using hnode _ _ hlast
  | cons hfirst _ _ ih => exact List.forall_mem_cons.mpr ⟨hnode _ _ hfirst, ih⟩

theorem Fits.isLexical {construct : Construct} {slots : List Slot} {parts : List Part}
    (h : Fits (fun _ node => IsLexical node) slots parts)
    (hslots : ∀ slot ∈ slots, slot.isApt construct = true) :
    ∀ token ∈ tokensOf parts, token.kind ≠ .other ∧ token.kind ≠ .eof := by
  have hflat {nodes : List Node} (hnodes : ∀ node ∈ nodes, IsLexical node) :
      ∀ token ∈ nodes.flatMap Node.tokens, token.kind ≠ .other ∧ token.kind ≠ .eof := by
    intro token htoken
    obtain ⟨node, hmem, hnode⟩ := List.mem_flatMap.mp htoken
    exact hnodes node hmem token hnode
  induction h with
  | nil => simp [tokensOf]
  | token htoken _ ih =>
      have hrest := ih fun slot hslot => hslots slot (List.mem_cons_of_mem _ hslot)
      rw [tokensOf, List.forall_mem_cons]
      exact ⟨Terminal.kind_ne (hslots _ List.mem_cons_self) htoken, hrest⟩
  | option htoken _ ih =>
      have hrest := ih fun slot hslot => hslots slot (List.mem_cons_of_mem _ hslot)
      rw [tokensOf_append, tokensOf_ofToken?, List.forall_mem_append]
      refine ⟨fun token hmem => ?_, hrest⟩
      exact Terminal.kind_ne (hslots _ List.mem_cons_self) (htoken token (by simpa using hmem))
  | node hnode _ ih =>
      have hrest := ih fun slot hslot => hslots slot (List.mem_cons_of_mem _ hslot)
      rw [tokensOf, List.forall_mem_append]
      exact ⟨hnode, hrest⟩
  | nodeOption hnode _ ih =>
      have hrest := ih fun slot hslot => hslots slot (List.mem_cons_of_mem _ hslot)
      rw [tokensOf_append, tokensOf_ofNode?, List.forall_mem_append]
      exact ⟨hflat fun node hmem => hnode node (by simpa using hmem), hrest⟩
  | many hnodes _ ih =>
      have hrest := ih fun slot hslot => hslots slot (List.mem_cons_of_mem _ hslot)
      rw [tokensOf_append, tokensOf_ofNodes, List.forall_mem_append]
      exact ⟨hflat hnodes, hrest⟩
  | list hnodes _ _ ih =>
      have hrest := ih fun slot hslot => hslots slot (List.mem_cons_of_mem _ hslot)
      rw [tokensOf_append, tokensOf_ofNodes, List.forall_mem_append]
      exact ⟨hflat (hnodes.forall fun _ _ hnode => hnode), hrest⟩

/-- In a tree of the grammar every token is a lexeme. -/
theorem Conforms.isLexical {extended : Bool} {category : Category} {node : Node}
    (h : Conforms extended category node) (hcategory : category.isRegular = true) :
    IsLexical node := by
  refine h.induct (motive := fun category node => category.isRegular = true → IsLexical node)
    (fun category form parts hform hparts hcategory => ?_) hcategory
  rw [IsLexical, Node.tokens]
  refine Fits.isLexical (hparts.imp_of_holds fun slot hslot role inner hholds node hnode => ?_)
    fun slot hslot => isApt_of_mem_slots hcategory hform hslot
  exact hnode.2 (hholds.isApt (isApt_of_mem_slots hcategory hform hslot)).2

end Shape

end WebIdl
