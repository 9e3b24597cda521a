import WebIdl.Proofs.Shape.Order
import WebIdl.Proofs.Shape.Formed
import WebIdl.Proofs.Shape.Progress

/-!
# Where an angle bracket stands

The tokens of a tree come from its leaves, and a leaf fills a slot.  The grammar has the mark `<` in
few rows, and always right behind the base of a construct and in front of a part of it
(`isBracketed`).  So a construct neither begins nor ends with the mark (`Formed.bracket_inside`), and
the tokens on both sides of it belong to the construct that has the mark among its own parts.

Definitions are looked at in the extended language, down to the smallest constructs in them
(`Symbol.isInner`).
-/

namespace WebIdl.Shape

/-! ## Leaves -/

/-- A token of a row of parts is one of the parts, or a token of one of the constructs among them. -/
theorem tokensOf_eq_append {parts : List Part} {before after : List Token} {token : Token}
    (h : tokensOf parts = before ++ token :: after) :
    (∃ front role back, parts = front ++ .token role token :: back ∧ tokensOf front = before ∧
        tokensOf back = after) ∨
      ∃ front role child back first last, parts = front ++ .node role child :: back ∧
        child.tokens = first ++ token :: last ∧ before = tokensOf front ++ first ∧
        after = last ++ tokensOf back := by
  induction parts generalizing before with
  | nil => simp [tokensOf] at h
  | cons part parts ih =>
      cases part with
      | token own leaf =>
          cases before with
          | nil =>
              obtain ⟨rfl, hrest⟩ := List.cons.inj h
              exact Or.inl ⟨[], own, parts, rfl, rfl, hrest⟩
          | cons head before =>
              obtain ⟨rfl, hrest⟩ := List.cons.inj h
              rcases ih hrest with ⟨front, role, back, rfl, rfl, rfl⟩ |
                ⟨front, role, child, back, first, last, rfl, hchild, rfl, rfl⟩
              · exact Or.inl ⟨.token own leaf :: front, role, back, rfl, rfl, rfl⟩
              · exact Or.inr ⟨.token own leaf :: front, role, child, back, first, last, rfl, hchild,
                  rfl, rfl⟩
      | node own inner =>
          rw [tokensOf] at h
          -- the token stands inside the first child or behind it
          have hsplit : (∃ last, inner.tokens = before ++ token :: last ∧
                after = last ++ tokensOf parts) ∨
              ∃ others, before = inner.tokens ++ others ∧
                tokensOf parts = others ++ token :: after := by
            rcases List.append_eq_append_iff.mp h with ⟨others, hothers⟩ | ⟨_ | ⟨head, last⟩, hinner,
              hrest⟩
            · exact Or.inr ⟨others, hothers⟩
            · exact Or.inr ⟨[], by simpa using hinner.symm, hrest.symm⟩
            · obtain ⟨rfl, rfl⟩ := List.cons.inj hrest
              exact Or.inl ⟨last, hinner, rfl⟩
          rcases hsplit with ⟨last, hinner, rfl⟩ | ⟨others, rfl, hothers⟩
          · exact Or.inr ⟨[], own, inner, parts, before, last, rfl, hinner, rfl, rfl⟩
          · rcases ih hothers with ⟨front, role, back, rfl, rfl, rfl⟩ |
              ⟨front, role, child, back, first, last, rfl, hchild, rfl, rfl⟩
            · exact Or.inl ⟨.node own inner :: front, role, back, rfl, rfl, rfl⟩
            · exact Or.inr ⟨.node own inner :: front, role, child, back, first, last, rfl, hchild,
                by rw [tokensOf, List.append_assoc], rfl⟩

/-- Does the slot take the token for itself? -/
def Slot.takes (token : Token) : Slot → Bool
  | .token _ terminal | .option _ terminal => terminal.accepts token
  | _ => false

section

variable {belongs : Category → Node → Prop} {slots : List Slot} {parts front back : List Part}

theorem ofNodes_append_eq {own role : Role} {nodes : List Node} {token : Token}
    (h : Part.ofNodes own nodes ++ parts = front ++ .token role token :: back) :
    ∃ rest, front = Part.ofNodes own nodes ++ rest ∧ parts = rest ++ .token role token :: back := by
  rcases List.append_eq_append_iff.mp h with ⟨rest, hfront, hparts⟩ | ⟨rest, hnodes, hback⟩
  · exact ⟨rest, hfront, hparts⟩
  · cases rest with
    | nil => exact ⟨[], by simpa using hnodes.symm, hback.symm⟩
    | cons head rest =>
        obtain ⟨rfl, -⟩ := List.cons.inj hback
        have hmem : Part.token role token ∈ Part.ofNodes own nodes := by simp [hnodes]
        obtain ⟨node, -, hnode⟩ := List.mem_map.mp hmem
        cases hnode

/-- A token among the parts fills a slot, and the parts around it fill those around the slot. -/
theorem Fits.split_token (h : Fits belongs slots parts) {role : Role} {token : Token}
    (hparts : parts = front ++ .token role token :: back) :
    ∃ first slot last, slots = first ++ slot :: last ∧ slot.takes token = true ∧
      Fits belongs first front ∧ Fits belongs last back := by
  -- the part is the one that fills the first slot, or it stands behind it
  induction h generalizing front with
  | nil => simp at hparts
  | @token own terminal leaf slots rest htoken hrest ih =>
      cases front with
      | nil =>
          obtain ⟨heq, rfl⟩ := List.cons.inj hparts
          obtain ⟨-, rfl⟩ := Part.token.inj heq
          exact ⟨[], _, slots, rfl, htoken, .nil, hrest⟩
      | cons head front =>
          obtain ⟨rfl, hothers⟩ := List.cons.inj hparts
          obtain ⟨first, slot, last, rfl, htakes, hfirst, hlast⟩ := ih hothers
          exact ⟨_ :: first, slot, last, rfl, htakes, .token htoken hfirst, hlast⟩
  | @option own terminal leaf slots rest htoken hrest ih =>
      cases leaf with
      | none =>
          obtain ⟨first, slot, last, rfl, htakes, hfirst, hlast⟩ := ih hparts
          exact ⟨_ :: first, slot, last, rfl, htakes,
            @Fits.option _ own terminal none _ _ (by simp) hfirst, hlast⟩
      | some leaf =>
          cases front with
          | nil =>
              obtain ⟨heq, rfl⟩ := List.cons.inj hparts
              obtain ⟨-, rfl⟩ := Part.token.inj heq
              exact ⟨[], _, slots, rfl, htoken _ rfl, .nil, hrest⟩
          | cons head front =>
              obtain ⟨rfl, hothers⟩ := List.cons.inj hparts
              obtain ⟨first, slot, last, rfl, htakes, hfirst, hlast⟩ := ih hothers
              exact ⟨_ :: first, slot, last, rfl, htakes,
                @Fits.option _ own terminal (some leaf) _ _ htoken hfirst, hlast⟩
  | node hnode _ ih =>
      cases front with
      | nil => cases (List.cons.inj hparts).1
      | cons head front =>
          obtain ⟨rfl, hothers⟩ := List.cons.inj hparts
          obtain ⟨first, slot, last, rfl, htakes, hfirst, hlast⟩ := ih hothers
          exact ⟨_ :: first, slot, last, rfl, htakes, .node hnode hfirst, hlast⟩
  | nodeOption hnode _ ih =>
      -- a slot of nodes is not filled by a token
      obtain ⟨rest, rfl, hrest⟩ := ofNodes_append_eq hparts
      obtain ⟨first, slot, last, rfl, htakes, hfirst, hlast⟩ := ih hrest
      exact ⟨_ :: first, slot, last, rfl, htakes, .nodeOption hnode hfirst, hlast⟩
  | many hnodes _ ih =>
      obtain ⟨rest, rfl, hrest⟩ := ofNodes_append_eq hparts
      obtain ⟨first, slot, last, rfl, htakes, hfirst, hlast⟩ := ih hrest
      exact ⟨_ :: first, slot, last, rfl, htakes, .many hnodes hfirst, hlast⟩
  | list hnodes hleast _ ih =>
      obtain ⟨rest, rfl, hrest⟩ := ofNodes_append_eq hparts
      obtain ⟨first, slot, last, rfl, htakes, hfirst, hlast⟩ := ih hrest
      exact ⟨_ :: first, slot, last, rfl, htakes, .list hnodes hleast hfirst, hlast⟩

end

/-! ## One construct in place of another -/

section

variable {belongs result : Category → Node → Prop} {child : Node}

theorem Items.replace {nodes front back : List Node} {category : Category} {separator : String}
    {mayDangle : Bool} (h : Items belongs nodes category separator mayDangle)
    (hnodes : nodes = front ++ child :: back)
    (himp : ∀ category node, belongs category node → result category node) :
    ∃ own, (category = own ∨ category.before separator = own) ∧ belongs own child ∧
      ∀ changed, result own changed →
        Items result (front ++ changed :: back) category separator mayDangle := by
  induction h generalizing front with
  | nil => simp at hnodes
  | last hnode =>
      obtain ⟨rfl, heq⟩ | ⟨-, heq⟩ := List.singleton_eq_append_iff.mp hnodes
      swap
      · cases heq
      obtain ⟨rfl, rfl⟩ := List.cons.inj heq
      exact ⟨_, Or.inl rfl, hnode, fun changed hchanged => .last hchanged⟩
  | cons hnode hlast hothers ih =>
      cases front with
      | nil =>
          obtain ⟨rfl, rfl⟩ := List.cons.inj hnodes
          exact ⟨_, Or.inr rfl, hnode, fun changed hchanged =>
            .cons hchanged hlast (hothers.imp himp)⟩
      | cons head front =>
          obtain ⟨rfl, rfl⟩ := List.cons.inj hnodes
          obtain ⟨own, hown, hchild, hreplace⟩ := ih rfl
          refine ⟨own, hown, hchild, fun changed hchanged => ?_⟩
          exact .cons (himp _ _ hnode) (by simp) (hreplace changed hchanged)

/-- A construct among those of one role, or behind them. -/
theorem ofNodes_append_cases {own role : Role} {nodes : List Node} {parts front back : List Part}
    (h : Part.ofNodes own nodes ++ parts = front ++ .node role child :: back) :
    (∃ first last, own = role ∧ nodes = first ++ child :: last ∧ front = Part.ofNodes own first ∧
        back = Part.ofNodes own last ++ parts) ∨
      ∃ rest, front = Part.ofNodes own nodes ++ rest ∧ parts = rest ++ .node role child :: back := by
  rcases List.append_eq_append_iff.mp h with ⟨rest, hfront, hparts⟩ | ⟨rest, hnodes, hback⟩
  · exact Or.inr ⟨rest, hfront, hparts⟩
  · cases rest with
    | nil => exact Or.inr ⟨[], by simpa using hnodes.symm, hback.symm⟩
    | cons head rest =>
        obtain ⟨rfl, rfl⟩ := List.cons.inj hback
        obtain ⟨first, others, rfl, hfirst, hothers⟩ := List.map_eq_append_iff.mp hnodes
        obtain ⟨node, last, rfl, hnode, hlast⟩ := List.map_eq_cons_iff.mp hothers
        obtain ⟨rfl, rfl⟩ := Part.node.inj hnode
        exact Or.inl ⟨first, last, rfl, rfl, hfirst.symm, congrArg (· ++ parts) hlast.symm⟩

/-- A construct in the role fills a slot of the row, and others may stand in its place: those of the
same category, and, if the slot is for exactly one construct, those of another category with a slot
for it.  What is known of the construct (`belongs`) may be more than what it takes to fill the slot
(`result`). -/
def Replaceable (belongs result : Category → Node → Prop) (slots : List Slot) (front : List Part)
    (role : Role) (child : Node) (back : List Part) : Prop :=
  ∃ first slot last category, slots = first ++ slot :: last ∧ slot.Holds role category ∧
    belongs category child ∧
    (∀ changed, result category changed →
      Fits result slots (front ++ .node role changed :: back)) ∧
    (slot = .node role category → ∀ own changed, result own changed →
      Fits result (first ++ .node role own :: last) (front ++ .node role changed :: back))

/-- A construct behind the first slot. -/
theorem Replaceable.cons {slot : Slot} {slots : List Slot} {front back : List Part} {role : Role}
    (first : List Part)
    (hfirst : ∀ slots rest, Fits result slots rest → Fits result (slot :: slots) (first ++ rest))
    (h : Replaceable belongs result slots front role child back) :
    Replaceable belongs result (slot :: slots) (first ++ front) role child back := by
  obtain ⟨before, inner, after, category, rfl, hholds, hchild, hsame, hother⟩ := h
  refine ⟨slot :: before, inner, after, category, rfl, hholds, hchild, ?_, ?_⟩
  · intro changed hchanged
    rw [List.append_assoc]
    exact hfirst _ _ (hsame changed hchanged)
  · intro hinner own changed hchanged
    rw [List.append_assoc]
    exact hfirst _ _ (hother hinner own changed hchanged)

/-- Every construct among the parts of a row is replaceable. -/
theorem Fits.replaceable {slots : List Slot} {parts front back : List Part}
    (h : Fits belongs slots parts) {role : Role}
    (hparts : parts = front ++ .node role child :: back)
    (himp : ∀ category node, belongs category node → result category node) :
    Replaceable belongs result slots front role child back := by
  -- as for tokens, but the slot of a child can hold others beside it
  induction h generalizing front with
  | nil => simp at hparts
  | token htoken _ ih =>
      cases front with
      | nil => cases (List.cons.inj hparts).1
      | cons head front =>
          obtain ⟨rfl, hothers⟩ := List.cons.inj hparts
          exact (ih hothers).cons [_] fun slots rest hrest => .token htoken hrest
  | @option own terminal leaf slots rest htoken hrest ih =>
      cases leaf with
      | none =>
          exact (ih hparts).cons [] fun slots rest hrest =>
            @Fits.option _ own terminal none _ _ (by simp) hrest
      | some leaf =>
          cases front with
          | nil => cases (List.cons.inj hparts).1
          | cons head front =>
              obtain ⟨rfl, hothers⟩ := List.cons.inj hparts
              exact (ih hothers).cons [_] fun slots rest hrest =>
                @Fits.option _ own terminal (some leaf) _ _ htoken hrest
  | @node own category node slots rest hnode hrest ih =>
      cases front with
      | nil =>
          obtain ⟨heq, rfl⟩ := List.cons.inj hparts
          obtain ⟨rfl, rfl⟩ := Part.node.inj heq
          exact ⟨[], _, slots, category, rfl, ⟨rfl, rfl⟩, hnode,
            fun changed hchanged => .node hchanged (hrest.imp himp),
            fun _ own changed hchanged => .node hchanged (hrest.imp himp)⟩
      | cons head front =>
          obtain ⟨rfl, hothers⟩ := List.cons.inj hparts
          exact (ih hothers).cons [_] fun slots rest hrest => .node (himp _ _ hnode) hrest
  | @nodeOption own category node slots rest hnode hrest ih =>
      rcases ofNodes_append_cases hparts with ⟨first, last, rfl, hnodes, rfl, rfl⟩ |
        ⟨front, rfl, hothers⟩
      · cases node with
        | none => simp at hnodes
        | some node =>
            obtain ⟨rfl, heq⟩ | ⟨-, heq⟩ := List.singleton_eq_append_iff.mp hnodes
            swap
            · cases heq
            obtain ⟨rfl, rfl⟩ := List.cons.inj heq
            refine ⟨[], _, slots, category, rfl, ⟨rfl, rfl⟩, hnode _ rfl, fun changed hchanged => ?_,
              fun heq => (by cases heq)⟩
            exact @Fits.nodeOption _ own category (some changed) _ _ (by simpa using hchanged)
              (hrest.imp himp)
      · exact (ih hothers).cons _ fun slots rest hrest =>
          .nodeOption (fun found hfound => himp _ _ (hnode found hfound)) hrest
  | @many own category nodes slots rest hnodes hrest ih =>
      rcases ofNodes_append_cases hparts with ⟨first, last, rfl, rfl, rfl, rfl⟩ |
        ⟨front, rfl, hothers⟩
      · refine ⟨[], _, slots, category, rfl, ⟨rfl, rfl⟩, hnodes child (by simp), ?_,
          fun heq => (by cases heq)⟩
        intro changed hchanged
        -- the others of the row stay as they are
        have hall : ∀ node ∈ first ++ changed :: last, result category node := by
          intro node hnode
          rcases List.mem_append.mp hnode with hfirst | hmem
          · exact himp _ _ (hnodes node (List.mem_append_left _ hfirst))
          · rcases List.mem_cons.mp hmem with rfl | hlast
            · exact hchanged
            · exact himp _ _ (hnodes node (List.mem_append_right _ (List.mem_cons_of_mem _ hlast)))
        simpa [Part.ofNodes] using Fits.many hall (hrest.imp himp)
      · exact (ih hothers).cons _ fun slots rest hrest =>
          .many (fun node hnode => himp _ _ (hnodes node hnode)) hrest
  | @list own category separator least mayDangle nodes slots rest hnodes hleast hrest ih =>
      rcases ofNodes_append_cases hparts with ⟨first, last, rfl, rfl, rfl, rfl⟩ |
        ⟨front, rfl, hothers⟩
      · -- in a list with separators the category of the child goes by its place
        obtain ⟨inner, hinner, hchild, hreplace⟩ := hnodes.replace rfl himp
        refine ⟨[], _, slots, inner, rfl, ⟨rfl, hinner⟩, hchild, ?_, fun heq => (by cases heq)⟩
        intro changed hchanged
        have hlength : least ≤ (first ++ changed :: last).length := by simpa using hleast
        simpa [Part.ofNodes] using Fits.list (hreplace changed hchanged) hlength (hrest.imp himp)
      · exact (ih hothers).cons _ fun slots rest hrest => .list (hnodes.imp himp) hleast hrest

end

/-! ## Rows with a bracket -/

def bracketToken : Token where
  kind := .inline
  text := "<"

theorem Terminal.accepts_congr {terminal : Terminal} {token other : Token}
    (hkind : token.kind = other.kind) (htext : token.text = other.text) :
    terminal.accepts token = terminal.accepts other := by
  rw [Terminal.accepts, Terminal.accepts, hkind, htext]

theorem Slot.takes_congr {slot : Slot} {token other : Token} (hkind : token.kind = other.kind)
    (htext : token.text = other.text) : slot.takes token = slot.takes other := by
  cases slot with
  | token | option => exact Terminal.accepts_congr hkind htext
  | _ => rfl

/-- The slot is for the base of a construct. -/
def Slot.isBase : Slot → Bool
  | .token .base _ => true
  | _ => false

/-- Does the bracket stand right behind a base, and in front of some token? -/
def isBracketed (behindBase : Bool) : List Slot → Bool
  | [] => true
  | slot :: rest =>
      (!slot.takes bracketToken || behindBase && rest.any Slot.isToken) &&
        isBracketed slot.isBase rest

theorem isBracketed_append {slots : List Slot} {slot : Slot} {behindBase : Bool}
    (h : isBracketed behindBase slots = true) (hslot : slot.takes bracketToken = false) :
    isBracketed behindBase (slots ++ [slot]) = true := by
  induction slots generalizing behindBase with
  | nil => simp [isBracketed, hslot]
  | cons first rest ih =>
      simp only [isBracketed, Bool.and_eq_true] at h
      simp only [List.cons_append, isBracketed, List.any_append, ih h.2, Bool.and_true]
      rcases Bool.or_eq_true_iff.mp h.1 with hno | hyes
      · rw [hno, Bool.true_or]
      · obtain ⟨hbase, hany⟩ := Bool.and_eq_true_iff.mp hyes
        simp [hbase, hany]

/-- The slots on both sides of one that takes a bracket. -/
theorem isBracketed_split {front back : List Slot} {slot : Slot} {behindBase : Bool}
    (h : isBracketed behindBase (front ++ slot :: back) = true)
    (hslot : slot.takes bracketToken = true) :
    (front = [] ∧ behindBase = true ∨
      ∃ others terminal, front = others ++ [.token .base terminal]) ∧
      back.any Slot.isToken = true := by
  induction front generalizing behindBase with
  | nil =>
      have hhere := (Bool.and_eq_true_iff.mp h).1
      rw [hslot, Bool.not_true, Bool.false_or, Bool.and_eq_true] at hhere
      exact ⟨Or.inl ⟨rfl, hhere.1⟩, hhere.2⟩
  | cons first front ih =>
      obtain ⟨hfront, hback⟩ := ih (Bool.and_eq_true_iff.mp h).2
      refine ⟨Or.inr ?_, hback⟩
      rcases hfront with ⟨rfl, hbase⟩ | ⟨others, terminal, rfl⟩
      · cases first with
        | token role terminal =>
            cases role with
            | base => exact ⟨[], terminal, rfl⟩
            | _ => cases hbase
        | _ => cases hbase
      · exact ⟨first :: others, terminal, rfl⟩

/-! ## The constructs in a definition -/

/-- The symbols of definitions and of what is inside them. -/
def Symbol.isInner : Symbol → Bool
  | .extendedAttribute | .attributes _ | .default | .argument | .type _ _ | .recordKey _ | .utf8Key
  | .constantType | .member _ | .enumValue | .definition => true
  | .wrappedToken kind => kind != .inline
  | .returnType _ limit => limit.isReturned
  | _ => false

def Category.isInner (category : Category) : Bool :=
  category.symbol.isInner && category.separator.all (· != "<")

/-- Is the slot for constructs that are inside definitions? -/
def Slot.isInner : Slot → Bool
  | .token _ _ | .option _ _ => true
  | .node _ category | .nodeOption _ category | .many _ category => category.isInner
  | .list _ category separator _ _ => category.isInner && (category.before separator).isInner

theorem Slot.Holds.isInner {slot : Slot} {role : Role} {category : Category}
    (h : slot.Holds role category) (hslot : slot.isInner = true) : category.isInner = true := by
  cases slot with
  | token | option => exact h.elim
  | node | nodeOption | many =>
      obtain ⟨rfl, rfl⟩ := h
      exact hslot
  | list =>
      obtain ⟨rfl, rfl | rfl⟩ := h
      · exact (Bool.and_eq_true_iff.mp hslot).1
      · exact (Bool.and_eq_true_iff.mp hslot).2

theorem isInner_of_mem_forms {symbol : Symbol} {form : Form} (hsymbol : symbol.isInner = true)
    (hform : form ∈ symbol.forms true) :
    (form.slots.all Slot.isInner && isBracketed false form.slots) = true := by
  refine List.all_eq_true.mp (?_ : (symbol.forms true).all (fun form =>
    form.slots.all Slot.isInner && isBracketed false form.slots) = true) form hform
  cases symbol with
  | type place limit => cases limit <;> rfl
  | returnType place limit => cases limit <;> rfl
  | wrappedToken kind => cases kind <;> first | rfl | cases hsymbol
  | attributes mode => cases mode <;> rfl
  | member body =>
      cases body with
      | interface legacy => cases legacy <;> rfl
      | _ => rfl
  | extendedAttribute | default | argument | recordKey | utf8Key | constantType | enumValue
  | definition => rfl
  | _ => cases hsymbol

section

variable {category : Category} {form : Form}

theorem isInner_of_mem_slots (hcategory : category.isInner = true)
    (hform : form ∈ category.symbol.forms true) {slot : Slot}
    (hslot : slot ∈ category.slots form) : slot.isInner = true := by
  rcases mem_slots_iff.mp hslot with ⟨-, rfl⟩ | hown | ⟨separator, -, rfl⟩
  · rfl
  · have hall := isInner_of_mem_forms (Bool.and_eq_true_iff.mp hcategory).1 hform
    exact List.all_eq_true.mp (Bool.and_eq_true_iff.mp hall).1 slot hown
  · rfl

theorem isBracketed_slots (hcategory : category.isInner = true)
    (hform : form ∈ category.symbol.forms true) :
    isBracketed false (category.slots form) = true := by
  obtain ⟨hsymbol, hseparator⟩ := Bool.and_eq_true_iff.mp hcategory
  have hform := (Bool.and_eq_true_iff.mp (isInner_of_mem_forms hsymbol hform)).2
  have hown : isBracketed false
      (form.slots ++ category.separator.toList.map (Slot.word .separator)) = true := by
    cases hcase : category.separator with
    | none => simpa using hform
    | some separator =>
        refine isBracketed_append hform (Bool.eq_false_iff.mpr fun htakes => ?_)
        have hbracket : bracketToken.text = separator := (accepts_word.mp htakes).2
        rw [hcase, ← hbracket] at hseparator
        cases hseparator
  rw [Category.slots, List.append_assoc]
  split
  · exact hown
  · exact hown

/-- A bracket among the parts of a construct has the base right before it, and a token behind it. -/
theorem Fits.split_bracket {belongs : Category → Node → Prop} {front back : List Part} {role : Role}
    {opening : Token} (hcategory : category.isInner = true)
    (hform : form ∈ category.symbol.forms true)
    (hparts : Fits belongs (category.slots form) (front ++ .token role opening :: back))
    (hopening : (Terminal.word "<").accepts opening = true) :
    ∃ others base terminal, front = others ++ [.token .base base] ∧
      .token .base terminal ∈ category.slots form ∧ terminal.accepts base = true ∧
      tokensOf back ≠ [] := by
  obtain ⟨first, slot, last, hslots, htakes, hfirst, hlast⟩ := hparts.split_token rfl
  obtain ⟨hkind, htext⟩ := accepts_word.mp hopening
  have hbracket : slot.takes bracketToken = true :=
    (Slot.takes_congr hkind htext).symm.trans htakes
  have hrow := isBracketed_slots hcategory hform
  rw [hslots] at hrow
  obtain ⟨⟨-, hfalse⟩ | ⟨others, terminal, rfl⟩, hany⟩ := isBracketed_split hrow hbracket
  · cases hfalse
  obtain ⟨before, tail, rfl, -, htail⟩ := fits_append.mp hfirst
  obtain ⟨base, rest, rfl, haccepts, hnil⟩ := fits_token.mp htail
  obtain rfl := fits_nil.mp hnil
  exact ⟨before, base, terminal, rfl, by simp [hslots], haccepts, hlast.tokensOf_ne_nil hany⟩

/-- A construct neither begins nor ends with a bracket. -/
theorem Formed.bracket_inside {node : Node} {before after : List Token} {opening : Token}
    (h : Formed true category node) (hcategory : category.isInner = true)
    (hopening : (Terminal.word "<").accepts opening = true)
    (htokens : node.tokens = before ++ opening :: after) : before ≠ [] ∧ after ≠ [] := by
  refine @Formed.induct true _ _ (fun category node => ∀ before after, category.isInner = true →
    node.tokens = before ++ opening :: after → before ≠ [] ∧ after ≠ [])
    (fun category form label parts hform _ _ hparts before after hcategory htokens => ?_)
    h before after hcategory htokens
  rw [Node.tokens] at htokens
  rcases tokensOf_eq_append htokens with ⟨front, role, back, rfl, rfl, rfl⟩ |
    ⟨front, role, child, back, first, last, rfl, hchild, rfl, rfl⟩
  · obtain ⟨others, base, -, rfl, -, -, hback⟩ := hparts.split_bracket hcategory hform hopening
    exact ⟨by simp [tokensOf], hback⟩
  · have hmem : .node role child ∈ front ++ .node role child :: back := by simp
    obtain ⟨slot, hslot, own, hholds, hown⟩ := hparts.exists_holds hmem
    have hinner := hholds.isInner (isInner_of_mem_slots hcategory hform hslot)
    obtain ⟨hfirst, hlast⟩ := hown.2 first last hinner hchild
    exact ⟨by simp [hfirst], by simp [hlast]⟩

/-- The tokens on both sides of a bracket are in the same construct as the bracket. -/
theorem Formed.split_bracket {node : Node} {outside beyond first last before after : List Token}
    {base opening key : Token} (h : Formed true category node) (hcategory : category.isInner = true)
    (hopening : (Terminal.word "<").accepts opening = true)
    (htokens : node.tokens = first ++ opening :: last)
    (hfirst : before ++ [base] = outside ++ first) (hlast : key :: after = last ++ beyond) :
    ∃ inside behind, node.tokens = inside ++ base :: opening :: key :: behind ∧
      before = outside ++ inside ∧ after = behind ++ beyond := by
  obtain ⟨hfirstNe, hlastNe⟩ := h.bracket_inside hcategory hopening htokens
  obtain ⟨inside, found, rfl⟩ : ∃ inside found, first = inside ++ [found] :=
    ⟨_, _, (List.dropLast_append_getLast hfirstNe).symm⟩
  obtain ⟨head, behind, rfl⟩ := List.exists_cons_of_ne_nil hlastNe
  rw [← List.append_assoc] at hfirst
  obtain ⟨rfl, hbases⟩ := List.append_inj' hfirst rfl
  obtain ⟨rfl, -⟩ := List.cons.inj hbases
  obtain ⟨rfl, rfl⟩ := List.cons.inj hlast
  exact ⟨inside, behind, by simp [htokens], rfl, rfl⟩

end

end WebIdl.Shape
