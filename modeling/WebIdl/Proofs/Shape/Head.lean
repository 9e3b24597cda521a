import WebIdl.Proofs.Shape.Members

/-!
# The first tokens of constructs

Which production finds a construct is decided by its first tokens, most often by the very first one.
The forms say which tokens a construct can begin with (`Conforms.head`), and a production is told
from others by the tokens on which it does not decline at once (`Production.starts`).

Some productions look further before they decline; `Misses` says what they look at.
-/

namespace WebIdl.Shape

/-! ## Sets without a common token -/

/-- The two sets have no kind and no word in common. -/
def Terminal.avoids (first second : Terminal) : Bool :=
  !first.kinds.contains .inline && !second.kinds.contains .inline &&
    first.kinds.all (!second.kinds.contains ·) && first.words.all (!second.words.contains ·)

theorem Terminal.rejects_of_avoids {first second : Terminal} {token : Token}
    (h : first.avoids second = true) (htoken : first.accepts token = true) :
    second.accepts token = false := by
  simp only [avoids, Bool.and_eq_true, Bool.not_eq_true', List.all_eq_true,
    List.contains_eq_mem, decide_eq_false_iff_not] at h
  obtain ⟨⟨⟨hinline, hother⟩, hkinds⟩, hwords⟩ := h
  simp only [accepts, Bool.and_eq_true, Bool.or_eq_true, List.contains_eq_mem, decide_eq_true_eq,
    beq_iff_eq] at htoken
  rw [Bool.eq_false_iff]
  intro haccepts
  simp only [accepts, Bool.and_eq_true, Bool.or_eq_true, List.contains_eq_mem, decide_eq_true_eq,
    beq_iff_eq] at haccepts
  rcases htoken.1 with hkind | ⟨hkind, hword⟩
  · rcases haccepts.1 with hsame | ⟨hsame, -⟩
    · exact hkinds _ hkind hsame
    · exact hinline (hsame ▸ hkind)
  · rcases haccepts.1 with hsame | ⟨-, hsame⟩
    · exact hother (hkind ▸ hsame)
    · exact hwords _ hword hsame

/-- Every kind and word of the one set is in the other. -/
def Terminal.within (inner outer : Terminal) : Bool :=
  inner.kinds.all outer.kinds.contains && inner.words.all outer.words.contains

theorem Terminal.accepts_of_within {inner : Terminal} {kinds : List Token.Kind}
    {words : List String} {token : Token} (h : inner.within { kinds, words } = true)
    (htoken : inner.accepts token = true) : Terminal.accepts { kinds, words } token = true := by
  simp only [within, Bool.and_eq_true, List.all_eq_true, List.contains_eq_mem,
    decide_eq_true_eq] at h
  simp only [accepts, Bool.and_eq_true, Bool.or_eq_true, List.contains_eq_mem, decide_eq_true_eq,
    beq_iff_eq, Bool.and_true] at htoken ⊢
  rcases htoken.1 with hkind | hword
  · exact Or.inl (h.1 _ hkind)
  · exact Or.inr ⟨hword.1, h.2 _ hword.2⟩

theorem Terminal.rejects_of_within {inner : Terminal} {kinds : List Token.Kind}
    {words : List String} {token : Token} (h : Terminal.accepts { kinds, words } token = false)
    (hwithin : inner.within { kinds, words } = true) : inner.accepts token = false := by
  rw [Bool.eq_false_iff] at h ⊢
  intro haccepts
  exact h (accepts_of_within hwithin haccepts)

/-! ## The first token of a row of slots -/

/-- The keywords and marks that a type can begin with. -/
def typeWords : List String :=
  ["unsigned", "short", "long", "unrestricted", "float", "double", "bigint", "boolean", "byte",
    "octet", "undefined", "FrozenArray", "ObservableArray", "Promise", "sequence", "record", "("] ++
    (Keyword.stringTypes ++ Keyword.typeNames)

/-- What a type without attributes begins with. -/
def Terminal.typeHead : Terminal where
  kinds := [.identifier]
  words := typeWords

/-- What a construct without attributes begins with, for the symbols that a row begins with. -/
def Category.heads? (category : Category) : Option (List Terminal) :=
  match category.symbol, category.mode with
  | .type _ _, .never => some [.typeHead]
  | .returnType _ _, .never => some [.typeHead, .word "void"]
  | _, _ => none

/-- The sets that the first token of a row of slots can be from. -/
def headsOf? : List Slot → Option (List Terminal)
  | .token _ terminal :: _ => some [terminal]
  | .option _ terminal :: rest => (headsOf? rest).map (terminal :: ·)
  | .node _ category :: _ => category.heads?
  | _ => none

/-- The tokens begin with one of the set. -/
def Begins (terminal : Terminal) (tokens : List Token) : Prop :=
  ∃ token rest, tokens = token :: rest ∧ terminal.accepts token = true

theorem Begins.append {terminal : Terminal} {tokens : List Token} (h : Begins terminal tokens)
    (more : List Token) : Begins terminal (tokens ++ more) := by
  obtain ⟨token, rest, rfl, htoken⟩ := h
  exact ⟨token, rest ++ more, rfl, htoken⟩

theorem Begins.within {inner : Terminal} {kinds : List Token.Kind} {words : List String}
    {tokens : List Token} (h : Begins inner tokens) (hwithin : inner.within { kinds, words } = true) :
    Begins { kinds, words } tokens := by
  obtain ⟨token, rest, rfl, htoken⟩ := h
  exact ⟨token, rest, rfl, Terminal.accepts_of_within hwithin htoken⟩

/-- The first token of a row is from one of its sets, if those of the constructs in it are. -/
theorem Fits.head {belongs : Category → Node → Prop} {slots : List Slot} {parts : List Part}
    {heads : List Terminal}
    (hbelongs : ∀ {category node terminals}, belongs category node →
      category.heads? = some terminals → ∃ terminal ∈ terminals, Begins terminal node.tokens)
    (h : Fits belongs slots parts) (hheads : headsOf? slots = some heads) :
    ∃ terminal ∈ heads, Begins terminal (tokensOf parts) := by
  induction h generalizing heads with
  | nil => cases hheads
  | token htoken _ _ =>
      cases hheads
      exact ⟨_, List.mem_singleton_self _, _, _, by rw [tokensOf], htoken⟩
  | option htoken _ ih =>
      rename_i token _ _ _
      obtain ⟨others, hothers, rfl⟩ := Option.map_eq_some_iff.mp hheads
      cases token with
      | some token =>
          exact ⟨_, List.mem_cons_self, token, _, rfl, htoken token rfl⟩
      | none =>
          obtain ⟨terminal, hterminal, hbegins⟩ := ih hothers
          exact ⟨terminal, List.mem_cons_of_mem _ hterminal, hbegins⟩
  | node hnode _ _ =>
      obtain ⟨terminal, hterminal, hbegins⟩ := hbelongs hnode hheads
      exact ⟨terminal, hterminal, by rw [tokensOf]; exact hbegins.append _⟩
  | nodeOption => cases hheads
  | many => cases hheads
  | list => cases hheads

/-- Is the first token of a row of slots from the given set? -/
def isHeadedBy (terminal : Terminal) (slots : List Slot) : Bool :=
  match headsOf? slots with
  | some heads => heads.all (Terminal.within · terminal)
  | none => false

theorem Fits.begins {belongs : Category → Node → Prop} {slots : List Slot} {parts : List Part}
    {kinds : List Token.Kind} {words : List String}
    (hbelongs : ∀ {category node terminals}, belongs category node →
      category.heads? = some terminals → ∃ terminal ∈ terminals, Begins terminal node.tokens)
    (h : Fits belongs slots parts) (hslots : isHeadedBy { kinds, words } slots = true) :
    Begins { kinds, words } (tokensOf parts) := by
  unfold isHeadedBy at hslots
  split at hslots
  · rename_i heads hheads
    obtain ⟨terminal, hterminal, hbegins⟩ := h.head hbelongs hheads
    exact hbegins.within (List.all_eq_true.mp hslots terminal hterminal)
  · cases hslots

section

variable {extended : Bool} {node : Node}

/-- A construct without attributes begins like the slots of its form. -/
theorem head_of_form {belongs : Category → Node → Prop}
    (hconforms : ∀ {category node}, belongs category node → Conforms extended category node)
    (hbelongs : ∀ {category node terminals}, belongs category node →
      category.heads? = some terminals → ∃ terminal ∈ terminals, Begins terminal node.tokens)
    {category : Category} {form : Form} {parts : List Part} (hmode : category.mode = .never)
    (h : Fits belongs (category.slots form) parts) {heads : List Terminal}
    (hheads : headsOf? form.slots = some heads) :
    ∃ terminal ∈ heads, Begins terminal (tokensOf parts) := by
  obtain ⟨front, back, rfl, hfront, -⟩ := fits_append.mp h
  obtain ⟨lead, middle, rfl, hlead, hmiddle⟩ := fits_append.mp hfront
  have hnone : tokensOf lead = [] := by
    split at hlead
    · obtain ⟨attributes, rest, rfl, hattributes, hrest⟩ := fits_node.mp hlead
      obtain rfl := fits_nil.mp hrest
      rw [hmode] at hattributes
      rw [eq_noAttributes_of_conforms (hconforms hattributes) rfl]
      rfl
    · rw [fits_nil.mp hlead]
      rfl
  obtain ⟨terminal, hterminal, hbegins⟩ := hmiddle.head hbelongs hheads
  refine ⟨terminal, hterminal, ?_⟩
  rw [tokensOf_append, tokensOf_append, hnone, List.nil_append]
  exact hbegins.append _

theorem begins_of_form {belongs : Category → Node → Prop}
    (hconforms : ∀ {category node}, belongs category node → Conforms extended category node)
    (hbelongs : ∀ {category node terminals}, belongs category node →
      category.heads? = some terminals → ∃ terminal ∈ terminals, Begins terminal node.tokens)
    {category : Category} {form : Form} {parts : List Part} (hmode : category.mode = .never)
    (h : Fits belongs (category.slots form) parts) {kinds : List Token.Kind} {words : List String}
    (hslots : isHeadedBy { kinds, words } form.slots = true) :
    Begins { kinds, words } (tokensOf parts) := by
  unfold isHeadedBy at hslots
  split at hslots
  · rename_i heads hheads
    obtain ⟨terminal, hterminal, hbegins⟩ := head_of_form hconforms hbelongs hmode h hheads
    exact hbegins.within (List.all_eq_true.mp hslots terminal hterminal)
  · cases hslots

theorem isHeadedBy_typeForms {place : Option String} {limit : Limit} {form : Form}
    (h : form ∈ typeForms extended place limit) : isHeadedBy .typeHead form.slots = true := by
  obtain ⟨stem, -, h⟩ := List.mem_flatMap.mp h
  have hall : (stem.forms place limit).all (isHeadedBy .typeHead ·.slots) = true := by
    cases stem <;> rfl
  exact List.all_eq_true.mp hall form h

/-- The types that a row can begin with begin with a word of types, or are `void`. -/
theorem Conforms.begins_heads {category : Category} {terminals : List Terminal}
    (h : Conforms extended category node) (hheads : category.heads? = some terminals) :
    ∃ terminal ∈ terminals, Begins terminal node.tokens := by
  refine Conforms.induct (motive := fun category node => ∀ terminals,
    category.heads? = some terminals → ∃ terminal ∈ terminals, Begins terminal node.tokens)
    (fun category form parts hform hparts terminals hheads => ?_) h terminals hheads
  obtain ⟨symbol, mode, separator⟩ := category
  have hbegins {kinds : List Token.Kind} {words : List String} (hmode : mode = .never)
      (hslots : isHeadedBy { kinds, words } form.slots = true) :
      Begins { kinds, words } (Node.mk form.label parts).tokens := by
    rw [Node.tokens]
    exact begins_of_form (fun hboth => hboth.1) (fun hboth => hboth.2 _) hmode hparts hslots
  unfold Category.heads? at hheads
  split at hheads
  · rename_i hsymbol hmode
    dsimp only at hsymbol hmode
    subst hsymbol hmode
    cases hheads
    exact ⟨_, List.mem_singleton_self _, hbegins rfl (isHeadedBy_typeForms hform)⟩
  · rename_i hsymbol hmode
    dsimp only at hsymbol hmode
    subst hsymbol hmode
    cases hheads
    rcases List.mem_append.mp hform with htype | hvoid
    · exact ⟨_, List.mem_cons_self, hbegins rfl (isHeadedBy_typeForms htype)⟩
    · obtain rfl := List.mem_singleton.mp hvoid
      exact ⟨_, List.mem_cons_of_mem _ (List.mem_singleton_self _), hbegins rfl rfl⟩
  · cases hheads

/-- A construct without attributes begins with a token of a set, if all its forms do. -/
theorem Conforms.begins {symbol : Symbol} {separator : Option String} {kinds : List Token.Kind}
    {words : List String} (h : Conforms extended { symbol, mode := .never, separator } node)
    (hforms : (symbol.forms extended).all (isHeadedBy { kinds, words } ·.slots) = true) :
    Begins { kinds, words } node.tokens := by
  cases h with
  | mk hform hparts =>
      rw [Node.tokens]
      exact begins_of_form id (fun hconforms => hconforms.begins_heads) rfl hparts
        (List.all_eq_true.mp hforms _ hform)

/-- No token of the set can be the first of a row of slots. -/
def isHeadApart (terminal : Terminal) (slots : List Slot) : Bool :=
  match headsOf? slots with
  | some heads => heads.all (Terminal.avoids · terminal)
  | none => false

/-- A construct without attributes begins with no token of a set, if none of its forms does. -/
theorem Conforms.head_apart {symbol : Symbol} {separator : Option String} {terminal : Terminal}
    (h : Conforms extended { symbol, mode := .never, separator } node)
    (hforms : (symbol.forms extended).all (isHeadApart terminal ·.slots) = true) :
    ∃ token rest, node.tokens = token :: rest ∧ terminal.accepts token = false := by
  cases h with
  | mk hform hparts =>
      have hslots := List.all_eq_true.mp hforms _ hform
      unfold isHeadApart at hslots
      split at hslots
      · rename_i heads hheads
        obtain ⟨head, hhead, token, rest, htokens, htoken⟩ :=
          head_of_form id (fun hconforms => hconforms.begins_heads) rfl hparts hheads
        exact ⟨token, rest, by rw [Node.tokens, htokens],
          Terminal.rejects_of_avoids (List.all_eq_true.mp hslots head hhead) htoken⟩
      · cases hslots

theorem Conforms.begins_type {place : Option String} {limit : Limit} {separator : Option String}
    (h : Conforms extended { symbol := .type place limit, mode := .never, separator } node) :
    Begins .typeHead node.tokens := by
  obtain ⟨terminal, hterminal, hbegins⟩ := h.begins_heads rfl
  rwa [List.mem_singleton.mp hterminal] at hbegins

end

end WebIdl.Shape
