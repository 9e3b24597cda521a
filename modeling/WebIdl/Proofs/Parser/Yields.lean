import WebIdl.Proofs.Parser.Terminal
import WebIdl.Proofs.Shape.Progress

/-!
# What a parser makes of given tokens

A parser yields a value on a row of tokens if, wherever these are the tokens still unread, it finds
the value and leaves the rest of the row.  This module says for each combinator what it takes to
yield a value, so that a parser can be run on tokens of which only the sets are known that they
belong to.
-/

namespace WebIdl

open Shape

namespace Parser

/-- Wherever the tokens `input` are unread, the parser finds `value` and leaves `output`. -/
def Yields {α : Type} (scope : Scope) (parser : Parser α) (input : List Token) (value : α)
    (output : List Token) : Prop :=
  ∀ cursor, scope.rest cursor = input →
    ∃ moved, parser scope cursor = .ok value moved ∧ scope.rest moved = output

section

variable {α β : Type} {scope : Scope} {input middle output : List Token}

/-! ## Statements in a row -/

theorem yields_pure (value : α) : Yields scope (pure value) input value input :=
  fun cursor hrest => ⟨cursor, rfl, hrest⟩

theorem Yields.bind {parser : Parser α} {next : α → Parser β} {first : α} {value : β}
    (hparser : Yields scope parser input first middle)
    (hnext : Yields scope (next first) middle value output) :
    Yields scope (parser >>= next) input value output := by
  intro cursor hrest
  obtain ⟨between, hfirst, hmiddle⟩ := hparser cursor hrest
  obtain ⟨moved, hvalue, houtput⟩ := hnext between hmiddle
  exact ⟨moved, bind_eq_ok.mpr ⟨first, between, hfirst, hvalue⟩, houtput⟩

theorem Yields.map {parser : Parser α} {value : α} (h : Yields scope parser input value output)
    (wrap : α → β) : Yields scope (wrap <$> parser) input (wrap value) output :=
  h.bind (yields_pure (wrap value))

theorem Yields.expect {parser : Parser (Option α)} {value : α}
    (h : Yields scope parser input (some value) output) (problem : Problem) :
    Yields scope (expect parser problem) input value output :=
  h.bind (yields_pure value)

theorem yields_size_bind {next : Nat → Parser β} {value : β}
    (h : Yields scope (next scope.source.tokens.size) input value output) :
    Yields scope (size >>= next) input value output :=
  h

theorem yields_extensions_bind {next : Extensions → Parser β} {value : β}
    (h : Yields scope (next scope.extensions) input value output) :
    Yields scope (extensions >>= next) input value output :=
  h

theorem yields_position_bind {next : Nat → Parser β} {value : β}
    (h : ∀ start, Yields scope (next start) input value output) :
    Yields scope (position >>= next) input value output :=
  fun cursor hrest => h cursor.position cursor hrest

theorem yields_enter_bind {heading : Heading} {next : Unit → Parser β} {value : β}
    (h : Yields scope (next ()) input value output) :
    Yields scope (enter heading >>= next) input value output :=
  fun cursor hrest => h { cursor with current := some heading } hrest

theorem yields_refuse_bind {condition : Bool} {problem : Problem} {next : Unit → Parser β}
    {value : β} (hcondition : condition = false) (h : Yields scope (next ()) input value output) :
    Yields scope (refuse condition problem >>= next) input value output := by
  intro cursor hrest
  obtain ⟨moved, hvalue, houtput⟩ := h cursor hrest
  exact ⟨moved, refuse_bind.mpr ⟨hcondition, hvalue⟩, houtput⟩

theorem yields_present_bind {reading : Except Missing α} {told : α} {next : α → Parser β} {value : β}
    (hreading : reading = .ok told) (h : Yields scope (next told) input value output) :
    Yields scope (present reading >>= next) input value output := by
  subst hreading
  exact h

theorem yields_nextIs_bind {text : String} {token : Token} {more : List Token}
    {next : Bool → Parser β} {value : β}
    (h : Yields scope (next (token.isInline text)) (token :: more) value output) :
    Yields scope (nextIs text >>= next) (token :: more) value output := by
  intro cursor hrest
  obtain ⟨moved, hvalue, houtput⟩ := h cursor hrest
  exact ⟨moved, nextIs_bind.mpr ⟨token, by rw [hrest]; rfl, hvalue⟩, houtput⟩

theorem yields_nextIsKind_bind {kind : Token.Kind} {token : Token} {more : List Token}
    {next : Bool → Parser β} {value : β}
    (h : Yields scope (next (token.kind == kind)) (token :: more) value output) :
    Yields scope (nextIsKind kind >>= next) (token :: more) value output := by
  intro cursor hrest
  obtain ⟨moved, hvalue, houtput⟩ := h cursor hrest
  exact ⟨moved, nextIsKind_bind.mpr ⟨token, by rw [hrest]; rfl, hvalue⟩, houtput⟩

/-! ## Choices -/

theorem Yields.when? {parser : Parser (Option α)} {value : Option α} {condition : Bool}
    (h : Yields scope parser input value output) (hcondition : condition = true) :
    Yields scope (when? condition parser) input value output := by
  subst hcondition
  exact h

theorem yields_when?_false {parser : Parser (Option α)} {condition : Bool}
    (hcondition : condition = false) : Yields scope (when? condition parser) input none input := by
  subst hcondition
  exact yields_pure none

theorem Yields.either_left {first second : Parser (Option α)} {value : α}
    (h : Yields scope first input (some value) output) :
    Yields scope (either first second) input (some value) output :=
  h.bind (yields_pure (some value))

theorem Yields.either_right {first second : Parser (Option α)} {value : Option α}
    (hfirst : Yields scope first input none middle)
    (hsecond : Yields scope second middle value output) :
    Yields scope (either first second) input value output :=
  hfirst.bind hsecond

theorem Yields.rewinding {parser : Parser (Option α)} {value : α}
    (h : Yields scope parser input (some value) output) :
    Yields scope (rewinding parser) input (some value) output := by
  intro cursor hrest
  obtain ⟨moved, hvalue, houtput⟩ := h cursor hrest
  exact ⟨moved, rewinding_eq_ok.mpr (Or.inl ⟨value, rfl, hvalue⟩), houtput⟩

theorem Yields.rewinding_none {parser : Parser (Option α)}
    (h : Yields scope parser input none output) :
    Yields scope (Parser.rewinding parser) input none input := by
  intro cursor hrest
  obtain ⟨moved, hnone, -⟩ := h cursor hrest
  exact ⟨{ moved with position := cursor.position },
    rewinding_eq_ok.mpr (Or.inr ⟨rfl, moved, hnone, rfl⟩), by rw [← hrest]; rfl⟩

theorem Yields.deferring {parser : Parser Node} {node : Node} {reasons : List String} {start : Nat}
    (h : Yields scope parser input node output) :
    Yields scope (deferring reasons start parser) input (some node) output := by
  intro cursor hrest
  obtain ⟨moved, hnode, houtput⟩ := h cursor hrest
  exact ⟨moved, by simp only [Parser.deferring, hnode], houtput⟩

theorem yields_firstMatch_nil {parse : Production → Parser (Option Node)} :
    Yields scope (firstMatch parse []) input none input :=
  yields_pure none

theorem Yields.firstMatch {parse : Production → Parser (Option Node)} {production : Production}
    {others : List Production} {node : Node}
    (h : Yields scope (parse production) input (some node) output) :
    Yields scope (firstMatch parse (production :: others)) input (some node) output := by
  intro cursor hrest
  obtain ⟨moved, hnode, houtput⟩ := h cursor hrest
  refine ⟨{ moved with
    trace := .matched production node.tag cursor.position :: moved.trace }, ?_, houtput⟩
  simp only [Parser.firstMatch, Bind.bind, position, hnode]
  rfl

theorem Yields.firstMatch_skip {parse : Production → Parser (Option Node)}
    {production : Production} {others : List Production} {found : Option Node}
    (hnone : Yields scope (parse production) input none middle)
    (h : Yields scope (Parser.firstMatch parse others) input found output) :
    Yields scope (Parser.firstMatch parse (production :: others)) input found output := by
  intro cursor hrest
  obtain ⟨stop, hstop, -⟩ := hnone cursor hrest
  obtain ⟨moved, hfound, houtput⟩ := h { stop with position := cursor.position }
    (by rw [← hrest]; rfl)
  refine ⟨moved, ?_, houtput⟩
  simp only [Parser.firstMatch, Bind.bind, position, hstop]
  exact hfound

/-- The productions of a list are skipped up to the one that matches. -/
theorem yields_firstMatch {parse : Production → Parser (Option Node)}
    {productions front back : List Production} {production : Production} {node : Node}
    (hsplit : productions = front ++ production :: back)
    (hfront : ∀ earlier ∈ front, Yields scope (parse earlier) input none input)
    (h : Yields scope (parse production) input (some node) output) :
    Yields scope (Parser.firstMatch parse productions) input (some node) output := by
  subst hsplit
  induction front with
  | nil => exact h.firstMatch
  | cons earlier front ih =>
      obtain ⟨hearlier, hothers⟩ := List.forall_mem_cons.mp hfront
      exact hearlier.firstMatch_skip (ih hothers)

theorem yields_firstMatch_none {parse : Production → Parser (Option Node)}
    {productions : List Production}
    (h : ∀ production ∈ productions, Yields scope (parse production) input none input) :
    Yields scope (Parser.firstMatch parse productions) input none input := by
  induction productions with
  | nil => exact yields_firstMatch_nil
  | cons production others ih =>
      obtain ⟨hproduction, hothers⟩ := List.forall_mem_cons.mp h
      exact hproduction.firstMatch_skip (ih hothers)

end

/-! ## Tokens -/

section

variable {β : Type} {scope : Scope} {terminal : Terminal} {parser : Parser (Option Token)}
  {token : Token} {more output : List Token} {value : β}

theorem OneOf.yields_some (hparser : OneOf terminal parser) (h : terminal.accepts token = true) :
    Yields scope parser (token :: more) (some token) more := by
  intro cursor hrest
  have htoken : scope.source.tokens[cursor.position]? = some token := by
    rw [← Scope.head?_rest, hrest]
    rfl
  refine ⟨{ cursor with position := cursor.position + 1 }, ?_, ?_⟩
  · rw [hparser.eq, takeIf, htoken]
    simp only [h, if_true]
  · have hcons : scope.rest cursor =
        token :: scope.rest { cursor with position := cursor.position + 1 } :=
      Scope.rest_eq_cons htoken rfl
    rw [hrest] at hcons
    exact (List.cons.inj hcons).2.symm

theorem OneOf.yields_none (hparser : OneOf terminal parser) (h : terminal.accepts token = false) :
    Yields scope parser (token :: more) none (token :: more) := by
  intro cursor hrest
  have htoken : scope.source.tokens[cursor.position]? = some token := by
    rw [← Scope.head?_rest, hrest]
    rfl
  refine ⟨cursor, ?_, hrest⟩
  rw [hparser.eq, takeIf, htoken]
  simp only [h, Bool.false_eq_true, if_false]

/-- A statement that reads a token which is there. -/
theorem OneOf.yields_bind (hparser : OneOf terminal parser) {next : Option Token → Parser β}
    (h : terminal.accepts token = true)
    (hnext : Yields scope (next (some token)) more value output) :
    Yields scope (parser >>= next) (token :: more) value output :=
  (hparser.yields_some h).bind hnext

/-- A statement that would read a token which is not there. -/
theorem OneOf.yields_bind_none (hparser : OneOf terminal parser)
    {next : Option Token → Parser β} (h : terminal.accepts token = false)
    (hnext : Yields scope (next none) (token :: more) value output) :
    Yields scope (parser >>= next) (token :: more) value output :=
  (hparser.yields_none h).bind hnext

/-- A statement that insists on a token which is there. -/
theorem OneOf.yields_expect_bind (hparser : OneOf terminal parser) {problem : Problem}
    {next : Token → Parser β} (h : terminal.accepts token = true)
    (hnext : Yields scope (next token) more value output) :
    Yields scope (expect parser problem >>= next) (token :: more) value output :=
  ((hparser.yields_some h).expect problem).bind hnext

/-- A statement that reads an optional token.  If it is not there, the next token is another
one. -/
theorem OneOf.yields_option_bind (hparser : OneOf terminal parser)
    {next : Option Token → Parser β} {taken : Option Token}
    (htaken : ∀ token ∈ taken, terminal.accepts token = true)
    (hmore : taken = none → ∃ token rest, more = token :: rest ∧ terminal.accepts token = false)
    (hnext : Yields scope (next taken) more value output) :
    Yields scope (parser >>= next) (taken.toList ++ more) value output := by
  cases taken with
  | some token => exact hparser.yields_bind (htaken token rfl) hnext
  | none =>
      obtain ⟨token, rest, rfl, hrejected⟩ := hmore rfl
      exact hparser.yields_bind_none hrejected hnext

/-- A statement that reads an optional token only under a condition. -/
theorem OneOf.yields_when?_bind (hparser : OneOf terminal parser) (taken : Option Token)
    {condition : Bool} {next : Option Token → Parser β}
    (htaken : ∀ token ∈ taken, terminal.accepts token = true)
    (hcondition : taken.isSome → condition = true)
    (hmore : taken = none → ∃ token rest, more = token :: rest ∧ terminal.accepts token = false)
    (hnext : Yields scope (next taken) more value output) :
    Yields scope (when? condition parser >>= next) (taken.toList ++ more) value output := by
  cases taken with
  | some token => exact ((hparser.yields_some (htaken token rfl)).when? (hcondition rfl)).bind hnext
  | none =>
      obtain ⟨token, rest, rfl, hrejected⟩ := hmore rfl
      cases condition with
      | true => exact ((hparser.yields_none hrejected).when? rfl).bind hnext
      | false => exact (yields_when?_false rfl).bind hnext

end

end Parser

/-! ## Separators -/

namespace Shape

/-- A construct with a separator is one without it, and the separator. -/
theorem Conforms.split_separator {extended : Bool} {symbol : Symbol} {mode : Mode}
    {separator : String} {node : Node}
    (h : Conforms extended { symbol, mode, separator := some separator } node) :
    ∃ core token, node = core.withSeparator (some token) ∧
      (Terminal.word separator).accepts token = true ∧
      Conforms extended { symbol, mode } core := by
  cases h with
  | mk hform hparts =>
      rename_i form parts
      obtain ⟨front, back, rfl, hfront, hback⟩ := fits_append.mp hparts
      obtain ⟨token, rest, rfl, htoken, hrest⟩ := fits_token.mp hback
      obtain rfl := fits_nil.mp hrest
      refine ⟨.mk form.label front, token, rfl, htoken, .mk hform ?_⟩
      simpa only [Category.slots, Option.toList_none, List.map_nil, List.append_nil] using hfront

end Shape

/-! ## Lists -/

namespace Parser

section

variable {scope : Scope} {extended : Bool} {symbol : Symbol} {mode : Mode}

/-- A list of constructs is not longer than its tokens. -/
theorem length_le_of_written {nodes : List Node} (h : ∀ node ∈ nodes, node.tokens ≠ []) :
    nodes.length ≤ (nodes.flatMap Node.tokens).length := by
  induction nodes with
  | nil => exact Nat.le_refl 0
  | cons node others ih =>
      obtain ⟨hnode, hothers⟩ := List.forall_mem_cons.mp h
      have hpos := List.length_pos_iff.mpr hnode
      have hrest := ih hothers
      simp only [List.length_cons, List.flatMap_cons, List.length_append]
      omega

theorem length_le_of_conforms {nodes : List Node} {category : Category} {separator : String}
    {mayDangle : Bool} (hwritten : category.symbol.isWritten = true)
    (hnodes : Items (Conforms extended) nodes category separator mayDangle) :
    nodes.length ≤ (nodes.flatMap Node.tokens).length := by
  refine length_le_of_written ?_
  induction hnodes with
  | nil => simp
  | last hnode => simpa using hnode.tokens_ne_nil hwritten
  | cons hnode _ _ ih =>
      exact List.forall_mem_cons.mpr ⟨hnode.tokens_ne_nil hwritten, ih hwritten⟩

/-- A list yields its items, if its item parser does, and declines what ends the list. -/
theorem yields_itemsFrom {items : String} {mayDangle : Bool} {item : Parser (Option Node)}
    {closing : Token} {more : List Token} {limit : Nat}
    (hitem : ∀ {node next rest}, Conforms extended { symbol, mode } node →
      node.tokens.length ≤ limit → next = closing ∨ (Terminal.word ",").accepts next = true →
      Yields scope item (node.tokens ++ next :: rest) (some node) (next :: rest))
    (hnone : Yields scope item (closing :: more) none (closing :: more))
    (hclosing : (Terminal.word ",").accepts closing = false) {nodes : List Node}
    (hnodes : Items (Conforms extended) nodes { symbol, mode } "," mayDangle)
    (hlimit : (nodes.flatMap Node.tokens).length ≤ limit) {fuel : Nat}
    (hfuel : nodes.length < fuel) {afterComma : Bool}
    (hdangle : nodes = [] → (afterComma && !mayDangle) = false) :
    Yields scope (itemsFrom items mayDangle item fuel afterComma)
      (nodes.flatMap Node.tokens ++ closing :: more) nodes (closing :: more) := by
  induction fuel generalizing nodes afterComma with
  | zero => exact absurd hfuel (Nat.not_lt_zero _)
  | succ fuel ih =>
      cases hnodes with
      | nil => exact hnone.bind (yields_refuse_bind (hdangle rfl) (yields_pure []))
      | last hnode =>
          simp only [List.flatMap_cons, List.flatMap_nil, List.append_nil] at hlimit ⊢
          refine (hitem hnode hlimit (Or.inl rfl)).bind ?_
          exact (oneOf_inline? _).yields_bind_none hclosing (yields_pure _)
      | cons hnode hlast hothers =>
          obtain ⟨core, comma, rfl, hcomma, hcore⟩ := hnode.split_separator
          simp only [List.flatMap_cons, Node.tokens_withSeparator, Option.toList_some,
            List.length_append, List.length_cons, List.append_assoc, List.cons_append,
            List.nil_append] at hlimit hfuel ⊢
          refine (hitem hcore (by omega) (Or.inr hcomma)).bind ?_
          refine (oneOf_inline? _).yields_bind hcomma ?_
          refine (ih hothers (by omega) (by omega) fun hnil => ?_).bind (yields_pure _)
          simp [hlast hnil]

/-- The same for a whole list.  There are enough rounds, since every item has a token. -/
theorem yields_commaList {items : String} {mayDangle : Bool} {item : Parser (Option Node)}
    {closing : Token} {more : List Token} {limit : Nat}
    (hitem : ∀ {node next rest}, Conforms extended { symbol, mode } node →
      node.tokens.length ≤ limit → next = closing ∨ (Terminal.word ",").accepts next = true →
      Yields scope item (node.tokens ++ next :: rest) (some node) (next :: rest))
    (hnone : Yields scope item (closing :: more) none (closing :: more))
    (hclosing : (Terminal.word ",").accepts closing = false) {nodes : List Node}
    (hwritten : symbol.isWritten = true)
    (hnodes : Items (Conforms extended) nodes { symbol, mode } "," mayDangle)
    (hlimit : (nodes.flatMap Node.tokens).length ≤ limit) :
    Yields scope (commaList items mayDangle item)
      (nodes.flatMap Node.tokens ++ closing :: more) nodes (closing :: more) := by
  intro cursor hrest
  have hlength := congrArg List.length hrest
  simp only [Scope.rest, List.length_drop, List.length_append, List.length_cons,
    Array.length_toList] at hlength
  have hshort := length_le_of_conforms hwritten hnodes
  exact yields_itemsFrom hitem hnone hclosing hnodes hlimit (by omega) (by simp) cursor hrest

end

end Parser

end WebIdl
