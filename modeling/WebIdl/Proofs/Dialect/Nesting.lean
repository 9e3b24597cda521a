import WebIdl.Proofs.Complete.Attributes
import WebIdl.Proofs.Dialect.RoundTrip
import WebIdl.Proofs.Text.Mask
import WebIdl.Proofs.Token.Lexable

/-!
# Texts that nest too deep for a host

The arguments of an attribute have attributes of their own, which have arguments again, so a text can
nest productions as deep as one likes.  On a host that bounds the nesting of calls such a text ends in
neither a document nor a syntax error, whatever the bound.

## Strategy

A parser exhausts a row of tokens if it reaches the bound wherever these are unread.  On the tokens of one
level of nesting the parser of attributes reads up to the arguments and hands the rest to the parser of an
argument, which begins with attributes again; so each level takes one off the depth that is left
(`Nests.exhausts`).
-/

namespace WebIdl

open WebIdl.Shape

namespace Parser

/-- Wherever the tokens `input` are unread, the parser reaches the bound on recursion. -/
def Exhausts {α : Type} (scope : Scope) (parser : Parser α) (input : List Token) : Prop :=
  ∀ cursor, scope.rest cursor = input → ∃ moved, parser scope cursor = .error .exhausted moved

section

variable {α β : Type} {scope : Scope} {input middle : List Token}

theorem exhausts_exhausted : Exhausts scope (exhausted : Parser α) input :=
  fun cursor _ => ⟨cursor, rfl⟩

/-- Two parsers in a row reach the bound if the first does. -/
theorem Exhausts.bind {parser : Parser α} (h : Exhausts scope parser input) (next : α → Parser β) :
    Exhausts scope (parser >>= next) input := by
  intro cursor hrest
  obtain ⟨moved, herror⟩ := h cursor hrest
  exact ⟨moved, by simp only [Bind.bind, herror]⟩

/-- Two parsers in a row reach the bound if the second does behind what the first has read. -/
theorem Yields.exhausts_bind {parser : Parser α} {next : α → Parser β} {first : α}
    (hparser : Yields scope parser input first middle)
    (hnext : Exhausts scope (next first) middle) : Exhausts scope (parser >>= next) input := by
  intro cursor hrest
  obtain ⟨between, hfirst, hmiddle⟩ := hparser cursor hrest
  obtain ⟨moved, herror⟩ := hnext between hmiddle
  exact ⟨moved, by simp only [Bind.bind, hfirst, herror]⟩

theorem Exhausts.rewinding {parser : Parser (Option α)} (h : Exhausts scope parser input) :
    Exhausts scope (rewinding parser) input := by
  intro cursor hrest
  obtain ⟨moved, herror⟩ := h cursor hrest
  exact ⟨moved, by simp only [Parser.rewinding, Bind.bind, position, herror]⟩

/-- A list reaches the bound in an item. -/
theorem Exhausts.itemsFrom {item : Parser (Option Node)} (h : Exhausts scope item input)
    (items : String) (mayDangle : Bool) (fuel : Nat) (afterComma : Bool) :
    Exhausts scope (itemsFrom items mayDangle item fuel afterComma) input := by
  cases fuel with
  | zero => exact exhausts_exhausted
  | succ fuel => exact h.bind _

/-- A list reaches the bound in an item behind another one. -/
theorem Exhausts.commaList_snd {item : Parser (Option Node)} {node : Node} {comma : Token}
    (hnode : Yields scope item input (some node) (comma :: middle))
    (hcomma : (Terminal.word ",").accepts comma = true) (h : Exhausts scope item middle)
    (items : String) (mayDangle : Bool) : Exhausts scope (commaList items mayDangle item) input :=
  hnode.exhausts_bind (((oneOf_inline? [","]).yields_some hcomma).exhausts_bind
    ((h.itemsFrom items mayDangle scope.source.tokens.size true).bind _))

end

end Parser

namespace Grammar

open WebIdl.Parser

/-! ## Levels of nesting -/

/-- The tokens of one level of nesting, `[A=(x),A(`. -/
def levelTerminals : List Terminal :=
  [.word "[", .identifier, .word "=", .word "(", .identifier, .word ")", .word ",", .identifier,
    .word "("]

/-- The tokens begin with so many levels of nesting. -/
inductive Nests : Nat → List Token → Prop where
  | surface (tokens : List Token) : Nests 0 tokens
  | level {depth : Nat} {front tokens : List Token}
      (hfront : List.Forall₂ (fun terminal token => terminal.accepts token = true) levelTerminals
        front) (htokens : Nests depth tokens) : Nests (depth + 1) (front ++ tokens)

section

variable {scope : Scope} {nested : Production → Parser (Option Node)}

/-- The attribute that a level of nesting holds whole. -/
theorem yields_listAttribute {name assign opening value closing : Token} {more : List Token}
    (hname : Terminal.identifier.accepts name = true)
    (hassign : (Terminal.word "=").accepts assign = true)
    (hopening : (Terminal.word "(").accepts opening = true)
    (hvalue : Terminal.identifier.accepts value = true)
    (hclosing : (Terminal.word ")").accepts closing = true) :
    Yields scope (extendedAttribute nested)
      (name :: assign :: opening :: value :: closing :: more)
      (some (.mk { construct := .extendedAttribute } [.token .name name, .token .assign assign,
        .token .opening opening, .node .entry (.mk { construct := .wrappedToken }
          [.token .value value]), .token .closing closing])) more := by
  have hword : Yields scope (wrappedToken .identifier) (value :: closing :: more)
      (some (.mk { construct := .wrappedToken } [.token .value value])) (closing :: more) :=
    (oneOf_ofKind? (by decide)).yields_bind hvalue (yields_pure _)
  have hlist : Yields scope (commaList "identifier list" false (wrappedToken .identifier))
      (value :: closing :: more) [.mk { construct := .wrappedToken } [.token .value value]]
      (closing :: more) :=
    yields_size_bind (hword.bind ((oneOf_inline? _).yields_bind_none
      (Terminal.rejects_of_avoids rfl hclosing) (yields_pure _)))
  have hvalues : Yields scope (valueList valueKinds) (value :: closing :: more)
      [.mk { construct := .wrappedToken } [.token .value value]] (closing :: more) :=
    hlist.bind (yields_pure _)
  refine oneOf_identifier.yields_bind hname ?_
  refine (oneOf_inline? _).yields_bind hassign ?_
  refine (((oneOf_inline? _).yields_none (Terminal.rejects_of_avoids rfl hopening)).when? rfl).bind ?_
  refine (((oneOf_ofKind? (by decide)).yields_none (Terminal.rejects_of_avoids rfl hopening)).when?
    rfl).bind ?_
  refine (oneOf_inline? _).yields_bind hopening ?_
  exact hvalues.bind ((oneOf_inline? _).yields_expect_bind hclosing (yields_pure _))

/-- An attribute whose arguments nest too deep. -/
theorem exhausts_extendedAttribute {name opening : Token} {more : List Token}
    (hname : Terminal.identifier.accepts name = true)
    (hopening : (Terminal.word "(").accepts opening = true)
    (hmore : Exhausts scope (nested .argument) more) :
    Exhausts scope (extendedAttribute nested) (name :: opening :: more) := by
  refine (oneOf_identifier.yields_some hname).exhausts_bind ?_
  refine ((oneOf_inline? ["="]).yields_none
    (Terminal.rejects_of_avoids rfl hopening)).exhausts_bind ?_
  refine (yields_when?_false rfl).exhausts_bind ((yields_when?_false rfl).exhausts_bind ?_)
  refine ((oneOf_inline? ["("]).yields_some hopening).exhausts_bind ?_
  exact (hmore.itemsFrom _ _ (scope.source.tokens.size + 1) _).bind _

/-- The attributes of a level reach the bound, if an argument does behind the level. -/
theorem exhausts_extendedAttributes {front tokens : List Token}
    (hfront : List.Forall₂ (fun terminal token => terminal.accepts token = true) levelTerminals front)
    (htokens : Exhausts scope (nested .argument) tokens) :
    Exhausts scope (extendedAttributes nested) (front ++ tokens) := by
  simp only [levelTerminals, List.forall₂_cons_left_iff, List.forall₂_nil_left_iff] at hfront
  obtain ⟨bracket, _, hbracket, ⟨name, _, hname, ⟨assign, _, hassign, ⟨opening, _, hopening,
    ⟨value, _, hvalue, ⟨closing, _, hclosing, ⟨comma, _, hcomma, ⟨other, _, hother, ⟨last, _, hlast,
    rfl, rfl⟩, rfl⟩, rfl⟩, rfl⟩, rfl⟩, rfl⟩, rfl⟩, rfl⟩, rfl⟩ := hfront
  refine ((oneOf_inline? ["["]).yields_some hbracket).exhausts_bind ?_
  exact (Exhausts.commaList_snd (yields_listAttribute hname hassign hopening hvalue hclosing) hcomma
    (exhausts_extendedAttribute hother hlast htokens) _ _).bind _

/-- An argument reaches the bound on tokens that nest as deep as the bound. -/
theorem Nests.exhausts {depth : Nat} {tokens : List Token} (h : Nests depth tokens) :
    Exhausts scope (Production.parseTo depth .argument) tokens := by
  induction h with
  | surface tokens => exact exhausts_exhausted
  | level hfront _ ih => exact ((exhausts_extendedAttributes hfront ih).bind _).rewinding

/-- The definitions of a text reach the bound, if the text nests deeper than that. -/
theorem Nests.exhausts_definitions {limit : Nat} {tokens : List Token}
    (h : Nests (limit + 1) tokens) (productions : List Production) :
    Exhausts scope (definitions (Production.parseTo limit) productions) tokens := by
  cases h with
  | level hfront htokens =>
      exact ((exhausts_extendedAttributes hfront htokens.exhausts).bind _).bind _

/-- Tokens that begin with so many levels begin with fewer of them. -/
theorem Nests.of_le {depth less : Nat} {tokens : List Token} (h : Nests depth tokens)
    (hless : less ≤ depth) : Nests less tokens := by
  induction h generalizing less with
  | surface tokens =>
      obtain rfl := Nat.le_zero.mp hless
      exact .surface tokens
  | level hfront _ ih =>
      cases less with
      | zero => exact .surface _
      | succ less => exact .level hfront (ih (Nat.le_of_succ_le_succ hless))

end

/-! ## A text for each depth -/

/-- One level of nesting, on a line of its own. -/
def levelText : String := "\n[A=(x),A("

/-- A text of so many levels of nesting. -/
def nestedText (levels : Nat) : String :=
  String.join (List.replicate levels levelText)

/-- The tokens of one level of nesting. -/
def levelTokens : List Token :=
  [⟨.inline, "[", "\n", 2, 0, 1⟩, ⟨.identifier, "A", "", 2, 1, 2⟩, ⟨.inline, "=", "", 2, 2, 3⟩,
    ⟨.inline, "(", "", 2, 3, 4⟩, ⟨.identifier, "x", "", 2, 4, 5⟩, ⟨.inline, ")", "", 2, 5, 6⟩,
    ⟨.inline, ",", "", 2, 6, 7⟩, ⟨.identifier, "A", "", 2, 7, 8⟩, ⟨.inline, "(", "", 2, 8, 9⟩]

/-- The end of a text of one level. -/
def levelEnd : Token := ⟨.eof, "", "", 2, 9, 10⟩

theorem stream_levelText : Token.stream levelText = .ok (levelTokens ++ [levelEnd]) := by
  decide +kernel

theorem lexable_level : Lexable levelTokens levelEnd := by
  obtain ⟨front, last, hsplit, hlexable⟩ := lexable_of_streamFrom rfl stream_levelText (by decide)
    (by simp [levelTokens, levelEnd, Lexeme.isNumberLexeme])
  obtain ⟨rfl, hlast⟩ := List.append_inj' hsplit rfl
  obtain rfl := List.singleton_injective hlast
  exact hlexable

/-- Levels of nesting can be read back one behind the other, since a bracket ends each of them. -/
theorem lexable_levels (levels : Nat) :
    Lexable (List.replicate levels levelTokens).flatten levelEnd := by
  induction levels with
  | zero => exact @Lexable.of_append levelTokens [] levelEnd lexable_level
  | succ levels ih =>
      rw [List.replicate_succ, List.flatten_cons]
      refine ⟨fun token htoken => ?_, ?_, rfl, rfl, ih.trails⟩
      · exact (List.mem_append.mp htoken).elim (lexable_level.readable token) (ih.readable token)
      · rw [List.append_assoc, List.isChain_append]
        refine ⟨lexable_level.parted.left_of_append, ih.parted, fun last hlast next _ => ?_⟩
        obtain rfl := Option.some.inj hlast
        exact Token.parted_of_closed (by decide) (by decide)

theorem textOf_levels (levels : Nat) :
    textOf ((List.replicate levels levelTokens).flatten ++ [levelEnd]) = nestedText levels := by
  induction levels with
  | zero => rfl
  | succ levels ih =>
      have hlevel : textOf levelTokens = levelText := by decide +kernel
      rw [List.replicate_succ, List.flatten_cons, List.append_assoc, textOf_append, ih, hlevel,
        nestedText, nestedText, List.replicate_succ, String.join_cons]

/-- Tokens with the essence of so many levels nest so deep. -/
theorem nests_of_essence {levels : Nat} {tokens : List Token}
    (h : tokens.map Token.essence =
      ((List.replicate levels levelTokens).flatten ++ [levelEnd]).map Token.essence) :
    Nests levels tokens := by
  induction levels generalizing tokens with
  | zero => exact .surface tokens
  | succ levels ih =>
      rw [List.replicate_succ, List.flatten_cons, List.append_assoc, List.map_append] at h
      obtain ⟨front, rest, rfl, hfront, hrest⟩ := List.map_eq_append_iff.mp h
      have hlevel : List.Forall₂ (fun terminal token => terminal.accepts token = true)
          levelTerminals (levelTokens.map Token.essence) := by decide
      rw [← hfront] at hlevel
      -- a set of tokens looks at their essence only
      exact .level (List.forall₂_map_right_iff.mp hlevel) (ih hrest)

/-- The text of so many levels is cut into tokens that nest so deep. -/
theorem stream_nestedText (levels : Nat) :
    ∃ tokens, Token.stream (nestedText levels) = .ok tokens ∧ Nests levels tokens := by
  obtain ⟨tokens, hstream, hessence⟩ := (lexable_levels levels).stream_eq
  rw [textOf_levels] at hstream
  exact ⟨tokens, hstream, nests_of_essence hessence⟩

/-- No line of the text is a directive. -/
theorem mask_nestedText (levels : Nat) : Directive.mask (nestedText levels) = nestedText levels := by
  refine Directive.restarts_maskLine.mapLines_eq_self_iff.mpr (Directive.masked_iff.mpr fun hsign => ?_)
  have hmem : '#' ∈ '\n' :: (nestedText levels).toList := hsign.subset (by simp)
  rw [nestedText, String.toList_join] at hmem
  obtain ⟨text, htext, hmem⟩ := List.mem_flatMap.mp ((List.mem_cons.mp hmem).resolve_left (by decide))
  obtain rfl := List.eq_of_mem_replicate htext
  exact absurd hmem (by decide)

end Grammar

namespace Dialect

open WebIdl.Parser WebIdl.Grammar

/-- A text that nests deeper than the host admits ends in neither a document nor a syntax error. -/
theorem parseWithin_nestedText (dialect : Dialect) {limit levels : Nat} (h : limit < levels) :
    (dialect.parseWithin limit (nestedText levels) none).result = .error .exhausted := by
  obtain ⟨tokens, hstream, hnests⟩ := stream_nestedText levels
  have hsource : Source.read (Tweak.applyAll (dialect.tweaksFor none)
      (Directive.mask (nestedText levels))).1 none =
      .ok ⟨nestedText levels, none, tokens.toArray⟩ := by
    rw [mask_nestedText]
    simp [tweaksFor, Tweak.applyAll, Source.read, hstream]
  have hexhausts : Exhausts ⟨⟨nestedText levels, none, tokens.toArray⟩, dialect.extensions⟩
      (definitions (Production.parseTo limit) dialect.productions) tokens :=
    (hnests.of_le h).exhausts_definitions dialect.productions
  obtain ⟨moved, herror⟩ := hexhausts {} rfl
  exact parseTo_of_error hsource herror

/-- The number of calls that a host lets nest if it is not told otherwise. -/
def hostLimit : Nat := 1000

end Dialect

end WebIdl
