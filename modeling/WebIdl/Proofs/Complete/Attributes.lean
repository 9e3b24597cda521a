import WebIdl.Proofs.Parser.Yields
import WebIdl.Proofs.Shape.Choice
import WebIdl.Proofs.Sound.Parse

/-!
# Productions find the constructs they are for

The converse of `Sound`: given the tokens of a construct of its category, and behind them a token
that does not go on with the construct, the parser of a production finds the construct and leaves
that token.  Where the grammar goes round, the productions inside are taken to be complete already
(`Complete`); the depth that is left bounds the constructs for which that is known.

This module treats attributes.
-/

namespace WebIdl.Grammar

open WebIdl.Parser WebIdl.Shape

/-- The tokens that would go on with a construct of the production. -/
def continuations : Production → Terminal
  | .extendedAttribute => { words := ["=", "("] }
  | .extendedAttributes => .word "["
  | .argument => .word "="
  | .integerType | .primitiveType => .word "long"
  | .type _ | .attributedType _ | .returnType _ => { words := ["?", "<", "long"] }
  | .utf8StringRecord => .word "?"
  | _ => {}

/-- The category of the production says everything about what it finds.  The parsers of single and
of union types find a part of the types each. -/
def IsDecided : Production → Prop
  | .singleType _ | .unionType _ => False
  | _ => True

/-- The parsers of productions find the constructs that need no more than the given depth, and
decline where they have nothing to find. -/
structure Complete (extended : Bool) (scope : Scope) (depth : Nat)
    (nested : Production → Parser (Option Node)) : Prop where
  extensions_eq : scope.extensions = extensionsOf extended
  yields : ∀ {production node next more}, IsDecided production →
    Conforms extended (categoryOf production) node →
    2 * node.tokens.length + production.rank ≤ depth →
    (continuations production).accepts next = false →
    Yields scope (nested production) (node.tokens ++ next :: more) (some node) (next :: more)
  declines : ∀ {production tokens}, production.rank ≤ depth → Misses production tokens →
    Yields scope (nested production) tokens none tokens

section

variable {extended : Bool} {scope : Scope} {depth : Nat}
  {nested : Production → Parser (Option Node)} {node : Node} {next : Token} {more : List Token}

theorem isInline_eq {text : String} {token : Token} :
    token.isInline text = (Terminal.word text).accepts token := by
  rw [Bool.eq_iff_iff, accepts_word]
  simp [Token.isInline]

/-! ## Arguments and values -/

theorem yields_argumentList (hcomplete : Complete extended scope depth nested)
    {arguments : List Node} {closing : Token}
    (harguments : Items (Conforms extended) arguments { symbol := .argument } "," false)
    (hdepth : 2 * (arguments.flatMap Node.tokens).length + 2 ≤ depth)
    (hclosing : (Terminal.word ")").accepts closing = true) :
    Yields scope (argumentList nested) (arguments.flatMap Node.tokens ++ closing :: more) arguments
      (closing :: more) := by
  refine yields_commaList (fun {node next rest} hnode hlimit hnext => ?_) ?_
    (Terminal.rejects_of_avoids rfl hclosing) rfl harguments (Nat.le_refl _)
  · refine hcomplete.yields trivial hnode (by simp only [Production.rank]; omega) ?_
    rcases hnext with rfl | hcomma
    · exact Terminal.rejects_of_avoids rfl hclosing
    · exact Terminal.rejects_of_avoids rfl hcomma
  · exact hcomplete.declines (by simp only [Production.rank]; omega)
      (.head rfl (Terminal.rejects_of_avoids rfl hclosing))

theorem yields_wrappedToken {kind : Token.Kind} (hkind : kind ≠ .eof)
    (h : Conforms extended { symbol := .wrappedToken kind } node) :
    Yields scope (wrappedToken kind) (node.tokens ++ more) (some node) more := by
  cases h with
  | mk hform hparts =>
      obtain rfl := List.mem_singleton.mp hform
      obtain ⟨value, rest, rfl, hvalue, hrest⟩ := fits_token.mp hparts
      obtain rfl := fits_nil.mp hrest
      exact (oneOf_ofKind? (by simpa using hkind.symm)).yields_bind hvalue (yields_pure _)

theorem yields_wrappedToken_none {kind : Token.Kind} (hkind : kind ≠ .eof) {token : Token}
    (htoken : token.kind ≠ kind) :
    Yields scope (wrappedToken kind) (token :: more) none (token :: more) := by
  refine (oneOf_ofKind? (by simpa using hkind.symm)).yields_bind_none ?_ (yields_pure none)
  rw [Bool.eq_false_iff]
  intro haccepts
  exact htoken (by simpa using accepts_kinds.mp haccepts)

/-- A list of values begins with a token of their kind. -/
theorem begins_values {kind : Token.Kind} {values : List Node}
    (hvalues : Items (Conforms extended) values { symbol := .wrappedToken kind } "," false)
    (hleast : 1 ≤ values.length) :
    ∃ token rest, values.flatMap Node.tokens = token :: rest ∧ token.kind = kind := by
  have hvalue {separator : Option String} {value : Node}
      (h : Conforms extended { symbol := .wrappedToken kind, separator } value) :
      ∃ token rest, value.tokens = token :: rest ∧ token.kind = kind := by
    cases h with
    | mk hform hparts =>
        obtain rfl := List.mem_singleton.mp hform
        obtain ⟨token, rest, rfl, htoken, -⟩ := fits_token.mp hparts
        exact ⟨token, tokensOf rest, by simp [Node.tokens, tokensOf],
          by simpa using accepts_kinds.mp htoken⟩
  cases hvalues with
  | nil => cases hleast
  | last hnode =>
      obtain ⟨token, rest, htokens, hkind⟩ := hvalue hnode
      exact ⟨token, rest, by simp [htokens], hkind⟩
  | cons hnode _ _ =>
      obtain ⟨token, rest, htokens, hkind⟩ := hvalue hnode
      exact ⟨token, _, by rw [List.flatMap_cons, htokens, List.cons_append], hkind⟩

/-- The first kind that fits is the kind of the values. -/
theorem yields_valueList {kinds : List Token.Kind} {kind : Token.Kind} (hkind : kind ∈ kinds)
    (hkinds : .eof ∉ kinds ∧ .inline ∉ kinds) {values : List Node} {closing : Token}
    (hvalues : Items (Conforms extended) values { symbol := .wrappedToken kind } "," false)
    (hleast : 1 ≤ values.length) (hclosing : (Terminal.word ")").accepts closing = true) :
    Yields scope (valueList kinds) (values.flatMap Node.tokens ++ closing :: more) values
      (closing :: more) := by
  obtain ⟨token, rest, htokens, htoken⟩ := begins_values hvalues hleast
  -- the kinds are tried in turn, and the first that finds a value takes the list
  induction kinds with
  | nil => cases hkind
  | cons first others ih =>
      have hfirst : first ≠ .eof ∧ first ≠ .inline := by
        refine ⟨?_, ?_⟩ <;> rintro rfl
        · exact hkinds.1 List.mem_cons_self
        · exact hkinds.2 List.mem_cons_self
      by_cases hsame : first = kind
      · subst hsame
        have hlist : Yields scope (commaList s!"{first.word} list" false (wrappedToken first))
            (values.flatMap Node.tokens ++ closing :: more) values (closing :: more) := by
          refine yields_commaList (fun hnode _ _ => yields_wrappedToken hfirst.1 hnode)
            (yields_wrappedToken_none hfirst.1 ?_) (Terminal.rejects_of_avoids rfl hclosing) rfl
            hvalues (Nat.le_refl _)
          rw [(accepts_word.mp hclosing).1]
          exact hfirst.2.symm
        refine hlist.bind ?_
        cases values with
        | nil => cases hleast
        | cons value values => exact yields_pure _
      · -- a list of another kind is empty here, and the next kind is tried
        have hothers : kind ∈ others := (List.mem_cons.mp hkind).resolve_left (Ne.symm hsame)
        -- nor does the list begin with a comma, which would be an error
        have hcomma : (Terminal.word ",").accepts token = false := by
          rw [Bool.eq_false_iff]
          intro haccepts
          refine hkinds.2 (List.mem_cons_of_mem _ ?_)
          rwa [← (accepts_word.mp haccepts).1, htoken]
        have hlist : Yields scope (commaList s!"{first.word} list" false (wrappedToken first))
            (token :: (rest ++ closing :: more)) [] (token :: (rest ++ closing :: more)) :=
          yields_commaList (fun hnode _ _ => yields_wrappedToken hfirst.1 hnode)
            (yields_wrappedToken_none hfirst.1 (by rw [htoken]; exact Ne.symm hsame)) hcomma rfl
            (.nil : Items (Conforms extended) [] { symbol := .wrappedToken first } "," false)
            (Nat.le_refl _)
        have hrest := ih hothers ⟨fun h => hkinds.1 (List.mem_cons_of_mem _ h),
          fun h => hkinds.2 (List.mem_cons_of_mem _ h)⟩
        rw [htokens, List.cons_append] at hrest ⊢
        exact hlist.bind hrest

/-! ## Attributes -/

theorem yields_extendedAttribute (hcomplete : Complete extended scope depth nested)
    (h : Conforms extended { symbol := .extendedAttribute } node)
    (hdepth : 2 * node.tokens.length ≤ depth)
    (hnext : Terminal.accepts { words := ["=", "("] } next = false) :
    Yields scope (extendedAttribute nested) (node.tokens ++ next :: more) (some node)
      (next :: more) := by
  have hassign : (Terminal.word "=").accepts next = false := Terminal.rejects_of_within hnext rfl
  have hopening : (Terminal.word "(").accepts next = false := Terminal.rejects_of_within hnext rfl
  cases h with
  | mk hform hparts =>
      obtain ⟨tail, htail, rfl⟩ := List.mem_map.mp hform
      obtain ⟨name, rest, rfl, hname, hrest⟩ := fits_token.mp hparts
      rcases List.mem_append.mp htail with hplain | hlist
      · simp only [List.mem_cons, List.not_mem_nil, or_false] at hplain
        rcases hplain with rfl | rfl | rfl | rfl | rfl
        · -- `Name`
          obtain rfl := fits_nil.mp hrest
          refine oneOf_identifier.yields_bind hname ?_
          refine (oneOf_inline? _).yields_bind_none hassign ?_
          refine (yields_when?_false rfl).bind ((yields_when?_false rfl).bind ?_)
          refine (oneOf_inline? _).yields_bind_none hopening ?_
          exact yields_refuse_bind rfl (yields_pure _)
        · -- `Name=*`
          obtain ⟨assign, rest, rfl, hassign, hrest⟩ := fits_token.mp hrest
          obtain ⟨star, rest, rfl, hstar, hrest⟩ := fits_token.mp hrest
          obtain rfl := fits_nil.mp hrest
          refine oneOf_identifier.yields_bind hname ?_
          refine (oneOf_inline? _).yields_bind hassign ?_
          exact (((oneOf_inline? _).yields_some hstar).when? rfl).bind (yields_pure _)
        · -- `Name=value`
          obtain ⟨assign, rest, rfl, hassign, hrest⟩ := fits_token.mp hrest
          obtain ⟨value, rest, rfl, hvalue, hrest⟩ := fits_token.mp hrest
          obtain rfl := fits_nil.mp hrest
          refine oneOf_identifier.yields_bind hname ?_
          refine (oneOf_inline? _).yields_bind hassign ?_
          refine (((oneOf_inline? _).yields_none (Terminal.rejects_of_avoids rfl hvalue)).when?
            rfl).bind ?_
          refine (((oneOf_ofKind? (by decide)).yields_some hvalue).when? rfl).bind ?_
          refine (oneOf_inline? _).yields_bind_none hopening ?_
          exact yields_refuse_bind rfl (yields_pure _)
        · -- `Name(arguments)`
          obtain ⟨opening, rest, rfl, hopening, hrest⟩ := fits_token.mp hrest
          obtain ⟨arguments, rest, rfl, harguments, -, hrest⟩ := fits_list.mp hrest
          obtain ⟨closing, rest, rfl, hclosing, hrest⟩ := fits_token.mp hrest
          obtain rfl := fits_nil.mp hrest
          simp only [Node.tokens, tokensOf, tokensOf_append, tokensOf_ofNodes, List.length_cons,
            List.length_append, List.cons_append, List.append_assoc, List.nil_append] at hdepth ⊢
          refine oneOf_identifier.yields_bind hname ?_
          refine (oneOf_inline? _).yields_bind_none (Terminal.rejects_of_avoids rfl hopening) ?_
          refine (yields_when?_false rfl).bind ((yields_when?_false rfl).bind ?_)
          refine (oneOf_inline? _).yields_bind hopening ?_
          refine (yields_argumentList hcomplete harguments (by omega) hclosing).bind ?_
          exact (oneOf_inline? _).yields_expect_bind hclosing (yields_pure _)
        · -- `Name=value(arguments)`
          obtain ⟨assign, rest, rfl, hassign, hrest⟩ := fits_token.mp hrest
          obtain ⟨value, rest, rfl, hvalue, hrest⟩ := fits_token.mp hrest
          obtain ⟨opening, rest, rfl, hopening, hrest⟩ := fits_token.mp hrest
          obtain ⟨arguments, rest, rfl, harguments, -, hrest⟩ := fits_list.mp hrest
          obtain ⟨closing, rest, rfl, hclosing, hrest⟩ := fits_token.mp hrest
          obtain rfl := fits_nil.mp hrest
          simp only [Node.tokens, tokensOf, tokensOf_append, tokensOf_ofNodes, List.length_cons,
            List.length_append, List.cons_append, List.append_assoc, List.nil_append] at hdepth ⊢
          refine oneOf_identifier.yields_bind hname ?_
          refine (oneOf_inline? _).yields_bind hassign ?_
          refine (((oneOf_inline? _).yields_none (Terminal.rejects_of_avoids rfl hvalue)).when?
            rfl).bind ?_
          refine (((oneOf_ofKind? (by decide)).yields_some hvalue).when? rfl).bind ?_
          refine (oneOf_inline? _).yields_bind hopening ?_
          refine (yields_argumentList hcomplete harguments (by omega) hclosing).bind ?_
          exact (oneOf_inline? _).yields_expect_bind hclosing (yields_pure _)
      · -- `Name=(values)`
        obtain ⟨kind, hkind, rfl⟩ := List.mem_map.mp hlist
        obtain ⟨assign, rest, rfl, hassign, hrest⟩ := fits_token.mp hrest
        obtain ⟨opening, rest, rfl, hopening, hrest⟩ := fits_token.mp hrest
        obtain ⟨values, rest, rfl, hvalues, hleast, hrest⟩ := fits_list.mp hrest
        obtain ⟨closing, rest, rfl, hclosing, hrest⟩ := fits_token.mp hrest
        obtain rfl := fits_nil.mp hrest
        simp only [Node.tokens, tokensOf, tokensOf_append, tokensOf_ofNodes, List.cons_append,
          List.append_assoc, List.nil_append]
        refine oneOf_identifier.yields_bind hname ?_
        refine (oneOf_inline? _).yields_bind hassign ?_
        refine (((oneOf_inline? _).yields_none (Terminal.rejects_of_avoids rfl hopening)).when?
          rfl).bind ?_
        refine (((oneOf_ofKind? (by decide)).yields_none
          (Terminal.rejects_of_avoids rfl hopening)).when? rfl).bind ?_
        refine (oneOf_inline? _).yields_bind hopening ?_
        refine (yields_valueList hkind (by decide) hvalues hleast hclosing).bind ?_
        exact (oneOf_inline? _).yields_expect_bind hclosing (yields_pure _)

/-- A list of attributes may be followed by anything but another one. -/
theorem yields_extendedAttributes (hcomplete : Complete extended scope depth nested)
    {attributes : Node} {mode : Mode}
    (h : Conforms extended { symbol := .attributes mode } attributes)
    (hdepth : 2 * attributes.tokens.length ≤ depth)
    (hnext : (Terminal.word "[").accepts next = false) :
    Yields scope (extendedAttributes nested) (attributes.tokens ++ next :: more) attributes
      (next :: more) := by
  cases h with
  | mk hform hparts =>
      rename_i form parts
      -- attributes are written out or they are not, whatever the mode admits
      have hcases : form = unwritten ∨ form = written := by
        cases mode with
        | never => exact Or.inl (List.mem_singleton.mp hform)
        | always => exact Or.inr (List.mem_singleton.mp hform)
        | maybe => simpa [Symbol.forms, Symbol.ownForms, attributesForms] using hform
      rcases hcases with rfl | rfl
      · obtain rfl := fits_nil.mp hparts
        exact (oneOf_inline? _).yields_bind_none hnext (yields_pure _)
      · obtain ⟨opening, rest, rfl, hopening, hrest⟩ := fits_token.mp hparts
        obtain ⟨items, rest, rfl, hitems, hleast, hrest⟩ := fits_list.mp hrest
        obtain ⟨closing, rest, rfl, hclosing, hrest⟩ := fits_token.mp hrest
        obtain rfl := fits_nil.mp hrest
        simp only [Node.tokens, tokensOf, tokensOf_append, tokensOf_ofNodes, List.length_cons,
          List.length_append, List.cons_append, List.append_assoc, List.nil_append] at hdepth ⊢
        refine (oneOf_inline? _).yields_bind hopening ?_
        refine (yields_commaList (fun {item next rest} hitem hlimit hnext => ?_) ?_
          (Terminal.rejects_of_avoids rfl hclosing) rfl hitems (Nat.le_refl _)).bind ?_
        · -- behind an attribute stands the bracket or a comma, neither of which goes on with it
          refine yields_extendedAttribute hcomplete hitem (by omega) ?_
          rcases hnext with rfl | hcomma
          · exact Terminal.rejects_of_avoids rfl hclosing
          · exact Terminal.rejects_of_avoids rfl hcomma
        · exact oneOf_identifier.yields_bind_none (Terminal.rejects_of_avoids rfl hclosing)
            (yields_pure none)
        · refine (oneOf_inline? _).yields_expect_bind hclosing ?_
          -- a list that is empty or followed by another one would be refused
          refine yields_refuse_bind ?_ (yields_nextIs_bind (yields_refuse_bind ?_ (yields_pure _)))
          · cases items with
            | nil => cases hleast
            | cons item items => rfl
          · rwa [isInline_eq]

/-- Where there is no bracket, the attributes are those that are not written. -/
theorem yields_extendedAttributes_none {token : Token}
    (h : (Terminal.word "[").accepts token = false) :
    Yields scope (extendedAttributes nested) (token :: more) Node.noAttributes (token :: more) :=
  (oneOf_inline? _).yields_bind_none h (yields_pure _)

end

end WebIdl.Grammar
