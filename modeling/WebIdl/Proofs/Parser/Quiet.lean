import WebIdl.Proofs.Parser.Reading

/-!
# Parsers that keep quiet

A parser can tell others about itself in two ways besides what it finds: it can note a definition as
the one being read, and it can fail with a problem that carries a reason, so that the construct is
left to other productions.  A quiet parser does neither.  The combinators keep parsers quiet as long
as the problems that they report carry no reason.

A parser that notes definitions is followed by what it leaves behind (`Tracks`): which definition is
being read once the parser has found something.
-/

namespace WebIdl

/-- The reason that a failure carries. -/
def Failure.reason? : Failure → Option String
  | .syntaxError error => error.problem.reason?
  | .pastEnd => none
  | .missing _ => none
  | .exhausted => none

/-- The parse left the definition being read as it was, or it failed without a reason. -/
def Outcome.Quiet {α : Type} (current : Option Heading) : Outcome α → Prop
  | .ok _ moved => moved.current = current
  | .error failure _ => failure.reason? = none

namespace Parser

/-- The parser notes no definition, and fails without a reason if it fails. -/
def Quiet {α : Type} (scope : Scope) (parser : Parser α) : Prop :=
  ∀ cursor : Cursor, (parser scope cursor).Quiet cursor.current

section

variable {α β : Type} {scope : Scope} {parser : Parser α} {next : α → Parser β}

theorem Quiet.current_eq (hparser : Quiet scope parser) {cursor moved : Cursor} {value : α}
    (h : parser scope cursor = .ok value moved) : moved.current = cursor.current := by
  have hquiet := hparser cursor
  rwa [h] at hquiet

theorem Quiet.reason?_eq (hparser : Quiet scope parser) {cursor moved : Cursor} {failure : Failure}
    (h : parser scope cursor = .error failure moved) : failure.reason? = none := by
  have hquiet := hparser cursor
  rwa [h] at hquiet

/-! ## Statements in a row -/

theorem quiet_pure (value : α) : Quiet scope (pure value) :=
  fun _ => rfl

theorem quiet_exhausted : Quiet scope (exhausted (α := α)) :=
  fun _ => rfl

theorem Quiet.bind (hparser : Quiet scope parser) (hnext : ∀ value, Quiet scope (next value)) :
    Quiet scope (parser >>= next) := by
  intro cursor
  have hquiet := hparser cursor
  simp only [Bind.bind]
  cases hresult : parser scope cursor with
  | error failure moved =>
      rw [hresult] at hquiet
      exact hquiet
  | ok value moved =>
      rw [hresult] at hquiet
      have hrest := hnext value moved
      rwa [show moved.current = cursor.current from hquiet] at hrest

theorem Quiet.map (hparser : Quiet scope parser) (wrap : α → β) : Quiet scope (wrap <$> parser) :=
  hparser.bind fun value => quiet_pure (wrap value)

theorem quiet_size_bind {next : Nat → Parser β}
    (hnext : Quiet scope (next scope.source.tokens.size)) : Quiet scope (size >>= next) :=
  hnext

theorem quiet_extensions_bind {next : Extensions → Parser β}
    (hnext : Quiet scope (next scope.extensions)) : Quiet scope (extensions >>= next) :=
  hnext

theorem quiet_fail {problem : Problem} (hreason : problem.reason? = none) :
    Quiet scope (fail (α := α) problem) := by
  intro cursor
  unfold fail
  cases scope.source.tokens[cursor.position]? with
  | none => rfl
  | some token => exact hreason

theorem quiet_refuse {condition : Bool} {problem : Problem} (hreason : problem.reason? = none) :
    Quiet scope (refuse condition problem) := by
  cases condition with
  | false => exact quiet_pure ()
  | true => exact quiet_fail hreason

theorem quiet_refuse_bind {condition : Bool} {problem : Problem} {next : Unit → Parser β}
    (hreason : problem.reason? = none) (hnext : Quiet scope (next ())) :
    Quiet scope (refuse condition problem >>= next) :=
  (quiet_refuse hreason).bind fun _ => hnext

theorem quiet_present (reading : Except Missing α) : Quiet scope (present reading) := by
  intro cursor
  cases reading <;> rfl

/-! ## Tokens -/

theorem quiet_peek : Quiet scope peek := by
  intro cursor
  unfold peek
  cases scope.source.tokens[cursor.position]? <;> rfl

theorem quiet_nextIs (text : String) : Quiet scope (nextIs text) :=
  quiet_peek.bind fun token => quiet_pure (token.isInline text)

theorem quiet_nextIsKind (kind : Token.Kind) : Quiet scope (nextIsKind kind) :=
  quiet_peek.bind fun token => quiet_pure (token.kind == kind)

theorem quiet_takeIf (test : Token → Bool) : Quiet scope (takeIf test) := by
  intro cursor
  unfold takeIf
  cases scope.source.tokens[cursor.position]? with
  | none => rfl
  | some token =>
      dsimp only
      split <;> rfl

theorem quiet_inline? (texts : List String) : Quiet scope (inline? texts) :=
  quiet_takeIf _

theorem quiet_ofKind? (kinds : List Token.Kind) : Quiet scope (ofKind? kinds) :=
  quiet_takeIf _

theorem quiet_identifier? (text : String) : Quiet scope (identifier? text) :=
  quiet_takeIf _

/-! ## Choices -/

theorem Quiet.expect {parser : Parser (Option α)} (hparser : Quiet scope parser)
    {problem : Problem} (hreason : problem.reason? = none) :
    Quiet scope (expect parser problem) := by
  refine hparser.bind fun value => ?_
  cases value with
  | none => exact quiet_fail hreason
  | some value => exact quiet_pure value

theorem Quiet.when? {parser : Parser (Option α)} (hparser : Quiet scope parser)
    (condition : Bool) : Quiet scope (when? condition parser) := by
  cases condition with
  | false => exact quiet_pure none
  | true => exact hparser

theorem Quiet.either {first second : Parser (Option α)} (hfirst : Quiet scope first)
    (hsecond : Quiet scope second) : Quiet scope (either first second) := by
  refine hfirst.bind fun value => ?_
  cases value with
  | none => exact hsecond
  | some value => exact quiet_pure (some value)

theorem Quiet.rewinding {parser : Parser (Option α)} (hparser : Quiet scope parser) :
    Quiet scope (rewinding parser) := by
  intro cursor
  refine (hparser.bind fun value => ?_) cursor
  cases value with
  | none => exact fun _ => rfl
  | some value => exact quiet_pure (some value)

theorem quiet_firstMatch {parse : Production → Parser (Option Node)}
    {productions : List Production}
    (hparse : ∀ production ∈ productions, Quiet scope (parse production)) :
    Quiet scope (firstMatch parse productions) := by
  induction productions with
  | nil => exact quiet_pure none
  | cons production others ih =>
      obtain ⟨hproduction, hothers⟩ := List.forall_mem_cons.mp hparse
      intro cursor
      refine (hproduction.bind fun value => ?_) cursor
      cases value with
      | none => exact fun moved => ih hothers { moved with position := cursor.position }
      | some node => exact fun _ => rfl

/-! ## Lists -/

theorem quiet_itemsFrom {item : Parser (Option Node)} (hitem : Quiet scope item) (items : String)
    (mayDangle : Bool) (fuel : Nat) (afterComma : Bool) :
    Quiet scope (itemsFrom items mayDangle item fuel afterComma) := by
  induction fuel generalizing afterComma with
  | zero => exact quiet_exhausted
  | succ fuel ih =>
      refine hitem.bind fun found => ?_
      cases found with
      | none => exact quiet_refuse_bind rfl (quiet_pure [])
      | some node =>
          refine (quiet_inline? _).bind fun comma => ?_
          cases comma with
          | none => exact quiet_pure [node]
          | some comma => exact (ih true).bind fun others => quiet_pure _

theorem quiet_commaList {item : Parser (Option Node)} (hitem : Quiet scope item) (items : String)
    (mayDangle : Bool) : Quiet scope (commaList items mayDangle item) :=
  quiet_size_bind (quiet_itemsFrom hitem items mayDangle _ false)

end

/-! ## The definition being read -/

/-- Wherever the parser, started while `before` is the definition being read, finds something,
`after` holds of that and of the definition being read then. -/
def Tracks {α : Type} (scope : Scope) (before : Option Heading) (parser : Parser α)
    (after : α → Option Heading → Prop) : Prop :=
  ∀ (cursor : Cursor) (value : α) (moved : Cursor), cursor.current = before →
    parser scope cursor = .ok value moved → after value moved.current

section

variable {α β : Type} {scope : Scope} {before : Option Heading} {parser : Parser α}
  {next : α → Parser β} {middle : α → Option Heading → Prop} {after : β → Option Heading → Prop}

theorem tracks_pure {value : β} (h : after value before) :
    Tracks scope before (pure value) after := by
  rintro cursor found moved rfl hpure
  obtain ⟨rfl, rfl⟩ := pure_eq_ok.mp hpure
  exact h

theorem Tracks.bind (hparser : Tracks scope before parser middle)
    (hnext : ∀ value heading, middle value heading → Tracks scope heading (next value) after) :
    Tracks scope before (parser >>= next) after := by
  intro cursor found moved hcursor h
  obtain ⟨value, stop, hvalue, hrest⟩ := bind_eq_ok.mp h
  exact hnext value stop.current (hparser cursor value stop hcursor hvalue) stop found moved rfl hrest

/-- A quiet parser leaves the definition being read to what follows. -/
theorem Quiet.tracks_bind (hparser : Quiet scope parser)
    (hnext : ∀ value, Tracks scope before (next value) after) :
    Tracks scope before (parser >>= next) after := by
  intro cursor found moved hcursor h
  obtain ⟨value, stop, hvalue, hrest⟩ := bind_eq_ok.mp h
  exact hnext value stop found moved ((hparser.current_eq hvalue).trans hcursor) hrest

/-- What is insisted on has been found, whatever the problem would be if it had not. -/
theorem Quiet.tracks_expect_bind {parser : Parser (Option α)} (hparser : Quiet scope parser)
    {problem : Problem} (hnext : ∀ value, Tracks scope before (next value) after) :
    Tracks scope before (Parser.expect parser problem >>= next) after := by
  intro cursor found moved hcursor h
  obtain ⟨value, stop, hvalue, hrest⟩ := expect_bind.mp h
  exact hnext value stop found moved ((hparser.current_eq hvalue).trans hcursor) hrest

theorem tracks_size_bind {next : Nat → Parser β}
    (hnext : Tracks scope before (next scope.source.tokens.size) after) :
    Tracks scope before (size >>= next) after :=
  fun cursor found moved hcursor h => hnext cursor found moved hcursor (size_bind.mp h)

theorem tracks_enter_bind {heading : Heading} {next : Unit → Parser β}
    (hnext : Tracks scope (some heading) (next ()) after) :
    Tracks scope before (enter heading >>= next) after :=
  fun _ found moved _ h => hnext _ found moved rfl (enter_bind.mp h)

theorem tracks_extensions_bind {next : Extensions → Parser β}
    (hnext : Tracks scope before (next scope.extensions) after) :
    Tracks scope before (extensions >>= next) after :=
  fun cursor found moved hcursor h => hnext cursor found moved hcursor (extensions_bind.mp h)

/-- Going back to the start changes nothing about the definition being read. -/
theorem Tracks.rewinding {parser : Parser (Option α)} {after : Option α → Option Heading → Prop}
    (hparser : Tracks scope before parser after) :
    Tracks scope before (rewinding parser) after := by
  intro cursor found moved hcursor h
  rcases rewinding_eq_ok.mp h with ⟨value, rfl, hvalue⟩ | ⟨rfl, stop, hnone, rfl⟩
  · exact hparser cursor _ moved hcursor hvalue
  · exact hparser cursor none stop hcursor hnone

end

end Parser

end WebIdl
