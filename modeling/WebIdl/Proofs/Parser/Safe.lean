import WebIdl.Proofs.Parser.Terminal
import WebIdl.Proofs.Token.Lossless

/-!
# Parsers that stay within the text

A parser is safe from a place on if, started at a token behind it, it ends in one of two ways: it
stands at a token again, or it reports a syntax error at one.  It neither runs past the end of the
text, nor asks a construct for a token that it lacks, nor exhausts the bound on its recursion.

The place matters for the loops.  Whoever has read a token goes on from a later place, so a loop
that reads in each round needs no more rounds than there are tokens left.
-/

namespace WebIdl

open Shape

/-- The parse stands at a token that is not before `least`, or it ended with a syntax error at a
token. -/
def Outcome.Within {α : Type} (size least : Nat) : Outcome α → Prop
  | .ok _ moved => least ≤ moved.position ∧ moved.position < size
  | .error (.syntaxError found) _ => found.position < size
  | .error .pastEnd _ => False
  | .error (.missing _) _ => False
  | .error .exhausted _ => False

/-- An outcome with an error is within the text whatever was looked for. -/
theorem Outcome.within_error {α β : Type} {size least : Nat} {failure : Failure}
    {cursor : Cursor} (h : (.error failure cursor : Outcome α).Within size least) (other : Nat) :
    (.error failure cursor : Outcome β).Within size other := by
  cases failure with
  | syntaxError error => exact h
  | pastEnd => exact h
  | missing token => exact h
  | exhausted => exact h

theorem Outcome.Within.mono {α : Type} {size least later : Nat} {outcome : Outcome α}
    (h : outcome.Within size later) (hleast : least ≤ later) : outcome.Within size least := by
  cases outcome with
  | ok value moved => exact ⟨Nat.le_trans hleast h.1, h.2⟩
  | error failure moved => exact Outcome.within_error h least

/-- Behind every token but `eof` there is another one. -/
def Scope.Ends (scope : Scope) : Prop :=
  ∀ index token, scope.source.tokens[index]? = some token → token.kind ≠ .eof →
    index + 1 < scope.source.tokens.size

theorem Scope.ends_of_closed {scope : Scope} {front : List Token} {last : Token}
    (hclosed : Token.Closed scope.source.tokens.toList front last) : scope.Ends := by
  intro index token htoken hkind
  have hsize : scope.source.tokens.size = front.length + 1 := by
    simpa using congrArg List.length hclosed.split
  rw [← Array.getElem?_toList, hclosed.split] at htoken
  by_cases hlt : index < front.length
  · omega
  · obtain ⟨hbound, hlast⟩ := List.getElem?_eq_some_iff.mp htoken
    rw [List.getElem_append_right (Nat.le_of_not_lt hlt), List.getElem_singleton] at hlast
    exact absurd (hlast ▸ hclosed.last_kind) hkind

namespace Parser

/-- Started at a token that is not before `least`, the parser stays within the text. -/
def Safe {α : Type} (scope : Scope) (least : Nat) (parser : Parser α) : Prop :=
  ∀ cursor : Cursor, least ≤ cursor.position → cursor.position < scope.source.tokens.size →
    (parser scope cursor).Within scope.source.tokens.size least

section

variable {α β : Type} {scope : Scope} {least : Nat} {parser : Parser α} {next : α → Parser β}

/-! ## Statements in a row -/

theorem safe_pure (value : α) : Safe scope least (pure value) :=
  fun _ hleast hsize => ⟨hleast, hsize⟩

/-- What follows a parser starts where the parser has got to. -/
theorem Safe.bind_within (hparser : Safe scope least parser)
    (hnext : ∀ {cursor value moved}, least ≤ cursor.position → least ≤ moved.position →
      moved.position < scope.source.tokens.size → parser scope cursor = .ok value moved →
      (next value scope moved).Within scope.source.tokens.size least) :
    Safe scope least (parser >>= next) := by
  intro cursor hleast hsize
  have hwithin := hparser cursor hleast hsize
  simp only [Bind.bind]
  cases hresult : parser scope cursor with
  | error failure moved =>
      rw [hresult] at hwithin
      exact Outcome.within_error hwithin least
  | ok value moved =>
      rw [hresult] at hwithin
      exact hnext hleast hwithin.1 hwithin.2 hresult

theorem Safe.bind (hparser : Safe scope least parser)
    (hnext : ∀ value, Safe scope least (next value)) : Safe scope least (parser >>= next) :=
  hparser.bind_within fun _ hmoved hsize _ => hnext _ _ hmoved hsize

theorem Safe.map (hparser : Safe scope least parser) (wrap : α → β) :
    Safe scope least (wrap <$> parser) :=
  hparser.bind fun value => safe_pure (wrap value)

theorem safe_size_bind {next : Nat → Parser β}
    (hnext : Safe scope least (next scope.source.tokens.size)) :
    Safe scope least (size >>= next) :=
  hnext

theorem safe_extensions_bind {next : Extensions → Parser β}
    (hnext : Safe scope least (next scope.extensions)) : Safe scope least (extensions >>= next) :=
  hnext

theorem safe_enter_bind {heading : Heading} {next : Unit → Parser β}
    (hnext : Safe scope least (next ())) : Safe scope least (enter heading >>= next) :=
  fun cursor hleast hsize => hnext { cursor with current := some heading } hleast hsize

/-- A problem is reported at the next token, which is there. -/
theorem safe_fail (problem : Problem) : Safe scope least (fail (α := α) problem) := by
  intro cursor hleast hsize
  simp only [fail, Array.getElem?_eq_getElem hsize]
  exact hsize

theorem safe_refuse (condition : Bool) (problem : Problem) :
    Safe scope least (refuse condition problem) := by
  cases condition with
  | false => exact safe_pure ()
  | true => exact safe_fail problem

theorem safe_refuse_bind {condition : Bool} {problem : Problem} {next : Unit → Parser β}
    (hnext : Safe scope least (next ())) : Safe scope least (refuse condition problem >>= next) :=
  (safe_refuse condition problem).bind fun _ => hnext

theorem safe_nextIs (text : String) : Safe scope least (nextIs text) := by
  intro cursor hleast hsize
  simp only [nextIs, peek, Bind.bind, Array.getElem?_eq_getElem hsize]
  exact ⟨hleast, hsize⟩

theorem safe_nextIsKind (kind : Token.Kind) : Safe scope least (nextIsKind kind) := by
  intro cursor hleast hsize
  simp only [nextIsKind, peek, Bind.bind, Array.getElem?_eq_getElem hsize]
  exact ⟨hleast, hsize⟩

/-- What a construct says can be read if its tokens are there. -/
theorem safe_present_bind {reading : Except Missing α} (hreading : ∃ value, reading = .ok value)
    (hnext : ∀ value, Safe scope least (next value)) :
    Safe scope least (present reading >>= next) := by
  obtain ⟨value, rfl⟩ := hreading
  exact hnext value

theorem Safe.expect {parser : Parser (Option α)} (hparser : Safe scope least parser)
    (problem : Problem) : Safe scope least (expect parser problem) := by
  refine hparser.bind fun value => ?_
  cases value with
  | none => exact safe_fail problem
  | some value => exact safe_pure value

/-! ## Choices -/

theorem Safe.when? {parser : Parser (Option α)} (hparser : Safe scope least parser)
    (condition : Bool) : Safe scope least (when? condition parser) := by
  cases condition with
  | false => exact safe_pure none
  | true => exact hparser

theorem Safe.either {first second : Parser (Option α)} (hfirst : Safe scope least first)
    (hsecond : Safe scope least second) : Safe scope least (either first second) := by
  refine hfirst.bind fun value => ?_
  cases value with
  | none => exact hsecond
  | some value => exact safe_pure (some value)

theorem Safe.rewinding {parser : Parser (Option α)} (hparser : Safe scope least parser) :
    Safe scope least (rewinding parser) := by
  intro cursor hleast hsize
  have hback : ∀ value, Safe scope least (match value with
      | some value => pure (some value)
      | none => do
        moveTo cursor.position
        return none : Parser (Option α)) := by
    intro value
    cases value with
    | none => exact fun _ _ _ => ⟨hleast, hsize⟩
    | some value => exact safe_pure (some value)
  exact (hparser.bind hback) cursor hleast hsize

theorem safe_firstMatch {parse : Production → Parser (Option Node)}
    {productions : List Production}
    (hparse : ∀ production ∈ productions, Safe scope least (parse production)) :
    Safe scope least (firstMatch parse productions) := by
  induction productions with
  | nil => exact safe_pure none
  | cons production others ih =>
      obtain ⟨hproduction, hothers⟩ := List.forall_mem_cons.mp hparse
      intro cursor hleast hsize
      refine (hproduction.bind fun value => ?_) cursor hleast hsize
      cases value with
      | none => exact fun _ _ _ => ih hothers _ hleast hsize
      | some node => exact fun _ hleast hsize => ⟨hleast, hsize⟩

/-- Leaving a construct to other parsers puts the cursor back to a place within the text. -/
theorem Safe.within_deferring {parser : Parser Node} {start later : Nat}
    (hparser : Safe scope later parser) (hlater : least ≤ later) (hleast : least ≤ start)
    (hstart : start < scope.source.tokens.size) (reasons : List String) {cursor : Cursor}
    (hcursor : later ≤ cursor.position) (hsize : cursor.position < scope.source.tokens.size) :
    (deferring reasons start parser scope cursor).Within scope.source.tokens.size least := by
  have hwithin := (hparser cursor hcursor hsize).mono hlater
  simp only [Parser.deferring]
  cases hresult : parser scope cursor with
  | ok node moved =>
      rw [hresult] at hwithin
      exact hwithin
  | error failure moved =>
      rw [hresult] at hwithin
      cases failure with
      | pastEnd => exact hwithin
      | missing token => exact hwithin
      | exhausted => exact hwithin
      | syntaxError error =>
          dsimp only
          split
          · split
            · exact ⟨hleast, hstart⟩
            · exact hwithin
          · exact hwithin

/-! ## Reading on -/

/-- Where the parser finds something, it has read something. -/
def Advances (scope : Scope) (parser : Parser (Option α)) : Prop :=
  ∀ {cursor : Cursor} {value : α} {moved : Cursor}, parser scope cursor = .ok (some value) moved →
    cursor.position < moved.position

/-- What follows a parser that has found something goes on from a later place. -/
theorem Safe.advance_bind {parser : Parser (Option α)} {next : Option α → Parser β}
    (hparser : Safe scope least parser) (hadvances : Advances scope parser)
    (hnone : Safe scope least (next none))
    (hsome : ∀ value, Safe scope (least + 1) (next (some value))) :
    Safe scope least (parser >>= next) := by
  refine hparser.bind_within fun {cursor value moved} hcursor hmoved hsize hresult => ?_
  cases value with
  | none => exact hnone moved hmoved hsize
  | some value =>
      have hposition : cursor.position < moved.position := hadvances hresult
      exact (hsome value moved (by omega) hsize).mono (Nat.le_succ least)

theorem Safe.advance_expect_bind {parser : Parser (Option α)} {problem : Problem}
    (hparser : Safe scope least parser) (hadvances : Advances scope parser)
    (hnext : ∀ value, Safe scope (least + 1) (next value)) :
    Safe scope least (Parser.expect parser problem >>= next) := by
  refine (hparser.expect problem).bind_within
    fun {cursor value moved} hcursor hmoved hsize hresult => ?_
  have hposition : cursor.position < moved.position := hadvances (expect_eq_ok.mp hresult)
  exact (hnext value moved (by omega) hsize).mono (Nat.le_succ least)

end

/-! ## Tokens and lists -/

section

variable {β : Type} {scope : Scope} {least : Nat} {terminal : Terminal}
  {parser : Parser (Option Token)}

/-- A token that can be read is not the last one. -/
theorem OneOf.safe (hparser : OneOf terminal parser) (hends : scope.Ends) :
    Safe scope least parser := by
  intro cursor hleast hsize
  rw [hparser.eq, takeIf, Array.getElem?_eq_getElem hsize]
  dsimp only
  split
  · rename_i haccepts
    have hkind := Terminal.kind_ne_eof haccepts hparser.eof_notMem
    exact ⟨Nat.le_succ_of_le hleast,
      hends cursor.position _ (Array.getElem?_eq_getElem hsize) hkind⟩
  · exact ⟨hleast, hsize⟩

theorem OneOf.advances (hparser : OneOf terminal parser) : Advances scope parser := by
  intro cursor token moved h
  have hposition : moved.position = cursor.position + 1 := (hparser.takes h).reads.position_eq
  omega

theorem OneOf.safe_bind (hparser : OneOf terminal parser) (hends : scope.Ends)
    {next : Option Token → Parser β} (hnone : Safe scope least (next none))
    (hsome : ∀ token, Safe scope (least + 1) (next (some token))) :
    Safe scope least (parser >>= next) :=
  (hparser.safe hends).advance_bind hparser.advances hnone hsome

theorem OneOf.safe_expect_bind (hparser : OneOf terminal parser) (hends : scope.Ends)
    {problem : Problem} {next : Token → Parser β}
    (hnext : ∀ token, Safe scope (least + 1) (next token)) :
    Safe scope least (Parser.expect parser problem >>= next) :=
  (hparser.safe hends).advance_expect_bind hparser.advances hnext

/-- Each round of a list but the last reads a comma. -/
theorem safe_itemsFrom (hends : scope.Ends) {items : String} {mayDangle : Bool}
    {item : Parser (Option Node)} (hitem : ∀ later, least ≤ later → Safe scope later item)
    {fuel : Nat} (hfuel : scope.source.tokens.size < fuel + least) (afterComma : Bool) :
    Safe scope least (itemsFrom items mayDangle item fuel afterComma) := by
  induction fuel generalizing least afterComma with
  | zero =>
      intro cursor hleast hsize
      omega
  | succ fuel ih =>
      refine (hitem least (Nat.le_refl least)).bind fun found => ?_
      cases found with
      | none => exact safe_refuse_bind (safe_pure [])
      | some node =>
          refine (oneOf_inline? _).safe_bind hends (safe_pure [node]) fun comma => ?_
          have hothers := ih (fun later hlater => hitem later (Nat.le_of_succ_le hlater))
            (by omega) true
          exact hothers.bind fun others => safe_pure _

theorem safe_commaList (hends : scope.Ends) {items : String} {mayDangle : Bool}
    {item : Parser (Option Node)} (hitem : ∀ later, least ≤ later → Safe scope later item) :
    Safe scope least (commaList items mayDangle item) :=
  safe_size_bind (safe_itemsFrom hends hitem (by omega) false)

end

end Parser

end WebIdl
