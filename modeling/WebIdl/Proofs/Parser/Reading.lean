import WebIdl.Parser.Basic

/-!
# What a parser has read

A cursor stands in front of the tokens that are still unread, `Scope.rest`.  A parser that moves
from one cursor to another has read the tokens in between (`Reads`).  This module says, for each
combinator, what it takes for it to succeed, so that a run of a parser can be taken apart one
statement after the other.
-/

namespace WebIdl

/-- The tokens that are still unread. -/
def Scope.rest (scope : Scope) (cursor : Cursor) : List Token :=
  scope.source.tokens.toList.drop cursor.position

/-- Between the two cursors stand the tokens `read`, none of which ends the text. -/
structure Reads (scope : Scope) (cursor moved : Cursor) (read : List Token) : Prop where
  rest_eq : scope.rest cursor = read ++ scope.rest moved
  position_eq : moved.position = cursor.position + read.length
  kind_ne_eof : ∀ token ∈ read, token.kind ≠ .eof

section

variable {scope : Scope} {cursor middle moved : Cursor}

/-- What is unread depends on the position only. -/
theorem Scope.rest_congr (h : moved.position = cursor.position) :
    scope.rest moved = scope.rest cursor := by
  rw [Scope.rest, Scope.rest, h]

theorem Scope.head?_rest : (scope.rest cursor).head? = scope.source.tokens[cursor.position]? := by
  rw [Scope.rest, List.head?_drop, Array.getElem?_toList]

theorem Scope.rest_eq_cons {token : Token}
    (h : scope.source.tokens[cursor.position]? = some token)
    (hmoved : moved.position = cursor.position + 1) :
    scope.rest cursor = token :: scope.rest moved := by
  rw [← Array.getElem?_toList] at h
  obtain ⟨hlt, rfl⟩ := List.getElem?_eq_some_iff.mp h
  rw [Scope.rest, Scope.rest, hmoved, List.drop_eq_getElem_cons hlt]

/-- A parser that has not moved has read nothing. -/
theorem Reads.refl (h : moved.position = cursor.position) : Reads scope cursor moved [] where
  rest_eq := (Scope.rest_congr h).symm
  position_eq := h
  kind_ne_eof := by simp

theorem Reads.trans {first second : List Token} (hfirst : Reads scope cursor middle first)
    (hsecond : Reads scope middle moved second) : Reads scope cursor moved (first ++ second) where
  rest_eq := by rw [hfirst.rest_eq, hsecond.rest_eq, List.append_assoc]
  position_eq := by
    rw [hsecond.position_eq, hfirst.position_eq, List.length_append, Nat.add_assoc]
  kind_ne_eof := fun token h => (List.mem_append.mp h).elim (hfirst.kind_ne_eof token)
    (hsecond.kind_ne_eof token)

/-- The first token that is read is the first one that was unread. -/
theorem Reads.mem_head? {read : List Token} {token : Token} (h : Reads scope cursor moved read)
    (htoken : token ∈ read.head?) : token ∈ (scope.rest cursor).head? := by
  rw [h.rest_eq, List.head?_append, Option.mem_def.mp htoken]
  rfl

/-- Only positions matter for what has been read. -/
theorem Reads.congr {cursor' moved' : Cursor} {read : List Token}
    (h : Reads scope cursor moved read) (hcursor : cursor'.position = cursor.position)
    (hmoved : moved'.position = moved.position) : Reads scope cursor' moved' read where
  rest_eq := by rw [Scope.rest_congr hcursor, Scope.rest_congr hmoved, h.rest_eq]
  position_eq := by rw [hcursor, hmoved, h.position_eq]
  kind_ne_eof := h.kind_ne_eof

/-- The parser has found a node of the wanted sort and read its tokens, or it has found nothing and
stands where it stood. -/
def Found (scope : Scope) (good : Node → Prop) (cursor : Cursor) : Option Node → Cursor → Prop
  | none, moved => moved.position = cursor.position
  | some node, moved => Reads scope cursor moved node.tokens ∧ good node

theorem Found.imp {good better : Node → Prop} {found : Option Node}
    (h : Found scope good cursor found moved) (himp : ∀ node, good node → better node) :
    Found scope better cursor found moved := by
  cases found with
  | none => exact h
  | some node => exact ⟨h.1, himp node h.2⟩

theorem Found.congr {good : Node → Prop} {found : Option Node} {cursor' moved' : Cursor}
    (h : Found scope good cursor found moved) (hcursor : cursor'.position = cursor.position)
    (hmoved : moved'.position = moved.position) : Found scope good cursor' found moved' := by
  cases found with
  | none => exact hmoved.trans ((show moved.position = cursor.position from h).trans hcursor.symm)
  | some node => exact ⟨h.1.congr hcursor hmoved, h.2⟩

end

namespace Parser

section

variable {α : Type} {scope : Scope} {cursor moved : Cursor}

/-! ## Statements that do not read -/

@[simp] theorem size_eq_ok {found : Nat} :
    size scope cursor = .ok found moved ↔ found = scope.source.tokens.size ∧ moved = cursor := by
  simp [size, eq_comm]

@[simp] theorem extensions_eq_ok {found : Extensions} :
    extensions scope cursor = .ok found moved ↔ found = scope.extensions ∧ moved = cursor := by
  simp [extensions, eq_comm]

@[simp] theorem position_eq_ok {found : Nat} :
    position scope cursor = .ok found moved ↔ found = cursor.position ∧ moved = cursor := by
  simp [position, eq_comm]

@[simp] theorem moveTo_eq_ok {place : Nat} {found : Unit} :
    moveTo place scope cursor = .ok found moved ↔ moved = { cursor with position := place } := by
  simp [moveTo, eq_comm]

@[simp] theorem enter_eq_ok {heading : Heading} {found : Unit} :
    enter heading scope cursor = .ok found moved ↔
      moved = { cursor with current := some heading } := by
  simp [enter, eq_comm]

@[simp] theorem note_eq_ok {event : Event} {found : Unit} :
    note event scope cursor = .ok found moved ↔
      moved = { cursor with trace := event :: cursor.trace } := by
  simp [note, eq_comm]

@[simp] theorem exhausted_ne_ok {found : α} : exhausted scope cursor ≠ .ok found moved := by
  simp [exhausted]

@[simp] theorem fail_ne_ok {problem : Problem} {found : α} :
    fail problem scope cursor ≠ .ok found moved := by
  simp only [fail]
  split <;> simp

@[simp] theorem peek_eq_ok {token : Token} :
    peek scope cursor = .ok token moved ↔
      (scope.rest cursor).head? = some token ∧ moved = cursor := by
  rw [Scope.head?_rest]
  unfold peek
  cases scope.source.tokens[cursor.position]? with
  | none => simp
  | some next => simp [eq_comm]

@[simp] theorem nextIs_eq_ok {text : String} {found : Bool} :
    nextIs text scope cursor = .ok found moved ↔
      moved = cursor ∧ ∃ token, (scope.rest cursor).head? = some token ∧
        found = token.isInline text := by
  simp only [nextIs, bind_eq_ok, peek_eq_ok, pure_eq_ok]
  constructor
  · rintro ⟨token, _, ⟨htoken, rfl⟩, rfl, rfl⟩
    exact ⟨rfl, token, htoken, rfl⟩
  · rintro ⟨rfl, token, htoken, rfl⟩
    exact ⟨token, _, ⟨htoken, rfl⟩, rfl, rfl⟩

@[simp] theorem nextIsKind_eq_ok {kind : Token.Kind} {found : Bool} :
    nextIsKind kind scope cursor = .ok found moved ↔
      moved = cursor ∧ ∃ token, (scope.rest cursor).head? = some token ∧
        found = (token.kind == kind) := by
  simp only [nextIsKind, bind_eq_ok, peek_eq_ok, pure_eq_ok]
  constructor
  · rintro ⟨token, _, ⟨htoken, rfl⟩, rfl, rfl⟩
    exact ⟨rfl, token, htoken, rfl⟩
  · rintro ⟨rfl, token, htoken, rfl⟩
    exact ⟨token, _, ⟨htoken, rfl⟩, rfl, rfl⟩

@[simp] theorem expect_eq_ok {parser : Parser (Option α)} {problem : Problem} {found : α} :
    expect parser problem scope cursor = .ok found moved ↔
      parser scope cursor = .ok (some found) moved := by
  simp only [expect, bind_eq_ok]
  constructor
  · rintro ⟨value, middle, hvalue, hrest⟩
    cases value with
    | none => exact absurd hrest fail_ne_ok
    | some value =>
        obtain ⟨rfl, rfl⟩ := pure_eq_ok.mp hrest
        exact hvalue
  · exact fun h => ⟨some found, moved, h, rfl⟩

@[simp] theorem refuse_eq_ok {condition : Bool} {problem : Problem} {found : Unit} :
    refuse condition problem scope cursor = .ok found moved ↔
      condition = false ∧ moved = cursor := by
  cases condition with
  | false => simp [refuse, eq_comm]
  | true => simp [refuse]

/-! ## Statements at the head of a row -/

section

variable {β : Type} {found : β}

theorem refuse_bind {condition : Bool} {problem : Problem} {next : Unit → Parser β} :
    (refuse condition problem >>= next) scope cursor = .ok found moved ↔
      condition = false ∧ next () scope cursor = .ok found moved := by
  rw [bind_eq_ok]
  constructor
  · rintro ⟨_, _, hrefuse, h⟩
    obtain ⟨hcondition, rfl⟩ := refuse_eq_ok.mp hrefuse
    exact ⟨hcondition, h⟩
  · rintro ⟨hcondition, h⟩
    exact ⟨(), cursor, refuse_eq_ok.mpr ⟨hcondition, rfl⟩, h⟩

theorem expect_bind {parser : Parser (Option α)} {problem : Problem} {next : α → Parser β} :
    (expect parser problem >>= next) scope cursor = .ok found moved ↔
      ∃ value middle, parser scope cursor = .ok (some value) middle ∧
        next value scope middle = .ok found moved := by
  simp only [bind_eq_ok, expect_eq_ok]

theorem present_bind {reading : Except Missing α} {next : α → Parser β} :
    (present reading >>= next) scope cursor = .ok found moved ↔
      ∃ value, reading = .ok value ∧ next value scope cursor = .ok found moved := by
  cases reading with
  | ok value => exact ⟨fun h => ⟨value, rfl, h⟩, fun ⟨_, hvalue, h⟩ => Except.ok.inj hvalue ▸ h⟩
  | error token => exact ⟨fun h => (nomatch h), fun ⟨_, hvalue, _⟩ => (nomatch hvalue)⟩

theorem size_bind {next : Nat → Parser β} :
    (size >>= next) scope cursor = .ok found moved ↔
      next scope.source.tokens.size scope cursor = .ok found moved :=
  Iff.rfl

theorem extensions_bind {next : Extensions → Parser β} :
    (extensions >>= next) scope cursor = .ok found moved ↔
      next scope.extensions scope cursor = .ok found moved :=
  Iff.rfl

theorem position_bind {next : Nat → Parser β} :
    (position >>= next) scope cursor = .ok found moved ↔
      next cursor.position scope cursor = .ok found moved :=
  Iff.rfl

theorem enter_bind {heading : Heading} {next : Unit → Parser β} :
    (enter heading >>= next) scope cursor = .ok found moved ↔
      next () scope { cursor with current := some heading } = .ok found moved :=
  Iff.rfl

theorem nextIs_bind {text : String} {next : Bool → Parser β} :
    (nextIs text >>= next) scope cursor = .ok found moved ↔
      ∃ token, (scope.rest cursor).head? = some token ∧
        next (token.isInline text) scope cursor = .ok found moved := by
  rw [bind_eq_ok]
  constructor
  · rintro ⟨_, _, hnext, h⟩
    obtain ⟨rfl, token, htoken, rfl⟩ := nextIs_eq_ok.mp hnext
    exact ⟨token, htoken, h⟩
  · rintro ⟨token, htoken, h⟩
    exact ⟨_, cursor, nextIs_eq_ok.mpr ⟨rfl, token, htoken, rfl⟩, h⟩

theorem nextIsKind_bind {kind : Token.Kind} {next : Bool → Parser β} :
    (nextIsKind kind >>= next) scope cursor = .ok found moved ↔
      ∃ token, (scope.rest cursor).head? = some token ∧
        next (token.kind == kind) scope cursor = .ok found moved := by
  rw [bind_eq_ok]
  constructor
  · rintro ⟨_, _, hnext, h⟩
    obtain ⟨rfl, token, htoken, rfl⟩ := nextIsKind_eq_ok.mp hnext
    exact ⟨token, htoken, h⟩
  · rintro ⟨token, htoken, h⟩
    exact ⟨_, cursor, nextIsKind_eq_ok.mpr ⟨rfl, token, htoken, rfl⟩, h⟩

end

/-! ## Choices -/

theorem when?_eq_ok {condition : Bool} {parser : Parser (Option α)} {found : Option α} :
    when? condition parser scope cursor = .ok found moved ↔
      condition = true ∧ parser scope cursor = .ok found moved ∨
        condition = false ∧ found = none ∧ moved = cursor := by
  cases condition <;> simp [when?, eq_comm]

theorem either_eq_ok {first second : Parser (Option α)} {found : Option α} :
    either first second scope cursor = .ok found moved ↔
      (∃ value, found = some value ∧ first scope cursor = .ok (some value) moved) ∨
        ∃ middle, first scope cursor = .ok none middle ∧
          second scope middle = .ok found moved := by
  simp only [either, bind_eq_ok]
  constructor
  · rintro ⟨value, middle, hvalue, hrest⟩
    cases value with
    | none => exact Or.inr ⟨middle, hvalue, hrest⟩
    | some value =>
        obtain ⟨rfl, rfl⟩ := pure_eq_ok.mp hrest
        exact Or.inl ⟨value, rfl, hvalue⟩
  · rintro (⟨value, rfl, h⟩ | ⟨middle, hfirst, hsecond⟩)
    · exact ⟨some value, moved, h, rfl⟩
    · exact ⟨none, middle, hfirst, hsecond⟩

theorem rewinding_eq_ok {parser : Parser (Option α)} {found : Option α} :
    rewinding parser scope cursor = .ok found moved ↔
      (∃ value, found = some value ∧ parser scope cursor = .ok (some value) moved) ∨
        found = none ∧ ∃ middle, parser scope cursor = .ok none middle ∧
          moved = { middle with position := cursor.position } := by
  simp only [rewinding, bind_eq_ok, position_eq_ok]
  constructor
  · rintro ⟨_, _, ⟨rfl, rfl⟩, value, middle, hvalue, hrest⟩
    cases value with
    | none =>
        obtain ⟨_, _, hmove, hpure⟩ := bind_eq_ok.mp hrest
        obtain rfl := moveTo_eq_ok.mp hmove
        obtain ⟨rfl, rfl⟩ := pure_eq_ok.mp hpure
        exact Or.inr ⟨rfl, middle, hvalue, rfl⟩
    | some value =>
        obtain ⟨rfl, rfl⟩ := pure_eq_ok.mp hrest
        exact Or.inl ⟨value, rfl, hvalue⟩
  · rintro (⟨value, rfl, h⟩ | ⟨rfl, middle, h, rfl⟩)
    · exact ⟨_, _, ⟨rfl, rfl⟩, some value, moved, h, rfl⟩
    · exact ⟨_, _, ⟨rfl, rfl⟩, none, middle, h, rfl⟩

theorem map_eq_ok {β : Type} {parser : Parser α} {wrap : α → β} {found : β} :
    (wrap <$> parser) scope cursor = .ok found moved ↔
      ∃ value, found = wrap value ∧ parser scope cursor = .ok value moved := by
  have hmap : wrap <$> parser = parser >>= fun value => pure (wrap value) := rfl
  rw [hmap, bind_eq_ok]
  constructor
  · rintro ⟨value, middle, hvalue, hpure⟩
    obtain ⟨rfl, rfl⟩ := pure_eq_ok.mp hpure
    exact ⟨value, rfl, hvalue⟩
  · rintro ⟨value, rfl, h⟩
    exact ⟨value, moved, h, rfl⟩

/-- A parser that rewinds and finds nothing has not moved. -/
theorem found_rewinding {parser : Parser (Option Node)} {good : Node → Prop}
    {found : Option Node} (h : rewinding parser scope cursor = .ok found moved)
    (hsome : ∀ node, parser scope cursor = .ok (some node) moved →
      Reads scope cursor moved node.tokens ∧ good node) :
    Found scope good cursor found moved := by
  rcases rewinding_eq_ok.mp h with ⟨node, rfl, hnode⟩ | ⟨rfl, middle, -, rfl⟩
  · exact hsome node hnode
  · rfl

theorem found_either {first second : Parser (Option Node)} {good : Node → Prop}
    {found : Option Node} (h : either first second scope cursor = .ok found moved)
    (hfirst : ∀ found middle, first scope cursor = .ok found middle →
      Found scope good cursor found middle)
    (hsecond : ∀ middle found moved, second scope middle = .ok found moved →
      Found scope good middle found moved) :
    Found scope good cursor found moved := by
  rcases either_eq_ok.mp h with ⟨node, rfl, hnode⟩ | ⟨middle, hnone, hfound⟩
  · exact hfirst _ _ hnode
  · exact (hsecond _ _ _ hfound).congr (hfirst _ _ hnone).symm rfl

/-- A production was tried from here and found nothing. -/
def Declined (parse : Production → Parser (Option Node)) (scope : Scope) (cursor : Cursor)
    (production : Production) : Prop :=
  ∃ start stop, start.position = cursor.position ∧
    parse production scope start = .ok none stop

/-- The first match is found by one production of the list, and those before it have been tried from
the same place. -/
theorem firstMatch_eq_ok {parse : Production → Parser (Option Node)}
    {productions : List Production} {found : Option Node}
    (h : firstMatch parse productions scope cursor = .ok found moved) :
    (found = none ∧ moved.position = cursor.position ∧
      ∀ production ∈ productions, Declined parse scope cursor production) ∨
    ∃ front production back node start stop, productions = front ++ production :: back ∧
      (∀ earlier ∈ front, Declined parse scope cursor earlier) ∧
      start.position = cursor.position ∧ parse production scope start = .ok (some node) stop ∧
      found = some node ∧ moved.position = stop.position := by
  -- a production that finds nothing is declined where the next one starts
  induction productions generalizing cursor with
  | nil =>
      obtain ⟨rfl, rfl⟩ := pure_eq_ok.mp h
      exact Or.inl ⟨rfl, rfl, by simp⟩
  | cons production others ih =>
      obtain ⟨_, _, hposition, h⟩ := bind_eq_ok.mp h
      obtain ⟨rfl, hsame⟩ := position_eq_ok.mp hposition
      rw [hsame] at h
      obtain ⟨value, middle, hvalue, h⟩ := bind_eq_ok.mp h
      cases value with
      | some node =>
          obtain ⟨_, _, hnote, hpure⟩ := bind_eq_ok.mp h
          obtain rfl := note_eq_ok.mp hnote
          obtain ⟨rfl, rfl⟩ := pure_eq_ok.mp hpure
          exact Or.inr ⟨[], production, others, node, _, middle, rfl, by simp, rfl, hvalue, rfl,
            rfl⟩
      | none =>
          obtain ⟨_, _, hmove, h⟩ := bind_eq_ok.mp h
          obtain rfl := moveTo_eq_ok.mp hmove
          have hdeclined : Declined parse scope cursor production := ⟨_, middle, rfl, hvalue⟩
          rcases ih h with ⟨rfl, hmoved, hothers⟩ |
            ⟨front, later, back, node, start, stop, rfl, hfront, hstart, hnode, rfl, hmoved⟩
          · exact Or.inl ⟨rfl, hmoved, List.forall_mem_cons.mpr ⟨hdeclined, hothers⟩⟩
          · exact Or.inr ⟨production :: front, later, back, node, start, stop, rfl,
              List.forall_mem_cons.mpr ⟨hdeclined, hfront⟩, hstart, hnode, rfl, hmoved⟩

theorem deferring_eq_ok {reasons : List String} {start : Nat} {parser : Parser Node}
    {found : Option Node} (h : deferring reasons start parser scope cursor = .ok found moved) :
    (∃ node, found = some node ∧ parser scope cursor = .ok node moved) ∨
      found = none ∧ moved.position = start := by
  simp only [deferring] at h
  split at h
  · rename_i node middle hnode
    cases h
    exact Or.inl ⟨node, rfl, hnode⟩
  · split at h
    · split at h
      · cases h
        exact Or.inr ⟨rfl, rfl⟩
      · exact absurd h (by simp)
    · exact absurd h (by simp)
  · exact absurd h (by simp)

end

end Parser

end WebIdl
