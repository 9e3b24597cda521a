import WebIdl.Dialect
import WebIdl.Proofs.Parser.Terminal
import WebIdl.Proofs.Shape.Members

/-!
# What the productions find

A run of a parser is taken apart statement by statement; what it read is put together again as the
tokens of a node, and the node is shown to have a form of the grammar.  Where the grammar goes round,
the productions inside are taken to be right already (`Sound`).

This module begins with extended attributes.
-/

namespace WebIdl.Grammar

open WebIdl.Parser WebIdl.Shape

/-- The extensions below the level of definitions, in the standard language and in the extended
one. -/
def extensionsOf (extended : Bool) : Extensions :=
  if extended then Dialect.gecko.extensions else {}

/-- The parsers of productions find what the grammar says. -/
structure Sound (extended : Bool) (scope : Scope) (nested : Production → Parser (Option Node)) :
    Prop where
  extensions_eq : scope.extensions = extensionsOf extended
  found : ∀ {production cursor found moved}, nested production scope cursor = .ok found moved →
    Found scope (Conforms extended (categoryOf production)) cursor found moved
  absent : ∀ {production cursor moved}, nested production scope cursor = .ok none moved →
    Absent production (scope.rest cursor)

section

variable {extended : Bool} {scope : Scope} {nested : Production → Parser (Option Node)}
  {cursor moved : Cursor}

/-- The first match is a construct of one production, and what those before it look for is not
there. -/
theorem Sound.firstMatch (hnested : Sound extended scope nested) {productions : List Production}
    (hplain : ∀ production ∈ productions, IsPlain production) {found : Option Node}
    (h : firstMatch nested productions scope cursor = .ok found moved) :
    (found = none ∧ moved.position = cursor.position) ∨
    ∃ front production back node, productions = front ++ production :: back ∧ found = some node ∧
      Reads scope cursor moved node.tokens ∧
      Conforms extended { symbol := symbolOf production, mode := .never } node ∧
      ∀ earlier ∈ front, Absent earlier (scope.rest cursor) := by
  rcases firstMatch_eq_ok h with ⟨rfl, hposition, -⟩ |
    ⟨front, production, back, node, start, stop, rfl, hfront, hstart, hnode, rfl, hstop⟩
  · exact Or.inl ⟨rfl, hposition⟩
  · obtain ⟨hreads, hconforms⟩ := hnested.found hnode
    rw [categoryOf, hplain production (by simp)] at hconforms
    refine Or.inr ⟨front, production, back, node, rfl, rfl, hreads.congr hstart.symm hstop,
      hconforms, fun earlier hearlier => ?_⟩
    obtain ⟨place, _, hplace, hdeclined⟩ := hfront earlier hearlier
    rw [← Scope.rest_congr hplace]
    exact hnested.absent hdeclined

theorem reads_argumentList (hnested : Sound extended scope nested) {nodes : List Node}
    (h : argumentList nested scope cursor = .ok nodes moved) :
    Reads scope cursor moved (nodes.flatMap Node.tokens) ∧
      Items (Conforms extended) nodes { symbol := .argument } "," false :=
  reads_commaList (fun _ _ _ => hnested.found) h

/-! ## Values -/

theorem found_wrappedToken (extended : Bool) {kind : Token.Kind} (hkind : kind ≠ .eof)
    {found : Option Node} (h : wrappedToken kind scope cursor = .ok found moved) :
    Found scope (Conforms extended { symbol := .wrappedToken kind }) cursor found moved := by
  obtain ⟨value, middle, hvalue, h⟩ := (oneOf_ofKind? (by simpa using hkind.symm)).bind h
  cases value with
  | none =>
      obtain ⟨rfl, rfl⟩ := pure_eq_ok.mp h
      exact hvalue.none
  | some value =>
      obtain ⟨rfl, rfl⟩ := pure_eq_ok.mp h
      refine ⟨by simpa [Node.tokens, tokensOf] using hvalue.reads, ?_⟩
      exact .of_form _ (List.mem_singleton_self _) rfl (.token (hvalue.accepted value rfl) .nil)

/-- A list of values has some, and they are all of one kind. -/
theorem reads_valueList (extended : Bool) {kinds : List Token.Kind} (hkinds : .eof ∉ kinds)
    {nodes : List Node} (h : valueList kinds scope cursor = .ok nodes moved) :
    Reads scope cursor moved (nodes.flatMap Node.tokens) ∧ 1 ≤ nodes.length ∧
      ∃ kind ∈ kinds, Items (Conforms extended) nodes { symbol := .wrappedToken kind } "," false := by
  induction kinds generalizing cursor with
  | nil => exact absurd h fail_ne_ok
  | cons kind others ih =>
      obtain ⟨hkind, hothers⟩ : kind ≠ .eof ∧ .eof ∉ others := by
        simpa [eq_comm] using hkinds
      obtain ⟨values, middle, hvalues, h⟩ := bind_eq_ok.mp h
      obtain ⟨hreads, hitems⟩ :=
        reads_commaList (fun _ _ _ => found_wrappedToken extended hkind) hvalues
      cases values with
      | nil =>
          obtain ⟨hrest, hlength, chosen, hchosen, hnodes⟩ := ih hothers h
          refine ⟨?_, hlength, chosen, List.mem_cons_of_mem _ hchosen, hnodes⟩
          simpa using hreads.trans hrest
      | cons value values =>
          obtain ⟨rfl, rfl⟩ := pure_eq_ok.mp h
          exact ⟨hreads, by simp, kind, List.mem_cons_self, hitems⟩

/-! ## One attribute -/

/-- An attribute is its name and one of the right-hand sides. -/
theorem conforms_extendedAttribute {name : Token} {tail : List Slot} {parts : List Part}
    (hname : Terminal.identifier.accepts name) (htail : tail ∈ attributeTails)
    (hparts : Fits (Conforms extended) tail parts) :
    Conforms extended { symbol := .extendedAttribute }
      (.mk { construct := .extendedAttribute } (.token .name name :: parts)) := by
  refine .of_form _ (List.mem_map_of_mem htail) rfl (.token hname ?_)
  simpa using hparts

/-- The right-hand side with a list of values of the given kind. -/
theorem valueTail_mem {kind : Token.Kind} (hkind : kind ∈ Grammar.valueKinds) :
    [.word .assign "=", .word .opening "(",
      .list .entry { symbol := .wrappedToken kind } "," 1 false, .word .closing ")"] ∈
        attributeTails :=
  List.mem_append_right _ (List.mem_map_of_mem hkind)

theorem found_extendedAttribute (hnested : Sound extended scope nested) {found : Option Node}
    (h : extendedAttribute nested scope cursor = .ok found moved) :
    Found scope (Conforms extended { symbol := .extendedAttribute }) cursor found moved := by
  obtain ⟨name, afterName, hname, h⟩ := oneOf_identifier.bind h
  cases name with
  | none =>
      obtain ⟨rfl, rfl⟩ := pure_eq_ok.mp h
      exact hname.none
  | some name =>
  have hidentifier := hname.accepted name rfl
  obtain ⟨assign, afterAssign, hassign, h⟩ := (oneOf_inline? _).bind h
  obtain ⟨asterisk, afterAsterisk, hasterisk, hstar, hassigned, h⟩ := (oneOf_inline? _).when?_bind h
  have hfront := (hname.reads.trans hassign.reads).trans hasterisk
  cases asterisk with
  -- `Name=*`
  | some star =>
      obtain ⟨rfl, rfl⟩ := pure_eq_ok.mp h
      obtain ⟨assign, rfl⟩ := Option.isSome_iff_exists.mp (hassigned rfl)
      refine ⟨by simpa [Node.tokens, tokensOf] using hfront, ?_⟩
      exact conforms_extendedAttribute hidentifier
        (List.mem_of_getElem? (show attributeTails[1]? = some _ from rfl))
        (.token (hassign.accepted assign rfl) (.token (hstar star rfl) .nil))
  | none =>
  obtain ⟨secondary, afterSecondary, hsecondary, hvalue, hassigned, h⟩ :=
    (oneOf_ofKind? (by decide)).when?_bind h
  obtain ⟨opening, afterOpening, hopening, h⟩ := (oneOf_inline? _).bind h
  have hfront := (hfront.trans hsecondary).trans hopening.reads
  cases opening with
  | none =>
      -- `Name` and `Name=value`
      obtain ⟨hplain, h⟩ := refuse_bind.mp h
      obtain ⟨rfl, rfl⟩ := pure_eq_ok.mp h
      refine ⟨by simpa [Node.tokens, tokensOf] using hfront, ?_⟩
      cases assign with
      | none =>
          obtain rfl : secondary = none := by simpa using hassigned
          exact conforms_extendedAttribute hidentifier
            (List.mem_of_getElem? (show attributeTails[0]? = some _ from rfl)) .nil
      | some assign =>
          obtain ⟨value, rfl⟩ : ∃ value, secondary = some value := by
            simpa [Option.isNone_eq_false_iff, Option.isSome_iff_exists] using hplain
          exact conforms_extendedAttribute hidentifier
            (List.mem_of_getElem? (show attributeTails[2]? = some _ from rfl))
            (.token (hassign.accepted assign rfl) (.token (hvalue value rfl) .nil))
  | some opening =>
      have hparenthesis := hopening.accepted opening rfl
      dsimp only at h
      split at h
      · rename_i hlist
        -- `Name=(values)`
        obtain ⟨⟨assign, rfl⟩, rfl⟩ : (∃ token, assign = some token) ∧ secondary = none := by
          simpa [Option.isSome_iff_exists] using hlist
        obtain ⟨entries, afterEntries, hentries, h⟩ := bind_eq_ok.mp h
        obtain ⟨hentries, hlength, kind, hkind, hitems⟩ :=
          reads_valueList extended (by decide) hentries
        obtain ⟨closing, _, hclosing, hclosed, h⟩ := (oneOf_inline? _).expect_bind h
        obtain ⟨rfl, rfl⟩ := pure_eq_ok.mp h
        refine ⟨by simpa [Node.tokens, tokensOf] using (hfront.trans hentries).trans hclosing, ?_⟩
        exact conforms_extendedAttribute hidentifier (valueTail_mem hkind)
          (.token (hassign.accepted assign rfl) (.token hparenthesis
            (.list hitems hlength (.token hclosed .nil))))
      · rename_i hlist
        obtain ⟨entries, afterEntries, hentries, h⟩ := bind_eq_ok.mp h
        -- `Name(arguments)` and `Name=value(arguments)`
        obtain ⟨hentries, hitems⟩ := reads_argumentList hnested hentries
        obtain ⟨closing, _, hclosing, hclosed, h⟩ := (oneOf_inline? _).expect_bind h
        obtain ⟨rfl, rfl⟩ := pure_eq_ok.mp h
        refine ⟨by simpa [Node.tokens, tokensOf] using (hfront.trans hentries).trans hclosing, ?_⟩
        cases assign with
        | none =>
            obtain rfl : secondary = none := by simpa using hassigned
            exact conforms_extendedAttribute hidentifier
              (List.mem_of_getElem? (show attributeTails[3]? = some _ from rfl))
              (.token hparenthesis (.list hitems (Nat.zero_le _) (.token hclosed .nil)))
        | some assign =>
            obtain ⟨value, rfl⟩ : ∃ value, secondary = some value := by
              simpa [Option.ne_none_iff_exists'] using hlist
            exact conforms_extendedAttribute hidentifier
              (List.mem_of_getElem? (show attributeTails[4]? = some _ from rfl))
              (.token (hassign.accepted assign rfl) (.token (hvalue value rfl)
                (.token hparenthesis (.list hitems (Nat.zero_le _) (.token hclosed .nil)))))

/-! ## Lists of attributes -/

/-- What is read for attributes: nothing, or a list in brackets.  Behind it there is no bracket. -/
theorem reads_extendedAttributes (hnested : Sound extended scope nested) {attributes : Node}
    (h : extendedAttributes nested scope cursor = .ok attributes moved) :
    Reads scope cursor moved attributes.tokens ∧
      (attributes = Node.noAttributes ∨
        Conforms extended { symbol := .attributes .always } attributes) ∧
      ∀ token ∈ (scope.rest moved).head?, (Terminal.word "[").accepts token = false := by
  obtain ⟨opening, afterOpening, hopening, h⟩ := (oneOf_inline? _).bind h
  cases opening with
  | none =>
      obtain ⟨rfl, rfl⟩ := pure_eq_ok.mp h
      refine ⟨.refl hopening.none, Or.inl rfl, ?_⟩
      rw [Scope.rest_congr hopening.none]
      exact hopening.declined rfl
  | some opening =>
      obtain ⟨items, afterItems, hitems, h⟩ := bind_eq_ok.mp h
      obtain ⟨hreads, hitems⟩ := reads_commaList (fun _ _ _ => found_extendedAttribute hnested) hitems
      obtain ⟨closing, _, hclosing, hclosed, h⟩ := (oneOf_inline? _).expect_bind h
      obtain ⟨hsome, h⟩ := refuse_bind.mp h
      obtain ⟨next, hnext, h⟩ := nextIs_bind.mp h
      obtain ⟨hsecond, h⟩ := refuse_bind.mp h
      obtain ⟨rfl, rfl⟩ := pure_eq_ok.mp h
      have hlength : 1 ≤ items.length := by
        cases items with
        | nil => exact absurd hsome (by simp)
        | cons item others => simp
      refine ⟨?_, Or.inr ?_, ?_⟩
      · simpa [Node.tokens, tokensOf] using (hopening.reads.trans hreads).trans hclosing
      · exact .of_form written (List.mem_singleton_self _) rfl
          (.token (hopening.accepted opening rfl) (.list hitems hlength (.token hclosed .nil)))
      · simpa [hnext, Terminal.accepts, Terminal.word, Token.isInline] using hsecond

theorem conforms_attributes {attributes : Node}
    (h : attributes = Node.noAttributes ∨
      Conforms extended { symbol := .attributes .always } attributes) :
    Conforms extended { symbol := .attributes .maybe } attributes := by
  rcases h with rfl | h
  · exact conforms_noAttributes (by decide)
  · exact h.of_subset (List.subset_cons_self _ _)

end

end WebIdl.Grammar
