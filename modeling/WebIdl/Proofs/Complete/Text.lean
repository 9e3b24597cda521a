import WebIdl.Proofs.Complete.Parse
import WebIdl.Proofs.Dialect.RoundTrip

/-!
# What is parsed is what the grammar has

A named dialect parses a text if and only if its tokens are those of definitions of the grammar, and
then it finds these definitions (`Dialect.parse_eq_ok_iff`).  That a parse finds definitions of the
grammar needs a closer look at the productions that were tried before the one that matched: in the
extended language, an interface that has been left to the production of mixins is a mixin, since
otherwise it would have been found before.
-/

namespace WebIdl

open WebIdl.Parser WebIdl.Shape WebIdl.Grammar

section

variable {extended : Bool} {scope : Scope} {depth : Nat} {node : Node}

/-- A construct of one of the definitions is a definition. -/
theorem conforms_definition {symbol : Symbol} {mode : Mode}
    (hmem : symbol ∈ definitionSymbols extended)
    (hforms : symbol.forms extended = symbol.ownForms extended)
    (h : Conforms extended { symbol, mode } node) :
    Conforms extended { symbol := .definition, mode } node := by
  refine h.of_subset fun form hform => ?_
  rw [hforms] at hform
  exact List.mem_flatMap.mpr ⟨symbol, hmem, hform⟩

/-- An interface has the parts of one that may hold legacy callers. -/
theorem conforms_legacyCallerInterface {label : Label} {parts : List Part} {tag : String}
    (h : Conforms extended { symbol := .interface tag true, mode := .never } (.mk label parts)) :
    Conforms extended { symbol := .interface "legacycaller interface" true, mode := .never }
      (.mk { construct := .interface, tag := "legacycaller interface" } parts) := by
  cases h with
  | mk hform hparts =>
      simp only [Symbol.forms, Symbol.ownForms, interfaceForms, heirForms, List.mem_cons,
        List.not_mem_nil, or_false] at hform
      rcases hform with rfl | rfl
      · exact .of_form _ List.mem_cons_self rfl hparts
      · exact .of_form _ (List.mem_cons_of_mem _ List.mem_cons_self) rfl hparts

/-- An interface that no production before that of mixins has taken is a mixin. -/
theorem conforms_mixin_of_declined (hextensions : scope.extensions = extensionsOf true)
    (hconforms : Conforms true { symbol := .interfaceOrMixin, mode := .never } node)
    {start : Cursor} {more : List Token} (hrest : scope.rest start = node.tokens ++ more)
    (hdepth : 2 * node.tokens.length ≤ depth)
    (hdeclined : Declined (Production.parseTo (depth + 1)) scope start .legacyCallerInterface) :
    Conforms true { symbol := .mixin, mode := .never } node := by
  cases hconforms with
  | mk hform hparts =>
      rename_i form parts
      rcases List.mem_append.mp hform with hinterface | hmixin
      · -- It would have been found with the other tag.
        have hlegacy := conforms_legacyCallerInterface
          (.mk hinterface hparts : Conforms true
            { symbol := .interface Construct.interface.tag true, mode := .never } _)
        obtain ⟨cursor, stop, hcursor, hnone⟩ := hdeclined
        obtain ⟨moved, hsome, -⟩ := yields_legacyCallerInterface
          (Production.complete_parseTo hextensions depth) hlegacy hdepth cursor
          ((Scope.rest_congr hcursor).trans hrest)
        have hsame : Production.parseTo (depth + 1) .legacyCallerInterface scope cursor =
            .ok (some _) moved := hsome
        rw [hnone] at hsame
        cases hsame
      · exact .mk hmixin hparts

/-- The productions that a list has before one of them are tried before it. -/
theorem mem_front_of_mem_takeWhile {productions front back : List Production}
    {earlier production : Production} (hsplit : productions = front ++ production :: back)
    (h : earlier ∈ productions.takeWhile (· != production)) : earlier ∈ front := by
  subst hsplit
  induction front with
  | nil => simp at h
  | cons head front ih =>
      rw [List.cons_append, List.takeWhile_cons] at h
      split at h
      · rcases List.mem_cons.mp h with rfl | hrest
        · exact List.mem_cons_self
        · exact List.mem_cons_of_mem _ (ih hrest)
      · cases h

/-- What a production of definitions finds where those before it decline is a definition. -/
theorem conforms_of_foundAsDefinition (hextensions : scope.extensions = extensionsOf extended)
    (hdepth : 2 * scope.source.tokens.size ≤ depth)
    (h : FoundAsDefinition extended scope (Production.parseTo (depth + 1))
      (definingProductions extended) node) :
    Conforms extended { symbol := .definition } node := by
  obtain ⟨front, production, back, attributes, core, start, more, hsplit, rfl, hattributes, hcore,
    hrest, hdeclined⟩ := h.found
  have hlength : core.tokens.length ≤ scope.source.tokens.size := by
    have hlength := congrArg List.length hrest
    simp only [Scope.rest, List.length_drop, List.length_append, Array.length_toList] at hlength
    omega
  suffices hdefinition : Conforms extended { symbol := .definition, mode := .never } core from
    hdefinition.withAttributes attributed_definition hattributes
  have hmem : production ∈ definingProductions extended := by simp [hsplit]
  cases extended with
  | false =>
      -- in the standard language each production has a symbol of its own
      have hplain : symbolOf production ∈ definitionSymbols false ∧
          (symbolOf production).forms false = (symbolOf production).ownForms false := by
        simp only [definingProductions, standardDefinitions, Bool.false_eq_true, if_false,
          List.nil_append, List.mem_cons, List.not_mem_nil, or_false] at hmem
        rcases hmem with rfl | rfl | rfl | rfl | rfl | rfl | rfl | rfl <;>
          exact ⟨by simp [definitionSymbols, symbolOf], rfl⟩
      exact conforms_definition hplain.1 hplain.2 hcore
  | true =>
      -- what an earlier production declined is what the grammar takes out of the later one
      by_cases hinterface : production = .interface
      · subst hinterface
        have hearlier : .legacyCallerInterface ∈ front :=
          mem_front_of_mem_takeWhile hsplit (by decide)
        exact conforms_definition (by simp [definitionSymbols]) rfl
          (conforms_mixin_of_declined hextensions hcore hrest (by omega)
            (hdeclined _ hearlier))
      by_cases htypedef : production = .typedef
      · subst htypedef
        have hearlier : .utf8StringTypedef ∈ front :=
          mem_front_of_mem_takeWhile hsplit (by decide)
        obtain ⟨cursor, stop, hcursor, hnone⟩ := hdeclined _ hearlier
        have habsent := (Production.sound_parseTo hextensions _).absent hnone
        rw [Scope.rest_congr hcursor, hrest] at habsent
        exact conforms_definition (by simp [definitionSymbols, openLimit]) rfl
          (conforms_typedef hcore fun _ => habsent)
      · have hplain : symbolOf production ∈ definitionSymbols true ∧
            (symbolOf production).forms true = (symbolOf production).ownForms true := by
          simp only [definingProductions, Dialect.gecko, standardDefinitions, if_true,
            List.cons_append, List.nil_append, List.mem_cons, List.not_mem_nil, or_false] at hmem
          rcases hmem with rfl | rfl | rfl | rfl | rfl | rfl | rfl | rfl | rfl | rfl | rfl | rfl <;>
            first
              | contradiction
              | exact ⟨by simp [definitionSymbols, symbolOf], rfl⟩
        exact conforms_definition hplain.1 hplain.2 hcore

end

/-! ## Dialects -/

namespace Dialect

theorem productions_append {dialect : Dialect} {extended : Bool}
    (h : dialect = if extended then gecko else standard) :
    dialect.productions ++ standardDefinitions = definingProductions extended := by
  subst h
  cases extended <;> rfl

/-- The dialect finds these items in the tokens of a source. -/
def Finds (dialect : Dialect) (source : Source) (items : List Node) : Prop :=
  ∃ moved, recursively (definitions · dialect.productions) ⟨source, dialect.extensions⟩ {} =
    .ok items moved

theorem Finds.unique {dialect : Dialect} {source : Source} {items others : List Node}
    (h : dialect.Finds source items) (hothers : dialect.Finds source others) : items = others := by
  obtain ⟨moved, hmoved⟩ := h
  obtain ⟨stopped, hstopped⟩ := hothers
  exact (Outcome.ok.inj (hmoved.symm.trans hstopped)).1

/-- A named dialect finds definitions of the grammar, whenever the tokens are theirs. -/
theorem finds_iff {dialect : Dialect} {extended : Bool}
    (hdialect : dialect = if extended then gecko else standard) {source : Source}
    {front : List Token} {last : Token} (hclosed : Token.Closed source.tokens.toList front last)
    {items : List Node} :
    dialect.Finds source items ↔
      ∃ nodes, front = nodes.flatMap Node.tokens ∧
        (∀ node ∈ nodes, Conforms extended { symbol := .definition } node) ∧
        items = nodes ++ [Node.ofEof last] := by
  have hextensions : dialect.extensions = extensionsOf extended := by
    subst hdialect
    cases extended <;> rfl
  have hdefining : ∀ production ∈ dialect.productions, IsDefining extended production := by
    subst hdialect
    cases extended with
    | false => simp [standard]
    | true => exact fun _ => isDefining_gecko
  constructor
  · -- the definitions found are those of the grammar, up to the end
    rintro ⟨cursor, hitems⟩
    obtain ⟨nodes, rfl, hrest, -, hfound⟩ := Grammar.definitions_eq_ok
      (Production.sound_parseTo hextensions _) hclosed hdefining (recursively_eq_ok.mp hitems)
    refine ⟨nodes, ?_, fun node hnode => ?_, rfl⟩
    · have htokens : front ++ [last] = nodes.flatMap Node.tokens ++ [last] := by
        simpa [Scope.rest, Node.ofEof, Node.tokens, tokensOf, ← hclosed.split] using hrest
      exact List.append_cancel_right htokens
    · have hnode := hfound node hnode
      rw [productions_append hdialect] at hnode
      exact conforms_of_foundAsDefinition hextensions (Nat.le_add_right _ 3) hnode
  · -- and the grammar leaves one choice at each definition
    rintro ⟨nodes, rfl, hnodes, rfl⟩
    exact @Grammar.definitions_of_conforms _ ⟨source, dialect.extensions⟩ hextensions _
      (productions_append hdialect) _ _ hclosed.last_kind hnodes hclosed.split

/-- A named dialect parses a text if its tokens are those of definitions of the grammar, and
otherwise not. -/
theorem parse_eq_ok_iff {dialect : Dialect} {extended : Bool}
    (hdialect : dialect = if extended then gecko else standard) {text : String}
    {sourceName : Option String} {document : Document} :
    (dialect.parse text sourceName).result = .ok document ↔
      ∃ source nodes last,
        Source.read (Tweak.applyAll (dialect.tweaksFor sourceName) (Directive.mask text)).1
          sourceName = .ok source ∧
        source.tokens.toList = nodes.flatMap Node.tokens ++ [last] ∧ last.kind = .eof ∧
        (∀ node ∈ nodes, Conforms extended { symbol := .definition } node) ∧
        document = ⟨sourceName,
          (Tweak.applyAll (dialect.tweaksFor sourceName) (Directive.mask text)).2,
          nodes ++ [Node.ofEof last]⟩ := by
  rw [parse_eq_ok]
  constructor
  · rintro ⟨source, cursor, items, hsource, hitems, rfl⟩
    obtain ⟨front, last, hclosed⟩ := Source.closed_of_read hsource
    obtain ⟨nodes, rfl, hnodes, rfl⟩ := (finds_iff hdialect hclosed).mp ⟨cursor, hitems⟩
    exact ⟨source, nodes, last, hsource, hclosed.split, hclosed.last_kind, hnodes, rfl⟩
  · rintro ⟨source, nodes, last, hsource, htokens, hlast, hnodes, rfl⟩
    obtain ⟨front, final, hclosed⟩ := Source.closed_of_read hsource
    obtain ⟨rfl, hends⟩ := List.append_inj' (hclosed.split.symm.trans htokens) rfl
    obtain ⟨rfl, -⟩ := List.cons.inj hends
    obtain ⟨moved, hmoved⟩ := (finds_iff hdialect hclosed).mpr ⟨nodes, rfl, hnodes, rfl⟩
    exact ⟨source, moved, _, hsource, hmoved, rfl⟩

end Dialect

end WebIdl
