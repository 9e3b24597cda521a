import WebIdl.Proofs.Quiet.Definitions

/-!
# Interfaces that are left to other productions

An interface that may hold legacy callers turns a failure with a reason into finding nothing, so that
other productions can have the text.  The reason comes out of the head of the interface only
(`Deferral`): from the opening brace on the interface fails without one, and every such failure is
reported as it is.
-/

namespace WebIdl

open WebIdl.Parser WebIdl.Shape WebIdl.Grammar

/-- What an interface that may hold legacy callers is called. -/
def legacyCallerTag : String := "legacycaller interface"

/-- The tokens at which an interface that may hold legacy callers is left to other productions: there
is no `interface`, a mixin follows, or an interface without a body.  The heading is what has been
noted by then. -/
inductive Deferral : List Token → Option Heading → Prop
  | elsewhere {next : Token} {more : List Token} (hnext : next.isInline "interface" = false) :
      Deferral (next :: more) none
  | mixin {base next : Token} {more : List Token} (hbase : base.isInline "interface" = true)
      (hnext : next.isInline "mixin" = true) : Deferral (base :: next :: more) none
  | bodyless {base name : Token} {more : List Token} (hbase : base.isInline "interface" = true)
      (hname : name.kind = .identifier) (hmore : Bodyless more) :
      Deferral (base :: name :: more) (some ⟨legacyCallerTag, unescape name.text, false⟩)

namespace Grammar

section

variable {scope : Scope} {nested : Production → Parser (Option Node)} {cursor moved : Cursor}

/-- The interface behind its word. -/
def legacyCallerContainer (base : Token) : Container where
  construct := .interface
  tag := legacyCallerTag
  lead := [.token .base base]
  inheritable := true
  members := .legacyCaller :: interfaceMembers

theorem legacyCallerInterface_of_rest {base : Token} {more : List Token}
    (hrest : scope.rest cursor = base :: more) (hbase : base.isInline "interface" = true) :
    legacyCallerInterface nested scope cursor =
      deferring deferringReasons cursor.position (containerBody nested (legacyCallerContainer base))
        scope { cursor with position := cursor.position + 1 } := by
  rw [legacyCallerInterface, bind_of_ok (position_eq_ok.mpr ⟨rfl, rfl⟩),
    bind_of_ok (inline?_of_accepts hrest hbase)]
  rfl

/-- Behind the word `interface`, the two ways to say that an interface is left to others agree. -/
theorem deferral_cons_iff {base : Token} {more : List Token} {heading : Option Heading}
    (hbase : base.isInline "interface" = true) :
    Deferral (base :: more) heading ↔
      ∃ reason ∈ deferringReasons, Unlike (legacyCallerContainer base) more reason heading := by
  constructor
  · intro h
    cases h with
    | elsewhere hnext => simp [hbase] at hnext
    | mixin _ hnext => exact ⟨_, by decide, .mixin hnext⟩
    | bodyless _ hname hmore => exact ⟨_, by decide, .bodyless hname hmore⟩
  · rintro ⟨reason, -, h⟩
    cases h with
    | mixin hnext => exact .mixin hbase hnext
    | bodyless hname hmore => exact .bodyless hbase hname hmore

theorem mem_deferringReasons {container : Container} {tokens : List Token} {reason : String}
    {heading : Option Heading} (h : Unlike container tokens reason heading) :
    reason ∈ deferringReasons := by
  cases h <;> decide

theorem deferring_of_failsWith {parser : Parser Node} {reasons : List String} (start : Nat)
    {reason : String} {noted : Option Heading} (h : FailsWith (parser scope cursor) reason noted)
    (hreason : reason ∈ reasons) :
    ∃ moved, deferring reasons start parser scope cursor = .ok none moved ∧
      moved.position = start ∧ moved.current = noted := by
  obtain ⟨error, stop, hfailed, hcarried, hnoted⟩ := h
  refine ⟨{ stop with
    position := start
    trace := .deferred start reason :: stop.trace }, ?_, rfl, hnoted⟩
  simp only [deferring, hfailed, hcarried, List.contains_iff_mem.mpr hreason, if_true]

theorem deferring_of_failsPlainly {parser : Parser Node} {reasons : List String} {start : Nat}
    (h : FailsPlainly (parser scope cursor)) :
    (∀ moved, deferring reasons start parser scope cursor ≠ .ok none moved) ∧
      FailsPlainly (deferring reasons start parser scope cursor) := by
  unfold deferring
  cases hfound : parser scope cursor with
  | ok node moved => exact ⟨fun _ => by simp, fun _ _ heq => nomatch heq⟩
  | error failure moved =>
      have hplain := h failure moved hfound
      cases failure with
      | syntaxError error =>
          have hreason : error.problem.reason? = none := hplain
          simp only [hreason]
          exact ⟨fun _ => by simp, fun _ _ heq => by cases heq; exact hreason⟩
      | pastEnd => exact ⟨fun _ => by simp, fun _ _ heq => by cases heq; rfl⟩
      | missing token => exact ⟨fun _ => by simp, fun _ _ heq => by cases heq; rfl⟩
      | exhausted => exact ⟨fun _ => by simp, fun _ _ heq => by cases heq; rfl⟩

theorem legacyCallerMembers_headless (base : Token) :
    ∀ production ∈ (legacyCallerContainer base).members, production.isHeaded = false := by
  simp [legacyCallerContainer, interfaceMembers, Production.isHeaded]

/-- How an interface that may hold legacy callers ends.  Where it is left to others it finds nothing
and goes back to its start; everywhere else it finds something or fails without a reason. -/
theorem legacyCallerInterface_ends (hnested : Hushed scope nested) (hends : scope.Ends)
    (hcursor : cursor.position < scope.source.tokens.size) :
    (∃ heading moved, Deferral (scope.rest cursor) heading ∧
      legacyCallerInterface nested scope cursor = .ok none moved ∧
      moved.position = cursor.position ∧ moved.current = (heading <|> cursor.current)) ∨
    (∀ heading, ¬ Deferral (scope.rest cursor) heading) ∧
      (∀ moved, legacyCallerInterface nested scope cursor ≠ .ok none moved) ∧
      FailsPlainly (legacyCallerInterface nested scope cursor) := by
  obtain ⟨base, more, hrest⟩ := exists_rest hcursor
  cases hbase : base.isInline "interface" with
  | false =>
      refine Or.inl ⟨none, cursor, hrest ▸ .elsewhere hbase, ?_, rfl, rfl⟩
      rw [legacyCallerInterface, bind_of_ok (position_eq_ok.mpr ⟨rfl, rfl⟩),
        bind_of_ok (inline?_of_rejects hrest hbase)]
      rfl
  | true =>
      have hbehind : scope.rest { cursor with position := cursor.position + 1 } = more :=
        rest_of_rest hrest rfl
      have hsize : ({ cursor with position := cursor.position + 1 } : Cursor).position <
          scope.source.tokens.size :=
        hends cursor.position base (getElem?_of_rest hrest) (by simp [kind_of_isInline hbase])
      rw [legacyCallerInterface_of_rest hrest hbase, hrest]
      -- the body ends with a reason to defer, or without one
      rcases containerBody_ends hnested hends (legacyCallerMembers_headless base) rfl hsize with
        ⟨reason, heading, hunlike, hfails⟩ | ⟨hlike, hplain⟩
      · have hreason := mem_deferringReasons hunlike
        obtain ⟨moved, hnone, hposition, hcurrent⟩ :=
          deferring_of_failsWith cursor.position hfails hreason
        rw [hbehind] at hunlike
        exact Or.inl ⟨heading, moved, (deferral_cons_iff hbase).mpr ⟨reason, hreason, hunlike⟩,
          hnone, hposition, hcurrent⟩
      · refine Or.inr ⟨fun heading hdeferral => ?_, deferring_of_failsPlainly hplain⟩
        obtain ⟨reason, -, hunlike⟩ := (deferral_cons_iff hbase).mp hdeferral
        exact hlike reason heading (hbehind ▸ hunlike)

/-- Where such an interface has been found, it is the definition being read. -/
theorem legacyCallerInterface_found (hnested : Hushed scope nested) {node : Node}
    (h : legacyCallerInterface nested scope cursor = .ok (some node) moved) :
    node.construct = .interface ∧ node.tag = legacyCallerTag ∧
      moved.current = some (Heading.of node) := by
  obtain ⟨base, middle, hbase, h⟩ := bind_eq_ok.mp (position_bind.mp h)
  cases base with
  | none => cases (pure_eq_ok.mp h).1
  | some base =>
      rcases deferring_eq_ok h with ⟨found, hsome, hfound⟩ | ⟨hnone, -⟩
      · obtain rfl := Option.some.inj hsome
        have hled : (legacyCallerContainer base).WellLed :=
          ⟨by simp [legacyCallerContainer], fun _ => rfl, fun _ => rfl⟩
        exact tracks_containerBody hnested (legacyCallerMembers_headless base) hled middle node moved
          rfl hfound
      · cases hnone

end

end Grammar

/-! ## Whole runs -/

/-- Neither language has definitions with a name among its types and members. -/
theorem headless_of_extensions {extensions : Extensions}
    (h : extensions = {} ∨ extensions = Dialect.gecko.extensions) :
    ∀ production ∈ extensions.added, production.isHeaded = false := by
  rcases h with rfl | rfl <;> decide

/-- At the depth that fits a source a production finds something, finds nothing, or reports a
problem. -/
theorem Production.parse_cases {source : Source} {extensions : Extensions}
    (hends : Scope.Ends ⟨source, extensions⟩)
    (hextensions : extensions = {} ∨ extensions = Dialect.gecko.extensions) {cursor : Cursor}
    (hcursor : cursor.position < source.tokens.size) (production : Production) :
    (∃ found moved, production.parse ⟨source, extensions⟩ cursor = .ok found moved) ∨
      ∃ error moved, production.parse ⟨source, extensions⟩ cursor =
        .error (.syntaxError error) moved := by
  obtain ⟨extended, hextended⟩ := exists_extensionsOf hextensions
  have hwithin := Production.safe_parseTo_depthFor hends hextended production cursor
    (Nat.zero_le _) hcursor
  change (production.parse ⟨source, extensions⟩ cursor).Within _ _ at hwithin
  cases hresult : production.parse ⟨source, extensions⟩ cursor with
  | ok found moved => exact Or.inl ⟨found, moved, rfl⟩
  | error failure moved =>
      rw [hresult] at hwithin
      cases failure with
      | syntaxError error => exact Or.inr ⟨error, moved, rfl⟩
      | pastEnd => exact hwithin.elim
      | missing token => exact hwithin.elim
      | exhausted => exact hwithin.elim

/-- Leaving an interface to other productions never hides a problem in its body.  In a source that
was read from a text, from any place that is not past the end of the text:

* an interface that may hold legacy callers finds nothing just if there is no `interface`, if a
  `mixin` follows, or if a name follows, perhaps with a colon and a second name, and then no brace;
* everywhere else it finds an interface, or it fails without a reason;
* the members of its body are no definitions with a name, and what is no such definition fails
  without a reason, wherever it is run and however deep. -/
theorem legacyCallerInterface_defers {text : String} {name : Option String} {source : Source}
    (hsource : Source.read text name = .ok source) {extensions : Extensions}
    (hextensions : extensions = {} ∨ extensions = Dialect.gecko.extensions) {cursor : Cursor}
    (hcursor : cursor.position < source.tokens.size) :
    ((∃ moved, Production.legacyCallerInterface.parse ⟨source, extensions⟩ cursor =
        .ok none moved) ↔
      ∃ heading, Deferral (source.tokens.toList.drop cursor.position) heading) ∧
    ((¬ ∃ heading, Deferral (source.tokens.toList.drop cursor.position) heading) →
      (∃ node moved, Production.legacyCallerInterface.parse ⟨source, extensions⟩ cursor =
          .ok (some node) moved ∧ node.construct = .interface ∧ node.tag = legacyCallerTag) ∨
        ∃ error moved, Production.legacyCallerInterface.parse ⟨source, extensions⟩ cursor =
          .error (.syntaxError error) moved ∧ error.problem.reason? = none) ∧
    (∀ production ∈ Production.legacyCaller :: interfaceMembers, production.isHeaded = false) ∧
    ∀ (depth : Nat) (production : Production) (inside moved : Cursor) (failure : Failure),
      production.isHeaded = false →
      Production.parseTo depth production ⟨source, extensions⟩ inside = .error failure moved →
        failure.reason? = none := by
  obtain ⟨front, last, hclosed⟩ := Source.closed_of_read hsource
  have hends : Scope.Ends ⟨source, extensions⟩ := Scope.ends_of_closed hclosed
  have hadded := headless_of_extensions hextensions
  have hhushed (depth : Nat) : Hushed ⟨source, extensions⟩ (Production.parseTo depth) :=
    Production.hushed_parseTo hadded depth
  -- the three outcomes are read off the one case distinction
  have hcases := legacyCallerInterface_ends (hhushed (2 * source.tokens.size + 3)) hends hcursor
  refine ⟨⟨?_, ?_⟩, ?_, by simp [interfaceMembers, Production.isHeaded],
    fun depth production inside moved failure hheadless hfailed =>
      ((hhushed depth).quiet hheadless).reason?_eq hfailed⟩
  · rintro ⟨moved, hnone⟩
    rcases hcases with ⟨heading, -, hdeferral, -⟩ | ⟨-, hsome, -⟩
    · exact ⟨heading, hdeferral⟩
    · exact absurd hnone (hsome moved)
  · rintro ⟨heading, hdeferral⟩
    rcases hcases with ⟨-, moved, -, hnone, -⟩ | ⟨hfirm, -⟩
    · exact ⟨moved, hnone⟩
    · exact absurd hdeferral (hfirm heading)
  · intro hfirm
    obtain ⟨-, hsome, hplain⟩ := hcases.resolve_left (by
      rintro ⟨heading, -, hdeferral, -⟩
      exact hfirm ⟨heading, hdeferral⟩)
    rcases Production.parse_cases hends hextensions hcursor .legacyCallerInterface with
      ⟨found, moved, hfound⟩ | ⟨error, moved, hfailed⟩
    · cases found with
      | none => exact absurd hfound (hsome moved)
      | some node =>
          obtain ⟨hconstruct, htag, -⟩ := legacyCallerInterface_found (hhushed _) hfound
          exact Or.inl ⟨node, moved, hfound, hconstruct, htag⟩
    · exact Or.inr ⟨error, moved, hfailed, hplain _ _ hfailed⟩

/-- Does the production report a problem at the token of the text? -/
def Production.failsAt (production : Production) (extensions : Extensions) (text : String)
    (position : Nat) : Bool :=
  match Source.read text none with
  | .ok source =>
    match production.parse ⟨source, extensions⟩ { position } with
    | .error (.syntaxError _) _ => decide (position < source.tokens.size)
    | _ => false
  | .error _ => false

/-- A definition in the place of a type, deep inside a member, is a problem without a reason. -/
theorem legacyCallerInterface_defers_member : ∃ source error moved,
    Source.read "interface A : B \x7b legacycaller record<UTF8String, interface C> f(); \x7d;" none =
        .ok source ∧ 0 < source.tokens.size ∧
      Production.legacyCallerInterface.parse ⟨source, Dialect.gecko.extensions⟩ {} =
        .error (.syntaxError error) moved ∧ error.problem.reason? = none := by
  have hruns : Production.legacyCallerInterface.failsAt Dialect.gecko.extensions
      "interface A : B \x7b legacycaller record<UTF8String, interface C> f(); \x7d;" 0 = true := by
    decide +kernel
  unfold Production.failsAt at hruns
  split at hruns
  · rename_i source hsource
    split at hruns
    · rename_i error moved hfailed
      have hcursor : 0 < source.tokens.size := of_decide_eq_true hruns
      obtain ⟨hdefers, hfirm, -⟩ := legacyCallerInterface_defers hsource (Or.inr rfl)
        (show ({} : Cursor).position < source.tokens.size from hcursor)
      have hnone : ¬ ∃ heading, Deferral (source.tokens.toList.drop 0) heading := by
        intro hdeferral
        obtain ⟨stop, hnone⟩ := hdefers.mpr hdeferral
        rw [hnone] at hfailed
        cases hfailed
      rcases hfirm hnone with ⟨node, stop, hfound, -⟩ | ⟨error, stop, hplain⟩
      · rw [hfound] at hfailed
        cases hfailed
      · exact ⟨source, error, stop, hsource, hcursor, hplain⟩
    · cases hruns
  · cases hruns

end WebIdl
