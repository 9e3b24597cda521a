import WebIdl.Proofs.Mirror.Definitions
import WebIdl.Proofs.Quiet.Deferral

/-!
# What an attempt leaves behind

An attempt runs productions one after the other from one place until one of them matches.  What it
finds, and where it stops, is what the first matching production finds when it is run alone: a
production depends on the tokens from its place on and on nothing that happened before
(`Production.parse_of_position`).

The definition being read is another matter.  A production that finds nothing leaves it as it was,
with one exception: an interface that may hold legacy callers has noted its name by the time it turns
out to have no body, and the note stays when it is left to other productions (`LeftOver`).
-/

namespace WebIdl

open WebIdl.Parser WebIdl.Shape WebIdl.Grammar

/-! ## From one place -/

/-- Two runs from one place find the same and stop at the same place, whatever was noted before. -/
theorem Production.parse_of_position {scope : Scope} {cursor other moved : Cursor}
    (hposition : other.position = cursor.position) {production : Production} {found : Option Node}
    (h : production.parse scope cursor = .ok found moved) :
    ∃ stop, production.parse scope other = .ok found stop ∧ stop.position = moved.position := by
  let mirror : Mirror := .same scope
  have hspells : mirror.view.Spells := View.spells_whole
  have houtcome := (@Production.reflects_parseTo mirror (Or.inl hspells)
    _ _ (Nat.le_refl (depthFor scope.source.tokens.size))).production production (Or.inl hspells)
      cursor other hposition
  have hshown : Option.map mirror.view.node found = found := by
    simp [mirror, Mirror.same]
  change Outcome.Mirrors _ _ _ (production.parse scope cursor) (production.parse scope other)
    at houtcome
  rw [h] at houtcome
  generalize production.parse scope other = outcome at houtcome
  cases houtcome with
  | ok hgood hmoved => exact ⟨_, by rw [hshown], hmoved⟩

/-! ## One production -/

/-- Run alone from here, the production finds nothing. -/
def Misses (scope : Scope) (cursor : Cursor) (production : Production) : Prop :=
  ∃ stop, production.parse scope cursor = .ok none stop

theorem Misses.of_position {scope : Scope} {cursor other : Cursor} {production : Production}
    (h : Misses scope cursor production) (hposition : other.position = cursor.position) :
    Misses scope other production := by
  obtain ⟨stop, hnone⟩ := h
  obtain ⟨stop, hnone, -⟩ := Production.parse_of_position hposition hnone
  exact ⟨stop, hnone⟩

/-- One of the productions is left to others at these tokens when it has noted its name already. -/
def Stale (productions : List Production) (tokens : List Token) (heading : Heading) : Prop :=
  .legacyCallerInterface ∈ productions ∧ Deferral tokens (some heading)

/-- What is noted after productions that found nothing: the name that one of them has left behind, or
else what was noted before. -/
def LeftOver (productions : List Production) (tokens : List Token)
    (before after : Option Heading) : Prop :=
  (∃ heading, Stale productions tokens heading ∧ after = some heading) ∨
    (∀ heading, ¬ Stale productions tokens heading) ∧ after = before

theorem leftOver_nil {tokens : List Token} {before : Option Heading} :
    LeftOver [] tokens before before :=
  Or.inr ⟨fun _ h => absurd h.1 (by simp), rfl⟩

theorem LeftOver.append {front back : List Production} {tokens : List Token}
    {before middle after : Option Heading} (hfront : LeftOver front tokens before middle)
    (hback : LeftOver back tokens middle after) :
    LeftOver (front ++ back) tokens before after := by
  rcases hback with ⟨heading, hstale, hafter⟩ | ⟨hclean, rfl⟩
  · exact Or.inl ⟨heading, ⟨List.mem_append_right front hstale.1, hstale.2⟩, hafter⟩
  · rcases hfront with ⟨heading, hstale, hmiddle⟩ | ⟨hcleanFront, rfl⟩
    · exact Or.inl ⟨heading, ⟨List.mem_append_left back hstale.1, hstale.2⟩, hmiddle⟩
    · refine Or.inr ⟨fun heading hstale => ?_, rfl⟩
      rcases List.mem_append.mp hstale.1 with hmem | hmem
      · exact hcleanFront heading ⟨hmem, hstale.2⟩
      · exact hclean heading ⟨hmem, hstale.2⟩

/-- What is asked of a scope for productions to run on it. -/
structure Readable (scope : Scope) : Prop where
  ends : scope.Ends
  added_headless : ∀ production ∈ scope.extensions.added, production.isHeaded = false

section

variable {scope : Scope} {cursor moved : Cursor} {production : Production}

theorem Readable.hushed (hscope : Readable scope) (depth : Nat) :
    Hushed scope (Production.parseTo depth) :=
  Production.hushed_parseTo hscope.added_headless depth

/-- The tokens tell what has been noted. -/
theorem Deferral.eq_heading {tokens : List Token} {heading other : Option Heading}
    (h : Deferral tokens heading) (hother : Deferral tokens other) : heading = other := by
  -- the second token of an interface is no keyword and a name at once
  have hapart {next : Token} (hnext : next.isInline "mixin" = true) : next.kind ≠ .identifier := by
    rw [kind_of_isInline hnext]
    decide
  cases h with
  | elsewhere hnext =>
      cases hother with
      | elsewhere => rfl
      | mixin hbase | bodyless hbase => exact absurd (hnext.symm.trans hbase) (by simp)
  | mixin hbase hnext =>
      cases hother with
      | elsewhere hfirst => exact absurd (hfirst.symm.trans hbase) (by simp)
      | mixin => rfl
      | bodyless _ hname => exact absurd hname (hapart hnext)
  | bodyless hbase hname hmore =>
      cases hother with
      | elsewhere hfirst => exact absurd (hfirst.symm.trans hbase) (by simp)
      | mixin _ hnext => exact absurd hname (hapart hnext)
      | bodyless => rfl

/-- Run alone, a production that finds nothing leaves behind what it has noted if it is left to
others. -/
theorem leftOver_of_missed (hscope : Readable scope)
    (hcursor : cursor.position < scope.source.tokens.size)
    (h : production.parse scope cursor = .ok none moved) :
    LeftOver [production] (scope.rest cursor) cursor.current moved.current := by
  have hhushed := hscope.hushed (2 * scope.source.tokens.size + 3)
  by_cases hlegacy : production = .legacyCallerInterface
  · subst hlegacy
    rcases legacyCallerInterface_ends hhushed hscope.ends hcursor with
      ⟨heading, stop, hdeferral, hnone, -, hcurrent⟩ | ⟨-, hsome, -⟩
    · obtain ⟨-, rfl⟩ := Outcome.ok.inj (hnone.symm.trans h)
      cases heading with
      | some heading => exact Or.inl ⟨heading, ⟨List.mem_singleton_self _, hdeferral⟩, hcurrent⟩
      | none =>
          refine Or.inr ⟨fun heading hstale => ?_, hcurrent⟩
          cases hdeferral.eq_heading hstale.2
    · exact absurd h (hsome moved)
  · refine Or.inr ⟨fun heading hstale => hlegacy (List.mem_singleton.mp hstale.1).symm, ?_⟩
    cases hheaded : production.isHeaded with
    | false => exact (Production.quiet_step hhushed hheaded).current_eq h
    | true =>
        exact Production.tracks_step hhushed hheaded hlegacy cursor none moved rfl h

/-- A definition with a name is the one being read once it has been found; any other construct leaves
that as it was. -/
theorem current_of_found (hscope : Readable scope) {node : Node}
    (h : production.parse scope cursor = .ok (some node) moved) :
    moved.current = if production.isHeaded then some (Heading.of node) else cursor.current := by
  have hhushed := hscope.hushed (2 * scope.source.tokens.size + 3)
  cases hheaded : production.isHeaded with
  | false => exact (Production.quiet_step hhushed hheaded).current_eq h
  | true =>
      rw [if_pos rfl]
      by_cases hlegacy : production = .legacyCallerInterface
      · subst hlegacy
        exact (legacyCallerInterface_found hhushed h).2.2
      · exact Production.tracks_step hhushed hheaded hlegacy cursor (some node) moved rfl h

end

/-! ## Productions in a row -/

/-- The first production of a list that matches. -/
def Parser.attempt (productions : List Production) : Parser (Option Node) :=
  recursively fun nested => firstMatch nested productions

section

variable {scope : Scope} {cursor moved : Cursor} {production : Production}
  {front back productions : List Production}

theorem attempt_nil : Parser.attempt [] scope cursor = .ok none cursor := rfl

theorem attempt_of_found {node : Node}
    (h : production.parse scope cursor = .ok (some node) moved) (back : List Production) :
    Parser.attempt (production :: back) scope cursor = .ok (some node)
      { moved with trace := .matched production node.tag cursor.position :: moved.trace } := by
  change Production.parseTo _ production scope cursor = _ at h
  simp only [Parser.attempt, recursively, recursivelyTo, firstMatch, Bind.bind, Parser.size, position, h]
  rfl

theorem attempt_of_missed (h : production.parse scope cursor = .ok none moved)
    (back : List Production) :
    Parser.attempt (production :: back) scope cursor =
      Parser.attempt back scope { moved with position := cursor.position } := by
  change Production.parseTo _ production scope cursor = _ at h
  simp only [Parser.attempt, recursively, recursivelyTo, firstMatch, Bind.bind, Parser.size, position, h]
  rfl

theorem attempt_of_failed {failure : Failure}
    (h : production.parse scope cursor = .error failure moved) (back : List Production) :
    Parser.attempt (production :: back) scope cursor = .error failure moved := by
  change Production.parseTo _ production scope cursor = _ at h
  simp only [Parser.attempt, recursively, recursivelyTo, firstMatch, Bind.bind, Parser.size, position, h]

/-- Productions that find nothing are passed over: the others run from the same place. -/
theorem attempt_skip (hscope : Readable scope)
    (hcursor : cursor.position < scope.source.tokens.size)
    (hfront : ∀ earlier ∈ front, Misses scope cursor earlier) (back : List Production) :
    ∃ start, Parser.attempt (front ++ back) scope cursor = Parser.attempt back scope start ∧
      start.position = cursor.position ∧
      LeftOver front (scope.rest cursor) cursor.current start.current := by
  induction front generalizing cursor with
  | nil => exact ⟨cursor, rfl, rfl, leftOver_nil⟩
  | cons earlier front ih =>
      obtain ⟨⟨stop, hnone⟩, hothers⟩ := List.forall_mem_cons.mp hfront
      have hstop := leftOver_of_missed hscope hcursor hnone
      -- the others are run from where the first one was
      obtain ⟨start, hstart, hposition, hleft⟩ :=
        ih (show ({ stop with position := cursor.position } : Cursor).position <
            scope.source.tokens.size from hcursor)
          fun other hother => (hothers other hother).of_position rfl
      refine ⟨start, ?_, hposition, ?_⟩
      · rw [List.cons_append, attempt_of_missed hnone, hstart]
      · exact hstop.append hleft

/-- A list of productions has a first one that finds something or fails, or there is none. -/
theorem exists_first (scope : Scope) (cursor : Cursor) (productions : List Production) :
    (∀ production ∈ productions, Misses scope cursor production) ∨
      ∃ front production back, productions = front ++ production :: back ∧
        (∀ earlier ∈ front, Misses scope cursor earlier) ∧ ¬ Misses scope cursor production := by
  induction productions with
  | nil => exact Or.inl (by simp)
  | cons production others ih =>
      by_cases hmisses : Misses scope cursor production
      · rcases ih with hothers | ⟨front, later, back, rfl, hfront, hlater⟩
        · exact Or.inl (List.forall_mem_cons.mpr ⟨hmisses, hothers⟩)
        · exact Or.inr ⟨production :: front, later, back, rfl,
            List.forall_mem_cons.mpr ⟨hmisses, hfront⟩, hlater⟩
      · exact Or.inr ⟨[], production, others, rfl, by simp, hmisses⟩

/-- Where all productions find nothing the attempt is back where it began. -/
theorem attempt_none (hscope : Readable scope)
    (hcursor : cursor.position < scope.source.tokens.size)
    (hmisses : ∀ production ∈ productions, Misses scope cursor production) :
    ∃ stop, Parser.attempt productions scope cursor = .ok none stop ∧
      stop.position = cursor.position ∧
      LeftOver productions (scope.rest cursor) cursor.current stop.current := by
  obtain ⟨start, hstart, hposition, hleft⟩ := attempt_skip hscope hcursor hmisses []
  exact ⟨start, by rw [← List.append_nil productions, hstart, attempt_nil], hposition, hleft⟩

/-- Where a production is the first to find something, the attempt finds the same, at the same
place. -/
theorem attempt_some (hscope : Readable scope)
    (hcursor : cursor.position < scope.source.tokens.size)
    (hfront : ∀ earlier ∈ front, Misses scope cursor earlier) {node : Node} {alone : Cursor}
    (halone : production.parse scope cursor = .ok (some node) alone) (back : List Production) :
    ∃ stop, Parser.attempt (front ++ production :: back) scope cursor = .ok (some node) stop ∧
      stop.position = alone.position ∧
      if production.isHeaded then stop.current = alone.current
      else LeftOver front (scope.rest cursor) alone.current stop.current := by
  obtain ⟨start, hstart, hposition, hleft⟩ :=
    attempt_skip hscope hcursor hfront (production :: back)
  obtain ⟨stop, hstop, hplace⟩ := Production.parse_of_position hposition halone
  refine ⟨_, hstart.trans (attempt_of_found hstop back), hplace, ?_⟩
  have hcurrent := current_of_found hscope hstop
  rw [current_of_found hscope halone]
  cases hheaded : production.isHeaded with
  | true => simpa [hheaded] using hcurrent
  | false =>
      rw [hheaded] at hcurrent
      simp only [Bool.false_eq_true, if_false] at hcurrent ⊢
      rwa [hcurrent]

/-- How an attempt that ends without a failure has run. -/
theorem attempt_cases (hscope : Readable scope)
    (hcursor : cursor.position < scope.source.tokens.size) {found : Option Node}
    (h : Parser.attempt productions scope cursor = .ok found moved) :
    (found = none ∧ ∀ production ∈ productions, Misses scope cursor production) ∨
      ∃ front production back node alone, found = some node ∧
        productions = front ++ production :: back ∧
        (∀ earlier ∈ front, Misses scope cursor earlier) ∧
        production.parse scope cursor = .ok (some node) alone := by
  rcases exists_first scope cursor productions with hmisses |
    ⟨front, production, back, rfl, hfront, hfirm⟩
  · obtain ⟨stop, hnone, -⟩ := attempt_none hscope hcursor hmisses
    exact Or.inl ⟨(Outcome.ok.inj (h.symm.trans hnone)).1, hmisses⟩
  · obtain ⟨start, hstart, hposition, -⟩ :=
      attempt_skip hscope hcursor hfront (production :: back)
    rw [hstart] at h
    cases hrun : production.parse scope start with
    | error failure stop =>
        rw [attempt_of_failed hrun] at h
        cases h
    | ok value stop =>
        obtain ⟨alone, halone, -⟩ := Production.parse_of_position hposition.symm hrun
        cases value with
        | none => exact absurd ⟨alone, halone⟩ hfirm
        | some node =>
            rw [attempt_of_found hrun] at h
            exact Or.inr ⟨front, production, back, node, alone, (Outcome.ok.inj h).1.symm, rfl,
              hfront, halone⟩

/-- What is noted after more productions that found nothing is the same as without them, or a name
that one of them has left behind. -/
theorem LeftOver.insert {extra : List Production} {tokens : List Token}
    {before after later : Option Heading} (h : LeftOver (front ++ back) tokens before after)
    (hlater : LeftOver (front ++ extra ++ back) tokens before later) :
    later = after ∨ ∃ heading, Stale extra tokens heading ∧ later = some heading := by
  have hmem {heading : Heading} (hstale : Stale (front ++ back) tokens heading) :
      Stale (front ++ extra ++ back) tokens heading := by
    refine ⟨?_, hstale.2⟩
    rcases List.mem_append.mp hstale.1 with hmem | hmem <;> simp [hmem]
  rcases hlater with ⟨heading, hstale, rfl⟩ | ⟨hclean, rfl⟩
  · rcases h with ⟨heading', hstale', rfl⟩ | ⟨hclean', rfl⟩
    · exact Or.inl (hstale.2.eq_heading hstale'.2)
    · -- the name was left behind by one of the others
      refine Or.inr ⟨heading, ⟨?_, hstale.2⟩, rfl⟩
      have hnot : .legacyCallerInterface ∉ front ++ back := fun hin =>
        hclean' heading ⟨hin, hstale.2⟩
      simp only [List.mem_append, not_or] at hnot
      simpa [hnot.1, hnot.2] using hstale.1
  · rcases h with ⟨heading', hstale', -⟩ | ⟨-, rfl⟩
    · exact absurd (hmem hstale') (hclean heading')
    · exact Or.inl rfl

/-- What is noted where an attempt has found something, as far as other productions before that
production are concerned. -/
theorem current_insert {extra : List Production} {tokens : List Token} {isHeaded : Bool}
    {before after later : Option Heading}
    (h : if isHeaded then after = before else LeftOver (front ++ back) tokens before after)
    (hlater : if isHeaded then later = before
      else LeftOver (front ++ extra ++ back) tokens before later) :
    later = after ∨ ∃ heading, Stale extra tokens heading ∧ later = some heading := by
  cases isHeaded with
  | true =>
      simp only [if_true] at h hlater
      exact Or.inl (hlater.trans h.symm)
  | false =>
      simp only [Bool.false_eq_true, if_false] at h hlater
      exact h.insert hlater

/-- Putting productions that find nothing into a list changes neither what an attempt finds nor where
it stops, and what is noted then only by a name that one of them has left behind. -/
theorem attempt_insert (hscope : Readable scope)
    (hcursor : cursor.position < scope.source.tokens.size) {extra : List Production}
    (hextra : ∀ production ∈ extra, Misses scope cursor production) {found : Option Node}
    (h : Parser.attempt (front ++ back) scope cursor = .ok found moved) :
    ∃ stop, Parser.attempt (front ++ extra ++ back) scope cursor = .ok found stop ∧
      stop.position = moved.position ∧
      (stop.current = moved.current ∨
        ∃ heading, Stale extra (scope.rest cursor) heading ∧ stop.current = some heading) := by
  rcases attempt_cases hscope hcursor h with ⟨rfl, hmisses⟩ |
    ⟨early, production, late, node, alone, rfl, hsplit, hearly, halone⟩
  · obtain ⟨moved', hmoved, hposition, hleft⟩ := attempt_none hscope hcursor hmisses
    obtain ⟨-, rfl⟩ := Outcome.ok.inj (h.symm.trans hmoved)
    have hall : ∀ production ∈ front ++ extra ++ back, Misses scope cursor production := by
      simp only [List.mem_append] at hmisses ⊢
      rintro production ((hin | hin) | hin)
      · exact hmisses production (Or.inl hin)
      · exact hextra production hin
      · exact hmisses production (Or.inr hin)
    obtain ⟨stop, hstop, hplace, hlater⟩ := attempt_none hscope hcursor hall
    exact ⟨stop, hstop, hplace.trans hposition.symm, hleft.insert hlater⟩
  · obtain ⟨moved', hmoved, hposition, hcurrent⟩ :=
      attempt_some hscope hcursor hearly halone late
    rw [← hsplit, h] at hmoved
    obtain ⟨-, rfl⟩ := Outcome.ok.inj hmoved
    -- the production stands behind the place of the others, or before it
    have hplaces : (∃ more, early = front ++ more ∧ back = more ++ production :: late) ∨
        ∃ more, front = early ++ production :: more ∧ late = more ++ back := by
      rcases List.append_eq_append_iff.mp hsplit with hbehind | ⟨more, rfl, hmore⟩
      · exact Or.inl hbehind
      · cases more with
        | nil => exact Or.inl ⟨[], by simp, hmore.symm⟩
        | cons first more =>
            obtain ⟨rfl, rfl⟩ := List.cons.inj hmore
            exact Or.inr ⟨more, rfl, rfl⟩
    rcases hplaces with ⟨more, rfl, rfl⟩ | ⟨more, rfl, rfl⟩
    · have hothers : ∀ earlier ∈ front ++ extra ++ more, Misses scope cursor earlier := by
        simp only [List.mem_append] at hearly ⊢
        rintro earlier ((hin | hin) | hin)
        · exact hearly earlier (Or.inl hin)
        · exact hextra earlier hin
        · exact hearly earlier (Or.inr hin)
      obtain ⟨stop, hstop, hplace, hlater⟩ := attempt_some hscope hcursor hothers halone late
      refine ⟨stop, ?_, hplace.trans hposition.symm, current_insert hcurrent hlater⟩
      rw [← hstop, List.append_assoc _ more]
    · obtain ⟨stop, hstop, hplace, hlater⟩ :=
        attempt_some hscope hcursor hearly halone (more ++ extra ++ back)
      have hsame := @current_insert early [] [] _ _ _ _ _ (by simpa using hcurrent)
        (by simpa using hlater)
      refine ⟨stop, ?_, hplace.trans hposition.symm, Or.inl (hsame.resolve_right ?_)⟩
      · rw [← hstop]
        simp
      · rintro ⟨heading, hstale, -⟩
        exact absurd hstale.1 (by simp)

end

/-! ## Whole runs -/

/-- What an attempt leaves behind.  In a source that was read from a text, from any place that is not
past the end of the text, with `Misses` for a production that finds nothing when it is run alone:

* an attempt that finds nothing stands where it stood, and all its productions miss;
* an attempt that finds something finds what the first production that does not miss finds alone, and
  stops at the same place; the definition being read is the same too if that is what the production
  finds;
* productions that miss can be put anywhere into the list, and the attempt finds the same at the same
  place;
* values of enumerations and attributes, which no production finds alone, stand where they stood if
  they find nothing, and leave the definition being read alone.

The definition being read stays as it was through productions that miss, unless an interface that may
hold legacy callers is among them and an interface without a body stands here: then it is the name of
that interface (`LeftOver`, `Stale`). -/
theorem attempt_leaves {text : String} {name : Option String} {source : Source}
    (hsource : Source.read text name = .ok source) {extensions : Extensions}
    (hextensions : extensions = {} ∨ extensions = Dialect.gecko.extensions) {cursor : Cursor}
    (hcursor : cursor.position < source.tokens.size) :
    (∀ (productions : List Production) (moved : Cursor),
      Parser.attempt productions ⟨source, extensions⟩ cursor = .ok none moved →
        (∀ production ∈ productions, Misses ⟨source, extensions⟩ cursor production) ∧
        moved.position = cursor.position ∧
        LeftOver productions (source.tokens.toList.drop cursor.position) cursor.current
          moved.current) ∧
    (∀ (productions : List Production) (node : Node) (moved : Cursor),
      Parser.attempt productions ⟨source, extensions⟩ cursor = .ok (some node) moved →
        ∃ front production back alone, productions = front ++ production :: back ∧
          (∀ earlier ∈ front, Misses ⟨source, extensions⟩ cursor earlier) ∧
          production.parse ⟨source, extensions⟩ cursor = .ok (some node) alone ∧
          moved.position = alone.position ∧
          if production.isHeaded then moved.current = alone.current
          else LeftOver front (source.tokens.toList.drop cursor.position) alone.current
            moved.current) ∧
    (∀ (front extra back : List Production) (found : Option Node) (moved : Cursor),
      (∀ production ∈ extra, Misses ⟨source, extensions⟩ cursor production) →
      Parser.attempt (front ++ back) ⟨source, extensions⟩ cursor = .ok found moved →
        ∃ stop, Parser.attempt (front ++ extra ++ back) ⟨source, extensions⟩ cursor =
            .ok found stop ∧
          stop.position = moved.position ∧
          (stop.current = moved.current ∨ ∃ heading,
            Stale extra (source.tokens.toList.drop cursor.position) heading ∧
              stop.current = some heading)) ∧
    ∀ parser ∈ enumValue :: Grammar.valueKinds.map wrappedToken, ∀ found moved,
      parser ⟨source, extensions⟩ cursor = .ok found moved →
        (found = none → moved.position = cursor.position) ∧ moved.current = cursor.current := by
  obtain ⟨front, last, hclosed⟩ := Source.closed_of_read hsource
  have hscope : Readable ⟨source, extensions⟩ :=
    ⟨Scope.ends_of_closed hclosed, headless_of_extensions hextensions⟩
  refine ⟨fun productions moved h => ?_, fun productions node moved h => ?_,
    fun front extra back found moved hextra h => attempt_insert hscope hcursor hextra h,
    fun parser hparser found moved h => ?_⟩
  · rcases attempt_cases hscope hcursor h with ⟨-, hmisses⟩ | ⟨_, _, _, _, _, hsome, -⟩
    · -- the outcome is the same on every run, so it is the one that is known
      obtain ⟨stop, hstop, hposition, hleft⟩ := attempt_none hscope hcursor hmisses
      obtain ⟨-, rfl⟩ := Outcome.ok.inj (h.symm.trans hstop)
      exact ⟨hmisses, hposition, hleft⟩
    · cases hsome
  · rcases attempt_cases hscope hcursor h with ⟨hnone, -⟩ |
      ⟨front, production, back, found, alone, hsome, rfl, hfront, halone⟩
    · cases hnone
    · obtain rfl := Option.some.inj hsome
      obtain ⟨stop, hstop, hposition, hcurrent⟩ :=
        attempt_some hscope hcursor hfront halone back
      obtain ⟨-, rfl⟩ := Outcome.ok.inj (h.symm.trans hstop)
      exact ⟨front, production, back, alone, rfl, hfront, halone, hposition, hcurrent⟩
  · rcases List.mem_cons.mp hparser with rfl | hvalue
    · refine ⟨?_, quiet_enumValue.current_eq h⟩
      rintro rfl
      exact found_enumValue false h
    · obtain ⟨kind, hkind, rfl⟩ := List.mem_map.mp hvalue
      refine ⟨?_, (quiet_wrappedToken kind).current_eq h⟩
      rintro rfl
      exact found_wrappedToken false (by rintro rfl; exact absurd hkind (by decide)) h

/-- Whether an attempt at the start of a text finds something, and what is noted then. -/
def attemptOn (productions : List Production) (text : String) : Option (Bool × Option Heading) :=
  match Source.read text none with
  | .ok source =>
    match Parser.attempt productions ⟨source, Dialect.gecko.extensions⟩ {} with
    | .ok found moved =>
      if 0 < source.tokens.size then some (found.isSome, moved.current) else none
    | .error _ _ => none
  | .error _ => none

theorem exists_of_attemptOn {productions : List Production} {text : String} {isFound : Bool}
    {noted : Option Heading} (h : attemptOn productions text = some (isFound, noted)) :
    ∃ source found moved, Source.read text none = .ok source ∧ 0 < source.tokens.size ∧
      Parser.attempt productions ⟨source, Dialect.gecko.extensions⟩ {} = .ok found moved ∧
      found.isSome = isFound ∧ moved.current = noted := by
  unfold attemptOn at h
  split at h
  · rename_i source hsource
    split at h
    · rename_i found moved hfound
      split at h
      · rename_i hsize
        obtain ⟨rfl, rfl⟩ := Prod.mk.inj (Option.some.inj h)
        exact ⟨source, found, moved, hsource, hsize, hfound, rfl, rfl⟩
      · cases h
    · cases h
  · cases h

/-- The interface without a body that the first production has left to others is found by the
second one as if it were alone. -/
theorem attempt_leaves_bodyless : ∃ source node moved,
    Source.read "interface A;" none = .ok source ∧ 0 < source.tokens.size ∧
      Parser.attempt [.legacyCallerInterface, .bodylessInterface]
        ⟨source, Dialect.gecko.extensions⟩ {} = .ok (some node) moved ∧
      ∃ front production back alone,
        [.legacyCallerInterface, .bodylessInterface] = front ++ production :: back ∧
        (∀ earlier ∈ front, Misses ⟨source, Dialect.gecko.extensions⟩ {} earlier) ∧
        production.parse ⟨source, Dialect.gecko.extensions⟩ {} = .ok (some node) alone ∧
        moved.position = alone.position := by
  have hruns : attemptOn [.legacyCallerInterface, .bodylessInterface] "interface A;" =
      some (true, some ⟨"bodyless interface", "A", false⟩) := by decide +kernel
  obtain ⟨source, found, moved, hsource, hsize, hfound, hsome, -⟩ := exists_of_attemptOn hruns
  obtain ⟨node, rfl⟩ := Option.isSome_iff_exists.mp hsome
  obtain ⟨-, hfinds, -⟩ := attempt_leaves hsource (Or.inr rfl)
    (show ({} : Cursor).position < source.tokens.size from hsize)
  obtain ⟨front, production, back, alone, hsplit, hfront, halone, hposition, -⟩ :=
    hfinds _ node moved hfound
  exact ⟨source, node, moved, hsource, hsize, hfound, front, production, back, alone, hsplit, hfront,
    halone, hposition⟩

/-- A miss can leave a trace: the attempt finds nothing and goes back to where it was, and yet the
name of an interface without a body is noted afterwards. -/
theorem attempt_leaves_no_trace_false : ∃ source moved,
    Source.read "interface A;" none = .ok source ∧ 0 < source.tokens.size ∧
      Parser.attempt [.legacyCallerInterface] ⟨source, Dialect.gecko.extensions⟩ {} =
        .ok none moved ∧
      ({} : Cursor).current = none ∧ moved.current = some ⟨legacyCallerTag, "A", false⟩ := by
  have hruns : attemptOn [.legacyCallerInterface] "interface A;" =
      some (false, some ⟨legacyCallerTag, "A", false⟩) := by decide +kernel
  obtain ⟨source, found, moved, hsource, hsize, hfound, hnone, hnoted⟩ := exists_of_attemptOn hruns
  obtain rfl := Option.not_isSome_iff_eq_none.mp (Bool.eq_false_iff.mp hnone)
  exact ⟨source, moved, hsource, hsize, hfound, rfl, hnoted⟩

end WebIdl
