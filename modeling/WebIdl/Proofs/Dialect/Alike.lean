import WebIdl.Proofs.Dialect.Safety
import WebIdl.Proofs.Mirror.Definitions

/-!
# Texts that look alike

Two texts with the same lexemes differ in blanks, comments and line ends only.  Under a named dialect
they are parsed alike, the rules object to the same things in them, and the same number of repairs is
made (`parse_of_lexemes`).
-/

namespace WebIdl

open WebIdl.Parser WebIdl.Shape WebIdl.Grammar

/-- The view that shows kinds and lexemes, and hides trivia and where a token stands in the text. -/
def View.lexemes : View where
  of token := { kind := token.kind, text := token.text, index := token.index }
  kind_of _ := rfl
  text_of_inline _ := rfl
  any_of _ := rfl
  square_of _ := rfl
  brace_of _ := rfl

theorem View.spells_lexemes : View.lexemes.Spells :=
  fun _ => rfl

/-- The tokens of two texts are numbered alike, so they look alike if they agree place by place in
something that, with the number, decides what they look like. -/
theorem Token.map_eq_of_key {α : Type} {key : Token → α} {look : Token → Token}
    {text other : String} {tokens others : List Token}
    (h : stream text = .ok tokens) (hother : stream other = .ok others)
    (hkey : others.map key = tokens.map key)
    (hlook : ∀ token ∈ tokens, ∀ twin ∈ others, twin.index = token.index → key twin = key token →
      look twin = look token) : others.map look = tokens.map look := by
  refine List.ext_getElem? fun place => ?_
  have hplace := congrArg (·[place]?) hkey
  simp only [List.getElem?_map] at hplace ⊢
  cases htoken : tokens[place]? with
  | none => simpa [htoken] using hplace
  | some token =>
      cases htwin : others[place]? with
      | none => simp [htoken, htwin] at hplace
      | some twin =>
          have hindex : twin.index = token.index := by
            rw [index_streamFrom hother htwin, index_streamFrom h htoken]
          have hkeys : key twin = key token := by simpa [htoken, htwin] using hplace
          exact congrArg some (hlook token (List.mem_of_getElem? htoken) twin
            (List.mem_of_getElem? htwin) hindex hkeys)

namespace Dialect

/-- The definitions of two sources that look alike are read alike under a named dialect, or they fail
at one token; if the view shows spellings, for one reason. -/
theorem definitions_alike {dialect : Dialect} (hdialect : dialect ∈ known) {view : View}
    (hspells : view.Spells ∨ dialect = standard) {text otherText : String}
    {name otherName : Option String} {source other : Source}
    (hsource : Source.read text name = .ok source)
    (hother : Source.read otherText otherName = .ok other)
    (halike : other.tokens.map view.of = source.tokens.map view.of) :
    (∃ items moved others stopped,
      recursively (definitions · dialect.productions) ⟨source, dialect.extensions⟩ {} =
        .ok items moved ∧
      recursively (definitions · dialect.productions) ⟨other, dialect.extensions⟩ {} =
        .ok others stopped ∧
      others.map view.node = items.map view.node) ∨
    ∃ error moved reported stopped,
      recursively (definitions · dialect.productions) ⟨source, dialect.extensions⟩ {} =
        .error (.syntaxError error) moved ∧
      recursively (definitions · dialect.productions) ⟨other, dialect.extensions⟩ {} =
        .error (.syntaxError reported) stopped ∧
      reported.position = error.position ∧ (view.Spells → reported.problem = error.problem) := by
  -- on its own a text ends in items or in a syntax error
  have hrefused {text : String} {name : Option String} {source : Source} {failure : Failure}
      {moved : Cursor} (hsource : Source.read text name = .ok source)
      (hfailure : recursively (definitions · dialect.productions) ⟨source, dialect.extensions⟩ {} =
        .error failure moved) : ∃ error, failure = .syntaxError error := by
    rcases definitions_of_read hdialect hsource with ⟨items, stopped, hitems⟩ |
      ⟨error, stopped, herror, -⟩
    · cases hitems.symm.trans hfailure
    · cases herror.symm.trans hfailure
      exact ⟨error, rfl⟩
  have hcovers : view.Spells ∨ dialect.extensions = {} ∧ dialect.productions = [] := by
    refine hspells.imp_right ?_
    rintro rfl
    exact ⟨rfl, rfl⟩
  have hinside {text : String} {name : Option String} {source : Source}
      (hsource : Source.read text name = .ok source) (moved : Cursor) :
      recursively (definitions · dialect.productions) ⟨source, dialect.extensions⟩ {} ≠
        .error .exhausted moved := by
    intro hcut
    obtain ⟨error, herror⟩ := hrefused hsource hcut
    cases herror
  rcases @definitions_of_view view dialect.productions ⟨source, dialect.extensions⟩
    ⟨other, dialect.extensions⟩ (hinside hsource) (hinside hother) halike rfl hcovers with
    hok | ⟨failure, moved, reported, stopped, shown, hfailure, hreported, hshown, hshown'⟩
  · exact Or.inl hok
  · obtain ⟨error, rfl⟩ := hrefused hsource hfailure
    obtain ⟨error', rfl⟩ := hrefused hother hreported
    exact Or.inr ⟨error, moved, error', stopped, hfailure, hreported, hshown.position_eq hshown',
      fun hspells => hshown.problem_eq hspells hshown'⟩

/-! ## Texts of the same lexemes -/

/-- As many repairs are admitted of diagnostics that differ in what a token looks like. -/
theorem length_admitted_of_mapToken {edit : Token → Token} {admits : String → Bool}
    {found others : List Diagnostic}
    (h : others.map (Diagnostic.mapToken edit) = found.map (Diagnostic.mapToken edit)) :
    (others.filter (Diagnostic.isAdmitted admits)).length =
      (found.filter (Diagnostic.isAdmitted admits)).length := by
  have hlength (diagnostics : List Diagnostic) :
      (diagnostics.filter (Diagnostic.isAdmitted admits)).length =
        ((diagnostics.map (Diagnostic.mapToken edit)).filter
          (Diagnostic.isAdmitted admits)).length := by
    rw [List.filter_map, List.length_map]
    rfl
  rw [hlength others, h, ← hlength]

/-- Trivia means nothing to the parser and to the rules.  Take two texts that are cut into the same
lexemes behind their masks, with no tweak applied.  Under a named dialect either both parse, to trees
that differ in trivia, lines and offsets only, the rules object to the same constructs, and as many
repairs are made in one as in the other; or both fail with one problem at one token. -/
theorem parse_of_lexemes {dialectName : String} {dialect : Dialect}
    (hdialect : named dialectName = .ok dialect) {first second : String}
    {sourceName : Option String}
    (hfirst : (Tweak.applyAll (dialect.tweaksFor sourceName) (Directive.mask first)).2 = [])
    (hsecond : (Tweak.applyAll (dialect.tweaksFor sourceName) (Directive.mask second)).2 = [])
    {tokens others : List Token} (htokens : Token.stream (Directive.mask first) = .ok tokens)
    (hothers : Token.stream (Directive.mask second) = .ok others)
    (halike : others.map (fun token => (token.kind, token.text)) =
      tokens.map fun token => (token.kind, token.text)) :
    (∃ document other found reported mended repaired count,
      (dialect.parse first sourceName).result = .ok document ∧
      (dialect.parse second sourceName).result = .ok other ∧
      other.items.map View.lexemes.node = document.items.map View.lexemes.node ∧
      validate Rule.all document.items = .ok found ∧ validate Rule.all other.items = .ok reported ∧
      reported.map (Diagnostic.mapToken View.lexemes.of) =
        found.map (Diagnostic.mapToken View.lexemes.of) ∧
      Diagnostic.fixAll dialect.admits found document.items = .ok (mended, count) ∧
      Diagnostic.fixAll dialect.admits reported other.items = .ok (repaired, count) ∧
      (found.filter (Diagnostic.isAdmitted dialect.admits)).length = count ∧
      (reported.filter (Diagnostic.isAdmitted dialect.admits)).length = count) ∨
    ∃ error other, (dialect.parse first sourceName).result = .error (.syntaxError error) ∧
      (dialect.parse second sourceName).result = .error (.syntaxError other) ∧
      other.problem = error.problem ∧ other.position = error.position := by
  have hknown := mem_known_of_named hdialect
  have hread {text : String} {tokens : List Token}
      (hnone : (Tweak.applyAll (dialect.tweaksFor sourceName) (Directive.mask text)).2 = [])
      (htokens : Token.stream (Directive.mask text) = .ok tokens) :
      Source.read (Tweak.applyAll (dialect.tweaksFor sourceName) (Directive.mask text)).1
        sourceName = .ok ⟨Directive.mask text, sourceName, tokens.toArray⟩ := by
    rw [Tweak.applyAll_of_none hnone, Source.read, htokens]
  -- lexemes of the same kind and text look the same at the same index
  have hlook : others.toArray.map View.lexemes.of = tokens.toArray.map View.lexemes.of := by
    have hlexemes : others.map View.lexemes.of = tokens.map View.lexemes.of := by
      refine Token.map_eq_of_key htokens hothers halike fun token _ twin _ hindex hkey => ?_
      obtain ⟨hkind, htext⟩ := Prod.mk.inj hkey
      simp [View.lexemes, hkind, htext, hindex]
    simp [hlexemes]
  rcases definitions_alike hknown (Or.inl View.spells_lexemes) (hread hfirst htokens)
    (hread hsecond hothers) hlook with
    ⟨items, moved, found, stopped, hitems, hfound, hsame⟩ |
    ⟨error, moved, reported, stopped, herror, hreported, hposition, hproblem⟩
  · have hdocument := parse_eq_ok.mpr ⟨_, _, _, hread hfirst htokens, hitems, rfl⟩
    have hother := parse_eq_ok.mpr ⟨_, _, _, hread hsecond hothers, hfound, rfl⟩
    have hshown (items : List Node) := objections_map View.spells_lexemes.faithful Rule.all items
    -- the rules see the same, so they object to the same
    have hobjections : (objections Rule.all found).map (Diagnostic.mapToken View.lexemes.of) =
        (objections Rule.all items).map (Diagnostic.mapToken View.lexemes.of) := by
      rw [← hshown, ← hshown]
      exact congrArg (objections Rule.all) hsame
    have hlength : ((objections Rule.all found).filter
        (Diagnostic.isAdmitted dialect.admits)).length =
          ((objections Rule.all items).filter (Diagnostic.isAdmitted dialect.admits)).length :=
      length_admitted_of_mapToken hobjections
    obtain ⟨mended, hmended⟩ := exists_fixAll hknown hdocument dialect.admits
    obtain ⟨repaired, hrepaired⟩ := exists_fixAll hknown hother dialect.admits
    rw [hlength] at hrepaired
    exact Or.inl ⟨_, _, _, _, mended, repaired, _, hdocument, hother, hsame,
      validate_of_parse hknown hdocument Rule.all, validate_of_parse hknown hother Rule.all,
      hobjections, hmended, hrepaired, rfl, hlength⟩
  · exact Or.inr ⟨error, reported, parseTo_of_error (hread hfirst htokens) herror,
      parseTo_of_error (hread hsecond hothers) hreported, hproblem View.spells_lexemes, hposition⟩

/-- Two texts that are cut into the same lexemes behind their masks. -/
structure Twins where
  first : String
  second : String
  alike : (match Token.stream (Directive.mask first), Token.stream (Directive.mask second) with
    | .ok tokens, .ok others =>
      decide (others.map (fun token => (token.kind, token.text)) =
        tokens.map fun token => (token.kind, token.text))
    | _, _ => false) = true

theorem Twins.exists_tokens (twins : Twins) :
    ∃ tokens others, Token.stream (Directive.mask twins.first) = .ok tokens ∧
      Token.stream (Directive.mask twins.second) = .ok others ∧
      others.map (fun token => (token.kind, token.text)) =
        tokens.map fun token => (token.kind, token.text) := by
  have halike := twins.alike
  split at halike
  · rename_i tokens others htokens hothers
    exact ⟨tokens, others, htokens, hothers, of_decide_eq_true halike⟩
  · cases halike

/-- A definition on one line, and the same with a comment, a directive and other line ends. -/
def laidOutTwins : Twins where
  first := "namespace N\x7bvoid f(optional D d);\x7d;dictionary D\x7b\x7d;"
  second :=
    "/* no */ namespace N\x7b\r\n#if A\nvoid f(\toptional D d);\x7d; // d\ndictionary D\x7b\x7d ;"
  alike := by decide +kernel

/-- Two repairs are admitted in the text on one line. -/
def laidOutSample : Sample gecko fun document =>
    decide (((objections Rule.all document.items).filter
      (Diagnostic.isAdmitted gecko.admits)).length = 2) where
  text := laidOutTwins.first
  sourceName := none
  parses := by decide +kernel

/-- The text that is laid out otherwise parses too, and has two repairs made in it. -/
theorem parse_of_lexemes_twins : ∃ other reported repaired,
    (gecko.parse laidOutTwins.second none).result = .ok other ∧
      validate Rule.all other.items = .ok reported ∧
      Diagnostic.fixAll gecko.admits reported other.items = .ok (repaired, 2) := by
  obtain ⟨tokens, others, htokens, hothers, halike⟩ := laidOutTwins.exists_tokens
  obtain ⟨document, hdocument, hcheck⟩ := laidOutSample.exists_document
  have hnone (text : String) :
      (Tweak.applyAll (gecko.tweaksFor none) (Directive.mask text)).2 = [] := rfl
  have hgecko : named "gecko" = .ok gecko := rfl
  rcases parse_of_lexemes hgecko (hnone _) (hnone _) htokens hothers halike with
    ⟨parsed, other, found, reported, mended, repaired, count, hparsed, hother, -, hfound, hreported, -,
      -, hrepaired, hcount, -⟩ | ⟨error, reported, herror, -⟩
  · obtain rfl : document = parsed := Except.ok.inj (hdocument.symm.trans hparsed)
    rw [validate_of_parse (mem_known_of_named hgecko) hdocument] at hfound
    obtain rfl := Except.ok.inj hfound
    obtain rfl : 2 = count := (of_decide_eq_true hcheck).symm.trans hcount
    exact ⟨other, reported, repaired, hother, hreported, hrepaired⟩
  · cases hdocument.symm.trans herror

end Dialect

end WebIdl
