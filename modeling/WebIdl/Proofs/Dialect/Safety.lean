import WebIdl.Proofs.Dialect.Mending
import WebIdl.Proofs.Mirror.Definitions
import WebIdl.Proofs.Safe.Definitions

/-!
# Nothing else goes wrong

Parsing under a named dialect gives a document or a syntax error at a token of the text; no reader
wants a token behind the last one or one that is not there, and none goes round without reading.  A
host that bounds the nesting of calls may stop a parse before its end, but it changes nothing else
(`definitions_within`).  A document that was parsed can be validated and mended in any way without a
refusal.

## Strategy

The bound that parsing comes with grows with the number of tokens and is never reached
(`definitions_of_read`).  Any other bound is smaller or greater than that one.  With the greater of two
bounds a parse ends as with the smaller one, unless that was reached (`definitions_deeper`), so all
bounds that are not reached give the same.
-/

namespace WebIdl.Dialect

open WebIdl.Parser WebIdl.Shape WebIdl.Grammar WebIdl.Mending

/-- The definitions of a text are read, or there is a syntax error at one of its tokens. -/
theorem definitions_of_read {dialect : Dialect} (h : dialect ∈ known) {text : String}
    {sourceName : Option String} {source : Source}
    (hsource : Source.read text sourceName = .ok source) :
    (∃ items moved,
      recursively (definitions · dialect.productions) ⟨source, dialect.extensions⟩ {} =
        .ok items moved) ∨
      ∃ error moved,
        recursively (definitions · dialect.productions) ⟨source, dialect.extensions⟩ {} =
          .error (.syntaxError error) moved ∧ error.position < source.tokens.size := by
  obtain ⟨extended, hextensions, hdefining, -⟩ := exists_extended h
  obtain ⟨front, last, hclosed⟩ := Source.closed_of_read hsource
  have hsize : 0 < source.tokens.size := by
    have hlength := congrArg List.length hclosed.split
    simp only [Array.length_toList, List.length_append, List.length_singleton] at hlength
    omega
  have hends : Scope.Ends ⟨source, dialect.extensions⟩ := Scope.ends_of_closed hclosed
  exact definitions_total hends hextensions hdefining hsize

/-- Parsing ends with a document or with a syntax error. -/
theorem parse_cases {dialect : Dialect} (h : dialect ∈ known) (text : String)
    (sourceName : Option String) :
    (∃ document, (dialect.parse text sourceName).result = .ok document) ∨
      ∃ error, (dialect.parse text sourceName).result = .error (.syntaxError error) := by
  cases hsource : Source.read
      (Tweak.applyAll (dialect.tweaksFor sourceName) (Directive.mask text)).1 sourceName with
  | error error => exact Or.inr ⟨error, parseTo_of_unread hsource _⟩
  | ok source =>
      rcases definitions_of_read h hsource with ⟨items, moved, hitems⟩ | ⟨error, moved, herror, -⟩
      · exact Or.inl ⟨_, parse_eq_ok.mpr ⟨source, moved, items, hsource, hitems, rfl⟩⟩
      · exact Or.inr ⟨error, parseTo_of_error hsource herror⟩

/-- A bound on the nesting of productions changes nothing in how the definitions of a text are read,
unless it stops the parse; and then it is one that a text of so many tokens may reach. -/
theorem definitions_within {dialect : Dialect} (h : dialect ∈ known) {text : String}
    {sourceName : Option String} {source : Source}
    (hsource : Source.read text sourceName = .ok source) (limit : Nat) :
    (recursivelyTo (fun _ => limit) (definitions · dialect.productions)
        ⟨source, dialect.extensions⟩ {}).Agrees
      (recursively (definitions · dialect.productions) ⟨source, dialect.extensions⟩ {}) ∨
    (∃ moved, recursivelyTo (fun _ => limit) (definitions · dialect.productions)
      ⟨source, dialect.extensions⟩ {} = .error .exhausted moved) ∧
      limit < depthFor source.tokens.size := by
  have hread := definitions_of_read h hsource
  have hreported {failure : Failure} {moved : Cursor}
      (hfailure : recursively (definitions · dialect.productions) ⟨source, dialect.extensions⟩ {} =
        .error failure moved) : ∃ error, failure = .syntaxError error := by
    rcases hread with ⟨_, _, hitems⟩ | ⟨error, _, herror, -⟩
    · cases hitems.symm.trans hfailure
    · exact ⟨error, (Outcome.error.inj (hfailure.symm.trans herror)).1⟩
  -- the bound that parsing comes with is a number, now that the tokens are known
  have hconstant : recursively (definitions · dialect.productions) ⟨source, dialect.extensions⟩ {} =
      recursivelyTo (fun _ => depthFor source.tokens.size) (definitions · dialect.productions)
        ⟨source, dialect.extensions⟩ {} := rfl
  rw [hconstant] at hreported ⊢
  rcases Nat.lt_or_ge limit (depthFor source.tokens.size) with hless | hgreater
  · rcases @definitions_deeper dialect.productions ⟨source, dialect.extensions⟩ _ _
      fun _ => hless.le with hcut | ⟨items, moved, stopped, hleft, hright⟩ |
        ⟨failure, moved, reported, stopped, hleft, hright, hmirrors⟩
    · exact Or.inr ⟨hcut, hless⟩
    · exact Or.inl (Or.inl ⟨items, moved, stopped, hleft, hright⟩)
    · rw [hleft, hright]
      exact Or.inl (hmirrors.agrees (Or.inr (hreported hright)))
  · refine Or.inl (Outcome.Agrees.symm ?_)
    rcases @definitions_deeper dialect.productions ⟨source, dialect.extensions⟩ _ _
      fun _ => hgreater with ⟨moved, hcut⟩ | ⟨items, moved, stopped, hleft, hright⟩ |
        ⟨failure, moved, reported, stopped, hleft, hright, hmirrors⟩
    · obtain ⟨error, herror⟩ := hreported hcut
      cases herror
    · exact Or.inl ⟨items, moved, stopped, hleft, hright⟩
    · rw [hleft, hright]
      exact hmirrors.agrees (Or.inl (hreported hleft))

/-- The repairs of all that the rules find in a parsed document can be made, as far as they are
admitted. -/
theorem exists_fixAll {dialect : Dialect} (h : dialect ∈ known) {text : String}
    {sourceName : Option String} {document : Document}
    (hdocument : (dialect.parse text sourceName).result = .ok document) (admits : String → Bool) :
    ∃ items, Diagnostic.fixAll admits (objections Rule.all document.items) document.items =
      .ok (items, ((objections Rule.all document.items).filter
        (Diagnostic.isAdmitted admits)).length) := by
  obtain ⟨extended, -, -, hextended⟩ := exists_extended h
  exact (intact_of_parse hextended hdocument).look.exists_fixAll admits
    (List.subset_append_right [] _)

end WebIdl.Dialect
