import WebIdl.Proofs.Dialect.Mending
import WebIdl.Proofs.Validation.Converge

/-!
# Documents are mended in one pass

What the rules find in a document that was parsed is repaired at one go: the admitted rules that come
with repairs find nothing any more, and all else is found as before, except that a definition may need
no exposure any more.
-/

namespace WebIdl.Dialect

open WebIdl.Mending

/-- Repairs converge in one pass and disturb no other finding.  Under a named dialect, take any
document that was parsed and any set of rules, and repair all that these rules have found.  Then none
of them that comes with repairs finds anything, and validation finds exactly what it found before, in
the same order, less the findings of these rules, and less the objections to definitions that had an
attribute `NoInterfaceObject` that has got its new name. -/
theorem validate_of_fixAll {dialectName : String} {dialect : Dialect}
    (hdialect : named dialectName = .ok dialect) {text : String} {sourceName : Option String}
    {document : Document} (h : (dialect.parse text sourceName).result = .ok document)
    (admits : String → Bool) :
    ∃ found mended left, validate Rule.all document.items = .ok found ∧
      Diagnostic.fixAll admits found document.items =
        .ok (mended, (found.filter (Diagnostic.isAdmitted admits)).length) ∧
      validate Rule.all mended = .ok left ∧
      (∀ rule : Rule, rule.isFixable = true → admits rule.name = true →
        ∀ diagnostic ∈ left, diagnostic.rule ≠ rule.name) ∧
      left = found.filter (!Diagnostic.isSettled admits document.items ·) := by
  obtain ⟨extended, -, -, hextended⟩ := exists_extended (mem_known_of_named hdialect)
  have hintact := intact_of_parse hextended h
  obtain ⟨mended, hfix, hfound⟩ := hintact.objections_fixAll admits
  have hmended := hintact.look.fixAll (List.subset_append_right [] _) hfix
  refine ⟨_, mended, _, hintact.validate_eq_ok Rule.all, hfix, hmended.validate_eq_ok Rule.all,
    fun rule hfixable hadmits diagnostic hmem hrule => ?_, hfound⟩
  rw [hfound] at hmem
  obtain ⟨-, hkept⟩ := List.mem_filter.mp hmem
  have hcontains : ((Rule.all.filter Rule.isFixable).map Rule.name).contains rule.name = true := by
    rw [List.contains_iff_mem]
    exact List.mem_map_of_mem (List.mem_filter.mpr ⟨rule.mem_all, hfixable⟩)
  rw [Diagnostic.isSettled, hrule, hcontains, hadmits] at hkept
  cases hkept

/-- Two definitions of one name that are not exposed, one of which has an attribute whose new name
makes that unnecessary. -/
def exemptSample : Sample gecko fun document =>
    let found := objections Rule.all document.items
    let isLegacy (name : String) : Bool := name == "renamed-legacy"
    found.map (·.rule) == ["replace-void", "require-exposed", "require-exposed", "renamed-legacy",
        "no-duplicate"] &&
      (found.filter (!Diagnostic.isSettled isLegacy document.items ·)).map (·.rule) ==
        ["replace-void", "require-exposed", "no-duplicate"] where
  text := "[NoInterfaceObject]interface A \x7b void f(); \x7d;interface A \x7b\x7d;"
  sourceName := none
  parses := by decide +kernel

/-- The attribute gets its new name, and one of the two definitions need not be exposed any more. -/
theorem validate_of_fixAll_exempt : ∃ document found mended count left,
    (gecko.parse exemptSample.text none).result = .ok document ∧
      validate Rule.all document.items = .ok found ∧
      found.map (·.rule) = ["replace-void", "require-exposed", "require-exposed", "renamed-legacy",
        "no-duplicate"] ∧
      Diagnostic.fixAll (· == "renamed-legacy") found document.items = .ok (mended, count) ∧
      validate Rule.all mended = .ok left ∧
      left.map (·.rule) = ["replace-void", "require-exposed", "no-duplicate"] := by
  obtain ⟨document, hdocument, hcheck⟩ := exemptSample.exists_document
  obtain ⟨hbefore, hafter⟩ := Bool.and_eq_true_iff.mp hcheck
  have hgecko : named "gecko" = .ok gecko := rfl
  obtain ⟨found, mended, left, hfound, hmended, hleft, -, rfl⟩ :=
    validate_of_fixAll hgecko hdocument (· == "renamed-legacy")
  obtain rfl : objections Rule.all document.items = found := Except.ok.inj
    ((validate_of_parse (mem_known_of_named hgecko) hdocument Rule.all).symm.trans hfound)
  exact ⟨document, _, mended, _, _, hdocument, hfound, beq_iff_eq.mp hbefore, hmended, hleft,
    beq_iff_eq.mp hafter⟩

end WebIdl.Dialect
