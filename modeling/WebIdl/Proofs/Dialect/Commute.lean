import WebIdl.Proofs.Dialect.Mending
import WebIdl.Proofs.Validation.Commute

/-!
# The order of repairs does not matter

What rules have found in a document that was parsed can be repaired in any order.  The items that come
out are always the same, and so is the text that is written for them.
-/

namespace WebIdl.Dialect

open WebIdl.Mending

/-- Repairs of one validation commute.  Under a named dialect, take any document that was parsed and any
list of rules, in which a rule may stand more than once.  The repairs of all that these rules find are
made in the order of the findings, and in every other order the same items come out. -/
theorem fix_of_perm {dialectName : String} {dialect : Dialect}
    (hdialect : named dialectName = .ok dialect) {text : String} {sourceName : Option String}
    {document : Document} (h : (dialect.parse text sourceName).result = .ok document)
    (rules : List Rule) :
    ∃ found items, validate rules document.items = .ok found ∧
      (found.filter (·.repair.isSome)).foldlM (fun items diagnostic => diagnostic.fix items)
        document.items = .ok items ∧
      ∀ order : List Diagnostic, order.Perm (found.filter (·.repair.isSome)) →
        order.foldlM (fun items diagnostic => diagnostic.fix items) document.items = .ok items := by
  obtain ⟨extended, -, -, hextended⟩ := exists_extended (mem_known_of_named hdialect)
  have hintact := (intact_of_parse hextended h).look
  have hchosen : ∀ diagnostic ∈ (objections rules document.items).filter (·.repair.isSome),
      diagnostic ∈ [] ++ objections Rule.all document.items ∧ diagnostic.repair.isSome = true := by
    intro diagnostic hmem
    obtain ⟨hfound, hrepair⟩ := List.mem_filter.mp hmem
    exact ⟨List.mem_append_right _ (objections_subset_all rules document.items hfound), hrepair⟩
  obtain ⟨items, hitems⟩ := hintact.exists_fixes hchosen
  refine ⟨objections rules document.items, items, hintact.validate_eq_ok rules, hitems, ?_⟩
  intro order hperm
  rw [← hitems]
  exact hintact.foldlM_perm hperm hchosen

/-- The rules by which the sample is looked over, one of them twice. -/
def repeatedRules : List Rule :=
  [.requireExposed, .renamedLegacy, .dictArgDefault, .requireExposed, .replaceVoid]

/-- The text of the sample when all is repaired. -/
def meetingText : String :=
  "[LegacyUnforgeable, Exposed=Window, Exposed=Window]interface I\x7bundefined f(" ++
    "[LegacyLenientThis]optional D d = \x7b\x7d);\x7d;dictionary D\x7b\x7d;"

/-- Repairs that meet: a definition is exposed twice, the last of its attributes gets a new name, and
so does an attribute of an argument that gets a default value. -/
def meetingSample : Sample standard fun document =>
    let found := (objections repeatedRules document.items).filter (·.repair.isSome)
    match found.foldlM (fun items diagnostic => diagnostic.fix items) document.items with
    | .ok items => decide (found.length = 6 ∧ { document with items }.write = meetingText)
    | .error _ => false where
  text := "[Unforgeable]interface I\x7bvoid f([LenientThis]optional D d);\x7d;dictionary D\x7b\x7d;"
  sourceName := none
  parses := by decide +kernel

/-- The six repairs of the sample are made from the last one to the first. -/
theorem fix_of_perm_meeting : ∃ document found items,
    (standard.parse meetingSample.text none).result = .ok document ∧
      validate repeatedRules document.items = .ok found ∧
      (found.filter (·.repair.isSome)).length = 6 ∧
      (found.filter (·.repair.isSome)).reverse.foldlM
        (fun items diagnostic => diagnostic.fix items) document.items = .ok items ∧
      { document with items }.write = meetingText := by
  obtain ⟨document, hdocument, hcheck⟩ := meetingSample.exists_document
  have hstandard : named "webidl" = .ok standard := rfl
  obtain ⟨found, items, hfound, hitems, hall⟩ := fix_of_perm hstandard hdocument repeatedRules
  rw [validate_of_parse (mem_known_of_named hstandard) hdocument] at hfound
  obtain rfl := Except.ok.inj hfound
  simp only [hitems, decide_eq_true_eq] at hcheck
  exact ⟨document, _, items, hdocument,
    validate_of_parse (mem_known_of_named hstandard) hdocument repeatedRules, hcheck.1,
    hall _ (List.reverse_perm _), hcheck.2⟩

end WebIdl.Dialect
