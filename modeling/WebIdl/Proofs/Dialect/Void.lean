import WebIdl.Proofs.Dialect.Mending
import WebIdl.Proofs.Validation.Void

/-!
# Every `void` of a file is found and replaced

The words `void` among the tokens of a file that was parsed are what the rule about them finds, and
with its repairs the file says `undefined` in their places.
-/

namespace WebIdl.Dialect

open WebIdl.Mending

/-- Every word `void` is found and replaced.  Under a named dialect, take any document that was parsed,
with the tokens that its text was cut into.  What the rule `replace-void` finds shows, one by one and
in their order, the tokens that are the word `void`.  The repairs can be made, in any order, and the
tokens of the items that come out are the tokens of the text, where exactly these have got the text
`undefined`. -/
theorem validate_replaceVoid {dialectName : String} {dialect : Dialect}
    (hdialect : named dialectName = .ok dialect) {text : String} {sourceName : Option String}
    {document : Document} (h : (dialect.parse text sourceName).result = .ok document) :
    ∃ rules source found mended, rulesNamed ["replace-void"] = .ok rules ∧
      Source.read (Tweak.applyAll (dialect.tweaksFor sourceName) (Directive.mask text)).1
        sourceName = .ok source ∧
      validate rules document.items = .ok found ∧
      found.map (·.token) = (source.tokens.toList.filter (·.isInline "void")).map some ∧
      (∀ order : List Diagnostic, order.Perm found →
        order.foldlM (fun items diagnostic => diagnostic.fix items) document.items = .ok mended) ∧
      mended.flatMap Node.tokens = source.tokens.toList.map fun token =>
        if token.isInline "void" then { token with text := "undefined" } else token := by
  obtain ⟨extended, -, -, hextended⟩ := exists_extended (mem_known_of_named hdialect)
  have hintact := intact_of_parse hextended h
  obtain ⟨source, nodes, last, hsource, htokens, -, -, hdocument⟩ := (parse_eq_ok_iff hextended).mp h
  have hall : document.items.flatMap Node.tokens = source.tokens.toList := by
    rw [hdocument, htokens]
    simp [Node.ofEof, Node.tokens, tokensOf]
  obtain ⟨mended, hmended, hrow⟩ := hintact.exists_replaceVoid
  have hfound : validate [.replaceVoid] document.items = .ok (Rule.replaceVoidOn document.items) := by
    rw [hintact.validate_eq_ok, objections, List.flatMap_singleton]
    rfl
  refine ⟨[.replaceVoid], source, _, mended, rfl, hsource, hfound, ?_, hmended, ?_⟩
  · rw [Rule.token_replaceVoidOn hintact.formed hintact.void_inline, hall]
  · rw [hrow, Mending.tokens, hall]
    rfl

/-- The text of the sample when all is repaired. -/
def undefinedText : String :=
  "callback C = undefined();[A=(\"void\")]interface I \x7b " ++
    "legacycaller Promise<undefined> (optional Promise<undefined> _void); \x7d;"

/-- Types around `void`, some of them inside other types, and tokens that are not the word. -/
def voidSample : Sample gecko fun document =>
    let found := Rule.replaceVoidOn document.items
    match found.reverse.foldlM (fun items diagnostic => diagnostic.fix items) document.items with
    | .ok items => decide (found.length = 3 ∧ { document with items }.write = undefinedText)
    | .error _ => false where
  text := "callback C = void();[A=(\"void\")]interface I \x7b " ++
    "legacycaller Promise<void> (optional Promise<void> _void); \x7d;"
  sourceName := none
  parses := by decide +kernel

/-- The three words of the sample are found, and replaced from the last one to the first. -/
theorem validate_replaceVoid_nested : ∃ document rules source found mended,
    (gecko.parse voidSample.text none).result = .ok document ∧
      rulesNamed ["replace-void"] = .ok rules ∧
      Source.read (Tweak.applyAll (gecko.tweaksFor none) (Directive.mask voidSample.text)).1 none =
        .ok source ∧
      validate rules document.items = .ok found ∧
      found.map (·.token) = (source.tokens.toList.filter (·.isInline "void")).map some ∧
      found.length = 3 ∧
      found.reverse.foldlM (fun items diagnostic => diagnostic.fix items) document.items =
        .ok mended ∧
      { document with items := mended }.write = undefinedText := by
  obtain ⟨document, hdocument, hcheck⟩ := voidSample.exists_document
  obtain ⟨rules, source, found, mended, hrules, hsource, hfound, htokens, hmended, -⟩ :=
    validate_replaceVoid (show named "gecko" = .ok gecko from rfl) hdocument
  obtain rfl : [.replaceVoid] = rules := Except.ok.inj hrules
  have hreverse := hmended _ (List.reverse_perm _)
  -- the rule never fails, so the sample shows what it finds
  obtain rfl : Rule.replaceVoidOn document.items = found := by
    simpa [validate, Rule.check, bind, Except.bind, pure, Except.pure] using hfound
  simp only [hreverse, decide_eq_true_eq] at hcheck
  exact ⟨document, [.replaceVoid], source, _, mended, hdocument, rfl, hsource, hfound, htokens,
    hcheck.1, hreverse, hcheck.2⟩

end WebIdl.Dialect
