import WebIdl.Proofs.Directive
import WebIdl.Proofs.Sound.Coverage
import WebIdl.Proofs.Tweak

/-!
# Writing gives back what was parsed

A document holds every token of the text that was parsed, and a text's tokens hold all of its
characters.  So the parsed text is there to be written, and taking back the tweaks and the masks
leads to the text of the file, as far as masking can be taken back.

Parsing sees a text only behind its mask.  What has been written differs from the file at most in
lines that masking treats alike, so it parses to the same document.
-/

namespace WebIdl

open WebIdl.Parser WebIdl.Shape WebIdl.Grammar

/-! ## The text of a document -/

theorem Document.parsedText_eq (document : Document) :
    document.parsedText = textOf (document.items.flatMap Node.tokens) := by
  rw [Document.parsedText]
  induction document.items with
  | nil => rfl
  | cons node items ih =>
      rw [List.map_cons, List.flatMap_cons, textOf_append, ← ih, String.join_cons]
      rfl

namespace Dialect

/-- The named dialects have the productions and extensions of the standard language or of the
extended one. -/
theorem exists_extended {dialect : Dialect} (h : dialect ∈ known) :
    ∃ extended, dialect.extensions = extensionsOf extended ∧
      (∀ production ∈ dialect.productions, IsDefining extended production) ∧
      dialect = if extended then gecko else standard := by
  simp only [known, List.mem_cons, List.not_mem_nil, or_false] at h
  rcases h with rfl | rfl
  · exact ⟨true, rfl, fun _ => isDefining_gecko, rfl⟩
  · exact ⟨false, rfl, by simp [standard], rfl⟩

theorem mem_known_of_named {name : String} {dialect : Dialect} (h : named name = .ok dialect) :
    dialect ∈ known := by
  unfold named at h
  split at h
  · rename_i found hfound
    obtain rfl := Except.ok.inj h
    exact List.mem_of_find?_eq_some hfound
  · cases h

/-- Every tweak of a named dialect puts a comment mark in front of a word. -/
theorem leads_of_mem_tweaksFor {dialect : Dialect} (h : dialect ∈ known)
    {sourceName : Option String} {tweak : Tweak} (htweak : tweak ∈ dialect.tweaksFor sourceName) :
    tweak.Leads := by
  have hall : ∀ entry ∈ dialect.tweaks, ∀ tweak ∈ entry.2, tweak.Leads := by
    simp only [known, List.mem_cons, List.not_mem_nil, or_false] at h
    rcases h with rfl | rfl
    · simp only [gecko, List.mem_singleton, forall_eq]
      refine ⟨by decide, "// ".toList, by decide, ?_⟩
      simp
    · simp [standard]
  unfold tweaksFor at htweak
  split at htweak
  · cases htweak
  · cases htweak
  · rename_i path _
    cases hlookup : dialect.tweaks.lookup (baseName path) with
    | none => simp [hlookup] at htweak
    | some tweaks =>
        obtain ⟨front, back, hentries, -⟩ := List.lookup_eq_some_iff.mp hlookup
        rw [hlookup] at htweak
        exact hall (baseName path, tweaks) (by simp [hentries]) tweak htweak

/-- What a parse that succeeds consists of, whatever the bound on the depth is. -/
theorem parseTo_eq_ok {depth : Nat → Nat} {dialect : Dialect} {text : String}
    {sourceName : Option String} {document : Document} :
    (dialect.parseTo depth text sourceName).result = .ok document ↔
      ∃ source cursor items,
        Source.read (Tweak.applyAll (dialect.tweaksFor sourceName) (Directive.mask text)).1
          sourceName = .ok source ∧
        recursivelyTo depth (definitions · dialect.productions) ⟨source, dialect.extensions⟩ {} =
          .ok items cursor ∧
        document = ⟨sourceName,
          (Tweak.applyAll (dialect.tweaksFor sourceName) (Directive.mask text)).2, items⟩ := by
  unfold parseTo
  constructor
  · intro h
    dsimp only at h
    split at h
    · cases h
    · rename_i source hsource
      split at h
      · cases h
      · rename_i items cursor hitems
        exact ⟨source, cursor, items, hsource, hitems, (Except.ok.inj h).symm⟩
  · rintro ⟨source, cursor, items, hsource, hitems, rfl⟩
    simp only [hsource, hitems]

/-- What a parse that succeeds consists of. -/
theorem parse_eq_ok {dialect : Dialect} {text : String} {sourceName : Option String}
    {document : Document} :
    (dialect.parse text sourceName).result = .ok document ↔
      ∃ source cursor items,
        Source.read (Tweak.applyAll (dialect.tweaksFor sourceName) (Directive.mask text)).1
          sourceName = .ok source ∧
        recursively (definitions · dialect.productions) ⟨source, dialect.extensions⟩ {} =
          .ok items cursor ∧
        document = ⟨sourceName,
          (Tweak.applyAll (dialect.tweaksFor sourceName) (Directive.mask text)).2, items⟩ :=
  parseTo_eq_ok

/-- A text that cannot be cut into tokens is not parsed. -/
theorem parseTo_of_unread {dialect : Dialect} {text : String} {sourceName : Option String}
    {error : SyntaxError}
    (hsource : Source.read (Tweak.applyAll (dialect.tweaksFor sourceName) (Directive.mask text)).1
      sourceName = .error error) (depth : Nat → Nat) :
    (dialect.parseTo depth text sourceName).result = .error (.syntaxError error) := by
  unfold parseTo
  simp only [hsource]

/-- A parse fails as reading the definitions does. -/
theorem parseTo_of_error {depth : Nat → Nat} {dialect : Dialect} {text : String}
    {sourceName : Option String} {source : Source} {failure : Failure} {moved : Cursor}
    (hsource : Source.read (Tweak.applyAll (dialect.tweaksFor sourceName) (Directive.mask text)).1
      sourceName = .ok source)
    (h : recursivelyTo depth (definitions · dialect.productions) ⟨source, dialect.extensions⟩ {} =
      .error failure moved) : (dialect.parseTo depth text sourceName).result = .error failure := by
  unfold parseTo
  simp only [hsource, h]

/-- Parsing sees a text only behind its mask. -/
theorem parse_congr (dialect : Dialect) {text other : String} (sourceName : Option String)
    (h : Directive.mask text = Directive.mask other) :
    dialect.parse text sourceName = dialect.parse other sourceName := by
  simp only [parse, parseTo, h]

/-- The tokens of a document hold the text that was parsed. -/
theorem parsedText_of_parse {dialect : Dialect} (hdialect : dialect ∈ known) {text : String}
    {sourceName : Option String} {document : Document}
    (h : (dialect.parse text sourceName).result = .ok document) :
    document.parsedText =
      (Tweak.applyAll (dialect.tweaksFor sourceName) (Directive.mask text)).1 := by
  obtain ⟨source, cursor, items, hsource, hitems, rfl⟩ := parse_eq_ok.mp h
  obtain ⟨extended, hextensions, hdefining, -⟩ := exists_extended hdialect
  obtain ⟨front, last, hclosed⟩ := Source.closed_of_read hsource
  obtain ⟨nodes, -, hrest, -, -⟩ := Grammar.definitions_eq_ok
    (Production.sound_parseTo hextensions _) hclosed hdefining (recursively_eq_ok.mp hitems)
  rw [Document.parsedText_eq, ← hrest]
  exact Source.textOf_read hsource

/-- A document that was parsed is written as the text of its file with every masked line unmasked. -/
theorem write_of_parse {dialect : Dialect} (hdialect : dialect ∈ known) {text : String}
    {sourceName : Option String} {document : Document}
    (h : (dialect.parse text sourceName).result = .ok document) :
    document.write = Directive.unmask (Directive.mask text) := by
  have htext := parsedText_of_parse hdialect h
  obtain ⟨source, cursor, items, -, -, rfl⟩ := parse_eq_ok.mp h
  rw [Document.write, htext,
    Tweak.revertAll_applyAll fun tweak htweak => leads_of_mem_tweaksFor hdialect htweak]

/-- Lossless round trip.  Under a named dialect, a document that was parsed is written as the text
of its file with every masked line unmasked, which is the text itself exactly if no line of it looked
masked; and the text that is written parses to the same document. -/
theorem write_parse {dialectName : String} {dialect : Dialect}
    (hdialect : named dialectName = .ok dialect) {text : String} {sourceName : Option String}
    {document : Document} (h : (dialect.parse text sourceName).result = .ok document) :
    document.write = Directive.unmask (Directive.mask text) ∧
      (document.write = text ↔ Directive.collides text = false) ∧
      (dialect.parse document.write sourceName).result = .ok document := by
  have hwrite := write_of_parse (mem_known_of_named hdialect) h
  refine ⟨hwrite, ?_, ?_⟩
  · rw [hwrite]
    exact Directive.unmask_mask_eq_iff
  · rw [hwrite, parse_congr dialect sourceName (Directive.mask_unmask_mask text)]
    exact h

/-- A text that the dialect parses to a document which passes the check. -/
structure Sample (dialect : Dialect) (check : Document → Bool) where
  text : String
  sourceName : Option String
  parses : (match (dialect.parse text sourceName).result with
    | .ok document => check document
    | .error _ => false) = true

theorem Sample.exists_document {dialect : Dialect} {check : Document → Bool}
    (sample : Sample dialect check) :
    ∃ document, (dialect.parse sample.text sample.sourceName).result = .ok document ∧
      check document = true := by
  have hparses := sample.parses
  split at hparses
  · rename_i document hdocument
    exact ⟨document, hdocument, hparses⟩
  · cases hparses

/-- A text with a directive, a line that looks masked, and a word that is tweaked. -/
def windowText : String :=
  "#if A\n//#if B\nSharedArrayBuffer\ninterface C;"

/-- The text is tweaked and parsed, and one of its lines is unmasked when it is written. -/
def windowSample : Sample gecko fun document =>
    decide (document.tweaks ≠ [] ∧ document.write ≠ windowText ∧
      document.write = "#if A\n#if B\nSharedArrayBuffer\ninterface C;") where
  text := windowText
  sourceName := some "dom/Window.webidl"
  parses := by decide +kernel

/-- The text is written with one line unmasked, and its tweak is taken back. -/
theorem write_parse_window : ∃ document,
    (gecko.parse windowText (some "dom/Window.webidl")).result = .ok document ∧
      document.tweaks ≠ [] ∧ document.write ≠ windowText ∧
      document.write = "#if A\n#if B\nSharedArrayBuffer\ninterface C;" ∧
      (gecko.parse document.write (some "dom/Window.webidl")).result = .ok document := by
  obtain ⟨document, hdocument, hcheck⟩ := windowSample.exists_document
  obtain ⟨htweaks, hdiffers, hwritten⟩ := of_decide_eq_true hcheck
  obtain ⟨-, -, hagain⟩ := write_parse (show named "gecko" = .ok gecko from rfl) hdocument
  exact ⟨document, hdocument, htweaks, hdiffers, hwritten, hagain⟩

end Dialect

end WebIdl
