import WebIdl.Proofs.Complete.Text
import WebIdl.Proofs.Shape.Settled
import WebIdl.Proofs.Validation.Mending

/-!
# Mended documents are valid files

A document that was parsed is intact, so every run of validations and repairs leaves it intact.  An
intact document is written as a file that parses again, and the new document says the same as the
mended one: it has the same constructs with the same tokens, up to the places where they stand.
-/

namespace WebIdl

open WebIdl.Shape WebIdl.Lexeme WebIdl.Mending

/-! ## What has been parsed -/

/-- No number goes on with a mark that can follow it. -/
theorem Token.stops_of_isMark {token : Token} (h : token.isMark = true) :
    Stops isNumberPart token.text.toList := by
  have hall : marks.all (fun mark => mark.toList.all (!isNumberPart ·)) = true := by decide
  have hmark : token.kind = .inline ∧ token.text ∈ marks := by simpa [Token.isMark] using h
  intro c hc
  simpa using List.all_eq_true.mp (List.all_eq_true.mp hall _ hmark.2) c (List.mem_of_mem_head? hc)

/-- The tokens of definitions, and the end of the text behind them, can be read back. -/
theorem exists_lexable {extended : Bool} {text : String} {tokens : List Token} {nodes : List Node}
    {last : Token} (h : Token.stream text = .ok tokens)
    (htokens : tokens = nodes.flatMap Node.tokens ++ [last]) (hlast : last.kind = .eof)
    (hnodes : ∀ node ∈ nodes, Conforms extended { symbol := .definition } node) :
    ∃ front final, tokens = front ++ [final] ∧ Lexable front final := by
  refine lexable_of_streamFrom rfl h ?_ ?_
  · intro token htoken
    rw [htokens] at htoken
    rcases List.mem_append.mp htoken with htoken | htoken
    · obtain ⟨node, hnode, hmem⟩ := List.mem_flatMap.mp htoken
      exact ((hnodes node hnode).isLexical rfl token hmem).1
    · obtain rfl := List.mem_singleton.mp htoken
      rw [hlast]
      decide
  · have hsettled : Settled false (nodes.flatMap Node.tokens) :=
      settled_flatMap (fun node hnode => (hnodes node hnode).settled rfl) rfl
    rw [htokens]
    refine List.isChain_append.mpr ⟨?_, .singleton _, ?_⟩
    · exact hsettled.chain.imp fun token next hnext hnumber =>
        Token.stops_of_isMark (hnext hnumber)
    · intro token htoken next _ hnumber
      have hplain := hsettled.last rfl token htoken
      rw [Token.isNumber] at hplain
      rw [isNumberLexeme, hplain] at hnumber
      cases hnumber

namespace Dialect

/-- A document that was parsed is intact. -/
theorem intact_of_parse {dialect : Dialect} {extended : Bool}
    (hdialect : dialect = if extended then gecko else standard) {text : String}
    {sourceName : Option String} {document : Document}
    (h : (dialect.parse text sourceName).result = .ok document) :
    Intact extended (dialect.tweaksFor sourceName) document.tweaks ⟨document.items, []⟩ := by
  have hknown : dialect ∈ known := by
    subst hdialect
    cases extended <;> simp [known]
  obtain ⟨source, nodes, last, hsource, htokens, hlast, hnodes, rfl⟩ :=
    (parse_eq_ok_iff hdialect).mp h
  have hall : Mending.tokens ⟨nodes ++ [Node.ofEof last], []⟩ = source.tokens.toList := by
    rw [htokens]
    simp [Mending.tokens, Node.ofEof, Node.tokens, tokensOf]
  refine ⟨⟨nodes, last, rfl, hlast, fun node hnode => (hnodes node hnode).formed⟩, ?_, ?_, by simp⟩
  · rw [hall]
    unfold Source.read at hsource
    split at hsource
    · rename_i tokens hstream
      obtain rfl := Except.ok.inj hsource
      exact exists_lexable hstream htokens hlast hnodes
    · cases hsource
  · have hstable := stable_applyAll hknown sourceName text
    rw [← Source.textOf_read hsource, toList_textOf] at hstable
    rwa [hall]

/-- No rule fails in a document that was parsed. -/
theorem validate_of_parse {dialect : Dialect} (hdialect : dialect ∈ known) {text : String}
    {sourceName : Option String} {document : Document}
    (h : (dialect.parse text sourceName).result = .ok document) (rules : List Rule) :
    validate rules document.items = .ok (objections rules document.items) := by
  obtain ⟨extended, -, -, hextended⟩ := exists_extended hdialect
  exact (intact_of_parse hextended h).validate_eq_ok rules

/-- An intact document is written as a file that parses to a document of the same essence. -/
theorem exists_parse_of_intact {dialect : Dialect} {extended : Bool}
    (hdialect : dialect = if extended then gecko else standard) {document : Document}
    {found : List Diagnostic}
    (h : Intact extended (dialect.tweaksFor document.sourceName) document.tweaks
      ⟨document.items, found⟩) :
    ∃ again, (dialect.parse document.write document.sourceName).result = .ok again ∧
      again.sourceName = document.sourceName ∧ again.tweaks = document.tweaks ∧
      again.items.map Node.essence = document.items.map Node.essence := by
  obtain ⟨sourceName, tweaks, items⟩ := document
  obtain ⟨front, last, hsplit, hlexable⟩ := h.lexable
  obtain ⟨nodes, final, hitems, hfinal, hnodes⟩ := h.formed
  dsimp only [Mending.tokens] at hsplit hitems
  subst hitems
  have hends : nodes.flatMap Node.tokens = front ∧ final = last := by
    have hboth : nodes.flatMap Node.tokens ++ [final] = front ++ [last] := by
      rw [← hsplit]
      simp [Node.ofEof, Node.tokens, tokensOf]
    obtain ⟨hfront, heq⟩ := List.append_inj' hboth rfl
    exact ⟨hfront, by simpa using heq⟩
  obtain ⟨rfl, rfl⟩ := hends
  -- parsing begins with the text that is parsed now
  have htext : (Document.mk sourceName tweaks (nodes ++ [Node.ofEof final])).parsedText =
      textOf (nodes.flatMap Node.tokens ++ [final]) := by
    rw [Document.parsedText_eq, ← hsplit]
  have happly := @Stable.applyAll_eq _ _
    (Document.mk sourceName tweaks (nodes ++ [Node.ofEof final])).parsedText (by
      rw [htext, toList_textOf, ← hsplit]
      exact h.stable)
  -- and it is cut into tokens of the same essence
  obtain ⟨tokens, hstream, hessence⟩ := hlexable.stream_eq
  rw [List.map_append] at hessence
  obtain ⟨others, lasts, rfl, hothers, hlasts⟩ := List.map_eq_append_iff.mp hessence
  obtain ⟨other, rfl⟩ : ∃ other, lasts = [other] := by
    have hlength := congrArg List.length hlasts
    exact List.length_eq_one_iff.mp (by simpa using hlength)
  have hother : other.essence = final.essence := by simpa using hlasts
  obtain ⟨goods, hgoods, rfl, hsame⟩ := renews_all
    (fun node hnode tokens htokens => (hnodes node hnode).exists_conforms htokens) hothers.symm
  refine ⟨⟨sourceName, tweaks, goods ++ [Node.ofEof other]⟩, ?_, rfl, rfl, ?_⟩
  · refine (parse_eq_ok_iff hdialect).mpr ⟨⟨textOf (nodes.flatMap Node.tokens ++ [final]), sourceName,
      (goods.flatMap Node.tokens ++ [other]).toArray⟩, goods, other, ?_, by simp, ?_, hgoods, ?_⟩
    · rw [Document.write, happly, htext, Source.read, hstream]
    · rw [← Token.kind_essence, hother, Token.kind_essence, hfinal]
    · rw [Document.write, happly]
  · simp [hsame, Node.ofEof, Node.essence, essenceOf, hother]

/-- Mended documents are valid files.  Under a named dialect, take any document that was parsed and
any run of validations and repairs of what they found, stale or not.  The rules can look over what has
come of it, and what is written parses under the same name, with the same tweaks, to a document of the
same essence: construct by construct, the same type tags and the same tokens, trivia included. -/
theorem parse_write_of_mending {dialectName : String} {dialect : Dialect}
    (hdialect : named dialectName = .ok dialect) {text : String} {sourceName : Option String}
    {document : Document} (h : (dialect.parse text sourceName).result = .ok document)
    {mending : Mending} (hrun : Relation.ReflTransGen Step ⟨document.items, []⟩ mending) :
    (∃ found, validate Rule.all mending.items = .ok found) ∧ ∃ again,
      (dialect.parse { document with items := mending.items }.write sourceName).result = .ok again ∧
      again.sourceName = sourceName ∧ again.tweaks = document.tweaks ∧
      again.items.map Node.essence = mending.items.map Node.essence := by
  obtain ⟨extended, -, -, hextended⟩ := exists_extended (mem_known_of_named hdialect)
  have hname : document.sourceName = sourceName := by
    obtain ⟨_, _, _, -, -, rfl⟩ := parse_eq_ok.mp h
    rfl
  have hintact := (intact_of_parse hextended h).run hrun
  rw [← hname] at hintact ⊢
  exact ⟨⟨_, hintact.validate_eq_ok Rule.all⟩,
    @exists_parse_of_intact _ _ hextended { document with items := mending.items } _ hintact⟩

/-- A text with something to mend for every rule that mends, and a word that is tweaked. -/
def mendableText : String :=
  "//SharedArrayBuffer\nnamespace N \x7b [Unforgeable]void f(optional D d); \x7d;dictionary D \x7b\x7d;"

/-- The text after every repair has been made twice. -/
def mendedText : String :=
  "//SharedArrayBuffer\n[Exposed=Window, Exposed=Window]\nnamespace N \x7b " ++
    "[LegacyUnforgeable]undefined f(optional D d = \x7b\x7d); \x7d;dictionary D \x7b\x7d;"

/-- The text is parsed, and what is found in it can be mended twice. -/
def mendableSample : Sample gecko fun document =>
    match (objections Rule.all document.items ++ objections Rule.all document.items).foldlM
      (fun items diagnostic => diagnostic.fix items) document.items with
    | .ok items => decide ({ document with items }.write = mendedText)
    | .error _ => false where
  text := mendableText
  sourceName := some "Window.webidl"
  parses := by decide +kernel

/-- What was found in the text is mended twice, and parses with the attribute added twice. -/
theorem parse_write_of_mending_twice : ∃ document found items again,
    (gecko.parse mendableText (some "Window.webidl")).result = .ok document ∧
      validate Rule.all document.items = .ok found ∧
      (found ++ found).foldlM (fun items diagnostic => diagnostic.fix items) document.items =
        .ok items ∧
      { document with items }.write = mendedText ∧
      (gecko.parse { document with items }.write (some "Window.webidl")).result = .ok again ∧
      again.tweaks = document.tweaks ∧
      again.items.map Node.essence = items.map Node.essence := by
  obtain ⟨document, hdocument, hcheck⟩ := mendableSample.exists_document
  split at hcheck
  · rename_i items hitems
    have hfound := validate_of_parse (by simp [known]) hdocument Rule.all
    have hlook : Step ⟨document.items, []⟩ ⟨document.items, objections Rule.all document.items⟩ :=
      .look hfound
    have hrun := Relation.ReflTransGen.head hlook (runs_of_foldlM (by simp) hitems)
    obtain ⟨-, again, hagain, -, htweaks, hsame⟩ :=
      parse_write_of_mending (show named "gecko" = .ok gecko from rfl) hdocument hrun
    exact ⟨document, _, items, again, hdocument, hfound, hitems, of_decide_eq_true hcheck, hagain,
      htweaks, hsame⟩
  · cases hcheck

end Dialect

end WebIdl
