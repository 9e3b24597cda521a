import WebIdl.Proofs.Shape.Recast
import WebIdl.Proofs.Complete.Text

/-!
# Records with `UTF8String` keys

Gecko's interface files may have a record with `UTF8String` keys exactly where they may have one with
`DOMString` keys (`Dialect.gecko_finds_recast`).  The tokens of a record lie in one of the definitions
that are found, and `Conforms.recast` says what this definition is with the other key.
-/

namespace WebIdl.Dialect

open WebIdl.Parser WebIdl.Shape WebIdl.Grammar

variable {first second : Source} {before after : List Token} {base opening key other last : Token}

/-- One definition has the tokens of a record. -/
theorem exists_definition_split {nodes : List Node}
    (hnodes : ∀ node ∈ nodes, Conforms true { symbol := .definition } node)
    (hopening : (Terminal.word "<").accepts opening = true)
    (htokens : nodes.flatMap Node.tokens = before ++ base :: opening :: key :: after) :
    ∃ front node back inside behind, nodes = front ++ node :: back ∧
      node.tokens = inside ++ base :: opening :: key :: behind ∧
      before = front.flatMap Node.tokens ++ inside ∧ after = behind ++ back.flatMap Node.tokens := by
  rw [← tokensOf_ofNodes .item, List.append_cons] at htokens
  rcases tokensOf_eq_append htokens with ⟨front, role, back, hparts, -, -⟩ |
    ⟨front, role, node, back, start, rest, hparts, hnode, hstart, hrest⟩
  · have hmem : Part.token role opening ∈ Part.ofNodes .item nodes := by simp [hparts]
    obtain ⟨node, -, hnode⟩ := List.mem_map.mp hmem
    cases hnode
  · obtain ⟨earlier, others, rfl, rfl, hothers⟩ := List.map_eq_append_iff.mp hparts
    obtain ⟨found, later, rfl, hfound, rfl⟩ := List.map_eq_cons_iff.mp hothers
    obtain ⟨-, rfl⟩ := Part.node.inj hfound
    obtain ⟨inside, behind, hinside, hbefore, hafter⟩ :=
      (hnodes found (by simp)).formed.split_bracket rfl hopening hnode hstart hrest
    exact ⟨earlier, found, later, inside, behind, rfl, hinside,
      by rw [hbefore, ← tokensOf_ofNodes .item]; rfl, by rw [hafter, ← tokensOf_ofNodes .item]; rfl⟩

/-- A source in which a record has the other key is found to hold the same definitions, but for the
record. -/
theorem Finds.recast {keys : Keys} {items : List Node} (h : gecko.Finds first items)
    (hfirst : Token.Closed first.tokens.toList (before ++ base :: opening :: key :: after) last)
    (hsecond : Token.Closed second.tokens.toList (before ++ base :: opening :: other :: after) last)
    (hbase : (Terminal.word "record").accepts base = true)
    (hopening : (Terminal.word "<").accepts opening = true)
    (hkey : keys.terminal.accepts key = true) (hother : keys.other.terminal.accepts other = true) :
    ∃ others, gecko.Finds second others ∧ ∃ site old new,
      SwapsAt site old new (items.map Node.unplaced) (others.map Node.unplaced) ∧
        Recast keys key other old new := by
  have hgecko : gecko = if true then gecko else standard := rfl
  obtain ⟨nodes, htokens, hnodes, rfl⟩ := (finds_iff hgecko hfirst).mp h
  obtain ⟨front, node, back, inside, behind, rfl, hnode, rfl, rfl⟩ :=
    exists_definition_split hnodes hopening htokens.symm
  obtain ⟨changed, hchanged, hchangedTokens, path, old, new, hswaps, hrecast⟩ :=
    (hnodes node (by simp)).recast hbase hopening hkey hother hnode
  have hall : ∀ other ∈ front ++ changed :: back,
      Conforms true { symbol := .definition } other := by
    intro other hmem
    rcases List.mem_append.mp hmem with hearlier | hlater
    · exact hnodes other (List.mem_append_left _ hearlier)
    · rcases List.mem_cons.mp hlater with rfl | hlater
      · exact hchanged
      · exact hnodes other (List.mem_append_right _ (List.mem_cons_of_mem _ hlater))
  refine ⟨(front ++ changed :: back) ++ [Node.ofEof last], (finds_iff hgecko hsecond).mpr
    ⟨_, by simp [hchangedTokens], hall, rfl⟩, ⟨front.length, path⟩, old, new, ?_, hrecast⟩
  exact ⟨front.map Node.unplaced, node.unplaced, changed.unplaced,
    (back ++ [Node.ofEof last]).map Node.unplaced, by simp, by simp, hswaps, by simp⟩

/-- A record may have `UTF8String` keys exactly where it may have `DOMString` keys.  Take a source
with the tokens `record`, `<` and `DOMString` in a row, and one with the identifier `UTF8String`
instead of the last of them.  Either definitions are found in both, or in none.  If they are found,
the two trees are the same up to the places noted for types, except for the record, which has the
other key and its own class, and for the class of the field or typedef that the record may be the type
of. -/
theorem gecko_finds_recast
    (hfirst : Token.Closed first.tokens.toList (before ++ base :: opening :: key :: after) last)
    (hsecond : second.tokens.toList = before ++ base :: opening :: other :: after ++ [last])
    (hbase : base.kind = .inline ∧ base.text = "record")
    (hopening : opening.kind = .inline ∧ opening.text = "<")
    (hkey : key.kind = .inline ∧ key.text = "DOMString")
    (hother : other.kind = .identifier ∧ other.text = "UTF8String") :
    ((∃ items, gecko.Finds first items) ↔ ∃ others, gecko.Finds second others) ∧
      ∀ items others, gecko.Finds first items → gecko.Finds second others →
        ∃ site old new, SwapsAt site old new (items.map Node.unplaced) (others.map Node.unplaced) ∧
          Recast .dom key other old new := by
  have hrecord : (Terminal.word "record").accepts base = true := accepts_word.mpr hbase
  have hbracket : (Terminal.word "<").accepts opening = true := accepts_word.mpr hopening
  have hdom : Keys.dom.terminal.accepts key = true := accepts_word.mpr hkey
  have hutf8 : Keys.utf8.terminal.accepts other = true := accepts_named.mpr hother
  -- the other stream ends in the same token, and has no such token before
  have hclosed :
      Token.Closed second.tokens.toList (before ++ base :: opening :: other :: after) last := by
    refine ⟨hsecond, hfirst.last_kind, hfirst.last_text, fun token htoken => ?_⟩
    by_cases hnew : token = other
    · simp [hnew, hother.1]
    · refine hfirst.front_kind token ?_
      simp only [List.mem_append, List.mem_cons, hnew, false_or] at htoken ⊢
      tauto
  refine ⟨⟨?_, ?_⟩, ?_⟩
  · rintro ⟨items, hitems⟩
    obtain ⟨others, hothers, -⟩ := hitems.recast hfirst hclosed hrecord hbracket hdom hutf8
    exact ⟨others, hothers⟩
  · rintro ⟨others, hothers⟩
    obtain ⟨items, hitems, -⟩ := hothers.recast hclosed hfirst hrecord hbracket hutf8 hdom
    exact ⟨items, hitems⟩
  · intro items others hitems hothers
    obtain ⟨found, hfound, hrecast⟩ := hitems.recast hfirst hclosed hrecord hbracket hdom hutf8
    obtain rfl := hfound.unique hothers
    exact hrecast

/-- The tokens of a typedef for a record, around the key of the record. -/
def typedefStart : List Token := [{ kind := .inline, text := "typedef" }]

def typedefRest : List Token :=
  [{ kind := .inline, text := ",", index := 4, offset := 24 },
    { kind := .identifier, text := "A", trivia := " ", index := 5, offset := 26 },
    { kind := .inline, text := ">", index := 6, offset := 27 },
    { kind := .inline, text := "?", index := 7, offset := 28 },
    { kind := .identifier, text := "B", trivia := " ", index := 8, offset := 30 },
    { kind := .inline, text := ";", index := 9, offset := 31 }]

def typedefBase : Token := { kind := .inline, text := "record", trivia := " ", index := 1, offset := 8 }

def typedefOpening : Token := { kind := .inline, text := "<", index := 2, offset := 14 }

def typedefEnd : Token := { kind := .eof, text := "", index := 10, offset := 32 }

/-- The key of the record in `typedef record<DOMString, A>? B;`. -/
def domKey : Token := { kind := .inline, text := "DOMString", index := 3, offset := 15 }

def utf8Key : Token := { domKey with kind := .identifier, text := "UTF8String" }

/-- A typedef for a record with the given key. -/
def typedefSource (key : Token) : Source where
  text := "typedef record<DOMString, A>? B;"
  name := none
  tokens := (typedefStart ++ typedefBase :: typedefOpening :: key :: typedefRest ++
    [typedefEnd]).toArray

example : Token.stream (typedefSource domKey).text = .ok (typedefSource domKey).tokens.toList := by
  decide +kernel

theorem exists_finds_typedefSource : ∃ items, gecko.Finds (typedefSource domKey) items := by
  have haccepts : (match recursively (definitions · gecko.productions)
      ⟨typedefSource domKey, gecko.extensions⟩ {} with
    | .ok _ _ => true
    | .error _ _ => false) = true := by decide +kernel
  split at haccepts
  · rename_i items moved hitems
    exact ⟨items, moved, hitems⟩
  · cases haccepts

/-- The typedef with the other key is a typedef again, which differs as said. -/
theorem gecko_finds_recast_typedef : ∃ items others site old new,
    gecko.Finds (typedefSource domKey) items ∧ gecko.Finds (typedefSource utf8Key) others ∧
      SwapsAt site old new (items.map Node.unplaced) (others.map Node.unplaced) ∧
      Recast .dom domKey utf8Key old new := by
  have hclosed : Token.Closed (typedefSource domKey).tokens.toList
      (typedefStart ++ typedefBase :: typedefOpening :: domKey :: typedefRest) typedefEnd :=
    ⟨rfl, rfl, rfl, by decide⟩
  have hsecond : (typedefSource utf8Key).tokens.toList =
      typedefStart ++ typedefBase :: typedefOpening :: utf8Key :: typedefRest ++ [typedefEnd] := rfl
  obtain ⟨hiff, htrees⟩ := gecko_finds_recast hclosed hsecond ⟨rfl, rfl⟩ ⟨rfl, rfl⟩ ⟨rfl, rfl⟩
    ⟨rfl, rfl⟩
  obtain ⟨items, hitems⟩ := exists_finds_typedefSource
  obtain ⟨others, hothers⟩ := hiff.mp ⟨items, hitems⟩
  obtain ⟨site, old, new, hswaps, hrecast⟩ := htrees items others hitems hothers
  exact ⟨items, others, site, old, new, hitems, hothers, hswaps, hrecast⟩

end WebIdl.Dialect
