import WebIdl.Proofs.Shape.Progress
import WebIdl.Proofs.Sound.Text
import WebIdl.Proofs.Token.Lossless

/-!
# Every production covers what it reads

A production that finds a node has read the node's tokens, all of them and nothing else, and a
production that finds nothing has not moved.  No production reads the end of the text; only reading
all the definitions does.
-/

namespace WebIdl

open WebIdl.Parser WebIdl.Shape WebIdl.Grammar

/-! ## Places in a closed stream -/

section

variable {scope : Scope} {cursor moved : Cursor} {front : List Token} {last : Token}

theorem Scope.rest_of_closed (hclosed : Token.Closed scope.source.tokens.toList front last)
    (hcursor : cursor.position ≤ front.length) :
    scope.rest cursor = front.drop cursor.position ++ [last] := by
  rw [Scope.rest, hclosed.split, List.drop_append_of_le_length hcursor]

/-- What has been read ends before the end of the text. -/
theorem Reads.position_le (hclosed : Token.Closed scope.source.tokens.toList front last)
    {read : List Token} (h : Reads scope cursor moved read)
    (hcursor : cursor.position ≤ front.length) : moved.position ≤ front.length := by
  refine Nat.le_of_not_lt fun hlt => ?_
  have hnil : scope.rest moved = [] := by
    rw [Scope.rest, List.drop_eq_nil_iff, hclosed.split, List.length_append]
    exact hlt
  have hread : read = front.drop cursor.position ++ [last] := by
    rw [← Scope.rest_of_closed hclosed hcursor, h.rest_eq, hnil, List.append_nil]
  exact h.kind_ne_eof last (by simp [hread]) hclosed.last_kind

/-- What has been read is the piece of the stream between the two places. -/
theorem Reads.eq_extract {read : List Token} (h : Reads scope cursor moved read) :
    read = scope.source.tokens.toList.extract cursor.position moved.position := by
  have hlength : moved.position - cursor.position = read.length := by
    rw [h.position_eq, Nat.add_sub_cancel_left]
  rw [List.extract_eq_take_drop, hlength, ← Scope.rest, h.rest_eq, List.take_left]

/-- The `eof` token is found in the last place only. -/
theorem Scope.position_of_eof (hclosed : Token.Closed scope.source.tokens.toList front last)
    {token : Token} (htoken : (scope.rest cursor).head? = some token) (hkind : token.kind = .eof) :
    cursor.position = front.length ∧ token = last := by
  rw [Scope.head?_rest, ← Array.getElem?_toList, hclosed.split] at htoken
  by_cases hlt : cursor.position < front.length
  · rw [List.getElem?_append_left hlt] at htoken
    exact absurd hkind (hclosed.front_kind token (List.mem_of_getElem? htoken))
  · rw [List.getElem?_append_right (Nat.le_of_not_lt hlt)] at htoken
    have hindex : cursor.position - front.length = 0 := by
      have hbound := (List.getElem?_eq_some_iff.mp htoken).1
      simpa using hbound
    rw [hindex] at htoken
    exact ⟨by omega, by simpa using htoken.symm⟩

end

/-! ## Whole texts -/

section

variable {extended : Bool} {scope : Scope} {nested : Production → Parser (Option Node)}
  {cursor moved : Cursor} {productions : List Production} {front : List Token} {last : Token}

/-- The item that holds the end of the text. -/
def Node.ofEof (last : Token) : Node :=
  .mk { construct := .eof } [.token .eof last]

/-- The definitions of a text cover all of it from where they begin. -/
theorem Grammar.definitions_eq_ok (hnested : Sound extended scope nested)
    (hclosed : Token.Closed scope.source.tokens.toList front last)
    (hdefining : ∀ production ∈ productions, IsDefining extended production) {items : List Node}
    (h : definitions nested productions scope cursor = .ok items moved) :
    ∃ nodes, items = nodes ++ [Node.ofEof last] ∧
      scope.rest cursor = items.flatMap Node.tokens ∧
      moved.position = scope.source.tokens.size ∧
      ∀ node ∈ nodes,
        FoundAsDefinition extended scope nested (productions ++ standardDefinitions) node := by
  obtain ⟨nodes, afterNodes, hnodes, h⟩ := bind_eq_ok.mp (size_bind.mp h)
  have hall : ∀ production ∈ productions ++ standardDefinitions, IsDefining extended production :=
    fun production hproduction => (List.mem_append.mp hproduction).elim (hdefining production)
      isDefining_standard
  obtain ⟨hreads, hfound⟩ := reads_definitionsFrom hnested hall hnodes
  obtain ⟨closing, afterClosing, hclosing, h⟩ := Parser.expect_bind.mp h
  obtain ⟨rfl, rfl⟩ := pure_eq_ok.mp h
  -- the list ends at the one token that marks the end of the text
  rw [ofKind?_eq] at hclosing
  simp only [takeIf] at hclosing
  split at hclosing
  · rename_i token htoken
    split at hclosing
    · rename_i haccepts
      cases hclosing
      have hhead : (scope.rest afterNodes).head? = some closing := by
        rw [Scope.head?_rest, htoken]
      have hkind : closing.kind = .eof := by simpa using accepts_kinds.mp haccepts
      obtain ⟨hposition, rfl⟩ := Scope.position_of_eof hclosed hhead hkind
      refine ⟨nodes, rfl, ?_, ?_, hfound⟩
      · rw [hreads.rest_eq, Scope.rest_of_closed hclosed (Nat.le_of_eq hposition), hposition]
        simp [Node.tokens, tokensOf]
      · have hsize := congrArg List.length hclosed.split
        simpa [hposition] using hsize.symm
    · cases hclosing
  · cases hclosing

end

/-! ## Coverage -/

/-- A recursive parser runs to the depth that fits the source. -/
theorem Parser.recursively_eq_ok {α : Type}
    {parser : (Production → Parser (Option Node)) → Parser α} {scope : Scope}
    {cursor moved : Cursor} {found : α} :
    recursively parser scope cursor = .ok found moved ↔
      parser (Production.parseTo (depthFor scope.source.tokens.size)) scope cursor =
        .ok found moved :=
  Iff.rfl

/-- The tokens `read` are those of the source from one place to another, which is not past the end
of the text. -/
def Covers (source : Source) (cursor moved : Cursor) (read : List Token) : Prop :=
  cursor.position ≤ moved.position ∧ moved.position < source.tokens.size ∧
    read = source.tokens.toList.extract cursor.position moved.position

theorem Source.closed_of_read {text : String} {name : Option String} {source : Source}
    (h : Source.read text name = .ok source) :
    ∃ front last, Token.Closed source.tokens.toList front last := by
  unfold Source.read at h
  split at h
  · rename_i tokens htokens
    obtain rfl := Except.ok.inj h
    exact Token.closed_stream htokens
  · cases h

theorem Source.textOf_read {text : String} {name : Option String} {source : Source}
    (h : Source.read text name = .ok source) : textOf source.tokens.toList = text := by
  unfold Source.read at h
  split at h
  · rename_i tokens htokens
    obtain rfl := Except.ok.inj h
    exact Token.textOf_stream htokens
  · cases h

theorem covers_of_reads {source : Source} {extensions : Extensions} {cursor moved : Cursor}
    {front : List Token} {last : Token} {read : List Token}
    (hclosed : Token.Closed source.tokens.toList front last)
    (hcursor : cursor.position < source.tokens.size)
    (h : Reads ⟨source, extensions⟩ cursor moved read) : Covers source cursor moved read := by
  have hsize : source.tokens.size = front.length + 1 := by
    simpa using congrArg List.length hclosed.split
  have hle : moved.position ≤ front.length :=
    h.position_le hclosed (by omega)
  exact ⟨by rw [h.position_eq]; exact Nat.le_add_right _ _, by omega, h.eq_extract⟩

/-- The extensions are those of one of the two languages. -/
theorem exists_extensionsOf {extensions : Extensions}
    (h : extensions = {} ∨ extensions = Dialect.gecko.extensions) :
    ∃ extended, extensions = extensionsOf extended := by
  rcases h with rfl | rfl
  · exact ⟨false, rfl⟩
  · exact ⟨true, rfl⟩

/-- A production that is right has read something, unless it looks for attributes where there is no
bracket. -/
theorem Production.progress {extended : Bool} {scope : Scope} {depth : Nat}
    (hextensions : scope.extensions = extensionsOf extended) {production : Production}
    {cursor moved : Cursor} {node : Node}
    (h : parseTo (depth + 1) production scope cursor = .ok (some node) moved) :
    cursor.position < moved.position ∨
      production = .extendedAttributes ∧ node = Node.noAttributes ∧
        ∀ token ∈ (scope.rest cursor).head?, token.isInline "[" = false := by
  obtain ⟨hreads, hconforms⟩ := (sound_parseTo hextensions (depth + 1)).found h
  have hmoved (htokens : node.tokens ≠ []) : cursor.position < moved.position := by
    rw [hreads.position_eq]
    exact Nat.lt_add_of_pos_right (List.length_pos_iff.mpr htokens)
  by_cases hattributes : production = .extendedAttributes
  · subst hattributes
    obtain ⟨attributes, hsome, hfound⟩ := map_eq_ok.mp h
    obtain rfl := Option.some.inj hsome
    obtain ⟨-, rfl | hwritten, hbracket⟩ :=
      reads_extendedAttributes (sound_parseTo hextensions depth) hfound
    · refine Or.inr ⟨rfl, rfl, fun token htoken => ?_⟩
      rw [Scope.rest_congr (show moved.position = cursor.position from hreads.position_eq)] at hbracket
      have hword := hbracket token htoken
      simpa [Terminal.accepts, Terminal.word, Token.isInline] using hword
    · exact Or.inl (hmoved (hwritten.tokens_ne_nil rfl))
  · refine Or.inl (hmoved (hconforms.tokens_ne_nil ?_))
    cases production with
    | extendedAttributes => exact absurd rfl hattributes
    | _ => rfl

/-- Token coverage, purity and progress.  In a source that was read from a text, from any place that
is not past the end of the text:

* a production that finds nothing stands where it stood, and one that finds a node has read exactly
  the node's tokens, at least one unless it looks for attributes where there is no bracket;
* so it is for the values of enumerations and of attributes, which no production finds alone;
* a list of arguments covers what it reads in the same way;
* the definitions of the rest of the text cover all of it, its end included. -/
theorem production_covers {text : String} {name : Option String} {source : Source}
    (hsource : Source.read text name = .ok source) {extensions : Extensions}
    (hextensions : extensions = {} ∨ extensions = Dialect.gecko.extensions) {cursor : Cursor}
    (hcursor : cursor.position < source.tokens.size) :
    (∀ index token, source.tokens[index]? = some token →
      (token.kind = .eof ↔ index + 1 = source.tokens.size)) ∧
    (∀ (production : Production) (moved : Cursor),
      (production.parse ⟨source, extensions⟩ cursor = .ok none moved →
        moved.position = cursor.position) ∧
      ∀ node, production.parse ⟨source, extensions⟩ cursor = .ok (some node) moved →
        Covers source cursor moved node.tokens ∧
        (cursor.position < moved.position ∨
          production = .extendedAttributes ∧ node = Node.noAttributes ∧
            ∀ token ∈ source.tokens[cursor.position]?, token.isInline "[" = false)) ∧
    (∀ parser ∈ enumValue :: Grammar.valueKinds.map wrappedToken, ∀ moved,
      (parser ⟨source, extensions⟩ cursor = .ok none moved → moved.position = cursor.position) ∧
      ∀ node, parser ⟨source, extensions⟩ cursor = .ok (some node) moved →
        Covers source cursor moved node.tokens ∧ cursor.position < moved.position) ∧
    (∀ (arguments : List Node) (moved : Cursor),
      recursively argumentList ⟨source, extensions⟩ cursor = .ok arguments moved →
        Covers source cursor moved (arguments.flatMap Node.tokens)) ∧
    ∀ (productions : List Production) (items : List Node) (moved : Cursor),
      productions = [] ∨ productions = Dialect.gecko.productions →
      recursively (definitions · productions) ⟨source, extensions⟩ cursor = .ok items moved →
        items.flatMap Node.tokens = source.tokens.toList.drop cursor.position ∧
          moved.position = source.tokens.size := by
  obtain ⟨front, last, hclosed⟩ := Source.closed_of_read hsource
  obtain ⟨extended, hextended⟩ := exists_extensionsOf hextensions
  have hsize : source.tokens.size = front.length + 1 := by
    simpa using congrArg List.length hclosed.split
  have hsound (depth : Nat) : Sound extended ⟨source, extensions⟩ (Production.parseTo depth) :=
    Production.sound_parseTo hextended depth
  refine ⟨fun index token htoken => ?_, fun production moved => ⟨fun h => ?_, fun node h => ?_⟩,
    fun parser hparser moved => ?_, fun arguments moved h => ?_,
    fun productions items moved hproductions h => ?_⟩
  · rw [← Array.getElem?_toList, hclosed.split] at htoken
    rw [hsize]
    by_cases hlt : index < front.length
    · rw [List.getElem?_append_left hlt] at htoken
      have hkind := hclosed.front_kind token (List.mem_of_getElem? htoken)
      exact ⟨fun h => absurd h hkind, fun h => absurd h (by omega)⟩
    · have hindex : index = front.length := by
        have hbound := (List.getElem?_eq_some_iff.mp htoken).1
        simp only [List.length_append, List.length_singleton] at hbound
        omega
      subst hindex
      obtain rfl : last = token := by simpa using htoken
      exact ⟨fun _ => rfl, fun _ => hclosed.last_kind⟩
  · exact (hsound _).found (recursively_eq_ok.mp h)
  · have h := recursively_eq_ok.mp h
    obtain ⟨hreads, -⟩ := (hsound _).found h
    refine ⟨covers_of_reads hclosed hcursor hreads, ?_⟩
    have hprogress := Production.progress hextended h
    rwa [Scope.head?_rest] at hprogress
  · -- values of enumerations and of attributes are parsed beside the productions
    have hfound {found : Option Node} (h : parser ⟨source, extensions⟩ cursor = .ok found moved) :
        Found ⟨source, extensions⟩ (fun node => node.tokens ≠ []) cursor found moved := by
      rcases List.mem_cons.mp hparser with rfl | hvalue
      · exact (found_enumValue extended h).imp fun node hnode => hnode.tokens_ne_nil rfl
      · obtain ⟨kind, hkind, rfl⟩ := List.mem_map.mp hvalue
        have hne : kind ≠ .eof := by
          rintro rfl
          exact absurd hkind (by decide)
        exact (found_wrappedToken extended hne h).imp fun node hnode => hnode.tokens_ne_nil rfl
    refine ⟨fun h => hfound h, fun node h => ?_⟩
    obtain ⟨hreads, htokens⟩ := hfound h
    refine ⟨covers_of_reads hclosed hcursor hreads, ?_⟩
    rw [hreads.position_eq]
    exact Nat.lt_add_of_pos_right (List.length_pos_iff.mpr htokens)
  · exact covers_of_reads hclosed hcursor (reads_argumentList (hsound _) (recursively_eq_ok.mp h)).1
  · have hdefining : ∀ production ∈ productions, IsDefining extended production := by
      rcases hproductions with rfl | rfl
      · simp
      · exact fun _ => isDefining_gecko
    obtain ⟨nodes, -, hrest, hmoved, -⟩ :=
      Grammar.definitions_eq_ok (hsound _) hclosed hdefining (recursively_eq_ok.mp h)
    exact ⟨hrest.symm, hmoved⟩

/-- Does the production find something at the token of the text? -/
def Production.matchesAt (production : Production) (extensions : Extensions) (text : String)
    (position : Nat) : Bool :=
  match Source.read text none with
  | .ok source =>
    match production.parse ⟨source, extensions⟩ { position } with
    | .ok (some _) _ => decide (position < source.tokens.size)
    | _ => false
  | .error _ => false

/-- Behind its attributes, a partial interface of the extended language is covered. -/
theorem production_covers_partial : ∃ source node moved,
    Source.read "[A] partial interface B \x7b legacycaller long (); \x7d;" none = .ok source ∧
      3 < source.tokens.size ∧
      Production.partialDefinition.parse ⟨source, Dialect.gecko.extensions⟩ { position := 3 } =
        .ok (some node) moved ∧
      Covers source { position := 3 } moved node.tokens := by
  have hruns : Production.partialDefinition.matchesAt Dialect.gecko.extensions
      "[A] partial interface B \x7b legacycaller long (); \x7d;" 3 = true := by decide +kernel
  unfold Production.matchesAt at hruns
  split at hruns
  · rename_i source hsource
    split at hruns
    · rename_i node moved hfound
      have hcursor : 3 < source.tokens.size := of_decide_eq_true hruns
      obtain ⟨-, hproductions, -⟩ := production_covers hsource (Or.inr rfl)
        (show ({ position := 3 } : Cursor).position < source.tokens.size from hcursor)
      obtain ⟨-, hcovers⟩ := hproductions .partialDefinition moved
      exact ⟨source, node, moved, hsource, hcursor, hfound, (hcovers node hfound).1⟩
    · cases hruns
  · cases hruns

end WebIdl
