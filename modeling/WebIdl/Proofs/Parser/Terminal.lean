import WebIdl.Proofs.Parser.Reading
import WebIdl.Proofs.Shape.Conforms

/-!
# Reading tokens of a set, and lists

Every parser of one token reads the tokens of a set, `Shape.Terminal`.  A list with separators reads
items of a category, each with the comma behind it.
-/

namespace WebIdl

open Shape

theorem Shape.Terminal.kind_ne_eof {terminal : Terminal} {token : Token}
    (h : terminal.accepts token = true) (hkinds : .eof ∉ terminal.kinds) : token.kind ≠ .eof := by
  intro hkind
  simp only [Terminal.accepts, hkind, Bool.and_eq_true, Bool.or_eq_true, List.contains_iff_mem,
    beq_iff_eq, reduceCtorEq, false_and, or_false] at h
  exact hkinds h.1

namespace Parser

/-! ## Parsers of one token -/

theorem inline?_eq (words : List String) :
    inline? words = takeIf (Terminal.accepts { words }) := by
  have htest : (fun token : Token => token.kind == .inline && words.contains token.text) =
      Terminal.accepts { words } := by
    funext token
    simp [Terminal.accepts]
  rw [inline?, htest]

theorem ofKind?_eq (kinds : List Token.Kind) :
    ofKind? kinds = takeIf (Terminal.accepts { kinds }) := by
  have htest : (fun token : Token => kinds.contains token.kind) = Terminal.accepts { kinds } := by
    funext token
    simp [Terminal.accepts]
  rw [ofKind?, htest]

theorem identifier?_eq (text : String) :
    identifier? text = takeIf (Terminal.named text).accepts := by
  have htest : (fun token : Token => token.kind == .identifier && token.text == text) =
      (Terminal.named text).accepts := by
    funext token
    rw [Bool.eq_iff_iff]
    simp [Terminal.accepts, Terminal.named]
  rw [identifier?, htest]

/-- Trying two sets one after the other is trying their union. -/
theorem either_takeIf (first second : Token → Bool) :
    either (takeIf first) (takeIf second) = takeIf fun token => first token || second token := by
  funext scope cursor
  cases htoken : scope.source.tokens[cursor.position]? with
  | none => simp [either, takeIf, bind, htoken]
  | some token =>
      cases hfirst : first token with
      | true => simp [either, takeIf, bind, pure, htoken, hfirst]
      | false => simp [either, takeIf, bind, htoken, hfirst]

/-- The union of two sets of tokens, told by kinds and words. -/
theorem either_ofKind?_inline? (kinds : List Token.Kind) (words : List String) :
    either (ofKind? kinds) (inline? words) = takeIf (Terminal.accepts { kinds, words }) := by
  rw [ofKind?_eq, inline?_eq, either_takeIf]
  congr 1
  funext token
  simp [Terminal.accepts]

theorem either_inline?_ofKind? (words : List String) (kinds : List Token.Kind) :
    either (inline? words) (ofKind? kinds) = takeIf (Terminal.accepts { kinds, words }) := by
  rw [ofKind?_eq, inline?_eq, either_takeIf]
  congr 1
  funext token
  simp [Terminal.accepts, Bool.or_comm]

/-- The parser reads one token of the set, if one is there.  The end of the text is in no set. -/
structure OneOf (terminal : Terminal) (parser : Parser (Option Token)) : Prop where
  eq : parser = takeIf terminal.accepts
  eof_notMem : .eof ∉ terminal.kinds

theorem oneOf_inline? (words : List String) : OneOf { words } (inline? words) :=
  ⟨inline?_eq words, by simp⟩

theorem oneOf_ofKind? {kinds : List Token.Kind} (hkinds : .eof ∉ kinds) :
    OneOf { kinds } (ofKind? kinds) :=
  ⟨ofKind?_eq kinds, hkinds⟩

theorem oneOf_identifier : OneOf .identifier (ofKind? [.identifier]) :=
  oneOf_ofKind? (by decide)

theorem oneOf_identifier? (text : String) : OneOf (.named text) (identifier? text) :=
  ⟨identifier?_eq text, by simp [Terminal.named]⟩

theorem oneOf_name (words : List String) :
    OneOf { kinds := [.identifier], words } (either (ofKind? [.identifier]) (inline? words)) :=
  ⟨either_ofKind?_inline? _ words, by simp⟩

/-- A token of the set has been read, or none is there. -/
structure Takes (terminal : Terminal) (scope : Scope) (cursor : Cursor) (taken : Option Token)
    (moved : Cursor) : Prop where
  reads : Reads scope cursor moved taken.toList
  accepted : ∀ token ∈ taken, terminal.accepts token = true
  declined : taken = none → ∀ token ∈ (scope.rest cursor).head?, terminal.accepts token = false

section

variable {terminal : Terminal} {parser : Parser (Option Token)} {scope : Scope}
  {cursor moved : Cursor} {taken : Option Token} {β : Type} {found : β}

/-- Where no token of the set is, nothing is read. -/
theorem Takes.none (h : Takes terminal scope cursor none moved) :
    moved.position = cursor.position :=
  h.reads.position_eq

/-- A token that has been read was the next one. -/
theorem Takes.head?_eq {token : Token} (h : Takes terminal scope cursor (some token) moved) :
    (scope.rest cursor).head? = some token := by
  rw [h.reads.rest_eq]
  rfl

theorem OneOf.takes (hparser : OneOf terminal parser)
    (h : parser scope cursor = .ok taken moved) : Takes terminal scope cursor taken moved := by
  rw [hparser.eq] at h
  simp only [takeIf] at h
  split at h
  · rename_i token htoken
    have hhead : (scope.rest cursor).head? = some token := by rw [Scope.head?_rest, htoken]
    split at h
    · rename_i haccepts
      cases h
      refine ⟨⟨Scope.rest_eq_cons htoken rfl, rfl, ?_⟩, ?_, by simp⟩
      · simpa using Terminal.kind_ne_eof haccepts hparser.eof_notMem
      · simpa using haccepts
    · rename_i haccepts
      cases h
      exact ⟨.refl rfl, by simp, by simpa [hhead] using haccepts⟩
  · exact absurd h (by simp)

/-- A statement that reads a token if it is there. -/
theorem OneOf.bind (hparser : OneOf terminal parser) {next : Option Token → Parser β}
    (h : (parser >>= next) scope cursor = .ok found moved) :
    ∃ taken middle, Takes terminal scope cursor taken middle ∧
      next taken scope middle = .ok found moved := by
  obtain ⟨taken, middle, htaken, h⟩ := bind_eq_ok.mp h
  exact ⟨taken, middle, hparser.takes htaken, h⟩

/-- A statement that insists on a token. -/
theorem OneOf.expect_bind (hparser : OneOf terminal parser) {problem : Problem}
    {next : Token → Parser β}
    (h : (expect parser problem >>= next) scope cursor = .ok found moved) :
    ∃ token middle, Reads scope cursor middle [token] ∧ terminal.accepts token = true ∧
      next token scope middle = .ok found moved := by
  obtain ⟨token, middle, htoken, h⟩ := Parser.expect_bind.mp h
  have htakes := hparser.takes htoken
  exact ⟨token, middle, htakes.reads, htakes.accepted token rfl, h⟩

/-- A statement that reads a token only under a condition. -/
theorem OneOf.when?_bind (hparser : OneOf terminal parser) {condition : Bool}
    {next : Option Token → Parser β}
    (h : (when? condition parser >>= next) scope cursor = .ok found moved) :
    ∃ taken middle, Reads scope cursor middle taken.toList ∧
      (∀ token ∈ taken, terminal.accepts token = true) ∧ (taken.isSome → condition) ∧
      next taken scope middle = .ok found moved := by
  obtain ⟨taken, middle, htaken, hnext⟩ := bind_eq_ok.mp h
  rcases when?_eq_ok.mp htaken with ⟨hcondition, htaken⟩ | ⟨-, rfl, rfl⟩
  · have htakes := hparser.takes htaken
    exact ⟨taken, middle, htakes.reads, htakes.accepted, fun _ => hcondition, hnext⟩
  · exact ⟨none, _, .refl rfl, by simp, by simp, hnext⟩

end

/-! ## Lists -/

section

variable {scope : Scope} {cursor moved : Cursor} {extended : Bool} {symbol : Symbol} {mode : Mode}

theorem reads_itemsFrom {items : String} {mayDangle : Bool} {item : Parser (Option Node)}
    (hitem : ∀ cursor found moved, item scope cursor = .ok found moved →
      Found scope (Conforms extended { symbol, mode }) cursor found moved)
    {fuel : Nat} {afterComma : Bool} {nodes : List Node}
    (h : itemsFrom items mayDangle item fuel afterComma scope cursor = .ok nodes moved) :
    Reads scope cursor moved (nodes.flatMap Node.tokens) ∧
      Items (Conforms extended) nodes { symbol, mode } "," mayDangle ∧
      (nodes = [] → afterComma = true → mayDangle = true) := by
  -- item by item; the comma that is read behind an item belongs to it
  induction fuel generalizing cursor afterComma nodes with
  | zero => exact absurd h exhausted_ne_ok
  | succ fuel ih =>
      obtain ⟨found, middle, hfound, h⟩ := bind_eq_ok.mp h
      cases found with
      | none =>
          obtain ⟨hcondition, h⟩ := refuse_bind.mp h
          obtain ⟨rfl, rfl⟩ := pure_eq_ok.mp h
          refine ⟨.refl (hitem _ _ _ hfound), .nil, fun _ hcomma => ?_⟩
          simpa [hcomma] using hcondition
      | some node =>
          obtain ⟨hreads, hnode⟩ := hitem _ _ _ hfound
          obtain ⟨comma, after, hcomma, h⟩ := (oneOf_inline? _).bind h
          cases comma with
          | none =>
              obtain ⟨rfl, rfl⟩ := pure_eq_ok.mp h
              refine ⟨?_, .last hnode, by simp⟩
              simpa using hreads.congr rfl hcomma.none
          | some comma =>
              obtain ⟨others, _, hothers, hpure⟩ := bind_eq_ok.mp h
              obtain ⟨rfl, rfl⟩ := pure_eq_ok.mp hpure
              obtain ⟨hrest, hitems, hdangle⟩ := ih hothers
              refine ⟨?_, .cons (hnode.withSeparator (hcomma.accepted comma rfl)) (fun h => hdangle h rfl) hitems,
                by simp⟩
              simpa using (hreads.trans hcomma.reads).trans hrest

/-- A list reads its items with the commas between them. -/
theorem reads_commaList {items : String} {mayDangle : Bool} {item : Parser (Option Node)}
    (hitem : ∀ cursor found moved, item scope cursor = .ok found moved →
      Found scope (Conforms extended { symbol, mode }) cursor found moved)
    {nodes : List Node} (h : commaList items mayDangle item scope cursor = .ok nodes moved) :
    Reads scope cursor moved (nodes.flatMap Node.tokens) ∧
      Items (Conforms extended) nodes { symbol, mode } "," mayDangle := by
  obtain ⟨hreads, hitems, -⟩ := reads_itemsFrom hitem (size_bind.mp h)
  exact ⟨hreads, hitems⟩

end

end Parser

end WebIdl
