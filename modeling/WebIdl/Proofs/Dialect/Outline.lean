import WebIdl.Proofs.Dialect.Alike

/-!
# The standard grammar and the spelling of names

The standard grammar looks at the kinds of tokens, at keywords and punctuation marks, and at one thing
more: a type must not be nullable, or stand in a union, if its name is `any` once its escape is taken
off.  So the escaped name `_any` is refused where every other name is accepted
(`accepts_of_outline_false`), and texts that agree in all of this are parsed alike
(`definitions_of_outline`).
-/

namespace WebIdl

open WebIdl.Parser WebIdl.Shape WebIdl.Grammar

/-! ## What no name, number or string is spelled like -/

/-- What is spelled like the keyword `any` or like an opening bracket is that keyword or bracket. -/
theorem Lexeme.kind_of_scan {c : Char} {rest word tail : List Char} {kind : Token.Kind}
    (h : scan c rest = (kind, word, tail))
    (hword : word = "any".toList ∨ word = "[".toList ∨ word = "\x7b".toList) : kind = .inline := by
  -- a character that is no lexeme stands alone, and none of the three is such
  by_cases hkind : kind = .other
  · subst hkind
    rw [scan] at h
    split at h
    · rename_i hnone
      obtain rfl : [c] = word := by simpa using congrArg (·.2.1) h
      have hmark (mark : String) (hmem : mark ∈ punctuation) : [c] ≠ mark.toList := by
        intro heq
        have hsome := IsPunctuation.classified?_eq ⟨mark, hmem, heq⟩ rest
        cases hnone.symm.trans hsome
      rcases hword with hword | hword | hword
      · cases hword
      · exact absurd hword (hmark "[" (by decide))
      · exact absurd hword (hmark "\x7b" (by decide))
    · rename_i found front back hfound
      have hother : found ≠ .other := by
        rintro rfl
        simp only [classified?, Option.orElse_eq_orElse, Option.orElse_eq_or, Option.or_eq_some_iff,
          Option.map_eq_some_iff, Prod.mk.injEq] at hfound
        simp at hfound
      split at h
      · cases (Prod.mk.inj h).1
      · exact absurd (Prod.mk.inj h).1 hother
  · obtain ⟨hlexeme, -⟩ := isLexeme_of_scan h hkind
    have hends : Ends kind word [] := ⟨fun _ => stops_nil _, fun _ => stops_nil _⟩
    have hscan {c : Char} {rest : List Char} (hcons : word = c :: rest) :=
      scan_of_isLexeme hlexeme hends (by simpa using hcons)
    rcases hword with rfl | rfl | rfl
    · exact congrArg (·.1) (hscan rfl).symm
    · exact congrArg (·.1) (hscan rfl).symm
    · exact congrArg (·.1) (hscan rfl).symm

/-- A token that is no keyword and no punctuation mark is not spelled like one that matters. -/
theorem Token.text_of_streamed {text : String} {tokens : List Token} (h : stream text = .ok tokens)
    {token : Token} (htoken : token ∈ tokens) (hkind : token.kind ≠ .inline) :
    token.text ≠ "any" ∧ token.text ≠ "[" ∧ token.text ≠ "\x7b" := by
  rcases scan_of_mem_streamFrom h htoken with ⟨-, htext⟩ | ⟨c, rest, tail, hscan⟩
  · simp [htext]
  · have hother (spelling : String)
        (hspelling : spelling = "any" ∨ spelling = "[" ∨ spelling = "\x7b") :
        token.text ≠ spelling := by
      rintro rfl
      exact hkind (Lexeme.kind_of_scan hscan (by
        rcases hspelling with heq | heq | heq <;> simp [heq]))
    exact ⟨hother _ (by simp), hother _ (by simp), hother _ (by simp)⟩

/-! ## Outlines -/

namespace Token

/-- The kind of a token, and its spelling if it is a keyword or a punctuation mark. -/
def outline (token : Token) : Kind × Option String :=
  (token.kind, if token.kind = .inline then some token.text else none)

/-- Is this the name `any` behind an escape? -/
def isNamedAny (token : Token) : Bool :=
  token.kind == .identifier && token.value == "any"

/-- The spelling of keywords and punctuation marks, and of what looks like those that the grammar asks
about. -/
def outlineText (token : Token) : String :=
  if token.kind = .inline ∨ token.text = "[" ∨ token.text = "\x7b" then token.text
  else if token.value = "any" then "any"
  else ""

theorem outlineText_cases (token : Token) :
    token.outlineText = token.text ∨
      token.outlineText ∈ ["any", ""] ∧ token.text ≠ "[" ∧ token.text ≠ "\x7b" := by
  unfold outlineText
  split
  · exact Or.inl rfl
  · rename_i hplain
    obtain ⟨-, hsquare, hbrace⟩ := not_or.mp hplain |>.imp_right not_or.mp
    refine Or.inr ⟨?_, hsquare, hbrace⟩
    split <;> simp

theorem value_outlineText (token : Token) :
    (({ kind := token.kind, text := token.outlineText, index := token.index } : Token).value == "any") =
      (token.value == "any") := by
  unfold outlineText
  split
  · rfl
  · split
    · rename_i hany
      have hvalue : unescape "any" = "any" := by simp [unescape]
      rw [hany, value]
      split <;> simp [hvalue]
    · rename_i hother
      have hvalue : unescape "" = "" := by simp [unescape]
      rw [beq_eq_false_iff_ne.mpr hother, value]
      split <;> simp [hvalue]

/-- Tokens of two texts with one outline show the same spelling, if the same ones are `any`. -/
theorem outlineText_congr {text other : String} {tokens others : List Token}
    (h : stream text = .ok tokens) (hother : stream other = .ok others) {token twin : Token}
    (htoken : token ∈ tokens) (htwin : twin ∈ others) (houtline : twin.outline = token.outline)
    (hany : twin.isNamedAny = token.isNamedAny) : twin.outlineText = token.outlineText := by
  obtain ⟨hkind, htext⟩ := Prod.mk.inj houtline
  by_cases hinline : token.kind = .inline
  · have hspelling : twin.text = token.text := by simpa [hkind, hinline] using htext
    rw [outlineText, outlineText, if_pos (Or.inl (hkind.trans hinline)), if_pos (Or.inl hinline),
      hspelling]
  · have hplain {text : String} {tokens : List Token} (h : stream text = .ok tokens) {token : Token}
        (htoken : token ∈ tokens) (hinline : token.kind ≠ .inline) :
        token.outlineText = if token.isNamedAny then "any" else "" := by
      obtain ⟨hkeyword, hsquare, hbrace⟩ := text_of_streamed h htoken hinline
      rw [outlineText, if_neg (by simp [hinline, hsquare, hbrace])]
      by_cases hname : token.kind = .identifier
      · simp [isNamedAny, hname]
      · have hvalue : token.value = token.text := by
          unfold value
          split
          · rename_i heq
            exact absurd heq hname
          · rfl
        simp [isNamedAny, hname, hvalue, hkeyword]
    rw [hplain hother htwin (hkind ▸ hinline), hplain h htoken hinline, hany]

end Token

/-- The view that shows kinds, keywords and punctuation marks, and which names are `any`.  Other
spellings, trivia and where a token stands in the text are hidden. -/
def View.outlines : View where
  of token := { kind := token.kind, text := token.outlineText, index := token.index }
  kind_of _ := rfl
  text_of_inline h := if_pos (Or.inl h)
  any_of := Token.value_outlineText
  square_of token := by
    rcases token.outlineText_cases with heq | ⟨hmem, hsquare, -⟩
    · rw [heq]
    · rw [beq_eq_false_iff_ne.mpr hsquare]
      simp only [List.mem_cons, List.not_mem_nil, or_false] at hmem
      rcases hmem with heq | heq <;> rw [heq] <;> rfl
  brace_of token := by
    rcases token.outlineText_cases with heq | ⟨hmem, -, hbrace⟩
    · rw [heq]
    · rw [beq_eq_false_iff_ne.mpr hbrace]
      simp only [List.mem_cons, List.not_mem_nil, or_false] at hmem
      rcases hmem with heq | heq <;> rw [heq] <;> rfl

/-! ## Texts of one outline -/

/-- Does the standard grammar accept the tokens of a source? -/
def accepts (source : Source) : Bool :=
  match recursively (definitions · Dialect.standard.productions)
    ⟨source, Dialect.standard.extensions⟩ {} with
  | .ok _ _ => true
  | .error _ _ => false

/-- Under the standard grammar, names, numbers and strings are all alike, but for the escaped name
`any`.  Take two sources whose tokens have the same kinds, are the same keywords and punctuation marks,
and are named `any` in the same places.  Either both are parsed, to trees of the same constructs and
type tags with corresponding tokens in corresponding places, or both have a syntax error at the same
token. -/
theorem definitions_of_outline {first second : String} {firstName secondName : Option String}
    {source twin : Source} (hsource : Source.read first firstName = .ok source)
    (htwin : Source.read second secondName = .ok twin)
    (houtline : twin.tokens.toList.map Token.outline = source.tokens.toList.map Token.outline)
    (hany : twin.tokens.toList.map Token.isNamedAny = source.tokens.toList.map Token.isNamedAny) :
    (∃ items moved others stopped,
      recursively (definitions · Dialect.standard.productions)
        ⟨source, Dialect.standard.extensions⟩ {} = .ok items moved ∧
      recursively (definitions · Dialect.standard.productions)
        ⟨twin, Dialect.standard.extensions⟩ {} = .ok others stopped ∧
      others.map View.outlines.node = items.map View.outlines.node) ∨
    ∃ error moved reported stopped,
      recursively (definitions · Dialect.standard.productions)
        ⟨source, Dialect.standard.extensions⟩ {} = .error (.syntaxError error) moved ∧
      recursively (definitions · Dialect.standard.productions)
        ⟨twin, Dialect.standard.extensions⟩ {} = .error (.syntaxError reported) stopped ∧
      reported.position = error.position := by
  have hstream {text : String} {name : Option String} {source : Source}
      (h : Source.read text name = .ok source) : Token.stream text = .ok source.tokens.toList := by
    unfold Source.read at h
    split at h
    · rename_i tokens htokens
      obtain rfl := Except.ok.inj h
      simpa using htokens
    · cases h
  have hpairs : twin.tokens.toList.map (fun token => (token.outline, token.isNamedAny)) =
      source.tokens.toList.map fun token => (token.outline, token.isNamedAny) := by
    have hzip (tokens : List Token) := @List.zip_map' _ _ _ Token.outline Token.isNamedAny tokens
    rw [← hzip, ← hzip, houtline, hany]
  -- the two streams look the same, up to the spelling of names and values
  have hlook : twin.tokens.toList.map View.outlines.of =
      source.tokens.toList.map View.outlines.of := by
    refine Token.map_eq_of_key (hstream hsource) (hstream htwin) hpairs
      fun token hmem other hother hindex hkey => ?_
    obtain ⟨hsame, hnamed⟩ := Prod.mk.inj hkey
    have htext := Token.outlineText_congr (hstream hsource) (hstream htwin) hmem hother hsame hnamed
    simp [View.outlines, htext, hindex, (Prod.mk.inj hsame).1]
  have halike : twin.tokens.map View.outlines.of = source.tokens.map View.outlines.of := by
    apply Array.toList_inj.mp
    simpa using hlook
  have hknown : Dialect.standard ∈ Dialect.known := by simp [Dialect.known]
  refine (Dialect.definitions_alike hknown (Or.inr rfl) hsource htwin halike).imp_right ?_
  rintro ⟨error, moved, reported, stopped, herror, hreported, hposition, -⟩
  exact ⟨error, moved, reported, stopped, herror, hreported, hposition⟩

/-- Two texts of one outline that pass the check. -/
structure Outlined (check : Source → Source → Bool) where
  first : String
  second : String
  agree : (match Source.read first none, Source.read second none with
    | .ok source, .ok twin =>
      decide (twin.tokens.toList.map Token.outline = source.tokens.toList.map Token.outline) &&
        check source twin
    | _, _ => false) = true

theorem Outlined.exists_sources {check : Source → Source → Bool} (outlined : Outlined check) :
    ∃ source twin, Source.read outlined.first none = .ok source ∧
      Source.read outlined.second none = .ok twin ∧
      twin.tokens.toList.map Token.outline = source.tokens.toList.map Token.outline ∧
      check source twin = true := by
  have hagree := outlined.agree
  split at hagree
  · rename_i source twin hsource htwin
    obtain ⟨houtline, hcheck⟩ := Bool.and_eq_true_iff.mp hagree
    exact ⟨source, twin, hsource, htwin, of_decide_eq_true houtline, hcheck⟩
  · cases hagree

/-- Two nullable types of other names, in one of which the default is another string. -/
def renamedOutlined : Outlined fun source twin =>
    decide (twin.tokens.toList.map Token.isNamedAny = source.tokens.toList.map Token.isNamedAny) &&
      accepts source where
  first := "dictionary A \x7b foo? b = \"c\"; \x7d;"
  second := "dictionary _const \x7b _long? d = \"\"; \x7d;"
  agree := by decide +kernel

/-- The text with other names is parsed too. -/
theorem definitions_of_outline_renamed : ∃ twin items stopped,
    Source.read renamedOutlined.second none = .ok twin ∧
      recursively (definitions · Dialect.standard.productions)
        ⟨twin, Dialect.standard.extensions⟩ {} = .ok items stopped := by
  obtain ⟨source, twin, hsource, htwin, houtline, hcheck⟩ := renamedOutlined.exists_sources
  obtain ⟨hany, haccepts⟩ := Bool.and_eq_true_iff.mp hcheck
  rcases definitions_of_outline hsource htwin houtline (of_decide_eq_true hany) with
    ⟨_, _, items, stopped, -, hitems, -⟩ | ⟨error, moved, _, _, herror, -⟩
  · exact ⟨twin, items, stopped, htwin, hitems⟩
  · rw [accepts, herror] at haccepts
    cases haccepts

/-- A nullable type of some name, and one of the escaped name `any`. -/
def escapedOutlined : Outlined fun source twin => accepts source && !accepts twin where
  first := "typedef _foo? A;"
  second := "typedef _any? A;"
  agree := by decide +kernel

/-- One outline does not make two texts acceptable alike: the escaped name `any` is refused. -/
theorem accepts_of_outline_false : ∃ source twin,
    Source.read "typedef _foo? A;" none = .ok source ∧
      Source.read "typedef _any? A;" none = .ok twin ∧
      twin.tokens.toList.map Token.outline = source.tokens.toList.map Token.outline ∧
      accepts source = true ∧ accepts twin = false := by
  obtain ⟨source, twin, hsource, htwin, houtline, hcheck⟩ := escapedOutlined.exists_sources
  obtain ⟨haccepts, hrefuses⟩ := Bool.and_eq_true_iff.mp hcheck
  exact ⟨source, twin, hsource, htwin, houtline, haccepts, by simpa using hrefuses⟩

end WebIdl
