import WebIdl.Grammar.Parse
import WebIdl.Proofs.Tree.Mapped

/-!
# Parsing what a view shows

A view shows something of each token and hides the rest, such as its trivia.  As long as it shows all
that the grammar asks about, the parser cannot tell a stream of tokens from what the view shows of it:
it takes the same way over both, and finds in the second what the view shows of what it finds in the
first.

A `Mirror` is a scope and its image under a view, and `Mirrors` says so of a parser and its image.  Two
scopes that look alike have one image, so that what happens on one of them happens on the other.

The parser may have a smaller bound on its depth than the image has.  If it reaches the bound, nothing
is said of the image; otherwise the two end alike.
-/

namespace WebIdl

/-- A view of tokens.  It shows the kind of a token, the spelling of keywords and punctuation marks,
whether a name is `any`, and whether a default value opens with a bracket. -/
structure View where
  of : Token → Token
  kind_of : ∀ token, (of token).kind = token.kind
  text_of_inline : ∀ {token}, token.kind = .inline → (of token).text = token.text
  any_of : ∀ token, ((of token).value == "any") = (token.value == "any")
  square_of : ∀ token, ((of token).text == "[") = (token.text == "[")
  brace_of : ∀ token, ((of token).text == "\x7b") = (token.text == "\x7b")

namespace View

variable (view : View)

/-- What the view shows of a tree. -/
def node : Node → Node :=
  Node.map view.of id

/-- What the view shows of some parts. -/
def parts : List Part → List Part :=
  mapParts view.of id

/-- The view shows how the token is spelled. -/
def Keeps (token : Token) : Prop :=
  (view.of token).text = token.text

/-- The view shows how every token is spelled. -/
def Spells : Prop :=
  ∀ token, view.Keeps token

/-- The view shows whether a type is a promise and whether it is `any`. -/
def Tells (type : Node) : Prop :=
  (view.node type).applies "Promise" = type.applies "Promise" ∧
    ((view.node type).typeName == "any") = (type.typeName == "any")

variable {view}

theorem Keeps.value_eq {token : Token} (h : view.Keeps token) :
    (view.of token).value = token.value := by
  simp only [Token.value, view.kind_of, show (view.of token).text = token.text from h]

theorem Spells.faithful (h : view.Spells) : Faithful view.of id where
  kind_eq := view.kind_of
  text_eq := h
  construct_eq _ := rfl
  tag_eq _ := rfl

/-- What is asked about keywords and punctuation marks has the same answer. -/
theorem inline_test (token : Token) (test : String → Bool) :
    ((view.of token).kind == .inline && test (view.of token).text) =
      (token.kind == .inline && test token.text) := by
  rw [view.kind_of]
  cases hkind : token.kind == .inline with
  | false => rfl
  | true => rw [view.text_of_inline (beq_iff_eq.mp hkind)]

/-! ## What is shown of a tree -/

section

variable (label : Label) (rest : List Part) (node : Node)

@[simp] theorem node_mk : view.node (.mk label rest) = .mk label (view.parts rest) := rfl

@[simp] theorem parts_nil : view.parts [] = [] := rfl

@[simp] theorem parts_token (role : Role) (token : Token) :
    view.parts (.token role token :: rest) = .token role (view.of token) :: view.parts rest := rfl

@[simp] theorem parts_node (role : Role) :
    view.parts (.node role node :: rest) = .node role (view.node node) :: view.parts rest := rfl

@[simp] theorem parts_append (front : List Part) :
    view.parts (front ++ rest) = view.parts front ++ view.parts rest :=
  mapParts_append front rest

@[simp] theorem parts_ofToken? (role : Role) (token : Option Token) :
    view.parts (Part.ofToken? role token) = Part.ofToken? role (token.map view.of) :=
  mapParts_ofToken? role token

@[simp] theorem parts_ofNode? (role : Role) (node : Option Node) :
    view.parts (Part.ofNode? role node) = Part.ofNode? role (node.map view.node) :=
  mapParts_ofNode? role node

@[simp] theorem parts_ofNodes (role : Role) (nodes : List Node) :
    view.parts (Part.ofNodes role nodes) = Part.ofNodes role (nodes.map view.node) :=
  mapParts_ofNodes role nodes

@[simp] theorem construct_node : (view.node node).construct = node.construct := by
  cases node
  rfl

@[simp] theorem node_noAttributes : view.node Node.noAttributes = Node.noAttributes := rfl

@[simp] theorem node_withSeparator (separator : Option Token) :
    view.node (node.withSeparator separator) =
      (view.node node).withSeparator (separator.map view.of) := by
  cases node
  simp [Node.withSeparator]

@[simp] theorem node_withPlace (place : Option String) :
    view.node (node.withPlace place) = (view.node node).withPlace place := by
  obtain ⟨label, parts⟩ := node
  simp only [Node.withPlace, node_mk]
  split <;> rfl

@[simp] theorem node_withAttributes (attributes : Node) :
    view.node (node.withAttributes attributes) =
      (view.node node).withAttributes (view.node attributes) := by
  obtain ⟨label, _ | ⟨⟨role, token⟩ | ⟨role, inner⟩, parts⟩⟩ := node
  · rfl
  · rfl
  · cases role <;> rfl

@[simp] theorem items_node : (view.node node).items = node.items.map view.node :=
  Node.nodesAs_map node .item

end

/-! ## Types that can be told -/

section

variable {type : Node}

theorem tells_of_keeps
    (h : ∀ role ∈ [Role.sign, .base, .doubling], ∀ token ∈ type.token? role, view.Keeps token) :
    view.Tells type := by
  have hvalue : ∀ role ∈ [Role.sign, .base, .doubling],
      ((view.node type).token? role).map Token.value = (type.token? role).map Token.value := by
    intro role hrole
    rw [View.node, Node.token?_map, Option.map_map]
    exact Option.map_congr fun token htoken => (h role hrole token htoken).value_eq
  have hopening : (view.node type).has .opening = type.has .opening := Node.has_map type _
  constructor
  · rw [Node.applies, Node.applies,
      Node.genericName_congr (construct_node type) hopening (hvalue .base (by simp))]
  · rw [Node.typeName_congr (construct_node type) hopening hvalue]

theorem Spells.tells (h : view.Spells) (type : Node) : view.Tells type :=
  tells_of_keeps fun _ _ token _ => h token

theorem tells_of_union (h : type.construct = .unionType) : view.Tells type := by
  simp [Tells, Node.applies, Node.genericName, Node.typeName, h]

/-- Whether a type can be told depends on its words alone. -/
theorem Tells.congr {other : Node} (h : view.Tells type)
    (hconstruct : other.construct = type.construct)
    (htokens : ∀ role ∈ [Role.opening, .sign, .base, .doubling],
      other.token? role = type.token? role) : view.Tells other := by
  have hwords : ∀ role ∈ [Role.sign, .base, .doubling],
      other.token? role = type.token? role := fun role hrole =>
    htokens role (List.mem_cons_of_mem _ hrole)
  have hopening : other.has .opening = type.has .opening := by
    rw [Node.has, Node.has, htokens .opening (by simp)]
  have hviews (role : Role) (h : other.token? role = type.token? role) :
      (view.node other).token? role = (view.node type).token? role := by
    simp only [View.node, Node.token?_map, h]
  have hconstruct' : (view.node other).construct = (view.node type).construct := by simp [hconstruct]
  have hopening' : (view.node other).has .opening = (view.node type).has .opening := by
    rw [Node.has, Node.has, hviews .opening (htokens .opening (by simp))]
  have hbase := hwords .base (by simp)
  rw [Tells, Node.applies, Node.applies, Node.genericName_congr hconstruct hopening (by rw [hbase]),
    Node.genericName_congr hconstruct' hopening' (by rw [hviews .base hbase]),
    Node.typeName_congr hconstruct hopening fun role hrole => by rw [hwords role hrole],
    Node.typeName_congr hconstruct' hopening' fun role hrole => by
      rw [hviews role (hwords role hrole)]]
  exact h

theorem Tells.withPlace (h : view.Tells type) (place : Option String) :
    view.Tells (type.withPlace place) := by
  obtain ⟨label, parts⟩ := type
  simp only [Node.withPlace]
  split
  · exact h.congr rfl fun _ _ => rfl
  · exact h

theorem Tells.withAttributes (h : view.Tells type) (attributes : Node) :
    view.Tells (type.withAttributes attributes) := by
  obtain ⟨label, _ | ⟨⟨role, token⟩ | ⟨role, inner⟩, parts⟩⟩ := type
  · exact h
  · exact h
  · cases role with
    | «attributes» => exact h.congr rfl fun _ _ => by simp [Node.withAttributes]
    | _ => exact h

end

end View

/-- The view that shows everything. -/
def View.whole : View where
  of := id
  kind_of _ := rfl
  text_of_inline _ := rfl
  any_of _ := rfl
  square_of _ := rfl
  brace_of _ := rfl

theorem View.spells_whole : View.whole.Spells :=
  fun _ => rfl

@[simp] theorem View.node_whole : View.whole.node = id :=
  funext Node.map_id

/-! ## Mirrors -/

/-- Two scopes, the second of which has the tokens that a view shows of those of the first. -/
structure Mirror where
  view : View
  scope : Scope
  image : Scope
  tokens_eq : image.source.tokens = scope.source.tokens.map view.of
  extensions_eq : image.extensions = scope.extensions

/-- A scope and all of it. -/
def Mirror.same (scope : Scope) : Mirror where
  view := View.whole
  scope := scope
  image := scope
  tokens_eq := by simp [View.whole]
  extensions_eq := rfl

/-- The second problem is what the view shows of the first.  Only one kind of problem has the name in
it that a text gives to a type. -/
def Problem.Mirrors (view : View) (problem other : Problem) : Prop :=
  other = problem ∨ ∃ token : Token, problem = .unknownGeneric token.value ∧
    other = .unknownGeneric (view.of token).value

/-- The two parses failed for one reason, at one place. -/
inductive Failure.Mirrors (view : View) : Failure → Failure → Prop where
  | syntaxError {error other : SyntaxError} (hproblem : error.problem.Mirrors view other.problem)
      (hposition : other.position = error.position) :
      Mirrors view (.syntaxError error) (.syntaxError other)
  | pastEnd : Mirrors view .pastEnd .pastEnd
  | missing (token : Missing) : Mirrors view (.missing token) (.missing token)

/-- The two parses ended alike, and the second found what is shown of what the first found; or the
first reached its bound. -/
inductive Outcome.Mirrors {α β : Type} (view : View) (shown : α → β) (good : α → Prop) :
    Outcome α → Outcome β → Prop where
  | ok {value : α} {moved other : Cursor} (hgood : good value)
      (hposition : other.position = moved.position) :
      Mirrors view shown good (.ok value moved) (.ok (shown value) other)
  | error {failure reported : Failure} {moved other : Cursor}
      (hfailure : failure.Mirrors view reported) :
      Mirrors view shown good (.error failure moved) (.error reported other)
  | cut {moved : Cursor} {outcome : Outcome β} :
      Mirrors view shown good (.error .exhausted moved) outcome

theorem Problem.Mirrors.refl {view : View} (problem : Problem) : problem.Mirrors view problem :=
  Or.inl rfl

theorem Problem.Mirrors.reason?_eq {view : View} {problem other : Problem}
    (h : problem.Mirrors view other) : other.reason? = problem.reason? := by
  rcases h with rfl | ⟨token, rfl, rfl⟩ <;> rfl

namespace Parser

/-- Nothing is asked of a value. -/
def Always {α : Type} : α → Prop :=
  fun _ => True

/-- What is asked of a value holds if there is one. -/
def ForSome {α : Type} (good : α → Prop) (found : Option α) : Prop :=
  ∀ value ∈ found, good value

theorem forSome_none {α : Type} {good : α → Prop} : ForSome good none := by
  simp [ForSome]

theorem forSome_some {α : Type} {good : α → Prop} {value : α} (h : good value) :
    ForSome good (some value) := by
  simpa [ForSome] using h

theorem ForSome.of_some {α : Type} {good : α → Prop} {value : α} (h : ForSome good (some value)) :
    good value :=
  h value rfl

/-- Started at the same token, the parser on the scope and its image on the image of the scope end
alike. -/
def Mirrors {α β : Type} (mirror : Mirror) (shown : α → β) (good : α → Prop) (parser : Parser α)
    (image : Parser β) : Prop :=
  ∀ cursor other : Cursor, other.position = cursor.position →
    (parser mirror.scope cursor).Mirrors mirror.view shown good (image mirror.image other)

section

variable {α β γ δ : Type} {mirror : Mirror} {shown : α → β} {good : α → Prop} {parser : Parser α}
  {image : Parser β} {shown' : γ → δ} {good' : γ → Prop} {next : α → Parser γ} {next' : β → Parser δ}

/-! ## Statements in a row -/

theorem mirrors_pure {value : α} {other : β} (hshown : other = shown value) (hgood : good value) :
    Mirrors mirror shown good (pure value) (pure other) := by
  intro cursor moved hposition
  subst hshown
  exact .ok hgood hposition

theorem Mirrors.bind (h : Mirrors mirror shown good parser image)
    (hnext : ∀ value, good value → Mirrors mirror shown' good' (next value) (next' (shown value))) :
    Mirrors mirror shown' good' (parser >>= next) (image >>= next') := by
  intro cursor other hposition
  have houtcome := h cursor other hposition
  simp only [Bind.bind]
  cases hfound : parser mirror.scope cursor with
  | ok value moved =>
      rw [hfound] at houtcome
      cases hother : image mirror.image other with
      | ok value' moved' =>
          rw [hother] at houtcome
          cases houtcome with
          | ok hgood hmoved => exact hnext value hgood moved moved' hmoved
      | error failure moved' =>
          rw [hother] at houtcome
          cases houtcome
  | error failure moved =>
      rw [hfound] at houtcome
      cases hother : image mirror.image other with
      | ok value' moved' =>
          rw [hother] at houtcome
          cases houtcome with
          | cut => exact .cut
      | error failure' moved' =>
          rw [hother] at houtcome
          cases houtcome with
          | error hfailure => exact .error hfailure
          | cut => exact .cut

theorem Mirrors.weaken {weaker : α → Prop} (h : Mirrors mirror shown good parser image)
    (himp : ∀ value, good value → weaker value) : Mirrors mirror shown weaker parser image := by
  intro cursor other hposition
  have houtcome := h cursor other hposition
  generalize parser mirror.scope cursor = first at houtcome
  generalize image mirror.image other = second at houtcome
  cases houtcome with
  | ok hgood hmoved => exact .ok (himp _ hgood) hmoved
  | error hfailure => exact .error hfailure
  | cut => exact .cut

theorem Mirrors.always (h : Mirrors mirror shown good parser image) :
    Mirrors mirror shown Always parser image :=
  h.weaken fun _ _ => trivial

theorem mirrors_size_bind {next : Nat → Parser γ} {next' : Nat → Parser δ}
    (hnext : ∀ size, Mirrors mirror shown' good' (next size) (next' size)) :
    Mirrors mirror shown' good' (size >>= next) (size >>= next') := by
  intro cursor other hposition
  have hsize : mirror.image.source.tokens.size = mirror.scope.source.tokens.size := by
    simp [mirror.tokens_eq]
  simp only [Bind.bind, Parser.size, hsize]
  exact hnext _ cursor other hposition

theorem mirrors_extensions_bind {next : Extensions → Parser γ} {next' : Extensions → Parser δ}
    (hnext : Mirrors mirror shown' good' (next mirror.scope.extensions)
      (next' mirror.scope.extensions)) :
    Mirrors mirror shown' good' (extensions >>= next) (extensions >>= next') := by
  intro cursor other hposition
  simp only [Bind.bind, Parser.extensions, mirror.extensions_eq]
  exact hnext cursor other hposition

theorem mirrors_enter_bind {heading heading' : Heading} {next : Unit → Parser γ}
    {next' : Unit → Parser δ} (hnext : Mirrors mirror shown' good' (next ()) (next' ())) :
    Mirrors mirror shown' good' (enter heading >>= next) (enter heading' >>= next') :=
  fun _ _ hposition => hnext _ _ hposition

theorem getElem?_image (index : Nat) :
    mirror.image.source.tokens[index]? =
      (mirror.scope.source.tokens[index]?).map mirror.view.of := by
  rw [mirror.tokens_eq, Array.getElem?_map]

theorem mirrors_fail {problem problem' : Problem} (h : problem.Mirrors mirror.view problem') :
    Mirrors mirror shown good (fail problem) (fail problem') := by
  intro cursor other hposition
  simp only [fail, hposition, getElem?_image]
  cases mirror.scope.source.tokens[cursor.position]? with
  | none => exact .error .pastEnd
  | some token => exact .error (.syntaxError h rfl)

theorem mirrors_refuse_bind {condition condition' : Bool} {problem problem' : Problem}
    {next : Unit → Parser γ} {next' : Unit → Parser δ} (hcondition : condition' = condition)
    (hproblem : problem.Mirrors mirror.view problem')
    (hnext : Mirrors mirror shown' good' (next ()) (next' ())) :
    Mirrors mirror shown' good' (refuse condition problem >>= next)
      (refuse condition' problem' >>= next') := by
  subst hcondition
  cases condition' with
  | false => exact hnext
  | true =>
      have hfail : Mirrors mirror (fun _ : Unit => ()) Always (fail problem) (fail problem') :=
        mirrors_fail hproblem
      exact hfail.bind fun _ _ => hnext

theorem mirrors_present_bind {reading reading' : Except Missing α} {next : α → Parser γ}
    {next' : α → Parser δ} (hreading : reading' = reading)
    (hnext : ∀ value, Mirrors mirror shown' good' (next value) (next' value)) :
    Mirrors mirror shown' good' (present reading >>= next) (present reading' >>= next') := by
  subst hreading
  cases reading' with
  | ok value => exact hnext value
  | error token => exact fun _ _ _ => .error (.missing token)

theorem mirrors_peek : Mirrors mirror mirror.view.of Always peek peek := by
  intro cursor other hposition
  simp only [peek, hposition, getElem?_image]
  cases mirror.scope.source.tokens[cursor.position]? with
  | none => exact .error .pastEnd
  | some token => exact .ok trivial hposition

theorem mirrors_nextIs (text : String) : Mirrors mirror id Always (nextIs text) (nextIs text) :=
  mirrors_peek.bind fun token _ => mirrors_pure (View.inline_test token (· == text)) trivial

theorem mirrors_nextIsKind (kind : Token.Kind) :
    Mirrors mirror id Always (nextIsKind kind) (nextIsKind kind) :=
  mirrors_peek.bind fun token _ => mirrors_pure (by rw [mirror.view.kind_of]; rfl) trivial

end

/-! ## Tokens -/

section

variable {mirror : Mirror}

theorem mirrors_takeIf {test : Token → Bool} {good : Token → Prop}
    (htest : ∀ token, test (mirror.view.of token) = test token)
    (hgood : ∀ token, test token = true → good token) :
    Mirrors mirror (Option.map mirror.view.of) (ForSome good) (takeIf test) (takeIf test) := by
  intro cursor other hposition
  simp only [takeIf, hposition, getElem?_image]
  cases mirror.scope.source.tokens[cursor.position]? with
  | none => exact .error .pastEnd
  | some token =>
      simp only [Option.map_some, htest]
      split
      · rename_i haccepts
        exact .ok (forSome_some (hgood token haccepts)) rfl
      · exact .ok forSome_none hposition

theorem mirrors_inline? (texts : List String) :
    Mirrors mirror (Option.map mirror.view.of) (ForSome mirror.view.Keeps) (inline? texts)
      (inline? texts) := by
  refine mirrors_takeIf (fun token => View.inline_test token texts.contains) fun token htest => ?_
  exact mirror.view.text_of_inline (beq_iff_eq.mp (Bool.and_eq_true_iff.mp htest).1)

theorem mirrors_ofKind? (kinds : List Token.Kind) :
    Mirrors mirror (Option.map mirror.view.of) (ForSome Always) (ofKind? kinds) (ofKind? kinds) :=
  mirrors_takeIf (fun token => by rw [mirror.view.kind_of]) fun _ _ => trivial

theorem mirrors_identifier? (hspells : mirror.view.Spells) (text : String) :
    Mirrors mirror (Option.map mirror.view.of) (ForSome mirror.view.Keeps) (identifier? text)
      (identifier? text) :=
  mirrors_takeIf (fun token => by rw [mirror.view.kind_of, hspells token]) fun token _ => hspells token

theorem mirrors_word (texts : List String) :
    Mirrors mirror (Option.map mirror.view.of) (ForSome Always) (inline? texts) (inline? texts) :=
  (mirrors_inline? texts).weaken fun _ _ _ _ => trivial

end

/-! ## Choices -/

section

variable {α β : Type} {mirror : Mirror} {shown : α → β} {good : α → Prop}
  {parser second : Parser (Option α)} {image image' : Parser (Option β)}

theorem Mirrors.expect (h : Mirrors mirror (Option.map shown) (ForSome good) parser image)
    {problem problem' : Problem} (hproblem : problem.Mirrors mirror.view problem') :
    Mirrors mirror shown good (expect parser problem) (expect image problem') := by
  refine h.bind fun found hgood => ?_
  cases found with
  | none => exact mirrors_fail hproblem
  | some value => exact mirrors_pure rfl hgood.of_some

theorem Mirrors.when? (h : Mirrors mirror (Option.map shown) (ForSome good) parser image)
    {condition condition' : Bool} (hcondition : condition' = condition) :
    Mirrors mirror (Option.map shown) (ForSome good) (when? condition parser)
      (when? condition' image) := by
  subst hcondition
  cases condition' with
  | false => exact mirrors_pure rfl forSome_none
  | true => exact h

theorem Mirrors.either (h : Mirrors mirror (Option.map shown) (ForSome good) parser image)
    (hsecond : Mirrors mirror (Option.map shown) (ForSome good) second image') :
    Mirrors mirror (Option.map shown) (ForSome good) (either parser second) (either image image') := by
  refine h.bind fun found hgood => ?_
  cases found with
  | none => exact hsecond
  | some value => exact mirrors_pure rfl hgood

theorem Mirrors.rewinding (h : Mirrors mirror (Option.map shown) (ForSome good) parser image) :
    Mirrors mirror (Option.map shown) (ForSome good) (rewinding parser) (rewinding image) := by
  intro cursor other hposition
  refine (h.bind fun found hgood => ?_) cursor other hposition
  cases found with
  | none => exact fun _ _ _ => .ok forSome_none hposition
  | some value => exact mirrors_pure rfl hgood

theorem mirrors_firstMatch {parse parse' : Production → Parser (Option Node)}
    {productions : List Production} {good : Node → Prop}
    (hparse : ∀ production ∈ productions, Mirrors mirror (Option.map mirror.view.node) (ForSome good)
      (parse production) (parse' production)) :
    Mirrors mirror (Option.map mirror.view.node) (ForSome good) (firstMatch parse productions)
      (firstMatch parse' productions) := by
  induction productions with
  | nil => exact mirrors_pure rfl forSome_none
  | cons production others ih =>
      obtain ⟨hproduction, hothers⟩ := List.forall_mem_cons.mp hparse
      intro cursor other hposition
      refine (hproduction.bind fun found hgood => ?_) cursor other hposition
      cases found with
      | none => exact fun _ _ _ => ih hothers _ _ hposition
      | some node => exact fun _ _ hmoved => .ok hgood hmoved

theorem Mirrors.deferring {parser image : Parser Node}
    (h : Mirrors mirror mirror.view.node Always parser image) (reasons : List String)
    (start : Nat) :
    Mirrors mirror (Option.map mirror.view.node) (ForSome Always) (deferring reasons start parser)
      (deferring reasons start image) := by
  intro cursor other hposition
  have houtcome := h cursor other hposition
  simp only [Parser.deferring]
  generalize parser mirror.scope cursor = first at houtcome
  generalize image mirror.image other = second at houtcome
  cases houtcome with
  | ok hgood hmoved => exact .ok (forSome_some trivial) hmoved
  | error hfailure =>
      cases hfailure with
      | syntaxError hproblem herror =>
          dsimp only
          rw [hproblem.reason?_eq]
          split
          · split
            · exact .ok forSome_none rfl
            · exact .error (.syntaxError hproblem herror)
          · exact .error (.syntaxError hproblem herror)
      | pastEnd => exact .error .pastEnd
      | missing token => exact .error (.missing token)
  | cut => exact .cut

/-! ## Lists -/

theorem mirrors_itemsFrom {item item' : Parser (Option Node)}
    (hitem : Mirrors mirror (Option.map mirror.view.node) (ForSome Always) item item')
    (items : String) (mayDangle : Bool) (fuel : Nat) (afterComma : Bool) :
    Mirrors mirror (List.map mirror.view.node) Always (itemsFrom items mayDangle item fuel afterComma)
      (itemsFrom items mayDangle item' fuel afterComma) := by
  induction fuel generalizing afterComma with
  | zero => exact fun _ _ _ => .cut
  | succ fuel ih =>
      refine hitem.bind fun found _ => ?_
      cases found with
      | none => exact mirrors_refuse_bind rfl (.refl _) (mirrors_pure rfl trivial)
      | some node =>
          refine (mirrors_inline? _).bind fun comma _ => ?_
          cases comma with
          | none => exact mirrors_pure rfl trivial
          | some comma =>
              refine (ih true).bind fun others _ => mirrors_pure ?_ trivial
              simp

theorem mirrors_commaList {item item' : Parser (Option Node)}
    (hitem : Mirrors mirror (Option.map mirror.view.node) (ForSome Always) item item')
    (items : String) (mayDangle : Bool) :
    Mirrors mirror (List.map mirror.view.node) Always (commaList items mayDangle item)
      (commaList items mayDangle item') :=
  mirrors_size_bind fun size => mirrors_itemsFrom hitem items mayDangle (size + 1) false

end

end Parser

end WebIdl
