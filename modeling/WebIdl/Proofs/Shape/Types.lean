import WebIdl.Proofs.Shape.Below

/-!
# The shapes of types

The forms of a type come from its shape and its place.  A type that is read by its shape alone has
neither attributes nor a question mark (`Symbol.stem`).
-/

namespace WebIdl.Shape

/-! ## Sets of words -/

theorem accepts_words {words : List String} {token : Token} :
    Terminal.accepts { words } token = true ↔ token.kind = .inline ∧ token.text ∈ words := by
  simp [Terminal.accepts]

theorem accepts_word {word : String} {token : Token} :
    (Terminal.word word).accepts token = true ↔ token.kind = .inline ∧ token.text = word := by
  simp [Terminal.accepts, Terminal.word]

theorem accepts_kinds {kinds : List Token.Kind} {token : Token} :
    Terminal.accepts { kinds } token = true ↔ token.kind ∈ kinds := by
  simp [Terminal.accepts]

section

variable {extended : Bool}

/-! ## Types by their shape -/

theorem conforms_stem_iff {stems : List Stem} {place : Option String} {node : Node} :
    Conforms extended { symbol := .stem stems place, mode := .never } node ↔
      ∃ stem ∈ stems, ∃ slots ∈ stem.slots place .all, ∃ parts,
        node = .mk { construct := stem.construct, place } (Grammar.bare :: parts) ∧
          Fits (Conforms extended) slots parts := by
  constructor
  · rintro ⟨hform, hparts⟩
    obtain ⟨stem, hstem, hform⟩ := List.mem_flatMap.mp hform
    obtain ⟨slots, hslots, rfl⟩ := List.mem_map.mp hform
    obtain ⟨attributes, rest, rfl, hattributes, hrest⟩ := fits_node.mp hparts
    obtain rfl := eq_noAttributes_of_conforms hattributes rfl
    exact ⟨stem, hstem, slots, hslots, rest, rfl, by simpa using hrest⟩
  · rintro ⟨stem, hstem, slots, hslots, parts, rfl, hparts⟩
    refine .of_form _ (List.mem_flatMap.mpr ⟨stem, hstem, List.mem_map_of_mem hslots⟩) rfl
      (.node (conforms_noAttributes (by simp)) ?_)
    simpa using hparts

theorem conforms_stem (stem : Stem) {stems : List Stem} {place : Option String}
    {slots : List Slot} {parts : List Part} (hstem : stem ∈ stems)
    (hslots : slots ∈ stem.slots place .all) (hparts : Fits (Conforms extended) slots parts) :
    Conforms extended { symbol := .stem stems place, mode := .never }
      (.mk { construct := stem.construct, place } (Grammar.bare :: parts)) :=
  conforms_stem_iff.mpr ⟨stem, hstem, slots, hslots, parts, rfl, hparts⟩

/-- What fills a form of a type: attributes, the slots of its shape, and a question mark if the shape
allows one. -/
theorem split_typeForm {belongs : Category → Node → Prop} {symbol : Symbol}
    {place : Option String} {limit : Limit} {mode : Mode} {form : Form} {parts : List Part}
    (hform : form ∈ typeForms extended place limit)
    (hparts : Fits belongs (Category.slots { symbol, mode } form) parts) :
    ∃ stem ∈ limit.stems extended, ∃ slots ∈ stem.slots place limit, ∃ attributes inner mark,
      form.label = { construct := stem.construct, place } ∧
      parts = .node .attributes attributes :: (inner ++ Part.ofToken? .nullable mark) ∧
      belongs { symbol := .attributes mode } attributes ∧ Fits belongs slots inner ∧
      (∀ token ∈ mark, (Terminal.word "?").accepts token = true) ∧
      (mark.isSome → stem.isNullable) := by
  obtain ⟨stem, hstem, hform⟩ := List.mem_flatMap.mp hform
  obtain ⟨bareForm, hbare, rfl⟩ := List.mem_map.mp hform
  obtain ⟨slots, hslots, rfl⟩ := List.mem_map.mp hbare
  refine ⟨stem, hstem, slots, hslots, ?_⟩
  cases hnullable : stem.isNullable with
  | true =>
      simp only [hnullable, if_true] at hparts ⊢
      obtain ⟨attributes, rest, rfl, hattributes, hrest⟩ := fits_node.mp hparts
      simp only [List.append_eq, List.nil_append, Option.toList_none, List.map_nil,
        List.append_nil, fits_append] at hrest
      obtain ⟨inner, tail, rfl, hfits, htail⟩ := hrest
      obtain ⟨mark, _, rfl, hmark, hnil⟩ := fits_option.mp htail
      obtain rfl := fits_nil.mp hnil
      exact ⟨attributes, inner, mark, rfl, by simp, hattributes, hfits, hmark, fun _ => trivial⟩
  | false =>
      simp only [hnullable, Bool.false_eq_true, if_false] at hparts ⊢
      obtain ⟨attributes, rest, rfl, hattributes, hrest⟩ := fits_node.mp hparts
      exact ⟨attributes, rest, none, rfl, by simp [Part.ofToken?], hattributes,
        by simpa using hrest, by simp, by simp⟩

/-- A type is its attributes, what its shape has, and its question mark. -/
theorem conforms_type_iff {place : Option String} {limit : Limit} {mode : Mode} {node : Node} :
    Conforms extended { symbol := .type place limit, mode } node ↔
      ∃ stem ∈ limit.stems extended, ∃ slots ∈ stem.slots place limit, ∃ attributes parts mark,
        node = .mk { construct := stem.construct, place }
          (.node .attributes attributes :: (parts ++ Part.ofToken? .nullable mark)) ∧
        Conforms extended { symbol := .attributes mode } attributes ∧
        Fits (Conforms extended) slots parts ∧
        (∀ token ∈ mark, (Terminal.word "?").accepts token = true) ∧
        (mark.isSome → stem.isNullable) := by
  constructor
  · rintro ⟨hform, hparts⟩
    obtain ⟨stem, hstem, slots, hslots, attributes, inner, mark, hlabel, rfl, hrest⟩ :=
      split_typeForm hform hparts
    exact ⟨stem, hstem, slots, hslots, attributes, inner, mark, by rw [hlabel], hrest⟩
  · rintro ⟨stem, hstem, slots, hslots, attributes, parts, mark, rfl, hattributes, hparts, hmark,
      hnullable⟩
    refine .of_form _ (List.mem_flatMap.mpr ⟨stem, hstem, List.mem_map_of_mem
      (List.mem_map_of_mem hslots)⟩) ?_ ?_
    · split <;> rfl
    · -- the slot of the question mark is there only for types that can be nullable
      cases hcase : stem.isNullable with
      | true =>
          simp only [if_true]
          refine .node hattributes ?_
          simp only [List.append_eq, List.nil_append, Option.toList_none, List.map_nil,
            List.append_nil]
          exact fits_append.mpr ⟨parts, _, rfl, hparts, .lastOption hmark⟩
      | false =>
          obtain rfl : mark = none := by simpa [hcase] using hnullable
          simp only [Bool.false_eq_true, if_false]
          refine .node hattributes ?_
          simpa [Part.ofToken?] using hparts

end

/-- The place of a type matters only for the types inside it. -/
theorem Stem.slots_eq_of_simple {stem : Stem} {place other : Option String} {limit : Limit}
    (hstem : stem ∈ [.integer, .float, .keyword, .name, .any, .union, .utf8Record]) :
    stem.slots place limit = stem.slots other limit := by
  cases stem <;> simp_all [Stem.slots]

/-- The limit on a type matters only for the name `legacycaller`. -/
theorem Stem.slots_eq_of_ne_guarded {stem : Stem} {place : Option String} {limit : Limit}
    (hlimit : limit ≠ .guarded) : stem.slots place limit = stem.slots place .all := by
  cases stem with
  | name =>
      cases limit with
      | guarded => exact absurd rfl hlimit
      | _ => rfl
  | _ => rfl

/-! ## The token behind a type -/

/-- Is the last word of the type a `long` that a second one may follow? -/
def isSingleLong (type : Node) : Bool :=
  (type.token? .base).any (·.isInline "long") && !type.has .doubling

/-- Does the type go by its name? -/
def isNamed (type : Node) : Bool :=
  (type.token? .base).any (Terminal.typeName fun _ => true).accepts

/-- Would the token behind a type be read as a part of it, or be refused?  A question mark always is.
Where the type has none, so is a second `long`, and the bracket of a generic behind a name. -/
def goesOn (type : Node) (next : Token) : Bool :=
  next.isInline "?" || !type.isNullable &&
    (isSingleLong type && next.isInline "long" || isNamed type && next.isInline "<")

/-- Most tokens go on with no type. -/
theorem goesOn_eq_false {next : Token}
    (h : Terminal.accepts { words := ["?", "<", "long"] } next = false) (type : Node) :
    goesOn type next = false := by
  have hinline {word : String} (hword : word ∈ ["?", "<", "long"]) :
      next.isInline word = false := by
    rw [Bool.eq_false_iff] at h ⊢
    intro hnext
    obtain ⟨hkind, rfl⟩ : next.kind = .inline ∧ next.text = word := by
      simpa [Token.isInline] using hnext
    exact h (accepts_words.mpr ⟨hkind, hword⟩)
  simp [goesOn, hinline]

/-- The shape of a type and its question mark decide what goes on with it. -/
theorem goesOn_of_fits {belongs : Category → Node → Prop} {stem : Stem} {slots : List Slot}
    {place shown : Option String} {limit : Limit} {parts : List Part} {attributes : Node}
    {mark : Option Token} (hslots : slots ∈ stem.slots place limit)
    (hparts : Fits belongs slots parts) {node : Node}
    (hnode : node = .mk { construct := stem.construct, place := shown }
      (.node .attributes attributes :: (parts ++ Part.ofToken? .nullable mark))) (next : Token) :
    goesOn node next = (next.isInline "?" || mark.isNone &&
      (isSingleLong (Grammar.typeNode none parts) && next.isInline "long" ||
        isNamed (Grammar.typeNode none parts) && next.isInline "<")) := by
  have hunmarked : (stem.slots place limit).all
      (fun slots => slots.all (·.tokenRole? != some .nullable)) = true := by
    cases stem <;> rfl
  have hnullable {label : Label} : (Node.mk label parts).token? .nullable = none :=
    hparts.token?_eq_none (List.all_eq_true.mp hunmarked slots hslots)
  subst hnode
  have hword (role : Role) (hrole : role ≠ .nullable) {label : Label} :
      (Node.mk label (.node .attributes attributes ::
        (parts ++ Part.ofToken? .nullable mark))).token? role =
        (Grammar.typeNode none parts).token? role := by
    rw [Node.token?_node, Node.token?_append, Node.token?_ofToken?_last, if_neg hrole.symm,
      Option.or_none, Grammar.typeNode, Grammar.bare, Node.token?_node]
    rfl
  have hmark {label : Label} : (Node.mk label (.node .attributes attributes ::
      (parts ++ Part.ofToken? .nullable mark))).isNullable = mark.isSome := by
    rw [Node.isNullable, Node.has, Node.token?_node, Node.token?_append, hnullable,
      Node.token?_ofToken?_last, if_pos rfl, Option.none_or]
  simp only [goesOn, isSingleLong, isNamed, hmark, Node.has, hword .base (by decide),
    hword .doubling (by decide), Option.not_isSome]

/-! ## Reading the words of a type -/

theorem accepts_typeName {spelling : String → Bool} {token : Token} :
    (Terminal.typeName spelling).accepts token = true ↔
      (token.kind = .identifier ∨ token.kind = .inline ∧
        token.text ∈ Keyword.stringTypes ++ Keyword.typeNames) ∧ spelling token.text = true := by
  simp [Terminal.accepts, Terminal.typeName]

theorem value_of_word {word : String} {token : Token}
    (h : (Terminal.word word).accepts token = true) : token.value = word := by
  simp [Token.value, accepts_word.mp h]

theorem value_ne_of_words {words : List String} {word : String} {token : Token}
    (h : Terminal.accepts { words } token = true) (hword : word ∉ words) :
    token.value ≠ word := by
  obtain ⟨hkind, htext⟩ := accepts_words.mp h
  simp only [Token.value, hkind]
  exact fun heq => hword (heq ▸ htext)

theorem unescape_eq_any_iff {text : String} :
    unescape text = "any" ↔ Terminal.isAny text = true := by
  simp only [Terminal.isAny, Bool.or_eq_true, beq_iff_eq]
  constructor
  · intro h
    unfold unescape at h
    split at h
    · rename_i rest hrest
      right
      rw [← String.toList_inj, hrest, ← @String.toList_ofList rest, h]
      rfl
    · exact Or.inl h
  · rintro (rfl | rfl) <;> decide

theorem value_eq_any_iff {spelling : String → Bool} {token : Token}
    (h : (Terminal.typeName spelling).accepts token = true) :
    token.value = "any" ↔ Terminal.isAny token.text = true := by
  rcases (accepts_typeName.mp h).1 with hkind | ⟨hkind, htext⟩
  · simp only [Token.value, hkind]
    exact unescape_eq_any_iff
  · simp only [Token.value, hkind, Terminal.isAny, Bool.or_eq_true, beq_iff_eq]
    refine ⟨Or.inl, fun h => h.resolve_right ?_⟩
    rintro hescaped
    rw [hescaped] at htext
    exact absurd htext (by decide)

section

variable {belongs : Category → Node → Prop} {stem : Stem} {slots : List Slot}
  {place shown : Option String} {limit : Limit} {parts : List Part} {attributes : Node}
  {mark : Option Token}

/-- The checks of the parser tell the types `Promise` and `any` from all others. -/
theorem applies_typeName_of_fits (hslots : slots ∈ stem.slots place limit)
    (hparts : Fits belongs slots parts) {node : Node}
    (hnode : node = .mk { construct := stem.construct, place := shown }
      (.node .attributes attributes :: (parts ++ Part.ofToken? .nullable mark))) :
    node.applies "Promise" = .ok (decide (stem = .promise)) ∧
      (node.typeName = "any" ↔ stem = .any) := by
  subst hnode
  -- the name of a type is made of the tokens in the slots of its stem, all of them words
  cases stem with
  | integer =>
      rcases List.mem_cons.mp hslots with rfl | hlong
      · obtain ⟨sign, rest, rfl, hsign, hrest⟩ := fits_option.mp hparts
        obtain ⟨base, rest, rfl, hbase, hrest⟩ := fits_token.mp hrest
        obtain rfl := fits_nil.mp hrest
        have hvalue := value_of_word hbase
        refine ⟨by simp [Node.applies, Node.genericName, Node.has, Except.map], ?_⟩
        cases sign with
        | none => simp [Node.typeName, Node.has, hvalue, Stem.construct]
        | some sign =>
            simp [Node.typeName, Node.has, hvalue, value_of_word (hsign sign rfl), Stem.construct]
      · obtain rfl := List.mem_singleton.mp hlong
        obtain ⟨sign, rest, rfl, hsign, hrest⟩ := fits_option.mp hparts
        obtain ⟨base, rest, rfl, hbase, hrest⟩ := fits_token.mp hrest
        obtain ⟨doubling, rest, rfl, hdoubling, hrest⟩ := fits_option.mp hrest
        obtain rfl := fits_nil.mp hrest
        have hvalue := value_of_word hbase
        refine ⟨by simp [Node.applies, Node.genericName, Node.has, Except.map], ?_⟩
        cases sign with
        | none =>
            cases doubling with
            | none => simp [Node.typeName, Node.has, hvalue, Stem.construct]
            | some doubling =>
                simp [Node.typeName, Node.has, hvalue, value_of_word (hdoubling doubling rfl),
                  Stem.construct]
        | some sign =>
            have hsigned := value_of_word (hsign sign rfl)
            cases doubling with
            | none => simp [Node.typeName, Node.has, hvalue, hsigned, Stem.construct]
            | some doubling =>
                simp [Node.typeName, Node.has, hvalue, hsigned,
                  value_of_word (hdoubling doubling rfl), Stem.construct]
  | float =>
      obtain rfl := List.mem_singleton.mp hslots
      obtain ⟨sign, rest, rfl, hsign, hrest⟩ := fits_option.mp hparts
      obtain ⟨base, rest, rfl, hbase, hrest⟩ := fits_token.mp hrest
      obtain rfl := fits_nil.mp hrest
      refine ⟨by simp [Node.applies, Node.genericName, Node.has, Except.map], ?_⟩
      have hvalue : base.value = "float" ∨ base.value = "double" := by
        simpa [Token.value, (accepts_words.mp hbase).1] using (accepts_words.mp hbase).2
      rcases hvalue with hvalue | hvalue
      all_goals
        cases sign with
        | none => simp [Node.typeName, Node.has, hvalue, Stem.construct]
        | some sign =>
            simp [Node.typeName, Node.has, hvalue, value_of_word (hsign sign rfl), Stem.construct]
  | keyword =>
      obtain rfl := List.mem_singleton.mp hslots
      obtain ⟨base, rest, rfl, hbase, hrest⟩ := fits_token.mp hparts
      obtain rfl := fits_nil.mp hrest
      refine ⟨by simp [Node.applies, Node.genericName, Node.has, Except.map], ?_⟩
      have hne : base.value ≠ "any" := value_ne_of_words hbase (by decide)
      simpa [Node.typeName, Node.has, Stem.construct] using hne
  | name =>
      obtain rfl := List.mem_singleton.mp hslots
      obtain ⟨base, rest, rfl, hbase, hrest⟩ := fits_token.mp hparts
      obtain rfl := fits_nil.mp hrest
      refine ⟨by simp [Node.applies, Node.genericName, Node.has, Except.map], ?_⟩
      -- a name is a type of this stem only if it does not unescape to `any`
      have hplain : Terminal.isAny base.text = false := by
        simpa using (Bool.and_eq_true_iff.mp (accepts_typeName.mp hbase).2).1
      simp [Node.typeName, Node.has, Stem.construct, value_eq_any_iff hbase, hplain]
  | any =>
      obtain rfl := List.mem_singleton.mp hslots
      obtain ⟨base, rest, rfl, hbase, hrest⟩ := fits_token.mp hparts
      obtain rfl := fits_nil.mp hrest
      refine ⟨by simp [Node.applies, Node.genericName, Node.has, Except.map], ?_⟩
      simpa [Node.typeName, Node.has, Stem.construct, value_eq_any_iff hbase] using
        (accepts_typeName.mp hbase).2
  | collection =>
      obtain rfl := List.mem_singleton.mp hslots
      obtain ⟨base, rest, rfl, hbase, hrest⟩ := fits_token.mp hparts
      obtain ⟨opening, rest, rfl, hopening, hrest⟩ := fits_token.mp hrest
      -- the words of this stem are other generics
      have hne : base.value ≠ "Promise" := value_ne_of_words hbase (by decide)
      simpa [Node.applies, Node.genericName, Node.typeName, Node.has, Node.valueAs, Node.tokenIn,
        Stem.construct, Except.map] using hne
  | promise =>
      obtain rfl := List.mem_singleton.mp hslots
      obtain ⟨base, rest, rfl, hbase, hrest⟩ := fits_token.mp hparts
      obtain ⟨opening, rest, rfl, hopening, hrest⟩ := fits_token.mp hrest
      simp [Node.applies, Node.genericName, Node.typeName, Node.has, Node.valueAs, Node.tokenIn,
        value_of_word hbase, Stem.construct, Except.map]
  | record =>
      obtain rfl := List.mem_singleton.mp hslots
      obtain ⟨base, rest, rfl, hbase, hrest⟩ := fits_token.mp hparts
      obtain ⟨opening, rest, rfl, hopening, hrest⟩ := fits_token.mp hrest
      simp [Node.applies, Node.genericName, Node.typeName, Node.has, Node.valueAs, Node.tokenIn,
        value_of_word hbase, Stem.construct, Except.map]
  | union => simp [Node.applies, Node.genericName, Node.typeName, Stem.construct, Except.map]
  | utf8Record =>
      obtain rfl := List.mem_singleton.mp hslots
      obtain ⟨base, rest, rfl, hbase, hrest⟩ := fits_token.mp hparts
      obtain ⟨opening, rest, rfl, hopening, hrest⟩ := fits_token.mp hrest
      simp [Node.applies, Node.genericName, Node.typeName, Node.has, Node.valueAs, Node.tokenIn,
        value_of_word hbase, Stem.construct, Except.map]

end

end WebIdl.Shape
