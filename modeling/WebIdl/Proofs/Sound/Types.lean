import WebIdl.Proofs.Sound.Attributes
import WebIdl.Proofs.Shape.Members

/-!
# What the type productions find

A type is found in one of its shapes, at first without attributes and without its question mark.
The checks for `any` and `Promise` keep the question mark from them, and both of them out of unions.
-/

namespace WebIdl.Grammar

open WebIdl.Parser WebIdl.Shape

section

variable {extended : Bool} {scope : Scope} {nested : Production → Parser (Option Node)}
  {cursor moved : Cursor} {place : Option String}

/-- The question mark behind a type has been read, if it is there, and no second one follows. -/
theorem takes_nullableMark {mark : Option Token}
    (h : nullableMark scope cursor = .ok mark moved) :
    Takes (.word "?") scope cursor mark moved := by
  obtain ⟨mark, middle, hmark, h⟩ := (oneOf_inline? _).bind h
  obtain ⟨next, hnext, h⟩ := nextIs_bind.mp h
  obtain ⟨-, h⟩ := refuse_bind.mp h
  obtain ⟨rfl, rfl⟩ := pure_eq_ok.mp h
  exact hmark

/-! ## Simple types -/

theorem found_integerType (extended : Bool) {found : Option Node}
    (h : integerType scope cursor = .ok found moved) :
    Found scope (Conforms extended { symbol := .stem [.integer] none, mode := .never }) cursor
      found moved := by
  obtain ⟨sign, afterSign, hsign, h⟩ := (oneOf_inline? _).bind h
  obtain ⟨base, afterBase, hbase, h⟩ := (oneOf_inline? _).bind h
  cases base with
  | none =>
      obtain ⟨hincomplete, h⟩ := refuse_bind.mp h
      obtain ⟨rfl, rfl⟩ := pure_eq_ok.mp h
      obtain rfl : sign = none := by simpa using hincomplete
      exact hbase.none.trans hsign.none
  | some base =>
      obtain ⟨doubling, _, hdoubling, hlong, hdoubled, h⟩ := (oneOf_inline? _).when?_bind h
      obtain ⟨rfl, rfl⟩ := pure_eq_ok.mp h
      refine ⟨by simpa [typeNode, bare, Node.tokens, tokensOf] using
        (hsign.reads.trans hbase.reads).trans hdoubling, ?_⟩
      obtain ⟨hkind, htext⟩ := accepts_words.mp (hbase.accepted base rfl)
      rcases List.mem_cons.mp htext with hshort | hrest
      · obtain rfl : doubling = none := by simpa [hshort] using hdoubled
        exact conforms_stem .integer (List.mem_singleton_self _) List.mem_cons_self
          (.option hsign.accepted (.token (accepts_word.mpr ⟨hkind, hshort⟩) .nil))
      · exact conforms_stem .integer (List.mem_singleton_self _)
          (List.mem_cons_of_mem _ List.mem_cons_self)
          (.option hsign.accepted (.token
            (accepts_word.mpr ⟨hkind, List.mem_singleton.mp hrest⟩) (.lastOption hlong)))

theorem found_decimalType (extended : Bool) {found : Option Node}
    (h : decimalType scope cursor = .ok found moved) :
    Found scope (Conforms extended { symbol := .stem [.float] none, mode := .never }) cursor
      found moved := by
  obtain ⟨sign, afterSign, hsign, h⟩ := (oneOf_inline? _).bind h
  obtain ⟨base, afterBase, hbase, h⟩ := (oneOf_inline? _).bind h
  cases base with
  | none =>
      obtain ⟨hincomplete, h⟩ := refuse_bind.mp h
      obtain ⟨rfl, rfl⟩ := pure_eq_ok.mp h
      obtain rfl : sign = none := by simpa using hincomplete
      exact hbase.none.trans hsign.none
  | some base =>
      obtain ⟨rfl, rfl⟩ := pure_eq_ok.mp h
      refine ⟨by simpa [typeNode, bare, Node.tokens, tokensOf] using
        hsign.reads.trans hbase.reads, ?_⟩
      exact conforms_stem .float (List.mem_singleton_self _) List.mem_cons_self
        (.option hsign.accepted (.token (hbase.accepted base rfl) .nil))

/-- A type of one word is found where the word is. -/
theorem found_oneWord {terminal : Terminal} {word : Parser (Option Token)}
    (hword : OneOf terminal word) {found : Option Node}
    (h : oneWord word scope cursor = .ok found moved) :
    Found scope (fun node => ∃ base, terminal.accepts base = true ∧
      node = typeNode none [.token .base base]) cursor found moved := by
  obtain ⟨base, afterBase, hbase, h⟩ := hword.bind h
  cases base with
  | none =>
      obtain ⟨rfl, rfl⟩ := pure_eq_ok.mp h
      exact hbase.none
  | some base =>
      obtain ⟨rfl, rfl⟩ := pure_eq_ok.mp h
      exact ⟨by simpa [typeNode, bare, Node.tokens, tokensOf] using hbase.reads, base,
        hbase.accepted base rfl, rfl⟩

/-- A shape of a list is a shape of a longer one. -/
theorem stem_forms_subset {stems larger : List Stem} (h : stems ⊆ larger) :
    (Symbol.stem stems place).forms extended ⊆ (Symbol.stem larger place).forms extended := by
  intro form hform
  obtain ⟨stem, hstem, hform⟩ := List.mem_flatMap.mp hform
  exact List.mem_flatMap.mpr ⟨stem, h hstem, hform⟩

theorem found_primitiveType (extended : Bool) {found : Option Node}
    (h : primitiveType scope cursor = .ok found moved) :
    Found scope (Conforms extended
      { symbol := .stem [.integer, .float, .keyword] none, mode := .never }) cursor found moved := by
  refine found_either h (fun _ _ hinteger => ?_) fun _ _ _ hrest =>
    found_either hrest (fun _ _ hdecimal => ?_) fun _ _ _ hkeyword => ?_
  · exact (found_integerType extended hinteger).imp fun node hnode =>
      hnode.of_subset (stem_forms_subset (by simp))
  · exact (found_decimalType extended hdecimal).imp fun node hnode =>
      hnode.of_subset (stem_forms_subset (by simp))
  · refine (found_oneWord (oneOf_inline? _) hkeyword).imp ?_
    rintro node ⟨base, hbase, rfl⟩
    exact conforms_stem .keyword (by simp) List.mem_cons_self (.token hbase .nil)

theorem oneOf_typeName :
    OneOf (.typeName fun _ => true)
      (either (ofKind? [.identifier]) (inline? (Keyword.stringTypes ++ Keyword.typeNames))) :=
  oneOf_name _

theorem found_namedType (extended : Bool) {found : Option Node}
    (h : namedType scope cursor = .ok found moved) :
    Found scope (Conforms extended { symbol := .stem [.name, .any] none, mode := .never }) cursor
      found moved := by
  obtain ⟨base, afterBase, hbase, h⟩ := oneOf_typeName.bind h
  cases base with
  | none =>
      obtain ⟨rfl, rfl⟩ := pure_eq_ok.mp h
      exact hbase.none
  | some base =>
      obtain ⟨next, hnext, h⟩ := nextIs_bind.mp h
      obtain ⟨-, h⟩ := refuse_bind.mp h
      obtain ⟨rfl, rfl⟩ := pure_eq_ok.mp h
      refine ⟨by simpa [typeNode, bare, Node.tokens, tokensOf] using hbase.reads, ?_⟩
      obtain ⟨hword, -⟩ := accepts_typeName.mp (hbase.accepted base rfl)
      cases hany : Terminal.isAny base.text with
      | true =>
          exact conforms_stem .any (by simp) List.mem_cons_self
            (.token (accepts_typeName.mpr ⟨hword, hany⟩) .nil)
      | false =>
          exact conforms_stem .name (by simp) List.mem_cons_self
            (.token (accepts_typeName.mpr ⟨hword, by simp [hany]⟩) .nil)

/-! ## Generic types -/

theorem conforms_recordKey {key : Token}
    (hkey : Terminal.accepts { words := Keyword.stringTypes } key = true) :
    Conforms extended { symbol := .recordKey place, mode := .never }
      (typeNode place [.token .base key]) :=
  .of_form _ (List.mem_singleton_self _) rfl
    (.node (conforms_noAttributes (by simp)) (.token hkey .nil))

/-- The types between the brackets fill the slots that the generic has for them. -/
theorem reads_genericArguments (hnested : Sound extended scope nested) {generic : String}
    {subtypes : List Node}
    (h : genericArguments nested place generic scope cursor = .ok subtypes moved) :
    Reads scope cursor moved (subtypes.flatMap Node.tokens) ∧
      (generic = "Promise" ∧ Fits (Conforms extended) [.node .subtype
          { symbol := .returnType (returnPlaceOf place) .all, mode := .never }]
          (Part.ofNodes .subtype subtypes) ∨
        generic = "record" ∧ Fits (Conforms extended) [.node .subtype
          { symbol := .recordKey place, mode := .never, separator := some "," },
          .node .subtype { symbol := .type place .all }] (Part.ofNodes .subtype subtypes) ∨
        generic ≠ "Promise" ∧ generic ≠ "record" ∧ Fits (Conforms extended)
          [.node .subtype { symbol := .type place .all }] (Part.ofNodes .subtype subtypes)) := by
  unfold genericArguments at h
  split at h
  · -- a promise of what a function returns
    obtain ⟨next, hnext, h⟩ := nextIs_bind.mp h
    obtain ⟨-, h⟩ := refuse_bind.mp h
    obtain ⟨type, middle, htype, h⟩ := Parser.expect_bind.mp h
    obtain ⟨rfl, rfl⟩ := pure_eq_ok.mp h
    obtain ⟨hreads, htype⟩ := hnested.found htype
    exact ⟨by simpa using hreads, Or.inl ⟨rfl, .node htype .nil⟩⟩
  · -- a record: the comma becomes the separator of the key
    obtain ⟨next, hnext, h⟩ := nextIs_bind.mp h
    obtain ⟨-, h⟩ := refuse_bind.mp h
    obtain ⟨key, afterKey, hkey, hstring, h⟩ := (oneOf_inline? _).expect_bind h
    obtain ⟨comma, afterComma, hcomma, hseparator, h⟩ := (oneOf_inline? _).expect_bind h
    obtain ⟨value, middle, hvalue, h⟩ := Parser.expect_bind.mp h
    obtain ⟨rfl, rfl⟩ := pure_eq_ok.mp h
    obtain ⟨hreads, hvalue⟩ := hnested.found hvalue
    refine ⟨by simpa [typeNode, bare, Node.tokens, tokensOf] using
      (hkey.trans hcomma).trans hreads, Or.inr (Or.inl ⟨rfl, ?_⟩)⟩
    exact .node ((conforms_recordKey hstring).withSeparator hseparator) (.node hvalue .nil)
  · rename_i hpromise hrecord
    obtain ⟨type, middle, htype, h⟩ := Parser.expect_bind.mp h
    obtain ⟨rfl, rfl⟩ := pure_eq_ok.mp h
    obtain ⟨hreads, htype⟩ := hnested.found htype
    exact ⟨by simpa using hreads, Or.inr (Or.inr ⟨hpromise, hrecord, .node htype .nil⟩)⟩

theorem found_genericType (hnested : Sound extended scope nested) {found : Option Node}
    (h : genericType nested place scope cursor = .ok found moved) :
    Found scope (Conforms extended
      { symbol := .stem [.collection, .promise, .record] place, mode := .never }) cursor
      found moved := by
  obtain ⟨base, afterBase, hbase, h⟩ := (oneOf_inline? _).bind h
  cases base with
  | none =>
      obtain ⟨rfl, rfl⟩ := pure_eq_ok.mp h
      exact hbase.none
  | some base =>
      obtain ⟨opening, afterOpening, hopening, hopened, h⟩ := (oneOf_inline? _).expect_bind h
      obtain ⟨subtypes, afterSubtypes, hsubtypes, h⟩ := bind_eq_ok.mp h
      obtain ⟨hreads, hsubtypes⟩ := reads_genericArguments hnested hsubtypes
      obtain ⟨closing, _, hclosing, hclosed, h⟩ := (oneOf_inline? _).expect_bind h
      obtain ⟨rfl, rfl⟩ := pure_eq_ok.mp h
      refine ⟨by simpa [typeNode, bare, Node.tokens, tokensOf] using
        ((hbase.reads.trans hopening).trans hreads).trans hclosing, ?_⟩
      obtain ⟨hkind, htext⟩ := accepts_words.mp (hbase.accepted base rfl)
      have htail : Fits (Conforms extended) [.word .closing ">"] [.token .closing closing] :=
        .token hclosed .nil
      -- the word read in front decides between the three stems
      rcases hsubtypes with ⟨hpromise, hfits⟩ | ⟨hrecord, hfits⟩ | ⟨hpromise, hrecord, hfits⟩
      · exact conforms_stem .promise (by simp) List.mem_cons_self
          (.token (accepts_word.mpr ⟨hkind, hpromise⟩) (.token hopened
            (fits_append.mpr ⟨_, _, rfl, hfits, htail⟩)))
      · exact conforms_stem .record (by simp) List.mem_cons_self
          (.token (accepts_word.mpr ⟨hkind, hrecord⟩) (.token hopened
            (fits_append.mpr ⟨_, _, rfl, hfits, htail⟩)))
      · have hcollection : base.text ∈ ["FrozenArray", "ObservableArray", "sequence"] := by
          simpa [hpromise, hrecord] using htext
        exact conforms_stem .collection (by simp) List.mem_cons_self
          (.token (accepts_words.mpr ⟨hkind, hcollection⟩) (.token hopened
            (fits_append.mpr ⟨_, _, rfl, hfits, htail⟩)))

/-! ## Types that are no unions -/

@[simp] theorem tokens_withNullable (mark : Option Token) (node : Node) :
    (withNullable mark node).tokens = node.tokens ++ mark.toList := by
  obtain ⟨label, parts⟩ := node
  simp [withNullable, Node.tokens]

/-- A type that has neither attributes nor a question mark. -/
theorem unmarked_eq (label : Label) (parts : List Part) :
    Node.mk label (bare :: parts) = .mk label
      (.node .attributes Node.noAttributes :: (parts ++ Part.ofToken? .nullable none)) := by
  simp [bare, Part.ofToken?]

/-- A shape of a type with its place and its question mark. -/
theorem conforms_withNullable {stems : List Stem} {inner : Option String} {type : Node}
    {mark : Option Token} (hstems : stems ⊆ Limit.stems extended .all)
    (hinner : inner = place ∨ stems ⊆ [.integer, .float, .keyword, .name, .any, .union, .utf8Record])
    (htype : Conforms extended { symbol := .stem stems inner, mode := .never } type)
    (hmark : ∀ token ∈ mark, (Terminal.word "?").accepts token = true)
    (hpromise : mark.isSome → type.applies "Promise" = .ok false)
    (hany : mark.isSome → type.typeName ≠ "any") :
    Conforms extended { symbol := .type place .all, mode := .never }
      (withNullable mark (type.withPlace place)) := by
  obtain ⟨stem, hstem, slots, hslots, parts, rfl, hparts⟩ := conforms_stem_iff.mp htype
  have hplaced : slots ∈ stem.slots place .all := by
    rcases hinner with rfl | hsimple
    · exact hslots
    · rwa [Stem.slots_eq_of_simple (hsimple hstem)] at hslots
  obtain ⟨hgeneric, hname⟩ := applies_typeName_of_fits hslots hparts (unmarked_eq _ parts)
  refine conforms_type_iff.mpr ⟨stem, hstems hstem, slots, hplaced, Node.noAttributes, parts, mark,
    ?_, conforms_noAttributes (by simp), hparts, hmark, fun hsome => ?_⟩
  · have hisType : stem.construct.isType = true := by cases stem <;> rfl
    simp [Node.withPlace, withNullable, hisType, bare]
  · have hnotPromise : stem ≠ .promise := by simpa using hgeneric.symm.trans (hpromise hsome)
    have hnotAny : stem ≠ .any := fun h => hany hsome (hname.mpr h)
    cases stem <;> first | rfl | contradiction

/-- What comes before the question mark: a generic, a primitive type or a name. -/
theorem found_plainType (hnested : Sound extended scope nested) {found : Option Node}
    (h : either (genericType nested place) (either primitiveType namedType) scope cursor =
      .ok found moved) :
    Found scope (fun type => ∃ stems inner, stems ⊆ Limit.stems extended .all ∧
      (inner = place ∨
        stems ⊆ [.integer, .float, .keyword, .name, .any, .union, .utf8Record]) ∧
      Conforms extended { symbol := .stem stems inner, mode := .never } type) cursor
      found moved := by
  refine found_either h (fun _ _ hgeneric => ?_) fun _ _ _ hrest =>
    found_either hrest (fun _ _ hprimitive => ?_) fun _ _ _ hnamed => ?_
  · exact (found_genericType hnested hgeneric).imp fun node hnode =>
      ⟨_, _, by simp [Limit.stems], Or.inl rfl, hnode⟩
  · exact (found_primitiveType extended hprimitive).imp fun node hnode =>
      ⟨_, _, by simp [Limit.stems], Or.inr (by simp), hnode⟩
  · exact (found_namedType extended hnamed).imp fun node hnode =>
      ⟨_, _, by simp [Limit.stems], Or.inr (by simp), hnode⟩

/-- What comes before the question mark says whether it is a promise. -/
theorem exists_applies_of_plainType (hnested : Sound extended scope nested) {type : Node}
    (h : either (genericType nested place) (either primitiveType namedType) scope cursor =
      .ok (some type) moved) : ∃ answer, type.applies "Promise" = .ok answer := by
  obtain ⟨-, stems, inner, -, -, hconforms⟩ := found_plainType hnested h
  obtain ⟨stem, -, slots, hslots, parts, rfl, hparts⟩ := conforms_stem_iff.mp hconforms
  exact ⟨_, (applies_typeName_of_fits hslots hparts (unmarked_eq _ parts)).1⟩

/-- Every type says whether it is a promise. -/
theorem exists_applies_of_conforms {limit : Limit} {mode : Mode} {type : Node}
    (h : Conforms extended { symbol := .type place limit, mode } type) :
    ∃ answer, type.applies "Promise" = .ok answer := by
  obtain ⟨stem, -, slots, hslots, attributes, parts, mark, hnode, -, hparts, -⟩ :=
    conforms_type_iff.mp h
  exact ⟨_, (applies_typeName_of_fits hslots hparts hnode).1⟩

/-- A type of one limit is one of another, if its shapes are among the other's. -/
theorem conforms_type_of_stems {limit larger : Limit} {mode : Mode} {node : Node}
    (hlimit : limit ≠ .guarded) (hlarger : larger ≠ .guarded)
    (h : Conforms extended { symbol := .type place limit, mode } node)
    (hstems : ∀ stem ∈ limit.stems extended, stem ∈ larger.stems extended) :
    Conforms extended { symbol := .type place larger, mode } node := by
  obtain ⟨stem, hstem, slots, hslots, rest⟩ := conforms_type_iff.mp h
  rw [Stem.slots_eq_of_ne_guarded hlimit, ← Stem.slots_eq_of_ne_guarded hlarger] at hslots
  exact conforms_type_iff.mpr ⟨stem, hstems stem hstem, slots, hslots, rest⟩

/-- A record with `UTF8String` keys has its form in every place. -/
theorem conforms_utf8Record_withPlace {inner : Option String} {node : Node}
    (h : Conforms extended { symbol := .type inner .utf8Record, mode := .never } node) :
    Conforms extended { symbol := .type place .utf8Record, mode := .never }
      (node.withPlace place) := by
  obtain ⟨stem, hstem, slots, hslots, attributes, parts, mark, rfl, hrest⟩ :=
    conforms_type_iff.mp h
  obtain rfl := List.mem_singleton.mp hstem
  rw [Stem.slots_eq_of_simple (by simp)] at hslots
  exact conforms_type_iff.mpr ⟨.utf8Record, List.mem_singleton_self _, slots, hslots, attributes,
    parts, mark, rfl, hrest⟩

theorem found_singleType (hnested : Sound extended scope nested) {found : Option Node}
    (h : singleType nested place scope cursor = .ok found moved) :
    Found scope (Conforms extended { symbol := .type place .all, mode := .never }) cursor
      found moved := by
  obtain ⟨custom, afterCustom, hcustom, h⟩ := bind_eq_ok.mp (extensions_bind.mp h)
  rw [hnested.extensions_eq] at hcustom
  -- productions of extensions come before those of the language
  rcases firstMatch_eq_ok hcustom with ⟨rfl, hposition, -⟩ |
    ⟨front, production, back, node, start, stop, hsplit, -, hstart, hnode, rfl, hstop⟩
  · obtain ⟨type, afterType, htype, h⟩ := bind_eq_ok.mp h
    have hfound := (found_plainType hnested htype).congr hposition.symm rfl
    cases type with
    | none =>
        obtain ⟨rfl, rfl⟩ := pure_eq_ok.mp h
        exact hfound
    | some type =>
        obtain ⟨hreads, stems, inner, hstems, hinner, hconforms⟩ := hfound
        obtain ⟨isPromise, happlies, h⟩ := present_bind.mp h
        obtain ⟨next, hnext, h⟩ := nextIs_bind.mp h
        obtain ⟨hpromise, h⟩ := refuse_bind.mp h
        obtain ⟨mark, afterMark, hmark, h⟩ := bind_eq_ok.mp h
        have hmark := takes_nullableMark hmark
        obtain ⟨hany, h⟩ := refuse_bind.mp h
        obtain ⟨rfl, rfl⟩ := pure_eq_ok.mp h
        -- a mark is refused behind a promise and behind `any`
        refine ⟨by simpa using hreads.trans hmark.reads, conforms_withNullable hstems hinner
          hconforms hmark.accepted (fun hsome => ?_) (fun hsome => ?_)⟩
        · obtain ⟨token, rfl⟩ := Option.isSome_iff_exists.mp hsome
          obtain rfl : next = token := by simpa [hnext] using hmark.head?_eq
          have hinline : next.isInline "?" = true := by
            simpa [Token.isInline] using accepts_word.mp (hmark.accepted next rfl)
          simpa [happlies, hinline] using hpromise
        · simpa [hsome] using hany
  · obtain ⟨rfl, rfl⟩ := pure_eq_ok.mp h
    cases extended with
    | false => exact absurd hsplit (by simp [extensionsOf])
    | true =>
        have hmem : production ∈ [Production.utf8StringRecord] := by
          have hmem : production ∈ (extensionsOf true).types := by simp [hsplit]
          exact hmem
        obtain rfl := List.mem_singleton.mp hmem
        obtain ⟨hreads, hconforms⟩ := hnested.found hnode
        refine ⟨by simpa using hreads.congr hstart.symm hstop, ?_⟩
        refine conforms_type_of_stems (by simp) (by simp) (conforms_utf8Record_withPlace hconforms) ?_
        simp [Limit.stems]

/-! ## Unions -/

/-- A type that is neither `any` nor a promise may be a member of a union. -/
theorem conforms_unionMember {mode : Mode} {type : Node}
    (h : Conforms extended { symbol := .type place .all, mode } type)
    (hany : type.typeName ≠ "any") (hpromise : type.applies "Promise" = .ok false) :
    Conforms extended { symbol := .type place .unionMember, mode } type := by
  obtain ⟨stem, hstem, slots, hslots, attributes, parts, mark, hnode, hattributes, hparts, hrest⟩ :=
    conforms_type_iff.mp h
  obtain ⟨hgeneric, hname⟩ := applies_typeName_of_fits hslots hparts hnode
  have hmember : stem ∈ Limit.stems extended .unionMember := by
    have hnotPromise : stem ≠ .promise := by simpa using hgeneric.symm.trans hpromise
    have hnotAny : stem ≠ .any := fun h => hany (hname.mpr h)
    cases extended <;> simp_all [Limit.stems]
  have hslots : slots ∈ stem.slots place .unionMember := by
    rwa [Stem.slots_eq_of_ne_guarded (by simp)]
  exact conforms_type_iff.mpr ⟨stem, hmember, slots, hslots, attributes, parts, mark, hnode,
    hattributes, hparts, hrest⟩

theorem reads_unionMembers (hnested : Sound extended scope nested) {fuel : Nat}
    {members : List Node} (h : unionMembers nested fuel scope cursor = .ok members moved) :
    Reads scope cursor moved (members.flatMap Node.tokens) ∧
      Items (Conforms extended) members { symbol := .type none .unionMember } "or" false ∧
      members ≠ [] := by
  induction fuel generalizing cursor members with
  | zero => exact absurd h exhausted_ne_ok
  | succ fuel ih =>
      obtain ⟨type, afterType, htype, h⟩ := Parser.expect_bind.mp h
      obtain ⟨hreads, htype⟩ := hnested.found htype
      obtain ⟨hany, h⟩ := refuse_bind.mp h
      obtain ⟨isPromise, happlies, h⟩ := present_bind.mp h
      obtain ⟨rfl, h⟩ := refuse_bind.mp h
      have hmember := conforms_unionMember htype (by simpa using hany) happlies
      obtain ⟨separator, afterSeparator, hseparator, h⟩ := (oneOf_inline? _).bind h
      cases separator with
      | none =>
          obtain ⟨rfl, rfl⟩ := pure_eq_ok.mp h
          refine ⟨?_, .last hmember, by simp⟩
          simpa using hreads.congr rfl hseparator.none
      | some separator =>
          obtain ⟨others, _, hothers, h⟩ := bind_eq_ok.mp h
          obtain ⟨rfl, rfl⟩ := pure_eq_ok.mp h
          obtain ⟨hrest, hitems, hsome⟩ := ih hothers
          refine ⟨?_, .cons (hmember.withSeparator (hseparator.accepted separator rfl))
            (fun h => absurd h hsome) hitems, by simp⟩
          simpa using (hreads.trans hseparator.reads).trans hrest

theorem found_unionType (hnested : Sound extended scope nested) {found : Option Node}
    (h : unionType nested place scope cursor = .ok found moved) :
    Found scope (Conforms extended { symbol := .type place .all, mode := .never }) cursor
      found moved := by
  obtain ⟨opening, afterOpening, hopening, h⟩ := (oneOf_inline? _).bind h
  cases opening with
  | none =>
      obtain ⟨rfl, rfl⟩ := pure_eq_ok.mp h
      exact hopening.none
  | some opening =>
      obtain ⟨members, afterMembers, hmembers, h⟩ := bind_eq_ok.mp (size_bind.mp h)
      obtain ⟨hreads, hitems, -⟩ := reads_unionMembers hnested hmembers
      obtain ⟨hlength, h⟩ := refuse_bind.mp h
      obtain ⟨closing, afterClosing, hclosing, hclosed, h⟩ := (oneOf_inline? _).expect_bind h
      obtain ⟨mark, afterMark, hmark, h⟩ := bind_eq_ok.mp h
      have hmark := takes_nullableMark hmark
      obtain ⟨rfl, rfl⟩ := pure_eq_ok.mp h
      refine ⟨by simpa [bare, Node.tokens, tokensOf] using
        ((hopening.reads.trans hreads).trans hclosing).trans hmark.reads, ?_⟩
      refine conforms_type_iff.mpr ⟨.union, by simp [Limit.stems], _, List.mem_cons_self,
        Node.noAttributes, .token .opening opening :: (Part.ofNodes .subtype members ++
          [.token .closing closing]), mark, rfl, conforms_noAttributes (by simp), ?_,
        hmark.accepted, fun _ => rfl⟩
      exact .token (hopening.accepted opening rfl) (.list hitems
        (Nat.le_of_not_lt (of_decide_eq_false hlength)) (.token hclosed .nil))

/-! ## Types of every shape -/

theorem found_type (hnested : Sound extended scope nested) {found : Option Node}
    (h : type nested place scope cursor = .ok found moved) :
    Found scope (Conforms extended { symbol := .type place .all, mode := .never }) cursor
      found moved :=
  found_either h (fun _ _ => found_singleType hnested) fun _ _ _ => found_unionType hnested

theorem found_attributedType (hnested : Sound extended scope nested) {found : Option Node}
    (h : attributedType nested place scope cursor = .ok found moved) :
    Found scope (Conforms extended { symbol := .type place .all }) cursor found moved := by
  refine found_rewinding h fun node hnode => ?_
  obtain ⟨attributes, afterAttributes, hattributes, hnode⟩ := bind_eq_ok.mp hnode
  obtain ⟨hreads, hattributes, -⟩ := reads_extendedAttributes hnested hattributes
  obtain ⟨found, _, htype, hnode⟩ := bind_eq_ok.mp hnode
  have htype := found_type hnested htype
  cases found with
  | none => exact absurd (pure_eq_ok.mp hnode).1 (by simp)
  | some type =>
      obtain ⟨hsome, rfl⟩ := pure_eq_ok.mp hnode
      obtain rfl := Option.some.inj hsome
      obtain ⟨hrest, hconforms⟩ := htype
      refine ⟨?_, hconforms.withAttributes (attributed_type _ _) (conforms_attributes hattributes)⟩
      rw [hconforms.tokens_withAttributes (attributed_type _ _)]
      exact hreads.trans hrest

theorem returnPlaceOf_some {given : String} (h : given ≠ "") :
    returnPlaceOf (some given) = some given := by
  unfold returnPlaceOf
  split
  · contradiction
  · rename_i heq
    exact absurd (Option.some.inj heq) h
  · rename_i heq
    exact heq.symm

/-- The type that is returned has its place from outside, or a place of its own. -/
theorem returnType_eq (nested : Production → Parser (Option Node)) (place : Option String) :
    returnType nested place = either (type nested (returnPlaceOf place)) (do
      let some void ← inline? ["void"] | return none
      return some (typeNode (some returnPlace) [.token .base void])) := by
  unfold returnType
  split
  · rfl
  · rfl
  · rename_i given hgiven
    exact congrArg (fun inner => either (type nested inner) (do
      let some void ← inline? ["void"] | return none
      return some (typeNode (some returnPlace) [.token .base void])))
      (returnPlaceOf_some hgiven).symm

theorem found_returnType (hnested : Sound extended scope nested) {found : Option Node}
    (h : returnType nested place scope cursor = .ok found moved) :
    Found scope
      (Conforms extended { symbol := .returnType (returnPlaceOf place) .all, mode := .never })
      cursor found moved := by
  rw [returnType_eq] at h
  refine found_either h (fun _ _ htype => ?_) fun _ _ _ hvoid => ?_
  · exact (found_type hnested htype).imp fun node hnode =>
      hnode.of_subset (List.subset_append_left _ _)
  · obtain ⟨base, afterBase, hbase, hvoid⟩ := (oneOf_inline? _).bind hvoid
    cases base with
    | none =>
        obtain ⟨rfl, rfl⟩ := pure_eq_ok.mp hvoid
        exact hbase.none
    | some base =>
        obtain ⟨rfl, rfl⟩ := pure_eq_ok.mp hvoid
        refine ⟨by simpa [typeNode, bare, Node.tokens, tokensOf] using hbase.reads, ?_⟩
        exact .of_form voidForm (List.mem_append_right _ (List.mem_singleton_self _)) rfl
          (.node (conforms_noAttributes (by simp)) (.token (hbase.accepted base rfl) .nil))

end

end WebIdl.Grammar
