import WebIdl.Proofs.Complete.Attributes

/-!
# The type productions find every type

A type is found by its shape.  The productions that are tried before the right one decline at the
first word of the type, except for records, where the key decides.
-/

namespace WebIdl.Grammar

open WebIdl.Parser WebIdl.Shape

section

variable {extended : Bool} {scope : Scope} {depth : Nat}
  {nested : Production → Parser (Option Node)} {node : Node} {next : Token} {more : List Token}

/-! ## Simple types -/

theorem yields_nullableMark {mark : Option Token}
    (hmark : ∀ token ∈ mark, (Terminal.word "?").accepts token = true)
    (hnext : (Terminal.word "?").accepts next = false) :
    Yields scope nullableMark (mark.toList ++ next :: more) mark (next :: more) := by
  refine (oneOf_inline? _).yields_option_bind hmark (fun _ => ⟨next, more, rfl, hnext⟩) ?_
  refine yields_nextIs_bind (yields_refuse_bind ?_ (yields_pure mark))
  rwa [isInline_eq]

/-- A simple type of the given shape, as it is found by its words. -/
theorem yields_integerType {parts : List Part} {slots : List Slot} {place : Option String}
    (hslots : slots ∈ Stem.integer.slots place .all) (hparts : Fits (Conforms extended) slots parts)
    (hnext : isSingleLong (typeNode none parts) = true → next.isInline "long" = false) :
    Yields scope integerType (tokensOf parts ++ next :: more) (some (typeNode none parts))
      (next :: more) := by
  simp only [Stem.slots, List.mem_cons, List.not_mem_nil, or_false] at hslots
  rcases hslots with rfl | rfl
  · -- `short`
    obtain ⟨sign, rest, rfl, hsign, hrest⟩ := fits_option.mp hparts
    obtain ⟨base, rest, rfl, hbase, hrest⟩ := fits_token.mp hrest
    obtain rfl := fits_nil.mp hrest
    simp only [tokensOf_append, tokensOf_ofToken?, tokensOf, List.append_assoc, List.cons_append,
      List.nil_append]
    refine (oneOf_inline? _).yields_option_bind hsign
      (fun _ => ⟨base, _, rfl, Terminal.rejects_of_avoids rfl hbase⟩) ?_
    refine (oneOf_inline? _).yields_bind (accepts_words.mpr ?_) ?_
    · obtain ⟨hkind, htext⟩ := accepts_word.mp hbase
      exact ⟨hkind, by simp [htext]⟩
    · refine (yields_when?_false ?_).bind (yields_pure _)
      simp [(accepts_word.mp hbase).2]
  · -- `long`, which may be doubled
    obtain ⟨sign, rest, rfl, hsign, hrest⟩ := fits_option.mp hparts
    obtain ⟨base, rest, rfl, hbase, hrest⟩ := fits_token.mp hrest
    obtain ⟨doubling, rest, rfl, hdoubling, hrest⟩ := fits_option.mp hrest
    obtain rfl := fits_nil.mp hrest
    simp only [tokensOf_append, tokensOf_ofToken?, tokensOf, List.append_assoc, List.cons_append,
      List.append_nil]
    refine (oneOf_inline? _).yields_option_bind hsign
      (fun _ => ⟨base, _, rfl, Terminal.rejects_of_avoids rfl hbase⟩) ?_
    refine (oneOf_inline? _).yields_bind (accepts_words.mpr ?_) ?_
    · obtain ⟨hkind, htext⟩ := accepts_word.mp hbase
      exact ⟨hkind, by simp [htext]⟩
    · have hlong : (base.text == "long") = true := by simp [(accepts_word.mp hbase).2]
      cases doubling with
      | some doubling =>
          exact (((oneOf_inline? _).yields_some (hdoubling doubling rfl)).when? hlong).bind
            (yields_pure _)
      | none =>
          -- a single `long` must not be followed by another, which would be read with it
          have hsingle : (Terminal.word "long").accepts next = false := by
            rw [← isInline_eq]
            refine hnext ?_
            simp [isSingleLong, typeNode, bare, Node.has, Token.isInline, accepts_word.mp hbase]
          exact (((oneOf_inline? _).yields_none hsingle).when? hlong).bind (yields_pure _)

theorem yields_decimalType {parts : List Part} {slots : List Slot} {place : Option String}
    (hslots : slots ∈ Stem.float.slots place .all)
    (hparts : Fits (Conforms extended) slots parts) :
    Yields scope decimalType (tokensOf parts ++ more) (some (typeNode none parts)) more := by
  obtain rfl := List.mem_singleton.mp hslots
  obtain ⟨sign, rest, rfl, hsign, hrest⟩ := fits_option.mp hparts
  obtain ⟨base, rest, rfl, hbase, hrest⟩ := fits_token.mp hrest
  obtain rfl := fits_nil.mp hrest
  simp only [tokensOf_append, tokensOf_ofToken?, tokensOf, List.append_assoc, List.cons_append,
    List.nil_append]
  refine (oneOf_inline? _).yields_option_bind hsign
    (fun _ => ⟨base, _, rfl, Terminal.rejects_of_avoids rfl hbase⟩) ?_
  exact (oneOf_inline? _).yields_bind hbase (yields_pure _)

theorem yields_integerType_none {token : Token}
    (h : Terminal.accepts { words := ["unsigned", "short", "long"] } token = false) :
    Yields scope integerType (token :: more) none (token :: more) := by
  refine (oneOf_inline? _).yields_bind_none (Terminal.rejects_of_within h rfl) ?_
  exact (oneOf_inline? _).yields_bind_none (Terminal.rejects_of_within h rfl)
    (yields_refuse_bind rfl (yields_pure none))

theorem yields_decimalType_none {token : Token}
    (h : Terminal.accepts { words := ["unrestricted", "float", "double"] } token = false) :
    Yields scope decimalType (token :: more) none (token :: more) := by
  refine (oneOf_inline? _).yields_bind_none (Terminal.rejects_of_within h rfl) ?_
  exact (oneOf_inline? _).yields_bind_none (Terminal.rejects_of_within h rfl)
    (yields_refuse_bind rfl (yields_pure none))

theorem yields_oneWord {terminal : Terminal} {word : Parser (Option Token)}
    (hword : OneOf terminal word) {base : Token} (hbase : terminal.accepts base = true) :
    Yields scope (oneWord word) (base :: more) (some (typeNode none [.token .base base])) more :=
  hword.yields_bind hbase (yields_pure _)

/-- A parser declines where the tokens begin with none of those that it looks for. -/
theorem Begins.yields_none {parser : Parser (Option Node)} {terminal starts : Terminal}
    {tokens : List Token} (hbegins : Begins terminal tokens) (havoids : terminal.avoids starts = true)
    (h : ∀ {token more}, starts.accepts token = false →
      Yields scope parser (token :: more) none (token :: more)) (more : List Token) :
    Yields scope parser (tokens ++ more) none (tokens ++ more) := by
  obtain ⟨token, rest, rfl, htoken⟩ := hbegins
  exact h (Terminal.rejects_of_avoids havoids htoken)

/-- The words that primitive types begin with. -/
def primitiveWords : List String :=
  ["unsigned", "short", "long", "unrestricted", "float", "double", "bigint", "boolean", "byte",
    "octet", "undefined"]

theorem yields_primitiveType {stem : Stem} {parts : List Part} {slots : List Slot}
    {place : Option String} (hstem : stem ∈ [.integer, .float, .keyword])
    (hslots : slots ∈ stem.slots place .all) (hparts : Fits (Conforms extended) slots parts)
    (hnext : isSingleLong (typeNode none parts) = true → next.isInline "long" = false) :
    Yields scope primitiveType (tokensOf parts ++ next :: more) (some (typeNode none parts))
      (next :: more) := by
  simp only [List.mem_cons, List.not_mem_nil, or_false] at hstem
  rcases hstem with rfl | rfl | rfl
  · exact (yields_integerType hslots hparts hnext).either_left
  · have hbegins : Begins { words := ["unrestricted", "float", "double"] } (tokensOf parts) := by
      obtain rfl := List.mem_singleton.mp hslots
      exact hparts.begins (fun hconforms => hconforms.begins_heads) rfl
    exact (Begins.yields_none hbegins rfl yields_integerType_none _).either_right
      (yields_decimalType hslots hparts).either_left
  · obtain rfl := List.mem_singleton.mp hslots
    obtain ⟨base, rest, rfl, hbase, hrest⟩ := fits_token.mp hparts
    obtain rfl := fits_nil.mp hrest
    refine (yields_integerType_none (Terminal.rejects_of_avoids rfl hbase)).either_right ?_
    refine (yields_decimalType_none (Terminal.rejects_of_avoids rfl hbase)).either_right ?_
    exact yields_oneWord (oneOf_inline? _) hbase

theorem yields_primitiveType_none {token : Token}
    (h : Terminal.accepts { words := primitiveWords } token = false) :
    Yields scope primitiveType (token :: more) none (token :: more) := by
  refine (yields_integerType_none (Terminal.rejects_of_within h rfl)).either_right ?_
  refine (yields_decimalType_none (Terminal.rejects_of_within h rfl)).either_right ?_
  exact (oneOf_inline? _).yields_bind_none (Terminal.rejects_of_within h rfl) (yields_pure none)

theorem yields_namedType {base : Token} {spelling : String → Bool}
    (hbase : (Terminal.typeName spelling).accepts base = true)
    (hnext : next.isInline "<" = false) :
    Yields scope namedType (base :: next :: more) (some (typeNode none [.token .base base]))
      (next :: more) := by
  refine oneOf_typeName.yields_bind (Terminal.accepts_of_within rfl hbase) ?_
  exact yields_nextIs_bind (yields_refuse_bind hnext (yields_pure _))

theorem yields_namedType_none {token : Token}
    (h : (Terminal.typeName fun _ => true).accepts token = false) :
    Yields scope namedType (token :: more) none (token :: more) :=
  oneOf_typeName.yields_bind_none h (yields_pure none)

/-! ## Generic types -/

/-- The words that generic types begin with. -/
def genericWords : List String :=
  ["FrozenArray", "ObservableArray", "Promise", "sequence", "record"]

theorem yields_genericType_none {place : Option String} {token : Token}
    (h : Terminal.accepts { words := genericWords } token = false) :
    Yields scope (genericType nested place) (token :: more) none (token :: more) :=
  (oneOf_inline? _).yields_bind_none h (yields_pure none)

theorem genericArguments_eq {place : Option String} {generic : String}
    (hpromise : generic ≠ "Promise") (hrecord : generic ≠ "record") :
    genericArguments nested place generic = (do
      return [← expect (nested (.attributedType place)) (.noSubtype generic)]) := by
  unfold genericArguments
  split
  · exact absurd rfl hpromise
  · exact absurd rfl hrecord
  · rfl

/-- The key of a record is one word. -/
theorem Conforms.split_recordKey {place : Option String} {key : Node}
    (h : Conforms extended { symbol := .recordKey place, mode := .never, separator := some "," }
      key) :
    ∃ base comma, key = (typeNode place [.token .base base]).withSeparator (some comma) ∧
      Terminal.accepts { words := Keyword.stringTypes } base = true ∧
      (Terminal.word ",").accepts comma = true := by
  obtain ⟨core, comma, rfl, hcomma, hcore⟩ := h.split_separator
  cases hcore with
  | mk hform hparts =>
      obtain rfl := List.mem_singleton.mp hform
      obtain ⟨attributes, rest, rfl, hattributes, hrest⟩ := fits_node.mp hparts
      obtain ⟨base, rest, rfl, hbase, hrest⟩ := fits_token.mp hrest
      obtain rfl := fits_nil.mp hrest
      obtain rfl := eq_noAttributes_of_conforms hattributes rfl
      exact ⟨base, comma, rfl, hbase, hcomma⟩

/-- A generic is found if its types are. -/
theorem yields_genericType_of_arguments {place : Option String} {base opening closing : Token}
    {input : List Token} {subtypes : List Node}
    (hbase : Terminal.accepts { words := genericWords } base = true)
    (hopening : (Terminal.word "<").accepts opening = true)
    (hclosing : (Terminal.word ">").accepts closing = true)
    (hsubtypes : Yields scope (genericArguments nested place base.text) input subtypes
      (closing :: more)) :
    Yields scope (genericType nested place) (base :: opening :: input)
      (some (typeNode place (.token .base base :: .token .opening opening ::
        Part.ofNodes .subtype subtypes ++ [.token .closing closing]))) more := by
  refine (oneOf_inline? _).yields_bind hbase ?_
  refine (oneOf_inline? _).yields_expect_bind hopening ?_
  refine hsubtypes.bind ?_
  exact (oneOf_inline? _).yields_expect_bind hclosing (yields_pure _)

theorem yields_collection (hcomplete : Complete extended scope depth nested)
    {place : Option String} {generic : String} {type : Node} {closing : Token}
    (hgeneric : generic ∈ ["FrozenArray", "ObservableArray", "sequence"])
    (htype : Conforms extended { symbol := .type place .all } type)
    (hdepth : 2 * type.tokens.length + 2 ≤ depth)
    (hclosing : (Terminal.word ">").accepts closing = true) :
    Yields scope (genericArguments nested place generic) (type.tokens ++ closing :: more) [type]
      (closing :: more) := by
  rw [genericArguments_eq (fun h => absurd (h ▸ hgeneric) (by decide))
    (fun h => absurd (h ▸ hgeneric) (by decide))]
  have hsubtype : Yields scope (nested (.attributedType place))
      (type.tokens ++ closing :: more) (some type) (closing :: more) :=
    hcomplete.yields trivial htype hdepth (Terminal.rejects_of_avoids rfl hclosing)
  exact (hsubtype.expect _).bind (yields_pure [type])

theorem yields_promise (hcomplete : Complete extended scope depth nested)
    {place : Option String} {type : Node} {closing : Token}
    (htype : Conforms extended { symbol := .returnType (returnPlaceOf place) .all, mode := .never }
      type)
    (hdepth : 2 * type.tokens.length + 2 ≤ depth)
    (hclosing : (Terminal.word ">").accepts closing = true) :
    Yields scope (genericArguments nested place "Promise") (type.tokens ++ closing :: more) [type]
      (closing :: more) := by
  have hsubtype : Yields scope (nested (.returnType place))
      (type.tokens ++ closing :: more) (some type) (closing :: more) :=
    hcomplete.yields trivial htype hdepth (Terminal.rejects_of_avoids rfl hclosing)
  -- The type is not behind attributes, since it begins with one of its own words.
  obtain ⟨terminal, hterminal, token, others, htokens, htoken⟩ := htype.begins_heads rfl
  have hbracket : token.isInline "[" = false := by
    rw [isInline_eq]
    simp only [List.mem_cons, List.not_mem_nil, or_false] at hterminal
    rcases hterminal with rfl | rfl <;> exact Terminal.rejects_of_avoids rfl htoken
  rw [htokens, List.cons_append] at hsubtype ⊢
  exact yields_nextIs_bind (yields_refuse_bind hbracket
    ((hsubtype.expect _).bind (yields_pure [type])))

theorem yields_record (hcomplete : Complete extended scope depth nested)
    {place : Option String} {type : Node} {word comma closing : Token}
    (hword : Terminal.accepts { words := Keyword.stringTypes } word = true)
    (hcomma : (Terminal.word ",").accepts comma = true)
    (htype : Conforms extended { symbol := .type place .all } type)
    (hdepth : 2 * type.tokens.length + 2 ≤ depth)
    (hclosing : (Terminal.word ">").accepts closing = true) :
    Yields scope (genericArguments nested place "record")
      (word :: comma :: (type.tokens ++ closing :: more))
      [(typeNode place [.token .base word]).withSeparator (some comma), type]
      (closing :: more) := by
  have hsubtype : Yields scope (nested (.attributedType place))
      (type.tokens ++ closing :: more) (some type) (closing :: more) :=
    hcomplete.yields trivial htype hdepth (Terminal.rejects_of_avoids rfl hclosing)
  have hbracket : word.isInline "[" = false := by
    rw [isInline_eq]
    exact Terminal.rejects_of_avoids rfl hword
  refine yields_nextIs_bind (yields_refuse_bind hbracket ?_)
  refine (oneOf_inline? _).yields_expect_bind hword ?_
  refine (oneOf_inline? _).yields_expect_bind hcomma ?_
  exact (hsubtype.expect _).bind (yields_pure _)

theorem yields_genericType (hcomplete : Complete extended scope depth nested) {stem : Stem}
    {parts : List Part} {slots : List Slot} {place : Option String}
    (hstem : stem ∈ [.collection, .promise, .record]) (hslots : slots ∈ stem.slots place .all)
    (hparts : Fits (Conforms extended) slots parts) (hdepth : 2 * (tokensOf parts).length ≤ depth) :
    Yields scope (genericType nested place) (tokensOf parts ++ more)
      (some (typeNode place parts)) more := by
  simp only [List.mem_cons, List.not_mem_nil, or_false] at hstem
  rcases hstem with rfl | rfl | rfl
  · -- arrays and sequences
    obtain rfl := List.mem_singleton.mp hslots
    obtain ⟨base, rest, rfl, hbase, hrest⟩ := fits_token.mp hparts
    obtain ⟨opening, rest, rfl, hopening, hrest⟩ := fits_token.mp hrest
    obtain ⟨type, rest, rfl, htype, hrest⟩ := fits_node.mp hrest
    obtain ⟨closing, rest, rfl, hclosing, hrest⟩ := fits_token.mp hrest
    obtain rfl := fits_nil.mp hrest
    simp only [tokensOf, List.length_cons, List.length_append, List.cons_append, List.append_assoc,
      List.nil_append] at hdepth ⊢
    exact yields_genericType_of_arguments (Terminal.accepts_of_within rfl hbase) hopening hclosing
      (yields_collection hcomplete (accepts_words.mp hbase).2 htype (by omega) hclosing)
  · -- promises, whose type takes no attributes
    obtain rfl := List.mem_singleton.mp hslots
    obtain ⟨base, rest, rfl, hbase, hrest⟩ := fits_token.mp hparts
    obtain ⟨opening, rest, rfl, hopening, hrest⟩ := fits_token.mp hrest
    obtain ⟨type, rest, rfl, htype, hrest⟩ := fits_node.mp hrest
    obtain ⟨closing, rest, rfl, hclosing, hrest⟩ := fits_token.mp hrest
    obtain rfl := fits_nil.mp hrest
    simp only [tokensOf, List.length_cons, List.length_append, List.cons_append, List.append_assoc,
      List.nil_append] at hdepth ⊢
    have harguments : Yields scope (genericArguments nested place base.text)
        (type.tokens ++ closing :: more) [type] (closing :: more) := by
      rw [(accepts_word.mp hbase).2]
      exact yields_promise hcomplete htype (by omega) hclosing
    exact yields_genericType_of_arguments (Terminal.accepts_of_within rfl hbase) hopening hclosing
      harguments
  · -- records: the comma is read behind the key and becomes its separator
    obtain rfl := List.mem_singleton.mp hslots
    obtain ⟨base, rest, rfl, hbase, hrest⟩ := fits_token.mp hparts
    obtain ⟨opening, rest, rfl, hopening, hrest⟩ := fits_token.mp hrest
    obtain ⟨key, rest, rfl, hkey, hrest⟩ := fits_node.mp hrest
    obtain ⟨type, rest, rfl, htype, hrest⟩ := fits_node.mp hrest
    obtain ⟨closing, rest, rfl, hclosing, hrest⟩ := fits_token.mp hrest
    obtain rfl := fits_nil.mp hrest
    obtain ⟨word, comma, rfl, hword, hcomma⟩ := Conforms.split_recordKey hkey
    have hkeyTokens : ((typeNode place [.token .base word]).withSeparator (some comma)).tokens =
        [word, comma] := by
      simp [typeNode, bare, Node.tokens, tokensOf]
    simp only [tokensOf, hkeyTokens, List.length_cons, List.length_append, List.cons_append,
      List.append_assoc, List.nil_append] at hdepth ⊢
    have harguments : Yields scope (genericArguments nested place base.text)
        (word :: comma :: (type.tokens ++ closing :: more))
        [(typeNode place [.token .base word]).withSeparator (some comma), type]
        (closing :: more) := by
      rw [(accepts_word.mp hbase).2]
      exact yields_record hcomplete hword hcomma htype (by omega) hclosing
    exact yields_genericType_of_arguments (Terminal.accepts_of_within rfl hbase) hopening hclosing
      harguments

/-! ## Types that are no unions -/

/-- What comes before the question mark, by its shape. -/
theorem yields_plainType (hcomplete : Complete extended scope depth nested) {stem : Stem}
    {parts : List Part} {slots : List Slot} {place : Option String}
    (hstem : stem ≠ .union ∧ stem ≠ .utf8Record) (hslots : slots ∈ stem.slots place .all)
    (hparts : Fits (Conforms extended) slots parts) (hdepth : 2 * (tokensOf parts).length ≤ depth)
    (hlong : isSingleLong (typeNode none parts) = true → next.isInline "long" = false)
    (hbracket : isNamed (typeNode none parts) = true → next.isInline "<" = false) :
    ∃ inner, Yields scope (either (genericType nested place) (either primitiveType namedType))
      (tokensOf parts ++ next :: more) (some (typeNode inner parts)) (next :: more) := by
  -- the three parsers are tried in turn; the words they open with are apart
  by_cases hgeneric : stem ∈ [.collection, .promise, .record]
  · exact ⟨place, (yields_genericType hcomplete hgeneric hslots hparts hdepth).either_left⟩
  by_cases hprimitive : stem ∈ [.integer, .float, .keyword]
  · have hheaded : (stem.slots place .all).all (isHeadedBy { words := primitiveWords }) = true := by
      simp only [List.mem_cons, List.not_mem_nil, or_false] at hprimitive
      rcases hprimitive with rfl | rfl | rfl <;> rfl
    have hbegins : Begins { words := primitiveWords } (tokensOf parts) :=
      hparts.begins (fun hconforms => hconforms.begins_heads)
        (List.all_eq_true.mp hheaded slots hslots)
    exact ⟨none, (Begins.yields_none hbegins rfl yields_genericType_none _).either_right
      (yields_primitiveType hprimitive hslots hparts hlong).either_left⟩
  · -- what is left is a single token that names the type
    obtain ⟨spelling, hspelling⟩ : ∃ spelling, slots = [.token .base (.typeName spelling)] := by
      cases stem with
      | name => exact ⟨_, List.mem_singleton.mp hslots⟩
      | any => exact ⟨_, List.mem_singleton.mp hslots⟩
      | union => exact absurd rfl hstem.1
      | utf8Record => exact absurd rfl hstem.2
      | _ => simp at hgeneric hprimitive
    subst hspelling
    obtain ⟨base, rest, rfl, hbase, hrest⟩ := fits_token.mp hparts
    obtain rfl := fits_nil.mp hrest
    refine ⟨none, ?_⟩
    refine (yields_genericType_none (Terminal.rejects_of_avoids rfl hbase)).either_right ?_
    refine (yields_primitiveType_none (Terminal.rejects_of_avoids rfl hbase)).either_right ?_
    refine yields_namedType hbase (hbracket ?_)
    have hname : (Terminal.typeName fun _ => true).accepts base = true :=
      Terminal.accepts_of_within rfl hbase
    simpa [isNamed, typeNode, bare] using hname

/-- What comes before the question mark declines where no type begins. -/
theorem yields_plainType_none {place : Option String} {token : Token}
    (h : Terminal.accepts
      { kinds := [.identifier], words := typeWords.erase "(" } token = false) :
    Yields scope (either (genericType nested place) (either primitiveType namedType))
      (token :: more) none (token :: more) := by
  refine (yields_genericType_none (Terminal.rejects_of_within h rfl)).either_right ?_
  refine (yields_primitiveType_none (Terminal.rejects_of_within h rfl)).either_right ?_
  exact yields_namedType_none (Terminal.rejects_of_within h rfl)

/-- The types of extensions decline where no record with `UTF8String` keys is. -/
theorem yields_extensionTypes_none (hcomplete : Complete extended scope depth nested)
    (hdepth : 1 ≤ depth) {tokens : List Token} (h : Misses .utf8StringRecord tokens) :
    Yields scope (firstMatch nested scope.extensions.types) tokens none tokens := by
  rw [hcomplete.extensions_eq]
  cases extended with
  | false => exact yields_firstMatch_nil
  | true =>
      have hrank : Production.utf8StringRecord.rank ≤ depth := hdepth
      exact (hcomplete.declines hrank h).firstMatch_skip yields_firstMatch_nil

theorem yields_singleType_none (hcomplete : Complete extended scope depth nested)
    (hdepth : 1 ≤ depth) {place : Option String} {token : Token}
    (h : Terminal.accepts
      { kinds := [.identifier], words := typeWords.erase "(" } token = false) :
    Yields scope (singleType nested place) (token :: more) none (token :: more) := by
  refine yields_extensions_bind ?_
  refine (yields_extensionTypes_none hcomplete hdepth
    (.head rfl (Terminal.rejects_of_within h rfl))).bind ?_
  exact (yields_plainType_none h).bind (yields_pure none)

/-- A type of one shape with its question mark. -/
def shapedType (stem : Stem) (place : Option String) (parts : List Part) (mark : Option Token) :
    Node :=
  .mk { construct := stem.construct, place } (bare :: (parts ++ Part.ofToken? .nullable mark))

@[simp] theorem tokens_shapedType (stem : Stem) (place : Option String) (parts : List Part)
    (mark : Option Token) :
    (shapedType stem place parts mark).tokens = tokensOf parts ++ mark.toList := by
  simp [shapedType, bare, Node.tokens, tokensOf]

theorem yields_utf8Record (hcomplete : Complete true scope depth nested) {place : Option String}
    {parts : List Part} {slots : List Slot} {mark : Option Token}
    (hslots : slots ∈ Stem.utf8Record.slots place .all) (hparts : Fits (Conforms true) slots parts)
    (hmark : ∀ token ∈ mark, (Terminal.word "?").accepts token = true)
    (hdepth : 2 * (tokensOf parts ++ mark.toList).length < depth)
    (hnext : (Terminal.word "?").accepts next = false) :
    Yields scope (singleType nested place) (tokensOf parts ++ (mark.toList ++ next :: more))
      (some (shapedType .utf8Record place parts mark)) (next :: more) := by
  have hrecord : Conforms true { symbol := .type none .utf8Record, mode := .never }
      (shapedType .utf8Record none parts mark) :=
    conforms_type_iff.mpr ⟨.utf8Record, List.mem_singleton_self _, slots, hslots,
      Node.noAttributes, parts, mark, rfl, conforms_noAttributes (by simp), hparts, hmark,
      fun _ => rfl⟩
  have hfound : Yields scope (nested .utf8StringRecord)
      ((shapedType .utf8Record none parts mark).tokens ++ next :: more)
      (some (shapedType .utf8Record none parts mark)) (next :: more) :=
    hcomplete.yields trivial hrecord
      (by rw [tokens_shapedType]; simp only [Production.rank]; omega) hnext
  rw [tokens_shapedType, List.append_assoc] at hfound
  refine yields_extensions_bind ?_
  rw [hcomplete.extensions_eq]
  exact hfound.firstMatch.bind (yields_pure _)

theorem yields_singleType (hcomplete : Complete extended scope depth nested) {stem : Stem}
    {place : Option String} {parts : List Part} {slots : List Slot} {mark : Option Token}
    (hstem : stem ∈ Limit.stems extended .all) (hunion : stem ≠ .union)
    (hslots : slots ∈ stem.slots place .all) (hparts : Fits (Conforms extended) slots parts)
    (hmark : ∀ token ∈ mark, (Terminal.word "?").accepts token = true)
    (hnullable : mark.isSome → stem.isNullable)
    (hdepth : 2 * (tokensOf parts ++ mark.toList).length < depth)
    (hnext : goesOn (shapedType stem place parts mark) next = false) :
    Yields scope (singleType nested place) (tokensOf parts ++ (mark.toList ++ next :: more))
      (some (shapedType stem place parts mark)) (next :: more) := by
  rw [goesOn_of_fits hslots hparts (rfl : shapedType stem place parts mark = _),
    Bool.or_eq_false_iff] at hnext
  obtain ⟨hquestion, hgrows⟩ := hnext
  have hrejected : (Terminal.word "?").accepts next = false := by rwa [← isInline_eq]
  by_cases hrecord : stem = .utf8Record
  · subst hrecord
    cases extended with
    | true => exact yields_utf8Record hcomplete hslots hparts hmark hdepth hrejected
    | false => simp [Limit.stems] at hstem
  -- The token behind the type is its question mark, or the next one.
  obtain ⟨behind, rest, hbehind, hlong, hbracket, hsame⟩ : ∃ behind rest,
      mark.toList ++ next :: more = behind :: rest ∧
      (isSingleLong (typeNode none parts) = true → behind.isInline "long" = false) ∧
      (isNamed (typeNode none parts) = true → behind.isInline "<" = false) ∧
      behind.isInline "?" = mark.isSome := by
    cases mark with
    | none =>
        rw [Option.isNone_none, Bool.true_and, Bool.or_eq_false_iff] at hgrows
        exact ⟨next, more, rfl, fun hsingle => by simpa [hsingle] using hgrows.1,
          fun hnamed => by simpa [hnamed] using hgrows.2, hquestion⟩
    | some mark =>
        refine ⟨mark, _, rfl, fun _ => ?_, fun _ => ?_, ?_⟩ <;> rw [isInline_eq]
        · exact Terminal.rejects_of_avoids rfl (hmark mark rfl)
        · exact Terminal.rejects_of_avoids rfl (hmark mark rfl)
        · exact hmark mark rfl
  have hconstruct : stem.construct = .type := by
    cases stem <;> first | rfl | contradiction
  rw [List.length_append] at hdepth
  obtain ⟨inner, hplain⟩ : ∃ inner, Yields scope
      (either (genericType nested place) (either primitiveType namedType))
      (tokensOf parts ++ behind :: rest) (some (typeNode inner parts)) (behind :: rest) :=
    yields_plainType hcomplete ⟨hunion, hrecord⟩ hslots hparts (by omega) hlong hbracket
  rw [← hbehind] at hplain
  have htype : typeNode inner parts = .mk { construct := stem.construct, place := inner }
      (.node .attributes Node.noAttributes :: (parts ++ Part.ofToken? .nullable none)) :=
    hconstruct ▸ unmarked_eq _ parts
  obtain ⟨hgeneric, hname⟩ := applies_typeName_of_fits hslots hparts htype
  refine yields_extensions_bind ?_
  refine (yields_extensionTypes_none hcomplete (by omega)
    (misses_utf8StringRecord hrecord hslots hparts _)).bind ?_
  refine hplain.bind ?_
  rw [hbehind]
  refine yields_present_bind hgeneric (yields_nextIs_bind (yields_refuse_bind ?_ ?_))
  · rw [hsame, Bool.and_eq_false_iff, decide_eq_false_iff_not, Bool.eq_false_iff]
    by_cases hsome : mark.isSome = true
    · exact Or.inl fun hpromise => by
        have hnot := hnullable hsome
        rw [hpromise] at hnot
        cases hnot
    · exact Or.inr hsome
  · rw [← hbehind]
    refine (yields_nullableMark hmark hrejected).bind ?_
    have hvalue : withNullable mark ((typeNode inner parts).withPlace place) =
        shapedType stem place parts mark := by
      simp [withNullable, Node.withPlace, typeNode, shapedType, hconstruct, Construct.isType]
    rw [← hvalue]
    refine yields_refuse_bind ?_ (yields_pure _)
    rw [Bool.and_eq_false_iff, beq_eq_false_iff_ne, Bool.eq_false_iff]
    by_cases hsome : mark.isSome = true
    · exact Or.inr fun hany => by
        have hnot := hnullable hsome
        rw [hname.mp hany] at hnot
        cases hnot
    · exact Or.inl hsome

/-! ## Unions -/

/-- A member of a union is a type, but neither `any` nor a promise. -/
theorem conforms_of_unionMember {place : Option String} {type : Node}
    (h : Conforms extended { symbol := .type place .unionMember } type) :
    Conforms extended { symbol := .type place .all } type ∧ type.typeName ≠ "any" ∧
      type.applies "Promise" = .ok false := by
  have hall : Conforms extended { symbol := .type place .all } type := by
    refine conforms_type_of_stems (by simp) (by simp) h ?_
    cases extended <;> simp [Limit.stems]
  obtain ⟨stem, hstem, slots, hslots, attributes, parts, mark, hnode, -, hparts, -⟩ :=
    conforms_type_iff.mp h
  obtain ⟨hgeneric, hname⟩ := applies_typeName_of_fits hslots hparts hnode
  refine ⟨hall, fun hany => ?_, hgeneric.trans (congrArg _ (decide_eq_false fun hpromise => ?_))⟩
  · rw [hname.mp hany] at hstem
    cases extended <;> simp [Limit.stems] at hstem
  · rw [hpromise] at hstem
    cases extended <;> simp [Limit.stems] at hstem

theorem yields_unionMembers (hcomplete : Complete extended scope depth nested)
    {members : List Node} {closing : Token}
    (hmembers : Items (Conforms extended) members { symbol := .type none .unionMember } "or" false)
    (hleast : 1 ≤ members.length)
    (hdepth : 2 * (members.flatMap Node.tokens).length + 2 ≤ depth)
    (hclosing : (Terminal.word ")").accepts closing = true) {fuel : Nat}
    (hfuel : members.length < fuel) :
    Yields scope (unionMembers nested fuel) (members.flatMap Node.tokens ++ closing :: more) members
      (closing :: more) := by
  -- a member is followed by `or` or the bracket, which do not go on with a type
  have hmember {type : Node} {behind : Token} {rest : List Token}
      (htype : Conforms extended { symbol := .type none .unionMember } type)
      (hlength : 2 * type.tokens.length + 2 ≤ depth)
      (hbehind : Terminal.accepts { words := ["?", "<", "long"] } behind = false) :
      Yields scope (expect (nested (.attributedType none)) .noUnionMember)
        (type.tokens ++ behind :: rest) type (behind :: rest) := by
    have hfound : Yields scope (nested (.attributedType none)) (type.tokens ++ behind :: rest)
        (some type) (behind :: rest) :=
      hcomplete.yields trivial (conforms_of_unionMember htype).1 hlength hbehind
    exact hfound.expect _
  induction fuel generalizing members with
  | zero => exact absurd hfuel (Nat.not_lt_zero _)
  | succ fuel ih =>
      cases hmembers with
      | nil => cases hleast
      | last htype =>
          simp only [List.flatMap_cons, List.flatMap_nil, List.append_nil] at hdepth ⊢
          obtain ⟨-, hany, hpromise⟩ := conforms_of_unionMember htype
          refine (hmember htype hdepth (Terminal.rejects_of_avoids rfl hclosing)).bind ?_
          refine yields_refuse_bind (by simpa using hany)
            (yields_present_bind hpromise (yields_refuse_bind rfl ?_))
          exact (oneOf_inline? _).yields_bind_none (Terminal.rejects_of_avoids rfl hclosing)
            (yields_pure _)
      | cons hnode hlast hothers =>
          rename_i others
          obtain ⟨type, separator, rfl, hseparator, htype⟩ := hnode.split_separator
          obtain ⟨-, hany, hpromise⟩ := conforms_of_unionMember htype
          simp only [List.flatMap_cons, Node.tokens_withSeparator, Option.toList_some,
            List.length_append, List.length_cons, List.append_assoc, List.cons_append,
            List.nil_append] at hdepth hfuel ⊢
          -- the last member has no `or` behind it, so another one follows
          have hmore : 1 ≤ others.length := by
            cases others with
            | nil => exact absurd (hlast rfl) (by simp)
            | cons other others => simp
          refine (hmember htype (by omega) (Terminal.rejects_of_avoids rfl hseparator)).bind ?_
          refine yields_refuse_bind (by simpa using hany)
            (yields_present_bind hpromise (yields_refuse_bind rfl ?_))
          refine (oneOf_inline? _).yields_bind hseparator ?_
          exact (ih hothers hmore (by omega) (by omega)).bind (yields_pure _)

theorem yields_unionType (hcomplete : Complete extended scope depth nested)
    {place : Option String} {parts : List Part} {slots : List Slot} {mark : Option Token}
    (hslots : slots ∈ Stem.union.slots place .all) (hparts : Fits (Conforms extended) slots parts)
    (hmark : ∀ token ∈ mark, (Terminal.word "?").accepts token = true)
    (hdepth : 2 * (tokensOf parts ++ mark.toList).length ≤ depth)
    (hnext : (Terminal.word "?").accepts next = false) :
    Yields scope (unionType nested place) (tokensOf parts ++ (mark.toList ++ next :: more))
      (some (shapedType .union place parts mark)) (next :: more) := by
  obtain rfl := List.mem_singleton.mp hslots
  obtain ⟨opening, rest, rfl, hopening, hrest⟩ := fits_token.mp hparts
  obtain ⟨members, rest, rfl, hmembers, hleast, hrest⟩ := fits_list.mp hrest
  obtain ⟨closing, rest, rfl, hclosing, hrest⟩ := fits_token.mp hrest
  obtain rfl := fits_nil.mp hrest
  simp only [tokensOf, tokensOf_append, tokensOf_ofNodes, List.length_cons, List.length_append,
    List.cons_append, List.append_assoc, List.nil_append] at hdepth ⊢
  refine (oneOf_inline? _).yields_bind hopening (yields_size_bind ?_)
  have hfound : Yields scope (unionMembers nested (scope.source.tokens.size + 1))
      (members.flatMap Node.tokens ++ closing :: (mark.toList ++ next :: more)) members
      (closing :: (mark.toList ++ next :: more)) := by
    intro cursor hrest
    have hlength := congrArg List.length hrest
    simp only [Scope.rest, List.length_drop, List.length_append, List.length_cons,
      Array.length_toList] at hlength
    have hshort := length_le_of_conforms rfl hmembers
    exact yields_unionMembers hcomplete hmembers (by omega) (by omega) hclosing (by omega) cursor
      hrest
  refine hfound.bind (yields_refuse_bind (decide_eq_false (by omega)) ?_)
  refine (oneOf_inline? _).yields_expect_bind hclosing ?_
  exact (yields_nullableMark hmark hnext).bind (yields_pure _)

theorem yields_unionType_none {place : Option String} {token : Token}
    (h : (Terminal.word "(").accepts token = false) :
    Yields scope (unionType nested place) (token :: more) none (token :: more) :=
  (oneOf_inline? _).yields_bind_none h (yields_pure none)

/-! ## Types of every shape -/

theorem yields_type (hcomplete : Complete extended scope depth nested) {place : Option String}
    (h : Conforms extended { symbol := .type place .all, mode := .never } node)
    (hdepth : 2 * node.tokens.length < depth) (hnext : goesOn node next = false) :
    Yields scope (type nested place) (node.tokens ++ next :: more) (some node) (next :: more) := by
  obtain ⟨stem, hstem, slots, hslots, attributes, parts, mark, rfl, hattributes, hparts, hmark,
    hnullable⟩ := conforms_type_iff.mp h
  obtain rfl := eq_noAttributes_of_conforms hattributes rfl
  have htokens := tokens_shapedType stem place parts mark
  unfold shapedType bare at htokens
  rw [htokens] at hdepth ⊢
  rw [List.append_assoc]
  by_cases hunion : stem = .union
  · subst hunion
    have hbegins : Begins (.word "(") (tokensOf parts) := by
      obtain rfl := List.mem_singleton.mp hslots
      exact hparts.begins (fun hconforms => hconforms.begins_heads) rfl
    refine (Begins.yields_none hbegins rfl (yields_singleType_none hcomplete (by omega))
      _).either_right ?_
    refine yields_unionType hcomplete hslots hparts hmark (by omega) ?_
    rw [← isInline_eq]
    exact (Bool.or_eq_false_iff.mp hnext).1
  · exact (yields_singleType hcomplete hstem hunion hslots hparts hmark hnullable hdepth
      hnext).either_left

theorem yields_type_none (hcomplete : Complete extended scope depth nested) (hdepth : 1 ≤ depth)
    {place : Option String} {token : Token} (h : Terminal.typeHead.accepts token = false) :
    Yields scope (type nested place) (token :: more) none (token :: more) :=
  (yields_singleType_none hcomplete hdepth (Terminal.rejects_of_within h rfl)).either_right
    (yields_unionType_none (Terminal.rejects_of_within h rfl))

/-- The attributes before a type do not matter for what goes on with it. -/
theorem Conforms.goesOn_withAttributes {place : Option String} {attributes : Node}
    (h : Conforms extended { symbol := .type place .all, mode := .never } node) :
    goesOn (node.withAttributes attributes) next = goesOn node next := by
  obtain ⟨label, parts, rfl⟩ := h.bare (attributed_type _ _)
  simp [Node.withAttributes, goesOn, isSingleLong, isNamed, Node.isNullable, Node.has, bare]

/-- A type, with the attributes before it. -/
theorem yields_attributedType (hcomplete : Complete extended scope depth nested)
    {place : Option String} {mode : Mode}
    (h : Conforms extended { symbol := .type place .all, mode } node)
    (hdepth : 2 * node.tokens.length < depth) (hnext : goesOn node next = false) :
    Yields scope (attributedType nested place) (node.tokens ++ next :: more) (some node)
      (next :: more) := by
  obtain ⟨attributes, core, rfl, hattributes, hcore⟩ := h.split_attributes (attributed_type _ _)
  rw [hcore.tokens_withAttributes (attributed_type _ _), List.length_append] at hdepth
  rw [hcore.tokens_withAttributes (attributed_type _ _), List.append_assoc]
  have htype : Yields scope (type nested place) (core.tokens ++ next :: more) (some core)
      (next :: more) := by
    refine yields_type hcomplete hcore (by omega) ?_
    rwa [Conforms.goesOn_withAttributes hcore] at hnext
  obtain ⟨token, rest, htokens, htoken⟩ := hcore.begins_type
  rw [htokens, List.cons_append] at htype ⊢
  refine Yields.rewinding ?_
  refine (yields_extendedAttributes hcomplete hattributes (by omega)
    (Terminal.rejects_of_avoids rfl htoken)).bind ?_
  exact htype.bind (yields_pure _)

theorem yields_attributedType_none (hcomplete : Complete extended scope depth nested)
    (hdepth : 1 ≤ depth) {place : Option String} {token : Token}
    (h : Terminal.accepts { kinds := [.identifier], words := "[" :: typeWords } token = false) :
    Yields scope (attributedType nested place) (token :: more) none (token :: more) := by
  have hattributes : Yields scope (extendedAttributes nested) (token :: more) Node.noAttributes
      (token :: more) :=
    yields_extendedAttributes_none (Terminal.rejects_of_within h rfl)
  have htype : Yields scope (type nested place) (token :: more) none (token :: more) :=
    yields_type_none hcomplete hdepth (Terminal.rejects_of_within h rfl)
  refine Yields.rewinding_none (?_ : Yields scope _ _ _ (token :: more))
  exact hattributes.bind (htype.bind (yields_pure none))

theorem yields_returnType (hcomplete : Complete extended scope depth nested)
    {place : Option String}
    (h : Conforms extended { symbol := .returnType (returnPlaceOf place) .all, mode := .never } node)
    (hdepth : 2 * node.tokens.length < depth)
    (hnext : Terminal.accepts { words := ["?", "<", "long"] } next = false) :
    Yields scope (returnType nested place) (node.tokens ++ next :: more) (some node)
      (next :: more) := by
  rw [returnType_eq]
  rcases conforms_returnType_iff.mp h with htype | ⟨hlabel, hvoid⟩
  · exact (yields_type hcomplete htype hdepth (goesOn_eq_false hnext node)).either_left
  · obtain ⟨label, parts⟩ := node
    obtain rfl : label = voidForm.label := hlabel
    obtain ⟨attributes, rest, hparts, hattributes, hrest⟩ := fits_node.mp hvoid
    obtain ⟨base, rest, rfl, hbase, hrest⟩ := fits_token.mp hrest
    obtain rfl := fits_nil.mp hrest
    obtain rfl := eq_noAttributes_of_conforms hattributes rfl
    obtain rfl : parts = _ := hparts
    refine (yields_type_none hcomplete (by omega)
      (Terminal.rejects_of_avoids rfl hbase)).either_right ?_
    exact (oneOf_inline? _).yields_bind hbase (yields_pure _)

end

end WebIdl.Grammar
