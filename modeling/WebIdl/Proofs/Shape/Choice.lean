import WebIdl.Proofs.Shape.Head
import WebIdl.Dialect

/-!
# Which production a construct is for

Productions are tried in turn, and the first that matches wins.  For every member and every
definition this module names the production that finds it, and shows that those tried before it
decline (`Misses`): most see from the first token that the construct is not theirs, and the others
from what follows.
-/

namespace WebIdl.Shape

/-! ## How productions decline -/

/-- The tokens on which a production does not decline at once, for those that can decline. -/
def startsOf : Production → Option Terminal
  | .extendedAttribute => some .identifier
  | .argument => some { kinds := [.identifier], words := "[" :: "optional" :: typeWords }
  | .attribute _ _ => some { words := ["inherit", "readonly", "attribute"] }
  | .constant => some (.word "const")
  | .constructor => some (.word "constructor")
  | .staticMember => some (.word "static")
  | .stringifier => some (.word "stringifier")
  | .iterableLike => some { words := ["readonly", "async", "iterable", "maplike", "setlike"] }
  | .legacyCaller => some (.named Grammar.legacyCallerWord)
  | .utf8StringRecord => some (.word "record")
  | .utf8StringField => some { words := ["required", "record"] }
  | .callback | .callbackConstructor => some (.word "callback")
  | .interface | .bodylessInterface | .legacyCallerInterface => some (.word "interface")
  | .partialDefinition => some (.word "partial")
  | .dictionary => some (.word "dictionary")
  | .namespaceDef => some (.word "namespace")
  | .enumeration => some (.word "enum")
  | .typedef | .utf8StringTypedef => some (.word "typedef")
  | .includes => some .identifier
  | _ => none

/-- The production declines on these tokens. -/
inductive Misses : Production → List Token → Prop where
  /-- The first token is none of those that it begins with. -/
  | head {production : Production} {terminal : Terminal} {token : Token} {more : List Token}
      (hstarts : startsOf production = some terminal) (htoken : terminal.accepts token = false) :
      Misses production (token :: more)
  /-- Only a map or a set is read-only. -/
  | iterableLike {readonly token : Token} {more : List Token}
      (hreadonly : (Terminal.word "readonly").accepts readonly = true)
      (htoken : Terminal.accepts { words := ["maplike", "setlike"] } token = false) :
      Misses .iterableLike (readonly :: token :: more)
  /-- A record with keys of another type. -/
  | record {base opening token : Token} {more : List Token}
      (hbase : (Terminal.word "record").accepts base = true)
      (hopening : (Terminal.word "<").accepts opening = true)
      (htoken : (Terminal.named Grammar.utf8String).accepts token = false) :
      Misses .utf8StringRecord (base :: opening :: token :: more)
  | field {token : Token} {more : List Token}
      (htoken : (Terminal.word "required").accepts token = false)
      (h : Misses .utf8StringRecord (token :: more)) : Misses .utf8StringField (token :: more)
  | required {required : Token} {more : List Token}
      (hrequired : (Terminal.word "required").accepts required = true)
      (h : Misses .utf8StringRecord more) : Misses .utf8StringField (required :: more)
  | typedef {base : Token} {more : List Token}
      (hbase : (Terminal.word "typedef").accepts base = true)
      (h : Misses .utf8StringRecord more) : Misses .utf8StringTypedef (base :: more)
  /-- An interface with a body. -/
  | bodyless {base name token : Token} {more : List Token}
      (hbase : (Terminal.word "interface").accepts base = true)
      (hname : Terminal.identifier.accepts name = true)
      (htoken : (Terminal.word ";").accepts token = false) :
      Misses .bodylessInterface (base :: name :: token :: more)
  | nameless {base token : Token} {more : List Token}
      (hbase : (Terminal.word "interface").accepts base = true)
      (htoken : Terminal.identifier.accepts token = false) :
      Misses .bodylessInterface (base :: token :: more)
  | callback {base token : Token} {more : List Token}
      (hbase : (Terminal.word "callback").accepts base = true)
      (htoken : (Terminal.word "constructor").accepts token = false) :
      Misses .callbackConstructor (base :: token :: more)
  | mixin {base mixin : Token} {more : List Token}
      (hbase : (Terminal.word "interface").accepts base = true)
      (hmixin : (Terminal.word "mixin").accepts mixin = true) :
      Misses .legacyCallerInterface (base :: mixin :: more)

/-- Does the production decline at once on every token of the set? -/
def isAvoidedBy (terminal : Terminal) (production : Production) : Bool :=
  match startsOf production with
  | some starts => terminal.avoids starts
  | none => false

section

variable {extended : Bool} {node : Node} {tokens : List Token}

theorem misses_of_begins {terminal : Terminal} (hbegins : Begins terminal tokens)
    {production : Production} (h : isAvoidedBy terminal production = true) (more : List Token) :
    Misses production (tokens ++ more) := by
  obtain ⟨token, rest, rfl, htoken⟩ := hbegins
  unfold isAvoidedBy at h
  split at h
  · rename_i starts hstarts
    exact .head hstarts (Terminal.rejects_of_avoids h htoken)
  · cases h

/-- The construct is found by one production of the list, and those before it decline. -/
def Chosen (extended : Bool) (productions : List Production) (node : Node) : Prop :=
  ∃ front production back, productions = front ++ production :: back ∧
    Conforms extended { symbol := symbolOf production, mode := .never } node ∧
    ∀ earlier ∈ front, ∀ more, Misses earlier (node.tokens ++ more)

/-- The production with the given number is chosen if all those before it decline. -/
theorem chosen_at {productions : List Production} (index : Nat) {production : Production}
    (hproduction : productions[index]? = some production)
    (h : Conforms extended { symbol := symbolOf production, mode := .never } node)
    (hfront : ∀ earlier ∈ productions.take index, ∀ more, Misses earlier (node.tokens ++ more)) :
    Chosen extended productions node := by
  obtain ⟨hindex, rfl⟩ := List.getElem?_eq_some_iff.mp hproduction
  refine ⟨productions.take index, _, productions.drop (index + 1), ?_, h, hfront⟩
  rw [← List.drop_eq_getElem_cons hindex, List.take_append_drop]

theorem chosen_of_begins {kinds : List Token.Kind} {words : List String}
    {productions : List Production} (index : Nat) {production : Production}
    (hproduction : productions[index]? = some production)
    (h : Conforms extended { symbol := symbolOf production, mode := .never } node)
    (hbegins : Begins { kinds, words } node.tokens)
    (hfront : (productions.take index).all (isAvoidedBy { kinds, words }) = true) :
    Chosen extended productions node :=
  chosen_at index hproduction h fun earlier hearlier more =>
    misses_of_begins hbegins (List.all_eq_true.mp hfront earlier hearlier) more

/-- The same where one of the productions before it needs a closer look to decline. -/
theorem chosen_except {kinds : List Token.Kind} {words : List String}
    {productions : List Production} (index : Nat) {production : Production} (other : Production)
    (hproduction : productions[index]? = some production)
    (h : Conforms extended { symbol := symbolOf production, mode := .never } node)
    (hbegins : Begins { kinds, words } node.tokens)
    (hother : ∀ more, Misses other (node.tokens ++ more))
    (hfront : (productions.take index).all
      (fun earlier => earlier == other || isAvoidedBy { kinds, words } earlier) = true) :
    Chosen extended productions node := by
  refine chosen_at index hproduction h fun earlier hearlier more => ?_
  rcases Bool.or_eq_true_iff.mp (List.all_eq_true.mp hfront earlier hearlier) with hsame | havoided
  · rw [beq_iff_eq.mp hsame]
    exact hother more
  · exact misses_of_begins hbegins havoided more

/-- A construct of a symbol that is made up of others belongs to one of these. -/
theorem Conforms.exists_symbol {larger : Symbol} {symbols : List Symbol} {mode : Mode}
    (h : Conforms extended { symbol := larger, mode } node)
    (hforms : larger.forms extended = symbols.flatMap (Symbol.ownForms extended)) :
    ∃ symbol ∈ symbols, Conforms extended { symbol, mode } node := by
  cases h with
  | mk hform hparts =>
      dsimp only at hform
      rw [hforms] at hform
      obtain ⟨symbol, hsymbol, hform⟩ := List.mem_flatMap.mp hform
      refine ⟨symbol, hsymbol, .mk (?_ : _ ∈ symbol.forms extended) hparts⟩
      cases symbol with
      | member body => cases hform
      | definition => cases hform
      | _ => exact hform

/-! ## Records with `UTF8String` keys -/

/-- A type of any other shape is no such record. -/
theorem misses_utf8StringRecord {stem : Stem} {slots : List Slot} {place : Option String}
    {limit : Limit} {parts : List Part} (hstem : stem ≠ .utf8Record)
    (hslots : slots ∈ stem.slots place limit) (hparts : Fits (Conforms extended) slots parts)
    (more : List Token) : Misses .utf8StringRecord (tokensOf parts ++ more) := by
  by_cases hrecord : stem = .record
  · subst hrecord
    obtain rfl := List.mem_singleton.mp hslots
    obtain ⟨base, rest, rfl, hbase, hrest⟩ := fits_token.mp hparts
    obtain ⟨opening, rest, rfl, hopening, hrest⟩ := fits_token.mp hrest
    obtain ⟨key, rest, rfl, hkey, hrest⟩ := fits_node.mp hrest
    have hforms : ((Symbol.recordKey place).forms extended).all
        (isHeadedBy { words := Keyword.stringTypes } ·.slots) = true := rfl
    obtain ⟨token, others, htokens, htoken⟩ := hkey.begins hforms
    simp only [tokensOf, htokens, List.cons_append]
    exact .record hbase hopening (Terminal.rejects_of_avoids rfl htoken)
  · have hheaded : isHeadedBy { kinds := [.identifier], words := typeWords.erase "record" } slots =
        true := by
      have hall : (stem.slots place limit).all
          (isHeadedBy { kinds := [.identifier], words := typeWords.erase "record" }) = true := by
        cases stem <;> first | rfl | contradiction
      exact List.all_eq_true.mp hall slots hslots
    exact misses_of_begins (hparts.begins (fun hconforms => hconforms.begins_heads) hheaded) rfl more

theorem misses_utf8StringRecord_of_plain {place : Option String}
    (h : Conforms extended { symbol := .type place .plain, mode := .never } node)
    (more : List Token) : Misses .utf8StringRecord (node.tokens ++ more) := by
  obtain ⟨stem, hstem, slots, hslots, attributes, parts, mark, rfl, hattributes, hparts, -⟩ :=
    conforms_type_iff.mp h
  obtain rfl := eq_noAttributes_of_conforms hattributes rfl
  have hother : stem ≠ .utf8Record := by
    rintro rfl
    simp [Limit.stems] at hstem
  simpa [Node.tokens, tokensOf] using
    misses_utf8StringRecord hother hslots hparts (mark.toList ++ more)

/-- Attributes that are written do not begin like a record. -/
theorem misses_utf8StringRecord_of_always {place : Option String}
    (h : Conforms extended { symbol := .type place .all, mode := .always } node)
    (more : List Token) : Misses .utf8StringRecord (node.tokens ++ more) := by
  obtain ⟨opening, rest, htokens, hopening⟩ := h.tokens_always (attributed_type _ _)
  exact misses_of_begins ⟨opening, rest, htokens, hopening⟩
    (show isAvoidedBy (Terminal.word "[") .utf8StringRecord = true from rfl) more

theorem misses_utf8StringField
    (h : Conforms extended { symbol := .field .plain, mode := .never } node) (more : List Token) :
    Misses .utf8StringField (node.tokens ++ more) := by
  cases h with
  | mk hform hparts =>
      simp only [Symbol.forms, Symbol.ownForms, fieldForms, List.mem_cons, List.not_mem_nil,
        or_false] at hform
      rcases hform with rfl | rfl | rfl
      · obtain ⟨attributes, rest, rfl, hattributes, hrest⟩ := fits_node.mp hparts
        obtain ⟨required, rest, rfl, hrequired, hrest⟩ := fits_token.mp hrest
        obtain ⟨type, rest, rfl, htype, hrest⟩ := fits_node.mp hrest
        obtain rfl := eq_noAttributes_of_conforms hattributes rfl
        simpa [Node.tokens, tokensOf] using
          Misses.required hrequired (misses_utf8StringRecord_of_always htype (tokensOf rest ++ more))
      · obtain ⟨attributes, rest, rfl, hattributes, hrest⟩ := fits_node.mp hparts
        obtain ⟨required, rest, rfl, hrequired, hrest⟩ := fits_token.mp hrest
        obtain ⟨type, rest, rfl, htype, hrest⟩ := fits_node.mp hrest
        obtain rfl := eq_noAttributes_of_conforms hattributes rfl
        simpa [Node.tokens, tokensOf] using
          Misses.required hrequired (misses_utf8StringRecord_of_plain htype (tokensOf rest ++ more))
      · obtain ⟨attributes, rest, rfl, hattributes, hrest⟩ := fits_node.mp hparts
        obtain ⟨type, rest, rfl, htype, hrest⟩ := fits_node.mp hrest
        obtain rfl := eq_noAttributes_of_conforms hattributes rfl
        obtain ⟨token, others, htokens, htoken⟩ := htype.begins_type
        have hmisses := misses_utf8StringRecord_of_plain htype (tokensOf rest ++ more)
        rw [htokens, List.cons_append] at hmisses
        simpa [Node.tokens, tokensOf, htokens] using
          Misses.field (Terminal.rejects_of_avoids rfl htoken) hmisses

theorem misses_utf8StringTypedef
    (h : Conforms extended { symbol := .typedef .plain, mode := .never } node)
    (more : List Token) : Misses .utf8StringTypedef (node.tokens ++ more) := by
  cases h with
  | mk hform hparts =>
      simp only [Symbol.forms, Symbol.ownForms, List.mem_cons, List.not_mem_nil, or_false] at hform
      rcases hform with rfl | rfl
      · obtain ⟨attributes, rest, rfl, hattributes, hrest⟩ := fits_node.mp hparts
        obtain ⟨base, rest, rfl, hbase, hrest⟩ := fits_token.mp hrest
        obtain ⟨type, rest, rfl, htype, hrest⟩ := fits_node.mp hrest
        obtain rfl := eq_noAttributes_of_conforms hattributes rfl
        simpa [Node.tokens, tokensOf] using
          Misses.typedef hbase (misses_utf8StringRecord_of_always htype (tokensOf rest ++ more))
      · obtain ⟨attributes, rest, rfl, hattributes, hrest⟩ := fits_node.mp hparts
        obtain ⟨base, rest, rfl, hbase, hrest⟩ := fits_token.mp hrest
        obtain ⟨type, rest, rfl, htype, hrest⟩ := fits_node.mp hrest
        obtain rfl := eq_noAttributes_of_conforms hattributes rfl
        simpa [Node.tokens, tokensOf] using
          Misses.typedef hbase (misses_utf8StringRecord_of_plain htype (tokensOf rest ++ more))

/-! ## Symbols with a limit -/

section

variable {place : Option String} {mode : Mode}

theorem conforms_type_of_guarded
    (h : Conforms extended { symbol := .type place .guarded, mode } node) :
    Conforms extended { symbol := .type place .all, mode } node := by
  obtain ⟨stem, hstem, slots, hslots, attributes, parts, mark, rfl, hattributes, hparts, hrest⟩ :=
    conforms_type_iff.mp h
  refine conforms_type_iff.mpr ⟨stem, hstem, ?_⟩
  cases stem with
  | name =>
      obtain rfl := List.mem_singleton.mp hslots
      obtain ⟨base, rest, rfl, hbase, hnil⟩ := fits_token.mp hparts
      obtain rfl := fits_nil.mp hnil
      obtain ⟨hword, hspelling⟩ := accepts_typeName.mp hbase
      refine ⟨_, List.mem_singleton_self _, attributes, _, mark, rfl, hattributes,
        .token (accepts_typeName.mpr ⟨hword, ?_⟩) .nil, hrest⟩
      simpa using (Bool.and_eq_true_iff.mp hspelling).1
  | _ => exact ⟨slots, hslots, attributes, parts, mark, rfl, hattributes, hparts, hrest⟩

theorem conforms_type_of_plain
    (h : Conforms extended { symbol := .type place .plain, mode } node) :
    Conforms extended { symbol := .type place .all, mode } node := by
  obtain ⟨stem, hstem, slots, hslots, rest⟩ := conforms_type_iff.mp h
  rw [Stem.slots_eq_of_ne_guarded (by simp)] at hslots
  have hall : stem ∈ Limit.stems extended .all := List.mem_append_left _ hstem
  exact conforms_type_iff.mpr ⟨stem, hall, slots, hslots, rest⟩

theorem conforms_operation_of_guarded
    (h : Conforms extended { symbol := .operation false .guarded, mode } node) :
    Conforms extended { symbol := .operation false .all, mode } node := by
  cases h with
  | mk hform hparts =>
      rcases List.mem_append.mp hform with hspecial | hplain
      · exact .mk (List.mem_append_left _ hspecial) hparts
      · obtain rfl := List.mem_singleton.mp hplain
        obtain ⟨attributes, rest, rfl, hattributes, hrest⟩ := fits_node.mp hparts
        obtain ⟨type, rest, rfl, htype, hrest⟩ := fits_node.mp hrest
        have htype : Conforms extended
            { symbol := .returnType (some Grammar.returnPlace) .all, mode := .never } type := by
          rcases conforms_returnType_iff.mp htype with htype | hvoid
          · exact conforms_returnType_iff.mpr (Or.inl (conforms_type_of_guarded htype))
          · exact conforms_returnType_iff.mpr (Or.inr hvoid)
        exact .of_form (operationForm .operation .all [])
          (List.mem_append_right _ (List.mem_singleton_self _)) rfl
          (.node hattributes (.node htype hrest))

/-- A member of a dictionary, whatever attributes its type has. -/
theorem conforms_loneField {limit : Limit} (hlimit : limit = .all ∨ limit = .plain)
    (h : Conforms extended { symbol := .field limit, mode } node) :
    Conforms extended { symbol := .loneField, mode } node := by
  -- alone, a field may be of any type
  have hwiden {type : Node} (htype : Conforms extended
      { symbol := .type (some Grammar.fieldPlace) limit, mode := .never } type) :
      Conforms extended { symbol := .type (some Grammar.fieldPlace) .all } type := by
    refine Conforms.maybe (attributed_type _ _) ?_
    rcases hlimit with rfl | rfl
    · exact htype
    · exact conforms_type_of_plain htype
  cases h with
  | mk hform hparts =>
      simp only [Symbol.forms, Symbol.ownForms, fieldForms, List.mem_cons, List.not_mem_nil,
        or_false] at hform
      rcases hform with rfl | rfl | rfl
      · obtain ⟨attributes, rest, rfl, hattributes, hrest⟩ := fits_node.mp hparts
        obtain ⟨required, rest, rfl, hrequired, hrest⟩ := fits_token.mp hrest
        obtain ⟨type, rest, rfl, htype, hrest⟩ := fits_node.mp hrest
        -- a required field may have attributes on its type, which go with the type
        have htype : Conforms extended { symbol := .type (some Grammar.fieldPlace) .all } type := by
          obtain ⟨own, core, rfl, hown, hcore⟩ := htype.split_attributes (attributed_type _ _)
          exact hcore.withAttributes (attributed_type _ _)
            (hown.of_subset (List.subset_cons_self _ _))
        exact .of_form _ List.mem_cons_self rfl
          (.node hattributes (.token hrequired (.node htype hrest)))
      · obtain ⟨attributes, rest, rfl, hattributes, hrest⟩ := fits_node.mp hparts
        obtain ⟨required, rest, rfl, hrequired, hrest⟩ := fits_token.mp hrest
        obtain ⟨type, rest, rfl, htype, hrest⟩ := fits_node.mp hrest
        exact .of_form _ List.mem_cons_self rfl
          (.node hattributes (.token hrequired (.node (hwiden htype) hrest)))
      · obtain ⟨attributes, rest, rfl, hattributes, hrest⟩ := fits_node.mp hparts
        obtain ⟨type, rest, rfl, htype, hrest⟩ := fits_node.mp hrest
        exact .of_form _ (List.mem_cons_of_mem _ List.mem_cons_self) rfl
          (.node hattributes (.node (hwiden htype) hrest))

theorem conforms_typedef_of_plain
    (h : Conforms extended { symbol := .typedef .plain, mode } node) :
    Conforms extended { symbol := .typedef .all, mode } node := by
  cases h with
  | mk hform hparts =>
      rcases List.mem_cons.mp hform with rfl | hnever
      · exact .mk List.mem_cons_self hparts
      · obtain rfl := List.mem_singleton.mp hnever
        obtain ⟨attributes, rest, rfl, hattributes, hrest⟩ := fits_node.mp hparts
        obtain ⟨base, rest, rfl, hbase, hrest⟩ := fits_token.mp hrest
        obtain ⟨type, rest, rfl, htype, hrest⟩ := fits_node.mp hrest
        exact .of_form _ (List.mem_cons_of_mem _ List.mem_cons_self) rfl
          (.node hattributes (.token hbase (.node (conforms_type_of_plain htype) hrest)))

end

/-! ## Members -/

/-- The words of an operation without attributes. -/
def operationHead : Terminal where
  kinds := [.identifier]
  words := ["void", "getter", "setter", "deleter"] ++ typeWords

theorem begins_operation {isRegular : Bool} {limit : Limit}
    (h : Conforms extended { symbol := .operation isRegular limit, mode := .never } node) :
    Begins operationHead node.tokens :=
  h.begins (by cases isRegular <;> rfl)

theorem begins_attribute {noInherit mustBeReadonly : Bool}
    (h : Conforms extended { symbol := .attribute noInherit mustBeReadonly, mode := .never } node) :
    Begins { words := ["inherit", "readonly", "attribute"] } node.tokens :=
  h.begins (by cases noInherit <;> cases mustBeReadonly <;> rfl)

theorem begins_iterableLike
    (h : Conforms extended { symbol := .iterableLike, mode := .never } node) :
    Begins { words := ["readonly", "async", "iterable", "maplike", "setlike"] } node.tokens :=
  h.begins rfl

/-- A construct whose forms all begin with the same keyword. -/
theorem begins_word (word : String) {symbol : Symbol}
    (h : Conforms extended { symbol, mode := .never } node)
    (hforms : (symbol.forms extended).all (isHeadedBy { words := [word] } ·.slots) = true) :
    Begins { words := [word] } node.tokens :=
  h.begins hforms

/-- A type that is not the name `legacycaller` does not begin like a legacy caller. -/
theorem misses_legacyCaller_type {place : Option String}
    (h : Conforms extended { symbol := .type place .guarded, mode := .never } node)
    (more : List Token) : Misses .legacyCaller (node.tokens ++ more) := by
  obtain ⟨stem, hstem, slots, hslots, attributes, parts, mark, rfl, hattributes, hparts, -⟩ :=
    conforms_type_iff.mp h
  obtain rfl := eq_noAttributes_of_conforms hattributes rfl
  have hname {spelling : String → Bool} {base : Token}
      (hbase : (Terminal.typeName spelling).accepts base = true)
      (hother : spelling Grammar.legacyCallerWord = false) (rest : List Token) :
      Misses .legacyCaller (base :: rest) := by
    refine .head rfl (Bool.eq_false_iff.mpr fun hlegacy => ?_)
    have hspelling := (accepts_typeName.mp hbase).2
    rw [(accepts_named.mp hlegacy).2, hother] at hspelling
    cases hspelling
  have hmisses : Misses .legacyCaller (tokensOf parts ++ (mark.toList ++ more)) := by
    by_cases hnamed : stem = .name ∨ stem = .any
    · rcases hnamed with rfl | rfl
      · obtain rfl := List.mem_singleton.mp hslots
        obtain ⟨base, rest, rfl, hbase, -⟩ := fits_token.mp hparts
        exact hname hbase (by decide) _
      · obtain rfl := List.mem_singleton.mp hslots
        obtain ⟨base, rest, rfl, hbase, -⟩ := fits_token.mp hparts
        exact hname hbase (by decide) _
    · have hall : (stem.slots place .guarded).all (isHeadedBy { words := typeWords }) = true := by
        cases stem <;> first | rfl | exact absurd (by simp) hnamed
      exact misses_of_begins (hparts.begins (fun hconforms => hconforms.begins_heads)
        (List.all_eq_true.mp hall slots hslots)) rfl _
  simpa [Node.tokens, tokensOf] using hmisses

/-- An operation that is told from legacy callers does not begin like one. -/
theorem misses_legacyCaller_operation
    (h : Conforms extended { symbol := .operation false .guarded, mode := .never } node)
    (more : List Token) : Misses .legacyCaller (node.tokens ++ more) := by
  cases h with
  | mk hform hparts =>
      rcases List.mem_append.mp hform with hspecial | hplain
      · obtain rfl := List.mem_singleton.mp hspecial
        refine misses_of_begins (begins_of_form id (fun hconforms => hconforms.begins_heads) rfl
          hparts (show isHeadedBy { words := ["getter", "setter", "deleter"] } _ = true from rfl))
          rfl more
      · obtain rfl := List.mem_singleton.mp hplain
        obtain ⟨attributes, rest, rfl, hattributes, hrest⟩ := fits_node.mp hparts
        obtain ⟨type, rest, rfl, htype, hrest⟩ := fits_node.mp hrest
        obtain rfl := eq_noAttributes_of_conforms hattributes rfl
        have hmisses : Misses .legacyCaller (type.tokens ++ (tokensOf rest ++ more)) := by
          rcases conforms_returnType_iff.mp htype with htype | ⟨-, hvoid⟩
          · exact misses_legacyCaller_type htype _
          · obtain ⟨label, parts⟩ := type
            exact misses_of_begins (begins_of_form id (fun hconforms => hconforms.begins_heads) rfl
              hvoid (show isHeadedBy { words := ["void"] } _ = true from rfl)) rfl _
        simpa [Node.tokens, tokensOf] using hmisses

/-- The words of an attribute and what follows them. -/
theorem Conforms.split_attribute {noInherit mustBeReadonly : Bool}
    (h : Conforms extended { symbol := .attribute noInherit mustBeReadonly, mode := .never } node) :
    ∃ special readonly parts,
      node = .mk { construct := .attribute } (Grammar.bare :: (Part.ofToken? .special special ++
        (Part.ofToken? .readonly readonly ++ parts))) ∧
      (∀ token ∈ special, (Terminal.word "inherit").accepts token = true) ∧
      (∀ token ∈ readonly, (Terminal.word "readonly").accepts token = true) ∧
      Fits (Conforms extended) (attributeForm []).slots parts ∧
      (special.isSome → noInherit = false ∧ mustBeReadonly = false ∧ readonly = none) ∧
      (mustBeReadonly → readonly.isSome) := by
  cases h with
  | mk hform hparts =>
      -- the form with `inherit` is there only if nothing rules it out
      rcases List.mem_append.mp hform with hinherit | hplain
      · split at hinherit
        · cases hinherit
        · rename_i hboth
          obtain rfl := List.mem_singleton.mp hinherit
          obtain ⟨attributes, rest, rfl, hattributes, hrest⟩ := fits_node.mp hparts
          obtain ⟨special, rest, rfl, hspecial, hrest⟩ := fits_token.mp hrest
          obtain rfl := eq_noAttributes_of_conforms hattributes rfl
          simp only [Bool.or_eq_true, not_or, Bool.not_eq_true] at hboth
          exact ⟨some special, none, rest, rfl, by simpa using hspecial, by simp, hrest,
            fun _ => ⟨hboth.1, hboth.2, rfl⟩, by simp [hboth.2]⟩
      · obtain rfl := List.mem_singleton.mp hplain
        obtain ⟨attributes, rest, rfl, hattributes, hrest⟩ := fits_node.mp hparts
        obtain rfl := eq_noAttributes_of_conforms hattributes rfl
        cases mustBeReadonly with
        | true =>
            obtain ⟨readonly, rest, rfl, hreadonly, hrest⟩ := fits_token.mp hrest
            exact ⟨none, some readonly, rest, rfl, by simp, by simpa using hreadonly, hrest,
              by simp, by simp⟩
        | false =>
            obtain ⟨readonly, rest, rfl, hreadonly, hrest⟩ := fits_option.mp hrest
            exact ⟨none, readonly, rest, rfl, by simp, hreadonly, hrest, by simp, by simp⟩

/-- An attribute is no collection, even if it is read-only. -/
theorem misses_iterableLike_attribute {noInherit mustBeReadonly : Bool}
    (h : Conforms extended { symbol := .attribute noInherit mustBeReadonly, mode := .never } node)
    (more : List Token) : Misses .iterableLike (node.tokens ++ more) := by
  obtain ⟨special, readonly, parts, rfl, hspecial, hreadonly, hparts, hinherit, -⟩ :=
    h.split_attribute
  obtain ⟨base, rest, rfl, hbase, -⟩ := fits_token.mp hparts
  have hmisses : Misses .iterableLike
      (special.toList ++ (readonly.toList ++ base :: (tokensOf rest ++ more))) := by
    cases special with
    | some special =>
        exact .head rfl (Terminal.rejects_of_avoids rfl (hspecial special rfl))
    | none =>
        cases readonly with
        | some readonly =>
            exact .iterableLike (hreadonly readonly rfl) (Terminal.rejects_of_avoids rfl hbase)
        | none => exact .head rfl (Terminal.rejects_of_avoids rfl hbase)
  simpa [Node.tokens, tokensOf, Grammar.bare] using hmisses

/-- The productions of a body that find a member: the first of them that does not decline. -/
theorem Conforms.chosen_member {body : Body}
    (h : Conforms extended { symbol := .member body, mode := .never } node) :
    Chosen extended (body.productions extended) node := by
  obtain ⟨symbol, hsymbol, hnode⟩ := h.exists_symbol rfl
  -- each member is found by the production of its symbol, which is the first that does not miss it:
  -- the others look for another word, but for the exceptions named
  cases body with
  | interface legacy =>
      cases legacy with
      | false =>
          simp only [Body.members, Bool.false_eq_true, if_false, List.nil_append, List.mem_cons,
            List.not_mem_nil, or_false] at hsymbol
          rcases hsymbol with rfl | rfl | rfl | rfl | rfl | rfl | rfl
          · exact chosen_of_begins 0 rfl hnode (begins_word "const" hnode rfl) rfl
          · exact chosen_of_begins 1 rfl hnode (begins_word "constructor" hnode rfl) rfl
          · exact chosen_of_begins 2 rfl hnode (begins_word "static" hnode rfl) rfl
          · exact chosen_of_begins 3 rfl hnode (begins_word "stringifier" hnode rfl) rfl
          · exact chosen_of_begins 4 rfl hnode (begins_iterableLike hnode) rfl
          · -- `readonly` may open an attribute and a set or map
            exact chosen_except 5 .iterableLike rfl hnode (begins_attribute hnode)
              (misses_iterableLike_attribute hnode) rfl
          · exact chosen_of_begins 6 rfl hnode (begins_operation hnode) rfl
      | true =>
          simp only [Body.members, if_true, List.cons_append, List.nil_append, List.mem_cons,
            List.not_mem_nil, or_false] at hsymbol
          rcases hsymbol with rfl | rfl | rfl | rfl | rfl | rfl | rfl | rfl
          · exact ⟨[], .legacyCaller, _, rfl, hnode, by simp⟩
          · exact chosen_of_begins 1 rfl hnode (begins_word "const" hnode rfl) rfl
          · exact chosen_of_begins 2 rfl hnode (begins_word "constructor" hnode rfl) rfl
          · exact chosen_of_begins 3 rfl hnode (begins_word "static" hnode rfl) rfl
          · exact chosen_of_begins 4 rfl hnode (begins_word "stringifier" hnode rfl) rfl
          · exact chosen_of_begins 5 rfl hnode (begins_iterableLike hnode) rfl
          · exact chosen_except 6 .iterableLike rfl hnode (begins_attribute hnode)
              (misses_iterableLike_attribute hnode) rfl
          · -- `legacycaller` is an identifier, so an operation might return it
            exact chosen_except 7 .legacyCaller rfl (conforms_operation_of_guarded hnode)
              (begins_operation hnode) (misses_legacyCaller_operation hnode) rfl
  | mixin =>
      simp only [Body.members, List.mem_cons, List.not_mem_nil, or_false] at hsymbol
      rcases hsymbol with rfl | rfl | rfl | rfl
      · exact chosen_of_begins 0 rfl hnode (begins_word "const" hnode rfl) rfl
      · exact chosen_of_begins 1 rfl hnode (begins_word "stringifier" hnode rfl) rfl
      · exact chosen_of_begins 2 rfl hnode (begins_attribute hnode) rfl
      · exact chosen_of_begins 3 rfl hnode (begins_operation hnode) rfl
  | callbackInterface =>
      cases extended with
      | false =>
          simp only [Body.members, Bool.false_eq_true, if_false, List.nil_append, List.mem_cons,
            List.not_mem_nil, or_false] at hsymbol
          rcases hsymbol with rfl | rfl
          · exact chosen_of_begins 0 rfl hnode (begins_word "const" hnode rfl) rfl
          · exact chosen_of_begins 1 rfl hnode (begins_operation hnode) rfl
      | true =>
          simp only [Body.members, if_true, List.cons_append, List.nil_append, List.mem_cons,
            List.not_mem_nil, or_false] at hsymbol
          rcases hsymbol with rfl | rfl | rfl
          · exact chosen_of_begins 0 rfl hnode (begins_attribute hnode) rfl
          · exact chosen_of_begins 1 rfl hnode (begins_word "const" hnode rfl) rfl
          · exact chosen_of_begins 2 rfl hnode (begins_operation hnode) rfl
  | namespaceDef =>
      cases extended with
      | false =>
          simp only [Body.members, Bool.not_false, List.mem_cons, List.not_mem_nil,
            or_false] at hsymbol
          rcases hsymbol with rfl | rfl | rfl
          · exact chosen_of_begins 0 rfl hnode (begins_attribute hnode) rfl
          · exact chosen_of_begins 1 rfl hnode (begins_word "const" hnode rfl) rfl
          · exact chosen_of_begins 2 rfl hnode (begins_operation hnode) rfl
      | true =>
          simp only [Body.members, Bool.not_true, List.mem_cons, List.not_mem_nil,
            or_false] at hsymbol
          rcases hsymbol with rfl | rfl | rfl
          · exact chosen_of_begins 0 rfl hnode (begins_attribute hnode) rfl
          · exact chosen_of_begins 2 rfl hnode (begins_word "const" hnode rfl) rfl
          · exact chosen_of_begins 3 rfl hnode (begins_operation hnode) rfl
  | dictionary =>
      cases extended with
      | false =>
          obtain rfl := List.mem_singleton.mp hsymbol
          exact ⟨[], .field, _, rfl, conforms_loneField (Or.inl rfl) hnode, by simp⟩
      | true =>
          simp only [Body.members, if_true, List.mem_cons, List.not_mem_nil, or_false] at hsymbol
          rcases hsymbol with rfl | rfl
          · exact ⟨[], .utf8StringField, _, rfl, hnode, by simp⟩
          · refine ⟨[.utf8StringField], .field, _, rfl, conforms_loneField (Or.inr rfl) hnode, ?_⟩
            -- the production of record fields is tried first and misses other fields
            intro earlier hearlier more
            rw [List.mem_singleton.mp hearlier]
            exact misses_utf8StringField hnode more

/-! ## Definitions -/

/-- An interface with a body has no semicolon behind its name. -/
theorem misses_bodylessInterface_interface {tag : String} {legacy : Bool}
    (h : Conforms extended { symbol := .interface tag legacy, mode := .never } node)
    (more : List Token) : Misses .bodylessInterface (node.tokens ++ more) := by
  cases h with
  | mk hform hparts =>
      simp only [Symbol.forms, Symbol.ownForms, interfaceForms, heirForms, List.mem_cons,
        List.not_mem_nil, or_false] at hform
      rcases hform with rfl | rfl
      all_goals
        obtain ⟨attributes, rest, rfl, hattributes, hrest⟩ := fits_node.mp hparts
        obtain ⟨base, rest, rfl, hbase, hrest⟩ := fits_token.mp hrest
        obtain ⟨name, rest, rfl, hname, hrest⟩ := fits_token.mp hrest
        obtain ⟨mark, rest, rfl, hmark, hrest⟩ := fits_token.mp hrest
        obtain rfl := eq_noAttributes_of_conforms hattributes rfl
        simpa [Node.tokens, tokensOf] using
          @Misses.bodyless _ _ _ (tokensOf rest ++ more) hbase hname
            (Terminal.rejects_of_avoids rfl hmark)

/-- A mixin begins with two keywords. -/
theorem split_mixin (h : Conforms extended { symbol := .mixin, mode := .never } node) :
    ∃ base mixin rest, node.tokens = base :: mixin :: rest ∧
      (Terminal.word "interface").accepts base = true ∧
      (Terminal.word "mixin").accepts mixin = true := by
  cases h with
  | mk hform hparts =>
      obtain rfl := List.mem_singleton.mp hform
      obtain ⟨attributes, rest, rfl, hattributes, hrest⟩ := fits_node.mp hparts
      obtain ⟨base, rest, rfl, hbase, hrest⟩ := fits_token.mp hrest
      obtain ⟨mixin, rest, rfl, hmixin, hrest⟩ := fits_token.mp hrest
      obtain rfl := eq_noAttributes_of_conforms hattributes rfl
      exact ⟨base, mixin, tokensOf rest, by simp [Node.tokens, tokensOf], hbase, hmixin⟩

/-- Behind the first word of a callback there is its name or the word `interface`. -/
theorem misses_callbackConstructor_callback
    (h : Conforms extended { symbol := .callback, mode := .never } node) (more : List Token) :
    Misses .callbackConstructor (node.tokens ++ more) := by
  cases h with
  | mk hform hparts =>
      simp only [Symbol.forms, Symbol.ownForms, callbackForms, List.mem_cons, List.not_mem_nil,
        or_false] at hform
      rcases hform with rfl | rfl
      all_goals
        obtain ⟨attributes, rest, rfl, hattributes, hrest⟩ := fits_node.mp hparts
        obtain ⟨base, rest, rfl, hbase, hrest⟩ := fits_token.mp hrest
        obtain ⟨second, rest, rfl, hsecond, hrest⟩ := fits_token.mp hrest
        obtain rfl := eq_noAttributes_of_conforms hattributes rfl
        simpa [Node.tokens, tokensOf] using
          @Misses.callback _ _ (tokensOf rest ++ more) hbase (Terminal.rejects_of_avoids rfl hsecond)

/-- The production of interfaces finds mixins too. -/
theorem conforms_interfaceOrMixin
    (h : Conforms extended { symbol := .mixin, mode := .never } node) :
    Conforms extended { symbol := .interfaceOrMixin, mode := .never } node :=
  h.of_subset (List.subset_append_right _ _)

/-- The productions that a dialect of this kind adds to the standard definitions. -/
def definingProductions (extended : Bool) : List Production :=
  (if extended then Dialect.gecko.productions else []) ++ Grammar.standardDefinitions

theorem Conforms.chosen_definition
    (h : Conforms extended { symbol := .definition, mode := .never } node) :
    Chosen extended (definingProductions extended) node := by
  obtain ⟨symbol, hsymbol, hnode⟩ := h.exists_symbol rfl
  -- as for members: the words that open definitions are told apart, but for the exceptions named
  cases extended with
  | false =>
      simp only [definitionSymbols, Bool.false_eq_true, if_false, List.mem_cons, List.not_mem_nil,
        or_false] at hsymbol
      rcases hsymbol with rfl | rfl | rfl | rfl | rfl | rfl | rfl | rfl
      · exact chosen_of_begins 0 rfl hnode (begins_word "callback" hnode rfl) rfl
      · exact chosen_of_begins 1 rfl hnode (begins_word "interface" hnode rfl) rfl
      · exact chosen_of_begins 2 rfl hnode (begins_word "partial" hnode rfl) rfl
      · exact chosen_of_begins 3 rfl hnode (begins_word "dictionary" hnode rfl) rfl
      · exact chosen_of_begins 4 rfl hnode (begins_word "enum" hnode rfl) rfl
      · exact chosen_of_begins 5 rfl hnode (begins_word "typedef" hnode rfl) rfl
      · exact chosen_of_begins 6 rfl hnode (hnode.begins rfl : Begins .identifier _) rfl
      · exact chosen_of_begins 7 rfl hnode (begins_word "namespace" hnode rfl) rfl
  | true =>
      simp only [definitionSymbols, if_true, List.mem_cons, List.not_mem_nil, or_false] at hsymbol
      rcases hsymbol with rfl | rfl | rfl | rfl | rfl | rfl | rfl | rfl | rfl | rfl | rfl | rfl
      · exact chosen_of_begins 0 rfl hnode (begins_word "interface" hnode rfl) rfl
      · exact chosen_of_begins 1 rfl hnode (begins_word "callback" hnode rfl) rfl
      · -- an interface that may hold legacy callers has a body
        exact chosen_except 2 .bodylessInterface rfl hnode (begins_word "interface" hnode rfl)
          (misses_bodylessInterface_interface hnode) rfl
      · exact chosen_of_begins 3 rfl hnode (begins_word "typedef" hnode rfl) rfl
      · exact chosen_except 4 .callbackConstructor rfl hnode (begins_word "callback" hnode rfl)
          (misses_callbackConstructor_callback hnode) rfl
      · refine chosen_at 5 rfl (conforms_interfaceOrMixin hnode) fun earlier hearlier more => ?_
        -- a mixin opens as an interface does, and only the word behind tells them apart
        obtain ⟨base, mixin, rest, htokens, hbase, hmixin⟩ := split_mixin hnode
        have hfront : earlier ∈ [.bodylessInterface, .callbackConstructor, .legacyCallerInterface,
            .utf8StringTypedef, .callback] := hearlier
        simp only [List.mem_cons, List.not_mem_nil, or_false] at hfront
        rw [htokens]
        rcases hfront with rfl | rfl | rfl | rfl | rfl
        · exact .nameless hbase (Terminal.rejects_of_avoids rfl hmixin)
        · exact .head rfl (Terminal.rejects_of_avoids rfl hbase)
        · exact .mixin hbase hmixin
        · exact .head rfl (Terminal.rejects_of_avoids rfl hbase)
        · exact .head rfl (Terminal.rejects_of_avoids rfl hbase)
      · exact chosen_of_begins 6 rfl hnode (begins_word "partial" hnode rfl) rfl
      · exact chosen_of_begins 7 rfl hnode (begins_word "dictionary" hnode rfl) rfl
      · exact chosen_of_begins 8 rfl hnode (begins_word "enum" hnode rfl) rfl
      · exact chosen_except 9 .utf8StringTypedef rfl (conforms_typedef_of_plain hnode)
          (begins_word "typedef" hnode rfl) (misses_utf8StringTypedef hnode) rfl
      · exact chosen_of_begins 10 rfl hnode (hnode.begins rfl : Begins .identifier _) rfl
      · exact chosen_of_begins 11 rfl hnode (begins_word "namespace" hnode rfl) rfl

end

end WebIdl.Shape
