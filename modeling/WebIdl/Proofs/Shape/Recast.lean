import WebIdl.Proofs.Shape.Bracket
import WebIdl.Proofs.Shape.Place

/-!
# Records with other keys

In the extended language a record may have `UTF8String` keys wherever it may have `DOMString` keys.
The two are constructs of different classes, and a member of a dictionary or a typedef that is such a
record is again of a class of its own; apart from that their trees are the same (`Recast`).

`Formed.recast` follows the three tokens `record`, `<` and the key into a well-formed tree, and puts
the other key there.  The record that it finds may stand in the same places with the other key, except
that a slot can be for types that are no `UTF8String` records, or for such records only
(`Keys.limit`).  The rows with slots of this kind come in pairs (`Partners`), so it is enough to
change the class of the construct that holds the record.
-/

namespace WebIdl.Shape

/-- The keys of a record: the keyword `DOMString`, or the identifier `UTF8String`. -/
inductive Keys where
  | dom | utf8

namespace Keys

def other : Keys → Keys
  | .dom => .utf8
  | .utf8 => .dom

/-- The key itself. -/
def terminal : Keys → Terminal
  | .dom => .word "DOMString"
  | .utf8 => .named Grammar.utf8String

/-- The class of a record with these keys. -/
def record : Keys → Construct
  | .dom => .type
  | .utf8 => .utf8StringRecord

/-- The class of a member of a dictionary that is such a record. -/
def field : Keys → Construct
  | .dom => .field
  | .utf8 => .utf8StringField

/-- The class of a typedef for such a record. -/
def typedef : Keys → Construct
  | .dom => .typedef
  | .utf8 => .utf8StringTypedef

def stem : Keys → Stem
  | .dom => .record
  | .utf8 => .utf8Record

/-- The limit of a type that may be such a record, but not one with the other keys. -/
def limit : Keys → Limit
  | .dom => .plain
  | .utf8 => .utf8Record

end Keys

/-! ## The two trees -/

/-- A record with this key, up to the comma behind the key. -/
def recordNode (keys : Keys) (attributes : Node) (base opening key comma : Token)
    (rest : List Part) : Node :=
  .mk { construct := keys.record } (.node .attributes attributes :: .token .base base ::
    .token .opening opening :: .node .subtype (.mk { construct := .type }
      [Grammar.bare, .token .base key, .token .separator comma]) :: rest)

/-- A record with one key, and the same record with the other key in its place. -/
inductive RecastRecord (keys : Keys) (key other : Token) : Node → Node → Prop where
  | mk (attributes : Node) (base opening comma : Token) (rest : List Part) :
      RecastRecord keys key other (recordNode keys attributes base opening key comma rest)
        (recordNode keys.other attributes base opening other comma rest)

/-- What differs between a tree and the one with the other key: a record, or else a record and the
class of the field or typedef that it is the type of. -/
inductive Recast (keys : Keys) (key other : Token) : Node → Node → Prop where
  | record {first second : Node} (h : RecastRecord keys key other first second) :
      Recast keys key other first second
  | field {first second : Node} (front back : List Part)
      (h : RecastRecord keys key other first second) :
      Recast keys key other (.mk { construct := keys.field } (front ++ .node .type first :: back))
        (.mk { construct := keys.other.field } (front ++ .node .type second :: back))
  | typedef {first second : Node} (front back : List Part)
      (h : RecastRecord keys key other first second) :
      Recast keys key other (.mk { construct := keys.typedef } (front ++ .node .type first :: back))
        (.mk { construct := keys.other.typedef } (front ++ .node .type second :: back))

/-! ## The row of a record -/

namespace Keys

/-- The symbol of the key. -/
def symbol (place : Option String) : Keys → Symbol
  | .dom => .recordKey place
  | .utf8 => .utf8Key

/-- The place of the values. -/
def valuePlace (place : Option String) : Keys → Option String
  | .dom => place
  | .utf8 => none

/-- The form of a record with these keys. -/
def form (keys : Keys) (place : Option String) : Form where
  construct := keys.record
  place := place
  slots := [.word .base "record", .word .opening "<",
    .node .subtype { symbol := keys.symbol place, mode := .never, separator := some "," },
    .node .subtype { symbol := .type (keys.valuePlace place) .all }, .word .closing ">",
    .option .nullable (.word "?")]

theorem forms_stem (keys : Keys) (place : Option String) (limit : Limit) :
    keys.stem.forms place limit = [keys.form place] := by
  cases keys <;> rfl

end Keys

def recordToken : Token where
  kind := .inline
  text := "record"

/-- Is the slot for a base that is spelled `record`? -/
def Slot.isRecordBase : Slot → Bool
  | .token .base terminal => terminal.accepts recordToken
  | _ => false

/-- Only records have the base `record`. -/
theorem exists_keys_of_mem_forms {symbol : Symbol} {form : Form} (hsymbol : symbol.isInner = true)
    (hform : form ∈ symbol.forms true) (hbase : form.slots.any Slot.isRecordBase = true) :
    ∃ (keys : Keys) (place : Option String) (limit : Limit), keys.stem ∈ limit.stems true ∧
      form = keys.form place ∧ (symbol = .type place limit ∨ symbol = .returnType place limit) := by
  have htype {place : Option String} {limit : Limit} (hform : form ∈ typeForms true place limit) :
      ∃ keys : Keys, keys.stem ∈ limit.stems true ∧ form = keys.form place := by
    obtain ⟨stem, hstem, hown⟩ := List.mem_flatMap.mp hform
    -- no other stem opens with the word `record`
    have hother (hall : (stem.forms place limit).all (!·.slots.any Slot.isRecordBase) = true) :
        False := by
      have hnone := List.all_eq_true.mp hall form hown
      rw [hbase] at hnone
      cases hnone
    cases stem with
    | record => exact ⟨.dom, hstem, List.mem_singleton.mp hown⟩
    | utf8Record => exact ⟨.utf8, hstem, List.mem_singleton.mp hown⟩
    | _ => exact (hother rfl).elim
  -- nor does a form of another symbol
  have hother (hall : (symbol.forms true).all (!·.slots.any Slot.isRecordBase) = true) : False := by
    have hnone := List.all_eq_true.mp hall form hform
    rw [hbase] at hnone
    cases hnone
  cases symbol with
  | type place limit =>
      obtain ⟨keys, hkeys, heq⟩ := htype hform
      exact ⟨keys, place, limit, hkeys, heq, Or.inl rfl⟩
  | returnType place limit =>
      rcases List.mem_append.mp hform with hown | hvoid
      · obtain ⟨keys, hkeys, heq⟩ := htype hown
        exact ⟨keys, place, limit, hkeys, heq, Or.inr rfl⟩
      · obtain rfl := List.mem_singleton.mp hvoid
        cases hbase
  | wrappedToken kind => exact (hother rfl).elim
  | attributes mode => exact (hother (by cases mode <;> rfl)).elim
  | member body =>
      cases body with
      | interface legacy => exact (hother (by cases legacy <;> rfl)).elim
      | _ => exact (hother rfl).elim
  | extendedAttribute | default | argument | recordKey | utf8Key | constantType | enumValue
  | definition => exact (hother rfl).elim
  | _ => cases hsymbol

/-! ## Another key -/

theorem Label.unplaced_eq {label : Label} {form : Form} (hconstruct : label.construct = form.construct)
    (htag : label.tag = form.tag) (hdefault : form.tag = form.construct.tag) :
    label.unplaced = { construct := form.construct } := by
  rw [Label.unplaced, hconstruct, htag, hdefault]

/-- The limit of a place when the record there gets the other keys. -/
def Limit.recast (keys : Keys) (limit : Limit) : Limit :=
  if limit = keys.limit then keys.other.limit else limit

/-- The category of a place when the record there gets the other keys. -/
def Category.recast (keys : Keys) (category : Category) : Category :=
  match category.symbol with
  | .type place limit => { category with symbol := .type place (limit.recast keys) }
  | _ => category

namespace Keys

theorem other_stem_mem (keys : Keys) (limit : Limit) :
    keys.other.stem ∈ (limit.recast keys).stems true := by
  cases keys <;> cases limit <;> decide

theorem stem_mem_of_isReturned (keys : Keys) {limit : Limit} (h : limit.isReturned = true) :
    keys.stem ∈ limit.stems true := by
  cases keys <;> cases limit <;> first | decide | cases h

theorem form_mem {keys : Keys} {limit : Limit} (place : Option String)
    (h : keys.stem ∈ limit.stems true) : keys.form place ∈ typeForms true place limit := by
  refine List.mem_flatMap.mpr ⟨keys.stem, h, ?_⟩
  rw [forms_stem]
  exact List.mem_singleton_self _

/-- The keys that a record of this class may have. -/
def keyTerminal : Keys → Terminal
  | .dom => { words := Keyword.stringTypes }
  | .utf8 => .named Grammar.utf8String

/-- The form of the key. -/
def keyForm (keys : Keys) (place : Option String) : Form where
  construct := .type
  place := keys.valuePlace place
  slots := [.token .base keys.keyTerminal]

theorem forms_symbol (keys : Keys) (place : Option String) :
    (keys.symbol place).forms true = [keys.keyForm place] := by
  cases keys <;> rfl

theorem keyForm_mem (keys : Keys) (place : Option String) :
    keys.keyForm place ∈ (keys.symbol place).forms true := by
  rw [forms_symbol]
  exact List.mem_singleton_self _

theorem keyTerminal_accepts {keys : Keys} {token : Token} (h : keys.terminal.accepts token = true) :
    keys.keyTerminal.accepts token = true := by
  cases keys with
  | dom =>
      obtain ⟨hkind, htext⟩ := accepts_word.mp h
      simp [keyTerminal, Terminal.accepts, hkind, htext, Keyword.stringTypes]
  | utf8 => exact h

/-- The key tells the class of the record. -/
theorem eq_of_accepts {keys own : Keys} {token : Token} (h : keys.terminal.accepts token = true)
    (hown : own.keyTerminal.accepts token = true) : own = keys := by
  cases keys <;> cases own
  · rfl
  · obtain ⟨hkind, -⟩ := accepts_word.mp h
    rw [(accepts_named.mp hown).1] at hkind
    cases hkind
  · obtain ⟨hkind, -⟩ := accepts_words.mp hown
    rw [(accepts_named.mp h).1] at hkind
    cases hkind
  · rfl

end Keys

section

variable {keys : Keys} {category : Category} {node : Node}

theorem Formed.unwritten {mode : Mode} (h : Formed true { symbol := .attributes .never, mode } node) :
    node.tokens = [] ∧ node.unplaced = Node.noAttributes := by
  cases h with
  | mk hform hconstruct htag hparts =>
      obtain rfl := List.mem_singleton.mp hform
      obtain rfl := fits_nil.mp hparts
      refine ⟨by rw [Node.tokens, tokensOf], ?_⟩
      rw [Node.unplaced, Node.map, Label.unplaced_eq hconstruct htag rfl]
      rfl

/-- The key of a record, and the other key in its place. -/
theorem Formed.key_cases {place : Option String}
    (h : Formed true { symbol := keys.symbol place, mode := .never, separator := some "," } node) :
    ∃ label attributes key comma,
      node = .mk label [.node .attributes attributes, .token .base key, .token .separator comma] ∧
      label.unplaced = { construct := .type } ∧ attributes.tokens = [] ∧
      attributes.unplaced = Node.noAttributes ∧ keys.keyTerminal.accepts key = true ∧
      ∀ (own : Keys) other, own.terminal.accepts other = true →
        Formed true { symbol := own.symbol place, mode := .never, separator := some "," }
          (.mk label [.node .attributes attributes, .token .base other,
            .token .separator comma]) := by
  cases h with
  | mk hform hconstruct htag hparts =>
      rw [keys.forms_symbol, List.mem_singleton] at hform
      subst hform
      obtain ⟨attributes, _, rfl, hattributes, hparts⟩ := fits_node.mp hparts
      obtain ⟨key, _, rfl, hkey, hparts⟩ := fits_token.mp hparts
      obtain ⟨comma, _, rfl, hcomma, hparts⟩ := fits_token.mp hparts
      obtain rfl := fits_nil.mp hparts
      obtain ⟨htokens, hunplaced⟩ := hattributes.unwritten
      refine ⟨_, attributes, key, comma, rfl, Label.unplaced_eq hconstruct htag rfl, htokens,
        hunplaced, hkey, fun own other hother => ?_⟩
      refine .mk (own.keyForm_mem place) hconstruct htag ?_
      exact .node hattributes (.token (own.keyTerminal_accepts hother) (.token hcomma .nil))

theorem unplaced_record {label keyLabel : Label} {attributes bare : Node}
    {base opening key comma : Token} {rest : List Part}
    (hlabel : label.unplaced = { construct := keys.record })
    (hkeyLabel : keyLabel.unplaced = { construct := .type })
    (hbare : bare.unplaced = Node.noAttributes) :
    (Node.mk label (.node .attributes attributes :: .token .base base :: .token .opening opening ::
      .node .subtype (.mk keyLabel
        [.node .attributes bare, .token .base key, .token .separator comma]) :: rest)).unplaced =
      recordNode keys attributes.unplaced base opening key comma
        (mapParts id Label.unplaced rest) := by
  rw [Node.unplaced] at hbare
  simp only [Node.unplaced, Node.map, mapParts, recordNode, Grammar.bare, hlabel, hkeyLabel, hbare,
    id]

/-- A record that has the bracket among its own parts, and the same record with the other key. -/
theorem exists_recastRecord {form : Form} {label : Label} {front back : List Part} {role : Role}
    {before after : List Token} {base opening key other : Token}
    (hcategory : category.isInner = true) (hform : form ∈ category.symbol.forms true)
    (hconstruct : label.construct = form.construct) (htag : label.tag = form.tag)
    (hparts : Fits (Formed true) (category.slots form) (front ++ .token role opening :: back))
    (hbase : (Terminal.word "record").accepts base = true)
    (hopening : (Terminal.word "<").accepts opening = true)
    (hkey : keys.terminal.accepts key = true) (hother : keys.other.terminal.accepts other = true)
    (hfront : tokensOf front = before ++ [base]) (hback : tokensOf back = key :: after) :
    ∃ changed, changed.tokens = before ++ base :: opening :: other :: after ∧
      RecastRecord keys key other (Node.mk label (front ++ .token role opening :: back)).unplaced
        changed.unplaced ∧
      Formed true (category.recast keys) changed := by
  obtain ⟨others, found, terminal, rfl, hslot, hfound, -⟩ :=
    hparts.split_bracket hcategory hform hopening
  rw [tokensOf_append] at hfront
  obtain ⟨rfl, hbases⟩ := List.append_inj' hfront rfl
  obtain rfl : found = base := (List.cons.inj hbases).1
  have hrecord : form.slots.any Slot.isRecordBase = true := by
    rcases mem_slots_iff.mp hslot with ⟨-, heq⟩ | hown | ⟨separator, -, heq⟩
    · cases heq
    · obtain ⟨hkind, htext⟩ := accepts_word.mp hbase
      exact List.any_eq_true.mpr ⟨_, hown, (Terminal.accepts_congr hkind htext).symm.trans hfound⟩
    · cases heq
  obtain ⟨symbol, mode, separator⟩ := category
  obtain ⟨own, place, limit, hstem, rfl, hsymbol⟩ :=
    exists_keys_of_mem_forms (Bool.and_eq_true_iff.mp hcategory).1 hform hrecord
  -- the row of the record, part by part
  obtain ⟨attributes, _, hrow, hattributes, hparts⟩ := fits_node.mp hparts
  obtain ⟨word, _, rfl, hword, hparts⟩ := fits_token.mp hparts
  obtain ⟨mark, _, rfl, hmark, hparts⟩ := fits_token.mp hparts
  obtain ⟨keyNode, rest, rfl, hkeyNode, hrest⟩ := fits_node.mp hparts
  obtain ⟨rfl, rfl, rfl, rfl, rfl⟩ : others = [.node .attributes attributes] ∧ word = found ∧
      role = .opening ∧ mark = opening ∧ back = .node .subtype keyNode :: rest := by
    rcases others with _ | ⟨first, _ | ⟨second, _ | ⟨third, _ | ⟨fourth, others⟩⟩⟩⟩
    · simp at hrow
    · simpa [eq_comm, and_assoc] using hrow
    · simp at hrow
    · simp at hrow
    · -- there is no other base behind the key
      have hnone : (Node.mk label rest).token? .base = none := by
        refine hrest.token?_eq_none ?_
        cases separator <;> rfl
      have hmem : Part.token .base found ∈ rest := by
        simp only [List.cons_append, List.append_assoc, List.nil_append, List.cons.injEq] at hrow
        simp [← hrow.2.2.2.2]
      simpa [Part.tokenAs?] using List.findSome?_eq_none_iff.mp hnone _ hmem
  obtain ⟨keyLabel, bare, leaf, comma, rfl, hkeyLabel, htokens, hbare, hleaf, hchange⟩ :=
    hkeyNode.key_cases
  obtain ⟨rfl, rfl⟩ : leaf = key ∧ comma :: tokensOf rest = after := by
    simpa [tokensOf, Node.tokens, htokens] using hback
  obtain rfl := Keys.eq_of_accepts hkey hleaf
  refine ⟨.mk { construct := own.other.record } (.node .attributes attributes ::
    .token .base word :: .token .opening mark :: .node .subtype (.mk keyLabel
      [.node .attributes bare, .token .base other, .token .separator comma]) :: rest), ?_, ?_, ?_⟩
  · simp [Node.tokens, tokensOf, htokens]
  · have hlabel : label.unplaced = { construct := own.record } :=
      Label.unplaced_eq hconstruct htag rfl
    have hlabel' : Label.unplaced { construct := own.other.record } =
      { construct := own.other.record } := rfl
    rw [List.append_assoc, List.cons_append, List.cons_append, List.nil_append, List.nil_append,
      unplaced_record hlabel hkeyLabel hbare, unplaced_record hlabel' hkeyLabel hbare]
    exact .mk _ _ _ _ _
  · have hfits : Fits (Formed true)
        (Category.slots ⟨.type place limit, mode, separator⟩ (own.other.form place)) _ :=
      .node hattributes (.token hword (.token hmark (.node (hchange own.other other hother)
        (hrest.replaced rfl fun _ _ _ heq h => h.of_unplaced heq))))
    rcases hsymbol with rfl | rfl
    · exact .mk (own.other.form_mem place (own.other_stem_mem limit)) rfl rfl hfits
    · have hreturned : limit.isReturned = true := (Bool.and_eq_true_iff.mp hcategory).1
      exact .mk (List.mem_append_left _ (own.other.form_mem place
        (own.other.stem_mem_of_isReturned hreturned))) rfl rfl hfits

end

/-! ## What holds a record -/

/-- Is the category for types that may be records with these keys, but not with the other ones? -/
def Category.isLimited (keys : Keys) (category : Category) : Bool :=
  match category.symbol with
  | .type _ limit => limit == keys.limit
  | _ => false

def Slot.isLimited (keys : Keys) : Slot → Bool
  | .token _ _ | .option _ _ => false
  | .node _ category | .nodeOption _ category | .many _ category | .list _ category _ _ _ =>
      category.isLimited keys

/-- The slot for the type of a construct. -/
def Slot.isType : Slot → Bool
  | .node .type _ => true
  | _ => false

def Slot.recast (keys : Keys) : Slot → Slot
  | .node role category => .node role (category.recast keys)
  | slot => slot

theorem Category.recast_of_isLimited {keys : Keys} {category : Category}
    (h : category.isLimited keys = false) : category.recast keys = category := by
  obtain ⟨symbol, mode, separator⟩ := category
  cases symbol with
  | type place limit =>
      have hlimit : limit ≠ keys.limit := by simpa [Category.isLimited] using h
      simp only [Category.recast, Limit.recast, if_neg hlimit]
  | _ => rfl

theorem Slot.recast_of_isLimited {keys : Keys} {slot : Slot} (h : slot.isLimited keys = false) :
    slot.recast keys = slot := by
  cases slot with
  | node role category => exact congrArg (Slot.node role) (Category.recast_of_isLimited h)
  | _ => rfl

/-- Two forms whose rows differ in the limit of their type. -/
structure Partners (keys : Keys) (form partner : Form) : Prop where
  slots_eq : partner.slots = form.slots.map (Slot.recast keys)
  attributed_eq : partner.attributed = form.attributed
  tag_eq : form.tag = form.construct.tag
  partner_tag : partner.tag = partner.construct.tag
  isType : form.slots.all (fun slot => !slot.isLimited keys || slot.isType) = true
  single : form.slots.countP (Slot.isLimited keys) = 1
  construct_eq : form.construct = keys.field ∧ partner.construct = keys.other.field ∨
    form.construct = keys.typedef ∧ partner.construct = keys.other.typedef

namespace Keys

/-- The slot for the type of a field that may be such a record. -/
def fieldType (keys : Keys) : Slot :=
  .node .type { symbol := .type (some Grammar.fieldPlace) keys.limit, mode := .never }

def requiredForm (keys : Keys) : Form where
  construct := keys.field
  slots := [.word .required "required", keys.fieldType, .token .name .identifier, .ending]

def optionalForm (keys : Keys) : Form where
  construct := keys.field
  slots := [keys.fieldType, .token .name .identifier, .nodeOption .default { symbol := .default },
    .ending]

def typedefForm (keys : Keys) : Form :=
  Shape.typedefForm keys.typedef
    { symbol := .type (some Grammar.typedefPlace) keys.limit, mode := .never }

theorem partners_required (keys : Keys) :
    Partners keys keys.requiredForm keys.other.requiredForm := by
  cases keys <;> exact ⟨rfl, rfl, rfl, rfl, rfl, rfl, Or.inl ⟨rfl, rfl⟩⟩

theorem partners_optional (keys : Keys) :
    Partners keys keys.optionalForm keys.other.optionalForm := by
  cases keys <;> exact ⟨rfl, rfl, rfl, rfl, rfl, rfl, Or.inl ⟨rfl, rfl⟩⟩

theorem partners_typedef (keys : Keys) : Partners keys keys.typedefForm keys.other.typedefForm := by
  cases keys <;> exact ⟨rfl, rfl, rfl, rfl, rfl, rfl, Or.inr ⟨rfl, rfl⟩⟩

end Keys

/-- A form with a limited slot has a partner among the forms of its symbol. -/
theorem exists_partner {keys : Keys} {symbol : Symbol} {form : Form}
    (hsymbol : symbol.isInner = true) (hform : form ∈ symbol.forms true)
    (hlimited : form.slots.any (Slot.isLimited keys) = true) :
    ∃ partner ∈ symbol.forms true, Partners keys form partner := by
  -- only fields and type definitions limit the keys of their type
  have hother {forms : List Form} (hmem : form ∈ forms)
      (hall : forms.all (!·.slots.any (Slot.isLimited keys)) = true) : False := by
    have hnone := List.all_eq_true.mp hall form hmem
    rw [hlimited] at hnone
    cases hnone
  cases symbol with
  | type place limit => exact (hother hform (by cases keys <;> cases limit <;> rfl)).elim
  | returnType place limit => exact (hother hform (by cases keys <;> cases limit <;> rfl)).elim
  | attributes mode => exact (hother hform (by cases keys <;> cases mode <;> rfl)).elim
  | member body =>
      cases body with
      | interface legacy => exact (hother hform (by cases keys <;> cases legacy <;> rfl)).elim
      | mixin | callbackInterface | namespaceDef =>
          exact (hother hform (by cases keys <;> rfl)).elim
      | dictionary =>
          -- in a dictionary the forms come in pairs
          have hforms : (Symbol.member .dictionary).forms true = [Keys.utf8.requiredForm,
              Keys.utf8.optionalForm, attributedFieldForm, Keys.dom.requiredForm,
              Keys.dom.optionalForm] := rfl
          rw [hforms] at hform ⊢
          simp only [List.mem_cons, List.not_mem_nil, or_false] at hform
          cases keys with
          | dom =>
              rcases hform with rfl | rfl | rfl | rfl | rfl
              · cases hlimited
              · cases hlimited
              · cases hlimited
              · exact ⟨_, by simp [Keys.other], Keys.partners_required .dom⟩
              · exact ⟨_, by simp [Keys.other], Keys.partners_optional .dom⟩
          | utf8 =>
              rcases hform with rfl | rfl | rfl | rfl | rfl
              · exact ⟨_, by simp [Keys.other], Keys.partners_required .utf8⟩
              · exact ⟨_, by simp [Keys.other], Keys.partners_optional .utf8⟩
              · cases hlimited
              · cases hlimited
              · cases hlimited
  | definition =>
      have hmem (keys : Keys) : keys.typedefForm ∈ Symbol.definition.forms true := by
        cases keys with
        | dom => exact List.mem_flatMap.mpr ⟨.typedef .plain, by simp [definitionSymbols],
            List.mem_cons_of_mem _ (List.mem_singleton_self _)⟩
        | utf8 => exact List.mem_flatMap.mpr ⟨.utf8StringTypedef, by simp [definitionSymbols],
            List.mem_singleton_self _⟩
      suffices hown : form = keys.typedefForm from
        ⟨_, hmem keys.other, hown ▸ keys.partners_typedef⟩
      obtain ⟨own, hown, hform⟩ := List.mem_flatMap.mp hform
      simp only [definitionSymbols, if_true, List.mem_cons, List.not_mem_nil, or_false] at hown
      rcases hown with rfl | rfl | rfl | rfl | rfl | rfl | rfl | rfl | rfl | rfl | rfl | rfl
      case inr.inr.inr.inl =>
        obtain rfl := List.mem_singleton.mp hform
        cases keys with
        | dom => cases hlimited
        | utf8 => rfl
      case inr.inr.inr.inr.inr.inr.inr.inr.inr.inl =>
        rcases List.mem_cons.mp hform with rfl | hform
        · cases keys <;> cases hlimited
        · obtain rfl := List.mem_singleton.mp hform
          cases keys with
          | dom => rfl
          | utf8 => cases hlimited
      all_goals exact (hother hform (by cases keys <;> rfl)).elim
  | wrappedToken | extendedAttribute | default | argument | recordKey | utf8Key | constantType
  | enumValue => exact (hother hform (by cases keys <;> rfl)).elim
  | _ => cases hsymbol

theorem map_recast_split {keys : Keys} {front back : List Slot} {slot : Slot}
    (hsingle : (front ++ slot :: back).countP (Slot.isLimited keys) = 1)
    (hslot : slot.isLimited keys = true) :
    (front ++ slot :: back).map (Slot.recast keys) = front ++ slot.recast keys :: back := by
  rw [List.countP_append, List.countP_cons_of_pos hslot] at hsingle
  have hsame {slots : List Slot} (hnone : slots.countP (Slot.isLimited keys) = 0) :
      slots.map (Slot.recast keys) = slots := by
    refine (List.map_congr_left fun slot hslot => ?_).trans (List.map_id slots)
    exact Slot.recast_of_isLimited
      (Bool.eq_false_iff.mpr (List.countP_eq_zero.mp hnone slot hslot))
  rw [List.map_append, List.map_cons, hsame (by omega), hsame (by omega)]

section

variable {keys : Keys} {category : Category} {form : Form}

theorem Partners.slots_category {partner : Form} (h : Partners keys form partner) :
    category.slots partner = (category.slots form).map (Slot.recast keys) := by
  simp only [Category.slots, h.slots_eq, h.attributed_eq, List.map_append, List.map_map]
  congr 2
  split <;> rfl

theorem Partners.single_category {partner : Form} (h : Partners keys form partner) :
    (category.slots form).countP (Slot.isLimited keys) = 1 := by
  have hseparator : (category.separator.toList.map (Slot.word .separator)).countP
      (Slot.isLimited keys) = 0 := by
    cases category.separator <;> rfl
  have hattributes : (if form.attributed = true then
      [Slot.node .attributes { symbol := .attributes category.mode }] else []).countP
        (Slot.isLimited keys) = 0 := by
    split <;> rfl
  rw [Category.slots, List.countP_append, List.countP_append, hseparator, hattributes, h.single]

theorem Slot.Holds.isLimited {slot : Slot} {role : Role} {own : Category}
    (h : slot.Holds role own) : slot.isLimited keys = own.isLimited keys := by
  cases slot with
  | token | option => exact h.elim
  | node | nodeOption | many =>
      obtain ⟨-, rfl⟩ := h
      rfl
  | list =>
      obtain ⟨-, rfl | rfl⟩ := h
      · rfl
      · rfl

/-- If the slot of a record has no room for the other keys, the construct around it has a partner that
has. -/
theorem exists_recastHolder {label : Label} {front back : List Part} {role : Role}
    {own : Category} {first last : List Slot} {slot : Slot} {changed : Node}
    (hcategory : category.isInner = true) (hform : form ∈ category.symbol.forms true)
    (hconstruct : label.construct = form.construct) (htag : label.tag = form.tag)
    (hslots : category.slots form = first ++ slot :: last) (hholds : slot.Holds role own)
    (hlimited : own.isLimited keys = true)
    (hother : slot = .node role own → ∀ target changed, Formed true target changed →
      Fits (Formed true) (first ++ .node role target :: last)
        (front ++ .node role changed :: back))
    (hchanged : Formed true (own.recast keys) changed) :
    ∃ construct, role = .type ∧
      (label.unplaced = { construct := keys.field } ∧ construct = keys.other.field ∨
        label.unplaced = { construct := keys.typedef } ∧ construct = keys.other.typedef) ∧
      Formed true category (.mk { construct } (front ++ .node role changed :: back)) := by
  have hslot : slot.isLimited keys = true := hholds.isLimited.trans hlimited
  have hmem : slot ∈ form.slots := by
    rcases mem_slots_iff.mp (by simp [hslots] : slot ∈ category.slots form) with
      ⟨-, rfl⟩ | hmem | ⟨separator, -, rfl⟩
    · cases hslot
    · exact hmem
    · cases hslot
  obtain ⟨partner, hpartner, hpair⟩ := exists_partner (Bool.and_eq_true_iff.mp hcategory).1 hform
    (List.any_eq_true.mpr ⟨slot, hmem, hslot⟩)
  -- the slot is for the one type of a field or typedef
  have htype := List.all_eq_true.mp hpair.isType slot hmem
  rw [hslot, Bool.not_true, Bool.false_or] at htype
  obtain ⟨rfl, rfl⟩ : role = .type ∧ slot = .node .type own := by
    cases slot with
    | node inner category =>
        obtain ⟨rfl, rfl⟩ := hholds
        cases inner <;> first | exact ⟨rfl, rfl⟩ | cases htype
    | _ => cases htype
  have hrow : category.slots partner = first ++ .node .type (own.recast keys) :: last := by
    have hsingle : (category.slots form).countP (Slot.isLimited keys) = 1 := hpair.single_category
    rw [hslots] at hsingle
    rw [hpair.slots_category, hslots, map_recast_split hsingle hslot]
    rfl
  refine ⟨partner.construct, rfl, ?_, .mk hpartner rfl hpair.partner_tag.symm ?_⟩
  · have hlabel := Label.unplaced_eq hconstruct htag hpair.tag_eq
    rcases hpair.construct_eq with ⟨hfield, hother⟩ | ⟨htypedef, hother⟩
    · exact Or.inl ⟨hfield ▸ hlabel, hother⟩
    · exact Or.inr ⟨htypedef ▸ hlabel, hother⟩
  · rw [hrow]
    exact hother rfl _ _ hchanged

theorem unplaced_around (label : Label) (front back : List Part) (role : Role) (child : Node) :
    (Node.mk label (front ++ .node role child :: back)).unplaced =
      .mk label.unplaced (mapParts id Label.unplaced front ++
        .node role child.unplaced :: mapParts id Label.unplaced back) := by
  simp only [Node.unplaced, Node.map, mapParts_append, mapParts]

/-- The trees differ in one place, where a record has the other key. -/
def Recasts (keys : Keys) (key other : Token) (first second : Node) : Prop :=
  ∃ path old new, Swaps old new path first second ∧ Recast keys key other old new

/-- With the other key in the place of a key behind the given tokens, the construct is well formed
again: in its own category, or, if it is the record itself, where there is room for the other keys. -/
def Recastable (keys : Keys) (base opening key other : Token) (category : Category) (node : Node) :
    Prop :=
  category.isInner = true → ∀ before after,
    node.tokens = before ++ base :: opening :: key :: after →
    ∃ changed, changed.tokens = before ++ base :: opening :: other :: after ∧
      (RecastRecord keys key other node.unplaced changed.unplaced ∧
          Formed true (category.recast keys) changed ∨
        Recasts keys key other node.unplaced changed.unplaced ∧ Formed true category changed)

variable {base opening key other : Token}

/-- Every well-formed construct is recastable. -/
theorem Formed.recastable {node : Node} (hbase : (Terminal.word "record").accepts base = true)
    (hopening : (Terminal.word "<").accepts opening = true)
    (hkey : keys.terminal.accepts key = true) (hother : keys.other.terminal.accepts other = true)
    (h : Formed true category node) : Recastable keys base opening key other category node := by
  refine h.induct fun category form label parts hform hconstruct htag hparts hcategory before after
    htokens => ?_
  rw [Node.tokens, List.append_cons] at htokens
  -- the record begins in this node or in a child
  rcases tokensOf_eq_append htokens with ⟨front, role, back, rfl, hfront, hback⟩ |
    ⟨front, role, child, back, first, last, rfl, hchild, hfirst, hlast⟩
  · obtain ⟨changed, hchanged, hrecord, hformed⟩ := exists_recastRecord hcategory hform hconstruct
      htag (hparts.imp fun _ _ h => h.1) hbase hopening hkey hother hfront hback
    exact ⟨changed, hchanged, Or.inl ⟨hrecord, hformed⟩⟩
  · obtain ⟨_, slot, _, own, hslots, hholds, ⟨hown, hrecastable⟩, hsame, hlimited⟩ :=
      hparts.replaceable rfl fun _ _ h => h.1
    have hinner : own.isInner = true :=
      hholds.isInner (isInner_of_mem_slots hcategory hform (by simp [hslots]))
    obtain ⟨inside, behind, hinside, rfl, rfl⟩ :=
      hown.split_bracket hinner hopening hchild hfirst hlast
    obtain ⟨changed, hchanged, hcases⟩ := hrecastable hinner inside behind hinside
    have htokens (label : Label) : (Node.mk label (front ++ .node role changed :: back)).tokens =
        tokensOf front ++ inside ++ base :: opening :: other :: (behind ++ tokensOf back) := by
      simp [Node.tokens, tokensOf, hchanged]
    have hinside (hrecasts : Recasts keys key other child.unplaced changed.unplaced) :
        Recasts keys key other (Node.mk label (front ++ .node role child :: back)).unplaced
          (Node.mk label (front ++ .node role changed :: back)).unplaced := by
      obtain ⟨path, old, new, hswaps, hrecast⟩ := hrecasts
      rw [unplaced_around, unplaced_around]
      exact ⟨_, old, new, hswaps.inside _ _ _ _, hrecast⟩
    -- the child is the record itself, or the record is deeper
    rcases hcases with ⟨hrecord, hformed⟩ | ⟨hrecasts, hformed⟩
    · cases hcase : own.isLimited keys with
      | false =>
          rw [Category.recast_of_isLimited hcase] at hformed
          exact ⟨_, htokens label, Or.inr ⟨hinside ⟨[], _, _, .here, .record hrecord⟩,
            .mk hform hconstruct htag (hsame changed hformed)⟩⟩
      | true =>
          -- where the slot limits the keys, the node around the type changes its form as well
          obtain ⟨construct, rfl, hlabels, hholder⟩ := exists_recastHolder hcategory hform hconstruct
            htag hslots hholds hcase hlimited hformed
          refine ⟨_, htokens _, Or.inr ⟨⟨[], _, _, .here, ?_⟩, hholder⟩⟩
          rw [unplaced_around, unplaced_around]
          rcases hlabels with ⟨hlabel, rfl⟩ | ⟨hlabel, rfl⟩
          · rw [hlabel]
            exact .field _ _ hrecord
          · rw [hlabel]
            exact .typedef _ _ hrecord
    · exact ⟨_, htokens label, Or.inr ⟨hinside hrecasts,
        .mk hform hconstruct htag (hsame changed hformed)⟩⟩

/-- A definition with the other key is a definition. -/
theorem Conforms.recast {node : Node} (hbase : (Terminal.word "record").accepts base = true)
    (hopening : (Terminal.word "<").accepts opening = true)
    (hkey : keys.terminal.accepts key = true) (hother : keys.other.terminal.accepts other = true)
    (h : Conforms true { symbol := .definition } node) {before after : List Token}
    (htokens : node.tokens = before ++ base :: opening :: key :: after) :
    ∃ changed, Conforms true { symbol := .definition } changed ∧
      changed.tokens = before ++ base :: opening :: other :: after ∧
      Recasts keys key other node.unplaced changed.unplaced := by
  obtain ⟨changed, hchanged, hcases⟩ :=
    h.formed.recastable hbase hopening hkey hother rfl before after htokens
  obtain ⟨hrecasts, hformed⟩ : Recasts keys key other node.unplaced changed.unplaced ∧
      Formed true { symbol := .definition } changed := by
    rcases hcases with ⟨hrecord, hformed⟩ | hcase
    · exact ⟨⟨[], _, _, .here, .record hrecord⟩, hformed⟩
    · exact hcase
  obtain ⟨good, hgood, htokens, hessence⟩ := hformed.exists_conforms rfl
  rw [← Node.unplaced_eq_of_essence hessence htokens] at hrecasts
  exact ⟨good, hgood, htokens.trans hchanged, hrecasts⟩

end

end WebIdl.Shape
