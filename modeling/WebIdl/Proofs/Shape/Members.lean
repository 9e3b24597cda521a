import WebIdl.Proofs.Shape.Types

/-!
# Members in the order in which they are tried

Where one production is tried before another, what the later one finds is not what the earlier one
would have taken.  This module turns that into forms: an operation found behind a failed attempt at a
legacy caller does not begin with the word `legacycaller`, and a member of a dictionary found behind
a failed attempt at a record with `UTF8String` keys is not of such a type.
-/

namespace WebIdl.Shape

section

variable {extended : Bool} {place : Option String} {mode : Mode} {node : Node} {more : List Token}

/-- The tokens begin like a record whose keys are of type `UTF8String`. -/
def BeginsUtf8Record (tokens : List Token) : Prop :=
  ∃ base opening key rest, tokens = base :: opening :: key :: rest ∧
    (Terminal.word "record").accepts base ∧ (Terminal.word "<").accepts opening ∧
    (Terminal.named Grammar.utf8String).accepts key

/-- What is not there if a production finds nothing.  It matters for the productions that are tried
before a standard one that would take their words. -/
def Absent : Production → List Token → Prop
  | .legacyCaller, tokens =>
      ∀ token ∈ tokens.head?, (Terminal.named Grammar.legacyCallerWord).accepts token = false
  | .utf8StringField, tokens =>
      ¬ BeginsUtf8Record tokens ∧
        ∀ required rest, tokens = required :: rest → (Terminal.word "required").accepts required →
          ¬ BeginsUtf8Record rest
  | .utf8StringTypedef, tokens =>
      ∀ base rest, tokens = base :: rest → (Terminal.word "typedef").accepts base →
        ¬ BeginsUtf8Record rest
  | _, _ => True

/-! ## Types that do not begin like a legacy caller -/

theorem accepts_named {name : String} {token : Token} :
    (Terminal.named name).accepts token = true ↔ token.kind = .identifier ∧ token.text = name := by
  simp [Terminal.accepts, Terminal.named]

theorem conforms_guarded
    (h : Conforms extended { symbol := .type place .all, mode := .never } node)
    (hhead : Absent .legacyCaller (node.tokens ++ more)) :
    Conforms extended { symbol := .type place .guarded, mode := .never } node := by
  obtain ⟨stem, hstem, slots, hslots, attributes, parts, mark, rfl, hattributes, hparts, hrest⟩ :=
    conforms_type_iff.mp h
  refine conforms_type_iff.mpr ⟨stem, hstem, ?_⟩
  cases stem with
  | name =>
      obtain rfl := List.mem_singleton.mp hslots
      obtain ⟨base, rest, rfl, hbase, hnil⟩ := fits_token.mp hparts
      obtain rfl := fits_nil.mp hnil
      refine ⟨_, List.mem_singleton_self _, attributes, _, mark, rfl, hattributes, ?_, hrest⟩
      obtain rfl := eq_noAttributes_of_conforms hattributes rfl
      have hother : (Terminal.named Grammar.legacyCallerWord).accepts base = false :=
        hhead base (by simp [Node.tokens, tokensOf])
      obtain ⟨hword, hspelling⟩ := accepts_typeName.mp hbase
      refine .token (accepts_typeName.mpr ⟨hword, ?_⟩) .nil
      have htext : base.text ≠ Grammar.legacyCallerWord := by
        intro htext
        rcases hword with hkind | ⟨hkind, hmem⟩
        · rw [accepts_named.mpr ⟨hkind, htext⟩] at hother
          cases hother
        · rw [htext] at hmem
          exact absurd hmem (by decide)
      simpa [htext] using hspelling
  | _ => exact ⟨slots, hslots, attributes, parts, mark, rfl, hattributes, hparts, hrest⟩

/-- A type that is returned is a type or `void`. -/
theorem conforms_returnType_iff {limit : Limit} :
    Conforms extended { symbol := .returnType place limit, mode } node ↔
      Conforms extended { symbol := .type place limit, mode } node ∨
        node.label = voidForm.label ∧
          Fits (Conforms extended) (Category.slots { symbol := .returnType place limit, mode }
            voidForm) node.parts := by
  rw [conforms_iff, conforms_iff]
  constructor
  · rintro ⟨form, hform, hlabel, hparts⟩
    rcases List.mem_append.mp hform with htype | hvoid
    · exact Or.inl ⟨form, htype, hlabel, hparts⟩
    · obtain rfl := List.mem_singleton.mp hvoid
      exact Or.inr ⟨hlabel, hparts⟩
  · rintro (⟨form, hform, hlabel, hparts⟩ | ⟨hlabel, hparts⟩)
    · exact ⟨form, List.mem_append_left _ hform, hlabel, hparts⟩
    · exact ⟨voidForm, List.mem_append_right _ (List.mem_singleton_self _), hlabel, hparts⟩

theorem conforms_guarded_returnType
    (h : Conforms extended { symbol := .returnType place .all, mode := .never } node)
    (hhead : Absent .legacyCaller (node.tokens ++ more)) :
    Conforms extended { symbol := .returnType place .guarded, mode := .never } node := by
  rcases conforms_returnType_iff.mp h with htype | hvoid
  · exact conforms_returnType_iff.mpr (Or.inl (conforms_guarded htype hhead))
  · exact conforms_returnType_iff.mpr (Or.inr hvoid)

theorem conforms_guarded_operation
    (h : Conforms extended { symbol := .operation false .all, mode := .never } node)
    (hhead : Absent .legacyCaller (node.tokens ++ more)) :
    Conforms extended { symbol := .operation false .guarded, mode := .never } node := by
  cases h with
  | mk hform hparts =>
      rcases List.mem_append.mp hform with hspecial | hplain
      · exact .mk (List.mem_append_left _ hspecial) hparts
      · obtain rfl := List.mem_singleton.mp hplain
        obtain ⟨attributes, rest, rfl, hattributes, hrest⟩ := fits_node.mp hparts
        obtain ⟨type, rest, rfl, htype, hrest⟩ := fits_node.mp hrest
        obtain rfl := eq_noAttributes_of_conforms hattributes rfl
        have htype := @conforms_guarded_returnType _ _ _ (tokensOf rest ++ more) htype
          (by simpa [Node.tokens, tokensOf] using hhead)
        exact .of_form (operationForm .operation .guarded [])
          (List.mem_append_right _ (List.mem_singleton_self _)) rfl
          (.node hattributes (.node htype hrest))

/-! ## Types that are no records with `UTF8String` keys -/

/-- A record with `UTF8String` keys begins like one. -/
theorem beginsUtf8Record_of_fits {parts : List Part} {slots : List Slot} {limit : Limit}
    (hslots : slots ∈ Stem.utf8Record.slots place limit)
    (hparts : Fits (Conforms extended) slots parts) :
    BeginsUtf8Record (tokensOf parts ++ more) := by
  obtain rfl := List.mem_singleton.mp hslots
  obtain ⟨base, rest, rfl, hbase, hrest⟩ := fits_token.mp hparts
  obtain ⟨opening, rest, rfl, hopening, hrest⟩ := fits_token.mp hrest
  obtain ⟨key, rest, rfl, hkey, hrest⟩ := fits_node.mp hrest
  cases hkey with
  | mk hform hkeyParts =>
      obtain rfl := List.mem_singleton.mp hform
      obtain ⟨attributes, inner, rfl, hattributes, hinner⟩ := fits_node.mp hkeyParts
      obtain rfl := eq_noAttributes_of_conforms hattributes rfl
      obtain ⟨word, inner, rfl, hword, -⟩ := fits_token.mp hinner
      exact ⟨base, opening, word, tokensOf inner ++ (tokensOf rest ++ more),
        by simp [Node.tokens, tokensOf], hbase, hopening, hword⟩

theorem conforms_plain (h : Conforms extended { symbol := .type place .all, mode := .never } node)
    (hhead : extended = true → ¬ BeginsUtf8Record (node.tokens ++ more)) :
    Conforms extended { symbol := .type place .plain, mode := .never } node := by
  obtain ⟨stem, hstem, slots, hslots, attributes, parts, mark, rfl, hattributes, hparts, hrest⟩ :=
    conforms_type_iff.mp h
  have hslots' : slots ∈ stem.slots place .plain := by
    rwa [Stem.slots_eq_of_ne_guarded (by simp)]
  refine conforms_type_iff.mpr ⟨stem, ?_, slots, hslots', attributes, parts, mark, rfl,
    hattributes, hparts, hrest⟩
  obtain rfl := eq_noAttributes_of_conforms hattributes rfl
  have hnot : extended = true → stem ≠ .utf8Record := by
    rintro hextended rfl
    refine hhead hextended ?_
    have hbegins := @beginsUtf8Record_of_fits _ _ (mark.toList ++ more) _ _ _ hslots hparts
    simpa [Node.tokens, tokensOf] using hbegins
  cases extended with
  | false => simpa [Limit.stems] using hstem
  | true => simpa [Limit.stems, hnot rfl] using hstem

/-! ## Members of dictionaries -/

theorem attributed_type (place : Option String) (limit : Limit) :
    (Symbol.type place limit).Attributed extended := by
  cases limit <;> cases extended <;> rfl

/-- The limit on the types of dictionary members and typedefs. -/
def openLimit (extended : Bool) : Limit :=
  if extended then .plain else .all

/-- A type without attributes that does not begin like a record with `UTF8String` keys. -/
theorem conforms_openLimit
    (h : Conforms extended { symbol := .type place .all, mode := .never } node)
    (hhead : extended = true → ¬ BeginsUtf8Record (node.tokens ++ more)) :
    Conforms extended { symbol := .type place (openLimit extended), mode := .never } node := by
  cases extended with
  | false => exact h
  | true => exact conforms_plain h hhead

/-- A member of a dictionary in front of which there is no bracket, and where no record with
`UTF8String` keys has been found if such are looked for. -/
theorem conforms_field (h : Conforms extended { symbol := .loneField, mode := .never } node)
    (hbracket : ∀ token ∈ node.tokens.head?, (Terminal.word "[").accepts token = false)
    (habsent : extended = true → Absent .utf8StringField (node.tokens ++ more)) :
    Conforms extended { symbol := .field (openLimit extended), mode := .never } node := by
  cases h with
  | mk hform hparts =>
      simp only [Symbol.forms, Symbol.ownForms, loneFieldForms, List.mem_cons, List.not_mem_nil,
        or_false] at hform
      rcases hform with rfl | rfl
      · obtain ⟨attributes, rest, rfl, hattributes, hrest⟩ := fits_node.mp hparts
        obtain ⟨required, rest, rfl, hrequired, hrest⟩ := fits_token.mp hrest
        obtain ⟨type, rest, rfl, htype, hrest⟩ := fits_node.mp hrest
        obtain rfl := eq_noAttributes_of_conforms hattributes rfl
        -- attributes on the type rule out the record by themselves
        rcases htype.never_or_always (attributed_type _ _) with hnever | halways
        · have hlimited := @conforms_openLimit _ _ _ (tokensOf rest ++ more) hnever
            fun hextended hbegins => (habsent hextended).2 required (type.tokens ++
              (tokensOf rest ++ more)) (by simp [Node.tokens, tokensOf]) hrequired hbegins
          exact .of_form _ (List.mem_cons_of_mem _ List.mem_cons_self) rfl
            (.node hattributes (.token hrequired (.node hlimited hrest)))
        · exact .of_form attributedFieldForm List.mem_cons_self rfl
            (.node hattributes (.token hrequired (.node halways hrest)))
      · obtain ⟨attributes, rest, rfl, hattributes, hrest⟩ := fits_node.mp hparts
        obtain ⟨type, rest, rfl, htype, hrest⟩ := fits_node.mp hrest
        obtain rfl := eq_noAttributes_of_conforms hattributes rfl
        -- the first token of the field is the first of its type
        have hnever := htype.never_of_head (attributed_type _ _) fun token htoken => by
          refine hbracket token ?_
          simp [Node.tokens, tokensOf, List.head?_append, Option.mem_def.mp htoken]
        have hlimited := @conforms_openLimit _ _ _ (tokensOf rest ++ more) hnever
          fun hextended hbegins => (habsent hextended).1 (by simpa [Node.tokens, tokensOf])
        exact .of_form _ (List.mem_cons_of_mem _ (List.mem_cons_of_mem _ List.mem_cons_self)) rfl
          (.node hattributes (.node hlimited hrest))

/-- A typedef where no record with `UTF8String` keys has been found if such are looked for. -/
theorem conforms_typedef (h : Conforms extended { symbol := .typedef .all, mode := .never } node)
    (habsent : extended = true → Absent .utf8StringTypedef (node.tokens ++ more)) :
    Conforms extended { symbol := .typedef (openLimit extended), mode := .never } node := by
  cases h with
  | mk hform hparts =>
      rcases List.mem_cons.mp hform with rfl | hnever
      · exact .mk List.mem_cons_self hparts
      · obtain rfl := List.mem_singleton.mp hnever
        obtain ⟨attributes, rest, rfl, hattributes, hrest⟩ := fits_node.mp hparts
        obtain ⟨base, rest, rfl, hbase, hrest⟩ := fits_token.mp hrest
        obtain ⟨type, rest, rfl, htype, hrest⟩ := fits_node.mp hrest
        obtain rfl := eq_noAttributes_of_conforms hattributes rfl
        have hlimited := @conforms_openLimit _ _ _ (tokensOf rest ++ more) htype
          fun hextended hbegins => habsent hextended base (type.tokens ++ (tokensOf rest ++ more))
            (by simp [Node.tokens, tokensOf]) hbase hbegins
        exact .of_form _ (List.mem_cons_of_mem _ List.mem_cons_self) rfl
          (.node hattributes (.token hbase (.node hlimited hrest)))

/-! ## The members of a body -/

/-- The productions that find the members of a body, in the order in which they are tried. -/
def Body.productions (extended : Bool) : Body → List Production
  | .interface legacy => (if legacy then [.legacyCaller] else []) ++ Grammar.interfaceMembers
  | .mixin => [.constant, .stringifier, .attribute true false, .operation true]
  | .callbackInterface =>
      (if extended then [.attribute false false] else []) ++ [.constant, .operation true]
  | .namespaceDef =>
      (if extended then [.attribute true false] else []) ++
        [.attribute true true, .constant, .operation true]
  | .dictionary => (if extended then [.utf8StringField] else []) ++ [.field]

/-- A production of a definition or a member finds a construct without attributes. -/
def IsPlain (production : Production) : Prop :=
  modeOf production = .never

theorem Body.isPlain_of_mem {body : Body} {production : Production}
    (h : production ∈ body.productions extended) : IsPlain production := by
  have hall : ∀ production ∈ body.productions extended, IsPlain production := by
    cases body with
    | interface legacy =>
        cases legacy <;> simp [Body.productions, Grammar.interfaceMembers, IsPlain, modeOf]
    | _ => cases extended <;> simp [Body.productions, IsPlain, modeOf]
  exact hall production h

theorem attributed_member (body : Body) : (Symbol.member body).Attributed extended := by
  cases body with
  | interface legacy => cases legacy <;> rfl
  | _ => cases extended <;> rfl

/-- A symbol of a body takes part in its members. -/
theorem conforms_member {symbol : Symbol} {body : Body} (hmem : symbol ∈ body.members extended)
    (hforms : symbol.forms extended = symbol.ownForms extended)
    (h : Conforms extended { symbol, mode } node) :
    Conforms extended { symbol := .member body, mode } node := by
  refine h.of_subset fun form hform => ?_
  rw [hforms] at hform
  exact List.mem_flatMap.mpr ⟨symbol, hmem, hform⟩

/-- A read-only attribute is one that may be read-only. -/
theorem conforms_attribute_of_readonly
    (h : Conforms extended { symbol := .attribute true true, mode } node) :
    Conforms extended { symbol := .attribute true false, mode } node := by
  cases h with
  | mk hform hparts =>
      obtain rfl := List.mem_singleton.mp hform
      obtain ⟨attributes, rest, rfl, hattributes, hrest⟩ := fits_node.mp hparts
      obtain ⟨readonly, rest, rfl, hreadonly, hrest⟩ := fits_token.mp hrest
      exact .of_form _ (List.mem_singleton_self _) rfl
        (.node hattributes (.option (show ∀ found ∈ some readonly, _ by simpa using hreadonly) hrest))

/-- The first production of a list comes before any other one. -/
theorem mem_front_of_ne {first production : Production} {rest front back : List Production}
    (hsplit : first :: rest = front ++ production :: back) (hne : production ≠ first) :
    first ∈ front := by
  cases front with
  | nil => exact absurd (List.cons.inj hsplit).1.symm hne
  | cons head front =>
      rw [(List.cons.inj hsplit).1]
      exact List.mem_cons_self

/-- What a production of a body finds is a member, if those before it have found nothing and there
is no bracket in front. -/
theorem conforms_member_of_production {body : Body} {front back : List Production}
    {production : Production} (hsplit : body.productions extended = front ++ production :: back)
    (h : Conforms extended { symbol := symbolOf production, mode := .never } node)
    (hbracket : ∀ token ∈ node.tokens.head?, (Terminal.word "[").accepts token = false)
    (habsent : ∀ earlier ∈ front, Absent earlier (node.tokens ++ more)) :
    Conforms extended { symbol := .member body, mode := .never } node := by
  have hmem : production ∈ body.productions extended := by simp [hsplit]
  -- each production of a body has its symbol; what an earlier one missed limits it
  cases body with
  | interface legacy =>
      cases legacy with
      | false =>
          simp only [Body.productions, Grammar.interfaceMembers, List.mem_append, List.mem_cons,
            List.not_mem_nil, Bool.false_eq_true, if_false, false_or, or_false] at hmem
          rcases hmem with rfl | rfl | rfl | rfl | rfl | rfl | rfl <;>
            exact conforms_member (by simp [Body.members, symbolOf]) rfl h
      | true =>
          simp only [Body.productions, Grammar.interfaceMembers, List.mem_append, List.mem_cons,
            List.not_mem_nil, if_true, or_false] at hmem
          rcases hmem with rfl | rfl | rfl | rfl | rfl | rfl | rfl | rfl
          case inr.inr.inr.inr.inr.inr.inr =>
            -- an operation, tried behind the legacy callers
            have hlegacy := habsent .legacyCaller (mem_front_of_ne hsplit (by simp))
            exact conforms_member (by simp [Body.members]) rfl (conforms_guarded_operation h hlegacy)
          all_goals exact conforms_member (by simp [Body.members, symbolOf]) rfl h
  | mixin =>
      simp only [Body.productions, List.mem_cons, List.not_mem_nil, or_false] at hmem
      rcases hmem with rfl | rfl | rfl | rfl <;>
        exact conforms_member (by simp [Body.members, symbolOf]) rfl h
  | callbackInterface =>
      cases extended with
      | false =>
          simp only [Body.productions, List.mem_append, List.mem_cons, List.not_mem_nil,
            Bool.false_eq_true, if_false, false_or, or_false] at hmem
          rcases hmem with rfl | rfl <;>
            exact conforms_member (by simp [Body.members, symbolOf]) rfl h
      | true =>
          simp only [Body.productions, List.mem_append, List.mem_cons, List.not_mem_nil, if_true,
            or_false] at hmem
          rcases hmem with rfl | rfl | rfl <;>
            exact conforms_member (by simp [Body.members, symbolOf]) rfl h
  | namespaceDef =>
      cases extended with
      | false =>
          simp only [Body.productions, List.mem_append, List.mem_cons, List.not_mem_nil,
            Bool.false_eq_true, if_false, false_or, or_false] at hmem
          rcases hmem with rfl | rfl | rfl <;>
            exact conforms_member (by simp [Body.members, symbolOf]) rfl h
      | true =>
          simp only [Body.productions, List.mem_append, List.mem_cons, List.not_mem_nil, if_true,
            or_false] at hmem
          rcases hmem with rfl | rfl | rfl | rfl
          case inr.inl =>
            exact conforms_member (by simp [Body.members]) rfl (conforms_attribute_of_readonly h)
          all_goals exact conforms_member (by simp [Body.members, symbolOf]) rfl h
  | dictionary =>
      cases extended with
      | false =>
          obtain rfl := List.mem_singleton.mp hmem
          exact conforms_member (List.mem_singleton_self _) rfl
            (@conforms_field _ _ [] h hbracket (by simp))
      | true =>
          simp only [Body.productions, List.mem_append, List.mem_cons, List.not_mem_nil, if_true,
            or_false] at hmem
          rcases hmem with rfl | rfl
          · exact conforms_member (by simp [Body.members, symbolOf]) rfl h
          · -- a field, tried behind those of a record type
            have habsent := habsent .utf8StringField (mem_front_of_ne hsplit (by simp))
            exact conforms_member (by simp [Body.members, openLimit]) rfl
              (conforms_field h hbracket fun _ => habsent)

end

end WebIdl.Shape
