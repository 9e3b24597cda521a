import WebIdl.Proofs.Shape.Choice

/-!
# Trees of the standard language in the extended one

The extended language has more constructs, and where it adds some its own forms leave room for them:
an operation of an interface may not begin with the word `legacycaller`, and a typedef or a member
of a dictionary has a production of its own if its type is a record with `UTF8String` keys.  A tree
of the standard language never needs that room, as long as nothing in it is named `legacycaller`.
`Conforms.lift` says so: what conforms to a symbol of the standard language conforms to the symbols
of the extended one that take its place (`Symbol.lifted`).
-/

namespace WebIdl.Shape

/-- No token is the identifier `legacycaller`. -/
def Unlegacy (tokens : List Token) : Prop :=
  ∀ token ∈ tokens, (Terminal.named Grammar.legacyCallerWord).accepts token = false

/-! ## Slots that take the place of others -/

/-- The symbols of the extended language that take the place of a symbol inside a definition. -/
def Symbol.lifted : Symbol → List Symbol
  | .type place .all => [.type place .all, .type place .plain, .type place .guarded]
  | .type place .unionMember => [.type place .unionMember]
  | .returnType place .all => [.returnType place .all, .returnType place .guarded]
  | .member (.interface legacy) => if legacy then [] else [.member (.interface true)]
  | .member body => [.member body]
  | .wrappedToken kind => [.wrappedToken kind]
  | .extendedAttribute => [.extendedAttribute]
  | .attributes mode => [.attributes mode]
  | .default => [.default]
  | .argument => [.argument]
  | .recordKey place => [.recordKey place]
  | .constantType => [.constantType]
  | .enumValue => [.enumValue]
  | _ => []

/-- The category takes the place of another one. -/
structure Category.Lifts (category target : Category) : Prop where
  symbol : target.symbol ∈ category.symbol.lifted
  mode : target.mode = category.mode
  separator : target.separator = category.separator

theorem Category.Lifts.before {category target : Category} (h : category.Lifts target)
    (separator : String) : (category.before separator).Lifts (target.before separator) :=
  ⟨h.symbol, h.mode, rfl⟩

/-- The set has the tokens of another one, except for `legacycaller`. -/
def Terminal.Lifts (terminal target : Terminal) : Prop :=
  ∀ token, (Terminal.named Grammar.legacyCallerWord).accepts token = false →
    terminal.accepts token = true → target.accepts token = true

theorem Terminal.Lifts.refl (terminal : Terminal) : terminal.Lifts terminal :=
  fun _ _ h => h

/-- The slots of one row take the place of those of another. -/
inductive Lifts : List Slot → List Slot → Prop where
  | nil : Lifts [] []
  | token {role : Role} {terminal target : Terminal} {slots targets : List Slot}
      (hterminal : terminal.Lifts target) (hrest : Lifts slots targets) :
      Lifts (.token role terminal :: slots) (.token role target :: targets)
  /-- A token that has to be there may be there. -/
  | loosen {role : Role} {terminal target : Terminal} {slots targets : List Slot}
      (hterminal : terminal.Lifts target) (hrest : Lifts slots targets) :
      Lifts (.token role terminal :: slots) (.option role target :: targets)
  | option {role : Role} {terminal target : Terminal} {slots targets : List Slot}
      (hterminal : terminal.Lifts target) (hrest : Lifts slots targets) :
      Lifts (.option role terminal :: slots) (.option role target :: targets)
  | node {role : Role} {category target : Category} {slots targets : List Slot}
      (hcategory : category.Lifts target) (hrest : Lifts slots targets) :
      Lifts (.node role category :: slots) (.node role target :: targets)
  | nodeOption {role : Role} {category target : Category} {slots targets : List Slot}
      (hcategory : category.Lifts target) (hrest : Lifts slots targets) :
      Lifts (.nodeOption role category :: slots) (.nodeOption role target :: targets)
  | many {role : Role} {category target : Category} {slots targets : List Slot}
      (hcategory : category.Lifts target) (hrest : Lifts slots targets) :
      Lifts (.many role category :: slots) (.many role target :: targets)
  | list {role : Role} {category target : Category} {separator : String} {least : Nat}
      {mayDangle : Bool} {slots targets : List Slot} (hcategory : category.Lifts target)
      (hrest : Lifts slots targets) :
      Lifts (.list role category separator least mayDangle :: slots)
        (.list role target separator least mayDangle :: targets)

theorem Lifts.append {slots targets more others : List Slot} (h : Lifts slots targets)
    (hmore : Lifts more others) : Lifts (slots ++ more) (targets ++ others) := by
  induction h with
  | nil => exact hmore
  | token hterminal _ ih => exact .token hterminal ih
  | loosen hterminal _ ih => exact .loosen hterminal ih
  | option hterminal _ ih => exact .option hterminal ih
  | node hcategory _ ih => exact .node hcategory ih
  | nodeOption hcategory _ ih => exact .nodeOption hcategory ih
  | many hcategory _ ih => exact .many hcategory ih
  | list hcategory _ ih => exact .list hcategory ih

/-- The symbol may stay as it is. -/
def Symbol.isStable : Symbol → Bool
  | .type _ limit => limit == .all || limit == .unionMember
  | .returnType _ limit => limit == .all
  | .member (.interface _) => false
  | .member _ | .wrappedToken _ | .extendedAttribute | .attributes _ | .default | .argument
  | .recordKey _ | .constantType | .enumValue => true
  | _ => false

theorem Symbol.mem_lifted_of_isStable {symbol : Symbol} (h : symbol.isStable = true) :
    symbol ∈ symbol.lifted := by
  cases symbol with
  | type place limit => cases limit <;> simp_all [isStable, lifted]
  | returnType place limit => cases limit <;> simp_all [isStable, lifted]
  | member body => cases body <;> simp_all [isStable, lifted]
  | _ => simp_all [isStable, lifted]

/-- The slot may stay as it is. -/
def Slot.isStable : Slot → Bool
  | .token _ _ | .option _ _ => true
  | .node _ category | .nodeOption _ category | .many _ category | .list _ category _ _ _ =>
      category.symbol.isStable

theorem Lifts.refl {slots : List Slot} (h : slots.all Slot.isStable = true) :
    Lifts slots slots := by
  have hself {category : Category} (hsymbol : category.symbol.isStable = true) :
      category.Lifts category := ⟨Symbol.mem_lifted_of_isStable hsymbol, rfl, rfl⟩
  induction slots with
  | nil => exact .nil
  | cons slot slots ih =>
      rw [List.all_cons, Bool.and_eq_true] at h
      cases slot with
      | token role terminal => exact .token (.refl terminal) (ih h.2)
      | option role terminal => exact .option (.refl terminal) (ih h.2)
      | node role category => exact .node (hself h.1) (ih h.2)
      | nodeOption role category => exact .nodeOption (hself h.1) (ih h.2)
      | many role category => exact .many (hself h.1) (ih h.2)
      | list role category separator least mayDangle => exact .list (hself h.1) (ih h.2)

/-! ## Filling the slots -/

/-- What is shown of a construct: it conforms to every category that takes the place of its own. -/
def Lifted (category : Category) (node : Node) : Prop :=
  Unlegacy node.tokens → ∀ target, category.Lifts target → Conforms true target node

theorem Items.lift {belongs : Category → Node → Prop} {nodes : List Node}
    {category target : Category} {separator : String} {mayDangle : Bool}
    (hbelongs : ∀ {category node}, belongs category node → Lifted category node)
    (hcategory : category.Lifts target) (hnodes : Unlegacy (nodes.flatMap Node.tokens))
    (h : Items belongs nodes category separator mayDangle) :
    Items (Conforms true) nodes target separator mayDangle := by
  induction h with
  | nil => exact .nil
  | last hnode =>
      refine .last (hbelongs hnode (fun token htoken => hnodes token ?_) _ hcategory)
      simpa using htoken
  | cons hnode hlast _ ih =>
      rw [List.flatMap_cons] at hnodes
      refine .cons (hbelongs hnode (fun token htoken => ?_) _ (hcategory.before _)) hlast
        (ih hcategory fun token htoken => ?_)
      · exact hnodes token (List.mem_append_left _ htoken)
      · exact hnodes token (List.mem_append_right _ htoken)

/-- What fills a row fills one that takes its place. -/
theorem Fits.lift {belongs : Category → Node → Prop} {slots targets : List Slot}
    {parts : List Part}
    (hbelongs : ∀ {category node}, belongs category node → Lifted category node)
    (hslots : Lifts slots targets) (h : Fits belongs slots parts)
    (hparts : Unlegacy (tokensOf parts)) : Fits (Conforms true) targets parts := by
  -- slot by slot; the tokens of each part are among those without the word of legacy callers
  induction h generalizing targets with
  | nil =>
      cases hslots
      exact .nil
  | token htoken _ ih =>
      rw [tokensOf] at hparts
      obtain ⟨hfirst, hrest⟩ := List.forall_mem_cons.mp hparts
      cases hslots with
      | token hterminal hslots => exact .token (hterminal _ hfirst htoken) (ih hslots hrest)
      -- a token that is required fills a slot that may stay empty
      | loosen hterminal hslots =>
          refine fits_option.mpr ⟨some _, _, rfl, ?_, ih hslots hrest⟩
          rintro _ ⟨⟩
          exact hterminal _ hfirst htoken
  | option htoken _ ih =>
      rw [tokensOf_append, tokensOf_ofToken?] at hparts
      cases hslots with
      | option hterminal hslots =>
          refine .option (fun found hfound => ?_) (ih hslots fun token htoken => ?_)
          · exact hterminal _ (hparts found (List.mem_append_left _ (by simpa using hfound)))
              (htoken found hfound)
          · exact hparts token (List.mem_append_right _ htoken)
  | node hnode _ ih =>
      rw [tokensOf] at hparts
      cases hslots with
      | node hcategory hslots =>
          refine .node (hbelongs hnode (fun token htoken => ?_) _ hcategory)
            (ih hslots fun token htoken => ?_)
          · exact hparts token (List.mem_append_left _ htoken)
          · exact hparts token (List.mem_append_right _ htoken)
  | nodeOption hnode _ ih =>
      rw [tokensOf_append, tokensOf_ofNode?] at hparts
      cases hslots with
      | nodeOption hcategory hslots =>
          refine .nodeOption (fun found hfound => ?_) (ih hslots fun token htoken => ?_)
          · refine hbelongs (hnode found hfound) (fun token htoken => ?_) _ hcategory
            refine hparts token (List.mem_append_left _ (List.mem_flatMap.mpr ⟨found, ?_, htoken⟩))
            simpa using hfound
          · exact hparts token (List.mem_append_right _ htoken)
  | many hnodes _ ih =>
      rw [tokensOf_append, tokensOf_ofNodes] at hparts
      cases hslots with
      | many hcategory hslots =>
          refine .many (fun node hnode => ?_) (ih hslots fun token htoken => ?_)
          · refine hbelongs (hnodes node hnode) (fun token htoken => ?_) _ hcategory
            exact hparts token
              (List.mem_append_left _ (List.mem_flatMap.mpr ⟨node, hnode, htoken⟩))
          · exact hparts token (List.mem_append_right _ htoken)
  | list hnodes hleast _ ih =>
      rw [tokensOf_append, tokensOf_ofNodes] at hparts
      cases hslots with
      | list hcategory hslots =>
          refine .list (hnodes.lift hbelongs hcategory fun token htoken => ?_) hleast
            (ih hslots fun token htoken => ?_)
          · exact hparts token (List.mem_append_left _ htoken)
          · exact hparts token (List.mem_append_right _ htoken)

/-! ## Forms that take the place of others -/

/-- The form takes the place of another one. -/
structure Form.Lifts (form target : Form) : Prop where
  label : target.label = form.label
  attributed : target.attributed = form.attributed
  slots : Shape.Lifts form.slots target.slots

/-- The slots of a category in a form that takes the place of another. -/
theorem Form.Lifts.categorySlots {form target : Form} (h : form.Lifts target)
    {category other : Category} (hmode : other.mode = category.mode)
    (hseparator : other.separator = category.separator) :
    Shape.Lifts (category.slots form) (other.slots target) := by
  unfold Category.slots
  refine (Shape.Lifts.append ?_ h.slots).append ?_
  · rw [h.attributed, hmode]
    split
    · exact .refl rfl
    · exact .nil
  · rw [hseparator]
    cases category.separator with
    | none => exact .nil
    | some separator => exact .refl rfl

/-- The forms of a symbol whose slots may stay as they are. -/
theorem exists_lifts_of_stable {form : Form} {forms : List Form} (hform : form ∈ forms)
    (hstable : forms.all (fun form => form.slots.all Slot.isStable) = true)
    {larger : List Form} (hforms : forms ⊆ larger) : ∃ target ∈ larger, form.Lifts target :=
  ⟨form, hforms hform, rfl, rfl, .refl (List.all_eq_true.mp hstable form hform)⟩

/-- A name of a type that is not the identifier `legacycaller` is not spelled so. -/
theorem ne_legacyCaller_of_typeName {spelling : String → Bool} {token : Token}
    (h : (Terminal.typeName spelling).accepts token = true)
    (hother : (Terminal.named Grammar.legacyCallerWord).accepts token = false) :
    token.text ≠ Grammar.legacyCallerWord := by
  intro htext
  rcases (accepts_typeName.mp h).1 with hkind | ⟨-, hword⟩
  · rw [accepts_named.mpr ⟨hkind, htext⟩] at hother
    cases hother
  · rw [htext] at hword
    exact absurd hword (by decide)

/-- A type by its shape: only a name has to be looked at. -/
theorem exists_lifts_type {place : Option String} {limit : Limit} (wider : Limit) {form : Form}
    (hform : form ∈ typeForms false place limit) (hlimit : limit = .all ∨ limit = .unionMember)
    (hstems : limit.stems false ⊆ wider.stems true) :
    ∃ target ∈ typeForms true place wider, form.Lifts target := by
  obtain ⟨stem, hstem, hform⟩ := List.mem_flatMap.mp hform
  obtain ⟨bare, hbare, rfl⟩ := List.mem_map.mp hform
  obtain ⟨slots, hslots, rfl⟩ := List.mem_map.mp hbare
  obtain ⟨targets, htargets, hlifts⟩ :
      ∃ targets ∈ stem.slots place wider, Lifts slots targets := by
    -- only names have another slot here, which shuts out the word of legacy callers
    by_cases hname : stem = .name
    · subst hname
      obtain rfl := List.mem_singleton.mp hslots
      refine ⟨_, List.mem_singleton_self _, .token (fun token hother htoken => ?_) .nil⟩
      obtain ⟨hword, hspelling⟩ := accepts_typeName.mp htoken
      refine accepts_typeName.mpr ⟨hword, ?_⟩
      have hany := (Bool.and_eq_true_iff.mp hspelling).1
      rw [hany, Bool.true_and, Bool.or_eq_true, bne_iff_ne, bne_iff_ne]
      exact Or.inr (ne_legacyCaller_of_typeName htoken hother)
    · have hstable : (stem.slots place limit).all (·.all Slot.isStable) = true := by
        cases stem with
        | name => exact absurd rfl hname
        | utf8Record => rcases hlimit with rfl | rfl <;> simp [Limit.stems] at hstem
        | _ => rfl
      have hsame : stem.slots place limit = stem.slots place wider := by
        cases stem <;> first | rfl | exact absurd rfl hname
      exact ⟨slots, hsame ▸ hslots, .refl (List.all_eq_true.mp hstable slots hslots)⟩
  refine ⟨_, List.mem_flatMap.mpr ⟨stem, hstems hstem, List.mem_map.mpr ⟨_, List.mem_map.mpr
    ⟨targets, htargets, rfl⟩, rfl⟩⟩, ?_⟩
  cases stem.isNullable with
  | true => exact ⟨rfl, rfl, hlifts.append (.refl rfl)⟩
  | false => exact ⟨rfl, rfl, hlifts⟩

/-- The forms of a member of the standard language take their places among those of the same kind of
body in the extended one. -/
theorem exists_lifts_member {symbol : Symbol} {body wider : Body} {form : Form}
    (hsymbol : symbol ∈ body.members false) (hform : form ∈ symbol.ownForms false)
    (hwider : .member wider ∈ (Symbol.member body).lifted) :
    ∃ target ∈ (Symbol.member wider).forms true, form.Lifts target := by
  -- a form that a member lifts to is one of the wider list of members
  have hplace {member : Symbol} {target : Form} (hmember : member ∈ wider.members true)
      (htarget : target ∈ member.ownForms true) (hlifts : form.Lifts target) :
      ∃ target ∈ (Symbol.member wider).forms true, form.Lifts target :=
    ⟨target, List.mem_flatMap.mpr ⟨member, hmember, htarget⟩, hlifts⟩
  -- most members are there unchanged
  have hstay (hmember : symbol ∈ wider.members true)
      (hforms : symbol.ownForms false = symbol.ownForms true)
      (hstable : (symbol.ownForms false).all (fun form => form.slots.all Slot.isStable) = true) :
      ∃ target ∈ (Symbol.member wider).forms true, form.Lifts target :=
    hplace hmember (hforms ▸ hform)
      ⟨rfl, rfl, .refl (List.all_eq_true.mp hstable form hform)⟩
  cases body with
  | interface legacy =>
      cases legacy with
      | true => simp [Symbol.lifted] at hwider
      | false =>
          obtain rfl : wider = .interface true := by simpa [Symbol.lifted] using hwider
          simp only [Body.members, Bool.false_eq_true, if_false, List.nil_append, List.mem_cons,
            List.not_mem_nil, or_false] at hsymbol
          rcases hsymbol with rfl | rfl | rfl | rfl | rfl | rfl | rfl
          · exact hstay (by simp [Body.members]) rfl rfl
          · exact hstay (by simp [Body.members]) rfl rfl
          · exact hstay (by simp [Body.members]) rfl rfl
          · exact hstay (by simp [Body.members]) rfl rfl
          · exact hstay (by simp [Body.members]) rfl rfl
          · exact hstay (by simp [Body.members]) rfl rfl
          · -- an operation may return what a legacy caller is told from by its first word
            have hguarded : .operation false .guarded ∈ (Body.interface true).members true := by
              simp [Body.members]
            rcases List.mem_append.mp hform with hspecial | hplain
            · obtain rfl := List.mem_singleton.mp hspecial
              exact hplace hguarded (List.mem_append_left _ (List.mem_singleton_self _))
                ⟨rfl, rfl, .refl rfl⟩
            · obtain rfl := List.mem_singleton.mp hplain
              exact hplace hguarded (List.mem_append_right _ (List.mem_singleton_self _))
                ⟨rfl, rfl, .node ⟨by simp [Symbol.lifted], rfl, rfl⟩ (.refl rfl)⟩
  | mixin =>
      obtain rfl : wider = .mixin := by simpa [Symbol.lifted] using hwider
      simp only [Body.members, List.mem_cons, List.not_mem_nil, or_false] at hsymbol
      rcases hsymbol with rfl | rfl | rfl | rfl <;> exact hstay (by simp [Body.members]) rfl rfl
  | callbackInterface =>
      obtain rfl : wider = .callbackInterface := by simpa [Symbol.lifted] using hwider
      simp only [Body.members, Bool.false_eq_true, if_false, List.nil_append, List.mem_cons,
        List.not_mem_nil, or_false] at hsymbol
      rcases hsymbol with rfl | rfl <;> exact hstay (by simp [Body.members]) rfl rfl
  | namespaceDef =>
      obtain rfl : wider = .namespaceDef := by simpa [Symbol.lifted] using hwider
      simp only [Body.members, Bool.not_false, List.mem_cons, List.not_mem_nil,
        or_false] at hsymbol
      rcases hsymbol with rfl | rfl | rfl
      · -- An attribute that is read-only is one that may be.
        obtain rfl := List.mem_singleton.mp hform
        exact hplace (by simp [Body.members])
          (show attributeForm [.option .readonly (.word "readonly")] ∈
            (Symbol.attribute true false).ownForms true from List.mem_singleton_self _)
          ⟨rfl, rfl, .loosen (.refl _) (.refl rfl)⟩
      · exact hstay (by simp [Body.members]) rfl rfl
      · exact hstay (by simp [Body.members]) rfl rfl
  | dictionary =>
      obtain rfl : wider = .dictionary := by simpa [Symbol.lifted] using hwider
      obtain rfl := List.mem_singleton.mp hsymbol
      have hplain {target : Form} (htarget : target ∈ (Symbol.field .plain).ownForms true)
          (hlifts : form.Lifts target) : _ := hplace (by simp [Body.members]) htarget hlifts
      -- a field may not be of a record type, which has a production of its own
      have htype : Category.Lifts
          { symbol := .type (some Grammar.fieldPlace) .all, mode := .never }
          { symbol := .type (some Grammar.fieldPlace) .plain, mode := .never } :=
        ⟨by simp [Symbol.lifted], rfl, rfl⟩
      simp only [Symbol.ownForms, fieldForms, List.mem_cons, List.not_mem_nil, or_false] at hform
      rcases hform with rfl | rfl | rfl
      · exact hplain List.mem_cons_self ⟨rfl, rfl, .refl rfl⟩
      · exact hplain (List.mem_cons_of_mem _ List.mem_cons_self)
          ⟨rfl, rfl, .token (.refl _) (.node htype (.refl rfl))⟩
      · exact hplain (List.mem_cons_of_mem _ (List.mem_cons_of_mem _ List.mem_cons_self))
          ⟨rfl, rfl, .node htype (.refl rfl)⟩

/-- Every form inside a definition takes its place in the extended language. -/
theorem exists_lifts {symbol wider : Symbol} {form : Form} (hform : form ∈ symbol.forms false)
    (hwider : wider ∈ symbol.lifted) : ∃ target ∈ wider.forms true, form.Lifts target := by
  -- a symbol with the same forms in both languages lifts to itself
  have hstay (hsame : wider = symbol) (hforms : symbol.forms false = symbol.forms true)
      (hstable : (symbol.forms false).all (fun form => form.slots.all Slot.isStable) = true) :
      ∃ target ∈ wider.forms true, form.Lifts target := by
    refine exists_lifts_of_stable hform hstable ?_
    rw [hforms, hsame]
    exact List.Subset.refl _
  cases symbol with
  | type place limit =>
      cases limit with
      | all =>
          simp only [Symbol.lifted, List.mem_cons, List.not_mem_nil, or_false] at hwider
          rcases hwider with rfl | rfl | rfl
          · exact exists_lifts_type .all hform (Or.inl rfl) (List.subset_append_left _ _)
          · exact exists_lifts_type .plain hform (Or.inl rfl) (List.Subset.refl _)
          · exact exists_lifts_type .guarded hform (Or.inl rfl) (List.subset_append_left _ _)
      | unionMember =>
          obtain rfl := List.mem_singleton.mp hwider
          exact exists_lifts_type .unionMember hform (Or.inr rfl) (List.subset_append_left _ _)
      | _ => cases hwider
  | returnType place limit =>
      cases limit with
      | all =>
          rcases List.mem_append.mp hform with htype | hvoid
          · simp only [Symbol.lifted, List.mem_cons, List.not_mem_nil, or_false] at hwider
            rcases hwider with rfl | rfl
            · obtain ⟨target, htarget, hlifts⟩ :=
                exists_lifts_type .all htype (Or.inl rfl) (List.subset_append_left _ _)
              exact ⟨target, List.mem_append_left _ htarget, hlifts⟩
            · obtain ⟨target, htarget, hlifts⟩ :=
                exists_lifts_type .guarded htype (Or.inl rfl) (List.subset_append_left _ _)
              exact ⟨target, List.mem_append_left _ htarget, hlifts⟩
          · -- the word `void` is returned in both languages
            obtain rfl := List.mem_singleton.mp hvoid
            have hmem : voidForm ∈ wider.forms true := by
              simp only [Symbol.lifted, List.mem_cons, List.not_mem_nil, or_false] at hwider
              rcases hwider with rfl | rfl <;>
                exact List.mem_append_right _ (List.mem_singleton_self _)
            exact ⟨voidForm, hmem, rfl, rfl, .refl rfl⟩
      | _ => cases hwider
  | member body =>
      obtain ⟨symbol, hsymbol, hform⟩ := List.mem_flatMap.mp hform
      obtain ⟨larger, rfl⟩ : ∃ larger, wider = .member larger := by
        cases body with
        | interface legacy => cases legacy <;> simp_all [Symbol.lifted]
        | _ => exact ⟨_, List.mem_singleton.mp hwider⟩
      exact exists_lifts_member hsymbol hform hwider
  | wrappedToken kind => exact hstay (List.mem_singleton.mp hwider) rfl rfl
  | extendedAttribute => exact hstay (List.mem_singleton.mp hwider) rfl rfl
  | attributes mode => exact hstay (List.mem_singleton.mp hwider) rfl (by cases mode <;> rfl)
  | default => exact hstay (List.mem_singleton.mp hwider) rfl rfl
  | argument => exact hstay (List.mem_singleton.mp hwider) rfl rfl
  | recordKey place => exact hstay (List.mem_singleton.mp hwider) rfl rfl
  | constantType => exact hstay (List.mem_singleton.mp hwider) rfl rfl
  | enumValue => exact hstay (List.mem_singleton.mp hwider) rfl rfl
  | _ => cases hwider

/-- What conforms to a category of the standard language conforms to those that take its place. -/
theorem Conforms.lift {category : Category} {node : Node} (h : Conforms false category node) :
    Lifted category node := by
  refine h.induct fun category form parts hform hparts hfree target htarget => ?_
  obtain ⟨other, hother, hlifts⟩ := exists_lifts hform htarget.symbol
  rw [← hlifts.label]
  refine .mk hother (Fits.lift (fun hboth => hboth.2)
    (hlifts.categorySlots htarget.mode htarget.separator) hparts ?_)
  rwa [Node.tokens] at hfree

end WebIdl.Shape
