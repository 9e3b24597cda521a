import WebIdl.Proofs.Validation.Mending
import WebIdl.Proofs.Validation.Settle

/-!
# Repairs converge in one pass

One repair takes away what it settles and nothing else (`Intact.objections_fix`), so a row of repairs
takes away what one of them settles (`Intact.objections_fixes`).  When all that some rules have found is
repaired, the next validation finds what the first one found, less the objections of these rules, and
less the objections to definitions that need no longer be exposed because an attribute has got its new
name (`Intact.objections_fixAll`).
-/

namespace WebIdl

open WebIdl.Shape

/-- The rule that proposes a repair. -/
def Repair.rule : Repair → Rule
  | .replaceVoid => .replaceVoid
  | .addExposed => .requireExposed
  | .rename _ => .renamedLegacy
  | .addDefault => .dictArgDefault

namespace Rule

/-- Does this rule come with repairs? -/
def isFixable : Rule → Bool
  | .replaceVoid | .requireExposed | .renamedLegacy | .dictArgDefault => true
  | .noDuplicate | .attrInvalidType => false

theorem name_inj {rule other : Rule} (h : rule.name = other.name) : rule = other := by
  cases rule <;> cases other <;> first | rfl | exact absurd h (by decide)

theorem rule_of_mem_duplicatesFrom {claimed : List Node} {found : List (Site × Node)}
    {diagnostic : Diagnostic} (h : diagnostic ∈ duplicatesFrom claimed found) :
    diagnostic.rule = Rule.noDuplicate.name := by
  induction found generalizing claimed with
  | nil => cases h
  | cons entry rest ih =>
      rw [duplicatesFrom] at h
      split at h
      · rcases List.mem_cons.mp h with rfl | h
        · rfl
        · exact ih h
      · exact ih h

/-- What a rule finds bears its name, and has a repair of that rule if the rule comes with repairs. -/
theorem of_mem_objections {rule : Rule} {items : List Node} {diagnostic : Diagnostic}
    (h : diagnostic ∈ rule.objections items) :
    diagnostic.rule = rule.name ∧
      diagnostic.repair.map Repair.rule = if rule.isFixable then some rule else none := by
  -- each rule gives its own name and, if it is fixable, its own repair
  cases rule with
  | replaceVoid =>
      obtain ⟨⟨site, node⟩, -, hfound⟩ := List.mem_filterMap.mp h
      obtain ⟨base, -, hfound⟩ := Option.bind_eq_some_iff.mp hfound
      split at hfound
      · obtain rfl := Option.some.inj hfound
        exact ⟨rfl, rfl⟩
      · cases hfound
  | requireExposed =>
      obtain ⟨⟨site, node⟩, -, rfl⟩ := List.mem_map.mp h
      exact ⟨rfl, rfl⟩
  | renamedLegacy =>
      obtain ⟨⟨site, node⟩, -, hfound⟩ := List.mem_filterMap.mp h
      dsimp only at hfound
      split at hfound
      · obtain ⟨name, -, rfl⟩ := Option.map_eq_some_iff.mp hfound
        exact ⟨rfl, rfl⟩
      · cases hfound
  | dictArgDefault =>
      obtain ⟨⟨site, owner⟩, -, hfound⟩ := List.mem_flatMap.mp h
      obtain ⟨⟨number, argument⟩, -, rfl⟩ := List.mem_map.mp hfound
      exact ⟨rfl, rfl⟩
  | noDuplicate =>
      have hrepair := noDuplicate_repair h
      exact ⟨rule_of_mem_duplicatesFrom h, by rw [hrepair]; rfl⟩
  | attrInvalidType =>
      obtain ⟨⟨site, node⟩, -, hfound⟩ := List.mem_filterMap.mp h
      obtain ⟨type, -, hfound⟩ := Option.bind_eq_some_iff.mp hfound
      split at hfound
      · obtain ⟨reason, -, rfl⟩ := Option.map_eq_some_iff.mp hfound
        exact ⟨rfl, rfl⟩
      · cases hfound

/-- What comes with a repair was found by the rule of that repair. -/
theorem mem_objections_of_repair {items : List Node} {diagnostic : Diagnostic} {repair : Repair}
    (h : diagnostic ∈ WebIdl.objections all items) (hrepair : diagnostic.repair = some repair) :
    diagnostic ∈ repair.rule.objections items := by
  obtain ⟨rule, -, hrule⟩ := List.mem_flatMap.mp h
  have hproposed := (of_mem_objections hrule).2
  rw [hrepair, Option.map_some] at hproposed
  split at hproposed
  · obtain rfl := Option.some.inj hproposed
    exact hrule
  · cases hproposed

end Rule

/-! ## One repair, and a row of them -/

namespace Mending.Intact

variable {extended : Bool} {available applied : List Tweak} {mending : Mending}

/-- One repair takes away what it settles, and nothing else. -/
theorem objections_fix (h : Intact extended available applied mending) {diagnostic : Diagnostic}
    {others : List Node} (hfound : diagnostic ∈ mending.found)
    (hfix : diagnostic.fix mending.items = .ok others) :
    objections Rule.all others =
      (objections Rule.all mending.items).filter (!diagnostic.settles ·) := by
  obtain ⟨repair, hrepair⟩ := Diagnostic.repair_of_fix hfix
  obtain ⟨old, new, changed, hsuits, hchanged, hswaps, -, hmends⟩ :=
    Diagnostic.exists_fix h.formed (h.suited diagnostic hfound) hrepair
  obtain rfl : others = changed := Except.ok.inj (hfix.symm.trans hchanged)
  rcases hmends with ⟨rfl, hmade⟩ | hmends
  · -- nothing has changed, and there was nothing left to settle
    obtain rfl := hswaps.eq_of_same
    refine (List.filter_eq_self.mpr fun other hother => ?_).symm
    rw [Bool.not_eq_true', Bool.eq_false_iff]
    intro hsettles
    simp only [Diagnostic.settles, Bool.or_eq_true, Bool.and_eq_true, beq_iff_eq] at hsettles
    rcases hsettles with ⟨hsite, hsame⟩ | ⟨-, hrename, -⟩
    · obtain ⟨-, node, hnode, -, hunmade⟩ := Diagnostic.suits_of_mem_objections h.formed h.void_inline
        hother (hsame.trans hrepair)
      rw [hsite, hswaps.node?_eq] at hnode
      obtain rfl := Option.some.inj hnode
      exact hunmade hmade
    · rw [hrepair] at hrename
      obtain rfl := Option.some.inj hrename
      exact hmade
  · have heof : old.construct ≠ .eof := hsuits.construct_ne (by simp)
    obtain ⟨hdictionaries, hrequired⟩ :=
      Rule.dictionaries_of_mends hswaps h.formed heof hsuits hmends
    -- only exposure has an objection that the repair of another one settles
    have hstays {rule : Rule} (hrule : rule ≠ .requireExposed) :
        (rule.objections mending.items).filter (Diagnostic.stays diagnostic.site repair) =
          (rule.objections mending.items).filter (!diagnostic.settles ·) := by
      refine List.filter_congr fun other hother => ?_
      have hother : other.repair ≠ some .addExposed := by
        intro heq
        have hproposed := (Rule.of_mem_objections hother).2
        rw [heq, Option.map_some] at hproposed
        split at hproposed
        · exact hrule (Option.some.inj hproposed).symm
        · cases hproposed
      simp [Diagnostic.stays, Diagnostic.settles, hrepair, hother]
    rw [objections, objections, List.filter_flatMap]
    refine List.flatMap_congr fun rule _ => ?_
    cases rule with
    | replaceVoid =>
        rw [← hstays (by decide)]
        exact Rule.replaceVoidOn_of_mends hswaps h.formed heof hmends
    | requireExposed =>
        exact Rule.exposureObjections_of_mends hswaps h.formed heof hrepair hsuits hmends
    | renamedLegacy =>
        rw [← hstays (by decide)]
        exact Rule.renamingObjections_of_mends hswaps h.formed heof hmends
    | dictArgDefault =>
        rw [← hstays (by decide)]
        exact Rule.dictArgDefaultOn_of_mends hswaps h.formed heof hsuits hmends hdictionaries
          hrequired
    | noDuplicate =>
        rw [← hstays (by decide), filter_stays_of_repair]
        · exact Rule.noDuplicateOn_of_mends hswaps h.formed heof hsuits hmends
        · intro other hother
          rw [noDuplicate_repair hother]
          exact (Option.some_ne_none repair).symm
    | attrInvalidType =>
        rw [← hstays (by decide)]
        exact Rule.typeObjections_of_mends hswaps h.formed heof hmends hdictionaries

/-- A row of repairs takes away what one of them settles, and nothing else. -/
theorem objections_fixes (h : Intact extended available applied mending) {chosen : List Diagnostic}
    {others : List Node} (hchosen : chosen ⊆ mending.found)
    (hfix : chosen.foldlM (fun items diagnostic => diagnostic.fix items) mending.items =
      .ok others) :
    objections Rule.all others =
      (objections Rule.all mending.items).filter fun other => !chosen.any (·.settles other) := by
  induction chosen generalizing mending with
  | nil =>
      obtain rfl := Except.ok.inj hfix
      simp
  | cons diagnostic rest ih =>
      obtain ⟨changed, hone, hothers⟩ := exists_of_foldlM_cons hfix
      have hfound := hchosen List.mem_cons_self
      have hrest := ih (h.fix hfound hone) (fun other hother =>
        hchosen (List.mem_cons_of_mem _ hother)) hothers
      rw [hrest, h.objections_fix hfound hone, List.filter_filter]
      refine List.filter_congr fun other _ => ?_
      rw [List.any_cons, Bool.not_or, Bool.and_comm]

end Mending.Intact

/-! ## All repairs of some rules -/

/-- Has the construct at this place an extended attribute of the given name? -/
def Site.bears (site : Site) (items : List Node) (name : String) : Bool :=
  (site.node? items).any fun node =>
    ((node.node? .attributes).getD Node.noAttributes).bears name

/-- Does the objection go away when all that the admitted rules have found is repaired?  Either its
rule is an admitted one that comes with repairs; or it is to a definition that need not be exposed
once its attribute `NoInterfaceObject` has got the new name. -/
def Diagnostic.isSettled (admits : String → Bool) (items : List Node) (diagnostic : Diagnostic) :
    Bool :=
  ((Rule.all.filter Rule.isFixable).map Rule.name).contains diagnostic.rule &&
      admits diagnostic.rule ||
    diagnostic.rule == Rule.requireExposed.name && admits Rule.renamedLegacy.name &&
      diagnostic.site.bears items "NoInterfaceObject"

namespace Rule

variable {extended : Bool} {items : List Node} {admits : String → Bool}

/-- The constructs in a list of attributes are its attributes. -/
theorem children_attributes {attributes : Node}
    (h : Formed extended { symbol := .attributes .maybe } attributes) :
    attributes.children = attributes.items := by
  refine List.filterMap_congr fun part hpart => ?_
  cases part with
  | token role token => rfl
  | node role child =>
      obtain ⟨rfl, -⟩ := item_of_mem h hpart
      rfl

/-- The only attribute whose new name makes exposure unnecessary. -/
theorem eq_of_lookup_exemption {name : String} (h : legacyNames.lookup name = some exemption) :
    name = "NoInterfaceObject" := by
  have hall : ∀ pair ∈ legacyNames, pair.2 = exemption → pair.1 = "NoInterfaceObject" := by decide
  obtain ⟨front, back, hnames, -⟩ := List.lookup_eq_some_iff.mp h
  exact hall (name, exemption) (by rw [hnames]; simp) rfl

/-- An attribute of a definition that gets the exempting name is one that is called
`NoInterfaceObject` now. -/
theorem exists_exempting_iff {item : Nat} (hitems : FormedItems extended items)
    {definition : Node} (hdefinition : items[item]? = some definition)
    (hneeds : needsExposure definition = true) :
    (∃ diagnostic ∈ renamingObjections items, diagnostic.repair = some (.rename exemption) ∧
      diagnostic.site.item = item ∧ diagnostic.site.path.dropLast = [0]) ↔
      Site.bears ⟨item, []⟩ items "NoInterfaceObject" = true := by
  have hnode : Site.node? ⟨item, []⟩ items = some definition := by
    rw [Site.node?, hdefinition]
    rfl
  have hformed : Formed extended { symbol := .definition } definition := by
    rcases hitems.node? hnode with ⟨own, -, hformed, hown⟩ | ⟨last, rfl⟩
    · exact hown rfl ▸ hformed
    · cases hneeds
  obtain ⟨label, attributes, base, rest, rfl, -, hattributes, -⟩ := hformed.exposable hneeds
  -- the attributes of a definition are its first child
  have hbelow (number : Nat) : Site.node? ⟨item, [0, number]⟩ items = attributes.items[number]? := by
    rw [Site.node?, hdefinition, ← children_attributes hattributes]
    exact Option.bind_fun_some _
  have hhas : Site.bears ⟨item, []⟩ items "NoInterfaceObject" =
      attributes.bears "NoInterfaceObject" := by
    rw [Site.bears, hnode]
    rfl
  rw [hhas, Node.bears, List.any_eq_true]
  constructor
  · rintro ⟨diagnostic, hmem, hrepair, hitem, hpath⟩
    obtain ⟨⟨site, node⟩, hlocated, hfound⟩ := List.mem_filterMap.mp hmem
    dsimp only at hfound
    split at hfound
    · obtain ⟨newName, hname, rfl⟩ := Option.map_eq_some_iff.mp hfound
      obtain rfl : newName = exemption := by simpa [renamingObjection] using hrepair
      obtain ⟨own, path⟩ := site
      obtain rfl : own = item := hitem
      -- a path that ends below the attributes names one of them
      obtain ⟨number, rfl⟩ : ∃ number, path = [0, number] := by
        rcases List.eq_nil_or_concat path with rfl | ⟨front, number, rfl⟩
        · cases hpath
        · refine ⟨number, ?_⟩
          have hfront : front = [0] := by simpa [renamingObjection] using hpath
          rw [hfront, List.concat_eq_append]
          rfl
      have hnumber := node?_of_mem_located hlocated
      rw [hbelow] at hnumber
      exact ⟨node, List.mem_of_getElem? hnumber, by rw [eq_of_lookup_exemption hname]; rfl⟩
    · cases hfound
  · -- the renaming rule reports every attribute of that name
    rintro ⟨inner, hmem, hname⟩
    obtain ⟨number, hnumber⟩ := List.getElem?_of_mem hmem
    have hconstruct : inner.construct = .extendedAttribute := by
      rw [← children_attributes hattributes] at hmem
      obtain ⟨part, hpart, hown⟩ := List.mem_filterMap.mp hmem
      cases part with
      | token role token => cases hown
      | node role child =>
          obtain rfl := Option.some.inj hown
          exact (item_of_mem hattributes hpart).2
    have hlocated := mem_located_of_node? ((hbelow number).trans hnumber)
    refine ⟨renamingObjection ⟨item, [0, number]⟩ inner inner.nameOrEmpty exemption,
      List.mem_filterMap.mpr ⟨_, hlocated, ?_⟩, rfl, rfl, rfl⟩
    have hlookup : legacyNames.lookup inner.nameOrEmpty = some exemption := by
      rw [beq_iff_eq.mp hname]
      rfl
    simp [hconstruct, hlookup]

/-- What comes with a repair is what the rules find that come with repairs. -/
theorem isAdmitted_eq {diagnostic : Diagnostic} (h : diagnostic ∈ WebIdl.objections all items) :
    diagnostic.isAdmitted admits =
      (((all.filter isFixable).map name).contains diagnostic.rule && admits diagnostic.rule) := by
  obtain ⟨rule, -, hrule⟩ := List.mem_flatMap.mp h
  obtain ⟨hname, hrepair⟩ := of_mem_objections hrule
  have hfixable : diagnostic.repair.isSome = rule.isFixable := by
    rw [← Option.isSome_map, hrepair]
    cases rule.isFixable <;> rfl
  have hcontains : ((all.filter isFixable).map name).contains rule.name = rule.isFixable := by
    cases rule <;> decide
  rw [Diagnostic.isAdmitted, hname, hfixable, hcontains]

/-- An objection to a definition that is not exposed is at its place among the items. -/
theorem exists_definition_of_mem {diagnostic : Diagnostic}
    (h : diagnostic ∈ exposureObjections items) :
    ∃ item definition, items[item]? = some definition ∧ needsExposure definition = true ∧
      diagnostic.site = ⟨item, []⟩ ∧ diagnostic.repair = some .addExposed := by
  rw [exposureObjections_eq] at h
  obtain ⟨⟨definition, item⟩, hdefinition, hfound⟩ := List.mem_flatMap.mp h
  rw [List.mk_mem_zipIdx_iff_getElem?] at hdefinition
  simp only [exposureAt] at hfound
  split at hfound
  · rename_i hcase
    simp only [Bool.and_eq_true] at hcase
    obtain rfl := List.mem_singleton.mp hfound
    exact ⟨item, definition, hdefinition, hcase.2.1, rfl, rfl⟩
  · cases hfound

/-- What the repairs of the admitted rules settle, one by one. -/
theorem any_settles_eq (hitems : FormedItems extended items) {other : Diagnostic}
    (hother : other ∈ WebIdl.objections all items) :
    ((WebIdl.objections all items).filter (Diagnostic.isAdmitted admits)).any (·.settles other) =
      other.isSettled admits items := by
  rw [Bool.eq_iff_iff, List.any_eq_true, Diagnostic.isSettled, ← isAdmitted_eq hother,
    Bool.or_eq_true]
  have hrule {diagnostic : Diagnostic} {repair : Repair} (hmem : diagnostic ∈ WebIdl.objections all items)
      (hrepair : diagnostic.repair = some repair) : diagnostic.rule = repair.rule.name :=
    (of_mem_objections (mem_objections_of_repair hmem hrepair)).1
  constructor
  · rintro ⟨diagnostic, hmem, hsettles⟩
    obtain ⟨hmem, hadmitted⟩ := List.mem_filter.mp hmem
    obtain ⟨hsome, hadmits⟩ := Bool.and_eq_true_iff.mp hadmitted
    obtain ⟨repair, hrepair⟩ := Option.isSome_iff_exists.mp hsome
    simp only [Diagnostic.settles, Bool.or_eq_true, Bool.and_eq_true, beq_iff_eq] at hsettles
    -- a finding is settled by its own repair, or exposure by a renaming
    rcases hsettles with ⟨-, hsame⟩ | ⟨⟨hsite, hexposed⟩, hrename, hpath⟩
    · left
      rw [Diagnostic.isAdmitted, hsame, hsome, hrule hother (hsame.trans hrepair),
        ← hrule hmem hrepair, hadmits]
      rfl
    · right
      have hexposure := mem_objections_of_repair hother hexposed
      obtain ⟨item, definition, hdefinition, hneeds, hplace, -⟩ := exists_definition_of_mem hexposure
      rw [hplace] at hsite
      obtain rfl : item = diagnostic.site.item := congrArg Site.item hsite
      have hhas := (exists_exempting_iff hitems hdefinition hneeds).mp
        ⟨diagnostic, mem_objections_of_repair hmem hrename, hrename, rfl, hpath⟩
      have hlegacy : admits renamedLegacy.name = true := hrule hmem hrename ▸ hadmits
      rw [hrule hother hexposed, hplace, hlegacy, hhas]
      rfl
  · -- each of the two is settled by a finding that is admitted
    rintro (hadmitted | hexempt)
    · exact ⟨other, List.mem_filter.mpr ⟨hother, hadmitted⟩, by simp [Diagnostic.settles]⟩
    · simp only [Bool.and_eq_true, beq_iff_eq] at hexempt
      obtain ⟨⟨hname, hadmits⟩, hhas⟩ := hexempt
      obtain ⟨rule, -, hfound⟩ := List.mem_flatMap.mp hother
      obtain rfl : rule = .requireExposed := name_inj ((of_mem_objections hfound).1.symm.trans hname)
      obtain ⟨item, definition, hdefinition, hneeds, hplace, hexposed⟩ :=
        exists_definition_of_mem hfound
      rw [hplace] at hhas
      obtain ⟨diagnostic, hmem, hrepair, hitem, hpath⟩ :=
        (exists_exempting_iff hitems hdefinition hneeds).mpr hhas
      have hmember : diagnostic ∈ WebIdl.objections all items :=
        List.mem_flatMap.mpr ⟨.renamedLegacy, mem_all _, hmem⟩
      refine ⟨diagnostic, List.mem_filter.mpr ⟨hmember, ?_⟩, ?_⟩
      · rw [Diagnostic.isAdmitted, hrepair, hrule hmember hrepair]
        exact hadmits
      · simp [Diagnostic.settles, hplace, hexposed, hrepair, hitem, hpath]

end Rule

namespace Mending.Intact

variable {extended : Bool} {available applied : List Tweak} {mending : Mending}

/-- When all that the admitted rules have found is repaired, what is found again is what was found
before, less what is settled. -/
theorem objections_fixAll (h : Intact extended available applied mending) (admits : String → Bool) :
    ∃ others, Diagnostic.fixAll admits (objections Rule.all mending.items) mending.items =
        .ok (others, ((objections Rule.all mending.items).filter
          (Diagnostic.isAdmitted admits)).length) ∧
      objections Rule.all others =
        (objections Rule.all mending.items).filter (!Diagnostic.isSettled admits mending.items ·) := by
  have hlook := h.look
  obtain ⟨others, hfix⟩ := hlook.exists_fixAll admits (List.subset_append_right mending.found _)
  have hothers := (Diagnostic.fixAll_eq_ok_iff.mp hfix).1
  refine ⟨others, hfix, ?_⟩
  rw [hlook.objections_fixes (fun diagnostic hmem =>
    List.mem_append_right _ (List.mem_filter.mp hmem).1) hothers]
  refine List.filter_congr fun other hother => ?_
  rw [Rule.any_settles_eq h.formed hother]

/-- Nothing is left to repair for the admitted rules. -/
theorem filter_isAdmitted (h : Intact extended available applied mending) {admits : String → Bool}
    {others : List Node} {count : Nat}
    (hfix : Diagnostic.fixAll admits (objections Rule.all mending.items) mending.items =
      .ok (others, count)) :
    (objections Rule.all others).filter (Diagnostic.isAdmitted admits) = [] := by
  obtain ⟨fixed, hfixed, hfound⟩ := h.objections_fixAll admits
  obtain rfl : fixed = others :=
    (Prod.mk.inj (Except.ok.inj (hfixed.symm.trans hfix))).1
  refine List.filter_eq_nil_iff.mpr fun diagnostic hmem hadmitted => ?_
  rw [hfound] at hmem
  obtain ⟨hmem, hkept⟩ := List.mem_filter.mp hmem
  rw [Diagnostic.isSettled, ← Rule.isAdmitted_eq hmem, hadmitted] at hkept
  cases hkept

end Mending.Intact

end WebIdl
