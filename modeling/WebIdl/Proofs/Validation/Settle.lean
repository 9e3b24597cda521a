import WebIdl.Proofs.Validation.Effect

/-!
# One repair settles what it is for

A repair takes away the objection that it is for, and no other one, with one exception: an attribute
`NoInterfaceObject` that gets its new name says that its definition need not be exposed, so the
objection that it is not exposed goes away too.  All other objections stay, in their order
(`Diagnostic.objections_fix`).
-/

namespace WebIdl

open WebIdl.Shape

/-! ## Definitions -/

section

variable {extended : Bool} {target : Site} {repair : Repair} {old new node changed : Node}
  {path : List Nat} {items others : List Node}

/-- No definition is an extended attribute, so none gets another name. -/
theorem Swaps.token?_name (h : Swaps old new path node changed) (hsuits : repair.Suits old)
    (hmends : Mends repair old new)
    (hformed : Formed extended { symbol := .definition } node) :
    changed.token? .name = node.token? .name := by
  cases path with
  | nil =>
      cases h
      refine hmends.name_eq fun name hrepair => ?_
      subst hrepair
      have hmakes := hformed.makes rfl
      rw [hsuits.1] at hmakes
      cases hmakes
  | cons number rest => exact h.token?_eq (by simp) .name

theorem nodesAs_around (label : Label) (front back : List Part) (role own : Role) (child : Node) :
    (Node.mk label (front ++ .node role child :: back)).nodesAs own =
      (Node.mk label front).nodesAs own ++
        ((if role = own then [child] else []) ++ (Node.mk label back).nodesAs own) := by
  by_cases hrole : role = own <;>
    simp [Node.nodesAs, Node.parts, Part.nodeAs?, hrole]

theorem Mends.nodesAs_member (h : Mends repair old new) :
    new.nodesAs .member = old.nodesAs .member := by
  cases h with
  | @default _ _ _ _ _ separator _ _ => cases separator <;> rfl
  | _ => rfl

theorem Swaps.any_required (h : Swaps old new path node changed) (hmends : Mends repair old new) :
    (changed.nodesAs .member).any (·.has .required) =
      (node.nodesAs .member).any (·.has .required) := by
  cases h with
  | here => rw [hmends.nodesAs_member]
  | inside label front role back hbelow =>
      rw [nodesAs_around, nodesAs_around]
      split <;> simp [hbelow.has_eq hmends]

namespace Rule

/-- The facts about dictionaries are not touched by a repair. -/
theorem dictionaries_of_mends (h : SwapsAt target old new items others)
    (hitems : FormedItems extended items) (hold : old.construct ≠ .eof)
    (hsuits : repair.Suits old) (hmends : Mends repair old new) :
    isDictionary others = isDictionary items ∧ hasRequiredField others = hasRequiredField items := by
  obtain ⟨front, node, changed, back, rfl, -, hswaps, rfl, hformed⟩ :=
    hitems.definition_of_swapsAt h hold
  have hconstruct : changed.construct = node.construct :=
    congrArg Label.construct (hswaps.label_eq hmends.label_eq)
  have hname : changed.nameOrEmpty = node.nameOrEmpty :=
    Node.nameOrEmpty_congr hconstruct (hswaps.token?_name hsuits hmends hformed)
  have hcut (definition : Node) (name : String) :
      dictionariesNamed (front ++ definition :: back) name = dictionariesNamed front name ++
        ((if definition.construct == .dictionary && definition.nameOrEmpty == name then [definition]
          else []) ++ dictionariesNamed back name) := by
    rw [dictionariesNamed, List.filter_append, List.filter_cons]
    split <;> rfl
  constructor
  · funext name
    rw [isDictionary, isDictionary, hcut, hcut, hconstruct, hname]
    split
    · cases dictionariesNamed front name <;> rfl
    · rfl
  · funext name
    rw [hasRequiredField, hasRequiredField, hcut, hcut, hconstruct, hname]
    split <;> simp [hswaps.any_required hmends]

/-! ## Names that are claimed -/

/-- What matters of definitions that claim names. -/
def claim (definition : Node) : String × String × Option Token :=
  (definition.nameOrEmpty, definition.tag, definition.token? .name)

theorem duplicateObjection_congr {node other : Node} (h : claim other = claim node) (site : Site)
    (tag : String) : duplicateObjection site other tag = duplicateObjection site node tag := by
  obtain ⟨hname, hviews⟩ := Prod.mk.inj h
  obtain ⟨-, htoken⟩ := Prod.mk.inj hviews
  simp only [duplicateObjection, hname, htoken]

theorem duplicatesFrom_congr {claimed claimed' : List Node} {found found' : List (Site × Node)}
    (hclaimed : claimed'.map claim = claimed.map claim)
    (hfound : found'.map (fun entry => (entry.1, claim entry.2)) =
      found.map fun entry => (entry.1, claim entry.2)) :
    duplicatesFrom claimed' found' = duplicatesFrom claimed found := by
  induction found generalizing found' claimed claimed' with
  | nil =>
      obtain rfl : found' = [] := by simpa using hfound
      rfl
  | cons entry rest ih =>
      obtain ⟨entry', rest', rfl, hentry, hrest⟩ := List.map_eq_cons_iff.mp hfound
      obtain ⟨site, node⟩ := entry
      obtain ⟨site', node'⟩ := entry'
      obtain ⟨rfl, hnode⟩ := Prod.mk.inj hentry
      have hname : node'.nameOrEmpty = node.nameOrEmpty := congrArg (·.1) hnode
      -- the rule compares names, so the first that claims one is found by its claim
      have hfirst (claimed : List Node) : (claimed.find? (·.nameOrEmpty == node.nameOrEmpty)).map claim =
          (claimed.map claim).find? (·.1 == node.nameOrEmpty) := by
        rw [List.find?_map]
        rfl
      have hsame : (claimed'.find? (·.nameOrEmpty == node.nameOrEmpty)).map claim =
          (claimed.find? (·.nameOrEmpty == node.nameOrEmpty)).map claim := by
        rw [hfirst, hfirst, hclaimed]
      rw [duplicatesFrom, duplicatesFrom, hname]
      cases hnew : claimed'.find? (·.nameOrEmpty == node.nameOrEmpty) with
      | none =>
          have hold : claimed.find? (·.nameOrEmpty == node.nameOrEmpty) = none := by simpa [hnew] using hsame.symm
          rw [hold]
          exact ih (by simp [hclaimed, hnode]) hrest
      | some first' =>
          obtain ⟨first, hold, hclaim⟩ : ∃ first, claimed.find? (·.nameOrEmpty == node.nameOrEmpty) = some first ∧
              claim first = claim first' := by
            simpa [hnew, Option.map_eq_some_iff] using hsame.symm
          have htag : first.tag = first'.tag := congrArg (·.2.1) hclaim
          rw [hold]
          simp only [htag, duplicateObjection_congr hnode, ih hclaimed hrest]

theorem noDuplicateOn_of_mends (h : SwapsAt target old new items others)
    (hitems : FormedItems extended items) (hold : old.construct ≠ .eof)
    (hsuits : repair.Suits old) (hmends : Mends repair old new) :
    noDuplicateOn others = noDuplicateOn items := by
  obtain ⟨front, node, changed, back, rfl, -, hswaps, rfl, hformed⟩ :=
    hitems.definition_of_swapsAt h hold
  have hlabel := hswaps.label_eq hmends.label_eq
  have hconstruct : changed.construct = node.construct := congrArg Label.construct hlabel
  have htag : changed.tag = node.tag := congrArg Label.tag hlabel
  have htoken := hswaps.token?_name hsuits hmends hformed
  have hname : changed.nameOrEmpty = node.nameOrEmpty := Node.nameOrEmpty_congr hconstruct htoken
  have hclaim : claim changed = claim node := by simp only [claim, hname, htag, htoken]
  have hclaims : claimsName changed = claimsName node := by
    simp only [claimsName, Node.isPartial, hswaps.has_eq hmends, htag, hconstruct, hname]
  have hdefinition : changed.isDefinition = node.isDefinition := by
    simp only [Node.isDefinition, hconstruct]
  refine duplicatesFrom_congr rfl ?_
  simp only [definitionsOf, List.zipIdx_append, List.zipIdx_cons, List.map_append, List.map_cons,
    List.filter_append, List.filter_cons, hdefinition]
  cases node.isDefinition
  · rfl
  · simp only [if_true, List.filter_cons, hclaims]
    cases claimsName node <;> simp [hclaim]

/-! ## Exposure -/

/-- The attribute that makes it unnecessary to expose a definition. -/
def exemption : String := "LegacyNoInterfaceObject"

/-- No change of a name is about the attributes that the rule looks for, except that one of them is a
new name. -/
theorem ne_of_isRenamed {former newName name wanted : String} (h : IsRenamed former newName name)
    (hwanted : wanted = "Exposed" ∨ wanted = exemption) (hnew : newName ≠ wanted) :
    name ≠ wanted := by
  have hall : ∀ pair ∈ legacyNames, pair.1 ≠ "Exposed" ∧ pair.1 ≠ exemption := by decide
  obtain ⟨hexposed, hexempt⟩ := hall _ h.1
  rcases h.2 with rfl | rfl
  · rcases hwanted with rfl | rfl
    · exact hexposed
    · exact hexempt
  · exact hnew

theorem ne_exposed_of_isRenamed {former newName name : String} (h : IsRenamed former newName name) :
    newName ≠ "Exposed" := by
  have hall : ∀ pair ∈ legacyNames, pair.2 ≠ "Exposed" := by decide
  exact hall _ h.1

/-- What is inside a list of attributes is an attribute. -/
theorem item_of_mem {attributes child : Node} {role : Role}
    (h : Formed extended { symbol := .attributes .maybe } attributes)
    (hchild : .node role child ∈ attributes.parts) :
    role = .item ∧ child.construct = .extendedAttribute := by
  have hrole : role = .item := by
    rcases h.attributes_cases with ⟨label, rfl, -⟩ | ⟨label, opening, front, last, closing, rfl, -⟩
    · simp [Node.parts] at hchild
    · have hitem : .node role child ∈ Part.ofNodes .item (front ++ [last]) := by
        simpa [Node.parts] using hchild
      obtain ⟨node, -, heq⟩ := List.mem_map.mp hitem
      exact (Part.node.inj heq).1.symm
  refine ⟨hrole, ?_⟩
  obtain ⟨label, parts⟩ := attributes
  obtain ⟨own, hregular, hformed, hapt⟩ := h.child rfl hchild
  obtain ⟨symbol, mode, separator⟩ := own
  rw [hrole] at hapt
  cases symbol with
  | extendedAttribute =>
      obtain ⟨hform, hconstruct, -, -⟩ := hformed
      obtain ⟨tail, -, rfl⟩ := List.mem_map.mp hform
      exact hconstruct
  | _ => cases hapt

theorem construct_attributes {attributes : Node}
    (h : Formed extended { symbol := .attributes .maybe } attributes) :
    attributes.construct = .extendedAttributes := by
  obtain ⟨hform, hconstruct, -, -⟩ := h
  simp only [Symbol.forms, Symbol.ownForms, attributesForms, List.mem_cons, List.not_mem_nil,
    or_false] at hform
  rcases hform with rfl | rfl <;> exact hconstruct

/-- A list of attributes has the wanted one after a repair if it had it before, or if one of its
attributes has got that name. -/
theorem bears_of_swaps {wanted : String} (h : Swaps old new path node changed)
    (hpath : path ≠ []) (hsuits : repair.Suits old) (hmends : Mends repair old new)
    (hformed : Formed extended { symbol := .attributes .maybe } node)
    (hwanted : wanted = "Exposed" ∨ wanted = exemption) :
    changed.bears wanted =
      (node.bears wanted || decide (repair = .rename wanted) && decide (path.length = 1)) := by
  cases h with
  | here => exact absurd rfl hpath
  | @inside rest child other label front role back hbelow =>
      have hmem : Part.node role child ∈ front ++ .node role child :: back :=
        List.mem_append_right front List.mem_cons_self
      obtain ⟨rfl, hconstruct⟩ := item_of_mem hformed hmem
      have hname : (other.nameOrEmpty == wanted) =
          (child.nameOrEmpty == wanted || decide (repair = .rename wanted) && rest.isEmpty) := by
        cases rest with
        | cons number rest =>
            have hsame := Node.nameOrEmpty_congr (congrArg Label.construct (hbelow.label_eq hmends.label_eq))
              (hbelow.token?_eq (by simp) .name)
            simp [hsame]
        | nil =>
            cases hbelow
            -- only the renaming of attributes is for an attribute
            cases repair with
            | replaceVoid => simp [Repair.Suits, hconstruct, Construct.isType] at hsuits
            | addExposed => simp [Repair.Suits, needsExposure, hconstruct] at hsuits
            | addDefault => simp [Repair.Suits, hconstruct] at hsuits
            | rename newName =>
                obtain ⟨hnew, former, hrenamed⟩ := hmends.name_of_rename
                by_cases heq : newName = wanted
                · simp [hnew, heq]
                · simp [hnew, heq, ne_of_isRenamed hrenamed hwanted heq]
      have hlength : decide (((childrenOf front).length :: rest).length = 1) = rest.isEmpty := by
        cases rest <;> simp
      rw [Node.bears, Node.bears, Node.items, Node.items, nodesAs_around,
        nodesAs_around, hlength]
      simp only [if_true, List.any_append, List.any_cons, List.any_nil, hname, Bool.or_false]
      ac_rfl

theorem name_exposed (trivia : String) : (Repair.exposed trivia).nameOrEmpty = "Exposed" := by
  have hname : (Repair.exposed trivia).nameOrEmpty = unescape "Exposed" :=
    Node.nameOrEmpty_extendedAttribute rfl rfl
  rw [hname]
  simp [unescape]

/-- A definition is exposed after its repair. -/
theorem bearsExposure_of_mends (h : Mends .addExposed old new) : bearsExposure new = true := by
  cases h with
  | join _ _ => simp [bearsExposure, Node.bears, Node.items, name_exposed]
  | lead _ _ => simp [bearsExposure, Node.bears, Node.items, Repair.exposedList, name_exposed]

/-- A definition that must be exposed is exposed after a repair if it was before, or if it has got the
attribute, or if an attribute of it has got the name that makes that unnecessary. -/
theorem bearsExposure_of_swaps (h : Swaps old new path node changed) (hsuits : repair.Suits old)
    (hmends : Mends repair old new) (hformed : Formed extended { symbol := .definition } node)
    (hneeds : needsExposure node = true) :
    bearsExposure changed = (bearsExposure node || (path.isEmpty && decide (repair = .addExposed) ||
      decide (repair = .rename exemption) && decide (path.dropLast = [0]))) := by
  have hconstruct : node.construct = .interface ∨ node.construct = .namespaceDef := by
    simp only [needsExposure, Bool.and_eq_true, Bool.or_eq_true, beq_iff_eq] at hneeds
    exact hneeds.1
  obtain ⟨own, attributes, base, after, hnode, -, hattributes, -⟩ := hformed.exposable hneeds
  cases h with
  | here =>
      -- only exposure is for a definition
      cases repair with
      | addExposed => simp [bearsExposure_of_mends hmends]
      | replaceVoid =>
          rcases hconstruct with hconstruct | hconstruct <;>
            simp [Repair.Suits, hconstruct, Construct.isType] at hsuits
      | rename name =>
          rcases hconstruct with hconstruct | hconstruct <;>
            simp [Repair.Suits, hconstruct] at hsuits
      | addDefault =>
          rcases hconstruct with hconstruct | hconstruct <;>
            simp [Repair.Suits, hconstruct] at hsuits
  | @inside rest child other label front role back hbelow =>
      obtain ⟨-, hparts⟩ := Node.mk.inj hnode
      cases front with
      | nil =>
          obtain ⟨hfirst, -⟩ := List.cons.inj hparts
          obtain ⟨rfl, rfl⟩ := Part.node.inj hfirst
          have hrest : rest ≠ [] := by
            rintro rfl
            cases hbelow
            exact hsuits.construct_ne (by simp) (construct_attributes hattributes)
          have hexposed : repair ≠ .rename "Exposed" := by
            rintro rfl
            obtain ⟨-, former, hrenamed⟩ := hsuits
            exact ne_exposed_of_isRenamed hrenamed rfl
          have hplace : (0 :: rest).dropLast = [0] ↔ rest.length = 1 := by
            obtain ⟨number, more, rfl⟩ := List.exists_cons_of_ne_nil hrest
            cases more <;> simp
          have hhas {wanted : String} (hwanted : wanted = "Exposed" ∨ wanted = exemption) :=
            bears_of_swaps hbelow hrest hsuits hmends hattributes hwanted
          have hwritten (list : Node) :
              bearsExposure (.mk label ([] ++ .node .attributes list :: back)) =
                (list.bears "Exposed" || list.bears exemption) := rfl
          rw [hwritten, hwritten, hhas (Or.inl rfl), hhas (Or.inr rfl)]
          simp only [childrenOf_nil, List.length_nil, hplace, hexposed, decide_false, Bool.false_and,
            Bool.or_false, List.isEmpty_cons, Bool.false_or, Bool.or_assoc]
      | cons first front =>
          obtain ⟨rfl, -⟩ := List.cons.inj hparts
          have hplace : (((childrenOf front).length + 1) :: rest).dropLast ≠ [0] := by
            cases rest <;> simp
          simp [bearsExposure, hplace]

/-- The objection to a definition that is not exposed, if it has to be. -/
def exposureAt (site : Site) (node : Node) : List Diagnostic :=
  if node.isDefinition && (needsExposure node && !bearsExposure node) then [exposureObjection site node]
  else []

theorem exposureObjections_eq (items : List Node) :
    exposureObjections items = items.zipIdx.flatMap fun entry => exposureAt ⟨entry.2, []⟩ entry.1 := by
  have hone {entries : List (Node × Nat)} :
      (((entries.map fun entry => ((⟨entry.2, []⟩, entry.1) : Site × Node)).filter
        (·.2.isDefinition)).filter fun entry => needsExposure entry.2 && !bearsExposure entry.2).map
          (fun entry => exposureObjection entry.1 entry.2) =
      entries.flatMap fun entry => exposureAt ⟨entry.2, []⟩ entry.1 := by
    induction entries with
    | nil => rfl
    | cons entry rest ih =>
        obtain ⟨node, item⟩ := entry
        rw [List.flatMap_cons, ← ih]
        by_cases hdefinition : node.isDefinition = true
        · by_cases hneeds : (needsExposure node && !bearsExposure node) = true
          · simp [exposureAt, hdefinition, hneeds]
          · simp [exposureAt, hdefinition, hneeds]
        · simp [exposureAt, hdefinition]
  exact hone

end Rule

/-- The repair of the first diagnostic settles the second one: it is the repair for it, or it gives an
attribute of the definition the name that makes it unnecessary to expose it. -/
def Diagnostic.settles (diagnostic other : Diagnostic) : Bool :=
  other.site == diagnostic.site && other.repair == diagnostic.repair ||
    other.site == ⟨diagnostic.site.item, []⟩ && other.repair == some .addExposed &&
      (diagnostic.repair == some (.rename Rule.exemption) && diagnostic.site.path.dropLast == [0])

namespace Rule

theorem settles_exposureObjection {diagnostic : Diagnostic} {item : Nat}
    (hitem : item = diagnostic.site.item) (hrepair : diagnostic.repair = some repair) :
    diagnostic.settles (exposureObjection ⟨item, []⟩ node) =
      (diagnostic.site.path.isEmpty && decide (repair = .addExposed) ||
        decide (repair = .rename exemption) && decide (diagnostic.site.path.dropLast = [0])) := by
  have hsite : ((⟨item, []⟩ : Site) == diagnostic.site) = diagnostic.site.path.isEmpty := by
    obtain ⟨rule, message, ⟨place, path⟩, token, own⟩ := diagnostic
    obtain rfl : item = place := hitem
    cases path <;> simp
  have htop : ((⟨item, []⟩ : Site) == ⟨diagnostic.site.item, []⟩) = true := by simp [hitem]
  have hrename (wanted : Repair) : (some repair == some wanted) = decide (repair = wanted) := by
    rw [Bool.eq_iff_iff]
    simp
  have hexposed : (some Repair.addExposed == some repair) = decide (repair = .addExposed) := by
    rw [← hrename, Bool.beq_comm]
  have hpath : (diagnostic.site.path.dropLast == [0]) =
      decide (diagnostic.site.path.dropLast = [0]) := by
    rw [Bool.eq_iff_iff]
    simp
  have hown : (exposureObjection ⟨item, []⟩ node).site = ⟨item, []⟩ := rfl
  have hadds : (exposureObjection ⟨item, []⟩ node).repair = some .addExposed := rfl
  rw [Diagnostic.settles, hown, hadds, hrepair, hsite, htop, hexposed, hrename, hpath,
    beq_self_eq_true, Bool.true_and, Bool.true_and]

theorem exposureObjections_of_mends {diagnostic : Diagnostic}
    (h : SwapsAt diagnostic.site old new items others) (hitems : FormedItems extended items)
    (hold : old.construct ≠ .eof) (hrepair : diagnostic.repair = some repair)
    (hsuits : repair.Suits old) (hmends : Mends repair old new) :
    exposureObjections others = (exposureObjections items).filter (!diagnostic.settles ·) := by
  obtain ⟨front, node, changed, back, rfl, hlength, hswaps, rfl, hformed⟩ :=
    hitems.definition_of_swapsAt h hold
  have hlabel := hswaps.label_eq hmends.label_eq
  have hconstruct : changed.construct = node.construct := congrArg Label.construct hlabel
  have htag : changed.tag = node.tag := congrArg Label.tag hlabel
  have htoken := hswaps.token?_name hsuits hmends hformed
  have hname : changed.nameOrEmpty = node.nameOrEmpty := Node.nameOrEmpty_congr hconstruct htoken
  have hneeds : needsExposure changed = needsExposure node := by
    simp only [needsExposure, hconstruct, Node.isPartial, hswaps.has_eq hmends]
  -- the definition the repair is made in is judged again, and only its attributes can differ
  have hitem : exposureAt ⟨front.length, []⟩ changed =
      (exposureAt ⟨front.length, []⟩ node).filter (!diagnostic.settles ·) := by
    have hdefinition : changed.isDefinition = node.isDefinition := by
      simp only [Node.isDefinition, hconstruct]
    have hobjection : exposureObjection ⟨front.length, []⟩ changed =
        exposureObjection ⟨front.length, []⟩ node := by
      simp only [exposureObjection, htag, hname, htoken]
    rw [exposureAt, exposureAt, hdefinition, hneeds, hobjection]
    cases hcase : needsExposure node with
    | false => simp
    | true =>
        have hexposed := bearsExposure_of_swaps hswaps hsuits hmends hformed hcase
        have hsettles := @settles_exposureObjection repair node _ _ hlength hrepair
        rw [← hsettles] at hexposed
        rw [hexposed]
        cases hsettled : diagnostic.settles (exposureObjection ⟨front.length, []⟩ node)
        · cases node.isDefinition <;> cases bearsExposure node <;> simp [hsettled]
        · cases node.isDefinition <;> cases bearsExposure node <;> simp [hsettled]
  have hother {nodes : List (Node × Nat)} (hnodes : ∀ pair ∈ nodes, pair.2 ≠ diagnostic.site.item) :
      (nodes.flatMap fun entry => exposureAt ⟨entry.2, []⟩ entry.1).filter
        (!diagnostic.settles ·) =
        nodes.flatMap fun entry => exposureAt ⟨entry.2, []⟩ entry.1 := by
    refine List.filter_eq_self.mpr fun found hmem => ?_
    obtain ⟨pair, hpair, hfound⟩ := List.mem_flatMap.mp hmem
    have hsite : found.site.item = pair.2 := by
      simp only [exposureAt] at hfound
      split at hfound
      · rw [List.mem_singleton.mp hfound]
        rfl
      · cases hfound
    have hne : found.site.item ≠ diagnostic.site.item := hsite ▸ hnodes pair hpair
    have hsites {site : Site} (heq : site.item = diagnostic.site.item) : (found.site == site) = false :=
      beq_eq_false_iff_ne.mpr fun hsame => hne (by rw [hsame, heq])
    simp [Diagnostic.settles, hsites]
  rw [exposureObjections_eq, exposureObjections_eq]
  simp only [List.zipIdx_append, List.zipIdx_cons, List.flatMap_append, List.flatMap_cons,
    List.filter_append, Nat.zero_add]
  rw [hitem, hother, hother]
  · intro pair hpair heq
    have hrange := List.mem_zipIdx hpair
    omega
  · intro pair hpair heq
    have hrange := List.mem_zipIdx hpair
    omega

end Rule

end

end WebIdl
