import Mathlib.Data.List.Nodup
import Mathlib.Data.List.Sigma
import WebIdl.Proofs.Validation.Aim

/-!
# Repairs keep out of each other's way

No two diagnostics with a repair are about the same construct (`Rule.nodup_sites`), and no two of them
aim at the same spot of the row of tokens (`Intact.key_ne`): a token is the own token of one construct,
and a construct has at most one repair.  Two repairs can only meet where a name gets its new spelling
and something is put behind it.
-/

namespace WebIdl

open WebIdl.Shape WebIdl.Mending

/-! ## The construct that a token belongs to -/

theorem mem_tokensOf_of_child {parts : List Part} {child : Node} {token : Token}
    (h : child ∈ childrenOf parts) (htoken : token ∈ child.tokens) : token ∈ tokensOf parts := by
  obtain ⟨number, hnumber⟩ := List.getElem?_of_mem h
  obtain ⟨front, role, back, rfl, -⟩ := exists_split hnumber
  simp [tokensOf, htoken]

theorem Node.mem_tokens_of_at? {node inner : Node} {path : List Nat} {token : Token}
    (h : node.at? path = some inner) (htoken : token ∈ inner.tokens) : token ∈ node.tokens := by
  obtain ⟨before, after, heq, -⟩ := (Node.swaps_modifyAt h inner).tokens_eq
  rw [heq]
  simp [htoken]

/-- A token inside a child is in no other part. -/
theorem notMem_of_nodup {label : Label} {front back : List Part} {role : Role} {child : Node}
    {token : Token}
    (h : (Node.mk label (front ++ .node role child :: back)).tokens.Nodup)
    (htoken : token ∈ child.tokens) : token ∉ tokensOf front ∧ token ∉ tokensOf back := by
  rw [Node.tokens, tokensOf_append, tokensOf] at h
  obtain ⟨-, hrest, hfront⟩ := List.nodup_append.mp h
  obtain ⟨-, -, hback⟩ := List.nodup_append.mp hrest
  constructor
  · exact fun hmem => hfront _ hmem _ (List.mem_append_left _ htoken) rfl
  · exact fun hmem => hback _ htoken _ hmem rfl

/-- In a tree whose tokens are all different, a token is the own token of one construct. -/
theorem Node.path_unique {node first second : Node} {path other : List Nat} {role own : Role}
    {token : Token} (hnodup : node.tokens.Nodup) (hfirst : node.at? path = some first)
    (hsecond : node.at? other = some second) (hrole : .token role token ∈ first.parts)
    (hown : .token own token ∈ second.parts) : path = other := by
  -- what is at the end of a path through a child is inside that child
  have hinside {child inner : Node} {rest : List Nat} {kind : Role}
      (hat : child.at? rest = some inner) (hkind : .token kind token ∈ inner.parts) :
      token ∈ child.tokens := by
    refine mem_tokens_of_at? hat ?_
    cases inner
    exact mem_tokensOf_of_token hkind
  have happart {label : Label} {parts : List Part} {number : Nat} {child : Node} {kind : Role}
      (hall : (Node.mk label parts).tokens.Nodup) (hchild : (childrenOf parts)[number]? = some child)
      (htoken : token ∈ child.tokens) : .token kind token ∉ parts := by
    obtain ⟨front, role, back, rfl, -⟩ := exists_split hchild
    obtain ⟨hfront, hback⟩ := notMem_of_nodup hall htoken
    intro hmem
    rcases List.mem_append.mp hmem with hmem | hmem
    · exact hfront (mem_tokensOf_of_token hmem)
    · rcases List.mem_cons.mp hmem with heq | hmem
      · cases heq
      · exact hback (mem_tokensOf_of_token hmem)
  induction path generalizing node other with
  | nil =>
      obtain rfl : node = first := by simpa [Node.at?] using hfirst
      cases other with
      | nil => rfl
      | cons number rest =>
          obtain ⟨child, hchild, hat⟩ := Option.bind_eq_some_iff.mp hsecond
          obtain ⟨label, parts⟩ := node
          exact absurd hrole (happart hnodup hchild (hinside hat hown))
  | cons number path ih =>
      obtain ⟨label, parts⟩ := node
      obtain ⟨child, hchild, hat⟩ := Option.bind_eq_some_iff.mp hfirst
      have htoken := hinside hat hrole
      cases other with
      | nil =>
          obtain rfl := Option.some.inj hsecond
          exact absurd hown (happart hnodup hchild htoken)
      | cons place other =>
          obtain ⟨sibling, hsibling, hat'⟩ := Option.bind_eq_some_iff.mp hsecond
          obtain ⟨front, own', back, rfl, rfl⟩ := exists_split hchild
          obtain ⟨hfront, hback⟩ := notMem_of_nodup hnodup htoken
          have htoken' := hinside hat' hown
          rw [Node.children_mk, childrenOf_append, childrenOf_node] at hsibling
          rcases Nat.lt_trichotomy place (childrenOf front).length with hlt | rfl | hgt
          · rw [List.getElem?_append_left hlt] at hsibling
            exact absurd (mem_tokensOf_of_child (List.mem_of_getElem? hsibling) htoken') hfront
          · obtain rfl : child = sibling := by simpa using hsibling
            have hall : child.tokens.Nodup := by
              rw [Node.tokens, tokensOf_append, tokensOf] at hnodup
              exact (List.nodup_append.mp (List.nodup_append.mp hnodup).2.1).1
            rw [ih hall hat hat']
          · obtain ⟨later, rfl⟩ := Nat.exists_eq_add_of_lt hgt
            rw [List.getElem?_append_right (by omega),
              show (childrenOf front).length + later + 1 - (childrenOf front).length = later + 1 by
                omega, List.getElem?_cons_succ] at hsibling
            exact absurd (mem_tokensOf_of_child (List.mem_of_getElem? hsibling) htoken') hback

/-- The construct at the place has the token as its own. -/
def Site.Holds (site : Site) (items : List Node) (token : Token) : Prop :=
  ∃ node role, site.node? items = some node ∧ .token role token ∈ node.parts

/-- In a document whose tokens are all different, a token is the own token of one construct. -/
theorem Site.Holds.unique {site other : Site} {items : List Node} {token : Token}
    (hnodup : (items.flatMap Node.tokens).Nodup) (h : site.Holds items token)
    (hother : other.Holds items token) : site = other := by
  obtain ⟨node, role, hnode, hrole⟩ := h
  obtain ⟨inner, own, hinner, hown⟩ := hother
  -- the items are the children of one tree
  have hat (place : Site) : (Node.mk { construct := .eof } (Part.ofNodes .member items)).at?
      (place.item :: place.path) = place.node? items := by
    rw [Node.at?, Node.children_mk, childrenOf_ofNodes]
    rfl
  have hpath := Node.path_unique (by rwa [Node.tokens, tokensOf_ofNodes]) ((hat site).trans hnode)
    ((hat other).trans hinner) hrole hown
  obtain ⟨hitem, hrest⟩ := List.cons.inj hpath
  exact congrArg₂ Site.mk hitem hrest

theorem Site.Holds.mem_tokens {site : Site} {items : List Node} {token : Token}
    (h : site.Holds items token) : token ∈ items.flatMap Node.tokens := by
  obtain ⟨node, role, hnode, hrole⟩ := h
  refine tokens_subset_of_node? hnode ?_
  cases node
  exact mem_tokensOf_of_token hrole

/-! ## The construct whose token a repair touches -/

/-- An attribute ends with a token of its own. -/
theorem Shape.Formed.last_token {extended : Bool} {node : Node} {token : Token}
    (h : Formed extended { symbol := .extendedAttribute } node)
    (htoken : node.tokens.getLast? = some token) :
    node.construct = .extendedAttribute ∧ ∃ role, .token role token ∈ node.parts := by
  obtain ⟨hform, hconstruct, -, hparts⟩ := h
  obtain ⟨tail, htail, rfl⟩ := List.mem_map.mp hform
  refine ⟨hconstruct, ?_⟩
  have hall : attributeTails.all (fun tail =>
      (Slot.token .name .identifier :: tail).getLast?.any Slot.isToken) = true := by decide
  have hends := List.all_eq_true.mp hall tail htail
  obtain ⟨slot, hlast, hslot⟩ := Option.any_eq_true _ _ |>.mp hends
  cases slot with
  | token role terminal =>
      obtain ⟨front, hslots⟩ := List.getLast?_eq_some_iff.mp hlast
      have hfits := hparts
      simp only [Category.slots, Bool.false_eq_true, if_false, List.nil_append, Option.toList_none,
        List.map_nil, List.append_nil] at hfits
      rw [hslots] at hfits
      obtain ⟨parts, last, rfl, -, hfinal⟩ := fits_append.mp hfits
      obtain ⟨leaf, rest, rfl, -, hrest⟩ := fits_token.mp hfinal
      obtain rfl := fits_nil.mp hrest
      obtain rfl : leaf = token := by simpa [Node.tokens, tokensOf] using htoken
      exact ⟨role, by simp [Node.parts]⟩
  | _ => cases hslot

/-- The construct that has the token that is put behind, if a definition is exposed. -/
theorem Shape.Formed.aim?_home {extended : Bool} {node : Node} {token : Token} {touch : Touch}
    (h : Formed extended { symbol := .definition } node) (hneeds : Rule.needsExposure node = true)
    (haim : Repair.addExposed.aim? node = some (token, touch)) :
    (touch.isBehind = false ∧ .token .base token ∈ node.parts) ∨
      (touch.isBehind = true ∧ ∃ number item role, node.at? [0, number] = some item ∧
        item.construct = .extendedAttribute ∧ .token role token ∈ item.parts) := by
  obtain ⟨label, attributes, base, rest, rfl, -, hattributes, -⟩ := h.exposable hneeds
  rw [Repair.aim?_definition] at haim
  rcases hattributes.attributes_cases with ⟨own, rfl, -⟩ |
    ⟨own, opening, front, last, closing, rfl, -, hlast, -⟩
  · obtain ⟨rfl, rfl⟩ := Prod.mk.inj (Option.some.inj haim)
    exact Or.inl ⟨rfl, by simp [Node.parts]⟩
  · have hfinal : (Node.mk own (.token .opening opening ::
        (Part.ofNodes .item (front ++ [last]) ++ [.token .closing closing]))).lastItemToken? =
          last.tokens.getLast? := by
      simp [Node.lastItemToken?, Node.items]
    rw [hfinal] at haim
    cases htoken : last.tokens.getLast? with
    | none => exact absurd (List.getLast?_eq_none_iff.mp htoken) hlast.lone_attribute.2
    | some final =>
        rw [htoken] at haim
        obtain ⟨rfl, rfl⟩ := Prod.mk.inj (Option.some.inj haim)
        obtain ⟨hconstruct, role, hrole⟩ := hlast.last_token htoken
        refine Or.inr ⟨rfl, front.length, last, role, ?_, hconstruct, hrole⟩
        simp [Node.at?]

section

variable {extended : Bool} {available applied : List Tweak} {mending : Mending}
  {diagnostic other : Diagnostic}

/-- The construct whose own token a repair touches: it is the one that is repaired, or the last
attribute of a definition. -/
theorem Mending.Intact.exists_home (h : Intact extended available applied mending)
    (hfound : diagnostic ∈ mending.found) {token : Token} {touch : Touch}
    (haim : diagnostic.aim? mending.items = some (token, touch)) :
    (diagnostic.site.Holds mending.items token ∧ (touch.isBehind = true →
      ∃ node, diagnostic.site.node? mending.items = some node ∧ node.construct = .argument)) ∨
    (diagnostic.site.path = [] ∧ touch.isBehind = true ∧ ∃ number node,
      (diagnostic.site.below [0, number]).Holds mending.items token ∧
      (diagnostic.site.below [0, number]).node? mending.items = some node ∧
      node.construct = .extendedAttribute) := by
  obtain ⟨repair, hrepair, haim⟩ := Option.bind_eq_some_iff.mp haim
  obtain ⟨htop, node, hnode, hsuits⟩ := h.suited diagnostic hfound repair hrepair
  rw [hnode, Option.bind_some] at haim
  -- all repairs but one go for a token of their own node
  cases repair with
  | replaceVoid =>
      obtain ⟨base, hbase, heq⟩ := Option.map_eq_some_iff.mp haim
      obtain ⟨rfl, rfl⟩ := Prod.mk.inj heq
      exact Or.inl ⟨⟨node, _, hnode, Node.mem_parts_of_token? hbase⟩, fun hfalse => by cases hfalse⟩
  | rename newName =>
      obtain ⟨name, hname, heq⟩ := Option.map_eq_some_iff.mp haim
      obtain ⟨rfl, rfl⟩ := Prod.mk.inj heq
      exact Or.inl ⟨⟨node, _, hnode, Node.mem_parts_of_token? hname⟩, fun hfalse => by cases hfalse⟩
  | addDefault =>
      obtain ⟨name, hname, heq⟩ := Option.map_eq_some_iff.mp haim
      obtain ⟨rfl, rfl⟩ := Prod.mk.inj heq
      exact Or.inl ⟨⟨node, _, hnode, Node.mem_parts_of_token? hname⟩,
        fun _ => ⟨node, hnode, hsuits.1⟩⟩
  | addExposed =>
      have hformed : Formed extended { symbol := .definition } node := by
        rcases h.formed.node? hnode with ⟨own, -, hformed, hown⟩ | ⟨last, rfl⟩
        · exact hown (htop rfl) ▸ hformed
        · cases hsuits
      rcases hformed.aim?_home hsuits haim with ⟨hfalse, hbase⟩ |
        ⟨htrue, number, item, role, hat, hconstruct, hrole⟩
      · exact Or.inl ⟨⟨node, _, hnode, hbase⟩, fun htrue => by rw [hfalse] at htrue; cases htrue⟩
      · have hitem := (Site.node?_below hnode [0, number]).trans hat
        exact Or.inr ⟨htop rfl, htrue, number, item, ⟨item, role, hitem, hrole⟩, hitem, hconstruct⟩

/-- Repairs of different constructs are made at different spots. -/
theorem Mending.Intact.key_ne (h : Intact extended available applied mending)
    (hnodup : (mending.tokens.map Token.index).Nodup) (hfound : diagnostic ∈ mending.found)
    (hother : other ∈ mending.found) {spot aside : Spot}
    (haims : diagnostic.AimsAt mending.items spot) (hotherAims : other.AimsAt mending.items aside)
    (hsite : diagnostic.site ≠ other.site) : spot.key ≠ aside.key := by
  intro hkey
  obtain ⟨hindex, hbehind⟩ : spot.index = aside.index ∧
      spot.touch.isBehind = aside.touch.isBehind := by
    rw [Spot.key, Spot.key] at hkey
    cases hfirst : spot.touch.isBehind <;> cases hsecond : aside.touch.isBehind <;>
      simp only [hfirst, hsecond, Bool.toNat_false, Bool.toNat_true] at hkey <;> simp <;> omega
  obtain ⟨-, token, haim, htoken, -⟩ := haims
  obtain ⟨-, aimed, haimed, haside, -⟩ := hotherAims
  have hunique {first second : Site} (hfirst : first.Holds mending.items token)
      (hsecond : second.Holds mending.items aimed) : first = second := by
    obtain rfl : token = aimed := List.inj_on_of_nodup_map hnodup hfirst.mem_tokens
      hsecond.mem_tokens (by rw [htoken, haside, hindex])
    exact hfirst.unique hnodup.of_map hsecond
  -- an argument is no attribute
  have hdiffer {place : Site} {first second : Node}
      (hnode : place.node? mending.items = some first)
      (hnode' : place.node? mending.items = some second) (hfirst : first.construct = .argument)
      (hsecond : second.construct = .extendedAttribute) : False := by
    obtain rfl := Option.some.inj (hnode.symm.trans hnode')
    rw [hfirst] at hsecond
    cases hsecond
  rcases h.exists_home hfound haim with ⟨hholds, hargument⟩ | ⟨hpath, htrue, number, node, hholds,
    hnode, hconstruct⟩
  · rcases h.exists_home hother haimed with ⟨hholds', -⟩ | ⟨-, htrue', number', node', hholds',
      hnode', hconstruct'⟩
    · exact hsite (hunique hholds hholds')
    · obtain ⟨argument, hfoundArgument, hkind⟩ := hargument (hbehind.trans htrue')
      rw [hunique hholds hholds'] at hfoundArgument
      exact hdiffer hfoundArgument hnode' hkind hconstruct'
  · rcases h.exists_home hother haimed with ⟨hholds', hargument'⟩ | ⟨hpath', -, number', node',
      hholds', -, -⟩
    · obtain ⟨argument, hfoundArgument, hkind⟩ := hargument' (hbehind.symm.trans htrue)
      rw [← hunique hholds hholds'] at hfoundArgument
      exact hdiffer hfoundArgument hnode hkind hconstruct
    · have hitem := congrArg Site.item (hunique hholds hholds')
      exact hsite (congrArg₂ Site.mk hitem (hpath.trans hpath'.symm))

end

/-! ## The constructs that are repaired -/

mutual

/-- No path leads to two constructs of a tree. -/
theorem Node.nodup_located (node : Node) : (node.located.map (·.1)).Nodup := by
  obtain ⟨label, parts⟩ := node
  rw [Node.located, List.map_cons, List.nodup_cons]
  refine ⟨fun hmem => ?_, nodup_locatedFrom 0 parts⟩
  obtain ⟨⟨path, inner⟩, hlocated, hnil⟩ := List.mem_map.mp hmem
  obtain ⟨step, rest, child, rfl, -⟩ := mem_locatedFrom hlocated
  cases hnil

theorem nodup_locatedFrom (number : Nat) (parts : List Part) :
    ((locatedFrom number parts).map (·.1)).Nodup := by
  match parts with
  | [] => exact .nil
  | .token _ _ :: rest =>
      rw [locatedFrom]
      exact nodup_locatedFrom number rest
  | .node _ node :: rest =>
      rw [locatedFrom, List.map_append, List.map_map]
      refine List.nodup_append.mpr ⟨?_, nodup_locatedFrom (number + 1) rest, ?_⟩
      · have hnode := (Node.nodup_located node).map (List.cons_injective (a := number))
        rwa [List.map_map] at hnode
      · intro path hpath other hother heq
        obtain ⟨⟨front, inner⟩, -, rfl⟩ := List.mem_map.mp hpath
        obtain ⟨⟨back, later⟩, hlater, rfl⟩ := List.mem_map.mp hother
        obtain ⟨step, rest, child, rfl, -⟩ := mem_locatedFrom hlater
        have hnumber := (List.cons.inj heq).1
        omega

end

/-- What is found item by item is at different places, if that is so for each item. -/
theorem nodup_zipIdx {items : List Node} {place : Node × Nat → List Site}
    (hplace : ∀ entry ∈ items.zipIdx, (place entry).Nodup)
    (hitem : ∀ entry, ∀ site ∈ place entry, site.item = entry.2) :
    (items.zipIdx.flatMap place).Nodup := by
  refine List.nodup_flatMap.mpr ⟨hplace, ?_⟩
  have hnumbers : items.zipIdx.Pairwise fun first second => first.2 ≠ second.2 :=
    List.pairwise_map.mp (List.nodup_zipIdx_map_snd items)
  refine hnumbers.imp fun hne site hfirst hsecond => hne ?_
  rw [← hitem _ site hfirst, ← hitem _ site hsecond]

/-- No two constructs of a document are at the same place. -/
theorem nodup_located (items : List Node) : ((located items).map (·.1)).Nodup := by
  rw [located, List.map_flatMap]
  refine nodup_zipIdx (fun entry _ => ?_) fun entry site hsite => ?_
  · have hpaths := (Node.nodup_located entry.1).map
      (f := fun path => (⟨entry.2, path⟩ : Site)) fun first second heq => congrArg Site.path heq
    simpa [List.map_map, Function.comp_def] using hpaths
  · simp only [List.mem_map] at hsite
    obtain ⟨_, ⟨_, -, rfl⟩, rfl⟩ := hsite
    rfl

theorem nodup_filterMap {entries : List (Site × Node)} {f : Site × Node → Option Diagnostic}
    (hnodup : (entries.map (·.1)).Nodup)
    (hsite : ∀ {entry diagnostic}, f entry = some diagnostic → diagnostic.site = entry.1) :
    ((entries.filterMap f).map Diagnostic.site).Nodup := by
  refine hnodup.sublist ?_
  induction entries with
  | nil => exact .slnil
  | cons entry rest ih =>
      have hrest := ih (List.nodup_cons.mp hnodup).2
      cases hentry : f entry with
      | none =>
          rw [List.filterMap_cons_none hentry]
          exact hrest.cons _
      | some diagnostic =>
          rw [List.filterMap_cons_some hentry, List.map_cons, List.map_cons, hsite hentry]
          exact hrest.cons_cons _

namespace Rule

theorem nodup_numberedAs (node : Node) (role : Role) :
    ((node.numberedAs role).map (·.1)).Nodup := by
  have hgo (number : Nat) (parts : List Part) :
      ((Node.numberedAs.go role number parts).map (·.1)).Nodup := by
    induction parts generalizing number with
    | nil => exact .nil
    | cons part parts ih =>
        cases part with
        | token own token => exact ih number
        | node own child =>
            rw [Node.numberedAs.go]
            split
            · refine List.nodup_cons.mpr ⟨fun hmem => ?_, ih (number + 1)⟩
              obtain ⟨⟨place, later⟩, hlater, heq⟩ := List.mem_map.mp hmem
              have hrange := (Node.range_of_mem_go hlater).1
              dsimp only at heq
              omega
            · exact ih (number + 1)
  exact hgo 0 node.parts

/-- A rule that comes with repairs objects to a construct once. -/
theorem nodup_objections {rule : Rule} (hrule : rule.isFixable = true) (items : List Node) :
    ((rule.objections items).map Diagnostic.site).Nodup := by
  -- each rule that is fixable reports a place once
  cases rule with
  | replaceVoid =>
      refine nodup_filterMap (nodup_located items) fun {entry diagnostic} hfound => ?_
      obtain ⟨base, -, hfound⟩ := Option.bind_eq_some_iff.mp hfound
      split at hfound
      · obtain rfl := Option.some.inj hfound
        rfl
      · cases hfound
  | requireExposed =>
      have hat (entry : Node × Nat) :
          (exposureAt ⟨entry.2, []⟩ entry.1).map Diagnostic.site = [⟨entry.2, []⟩] ∨
            (exposureAt ⟨entry.2, []⟩ entry.1).map Diagnostic.site = [] := by
        rw [exposureAt]
        split
        · exact Or.inl rfl
        · exact Or.inr rfl
      change ((exposureObjections items).map Diagnostic.site).Nodup
      rw [exposureObjections_eq, List.map_flatMap]
      refine nodup_zipIdx (fun entry _ => ?_) fun entry site hsite => ?_
      · rcases hat entry with heq | heq <;> rw [heq] <;> simp
      · rcases hat entry with heq | heq
        · rw [heq] at hsite
          rw [List.mem_singleton.mp hsite]
        · rw [heq] at hsite
          cases hsite
  | renamedLegacy =>
      refine nodup_filterMap (nodup_located items) fun {entry diagnostic} hfound => ?_
      dsimp only at hfound
      split at hfound
      · obtain ⟨newName, -, rfl⟩ := Option.map_eq_some_iff.mp hfound
        rfl
      · cases hfound
  | dictArgDefault =>
      -- the arguments of one node are told apart by their numbers, those of two by their owners
      have hsites (entry : Site × Node) :
          (defaultObjections items entry.1 (entry.2.numberedAs .argument)).map Diagnostic.site =
          (((entry.2.numberedAs .argument).filter fun pair => lacksDefault items pair.2).map
            (·.1)).map fun number => entry.1.below [number] := by
        rw [defaultObjections, List.map_map, List.map_map]
        rfl
      change (((located items).flatMap fun entry =>
        defaultObjections items entry.1 (entry.2.numberedAs .argument)).map Diagnostic.site).Nodup
      rw [List.map_flatMap, List.flatMap_congr fun entry _ => hsites entry]
      refine List.nodup_flatMap.mpr ⟨fun entry _ => ?_, ?_⟩
      · refine List.Nodup.map (fun first second heq => ?_)
          ((nodup_numberedAs entry.2 .argument).sublist (List.filter_sublist.map _))
        simpa using heq
      · refine (List.pairwise_map.mp (nodup_located items)).imp fun {first second} hne site hfirst
          hsecond => hne ?_
        obtain ⟨number, -, rfl⟩ := List.mem_map.mp hfirst
        obtain ⟨other, -, heq⟩ := List.mem_map.mp hsecond
        simp only [Site.below, Site.mk.injEq] at heq
        exact congrArg₂ Site.mk heq.1.symm (List.append_inj_left' heq.2 rfl).symm
  | noDuplicate => cases hrule
  | attrInvalidType => cases hrule

/-- The rule whose repairs are for constructs of this kind. -/
def ruleFor? : Construct → Option Rule
  | .type | .unionType | .utf8StringRecord => some .replaceVoid
  | .interface | .namespaceDef => some .requireExposed
  | .extendedAttribute => some .renamedLegacy
  | .argument => some .dictArgDefault
  | _ => none

theorem ruleFor?_of_suits {repair : Repair} {node : Node} (h : repair.Suits node) :
    ruleFor? node.construct = some repair.rule := by
  cases repair with
  | replaceVoid =>
      have htype := h.1
      cases hconstruct : node.construct <;> first | rfl | (rw [hconstruct] at htype; cases htype)
  | addExposed =>
      simp only [Repair.Suits, needsExposure, Bool.and_eq_true, Bool.or_eq_true, beq_iff_eq] at h
      rcases h.1 with hconstruct | hconstruct <;> rw [hconstruct] <;> rfl
  | rename name =>
      rw [h.1]
      rfl
  | addDefault =>
      rw [h.1]
      rfl

/-- No two diagnostics with a repair are about the same construct. -/
theorem nodup_sites {extended : Bool} {items : List Node} (hitems : FormedItems extended items)
    (hvoid : ∀ token ∈ items.flatMap Node.tokens, token.text = "void" → token.kind = .inline) :
    (((WebIdl.objections all items).filter (·.repair.isSome)).map Diagnostic.site).Nodup := by
  rw [WebIdl.objections, List.filter_flatMap, List.map_flatMap]
  refine List.nodup_flatMap.mpr ⟨fun rule _ => ?_, ?_⟩
  · cases hfixable : rule.isFixable with
    | true => exact (nodup_objections hfixable items).sublist (List.filter_sublist.map _)
    | false =>
        have hnone : (rule.objections items).filter (·.repair.isSome) = [] := by
          refine List.filter_eq_nil_iff.mpr fun diagnostic hmem hsome => ?_
          have hrepair := (of_mem_objections hmem).2
          rw [hfixable, if_neg (by simp), Option.map_eq_none_iff] at hrepair
          rw [hrepair] at hsome
          cases hsome
        rw [hnone]
        exact .nil
  · -- what stands at a place decides which rule could report it
    have hsuits {rule : Rule} {diagnostic : Diagnostic}
        (hmem : diagnostic ∈ (rule.objections items).filter (·.repair.isSome)) :
        ∃ node, diagnostic.site.node? items = some node ∧ ruleFor? node.construct = some rule := by
      obtain ⟨hcheck, hsome⟩ := List.mem_filter.mp hmem
      obtain ⟨repair, hrepair⟩ := Option.isSome_iff_exists.mp hsome
      have hmember : diagnostic ∈ WebIdl.objections all items :=
        List.mem_flatMap.mpr ⟨rule, mem_all rule, hcheck⟩
      obtain ⟨-, node, hnode, hfits, -⟩ :=
        Diagnostic.suits_of_mem_objections hitems hvoid hmember hrepair
      have hown := (of_mem_objections hcheck).2
      rw [hrepair, Option.map_some] at hown
      split at hown
      · exact ⟨node, hnode, (ruleFor?_of_suits hfits).trans hown⟩
      · cases hown
    refine List.Pairwise.imp (fun {rule other} hne site hfirst hsecond => hne ?_)
      (by decide : all.Nodup)
    obtain ⟨diagnostic, hmem, rfl⟩ := List.mem_map.mp hfirst
    obtain ⟨second, hmem', hsite⟩ := List.mem_map.mp hsecond
    obtain ⟨node, hnode, hrule⟩ := hsuits hmem
    obtain ⟨node', hnode', hrule'⟩ := hsuits hmem'
    rw [hsite, hnode] at hnode'
    obtain rfl := Option.some.inj hnode'
    exact Option.some.inj (hrule.symm.trans hrule')

end Rule

end WebIdl
