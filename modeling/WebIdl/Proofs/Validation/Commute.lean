import WebIdl.Proofs.Tree.Modify
import WebIdl.Proofs.Validation.Apart

/-!
# Repairs in any order

Repairs that were proposed together can be made in any order.  Each one is an edit at its place, so two
of them can only meet if one place is below the other: a name that is changed below a definition that
is exposed, or a type or a name below an argument that gets a default value.  No repair reads what
another one writes there (`Repair.make_modifyAt`), so any two can be swapped (`Intact.fix_comm`), and a
row of them can be put in any order (`Intact.foldlM_perm`).
-/

namespace WebIdl

open WebIdl.Shape

namespace Repair

/-- The construct as a repair leaves it; one that cannot be repaired stays as it is. -/
def make (repair : Repair) (node : Node) : Node :=
  match repair.apply node with
  | .ok changed => changed
  | .error _ => node

theorem make_eq {repair : Repair} {node changed : Node} (h : repair.apply node = .ok changed) :
    repair.make node = changed := by
  rw [make, h]

/-- A repair of a token changes it if it is there. -/
theorem make_eq_mapToken (repair : Repair) {role : Role} {edit : Token → Token}
    (h : ∀ node, repair.apply node = (node.modifyToken role edit).mapError .missing) (node : Node) :
    repair.make node = node.mapToken role edit := by
  rw [make, h]
  cases htoken : node.token? role with
  | none =>
      have hsame : node.mapToken role edit = node := Node.mapToken_eq_self (by simp [htoken])
      rw [Node.modifyToken, Node.tokenIn, htoken, hsame]
      rfl
  | some token =>
      rw [Node.modifyToken_eq_ok htoken]
      rfl

/-- Makes a repair at a place of a list of items. -/
def makeAt (repair : Repair) (site : Site) (items : List Node) : List Node :=
  items.modify site.item (Node.modifyAt repair.make site.path)

/-- A construct suits one repair only. -/
theorem Suits.unique {repair other : Repair} {node : Node} (h : repair.Suits node)
    (hother : other.Suits node) : repair = other := by
  have hrule : repair.rule = other.rule :=
    Option.some.inj ((Rule.ruleFor?_of_suits h).symm.trans (Rule.ruleFor?_of_suits hother))
  cases repair <;> cases other <;> cases hrule
  case rename.rename name newName =>
    obtain ⟨-, former, hname⟩ := h
    obtain ⟨-, other, hrenamed⟩ := hother
    rw [hname.unique hrenamed]
  all_goals rfl

/-- An extended attribute is not repaired in any other way than by a new name. -/
theorem Suits.eq_rename {repair : Repair} {node : Node} (h : repair.Suits node)
    (hconstruct : node.construct = .extendedAttribute) : ∃ name, repair = .rename name := by
  have hrule := Rule.ruleFor?_of_suits h
  rw [hconstruct] at hrule
  cases repair with
  | rename name => exact ⟨name, rfl⟩
  | _ => cases hrule

end Repair

/-! ## Repairs below repairs -/

section

variable {extended : Bool} {repair other : Repair} {node inner : Node} {number : Nat}
  {path : List Nat}

theorem modify_append_length (front back : List Node) (edit : Node → Node) :
    (front ++ back).modify front.length edit = front ++ back.modify 0 edit := by
  refine List.ext_getElem? fun index => ?_
  grind

/-- A new default value takes no notice of what is repaired before it. -/
theorem Shape.Formed.make_addDefault {category : Category} (h : Formed extended category node)
    (hcategory : category.isRegular = true) (hsuits : Repair.addDefault.Suits node)
    (hinner : node.at? (number :: path) = some inner) (hother : other.Suits inner) :
    Repair.addDefault.make (node.modifyAt other.make (number :: path)) =
      (Repair.addDefault.make node).modifyAt other.make (number :: path) := by
  obtain ⟨hconstruct, hoptional, hdefault⟩ := hsuits
  obtain ⟨label, attributes, optional, type, name, value, separator, rfl, -, -⟩ :=
    h.optional_argument hcategory hconstruct hoptional
  match number with
  | 0 | 1 => cases value <;> cases separator <;> rfl
  | number + 2 =>
      -- only the default value could stand here, and it is not repaired
      exfalso
      cases value with
      | none => cases separator <;> simp [Node.at?, Part.ofNode?] at hinner
      | some value =>
          have hvalue : value = Repair.emptyDictionary := by
            simpa [Part.ofNode?] using hdefault
          cases number with
          | succ number => cases separator <;> simp [Node.at?, Part.ofNode?] at hinner
          | zero =>
              have hat : value.at? path = some inner := by
                simpa [Node.at?, Part.ofNode?] using hinner
              have hne := hother.construct_ne (by simp : Construct.default ∈ _)
              exact (Node.swaps_modifyAt hat inner).ne_emptyDictionary hne hvalue

/-- A separator can be put behind an attribute before or after a repair in it. -/
theorem Shape.Formed.withSeparator_modifyAt (h : Formed extended { symbol := .extendedAttribute } node)
    (hinner : node.at? path = some inner) (hother : other.Suits inner) :
    (node.modifyAt other.make path).has .separator = false ∧
      (node.modifyAt other.make path).withSeparator Repair.comma =
        (node.withSeparator Repair.comma).modifyAt other.make path := by
  have hbare := h.lone_attribute.1
  cases path with
  | cons number path =>
      refine ⟨?_, Node.withSeparator_modifyAt _ _ _⟩
      rw [Node.has, Node.token?_modifyAt]
      exact hbare
  | nil =>
      obtain rfl : node = inner := by simpa [Node.at?] using hinner
      obtain ⟨hform, hlabel, -, hparts⟩ := h
      obtain ⟨tail, -, rfl⟩ := List.mem_map.mp hform
      obtain ⟨name, rest, rfl, -, -⟩ := fits_token.mp hparts
      obtain ⟨newName, rfl⟩ := hother.eq_rename hlabel
      refine ⟨?_, rfl⟩
      rw [Node.has, Node.token?_token, if_neg (by decide)] at hbare
      change (Node.mk _ (.token .name _ :: rest)).has .separator = false
      rw [Node.has, Node.token?_token, if_neg (by decide), hbare]

/-- A definition can be exposed before or after a repair in it. -/
theorem Shape.Formed.make_addExposed (h : Formed extended { symbol := .definition } node)
    (hsuits : Repair.addExposed.Suits node) (hinner : node.at? (number :: path) = some inner)
    (hother : other.Suits inner) :
    Repair.addExposed.make (node.modifyAt other.make (number :: path)) =
      (Repair.addExposed.make node).modifyAt other.make (number :: path) := by
  obtain ⟨label, attributes, base, rest, rfl, -, hattributes, -⟩ := h.exposable hsuits
  -- the list of attributes is not repaired itself
  have hlist : number = 0 → path ≠ [] := by
    rintro rfl rfl
    obtain rfl : attributes = inner := by simpa [Node.at?] using hinner
    exact hother.construct_ne (by simp : Construct.extendedAttributes ∈ _)
      (Rule.construct_attributes hattributes)
  rcases hattributes.attributes_cases with ⟨own, rfl, -⟩ | ⟨own, opening, front, last, closing,
    rfl, -, hlast, -⟩
  · match number, path with
    | number + 1, path => rfl
    | 0, [] => exact absurd rfl (hlist rfl)
    | 0, place :: path => simp [Node.at?] at hinner
  · have hbare := hlast.lone_attribute.1
    rw [Repair.make_eq (Repair.apply_addExposed_written hbare)]
    match number, path with
    | number + 1, path =>
        rw [Node.modifyAt, Part.modifyChild_node_succ,
          Repair.make_eq (Repair.apply_addExposed_written hbare)]
        rfl
    | 0, [] => exact absurd rfl (hlist rfl)
    | 0, place :: path =>
        obtain ⟨child, hchild, hat⟩ : ∃ child, (front ++ [last])[place]? = some child ∧
            child.at? path = some inner := by
          simpa [Node.at?, Option.bind_eq_some_iff] using hinner
        have hclosing : childrenOf [Part.token .closing closing] = [] := rfl
        simp only [Node.modifyAt, Part.modifyChild_node_zero, Part.modifyChild_token,
          Part.modifyChild_ofNodes _ _ _ hclosing]
        by_cases hplace : place < front.length
        · rw [modify_append_of_lt hplace, modify_append_of_lt hplace,
            Repair.make_eq (Repair.apply_addExposed_written hbare)]
        · -- the last attribute, which gets a comma
          obtain ⟨hlt, heq⟩ := List.getElem?_eq_some_iff.mp hchild
          rw [List.length_append, List.length_singleton] at hlt
          obtain rfl : place = front.length := by omega
          obtain rfl : last = child := by simpa using heq
          obtain ⟨hstill, hcomma⟩ := hlast.withSeparator_modifyAt hat hother
          rw [modify_append_length, modify_append_length, List.modify_zero_cons,
            List.modify_zero_cons, Repair.make_eq (Repair.apply_addExposed_written hstill), hcomma]

/-- A repair does not read what another one writes below it. -/
theorem Shape.Formed.make_modifyAt {category : Category} (h : Formed extended category node)
    (hcategory : category.isRegular = true) (hsuits : repair.Suits node)
    (hexposed : repair = .addExposed → category = { symbol := .definition })
    (hinner : node.at? path = some inner) (hother : other.Suits inner) :
    repair.make (node.modifyAt other.make path) = (repair.make node).modifyAt other.make path := by
  cases path with
  | nil =>
      obtain rfl : node = inner := by simpa [Node.at?] using hinner
      rw [hsuits.unique hother]
      rfl
  | cons number path =>
      cases repair with
      | replaceVoid =>
          simp only [Repair.make_eq_mapToken .replaceVoid fun _ => rfl]
          exact Node.mapToken_modifyAt _ _ _ _
      | rename name =>
          simp only [Repair.make_eq_mapToken (.rename name) fun _ => rfl]
          exact Node.mapToken_modifyAt _ _ _ _
      | addDefault => exact h.make_addDefault hcategory hsuits hinner hother
      | addExposed =>
          obtain rfl := hexposed rfl
          exact h.make_addExposed hsuits hinner hother

end

/-! ## Repairs of a document -/

section

variable {extended : Bool} {items : List Node}

theorem modify_congr {place : Nat} {edit own : Node → Node}
    (h : ∀ node, items[place]? = some node → edit node = own node) :
    items.modify place edit = items.modify place own := by
  refine List.ext_getElem? fun index => ?_
  rw [List.getElem?_modify, List.getElem?_modify]
  cases hnode : items[index]? with
  | none => rfl
  | some node =>
      by_cases hindex : place = index
      · simp [hindex, h node (hindex ▸ hnode)]
      · simp [hindex]

/-- A repair that is made is an edit at its place. -/
theorem Diagnostic.eq_makeAt_of_fix {diagnostic : Diagnostic} {repair : Repair}
    {others : List Node} (hrepair : diagnostic.repair = some repair)
    (h : diagnostic.fix items = .ok others) : others = repair.makeAt diagnostic.site items := by
  simp only [fix, hrepair] at h
  split at h
  · cases h
  · rename_i node hnode
    cases happly : repair.apply node with
    | error error =>
        rw [happly] at h
        cases h
    | ok changed =>
        rw [happly] at h
        obtain rfl := Except.ok.inj h
        refine modify_congr fun item hitem => Node.modifyAt_congr fun inner hinner => ?_
        have heq : inner = node := by
          rw [Site.node?, hitem, Option.bind_some, hinner] at hnode
          exact Option.some.inj hnode
        rw [heq, Repair.make_eq happly]

/-- A repair of a document does not read what another one writes below it. -/
theorem FormedItems.make_modifyAt {repair other : Repair} {site : Site} {path : List Nat}
    {node inner : Node} (h : FormedItems extended items) (hnode : site.node? items = some node)
    (hsuits : repair.Suits node) (hexposed : repair = .addExposed → site.path = [])
    (hinner : (site.below path).node? items = some inner) (hother : other.Suits inner) :
    repair.make (node.modifyAt other.make path) = (repair.make node).modifyAt other.make path := by
  rcases h.node? hnode with ⟨category, hcategory, hformed, htop⟩ | ⟨last, rfl⟩
  · rw [Site.node?_below hnode] at hinner
    exact hformed.make_modifyAt hcategory hsuits (fun heq => htop (hexposed heq)) hinner hother
  · exact absurd rfl (hsuits.construct_ne (by simp : Construct.eof ∈ _))

/-- Two repairs of a document can be made in either order. -/
theorem FormedItems.makeAt_comm {repair other : Repair} {site place : Site} {node inner : Node}
    (h : FormedItems extended items) (hnode : site.node? items = some node)
    (hsuits : repair.Suits node) (hexposed : repair = .addExposed → site.path = [])
    (hinner : place.node? items = some inner) (hother : other.Suits inner)
    (htop : other = .addExposed → place.path = []) :
    repair.makeAt site (other.makeAt place items) =
      other.makeAt place (repair.makeAt site items) := by
  unfold Repair.makeAt
  by_cases hitem : place.item = site.item
  · rw [hitem, List.modify_modify_eq, List.modify_modify_eq]
    refine modify_congr fun item hnumber => Node.modifyAt_comm ?_ ?_
    · intro found rest hfound hrest
      have hbelow : place = site.below rest := by simp [Site.below, ← hitem, ← hrest]
      have heq : found = node := by
        rw [Site.node?, hnumber, Option.bind_some, hfound] at hnode
        exact Option.some.inj hnode
      rw [hbelow] at hinner
      rw [heq]
      exact h.make_modifyAt hnode hsuits hexposed hinner hother
    · intro found rest hfound hrest
      have hbelow : site = place.below rest := by simp [Site.below, hitem, ← hrest]
      have heq : found = inner := by
        rw [Site.node?, hitem, hnumber, Option.bind_some, hfound] at hinner
        exact Option.some.inj hinner
      rw [hbelow] at hnode
      rw [heq]
      exact h.make_modifyAt hinner hother htop hnode hsuits
  · exact List.modify_modify_ne _ _ _ hitem

namespace Mending.Intact

variable {available applied : List Tweak} {mending : Mending}

/-- A repair that was proposed is an edit at its place. -/
theorem fix_eq_makeAt (h : Intact extended available applied mending) {diagnostic : Diagnostic}
    {repair : Repair} (hfound : diagnostic ∈ mending.found)
    (hrepair : diagnostic.repair = some repair) :
    diagnostic.fix mending.items = .ok (repair.makeAt diagnostic.site mending.items) := by
  obtain ⟨others, hfix⟩ := h.exists_fix hfound (Option.isSome_of_eq_some hrepair)
  rw [hfix, Diagnostic.eq_makeAt_of_fix hrepair hfix]

/-- Two repairs that were proposed can be made in either order. -/
theorem fix_comm (h : Intact extended available applied mending) {first second : Diagnostic}
    (hfirst : first ∈ mending.found ∧ first.repair.isSome = true)
    (hsecond : second ∈ mending.found ∧ second.repair.isSome = true) :
    (first.fix mending.items).bind second.fix = (second.fix mending.items).bind first.fix := by
  obtain ⟨repair, hrepair⟩ := Option.isSome_iff_exists.mp hfirst.2
  obtain ⟨other, hother⟩ := Option.isSome_iff_exists.mp hsecond.2
  obtain ⟨htop, node, hnode, hsuits⟩ := h.suited first hfirst.1 repair hrepair
  obtain ⟨hother_top, inner, hinner, hother_suits⟩ := h.suited second hsecond.1 other hother
  have hleft := h.fix_eq_makeAt hfirst.1 hrepair
  have hright := h.fix_eq_makeAt hsecond.1 hother
  calc (first.fix mending.items).bind second.fix
    _ = second.fix (repair.makeAt first.site mending.items) := by rw [hleft]; rfl
    _ = .ok (other.makeAt second.site (repair.makeAt first.site mending.items)) :=
        (h.fix hfirst.1 hleft).fix_eq_makeAt hsecond.1 hother
    _ = .ok (repair.makeAt first.site (other.makeAt second.site mending.items)) := by
        rw [h.formed.makeAt_comm hnode hsuits htop hinner hother_suits hother_top]
    _ = first.fix (other.makeAt second.site mending.items) :=
        ((h.fix hsecond.1 hright).fix_eq_makeAt hfirst.1 hrepair).symm
    _ = (second.fix mending.items).bind first.fix := by rw [hright]; rfl

/-- A row of repairs that were proposed can be made in any order. -/
theorem foldlM_perm (h : Intact extended available applied mending)
    {chosen order : List Diagnostic} (hperm : order.Perm chosen)
    (hchosen : ∀ diagnostic ∈ chosen,
      diagnostic ∈ mending.found ∧ diagnostic.repair.isSome = true) :
    order.foldlM (fun items diagnostic => diagnostic.fix items) mending.items =
      chosen.foldlM (fun items diagnostic => diagnostic.fix items) mending.items := by
  -- the items change along the row, what was found stays
  induction hperm generalizing mending with
  | nil => rfl
  | cons diagnostic hperm ih =>
      obtain ⟨hfound, hrepair⟩ := hchosen diagnostic List.mem_cons_self
      obtain ⟨items, hfix⟩ := h.exists_fix hfound hrepair
      rw [List.foldlM_cons, List.foldlM_cons, hfix]
      apply ih (h.fix hfound hfix)
      intro other hother
      exact hchosen other (List.mem_cons_of_mem _ hother)
  | swap first second rest =>
      have hcomm := h.fix_comm (hchosen second (by simp)) (hchosen first (by simp))
      simp only [List.foldlM_cons, ← bind_assoc]
      exact congrArg (fun result => result >>= fun items => rest.foldlM _ items) hcomm
  | trans hperm hnext ih hih =>
      rw [ih h fun diagnostic hmem => hchosen diagnostic (hnext.mem_iff.mp hmem), hih h hchosen]

end Mending.Intact

end

end WebIdl
