import WebIdl.Proofs.Validation.Step

/-!
# What is found around a construct that is swapped

Four of the rules look at the constructs of a document one by one, each with its place.  When one
construct is swapped for another, such a rule finds what it found before, less what it found at that
place for the repair that was made, provided that this holds at three kinds of construct
(`SwapsAt.found_eq`): those around the place do not look different to the rule; the construct itself
loses the finding; and those inside it keep theirs.
-/

namespace WebIdl

open WebIdl.Shape

/-! ## Places below a place -/

/-- The place that a path leads to from another place. -/
def Site.below (site : Site) (path : List Nat) : Site :=
  { site with path := site.path ++ path }

@[simp] theorem Site.below_nil (site : Site) : site.below [] = site := by
  simp [Site.below]

@[simp] theorem Site.below_below (site : Site) (path rest : List Nat) :
    (site.below path).below rest = site.below (path ++ rest) := by
  simp [Site.below]

@[simp] theorem Site.below_inj {site : Site} {path other : List Nat} :
    site.below path = site.below other ↔ path = other := by
  simp [Site.below]

theorem Site.node?_below {site : Site} {items : List Node} {node : Node}
    (h : site.node? items = some node) (path : List Nat) :
    (site.below path).node? items = node.at? path := by
  obtain ⟨item, hitem, hat⟩ := Option.bind_eq_some_iff.mp h
  change (items[site.item]?).bind (Node.at? (site.path ++ path)) = _
  rw [hitem, Option.bind_some, Node.at?_append, hat, Option.bind_some]

/-! ## Findings construct by construct -/

section

variable (find : Site → Node → List Diagnostic)

/-- What is found in a tree at a place, construct by construct. -/
def foundIn (site : Site) (node : Node) : List Diagnostic :=
  node.located.flatMap fun (path, inner) => find (site.below path) inner

/-- What is found in some parts of the construct at a place, the first child among them having the
given number. -/
def foundFrom (site : Site) (number : Nat) (parts : List Part) : List Diagnostic :=
  (locatedFrom number parts).flatMap fun (path, inner) => find (site.below path) inner

variable {find}

theorem foundIn_mk (site : Site) (label : Label) (parts : List Part) :
    foundIn find site (.mk label parts) =
      find site (.mk label parts) ++ foundFrom find site 0 parts := by
  simp [foundIn, foundFrom, Node.located]

@[simp] theorem foundFrom_nil (site : Site) (number : Nat) : foundFrom find site number [] = [] := by
  simp [foundFrom, locatedFrom]

@[simp] theorem foundFrom_token (site : Site) (number : Nat) (role : Role) (token : Token)
    (parts : List Part) :
    foundFrom find site number (.token role token :: parts) = foundFrom find site number parts := by
  simp [foundFrom, locatedFrom]

@[simp] theorem foundFrom_node (site : Site) (number : Nat) (role : Role) (node : Node)
    (parts : List Part) :
    foundFrom find site number (.node role node :: parts) =
      foundIn find (site.below [number]) node ++ foundFrom find site (number + 1) parts := by
  simp [foundFrom, foundIn, locatedFrom, List.flatMap_map]

theorem foundFrom_append (site : Site) (number : Nat) (front back : List Part) :
    foundFrom find site number (front ++ back) =
      foundFrom find site number front ++
        foundFrom find site (number + (childrenOf front).length) back := by
  induction front generalizing number with
  | nil => simp
  | cons part front ih =>
      cases part with
      | token role token => simp [ih]
      | node role node => simp [ih, Nat.add_assoc, Nat.add_comm 1]

@[simp] theorem foundFrom_ofToken? (site : Site) (number : Nat) (role : Role)
    (token : Option Token) : foundFrom find site number (Part.ofToken? role token) = [] := by
  cases token <;> simp [Part.ofToken?]

/-- What is found in the items of a document is found item by item. -/
theorem flatMap_located (items : List Node) :
    (located items).flatMap (fun (site, node) => find site node) =
      items.zipIdx.flatMap fun (node, item) => foundIn find ⟨item, []⟩ node := by
  rw [located, List.flatMap_assoc]
  refine List.flatMap_congr fun pair _ => ?_
  rw [List.flatMap_map]
  rfl

/-! ## Findings stay in their place -/

/-- What is found at a construct is about it or about something inside it. -/
def IsLocal (find : Site → Node → List Diagnostic) : Prop :=
  ∀ site node, ∀ diagnostic ∈ find site node, ∃ path, diagnostic.site = site.below path

theorem IsLocal.foundIn (h : IsLocal find) : IsLocal (foundIn find) := by
  intro site node diagnostic hmem
  obtain ⟨⟨path, inner⟩, -, hinner⟩ := List.mem_flatMap.mp hmem
  obtain ⟨rest, hrest⟩ := h _ _ diagnostic hinner
  exact ⟨path ++ rest, by rw [hrest, Site.below_below]⟩

theorem IsLocal.foundFrom (h : IsLocal find) {site : Site} {number : Nat} {parts : List Part}
    {diagnostic : Diagnostic} (hmem : diagnostic ∈ foundFrom find site number parts) :
    ∃ step path, diagnostic.site = site.below ((number + step) :: path) ∧
      step < (childrenOf parts).length := by
  obtain ⟨⟨path, inner⟩, hlocated, hinner⟩ := List.mem_flatMap.mp hmem
  obtain ⟨step, rest, child, rfl, hchild, -⟩ := mem_locatedFrom hlocated
  obtain ⟨further, hfurther⟩ := h _ _ diagnostic hinner
  refine ⟨step, rest ++ further, by rw [hfurther, Site.below_below]; rfl, ?_⟩
  exact (List.getElem?_eq_some_iff.mp hchild).1

end

/-- The diagnostic is not the one at this place with this repair. -/
def Diagnostic.stays (target : Site) (repair : Repair) (diagnostic : Diagnostic) : Bool :=
  !(diagnostic.site == target && diagnostic.repair == some repair)

section

variable {target : Site} {repair : Repair} {diagnostics : List Diagnostic}

theorem filter_stays_of_site
    (h : ∀ diagnostic ∈ diagnostics, diagnostic.site ≠ target) :
    diagnostics.filter (Diagnostic.stays target repair) = diagnostics := by
  refine List.filter_eq_self.mpr fun diagnostic hmem => ?_
  simp [Diagnostic.stays, h diagnostic hmem]

theorem filter_stays_of_repair
    (h : ∀ diagnostic ∈ diagnostics, diagnostic.repair ≠ some repair) :
    diagnostics.filter (Diagnostic.stays target repair) = diagnostics := by
  refine List.filter_eq_self.mpr fun diagnostic hmem => ?_
  simp [Diagnostic.stays, h diagnostic hmem]

end

/-! ## Around a swap -/

section

variable {extended : Bool} {find : Site → Node → List Diagnostic} {target : Site}
  {repair : Repair} {old new : Node}

/-- The constructs around the place of a swap lose no finding but the one that the repair is for. -/
def HoldsAround (extended : Bool) (find : Site → Node → List Diagnostic) (target : Site)
    (repair : Repair) (old new : Node) : Prop :=
  ∀ {site : Site} {label : Label} {front back : List Part} {role : Role} {child changed : Node}
    {path : List Nat} {category : Category}, category.isRegular = true →
    Formed extended category (.mk label (front ++ .node role child :: back)) →
    Swaps old new path child changed → target = site.below ((childrenOf front).length :: path) →
    find site (.mk label (front ++ .node role changed :: back)) =
      (find site (.mk label (front ++ .node role child :: back))).filter
        (Diagnostic.stays target repair)

/-- What is found in a tree after a swap, by induction along the path to the construct. -/
theorem Swaps.foundIn_eq {node changed : Node} {path : List Nat}
    (h : Swaps old new path node changed) (hlocal : IsLocal find)
    (hhere : foundIn find target new =
      (foundIn find target old).filter (Diagnostic.stays target repair))
    (haround : HoldsAround extended find target repair old new) {site : Site}
    (htarget : target = site.below path) {category : Category}
    (hcategory : category.isRegular = true) (hformed : Formed extended category node) :
    foundIn find site changed =
      (foundIn find site node).filter (Diagnostic.stays target repair) := by
  -- along the path: what is found beside it stands elsewhere, and stays
  induction h generalizing site category with
  | here =>
      rw [Site.below_nil] at htarget
      rw [← htarget]
      exact hhere
  | @inside path child changed label front role back hbelow ih =>
      have hself := haround hcategory hformed hbelow htarget
      obtain ⟨own, hregular, hchild, -⟩ := hformed.child hcategory
        (List.mem_append_right front List.mem_cons_self)
      have hinside := @ih (site.below [(childrenOf front).length])
        (by rw [htarget, Site.below_below]; rfl) own hregular hchild
      have hfront : (foundFrom find site 0 front).filter (Diagnostic.stays target repair) =
          foundFrom find site 0 front := by
        refine filter_stays_of_site fun diagnostic hmem heq => ?_
        obtain ⟨step, rest, hsite, hlt⟩ := hlocal.foundFrom hmem
        rw [heq, htarget, Site.below_inj, List.cons.injEq] at hsite
        omega
      have hback : (foundFrom find site ((childrenOf front).length + 1) back).filter
          (Diagnostic.stays target repair) =
          foundFrom find site ((childrenOf front).length + 1) back := by
        refine filter_stays_of_site fun diagnostic hmem heq => ?_
        obtain ⟨step, rest, hsite, -⟩ := hlocal.foundFrom hmem
        rw [heq, htarget, Site.below_inj, List.cons.injEq] at hsite
        omega
      rw [foundIn_mk, foundIn_mk, foundFrom_append, foundFrom_append, foundFrom_node,
        foundFrom_node, Nat.zero_add, hself, hinside]
      simp only [List.filter_append, hfront, hback]

/-- What is swapped in a document is in a well-formed definition. -/
theorem FormedItems.definition_of_swapsAt {items others : List Node}
    (hitems : FormedItems extended items) (hswaps : SwapsAt target old new items others)
    (hold : old.construct ≠ .eof) :
    ∃ front node changed back, items = front ++ node :: back ∧ front.length = target.item ∧
      Swaps old new target.path node changed ∧ others = front ++ changed :: back ∧
      Formed extended { symbol := .definition } node := by
  obtain ⟨front, node, changed, back, rfl, hlength, hpath, rfl⟩ := hswaps
  refine ⟨front, node, changed, back, rfl, hlength, hpath, rfl, ?_⟩
  have hnode : Site.node? ⟨front.length, []⟩ (front ++ node :: back) = some node := by
    simp [Site.node?, Node.at?]
  rcases hitems.node? hnode with ⟨own, -, hformed, hown⟩ | ⟨last, rfl⟩
  · exact hown rfl ▸ hformed
  · -- nothing is inside the end of the text
    generalize target.path = path at hpath
    generalize heof : Node.ofEof last = node at hpath
    cases hpath with
    | here => exact absurd (by rw [← heof]; rfl) hold
    | inside label front role back _ => cases front <;> simp [Node.ofEof] at heof

/-- What is found in a document after a swap. -/
theorem SwapsAt.found_eq {items others : List Node} (h : SwapsAt target old new items others)
    (hitems : FormedItems extended items) (hold : old.construct ≠ .eof) (hlocal : IsLocal find)
    (hhere : foundIn find target new =
      (foundIn find target old).filter (Diagnostic.stays target repair))
    (haround : HoldsAround extended find target repair old new) :
    (located others).flatMap (fun (site, node) => find site node) =
      ((located items).flatMap fun (site, node) => find site node).filter
        (Diagnostic.stays target repair) := by
  obtain ⟨front, node, changed, back, rfl, hlength, hswaps, rfl, hformed⟩ :=
    hitems.definition_of_swapsAt h hold
  have htarget : target = Site.below ⟨front.length, []⟩ target.path := by
    rw [hlength]
    rfl
  have hitem := hswaps.foundIn_eq hlocal hhere haround htarget rfl hformed
  have hother {nodes : List (Node × Nat)} (hnodes : ∀ pair ∈ nodes, pair.2 ≠ target.item) :
      (nodes.flatMap fun (node, item) => foundIn find ⟨item, []⟩ node).filter
        (Diagnostic.stays target repair) =
        nodes.flatMap fun (node, item) => foundIn find ⟨item, []⟩ node := by
    refine filter_stays_of_site fun diagnostic hmem heq => ?_
    obtain ⟨pair, hpair, hfound⟩ := List.mem_flatMap.mp hmem
    obtain ⟨path, hsite⟩ := hlocal.foundIn _ _ diagnostic hfound
    exact hnodes pair hpair (by rw [← heq, hsite]; rfl)
  rw [flatMap_located, flatMap_located]
  simp only [List.zipIdx_append, List.zipIdx_cons, List.flatMap_append, List.flatMap_cons,
    List.filter_append, Nat.zero_add]
  rw [hitem, hother, hother]
  · intro pair hpair heq
    have hrange := List.mem_zipIdx hpair
    omega
  · intro pair hpair heq
    have hrange := List.mem_zipIdx hpair
    omega

end

end WebIdl
