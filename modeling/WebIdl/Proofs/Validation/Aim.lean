import WebIdl.Proofs.Validation.Converge
import WebIdl.Proofs.Validation.Row

/-!
# Where repairs are made

A diagnostic aims at one token of the document, and its repair is made at that spot of the row of
tokens.  Other repairs leave its aim where it is (`AimsAt.fix`), so a row of repairs at different
spots acts on the row of tokens spot by spot (`Intact.exists_mended`).
-/

namespace WebIdl

open WebIdl.Shape WebIdl.Mending

namespace Diagnostic

/-- The token that the repair of a diagnostic touches, and what it does there. -/
def aim? (diagnostic : Diagnostic) (items : List Node) : Option (Token × Touch) :=
  diagnostic.repair.bind fun repair => (diagnostic.site.node? items).bind repair.aim?

/-- The repair of the diagnostic is made at the spot. -/
structure AimsAt (diagnostic : Diagnostic) (items : List Node) (spot : Spot) : Prop where
  repair : diagnostic.repair = some spot.repair
  aim : ∃ token, diagnostic.aim? items = some (token, spot.touch) ∧ token.index = spot.index ∧
    token.isOwn = true

/-- The repair of the diagnostic is still to be made. -/
def IsDue (diagnostic : Diagnostic) (items : List Node) : Prop :=
  diagnostic.repair ≠ some .addExposed → diagnostic ∈ objections Rule.all items

theorem aim?_eq {diagnostic : Diagnostic} {items : List Node} {repair : Repair} {node : Node}
    (hrepair : diagnostic.repair = some repair) (hnode : diagnostic.site.node? items = some node) :
    diagnostic.aim? items = repair.aim? node := by
  rw [aim?, hrepair, Option.bind_some, hnode, Option.bind_some]

end Diagnostic

/-! ## The token that a rule has shown -/

namespace Rule

/-- What the repair of a diagnostic does to the token that the rule has shown. -/
def shownAim? (diagnostic : Diagnostic) : Option (Token × Touch) :=
  diagnostic.repair.bind fun repair => diagnostic.token.bind fun token =>
    match repair with
    | .replaceVoid => some (token, .replace "undefined")
    | .rename newName => some (token, .replace newName)
    | .addDefault => some (token, .append " = \x7b\x7d")
    | .addExposed => none

/-- All repairs but the one that exposes a definition touch the token that the rule has shown. -/
theorem aim?_of_mem_objections {items : List Node} {diagnostic : Diagnostic} {repair : Repair}
    (h : diagnostic ∈ WebIdl.objections all items) (hrepair : diagnostic.repair = some repair)
    (hother : repair ≠ .addExposed) : diagnostic.aim? items = shownAim? diagnostic := by
  have hfound := mem_objections_of_repair h hrepair
  -- an objection shows the token that its repair goes for
  cases repair with
  | addExposed => exact absurd rfl hother
  | replaceVoid =>
      obtain ⟨⟨site, node⟩, hlocated, hobjection⟩ := List.mem_filterMap.mp hfound
      obtain ⟨base, hbase, hobjection⟩ := Option.bind_eq_some_iff.mp hobjection
      split at hobjection
      · obtain rfl := Option.some.inj hobjection
        rw [Diagnostic.aim?_eq hrepair (node?_of_mem_located hlocated), Repair.aim?, hbase]
        rfl
      · cases hobjection
  | rename name =>
      obtain ⟨⟨site, node⟩, hlocated, hobjection⟩ := List.mem_filterMap.mp hfound
      dsimp only at hobjection
      split at hobjection
      · obtain ⟨newName, -, rfl⟩ := Option.map_eq_some_iff.mp hobjection
        obtain rfl : newName = name := by simpa [renamingObjection] using hrepair
        rw [Diagnostic.aim?_eq hrepair (node?_of_mem_located hlocated), Repair.aim?, shownAim?,
          hrepair, Option.bind_some, renamingObjection]
        cases node.token? .name <;> rfl
      · cases hobjection
  | addDefault =>
      obtain ⟨⟨site, owner⟩, hlocated, hobjection⟩ := List.mem_flatMap.mp hfound
      obtain ⟨⟨number, argument⟩, hargument, rfl⟩ := List.mem_map.mp hobjection
      obtain ⟨hchild, -⟩ := Node.mem_numberedAs (List.mem_filter.mp hargument).1
      have hnode : (site.below [number]).node? items = some argument := by
        rw [Site.node?_below (node?_of_mem_located hlocated), Node.at?, hchild]
        rfl
      rw [Diagnostic.aim?_eq hrepair hnode, Repair.aim?, shownAim?, hrepair, Option.bind_some]
      change _ = (argument.token? .name).bind _
      cases argument.token? .name <;> rfl

theorem token_of_aim? {items : List Node} {diagnostic : Diagnostic} {token : Token} {touch : Touch}
    (h : diagnostic ∈ WebIdl.objections all items) (hother : diagnostic.repair ≠ some .addExposed)
    (haim : diagnostic.aim? items = some (token, touch)) : diagnostic.token = some token := by
  obtain ⟨repair, hrepair, -⟩ := Option.bind_eq_some_iff.mp haim
  have hexposed : repair ≠ .addExposed := by
    rintro rfl
    exact hother hrepair
  rw [aim?_of_mem_objections h hrepair hexposed, shownAim?, hrepair, Option.bind_some] at haim
  obtain ⟨shown, hshown, haim⟩ := Option.bind_eq_some_iff.mp haim
  cases repair with
  | addExposed => cases haim
  | replaceVoid => rw [hshown, (Prod.mk.inj (Option.some.inj haim)).1]
  | rename name => rw [hshown, (Prod.mk.inj (Option.some.inj haim)).1]
  | addDefault => rw [hshown, (Prod.mk.inj (Option.some.inj haim)).1]

end Rule

/-! ## One repair -/

section

variable {extended : Bool} {available applied : List Tweak} {mending : Mending}
  {diagnostic other : Diagnostic} {site : Site} {repair : Repair} {old new : Node}
  {items others : List Node}

/-- A construct that is mended in a document, and the token that is touched. -/
theorem SwapsAt.exists_row (h : SwapsAt site old new items others) (hmends : Mends repair old new) :
    ∃ before token after touch, items.flatMap Node.tokens = before ++ token :: after ∧
      others.flatMap Node.tokens = before ++ (repair.retouched touch token ++ after) ∧
      Retouches repair token (repair.retouched touch token) after touch ∧
      repair.aim? old = some (token, touch) ∧
      (before = [] → token.text ∉ Repair.addedTexts) := by
  obtain ⟨before, after, hold, hnew⟩ := h.tokens_eq
  obtain ⟨inner, token, tokens, back, touch, htokens, hchanged, hretouches, haim, hfirst⟩ :=
    hmends.retouches after
  obtain rfl := hretouches.tokens_eq
  refine ⟨before ++ inner, token, back ++ after, touch, ?_, ?_, hretouches, haim, ?_⟩
  · rw [hold, htokens]
    simp
  · rw [hnew, hchanged]
    simp
  · intro hnil
    exact hfirst (List.append_eq_nil_iff.mp hnil).2

/-- A repair that is still to be made changes the construct at its place. -/
theorem Mending.Intact.exists_mends (h : Intact extended available applied mending)
    (hfound : diagnostic ∈ mending.found) (hdue : diagnostic.IsDue mending.items)
    (hrepair : diagnostic.repair = some repair) :
    ∃ old new others, diagnostic.fix mending.items = .ok others ∧
      SwapsAt diagnostic.site old new mending.items others ∧ repair.Suits old ∧
      Mends repair old new := by
  obtain ⟨old, new, others, hsuits, hfix, hswaps, -, hmends⟩ :=
    Diagnostic.exists_fix h.formed (h.suited diagnostic hfound) hrepair
  refine ⟨old, new, others, hfix, hswaps, hsuits, hmends.resolve_left fun hmade => ?_⟩
  by_cases hexposed : repair = .addExposed
  · subst hexposed
    exact hmade.2
  · have hmem := hdue fun heq => hexposed (Option.some.inj (hrepair.symm.trans heq))
    obtain ⟨-, node, hnode, -, hunmade⟩ :=
      Diagnostic.suits_of_mem_objections h.formed h.void_inline hmem hrepair
    obtain rfl := Option.some.inj (hswaps.node?_eq.symm.trans hnode)
    exact hunmade hmade.2

/-! ## The aims of others -/

/-- What a repair at another token leaves at the end of a row. -/
theorem Retouches.getLast?_eq {token last : Token} {tokens after front back : List Token}
    {touch : Touch} (h : Retouches repair token tokens after touch)
    (hlast : (front ++ token :: back).getLast? = some last)
    (hbehind : touch.isBehind = true → last ≠ token) :
    ∃ changed, (front ++ (tokens ++ back)).getLast? = some changed ∧
      changed.index = last.index ∧ (last.isOwn = true → changed.isOwn = true) := by
  cases back with
  | cons next back =>
      refine ⟨last, ?_, rfl, id⟩
      rw [List.getLast?_append_of_ne_nil _ (by simp), List.getLast?_cons_cons] at hlast
      rw [← List.append_assoc, List.getLast?_append_of_ne_nil _ (by simp), hlast]
  | nil =>
      obtain rfl : token = last := by simpa using hlast
      rcases h.retouched_cases with ⟨htrue, -⟩ | ⟨-, hcases⟩
      · exact absurd rfl (hbehind htrue)
      · obtain ⟨added, changed, -, hindex, hown, heq⟩ := hcases token
        exact ⟨changed, by rw [h.tokens_eq, heq]; simp, hindex, hown⟩

/-- The last attribute of a list ends as before, if no repair puts something behind it. -/
theorem Swaps.lastItemToken?_eq {attributes changed : Node} {path : List Nat} {token last : Token}
    {touch : Touch} (h : Swaps old new path attributes changed) (hpath : path ≠ [])
    (hformed : Formed extended { symbol := .attributes .maybe } attributes)
    (hmends : Mends repair old new) (haim : repair.aim? old = some (token, touch))
    (hlast : attributes.lastItemToken? = some last)
    (hbehind : touch.isBehind = true → last ≠ token) :
    ∃ found, changed.lastItemToken? = some found ∧ found.index = last.index ∧
      (last.isOwn = true → found.isOwn = true) := by
  cases h with
  | here => exact absurd rfl hpath
  | @inside rest child other label front role back hbelow =>
      obtain ⟨rfl, -⟩ := Rule.item_of_mem hformed
        (show Part.node role child ∈ front ++ .node role child :: back by simp)
      have hitems (inner : Node) : (Node.mk label (front ++ .node .item inner :: back)).items =
          (Node.mk label front).items ++ inner :: (Node.mk label back).items := by
        rw [Node.items, nodesAs_around]
        rfl
      rw [Node.lastItemToken?, hitems] at hlast ⊢
      -- the last token changes only if the path leads through the last item
      cases hback : (Node.mk label back).items with
      | cons next others =>
          refine ⟨last, ?_, rfl, id⟩
          rw [hback, List.getLast?_append_of_ne_nil _ (by simp), List.getLast?_cons_cons] at hlast
          rw [List.getLast?_append_of_ne_nil _ (by simp), List.getLast?_cons_cons, hlast]
      | nil =>
          rw [hback] at hlast
          simp only [List.getLast?_append, List.getLast?_singleton, Option.some_or,
            Option.bind_some] at hlast ⊢
          obtain ⟨before, after, hchild, hother⟩ := hbelow.tokens_eq
          obtain ⟨inner, aimed, tokens, tail, own, htokens, hchanged, hretouches, hown, -⟩ :=
            hmends.retouches after
          obtain ⟨rfl, rfl⟩ := Prod.mk.inj (Option.some.inj (haim.symm.trans hown))
          -- there the tokens of the repair may be the last ones, but not behind another token
          have hsplit : child.tokens = (before ++ inner) ++ token :: (tail ++ after) := by
            rw [hchild, htokens]
            simp
          have hsplit' : other.tokens = (before ++ inner) ++ (tokens ++ (tail ++ after)) := by
            rw [hother, hchanged]
            simp
          rw [hsplit] at hlast
          rw [hsplit']
          exact hretouches.getLast?_eq hlast hbehind

/-- The aim of a repair that exposes a definition, by its attributes and its keyword. -/
theorem Repair.aim?_definition (label : Label) (attributes : Node) (base : Token) (rest : List Part) :
    Repair.addExposed.aim? (.mk label (.node .attributes attributes :: .token .base base :: rest)) =
      match attributes.lastItemToken? with
      | some last => some (last, .append ", Exposed=Window")
      | none => some (base, .lead "[Exposed=Window]\n") := by
  rw [aim?, Node.node?_node, if_pos rfl, Option.bind_some, Node.token?_node, Node.token?_token,
    if_pos rfl]
  cases attributes.lastItemToken? <;> rfl

/-- A repair inside a definition leaves the aim of the one that exposes it, if they do not both put
something behind one token. -/
theorem Swaps.aim?_addExposed {node changed : Node} {path : List Nat} {token aimed : Token}
    {touch own : Touch} (h : Swaps old new path node changed) (hpath : path ≠ [])
    (hformed : Formed extended { symbol := .definition } node)
    (hneeds : Rule.needsExposure node = true) (hsuits : repair.Suits old)
    (hmends : Mends repair old new) (haim : repair.aim? old = some (token, touch))
    (hown : Repair.addExposed.aim? node = some (aimed, own))
    (hbehind : touch.isBehind = true → own.isBehind = true → aimed ≠ token) :
    ∃ found, Repair.addExposed.aim? changed = some (found, own) ∧ found.index = aimed.index ∧
      (aimed.isOwn = true → found.isOwn = true) := by
  obtain ⟨label, attributes, base, after, hnode, -, hattributes, -⟩ := hformed.exposable hneeds
  cases h with
  | here => exact absurd rfl hpath
  | @inside rest child other label front role back hbelow =>
      obtain ⟨rfl, hparts⟩ := Node.mk.inj hnode
      cases front with
      | nil =>
          obtain ⟨hfirst, rfl⟩ := List.cons.inj hparts
          obtain ⟨rfl, rfl⟩ := Part.node.inj hfirst
          have hrest : rest ≠ [] := by
            rintro rfl
            cases hbelow
            exact hsuits.construct_ne (by simp) (Rule.construct_attributes hattributes)
          rw [List.nil_append, Repair.aim?_definition] at hown ⊢
          cases hlast : child.lastItemToken? with
          | some last =>
              rw [hlast] at hown
              obtain ⟨rfl, rfl⟩ := Prod.mk.inj (Option.some.inj hown)
              obtain ⟨found, hfound, hindex, hkept⟩ := hbelow.lastItemToken?_eq hrest hattributes
                hmends haim hlast fun htrue => hbehind htrue rfl
              exact ⟨found, by rw [hfound], hindex, hkept⟩
          | none =>
              -- a list with something inside has a last token
              exfalso
              rcases hattributes.attributes_cases with ⟨list, rfl, -⟩ |
                ⟨list, opening, items, last, closing, rfl, -, hitem, -⟩
              · generalize hnone : Node.mk list [] = attributes at hbelow
                cases hbelow with
                | here => exact hrest rfl
                | inside _ front _ _ _ => cases front <;> simp at hnone
              · simp [Node.lastItemToken?, Node.items, hitem.lone_attribute.2] at hlast
      | cons first front =>
          obtain ⟨rfl, hothers⟩ := List.cons.inj hparts
          cases front with
          | nil => cases (List.cons.inj hothers).1
          | cons second front =>
              obtain ⟨rfl, -⟩ := List.cons.inj hothers
              simp only [List.cons_append, Repair.aim?_definition] at hown ⊢
              exact ⟨aimed, hown, rfl, id⟩

/-- Items other than the one that is changed stay as they are. -/
theorem SwapsAt.node?_of_item_ne {place : Site} (h : SwapsAt site old new items others)
    (hne : place.item ≠ site.item) : place.node? others = place.node? items := by
  obtain ⟨front, node, changed, back, rfl, hlength, -, rfl⟩ := h
  rw [← hlength] at hne
  have hsame : (front ++ changed :: back)[place.item]? = (front ++ node :: back)[place.item]? := by
    rcases Nat.lt_or_gt_of_ne hne with hlt | hgt
    · rw [List.getElem?_append_left hlt, List.getElem?_append_left hlt]
    · obtain ⟨later, hlater⟩ := Nat.exists_eq_add_of_lt hgt
      rw [List.getElem?_append_right (Nat.le_of_lt hgt),
        List.getElem?_append_right (Nat.le_of_lt hgt), hlater,
        show front.length + later + 1 - front.length = later + 1 by omega]
      rfl
  rw [Site.node?, Site.node?, hsame]

theorem Spot.key_eq {spot other : Spot} (hindex : spot.index = other.index)
    (hbehind : spot.touch.isBehind = other.touch.isBehind) : spot.key = other.key := by
  rw [key, key, hindex, hbehind]

/-- A repair at another spot leaves the aim of the one that exposes a definition. -/
theorem Diagnostic.AimsAt.fix_exposed {spot aside : Spot}
    (haims : diagnostic.AimsAt items spot) (hitems : FormedItems extended items)
    (hsuited : diagnostic.Suited items) (hexposed : spot.repair = .addExposed)
    (hswaps : SwapsAt site old new items others) (hsuits : aside.repair.Suits old)
    (hmends : Mends aside.repair old new) {token : Token}
    (haim : aside.repair.aim? old = some (token, aside.touch)) (hindex : token.index = aside.index)
    (hsite : diagnostic.site ≠ site) (hkey : spot.key ≠ aside.key) :
    diagnostic.AimsAt others spot := by
  obtain ⟨hrepair, aimed, haimed, hspot, hown⟩ := haims
  rw [hexposed] at hrepair
  obtain ⟨htop, definition, hdefinition, hneeds⟩ := hsuited _ hrepair
  have hpath := htop rfl
  refine ⟨by rw [hexposed, hrepair], ?_⟩
  -- the other repair is inside the same definition or leaves it alone
  by_cases hitem : diagnostic.site.item = site.item
  · obtain ⟨front, node, changed, back, rfl, hlength, hinside, rfl, hformed⟩ :=
      hitems.definition_of_swapsAt hswaps (hsuits.construct_ne (by simp))
    have hplace : diagnostic.site = ⟨front.length, []⟩ := by
      rw [hlength, ← hitem, ← hpath]
    have hnode (inner : Node) :
        diagnostic.site.node? (front ++ inner :: back) = some inner := by
      rw [hplace]
      simp [Site.node?, Node.at?]
    obtain rfl := Option.some.inj (hdefinition.symm.trans (hnode node))
    rw [Diagnostic.aim?_eq hrepair (hnode _)] at haimed ⊢
    -- only one repair is made at the definition itself
    have hbelow : site.path ≠ [] := by
      intro hnil
      exact hsite (by rw [hplace, hlength, ← hnil])
    obtain ⟨found, hfound, hsame, hkept⟩ := hinside.aim?_addExposed hbelow hformed hneeds hsuits
      hmends haim haimed fun hbehind hbehind' hboth => hkey (Spot.key_eq (by
        rw [← hspot, hboth, hindex]) (hbehind'.trans hbehind.symm))
    exact ⟨found, hfound, hsame.trans hspot, hkept hown⟩
  · refine ⟨aimed, ?_, hspot, hown⟩
    rw [← haimed, Diagnostic.aim?, Diagnostic.aim?, hswaps.node?_of_item_ne hitem]

/-- A repair at another spot leaves the aim of a diagnostic, and leaves its repair to be made. -/
theorem Diagnostic.AimsAt.fix {spot aside : Spot} (haims : diagnostic.AimsAt mending.items spot)
    (h : Intact extended available applied mending) (hfound : diagnostic ∈ mending.found)
    (hdue : diagnostic.IsDue mending.items) (hother : other ∈ mending.found)
    (hotherDue : other.IsDue mending.items) (hotherAims : other.AimsAt mending.items aside)
    (hfix : other.fix mending.items = .ok others) (hsite : diagnostic.site ≠ other.site)
    (hkey : spot.key ≠ aside.key) :
    diagnostic.IsDue others ∧ diagnostic.AimsAt others spot := by
  have hstill : diagnostic.IsDue others := by
    intro hrepair
    rw [h.objections_fix hother hfix]
    exact List.mem_filter.mpr ⟨hdue hrepair, by simp [Diagnostic.settles, hsite, hrepair]⟩
  refine ⟨hstill, ?_⟩
  by_cases hexposed : spot.repair = .addExposed
  · obtain ⟨old, new, changed, hchanged, hswaps, hsuits, hmends⟩ :=
      h.exists_mends hother hotherDue hotherAims.repair
    obtain rfl : others = changed := Except.ok.inj (hfix.symm.trans hchanged)
    obtain ⟨hrepair, token, haim, hindex, -⟩ := hotherAims
    rw [Diagnostic.aim?_eq hrepair hswaps.node?_eq] at haim
    exact haims.fix_exposed h.formed (h.suited diagnostic hfound) hexposed hswaps hsuits hmends haim
      hindex hsite hkey
  · obtain ⟨hrepair, token, haim, hindex⟩ := haims
    have hne : diagnostic.repair ≠ some .addExposed := by
      rw [hrepair]
      exact fun heq => hexposed (Option.some.inj heq)
    rw [Rule.aim?_of_mem_objections (hdue hne) hrepair hexposed] at haim
    refine ⟨hrepair, token, ?_, hindex⟩
    rw [Rule.aim?_of_mem_objections (hstill hne) hrepair hexposed, haim]

/-! ## Rows of repairs -/

/-- A repair acts on the row of tokens at its spot. -/
theorem Mending.Intact.tokens_fix (h : Intact extended available applied mending)
    (hfound : diagnostic ∈ mending.found) (hdue : diagnostic.IsDue mending.items) {spot : Spot}
    (haims : diagnostic.AimsAt mending.items spot) (hnodup : (ownIndices mending.tokens).Nodup) :
    ∃ others, diagnostic.fix mending.items = .ok others ∧
      others.flatMap Node.tokens = Spot.mend mending.tokens spot ∧
      ownIndices (others.flatMap Node.tokens) = ownIndices mending.tokens := by
  obtain ⟨old, new, others, hfix, hswaps, -, hmends⟩ := h.exists_mends hfound hdue haims.repair
  obtain ⟨before, token, after, touch, hrow, hrow', hretouches, haim, -⟩ := hswaps.exists_row hmends
  obtain ⟨hrepair, aimed, haimed, hindex, hown⟩ := haims
  rw [Diagnostic.aim?_eq hrepair hswaps.node?_eq, haim] at haimed
  obtain ⟨rfl, rfl⟩ := Prod.mk.inj (Option.some.inj haimed)
  rw [tokens, hrow] at hnodup ⊢
  refine ⟨others, hfix, ?_, ?_⟩
  · rw [hrow', Spot.mend_eq hnodup hown hindex]
  · rw [hrow', hretouches.ownIndices_eq hown]

end

/-- A row of repairs at different places acts on the row of tokens spot by spot. -/
theorem Mending.Intact.exists_mended {extended : Bool} {available applied : List Tweak}
    {mending : Mending} (h : Intact extended available applied mending)
    {chosen : List Diagnostic} {spot : Diagnostic → Spot}
    (hchosen : ∀ diagnostic ∈ chosen, diagnostic ∈ mending.found ∧
      diagnostic.IsDue mending.items ∧ diagnostic.AimsAt mending.items (spot diagnostic))
    (hsites : (chosen.map Diagnostic.site).Nodup)
    (hkeys : (chosen.map fun diagnostic => (spot diagnostic).key).Nodup)
    (hnodup : (ownIndices mending.tokens).Nodup) :
    ∃ others, chosen.foldlM (fun items diagnostic => diagnostic.fix items) mending.items =
        .ok others ∧
      others.flatMap Node.tokens = (chosen.map spot).foldl Spot.mend mending.tokens := by
  -- on the findings: after one fix the others are still due and aim where they did
  induction chosen generalizing mending with
  | nil => exact ⟨mending.items, rfl, rfl⟩
  | cons diagnostic rest ih =>
      obtain ⟨hfound, hdue, haims⟩ := hchosen diagnostic List.mem_cons_self
      obtain ⟨items, hfix, htokens, hindices⟩ := h.tokens_fix hfound hdue haims hnodup
      rw [List.map_cons, List.nodup_cons] at hsites hkeys
      have hrest : ∀ other ∈ rest, other ∈ mending.found ∧ other.IsDue items ∧
          other.AimsAt items (spot other) := by
        intro other hother
        obtain ⟨hotherFound, hotherDue, hotherAims⟩ := hchosen other (List.mem_cons_of_mem _ hother)
        refine ⟨hotherFound, hotherAims.fix h hotherFound hotherDue hfound hdue haims hfix ?_ ?_⟩
        · intro heq
          exact hsites.1 (heq ▸ List.mem_map_of_mem hother)
        · intro heq
          exact hkeys.1 (heq ▸ List.mem_map_of_mem hother)
      obtain ⟨others, hothers, hmended⟩ := @ih ⟨items, mending.found⟩ (h.fix hfound hfix) hrest
        hsites.2 hkeys.2 (by rw [tokens, hindices]; exact hnodup)
      refine ⟨others, ?_, ?_⟩
      · rw [List.foldlM_cons, hfix]
        exact hothers
      · rw [hmended, List.map_cons, List.foldl_cons, ← htokens]
        rfl

end WebIdl
