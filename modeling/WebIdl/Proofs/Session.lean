import WebIdl.Proofs.Dialect.Mending
import WebIdl.Proofs.Tree.Modify
import WebIdl.Proofs.Validation.Found
import WebIdl.Session

/-!
# Sessions mend documents

A session works on a store of items, and keeps the places of its diagnostics up to date when a repair
replaces a child.  What rules and repairs do to its document is a run of `Mending` nonetheless, with the
same repairs and the same counts (`exists_mending`), so what holds of those runs holds of sessions.

## Strategy

A session shows a mending if its document has the items of the mending and every repair that it has at
hand was found there (`Shows`).  This is kept by every step.  The one that takes an argument is a repair
which replaces a child: the diagnostics that point into the child move with it into the store.  But the
child is a list of attributes that is not written, or a default value.  Nothing is inside it and no repair
is for it (`Repair.replaced_cases`), so the diagnostics with a repair stay where they are.
-/

namespace WebIdl

/-! ## Children that repairs replace -/

/-- What a repair replaces has nothing inside, and no repair is for it. -/
theorem Repair.replaced_cases {repair : Repair} {old new : Node} {number : Nat}
    (hsuits : repair.Suits old) (hmends : new = old ∧ repair.Made old ∨ Mends repair old new)
    (hnumber : repair.replacedChild? old = some number) :
    ∃ child, old.children[number]? = some child ∧ child.children = [] ∧
      child.construct ∈ [.eof, .default, .extendedAttributes] := by
  -- the child in a role is the first of that role
  have hchild {role : Role} (h : (old.numberedAs role).head?.map (·.1) = some number) :
      ∃ child, old.children[number]? = some child ∧ old.node? role = some child := by
    obtain ⟨⟨_, child⟩, hhead, rfl⟩ := Option.map_eq_some_iff.mp h
    refine ⟨child, (Node.mem_numberedAs (List.mem_of_mem_head? hhead)).1, ?_⟩
    rw [← Node.map_head?_numberedAs, hhead]
    rfl
  cases repair with
  | replaceVoid => cases hnumber
  | rename => cases hnumber
  | addDefault =>
      obtain ⟨child, hplace, hrole⟩ := hchild hnumber
      obtain ⟨-, -, hnone | hempty⟩ := hsuits
      · cases hnone.symm.trans hrole
      · obtain rfl := Option.some.inj (hempty.symm.trans hrole)
        exact ⟨_, hplace, rfl, by decide⟩
  | addExposed =>
      rcases hmends with ⟨-, hmade⟩ | hmends
      · cases hmade
      · rw [replacedChild?] at hnumber
        split at hnumber
        · cases hnumber
        · rename_i hwritten
          obtain ⟨child, hplace, hrole⟩ := hchild hnumber
          cases hmends with
          -- attributes that are written out are kept, not replaced
          | join => exact absurd (by simp [Node.has]) hwritten
          | lead hown =>
              obtain rfl := Option.some.inj hrole
              exact ⟨_, hplace, rfl, by simp [hown]⟩

/-- A repair that suits a construct does not stand in a child that another repair replaces. -/
theorem Diagnostic.Suited.rebase_eq {diagnostic : Diagnostic} {items : List Node} {site : Site}
    {child : Node} {item : Nat} (h : diagnostic.Suited items) (hrepair : diagnostic.repair.isSome = true)
    (hchild : site.node? items = some child) (hempty : child.children = [])
    (hnone : child.construct ∈ [.eof, .default, .extendedAttributes]) :
    Session.rebase site item diagnostic.site = diagnostic.site := by
  obtain ⟨repair, hrepair⟩ := Option.isSome_iff_exists.mp hrepair
  obtain ⟨-, node, hnode, hsuits⟩ := h repair hrepair
  rw [Session.rebase, if_neg]
  intro hbelow
  obtain ⟨hitem, hprefix⟩ := Bool.and_eq_true_iff.mp hbelow
  obtain ⟨path, hpath⟩ := List.isPrefixOf_iff_prefix.mp hprefix
  obtain ⟨found, hfound, hat⟩ := Option.bind_eq_some_iff.mp hchild
  have hinner : child.at? path = some node := by
    rw [Site.node?, eq_of_beq hitem, hfound, Option.bind_some, ← hpath, Node.at?_append, hat] at hnode
    exact hnode
  cases path with
  | nil =>
      obtain rfl : child = node := by simpa [Node.at?] using hinner
      exact hsuits.construct_ne hnone rfl
  | cons number path =>
      rw [Node.at?, hempty] at hinner
      cases hinner

/-! ## Repairs in a store -/

/-- The first places of a list hold what it begins with. -/
theorem filterMap_range_append {α : Type} (front back : List α) :
    (List.range front.length).filterMap ((front ++ back)[·]?) = front := by
  induction front using List.reverseRecOn generalizing back with
  | nil => rfl
  | append_singleton front last ih =>
      have hlast : (front ++ last :: back)[front.length]? = some last := by simp
      rw [List.length_append, List.length_singleton, List.range_succ, List.filterMap_append,
        List.append_assoc, List.singleton_append, ih, List.filterMap_cons_some hlast,
        List.filterMap_nil]

theorem Site.node?_append {site : Site} {items : List Node} {node : Node}
    (h : site.node? items = some node) (kept : List Node) :
    site.node? (items ++ kept) = some node := by
  obtain ⟨item, hitem, hat⟩ := Option.bind_eq_some_iff.mp h
  rw [Site.node?, List.getElem?_append_left (List.getElem?_eq_some_iff.mp hitem).1, hitem]
  exact hat

/-- A repair is made in a store as it is made in the document. -/
theorem Diagnostic.fix_append {diagnostic : Diagnostic} {items others : List Node}
    (h : diagnostic.fix items = .ok others) (kept : List Node) :
    diagnostic.fix (items ++ kept) = .ok (others ++ kept) := by
  obtain ⟨repair, hrepair⟩ := repair_of_fix h
  simp only [fix, hrepair] at h ⊢
  cases hnode : diagnostic.site.node? items with
  | none =>
      rw [hnode] at h
      cases h
  | some node =>
      rw [hnode] at h
      rw [Site.node?_append hnode]
      cases happly : repair.apply node with
      | error error =>
          simp only [happly] at h
          cases h
      | ok changed =>
          simp only [happly] at h ⊢
          obtain rfl := Except.ok.inj h
          obtain ⟨item, hitem, -⟩ := Option.bind_eq_some_iff.mp hnode
          exact congrArg Except.ok
            (modify_append_of_lt (List.getElem?_eq_some_iff.mp hitem).1 _)

namespace Session

/-! ## What a session shows -/

/-- The session shows the document of the mending.  Behind its items the store has kept others, and
what the session has at hand to repair was found in the mending. -/
structure Shows (session : Session) (mending : Mending) : Prop where
  order_eq : session.order = List.range mending.items.length
  store_eq : ∃ kept, session.store = mending.items ++ kept
  found : ∀ diagnostic ∈ session.diagnostics, diagnostic.repair.isSome = true →
    diagnostic ∈ mending.found

/-- Every diagnostic that has a repair keeps its number. -/
def Retains (session other : Session) : Prop :=
  ∀ (number : Nat) (diagnostic : Diagnostic), session.diagnostics[number]? = some diagnostic →
    diagnostic.repair.isSome = true → other.diagnostics[number]? = some diagnostic

theorem shows_start (dialect : Dialect) (document : Document) :
    (start dialect document).Shows ⟨document.items, []⟩ where
  order_eq := rfl
  store_eq := ⟨[], (List.append_nil _).symm⟩
  found := by simp [start]

section

variable {extended : Bool} {available applied : List Tweak} {session other : Session}
  {mending : Mending}

theorem Shows.items_eq (h : session.Shows mending) : session.document.items = mending.items := by
  obtain ⟨kept, hstore⟩ := h.store_eq
  rw [document, h.order_eq, hstore]
  exact filterMap_range_append mending.items kept

theorem Shows.toStore_eq (h : session.Shows mending) (site : Site) : session.toStore site = site := by
  rw [toStore, h.order_eq]
  by_cases hlt : site.item < mending.items.length <;> simp [hlt]

/-! ## One step -/

/-- What the rules find now is at hand, and it was found in the mending. -/
theorem Shows.check (h : session.Shows mending) (hintact : mending.Intact extended available applied)
    {rules : Option (List String)} (hcheck : session.check rules = .ok other) :
    (∃ chosen, (rules = none → chosen = Rule.all) ∧
      validate chosen mending.items = .ok other.diagnostics) ∧
    other.Shows ⟨mending.items, mending.found ++ objections Rule.all mending.items⟩ := by
  -- by default all rules are checked; unknown names are reported before
  have hchosen (chosen : List Rule)
      (hother : ((validate chosen session.document.items).mapError SessionError.missing).map
        (fun found => { session with
          diagnostics := found.map fun diagnostic =>
            { diagnostic with site := session.toStore diagnostic.site } }) = .ok other) :
      validate chosen mending.items = .ok other.diagnostics ∧
        other.Shows ⟨mending.items, mending.found ++ objections Rule.all mending.items⟩ := by
    rw [h.items_eq, hintact.validate_eq_ok chosen] at hother
    obtain rfl := Except.ok.inj hother
    simp only [h.toStore_eq, List.map_id']
    refine ⟨hintact.validate_eq_ok chosen, h.order_eq, h.store_eq, fun diagnostic hmem _ => ?_⟩
    exact List.mem_append_right _ (objections_subset_all chosen mending.items hmem)
  cases rules with
  | none =>
      obtain ⟨hfound, hshows⟩ := hchosen Rule.all hcheck
      exact ⟨⟨Rule.all, fun _ => rfl, hfound⟩, hshows⟩
  | some names =>
      unfold Session.check at hcheck
      cases hnames : rulesNamed names with
      | error error =>
          simp only [hnames] at hcheck
          cases hcheck
      | ok chosen =>
          simp only [hnames] at hcheck
          obtain ⟨hfound, hshows⟩ := hchosen chosen hcheck
          exact ⟨⟨chosen, nofun, hfound⟩, hshows⟩

/-- A repair that replaces a child leaves the places of the other repairs. -/
theorem Shows.rebase_eq (h : session.Shows mending)
    (hintact : mending.Intact extended available applied) {diagnostic other : Diagnostic}
    (hfound : diagnostic ∈ mending.found) {site : Site} {child : Node}
    (hreplaced : session.replacedBy? diagnostic = some (site, child)) (hother : other ∈ mending.found)
    (hrepair : other.repair.isSome = true) (item : Nat) :
    rebase site item other.site = other.site := by
  obtain ⟨repair, hsome, hreplaced⟩ := Option.bind_eq_some_iff.mp hreplaced
  obtain ⟨node, hnode, hreplaced⟩ := Option.bind_eq_some_iff.mp hreplaced
  obtain ⟨number, hnumber, hreplaced⟩ := Option.bind_eq_some_iff.mp hreplaced
  obtain ⟨_, -, heq⟩ := Option.bind_eq_some_iff.mp hreplaced
  obtain ⟨rfl, -⟩ := Prod.mk.inj (Option.some.inj heq)
  obtain ⟨old, new, _, hsuits, -, hswaps, -, hmends⟩ :=
    Diagnostic.exists_fix hintact.formed (hintact.suited diagnostic hfound) hsome
  -- the construct in the store is that of the document
  obtain ⟨kept, hstore⟩ := h.store_eq
  rw [hstore, Site.node?_append hswaps.node?_eq] at hnode
  obtain rfl := Option.some.inj hnode
  obtain ⟨inner, hplace, hempty, hnone⟩ := Repair.replaced_cases hsuits hmends hnumber
  have hinner : (diagnostic.site.below [number]).node? mending.items = some inner := by
    rw [Site.node?_below hswaps.node?_eq, Node.at?, hplace]
    rfl
  exact (hintact.suited other hother).rebase_eq hrepair hinner hempty hnone

/-- A repair that is at hand is made as in the mending, and the others stay at hand. -/
theorem Shows.exists_fix (h : session.Shows mending)
    (hintact : mending.Intact extended available applied) {number : Nat} {diagnostic : Diagnostic}
    (hnumber : session.diagnostics[number]? = some diagnostic)
    (hrepair : diagnostic.repair.isSome = true) :
    ∃ other items, session.fix number = .ok other ∧ diagnostic.fix mending.items = .ok items ∧
      other.Shows ⟨items, mending.found⟩ ∧ session.Retains other := by
  have hmem : diagnostic ∈ mending.found :=
    h.found diagnostic (List.mem_of_getElem? hnumber) hrepair
  obtain ⟨repair, hsome⟩ := Option.isSome_iff_exists.mp hrepair
  obtain ⟨old, new, items, hsuits, hfix, hswaps, -, hmends⟩ :=
    Diagnostic.exists_fix hintact.formed (hintact.suited diagnostic hmem) hsome
  obtain ⟨kept, hstore⟩ := h.store_eq
  have hlength : items.length = mending.items.length := by
    obtain ⟨front, node, changed, back, hitems, -, -, rfl⟩ := hswaps
    simp [hitems]
  have hmade := Diagnostic.fix_append hfix kept
  rw [← hstore] at hmade
  unfold Session.fix
  simp only [hnumber, hmade]
  cases hreplaced : session.replacedBy? diagnostic with
  | none =>
      refine ⟨_, items, rfl, hfix, ⟨?_, ⟨kept, rfl⟩, h.found⟩, fun _ _ hother _ => hother⟩
      rw [hlength]
      exact h.order_eq
  | some replaced =>
      obtain ⟨site, child⟩ := replaced
      -- findings of the earlier runs are about nodes that stay in the document
      have hstays {earlier : Diagnostic} (hfound : earlier ∈ mending.found)
          (hsome : earlier.repair.isSome = true) (item : Nat) :
          { earlier with site := rebase site item earlier.site } = earlier := by
        rw [h.rebase_eq hintact hmem hreplaced hfound hsome item]
      refine ⟨_, items, rfl, hfix, ⟨?_, ⟨kept ++ [child], List.append_assoc ..⟩, ?_⟩, ?_⟩
      · rw [hlength]
        exact h.order_eq
      · intro moved hmoved hsome
        obtain ⟨earlier, hearlier, rfl⟩ := List.mem_map.mp hmoved
        have hfound := h.found earlier hearlier hsome
        rwa [hstays hfound hsome]
      · intro place earlier hearlier hsome
        have hfound := h.found earlier (List.mem_of_getElem? hearlier) hsome
        simp only [detach, List.getElem?_map, hearlier, Option.map_some, hstays hfound hsome]

/-- A repair by number is one of the mending. -/
theorem Shows.fix (h : session.Shows mending) (hintact : mending.Intact extended available applied)
    {number : Nat} (hfix : session.fix number = .ok other) :
    ∃ diagnostic items, session.diagnostics[number]? = some diagnostic ∧
      diagnostic ∈ mending.found ∧ diagnostic.fix mending.items = .ok items ∧
      other.Shows ⟨items, mending.found⟩ := by
  cases hnumber : session.diagnostics[number]? with
  | none =>
      simp only [Session.fix, hnumber] at hfix
      cases hfix
  | some diagnostic =>
      cases hrepair : diagnostic.repair with
      | none =>
          simp only [Session.fix, hnumber, Diagnostic.fix, hrepair] at hfix
          cases hfix
      | some repair =>
          have hsome : diagnostic.repair.isSome = true := Option.isSome_of_eq_some hrepair
          obtain ⟨fixed, items, hfixed, hmade, hshows, -⟩ := h.exists_fix hintact hnumber hsome
          obtain rfl := Except.ok.inj (hfix.symm.trans hfixed)
          exact ⟨diagnostic, items, rfl,
            h.found diagnostic (List.mem_of_getElem? hnumber) hsome, hmade, hshows⟩

/-! ## All repairs -/

/-- The admitted diagnostics with their numbers. -/
def admitted (session : Session) (admits : String → Bool) : List (Diagnostic × Nat) :=
  session.diagnostics.zipIdx.filter fun entry => entry.1.isAdmitted admits

theorem map_fst_admitted (session : Session) (admits : String → Bool) :
    (session.admitted admits).map Prod.fst =
      session.diagnostics.filter (Diagnostic.isAdmitted admits) := by
  conv_rhs => rw [← List.zipIdx_map_fst 0 session.diagnostics, List.filter_map]
  rfl

/-- To make all admitted repairs is to make them one after the other by their numbers, and to count
them. -/
theorem fixAll_eq (session : Session) (admits : String → Bool) :
    session.fixAll admits =
      ((session.admitted admits).foldlM (fun (session : Session) entry => session.fix entry.2)
        session).map (·, (session.diagnostics.filter (Diagnostic.isAdmitted admits)).length) := by
  rw [← map_fst_admitted, List.length_map, ← Nat.zero_add (session.admitted admits).length]
  exact foldlM_counting (fun (session : Session) (entry : Diagnostic × Nat) => session.fix entry.2)
    (fun entry => entry.1.isAdmitted admits) session.diagnostics.zipIdx session 0

/-- A row of repairs by number is that row of the mending, since a repair leaves the numbers of the
others. -/
theorem Shows.exists_fixes (h : session.Shows mending)
    (hintact : mending.Intact extended available applied) {entries : List (Diagnostic × Nat)}
    (hentries : ∀ entry ∈ entries, entry.1.repair.isSome = true ∧
      session.diagnostics[entry.2]? = some entry.1) :
    ∃ other items,
      entries.foldlM (fun (session : Session) entry => session.fix entry.2) session = .ok other ∧
      (entries.map Prod.fst).foldlM (fun items diagnostic => diagnostic.fix items) mending.items =
        .ok items ∧
      other.Shows ⟨items, mending.found⟩ := by
  induction entries generalizing session mending with
  | nil => exact ⟨session, mending.items, rfl, rfl, h⟩
  | cons entry rest ih =>
      obtain ⟨⟨hsome, hnumber⟩, hrest⟩ := List.forall_mem_cons.mp hentries
      have hmem := h.found entry.1 (List.mem_of_getElem? hnumber) hsome
      obtain ⟨fixed, changed, hfixed, hmade, hkept, hretains⟩ := h.exists_fix hintact hnumber hsome
      obtain ⟨other, items, hsession, hitems, hshows⟩ :=
        ih hkept (hintact.fix hmem hmade) fun later hlater =>
          ⟨(hrest later hlater).1, hretains _ _ (hrest later hlater).2 (hrest later hlater).1⟩
      refine ⟨other, items, ?_, ?_, hshows⟩
      · rw [List.foldlM_cons, hfixed]
        exact hsession
      · rw [List.map_cons, List.foldlM_cons, hmade]
        exact hitems

/-- All admitted repairs are made, as they are in the mending and as many. -/
theorem Shows.exists_fixAll (h : session.Shows mending)
    (hintact : mending.Intact extended available applied) (admits : String → Bool) :
    ∃ other items count, session.fixAll admits = .ok (other, count) ∧
      Diagnostic.fixAll admits session.diagnostics mending.items = .ok (items, count) ∧
      other.Shows ⟨items, mending.found⟩ := by
  have hadmitted : ∀ entry ∈ session.admitted admits, entry.1.repair.isSome = true ∧
      session.diagnostics[entry.2]? = some entry.1 := by
    intro entry hentry
    obtain ⟨hmem, hadmitted⟩ := List.mem_filter.mp hentry
    exact ⟨(Bool.and_eq_true_iff.mp hadmitted).1, List.mk_mem_zipIdx_iff_getElem?.mp hmem⟩
  obtain ⟨other, items, hsession, hitems, hshows⟩ := h.exists_fixes hintact hadmitted
  rw [map_fst_admitted] at hitems
  refine ⟨other, items, _, ?_, Diagnostic.fixAll_eq_ok_iff.mpr ⟨hitems, rfl⟩, hshows⟩
  rw [fixAll_eq, hsession]
  rfl

end

/-! ## Whole sessions -/

/-- One step of a session that rules, reports and repairs make up. -/
inductive Works : Session → Session → Prop where
  | check {session other : Session} {rules : Option (List String)}
      (h : session.check rules = .ok other) : Works session other
  | report {session other : Session} {number : Nat} {rule message : String}
      (h : session.report number rule message = .ok other) : Works session other
  | fix {session other : Session} {number : Nat} (h : session.fix number = .ok other) :
      Works session other
  | fixAll {session other : Session} {admits : String → Bool} {count : Nat}
      (h : session.fixAll admits = .ok (other, count)) : Works session other

section

variable {extended : Bool} {available applied : List Tweak} {session other : Session}
  {mending : Mending}

/-- A step of a session is a run of the mending that it shows. -/
theorem Shows.step (h : session.Shows mending) (hintact : mending.Intact extended available applied)
    (hstep : session.Works other) :
    ∃ mended, Relation.ReflTransGen Mending.Step mending mended ∧ other.Shows mended := by
  cases hstep with
  | check hcheck =>
      exact ⟨_, .single (.look (hintact.validate_eq_ok Rule.all)), (h.check hintact hcheck).2⟩
  | report hreport =>
      refine ⟨mending, .refl, ?_⟩
      unfold Session.report at hreport
      split at hreport
      · cases hreport
      · obtain rfl := Except.ok.inj hreport
        refine ⟨h.order_eq, h.store_eq, fun diagnostic hmem hsome => ?_⟩
        rcases List.mem_append.mp hmem with hmem | hmem
        · exact h.found diagnostic hmem hsome
        · obtain rfl := List.mem_singleton.mp hmem
          cases hsome
  | fix hfix =>
      obtain ⟨diagnostic, items, -, hmem, hmade, hshows⟩ := h.fix hintact hfix
      exact ⟨_, .single (.fix hmem hmade), hshows⟩
  | @fixAll admits _ hfix =>
      obtain ⟨fixed, items, total, hfixed, hmade, hshows⟩ := h.exists_fixAll hintact admits
      obtain ⟨rfl, -⟩ := Prod.mk.inj (Except.ok.inj (hfix.symm.trans hfixed))
      refine ⟨_, Mending.runs_of_foldlM (fun diagnostic hmem => ?_)
        (Diagnostic.fixAll_eq_ok_iff.mp hmade).1, hshows⟩
      obtain ⟨hmem, hadmitted⟩ := List.mem_filter.mp hmem
      exact h.found diagnostic hmem (Bool.and_eq_true_iff.mp hadmitted).1

/-- A session that shows a mending shows one that it leads to, whatever is worked. -/
theorem Shows.run (h : session.Shows mending) (hintact : mending.Intact extended available applied)
    (hrun : Relation.ReflTransGen Works session other) :
    ∃ mended, Relation.ReflTransGen Mending.Step mending mended ∧ other.Shows mended := by
  induction hrun with
  | refl => exact ⟨mending, .refl, h⟩
  | tail _ hstep ih =>
      obtain ⟨middle, hmiddle, hshows⟩ := ih
      obtain ⟨mended, hmended, hother⟩ := hshows.step (hintact.run hmiddle) hstep
      exact ⟨mended, hmiddle.trans hmended, hother⟩

end

/-- What rules and repairs do in a session on a parsed document is a run of the mending of that
document.  At any time the repairs that the session makes together are those that are made of its
diagnostics, with the same count. -/
theorem exists_mending {dialect : Dialect} (hdialect : dialect ∈ Dialect.known) {text : String}
    {sourceName : Option String} {document : Document}
    (hdocument : (dialect.parse text sourceName).result = .ok document) {session : Session}
    (hrun : Relation.ReflTransGen Works (start dialect document) session) :
    (∃ mending, Relation.ReflTransGen Mending.Step ⟨document.items, []⟩ mending ∧
      session.document.items = mending.items ∧
      ∀ diagnostic ∈ session.diagnostics, diagnostic.repair.isSome = true →
        diagnostic ∈ mending.found) ∧
    ∀ admits, ∃ other count, session.fixAll admits = .ok (other, count) ∧
      Diagnostic.fixAll admits session.diagnostics session.document.items =
        .ok (other.document.items, count) := by
  obtain ⟨extended, -, -, hextended⟩ := Dialect.exists_extended hdialect
  have hintact := Dialect.intact_of_parse hextended hdocument
  obtain ⟨mending, hmending, hshows⟩ := (shows_start dialect document).run hintact hrun
  refine ⟨⟨mending, hmending, hshows.items_eq, hshows.found⟩, fun admits => ?_⟩
  obtain ⟨other, items, count, hsession, hitems, hother⟩ :=
    hshows.exists_fixAll (hintact.run hmending) admits
  refine ⟨other, count, hsession, ?_⟩
  rw [hshows.items_eq, hother.items_eq]
  exact hitems

end Session

end WebIdl
