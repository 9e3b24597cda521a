import WebIdl.Proofs.Shape.Void
import WebIdl.Proofs.Validation.Commute

/-!
# The word `void` is replaced everywhere

The rule about `void` goes by the types of a document, and it finds every word `void` in the row of
tokens, in its order (`Rule.token_replaceVoidOn`).  Each of its repairs changes one of these words, so
spelling all of them anew gives the same row before and after it (`Intact.map_replaceVoid_fix`).  When
all of them have been made, none of the words is left, and that row is the row of the document
(`Intact.exists_replaceVoid`).
-/

namespace WebIdl

open WebIdl.Shape WebIdl.Mending

/-- The token with the word `void` spelled anew. -/
def Token.replaceVoid (token : Token) : Token :=
  if token.isInline "void" then { token with text := "undefined" } else token

theorem Token.replaceVoid_of_isInline {token : Token} (h : token.isInline "void" = true) :
    token.replaceVoid = { token with text := "undefined" } :=
  if_pos h

theorem Token.replaceVoid_undefined (token : Token) :
    Token.replaceVoid { token with text := "undefined" } = { token with text := "undefined" } := by
  simp [Token.replaceVoid, Token.isInline]

theorem map_replaceVoid_eq_self {tokens : List Token}
    (h : tokens.filter (·.isInline "void") = []) : tokens.map Token.replaceVoid = tokens := by
  calc tokens.map Token.replaceVoid = tokens.map id := by
        refine List.map_congr_left fun token htoken => ?_
        exact if_neg (List.filter_eq_nil_iff.mp h token htoken)
    _ = tokens := List.map_id tokens

/-! ## What the rule finds -/

/-- The located constructs of a document are its constructs. -/
theorem map_snd_located (items : List Node) :
    (located items).map (·.2) = items.flatMap Node.walk := by
  calc (located items).map (·.2)
      = items.zipIdx.flatMap fun entry => entry.1.walk := by
        rw [located, List.map_flatMap]
        refine List.flatMap_congr fun entry _ => ?_
        rw [List.map_map, ← map_located]
        rfl
    _ = items.flatMap Node.walk := by
        rw [← List.flatMap_map, List.zipIdx_map_fst]

/-- The end of the text is no word. -/
theorem showsVoid_ofEof {last : Token} (h : last.kind = .eof) : (Node.ofEof last).ShowsVoid := by
  have hbase : (Node.ofEof last).voidBase? = none := by simp [Node.voidBase?, Node.ofEof]
  have hother : last.isInline "void" = false := by simp [Token.isInline, h]
  have hwalk : (Node.ofEof last).walk = [Node.ofEof last] := by
    simp [Node.ofEof, Node.walk, walkOf]
  rw [Node.ShowsVoid, hwalk, List.filterMap_cons_none hbase]
  simp [Node.ofEof, Node.tokens, tokensOf, hother]

theorem FormedItems.filterMap_voidBase? {extended : Bool} {items : List Node}
    (h : FormedItems extended items) :
    (items.flatMap Node.walk).filterMap Node.voidBase? =
      (items.flatMap Node.tokens).filter (·.isInline "void") := by
  obtain ⟨nodes, last, rfl, hlast, hnodes⟩ := h
  have hshows : ∀ node ∈ nodes ++ [Node.ofEof last], node.ShowsVoid := by
    intro node hnode
    rcases List.mem_append.mp hnode with hnode | hnode
    · exact (hnodes node hnode).showsVoid rfl
    · obtain rfl := List.mem_singleton.mp hnode
      exact showsVoid_ofEof hlast
  rw [List.filterMap_flatMap, List.filter_flatMap]
  exact List.flatMap_congr hshows

theorem Rule.repair_of_mem_replaceVoidOn {items : List Node} {diagnostic : Diagnostic}
    (h : diagnostic ∈ replaceVoidOn items) : diagnostic.repair = some .replaceVoid := by
  obtain ⟨⟨site, node⟩, -, hfound⟩ := List.mem_filterMap.mp h
  obtain ⟨base, -, hobjection⟩ := Option.bind_eq_some_iff.mp hfound
  split at hobjection
  · obtain rfl := Option.some.inj hobjection
    rfl
  · cases hobjection

/-- The rule finds the words `void` of a document, one by one and in their order. -/
theorem Rule.token_replaceVoidOn {extended : Bool} {items : List Node}
    (hitems : FormedItems extended items)
    (hvoid : ∀ token ∈ items.flatMap Node.tokens, token.text = "void" → token.kind = .inline) :
    (replaceVoidOn items).map (·.token) =
      ((items.flatMap Node.tokens).filter (·.isInline "void")).map some := by
  have hone : ∀ entry ∈ located items,
      Option.map (·.token) ((entry.2.token? .base).bind fun base =>
        if entry.2.construct.isType && base.text == "void" then some (voidObjection entry.1 base)
        else none) = entry.2.voidBase?.map some := by
    rintro ⟨site, node⟩ hentry
    cases hbase : node.token? .base with
    | none => simp [Node.voidBase?, hbase]
    | some base =>
        have hmem : base ∈ items.flatMap Node.tokens :=
          tokens_subset_of_node? (node?_of_mem_located hentry) (mem_tokens_of_token? hbase)
        -- the word is no identifier, so its text tells it
        have hword : (base.text == "void") = base.isInline "void" := by
          by_cases htext : base.text = "void"
          · simp [Token.isInline, htext, hvoid base hmem htext]
          · simp [Token.isInline, htext]
        rw [Node.voidBase?, hbase, Option.bind_some, Option.filter_some, hword]
        split <;> rfl
  calc (replaceVoidOn items).map (·.token)
      = (located items).filterMap fun entry => entry.2.voidBase?.map some := by
        rw [replaceVoidOn, List.map_filterMap]
        exact List.filterMap_congr hone
    _ = ((located items).map (·.2)).filterMap fun node => node.voidBase?.map some := by
        rw [List.filterMap_map]
        rfl
    _ = ((items.flatMap Node.walk).filterMap Node.voidBase?).map some := by
        rw [map_snd_located, List.map_filterMap]
    _ = ((items.flatMap Node.tokens).filter (·.isInline "void")).map some := by
        rw [hitems.filterMap_voidBase?]

/-! ## What the repairs do -/

namespace Mending.Intact

variable {extended : Bool} {available applied : List Tweak} {mending : Mending}

/-- One repair changes one of the words. -/
theorem map_replaceVoid_fix (h : Intact extended available applied mending)
    {diagnostic : Diagnostic} {others : List Node} (hfound : diagnostic ∈ mending.found)
    (hrepair : diagnostic.repair = some .replaceVoid)
    (hfix : diagnostic.fix mending.items = .ok others) :
    (others.flatMap Node.tokens).map Token.replaceVoid = mending.tokens.map Token.replaceVoid := by
  obtain ⟨old, new, changed, -, hchanged, hswaps, -, hmends⟩ :=
    Diagnostic.exists_fix h.formed (h.suited diagnostic hfound) hrepair
  obtain rfl : others = changed := Except.ok.inj (hfix.symm.trans hchanged)
  rcases hmends with ⟨rfl, -⟩ | hmends
  · -- nothing has changed
    obtain rfl := hswaps.eq_of_same
    rfl
  · obtain ⟨before, word, after, touch, hold, hnew, hretouches, -, -⟩ := hswaps.exists_row hmends
    obtain ⟨hkind, htext⟩ : word.kind = .inline ∧ word.text = "void" := by
      cases hretouches with
      | void hkind htext => exact ⟨hkind, htext⟩
    have hword : word.isInline "void" = true := by simp [Token.isInline, hkind, htext]
    rw [Mending.tokens, hold, hnew, Repair.retouched]
    simp [Token.replaceVoid_of_isInline hword, Token.replaceVoid_undefined]

/-- A row of repairs changes some of the words. -/
theorem map_replaceVoid_fixes (h : Intact extended available applied mending)
    {chosen : List Diagnostic} {others : List Node}
    (hchosen : ∀ diagnostic ∈ chosen,
      diagnostic ∈ mending.found ∧ diagnostic.repair = some .replaceVoid)
    (hfix : chosen.foldlM (fun items diagnostic => diagnostic.fix items) mending.items =
      .ok others) :
    (others.flatMap Node.tokens).map Token.replaceVoid = mending.tokens.map Token.replaceVoid := by
  induction chosen generalizing mending with
  | nil =>
      obtain rfl := Except.ok.inj hfix
      rfl
  | cons diagnostic rest ih =>
      obtain ⟨hfound, hrepair⟩ := hchosen diagnostic List.mem_cons_self
      obtain ⟨changed, hone, hothers⟩ := exists_of_foldlM_cons hfix
      have hrest := ih (h.fix hfound hone)
        (fun other hother => hchosen other (List.mem_cons_of_mem _ hother)) hothers
      rw [hrest]
      exact h.map_replaceVoid_fix hfound hrepair hone

/-- When all that the rule has found is repaired, it finds nothing. -/
theorem replaceVoidOn_fixes (h : Intact extended available applied mending) {others : List Node}
    (hfound : Rule.replaceVoidOn mending.items ⊆ mending.found)
    (hfix : (Rule.replaceVoidOn mending.items).foldlM
      (fun items diagnostic => diagnostic.fix items) mending.items = .ok others) :
    Rule.replaceVoidOn others = [] := by
  rw [List.eq_nil_iff_forall_not_mem]
  intro diagnostic hmem
  have hleft : diagnostic ∈ objections Rule.all others :=
    List.mem_flatMap.mpr ⟨.replaceVoid, Rule.mem_all _, hmem⟩
  rw [h.objections_fixes hfound hfix] at hleft
  obtain ⟨hbefore, hunsettled⟩ := List.mem_filter.mp hleft
  -- it was found before, so its repair has been made
  have hchosen : diagnostic ∈ Rule.replaceVoidOn mending.items :=
    Rule.mem_objections_of_repair hbefore (Rule.repair_of_mem_replaceVoidOn hmem)
  have hsettled : (Rule.replaceVoidOn mending.items).any (·.settles diagnostic) = true :=
    List.any_eq_true.mpr ⟨diagnostic, hchosen, by simp [Diagnostic.settles]⟩
  rw [hsettled] at hunsettled
  cases hunsettled

/-- All words `void` of a document can be replaced, in any order. -/
theorem exists_replaceVoid (h : Intact extended available applied mending) :
    ∃ others, (∀ order : List Diagnostic, order.Perm (Rule.replaceVoidOn mending.items) →
        order.foldlM (fun items diagnostic => diagnostic.fix items) mending.items = .ok others) ∧
      others.flatMap Node.tokens = mending.tokens.map Token.replaceVoid := by
  have hlook := h.look
  have hfound : Rule.replaceVoidOn mending.items ⊆
      mending.found ++ objections Rule.all mending.items := fun diagnostic hmem =>
    List.mem_append_right _ (List.mem_flatMap.mpr ⟨.replaceVoid, Rule.mem_all _, hmem⟩)
  have hchosen : ∀ diagnostic ∈ Rule.replaceVoidOn mending.items,
      diagnostic ∈ mending.found ++ objections Rule.all mending.items ∧
        diagnostic.repair.isSome = true := fun diagnostic hmem =>
    ⟨hfound hmem, by rw [Rule.repair_of_mem_replaceVoidOn hmem]; rfl⟩
  obtain ⟨others, hothers⟩ := hlook.exists_fixes hchosen
  refine ⟨others, fun order hperm => (hlook.foldlM_perm hperm hchosen).trans hothers, ?_⟩
  have hintact := hlook.run (runs_of_foldlM hfound hothers)
  have hnone : (others.flatMap Node.tokens).filter (·.isInline "void") = [] := by
    have hwords := Rule.token_replaceVoidOn hintact.formed hintact.void_inline
    rw [hlook.replaceVoidOn_fixes hfound hothers] at hwords
    exact List.map_eq_nil_iff.mp hwords.symm
  calc others.flatMap Node.tokens
      = (others.flatMap Node.tokens).map Token.replaceVoid := (map_replaceVoid_eq_self hnone).symm
    _ = mending.tokens.map Token.replaceVoid :=
        hlook.map_replaceVoid_fixes (fun diagnostic hmem =>
          ⟨hfound hmem, Rule.repair_of_mem_replaceVoidOn hmem⟩) hothers

end Mending.Intact

end WebIdl
