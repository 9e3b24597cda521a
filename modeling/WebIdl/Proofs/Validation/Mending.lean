import Mathlib.Logic.Relation
import WebIdl.Proofs.Validation.Retouch
import WebIdl.Proofs.Validation.Step

/-!
# Mending a document step by step

A document on the workbench is looked over by the rules, and repairs of what they have found are made,
in any order and as often as one likes; what was found stays at hand, also when it is out of date.
One step keeps the document in a state where the next one can be made (`Intact.step`), so a whole run
does (`Intact.run`): its items are well formed, its tokens can be read back, tweaks and masks are in
their places, and every repair that has been proposed can be made.
-/

namespace WebIdl

open WebIdl.Shape WebIdl.Lexeme

/-- A document on the workbench: its items as they are now, and all that rules have found. -/
structure Mending where
  items : List Node
  found : List Diagnostic := []

/-- A loop that takes a step for some items and counts them takes the steps for these items. -/
theorem foldlM_counting {ε α σ : Type} (step : σ → α → Except ε σ) (test : α → Bool) (list : List α)
    (state : σ) (count : Nat) :
    list.foldlM (fun (state, count) item => do
      if test item then
        return (← step state item, count + 1)
      else
        return (state, count)) (state, count) =
      ((list.filter test).foldlM step state).map (·, count + (list.filter test).length) := by
  induction list generalizing state count with
  | nil => rfl
  | cons item rest ih =>
      cases htest : test item with
      | false =>
          rw [List.foldlM_cons, List.filter_cons_of_neg (by simp [htest]), ← ih state count]
          simp [htest]
      | true =>
          rw [List.foldlM_cons, List.filter_cons_of_pos htest, List.foldlM_cons]
          cases hstep : step state item with
          | error error => simp [htest, hstep, bind, Except.bind, Except.map]
          | ok changed =>
              refine Eq.trans ?_ ((ih changed (count + 1)).trans ?_)
              · simp [htest, hstep, bind, Except.bind, pure, Except.pure]
              · simp [bind, Except.bind, Nat.add_assoc, Nat.add_comm 1]

namespace Diagnostic

variable {admits : String → Bool} {found : List Diagnostic}

/-- To make all admitted repairs is to make them one after the other, and to count them. -/
theorem fixAll_eq (items : List Node) :
    fixAll admits found items =
      ((found.filter (isAdmitted admits)).foldlM (fun items other => fix other items) items).map
        (·, (found.filter (isAdmitted admits)).length) :=
  (foldlM_counting (fun items other => fix other items) (isAdmitted admits) found items 0).trans
    (by rw [Nat.zero_add])

/-- All admitted repairs are made if they can be made one after the other, and the number of them is
that of the admitted diagnostics. -/
theorem fixAll_eq_ok_iff {items others : List Node} {count : Nat} :
    fixAll admits found items = .ok (others, count) ↔
      (found.filter (isAdmitted admits)).foldlM (fun items other => fix other items) items =
          .ok others ∧
        (found.filter (isAdmitted admits)).length = count := by
  rw [fixAll_eq]
  cases (found.filter (isAdmitted admits)).foldlM (fun items other => fix other items) items with
  | error error => simp [Except.map]
  | ok fixed => simp [Except.map]

end Diagnostic

namespace Mending

/-- One step: the rules look the items over, or a repair is made. -/
inductive Step : Mending → Mending → Prop where
  | look {items : List Node} {found objections : List Diagnostic}
      (hlook : validate Rule.all items = .ok objections) :
      Step ⟨items, found⟩ ⟨items, found ++ objections⟩
  | fix {items others : List Node} {found : List Diagnostic} {diagnostic : Diagnostic}
      (hfound : diagnostic ∈ found) (hfix : diagnostic.fix items = .ok others) :
      Step ⟨items, found⟩ ⟨others, found⟩

/-- The tokens of the items. -/
def tokens (mending : Mending) : List Token :=
  mending.items.flatMap Node.tokens

/-- The document is in a state where the next step can be made. -/
structure Intact (extended : Bool) (available applied : List Tweak) (mending : Mending) : Prop where
  formed : FormedItems extended mending.items
  lexable : ∃ front last, mending.tokens = front ++ [last] ∧ Lexable front last
  stable : Dialect.Stable available applied (charsOf mending.tokens)
  suited : ∀ diagnostic ∈ mending.found, diagnostic.Suited mending.items

/-- The keyword `void` is no identifier. -/
theorem kind_of_void {token : Token} (h : token.Readable) (htext : token.text = "void") :
    token.kind = .inline := by
  have hlexeme := h.lexeme
  rw [htext] at hlexeme
  have hends : Ends token.kind "void".toList [] := ⟨fun _ => stops_nil _, fun _ => stops_nil _⟩
  have hscan := scan_of_isLexeme hlexeme hends (show "void".toList ++ [] = 'v' :: "oid".toList by rfl)
  have hvoid : (scan 'v' "oid".toList).1 = .inline := by decide
  rw [hscan] at hvoid
  exact hvoid

/-- A token that is touched stands before the end of the text. -/
theorem exists_rest {repair : Repair} {token last : Token}
    {tokens after front before : List Token} {touch : Touch}
    (h : Retouches repair token tokens after touch) (hlexable : Lexable front last)
    (hsplit : front ++ [last] = before ++ token :: after) :
    ∃ rest, after = rest ++ [last] ∧ front = before ++ token :: rest := by
  rcases List.eq_nil_or_concat after with rfl | ⟨rest, final, rfl⟩
  · obtain ⟨-, heq⟩ := List.append_inj' hsplit rfl
    obtain rfl : last = token := by simpa using heq
    -- no repair is for the end of the text
    have hkind := hlexable.kind
    cases h with
    | void hcase _ => rw [hkind] at hcase; cases hcase
    | rename hcase _ => rw [hkind] at hcase; cases hcase
    | default hname => simp [Terminal.argumentName, Terminal.accepts, hkind] at hname
    | lead hbase => simp [Terminal.accepts, hkind] at hbase
  · rw [List.concat_eq_append] at hsplit ⊢
    rw [← List.cons_append, ← List.append_assoc] at hsplit
    obtain ⟨rfl, heq⟩ := List.append_inj' hsplit rfl
    obtain rfl : last = final := by simpa using heq
    exact ⟨rest, rfl, rfl⟩

namespace Intact

variable {extended : Bool} {available applied : List Tweak} {mending : Mending}

/-- A repair that was proposed can be made. -/
theorem exists_fix (h : Intact extended available applied mending) {diagnostic : Diagnostic}
    (hfound : diagnostic ∈ mending.found) (hrepair : diagnostic.repair.isSome = true) :
    ∃ others, diagnostic.fix mending.items = .ok others := by
  obtain ⟨repair, hrepair⟩ := Option.isSome_iff_exists.mp hrepair
  obtain ⟨_, _, others, -, hfix, -⟩ :=
    Diagnostic.exists_fix h.formed (h.suited diagnostic hfound) hrepair
  exact ⟨others, hfix⟩

/-- No identifier of an intact document is `void`. -/
theorem void_inline (h : Intact extended available applied mending) :
    ∀ token ∈ mending.items.flatMap Node.tokens, token.text = "void" → token.kind = .inline := by
  intro token htoken htext
  obtain ⟨front, last, hsplit, hlexable⟩ := h.lexable
  rw [tokens] at hsplit
  rw [hsplit] at htoken
  rcases List.mem_append.mp htoken with htoken | htoken
  · exact kind_of_void (hlexable.readable token htoken) htext
  · obtain rfl := List.mem_singleton.mp htoken
    rw [hlexable.text] at htext
    exact absurd htext (by decide)

/-- No rule fails. -/
theorem validate_eq_ok (h : Intact extended available applied mending) (rules : List Rule) :
    validate rules mending.items = .ok (objections rules mending.items) :=
  WebIdl.validate_eq_ok h.formed.legible rules

/-- What the rules find can be repaired. -/
theorem look (h : Intact extended available applied mending) :
    Intact extended available applied
      ⟨mending.items, mending.found ++ objections Rule.all mending.items⟩ := by
  refine ⟨h.formed, h.lexable, h.stable, fun diagnostic hfound => ?_⟩
  rcases List.mem_append.mp hfound with hfound | hfound
  · exact h.suited diagnostic hfound
  · exact Diagnostic.suited_of_mem_objections h.formed h.void_inline hfound

/-- A repair leaves the document in such a state. -/
theorem fix (h : Intact extended available applied mending) {diagnostic : Diagnostic}
    {others : List Node} (hfound : diagnostic ∈ mending.found)
    (hfix : diagnostic.fix mending.items = .ok others) :
    Intact extended available applied ⟨others, mending.found⟩ := by
  obtain ⟨repair, hrepair⟩ := Diagnostic.repair_of_fix hfix
  obtain ⟨old, new, changed, hsuits, hmade, hswaps, hformed, hmends⟩ :=
    Diagnostic.exists_fix h.formed (h.suited diagnostic hfound) hrepair
  obtain rfl : others = changed := Except.ok.inj (hfix.symm.trans hmade)
  have hsuited : ∀ other ∈ mending.found, other.Suited others := fun other hother =>
    (h.suited other hother).fix hswaps hsuits hmends
  obtain ⟨before, after, hold, hnew⟩ := hswaps.tokens_eq
  rcases hmends with ⟨rfl, -⟩ | hmends
  · -- nothing has changed
    obtain rfl := hswaps.eq_of_same
    exact h
  · obtain ⟨front, last, hsplit, hlexable⟩ := h.lexable
    obtain ⟨inner, token, retouched, back, touch, htokens, hchanged, hretouches, -⟩ :=
      hmends.retouches after
    -- the repair falls inside the tokens in front of the end
    have hbefore : front ++ [last] = (before ++ inner) ++ token :: (back ++ after) := by
      rw [← hsplit, tokens, hold, htokens]
      simp
    obtain ⟨rest, hrest, rfl⟩ := exists_rest hretouches hlexable hbefore
    have hafter : others.flatMap Node.tokens =
        (before ++ inner) ++ (retouched ++ rest) ++ [last] := by
      rw [hnew, hchanged]
      simp [hrest]
    rw [hrest] at hretouches
    refine ⟨hformed, ⟨_, last, hafter, hretouches.lexable hlexable⟩, ?_, hsuited⟩
    have hsplice := hretouches.splice hlexable List.prefix_rfl
    obtain ⟨hchars, hchars'⟩ := hretouches.chars_eq
    -- the text stays stable under the directives and tweaks it was read with
    have hstable : Dialect.Stable available applied
        ((charsOf (before ++ inner) ++ touch.front token) ++
          (touch.piece token ++ (touch.back token ++ charsOf (rest ++ [last])))) := by
      have hall := h.stable
      rw [hsplit] at hall
      simpa [hchars] using hall
    have hspliced := hstable.splice hsplice
    rw [tokens, hafter]
    simpa [hchars'] using hspliced

theorem step {other : Mending} (h : Intact extended available applied mending)
    (hstep : Step mending other) : Intact extended available applied other := by
  cases hstep with
  | look hlook =>
      obtain rfl := Except.ok.inj ((h.validate_eq_ok Rule.all).symm.trans hlook)
      exact h.look
  | fix hfound hfix => exact h.fix hfound hfix

theorem run {other : Mending} (h : Intact extended available applied mending)
    (hrun : Relation.ReflTransGen Step mending other) :
    Intact extended available applied other := by
  induction hrun with
  | refl => exact h
  | tail _ hstep ih => exact ih.step hstep

/-- Any row of repairs that were proposed can be made, one after the other. -/
theorem exists_fixes (h : Intact extended available applied mending) {chosen : List Diagnostic}
    (hchosen : ∀ diagnostic ∈ chosen,
      diagnostic ∈ mending.found ∧ diagnostic.repair.isSome = true) :
    ∃ others, chosen.foldlM (fun items diagnostic => diagnostic.fix items) mending.items =
      .ok others := by
  induction chosen generalizing mending with
  | nil => exact ⟨mending.items, rfl⟩
  | cons diagnostic rest ih =>
      obtain ⟨hfound, hrepair⟩ := hchosen diagnostic List.mem_cons_self
      obtain ⟨items, hfix⟩ := h.exists_fix hfound hrepair
      obtain ⟨others, hothers⟩ := ih (h.fix hfound hfix) fun other hother =>
        hchosen other (List.mem_cons_of_mem _ hother)
      refine ⟨others, ?_⟩
      rw [List.foldlM_cons, hfix]
      exact hothers

end Intact

/-- A row of repairs is made by making the first one, and then the others. -/
theorem exists_of_foldlM_cons {items others : List Node} {diagnostic : Diagnostic}
    {rest : List Diagnostic}
    (h : (diagnostic :: rest).foldlM (fun items diagnostic => diagnostic.fix items) items =
      .ok others) :
    ∃ changed, diagnostic.fix items = .ok changed ∧
      rest.foldlM (fun items diagnostic => diagnostic.fix items) changed = .ok others := by
  rw [List.foldlM_cons] at h
  cases hfix : diagnostic.fix items with
  | error error =>
      rw [hfix] at h
      cases h
  | ok changed =>
      rw [hfix] at h
      exact ⟨changed, rfl, h⟩

/-- A row of repairs is a run. -/
theorem runs_of_foldlM {items others : List Node} {found chosen : List Diagnostic}
    (hchosen : chosen ⊆ found)
    (h : chosen.foldlM (fun items diagnostic => diagnostic.fix items) items = .ok others) :
    Relation.ReflTransGen Step ⟨items, found⟩ ⟨others, found⟩ := by
  induction chosen generalizing items with
  | nil =>
      obtain rfl := Except.ok.inj h
      exact .refl
  | cons diagnostic rest ih =>
      obtain ⟨changed, hfix, hothers⟩ := exists_of_foldlM_cons h
      have hrest := ih (fun other hother => hchosen (List.mem_cons_of_mem _ hother)) hothers
      exact .head (.fix (hchosen List.mem_cons_self) hfix) hrest

/-- All admitted repairs of what was found can be made. -/
theorem Intact.exists_fixAll {extended : Bool} {available applied : List Tweak} {mending : Mending}
    (h : Intact extended available applied mending) (admits : String → Bool)
    {found : List Diagnostic} (hfound : found ⊆ mending.found) :
    ∃ others, Diagnostic.fixAll admits found mending.items =
      .ok (others, (found.filter (Diagnostic.isAdmitted admits)).length) := by
  have hchosen : ∀ diagnostic ∈ found.filter (Diagnostic.isAdmitted admits),
      diagnostic ∈ mending.found ∧ diagnostic.repair.isSome = true := by
    intro diagnostic hmem
    obtain ⟨hmem, hadmitted⟩ := List.mem_filter.mp hmem
    exact ⟨hfound hmem, (Bool.and_eq_true_iff.mp hadmitted).1⟩
  obtain ⟨others, hothers⟩ := h.exists_fixes hchosen
  exact ⟨others, Diagnostic.fixAll_eq_ok_iff.mpr ⟨hothers, rfl⟩⟩

/-- All admitted repairs together leave the document in such a state. -/
theorem Intact.fixAll {extended : Bool} {available applied : List Tweak} {mending : Mending}
    (h : Intact extended available applied mending) {admits : String → Bool}
    {found : List Diagnostic} (hfound : found ⊆ mending.found) {others : List Node} {count : Nat}
    (hfix : Diagnostic.fixAll admits found mending.items = .ok (others, count)) :
    Intact extended available applied ⟨others, mending.found⟩ :=
  h.run (runs_of_foldlM (fun _ hmem => hfound (List.mem_filter.mp hmem).1)
    (Diagnostic.fixAll_eq_ok_iff.mp hfix).1)

end Mending

end WebIdl
