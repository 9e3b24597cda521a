import Mathlib.Data.List.Nodup
import WebIdl.Proofs.Validation.Retouch

/-!
# Repairs in a row of tokens

A repair is made at a spot in the row of tokens of a document: it acts on the token with a certain
number, and leaves all others as they are.  What it puts in has no number of its own, so the same
token is found again after any repairs, and repairs at different spots can be made in any order
(`Spot.foldl_mend_perm`).  The spots on one token are different if something is put behind it at one of
them and not at the other.
-/

namespace WebIdl

open WebIdl.Shape

/-- The token is one of the text, and not one that a repair has put in. -/
def Token.isOwn (token : Token) : Bool :=
  token.index != 0 || !Repair.addedTexts.contains token.text

theorem Token.isOwn_of_index {token : Token} (h : token.index ≠ 0) : token.isOwn = true := by
  simp [isOwn, h]

theorem Token.isOwn_of_text {token : Token} (h : token.text ∉ Repair.addedTexts) :
    token.isOwn = true := by
  simp [isOwn, h]

/-- A token that a repair puts in. -/
theorem Token.isOwn_eq_false {token : Token} (hindex : token.index = 0)
    (htext : token.text ∈ Repair.addedTexts) : token.isOwn = false := by
  simp [isOwn, hindex, htext]

/-- A token that gets one of these lexemes stays one of the text. -/
theorem Token.isOwn_of_retouched {token changed : Token} (hindex : changed.index = token.index)
    (htext : changed.text = token.text ∨ changed.text ∉ Repair.addedTexts)
    (h : token.isOwn = true) : changed.isOwn = true := by
  rcases htext with htext | htext
  · rwa [isOwn, hindex, htext]
  · exact isOwn_of_text htext

/-! ## One token -/

/-- What a repair makes of a token: it puts something behind it, or it changes the token and puts
something before it. -/
theorem Retouches.retouched_cases {repair : Repair} {token : Token} {tokens after : List Token}
    {touch : Touch} (h : Retouches repair token tokens after touch) :
    (touch.isBehind = true ∧ ∃ back, (∀ added ∈ back, Token.isOwn added = false) ∧
      ∀ other, repair.retouched touch other = other :: back) ∨
    (touch.isBehind = false ∧ ∀ other, ∃ front changed,
      (∀ added ∈ front, Token.isOwn added = false) ∧ changed.index = other.index ∧
      (other.isOwn = true → changed.isOwn = true) ∧
      repair.retouched touch other = front ++ [changed]) := by
  -- two repairs write behind the token, the others write it anew
  cases h with
  | void _ _ =>
      refine Or.inr ⟨rfl, fun other => ⟨[], { other with text := "undefined" }, by simp, rfl, ?_, rfl⟩⟩
      exact Token.isOwn_of_retouched rfl (Or.inr (by decide : "undefined" ∉ Repair.addedTexts))
  | @rename _ _ former newName _ hname =>
      refine Or.inr ⟨rfl, fun other => ⟨[], { other with text := newName }, by simp, rfl, ?_, rfl⟩⟩
      have hall : ∀ pair ∈ Rule.legacyNames, pair.2 ∉ Repair.addedTexts := by decide
      exact Token.isOwn_of_retouched rfl (Or.inr (hall _ hname.1))
  | default _ =>
      refine Or.inl ⟨rfl, _, ?_, fun other => rfl⟩
      rw [Repair.tokens_emptyDictionary]
      decide
  | join _ =>
      refine Or.inl ⟨rfl, _, ?_, fun other => rfl⟩
      rw [Repair.tokens_exposed]
      decide
  | lead _ =>
      refine Or.inr ⟨rfl, fun other => ⟨(Repair.exposedList other.trivia).tokens,
        { other with trivia := "\n" }, ?_, rfl, ?_, rfl⟩⟩
      · rw [Repair.tokens_exposedList]
        intro added hadded
        simp only [List.mem_cons, List.not_mem_nil, or_false] at hadded
        have hbracket : "[" ∈ Repair.addedTexts := by decide
        rcases hadded with rfl | rfl | rfl | rfl | rfl
        · exact Token.isOwn_eq_false rfl hbracket
        all_goals decide
      · exact Token.isOwn_of_retouched rfl (Or.inl rfl)

/-- The token that a repair touches is still there, and the others that it makes are put in. -/
theorem Retouches.exists_retouched {repair : Repair} {token : Token} {tokens after : List Token}
    {touch : Touch} (h : Retouches repair token tokens after touch) (other : Token) :
    ∃ front changed back, repair.retouched touch other = front ++ changed :: back ∧
      (∀ added ∈ front ++ back, Token.isOwn added = false) ∧ changed.index = other.index ∧
      (other.isOwn = true → changed.isOwn = true) := by
  rcases h.retouched_cases with ⟨-, back, hback, heq⟩ | ⟨-, hcases⟩
  · exact ⟨[], other, back, heq other, by simpa using hback, rfl, id⟩
  · obtain ⟨front, changed, hfront, hindex, hown, heq⟩ := hcases other
    exact ⟨front, changed, [], heq, by simpa using hfront, hindex, hown⟩

/-- What comes behind a token matters only if something is put behind it. -/
theorem Retouches.of_isBehind_false {repair : Repair} {token : Token} {tokens after : List Token}
    {touch : Touch} (h : Retouches repair token tokens after touch)
    (hbehind : touch.isBehind = false) (other : List Token) :
    Retouches repair token tokens other touch := by
  cases h with
  | void hkind htext => exact .void hkind htext
  | rename hkind hname => exact .rename hkind hname
  | lead hbase => exact .lead hbase
  | default _ => cases hbehind
  | join _ => cases hbehind

/-- A repair can be made as before when another one has been made behind it. -/
theorem Retouches.of_retouched_behind {repair second : Repair} {token aimed : Token}
    {tokens others front rest after : List Token} {touch own : Touch}
    (h : Retouches repair token tokens (front ++ aimed :: rest) touch)
    (hsecond : Retouches second aimed others after own) :
    Retouches repair token tokens (front ++ (others ++ rest)) touch := by
  generalize hbehind : front ++ aimed :: rest = behind at h
  cases h with
  | void hkind htext => exact .void hkind htext
  | rename hkind hname => exact .rename hkind hname
  | default hname => exact .default hname
  | lead hbase => exact .lead hbase
  | @join _ closing _ hclosing =>
      cases front with
      | cons first front =>
          obtain ⟨rfl, -⟩ := List.cons.inj hbehind
          exact .join hclosing
      | nil =>
          -- the bracket is no token that is changed
          obtain ⟨rfl, -⟩ := List.cons.inj hbehind
          have hbracket : aimed.kind = .inline ∧ aimed.text = "]" := by
            simpa [Terminal.word, Terminal.accepts] using hclosing
          cases hsecond with
          | default _ => exact .join hclosing
          | join _ => exact .join hclosing
          | void _ htext =>
              rw [hbracket.2] at htext
              exact absurd htext (by decide)
          | rename hkind _ =>
              rw [hbracket.1] at hkind
              cases hkind
          | lead hbase =>
              rcases text_of_keyword hbase with htext | htext
              · rw [hbracket.2] at htext
                exact absurd htext (by decide)
              · rw [hbracket.2] at htext
                exact absurd htext (by decide)

/-- A spot in a row of tokens: the number of a token, the repair that is made there, and what it does
to the text. -/
structure Spot where
  index : Nat
  repair : Repair
  touch : Touch

namespace Spot

/-- The repair is one that is made at some token, with this effect. -/
def IsSound (spot : Spot) : Prop :=
  ∃ token tokens after, Retouches spot.repair token tokens after spot.touch

/-- Is this the token of the spot? -/
def hits (spot : Spot) (token : Token) : Bool :=
  token.isOwn && token.index == spot.index

/-- What the repair makes of a token of the row. -/
def act (spot : Spot) (token : Token) : List Token :=
  if spot.hits token then spot.repair.retouched spot.touch token else [token]

/-- The place of a spot among others: what is put behind a token comes after all else that is done to
it. -/
def key (spot : Spot) : Nat :=
  2 * spot.index + spot.touch.isBehind.toNat

variable {spot other : Spot} {token : Token} {row : List Token}

theorem act_of_hits (h : spot.hits token = true) :
    spot.act token = spot.repair.retouched spot.touch token :=
  if_pos h

theorem act_of_not_hits (h : spot.hits token = false) : spot.act token = [token] :=
  if_neg (Bool.eq_false_iff.mp h)

theorem hits_of_not_isOwn (h : token.isOwn = false) : spot.hits token = false := by
  rw [hits, h, Bool.false_and]

/-- A row without the token of the spot stays as it is. -/
theorem flatMap_act_of_not_hits (h : ∀ token ∈ row, spot.hits token = false) :
    row.flatMap spot.act = row := by
  calc row.flatMap spot.act
      = row.flatMap fun token => [token] :=
        List.flatMap_congr fun token htoken => act_of_not_hits (h token htoken)
    _ = row := List.flatMap_singleton' row

theorem flatMap_act_of_not_isOwn (h : ∀ token ∈ row, Token.isOwn token = false) :
    row.flatMap spot.act = row :=
  flatMap_act_of_not_hits fun token htoken => hits_of_not_isOwn (h token htoken)

/-- What one repair makes of a token is not touched by another one at another token. -/
theorem flatMap_act_retouched (hsound : other.IsSound) (hmiss : spot.index ≠ token.index) :
    (other.repair.retouched other.touch token).flatMap spot.act =
      other.repair.retouched other.touch token := by
  obtain ⟨aimed, tokens, after, hretouches⟩ := hsound
  obtain ⟨front, changed, back, heq, hadded, hindex, -⟩ := hretouches.exists_retouched token
  rw [heq]
  refine flatMap_act_of_not_hits fun found hfound => ?_
  rcases List.mem_append.mp hfound with hfront | hrest
  · exact hits_of_not_isOwn (hadded found (List.mem_append_left _ hfront))
  · rcases List.mem_cons.mp hrest with rfl | hback
    · simp [hits, hindex, Ne.symm hmiss]
    · exact hits_of_not_isOwn (hadded found (List.mem_append_right _ hback))

/-- Two repairs on one token, of which one puts something behind it. -/
theorem act_comm_of_isBehind (hsound : spot.IsSound) (hother : other.IsSound)
    (hbehind : spot.touch.isBehind = false) (hbehind' : other.touch.isBehind = true)
    (hhits : spot.hits token = true) (hsame : spot.index = other.index) :
    (spot.act token).flatMap other.act = (other.act token).flatMap spot.act := by
  obtain ⟨hown, hindex⟩ : token.isOwn = true ∧ token.index = spot.index := by
    simpa [hits] using hhits
  have hhits' : other.hits token = true := by simp [hits, hown, hindex, hsame]
  obtain ⟨_, _, _, hretouches⟩ := hsound
  obtain ⟨_, _, _, hretouches'⟩ := hother
  obtain ⟨-, hcases⟩ := hretouches.retouched_cases.resolve_left fun h => by
    rw [hbehind] at h
    cases h.1
  obtain ⟨-, back, hback, hbacks⟩ := hretouches'.retouched_cases.resolve_right fun h => by
    rw [hbehind'] at h
    cases h.1
  obtain ⟨front, changed, hfront, hchanged, hown', heq⟩ := hcases token
  have hlast : other.hits changed = true := by simp [hits, hown' hown, hchanged, hindex, hsame]
  calc (spot.act token).flatMap other.act
      = front.flatMap other.act ++ other.act changed := by
        rw [act_of_hits hhits, heq]
        simp
    _ = front ++ changed :: back := by
        rw [flatMap_act_of_not_isOwn hfront, act_of_hits hlast, hbacks]
    _ = (front ++ [changed]) ++ back.flatMap spot.act := by
        rw [flatMap_act_of_not_isOwn hback]
        simp
    _ = (other.act token).flatMap spot.act := by
        rw [act_of_hits hhits', hbacks, List.flatMap_cons, act_of_hits hhits, heq]

/-- Two repairs at different spots make the same of a token in either order. -/
theorem act_comm (hsound : spot.IsSound) (hother : other.IsSound) (hkey : spot.key ≠ other.key)
    (token : Token) : (spot.act token).flatMap other.act = (other.act token).flatMap spot.act := by
  have hfar {first second : Spot} (hfirst : first.IsSound) (hhits : first.hits token = true)
      (hmisses : second.hits token = false) :
      (first.act token).flatMap second.act = (second.act token).flatMap first.act := by
    have hown : token.isOwn = true := (Bool.and_eq_true_iff.mp hhits).1
    have hne : second.index ≠ token.index := by
      rw [hits, hown, Bool.true_and, beq_eq_false_iff_ne] at hmisses
      exact hmisses.symm
    rw [act_of_hits hhits, flatMap_act_retouched hfirst hne, act_of_not_hits hmisses,
      List.flatMap_singleton, act_of_hits hhits]
  cases hhits : spot.hits token with
  | false =>
      cases hhits' : other.hits token with
      | false =>
          rw [act_of_not_hits hhits, act_of_not_hits hhits', List.flatMap_singleton,
            List.flatMap_singleton, act_of_not_hits hhits, act_of_not_hits hhits']
      | true => exact (hfar hother hhits' hhits).symm
  | true =>
      cases hhits' : other.hits token with
      | false => exact hfar hsound hhits hhits'
      | true =>
          have hsame : spot.index = other.index := by
            simp only [hits, Bool.and_eq_true, beq_iff_eq] at hhits hhits'
            exact hhits.2.symm.trans hhits'.2
          -- the spots are on one token, so something is put behind it at one of them only
          cases hbehind : spot.touch.isBehind with
          | false =>
              cases hbehind' : other.touch.isBehind with
              | false => exact absurd (by simp [key, hsame, hbehind, hbehind']) hkey
              | true => exact act_comm_of_isBehind hsound hother hbehind hbehind' hhits hsame
          | true =>
              cases hbehind' : other.touch.isBehind with
              | false =>
                  exact (act_comm_of_isBehind hother hsound hbehind' hbehind hhits' hsame.symm).symm
              | true => exact absurd (by simp [key, hsame, hbehind, hbehind']) hkey

end Spot

/-! ## Rows -/

/-- The numbers of the tokens of a row that are of the text. -/
def ownIndices (row : List Token) : List Nat :=
  (row.filter Token.isOwn).map Token.index

theorem ownIndices_append (front back : List Token) :
    ownIndices (front ++ back) = ownIndices front ++ ownIndices back := by
  simp [ownIndices]

theorem ownIndices_cons_of_isOwn {token : Token} (h : token.isOwn = true) (row : List Token) :
    ownIndices (token :: row) = token.index :: ownIndices row := by
  simp [ownIndices, h]

theorem ownIndices_eq_nil {row : List Token} (h : ∀ token ∈ row, Token.isOwn token = false) :
    ownIndices row = [] := by
  simpa [ownIndices, List.filter_eq_nil_iff] using h

/-- A repair keeps the numbers of the tokens. -/
theorem Retouches.ownIndices_eq {repair : Repair} {token : Token} {tokens after : List Token}
    {touch : Touch} (h : Retouches repair token tokens after touch) (hown : token.isOwn = true)
    (before rest : List Token) :
    ownIndices (before ++ (tokens ++ rest)) = ownIndices (before ++ token :: rest) := by
  obtain ⟨front, changed, back, heq, hadded, hindex, hkept⟩ := h.exists_retouched token
  rw [h.tokens_eq, heq]
  have hfront := ownIndices_eq_nil fun added hmem => hadded added (List.mem_append_left back hmem)
  have hback := ownIndices_eq_nil fun added hmem => hadded added (List.mem_append_right front hmem)
  simp only [ownIndices_append, ownIndices_cons_of_isOwn (hkept hown),
    ownIndices_cons_of_isOwn hown, hfront, hback, hindex, List.nil_append]
  simp

namespace Spot

/-- The repair of a row of tokens. -/
def mend (row : List Token) (spot : Spot) : List Token :=
  row.flatMap spot.act

/-- A repair acts on the one token with its number. -/
theorem mend_eq {spot : Spot} {before after : List Token} {token : Token}
    (hnodup : (ownIndices (before ++ token :: after)).Nodup) (hown : token.isOwn = true)
    (hindex : token.index = spot.index) :
    mend (before ++ token :: after) spot =
      before ++ (spot.repair.retouched spot.touch token ++ after) := by
  have hhits : spot.hits token = true := by simp [hits, hown, hindex]
  rw [ownIndices_append, ownIndices_cons_of_isOwn hown] at hnodup
  obtain ⟨-, hrest, hapart⟩ := List.nodup_append.mp hnodup
  have hmiss {row : List Token} (hrow : token.index ∉ ownIndices row) :
      row.flatMap spot.act = row := by
    refine flatMap_act_of_not_hits fun found hfound => ?_
    rw [hits, Bool.and_eq_false_imp]
    intro hfoundOwn
    refine beq_eq_false_iff_ne.mpr fun hsame => hrow ?_
    rw [hindex, ← hsame]
    exact List.mem_map_of_mem (List.mem_filter.mpr ⟨hfound, hfoundOwn⟩)
  have hbefore : token.index ∉ ownIndices before := fun hmem =>
    hapart _ hmem _ List.mem_cons_self rfl
  have hafter : token.index ∉ ownIndices after := (List.nodup_cons.mp hrest).1
  rw [mend, List.flatMap_append, List.flatMap_cons, hmiss hbefore, hmiss hafter,
    act_of_hits hhits]

theorem mend_comm {spot other : Spot} (hsound : spot.IsSound) (hother : other.IsSound)
    (hkey : spot.key ≠ other.key) (row : List Token) :
    mend (mend row spot) other = mend (mend row other) spot := by
  simp only [mend, List.flatMap_assoc]
  exact List.flatMap_congr fun token _ => act_comm hsound hother hkey token

/-- Repairs at different spots can be made in any order. -/
theorem foldl_mend_perm {spots others : List Spot} (h : spots.Perm others)
    (hsound : ∀ spot ∈ spots, spot.IsSound) (hkeys : (spots.map key).Nodup) (row : List Token) :
    spots.foldl mend row = others.foldl mend row := by
  refine h.foldl_eq' (fun spot hspot other hmem row => ?_) row
  by_cases hsame : spot.key = other.key
  · rw [List.inj_on_of_nodup_map hkeys hspot hmem hsame]
  · exact mend_comm (hsound spot hspot) (hsound other hmem) hsame row

end Spot

end WebIdl
