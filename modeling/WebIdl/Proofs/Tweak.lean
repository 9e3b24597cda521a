import WebIdl.Proofs.Text.Lines
import WebIdl.Tweak

/-!
# Taking tweaks back

A tweak is applied at the first occurrence of its target and taken back at the first occurrence of
its replacement.  That these are the same place is not a matter of course: the text may hold the
replacement already, further to the left.  It is one for a tweak that only puts a lead in front of
its target, if lead and target have no character in common (`Tweak.Leads`).  An occurrence of the
replacement ends in an occurrence of the target, and one that starts before the place of the tweak
would have to end before it too, where the target does not occur.
-/

namespace WebIdl.Text

/-! ## The first occurrence -/

/-- In `before ++ target ++ after` the target does not occur further to the left. -/
def IsFirst (target before after : List Char) : Prop :=
  ∀ place < before.length, ¬ target <+: (before ++ target ++ after).drop place

theorem isFirst_nil (target after : List Char) : IsFirst target [] after :=
  fun place hplace => absurd hplace (Nat.not_lt_zero place)

theorem isFirst_cons_iff {target before after : List Char} {c : Char} :
    IsFirst target (c :: before) after ↔
      ¬ target <+: c :: (before ++ target ++ after) ∧ IsFirst target before after := by
  constructor
  · intro h
    refine ⟨h 0 (Nat.zero_lt_succ _), fun place hplace => ?_⟩
    exact h (place + 1) (Nat.succ_lt_succ hplace)
  · rintro ⟨hhead, htail⟩ place hplace
    cases place with
    | zero => exact hhead
    | succ place => exact htail place (Nat.lt_of_succ_lt_succ hplace)

/-- What `replaceFirst?` does: it cuts the text around the first occurrence. -/
theorem replaceFirst?_eq_some_iff {target replacement text result : List Char} :
    replaceFirst? target replacement text = some result ↔
      ∃ before after, text = before ++ target ++ after ∧
        result = before ++ replacement ++ after ∧ IsFirst target before after := by
  induction text generalizing result with
  | nil =>
      unfold replaceFirst?
      constructor
      · intro h
        split at h
        · rename_i hempty
          obtain rfl := List.isEmpty_iff.mp hempty
          obtain rfl := Option.some.inj h
          exact ⟨[], [], by simp, by simp, isFirst_nil _ _⟩
        · exact absurd h (by simp)
      · rintro ⟨before, after, htext, rfl, _⟩
        obtain ⟨rfl, rfl, rfl⟩ : before = [] ∧ target = [] ∧ after = [] := by
          simpa using htext.symm
        simp
  | cons c rest ih =>
      rw [replaceFirst?]
      -- the word stands here, or its first place is further on
      by_cases hfront : target <+: c :: rest
      · rw [if_pos (List.isPrefixOf_iff_prefix.mpr hfront)]
        obtain ⟨after, hafter⟩ := hfront
        constructor
        · intro h
          obtain rfl := Option.some.inj h
          refine ⟨[], after, hafter.symm, ?_, isFirst_nil _ _⟩
          rw [← hafter, List.drop_left, List.nil_append]
        · rintro ⟨before, rest', htext, rfl, hfirst⟩
          cases before with
          | nil => simp [htext]
          | cons d before =>
              obtain ⟨rfl, hrest⟩ := List.cons.inj htext
              rw [isFirst_cons_iff] at hfirst
              exact absurd ⟨after, hafter.trans htext⟩ hfirst.1
      · rw [if_neg (fun h => hfront (List.isPrefixOf_iff_prefix.mp h)),
          Option.map_eq_some_iff]
        constructor
        · rintro ⟨inner, hinner, rfl⟩
          obtain ⟨before, after, rfl, rfl, hfirst⟩ := ih.mp hinner
          exact ⟨c :: before, after, rfl, rfl, isFirst_cons_iff.mpr ⟨hfront, hfirst⟩⟩
        · rintro ⟨before, after, htext, rfl, hfirst⟩
          cases before with
          | nil => exact absurd ⟨after, htext.symm⟩ hfront
          | cons d before =>
              obtain ⟨rfl, rfl⟩ := List.cons.inj htext
              exact ⟨_, ih.mpr ⟨before, after, rfl, rfl, (isFirst_cons_iff.mp hfirst).2⟩, rfl⟩

theorem replaceFirst?_of_isFirst {target before after : List Char}
    (h : IsFirst target before after) (replacement : List Char) :
    replaceFirst? target replacement (before ++ target ++ after) =
      some (before ++ replacement ++ after) :=
  replaceFirst?_eq_some_iff.mpr ⟨before, after, rfl, rfl, h⟩

/-- Where the target occurs at all it has a first occurrence. -/
theorem exists_replaceFirst? {target text : List Char} (h : target <:+: text)
    (replacement : List Char) : ∃ result, replaceFirst? target replacement text = some result := by
  induction text with
  | nil =>
      obtain rfl := List.infix_nil.mp h
      exact ⟨replacement, rfl⟩
  | cons c rest ih =>
      rw [replaceFirst?]
      by_cases hfront : target <+: c :: rest
      · rw [if_pos (List.isPrefixOf_iff_prefix.mpr hfront)]
        exact ⟨_, rfl⟩
      · rw [if_neg (fun h => hfront (List.isPrefixOf_iff_prefix.mp h))]
        obtain ⟨result, hresult⟩ := ih ((List.infix_cons_iff.mp h).resolve_left hfront)
        exact ⟨c :: result, by rw [hresult, Option.map_some]⟩

/-! ## A lead in front of the target -/

/-- An occurrence shows its characters at the places behind its start. -/
theorem getElem?_of_prefix_drop {target text : List Char} {place offset : Nat}
    (h : target <+: text.drop place) (hoffset : offset < target.length) :
    text[place + offset]? = target[offset]? := by
  obtain ⟨rest, hrest⟩ := h
  rw [← List.getElem?_drop, ← hrest, List.getElem?_append_left hoffset]

/-- The first occurrence of the target stays the first one when a lead is put in front of it. -/
theorem IsFirst.lead {lead target before after : List Char} (hne : target ≠ [])
    (hlead : ∀ c ∈ lead, c ∉ target) (h : IsFirst target before after) :
    IsFirst (lead ++ target) before after := by
  intro place hplace hoccurs
  have hlength : 0 < target.length := List.length_pos_iff.mpr hne
  generalize htext : before ++ (lead ++ target) ++ after = text at hoccurs
  -- the occurrence of the replacement ends in one of the target
  have htarget : target <+: text.drop (place + lead.length) := by
    obtain ⟨rest, hrest⟩ := hoccurs
    rw [← List.drop_drop, ← hrest, List.append_assoc, List.drop_left]
    exact List.prefix_append _ _
  -- a place inside the lead cannot be covered by the target
  have hclear : ∀ offset < target.length, before.length ≤ place + lead.length + offset →
      before.length + lead.length ≤ place + lead.length + offset := by
    intro offset hoffset hle
    refine Nat.not_lt.mp fun hlt => ?_
    have hchar := getElem?_of_prefix_drop htarget hoffset
    rw [← htext, List.append_assoc, List.append_assoc, List.getElem?_append_right hle,
      List.getElem?_append_left (by omega), List.getElem?_eq_getElem (by omega),
      List.getElem?_eq_getElem hoffset, Option.some_inj] at hchar
    have hmem : target[offset] ∈ lead := hchar ▸ List.getElem_mem _
    exact hlead _ hmem (List.getElem_mem hoffset)
  rcases Nat.lt_or_ge (place + lead.length + (target.length - 1)) before.length with hlt | hge
  · -- the whole occurrence stands before the place of the tweak
    have hinside : place + lead.length + target.length ≤ before.length := by omega
    refine h (place + lead.length) (by omega) ?_
    have hcut : target <+: before.drop (place + lead.length) := by
      rw [← htext, List.append_assoc, List.drop_append_of_le_length (by omega)] at htarget
      exact List.prefix_of_prefix_length_le htarget (List.prefix_append _ _)
        (by rw [List.length_drop]; omega)
    rw [List.append_assoc, List.drop_append_of_le_length (by omega)]
    exact hcut.trans (List.prefix_append _ _)
  · -- the occurrence reaches the lead: walk back to its first place there
    rcases Nat.lt_or_ge (place + lead.length) before.length with hstart | hstart
    · have hback := hclear (before.length - (place + lead.length)) (by omega) (by omega)
      obtain rfl : lead = [] := List.length_eq_zero_iff.mp (by omega)
      exact h place hplace (htext ▸ hoccurs)
    · have hfirst := hclear 0 hlength (by omega)
      omega

end WebIdl.Text

namespace WebIdl.Tweak

/-- The replacement of the tweak puts a lead in front of its target, and the two have no character
in common. -/
def Leads (tweak : Tweak) : Prop :=
  tweak.target.toList ≠ [] ∧ ∃ lead, tweak.replacement.toList = lead ++ tweak.target.toList ∧
    ∀ c ∈ lead, c ∉ tweak.target.toList

theorem revert_of_substitute? {tweak : Tweak} (h : tweak.Leads) {text changed : String}
    (hchanged : tweak.substitute? text = some changed) : tweak.revert changed = text := by
  obtain ⟨hne, lead, hreplacement, hlead⟩ := h
  obtain ⟨result, hresult, rfl⟩ := Option.map_eq_some_iff.mp hchanged
  obtain ⟨before, after, htext, rfl, hfirst⟩ := Text.replaceFirst?_eq_some_iff.mp hresult
  have hback := Text.replaceFirst?_of_isFirst (hfirst.lead hne hlead) tweak.target.toList
  rw [← hreplacement] at hback
  rw [revert, String.toList_ofList, hback, ← htext]
  simp

/-- Where no tweak is applied the text stays as it is. -/
theorem applyAll_of_none {tweaks : List Tweak} {text : String} (h : (applyAll tweaks text).2 = []) :
    (applyAll tweaks text).1 = text := by
  induction tweaks with
  | nil => rfl
  | cons tweak rest ih =>
      rw [applyAll] at h ⊢
      cases hfound : tweak.substitute? text with
      | none =>
          rw [hfound] at h
          exact ih h
      | some changed => simp [hfound] at h

/-- Taking back all the tweaks that were applied gives the text as it was before. -/
theorem revertAll_applyAll {tweaks : List Tweak} (h : ∀ tweak ∈ tweaks, tweak.Leads)
    (text : String) : revertAll (applyAll tweaks text).2 (applyAll tweaks text).1 = text := by
  induction tweaks generalizing text with
  | nil => rfl
  | cons tweak rest ih =>
      have hrest := ih fun other hother => h other (List.mem_cons_of_mem _ hother)
      rw [applyAll]
      cases hchanged : tweak.substitute? text with
      | none => exact hrest text
      | some changed =>
          simp only [revertAll, List.foldr_cons] at hrest ⊢
          rw [hrest changed]
          exact revert_of_substitute? (h tweak (List.mem_cons_self ..)) hchanged

/-! ## A run over a row of tweaks -/

/-- A run over a row of tweaks, from the text it starts with to the text it ends with and the tweaks
that found their target.  A tweak whose target does not occur is passed over; any other one is put
in where its target occurs first. -/
inductive Applied : List Tweak → List Char → List Char → List Tweak → Prop
  | done (text : List Char) : Applied [] text text []
  | passed {tweak : Tweak} {rest : List Tweak} {text changed : List Char} {applied : List Tweak}
      (absent : ¬ tweak.target.toList <:+: text) (run : Applied rest text changed applied) :
      Applied (tweak :: rest) text changed applied
  | placed {tweak : Tweak} {rest : List Tweak} {before after changed : List Char}
      {applied : List Tweak} (first : Text.IsFirst tweak.target.toList before after)
      (run : Applied rest (before ++ tweak.replacement.toList ++ after) changed applied) :
      Applied (tweak :: rest) (before ++ tweak.target.toList ++ after) changed (tweak :: applied)

/-- A tweak finds nothing to replace just where its target does not occur. -/
theorem absent_of_substitute? {tweak : Tweak} {text : String}
    (h : tweak.substitute? text = none) : ¬ tweak.target.toList <:+: text.toList := by
  intro hoccurs
  obtain ⟨changed, hchanged⟩ := Text.exists_replaceFirst? hoccurs tweak.replacement.toList
  rw [substitute?, hchanged] at h
  exact absurd h (by simp)

theorem applied_applyAll (tweaks : List Tweak) (text : String) :
    Applied tweaks text.toList (applyAll tweaks text).1.toList (applyAll tweaks text).2 := by
  induction tweaks generalizing text with
  | nil => exact .done text.toList
  | cons tweak rest ih =>
      rw [applyAll]
      cases hchanged : tweak.substitute? text with
      | none => exact .passed (absent_of_substitute? hchanged) (ih text)
      | some changed =>
          obtain ⟨result, hresult, rfl⟩ := Option.map_eq_some_iff.mp hchanged
          obtain ⟨before, after, htext, rfl, hfirst⟩ := Text.replaceFirst?_eq_some_iff.mp hresult
          have hrun := ih (String.ofList (before ++ tweak.replacement.toList ++ after))
          rw [String.toList_ofList] at hrun
          rw [htext]
          exact .placed hfirst hrun

/-- Taking a run back.  The tweaks that were put in are taken back from the last one to the first,
each at the first occurrence of its replacement, and this leads back to the text the run started
with, whatever the tweaks before and after it did to the text in between. -/
theorem applied_and_revertAll {tweaks : List Tweak} (h : ∀ tweak ∈ tweaks, tweak.Leads)
    (text : String) :
    ∃ changed applied, applyAll tweaks text = (changed, applied) ∧
      Applied tweaks text.toList changed.toList applied ∧ revertAll applied changed = text :=
  ⟨_, _, rfl, applied_applyAll tweaks text, revertAll_applyAll h text⟩

/-- A row with a repeated target, targets that overlap one another, a target that only an earlier
tweak puts into a text, and one that occurs nowhere. -/
def overlapping : List Tweak :=
  [⟨"ab", "-ab"⟩, ⟨"ab", "-ab"⟩, ⟨"ba", "+ba"⟩, ⟨"-a", "b-a"⟩, ⟨"c", "dc"⟩]

theorem leads_of_mem_overlapping : ∀ tweak ∈ overlapping, tweak.Leads := by
  simp only [overlapping, List.forall_mem_cons, Leads]
  refine ⟨⟨by decide, ['-'], rfl, by simp⟩, ⟨by decide, ['-'], rfl, by simp⟩,
    ⟨by decide, ['+'], rfl, by simp⟩, ⟨by decide, ['b'], rfl, by simp⟩,
    ⟨by decide, ['d'], rfl, by simp⟩, by simp⟩

/-- The text holds a replacement from the start, to the right of where it is put in. -/
theorem applied_and_revertAll_overlapping :
    (∀ tweak ∈ overlapping, tweak.Leads) ∧
      applyAll overlapping "aba -ab" = ("-b-a+ba -ab", overlapping.take 4) ∧
      revertAll (overlapping.take 4) "-b-a+ba -ab" = "aba -ab" := by
  obtain ⟨changed, applied, hrun, -, hback⟩ :=
    applied_and_revertAll leads_of_mem_overlapping "aba -ab"
  have hvalue : applyAll overlapping "aba -ab" = ("-b-a+ba -ab", overlapping.take 4) := by
    decide +kernel
  obtain ⟨rfl, rfl⟩ := Prod.mk.inj (hrun.symm.trans hvalue)
  exact ⟨leads_of_mem_overlapping, hvalue, hback⟩

end WebIdl.Tweak
