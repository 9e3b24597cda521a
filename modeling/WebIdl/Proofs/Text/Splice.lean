import Mathlib.Data.List.Infix
import WebIdl.Proofs.Tweak

/-!
# Changing a piece of a text

When a piece of a text gives way to another one, a word may come to occur that did not occur before,
and one that occurred may be broken.  Neither happens where no occurrence of the word reaches over an
end of the piece, and that is seen from the two characters at the end: if they are not neighbours in
the word, the texts on both sides are `Apart`, and each is searched on its own.
-/

namespace WebIdl.Text

/-! ## Neighbours -/

/-- The pairs of characters that follow each other in a word. -/
def neighbours (word : List Char) : List (Char × Char) :=
  word.zip word.tail

/-- The characters where the two texts meet are not neighbours in the word. -/
def Apart (word front back : List Char) : Prop :=
  ∀ a ∈ front.getLast?, ∀ b ∈ back.head?, (a, b) ∉ neighbours word

theorem mem_neighbours {front back : List Char} {a b : Char} (ha : a ∈ front.getLast?)
    (hb : b ∈ back.head?) : (a, b) ∈ neighbours (front ++ back) := by
  induction front with
  | nil => cases ha
  | cons c front ih =>
      cases front with
      | nil =>
          obtain rfl : c = a := by simpa using ha
          cases back with
          | nil => cases hb
          | cons d back =>
              obtain rfl : d = b := by simpa using hb
              simp [neighbours]
      | cons d front =>
          have hrest := ih (by simpa using ha)
          simp only [neighbours, List.cons_append, List.tail_cons, List.zip_cons_cons] at hrest ⊢
          exact List.mem_cons_of_mem _ hrest

section

variable {word front back : List Char}

theorem Apart.append_right {other : List Char} (h : Apart word front back) (hne : back ≠ []) :
    Apart word front (back ++ other) := by
  intro a ha b hb
  refine h a ha b ?_
  rwa [List.head?_append_of_ne_nil _ hne] at hb

theorem Apart.of_append_right {other : List Char} (h : Apart word front (back ++ other)) :
    Apart word front back := by
  intro a ha b hb
  exact h a ha b (by rw [List.head?_append, hb]; rfl)

/-- What is apart in a word is apart in every part of it. -/
theorem Apart.of_neighbours {part : List Char} (h : Apart word front back)
    (hpart : neighbours part ⊆ neighbours word) : Apart part front back :=
  fun a ha b hb hmem => h a ha b hb (hpart hmem)

/-- A word occurs in one of two texts if it occurs in both together. -/
theorem infix_append_of_apart (h : Apart word front back) :
    word <:+: front ++ back ↔ word <:+: front ∨ word <:+: back := by
  constructor
  · intro hoccurs
    rw [List.infix_append_iff_ne_nil] at hoccurs
    rcases hoccurs with hfront | hback | ⟨left, right, hleft, hright, rfl, hsuffix, hprefix⟩
    · exact Or.inl hfront
    · exact Or.inr hback
    · exfalso
      obtain ⟨a, ha⟩ := Option.isSome_iff_exists.mp (List.getLast?_isSome.mpr hleft)
      obtain ⟨b, hb⟩ := Option.isSome_iff_exists.mp (List.isSome_head?.mpr hright)
      refine h a ?_ b ?_ (mem_neighbours ha hb)
      · obtain ⟨rest, rfl⟩ := hsuffix
        rwa [List.getLast?_append_of_ne_nil _ hleft]
      · obtain ⟨rest, rfl⟩ := hprefix
        rwa [List.head?_append_of_ne_nil _ hright]
  · rintro (hfront | hback)
    · exact List.infix_append_of_infix_left hfront
    · exact List.infix_append_of_infix_right hback

/-- A word that does not occur still does not occur when a piece without it is put in, apart from
what is around it. -/
theorem not_infix_splice {piece other : List Char} (hleft : Apart word front other)
    (hright : Apart word other back) (hne : other ≠ []) (hother : ¬ word <:+: other)
    (h : ¬ word <:+: front ++ piece ++ back) : ¬ word <:+: front ++ other ++ back := by
  rw [List.append_assoc, infix_append_of_apart (hleft.append_right hne),
    infix_append_of_apart hright]
  rintro (hoccurs | hoccurs | hoccurs)
  · exact h (List.infix_append_of_infix_left (List.infix_append_of_infix_left hoccurs))
  · exact hother hoccurs
  · exact h (List.infix_append_of_infix_right hoccurs)

/-- An occurrence of the word in a text stands before or behind a piece that it has to begin outside
of. -/
theorem occurrence_cases {piece left right : List Char} (hapart : Apart word front (piece ++ back))
    (hne : word ≠ []) (hpiece : ∀ c ∈ word.head?, c ∉ piece)
    (h : front ++ (piece ++ back) = left ++ (word ++ right)) :
    (∃ rest, front = left ++ (word ++ rest) ∧ right = rest ++ (piece ++ back)) ∨
      ∃ rest, left = front ++ (piece ++ rest) ∧ back = rest ++ (word ++ right) := by
  obtain ⟨first, hfirst⟩ := Option.isSome_iff_exists.mp (List.isSome_head?.mpr hne)
  have hhead : ∀ rest, (word ++ rest).head? = some first := by
    intro rest
    rw [List.head?_append_of_ne_nil _ hne, hfirst]
  -- an occurrence that begins behind the first text begins behind the piece
  have hbehind : ∀ rest, piece ++ back = rest ++ (word ++ right) →
      ∃ more, rest = piece ++ more ∧ back = more ++ (word ++ right) := by
    intro rest hrest
    rcases List.append_eq_append_iff.mp hrest with ⟨more, rfl, hback⟩ | ⟨more, rfl, hback⟩
    · exact ⟨more, rfl, hback⟩
    · cases more with
      | nil => exact ⟨[], by simp, by simpa using hback.symm⟩
      | cons c more =>
          obtain rfl : c = first := by simpa [hback] using hhead right
          exact absurd (by simp) (hpiece c hfirst)
  rcases List.append_eq_append_iff.mp h with ⟨rest, rfl, hrest⟩ | ⟨rest, rfl, hrest⟩
  · obtain ⟨more, rfl, hback⟩ := hbehind rest hrest
    exact Or.inr ⟨more, rfl, hback⟩
  · rcases List.append_eq_append_iff.mp hrest with ⟨more, rfl, hmore⟩ | ⟨more, hword, hmore⟩
    · exact Or.inl ⟨more, rfl, hmore⟩
    · -- the occurrence would reach over the end of the first text
      cases rest with
      | nil =>
          obtain ⟨more, hmore, hback⟩ := hbehind [] (by simpa using hrest.symm)
          obtain ⟨rfl, rfl⟩ : piece = [] ∧ more = [] := by simpa using hmore.symm
          exact Or.inr ⟨[], by simp, hback⟩
      | cons c rest =>
          cases more with
          | nil =>
              refine Or.inl ⟨[], by simpa using hword.symm, by simpa using hmore.symm⟩
          | cons d more =>
              obtain ⟨a, ha⟩ := Option.isSome_iff_exists.mp
                (List.getLast?_isSome.mpr (List.cons_ne_nil c rest))
              refine absurd (hword ▸ mem_neighbours ha (show d ∈ (d :: more).head? from rfl)) ?_
              refine hapart a ?_ d (by rw [hmore]; rfl)
              rwa [List.getLast?_append_of_ne_nil _ (List.cons_ne_nil c rest)]

/-! ## The first occurrence -/

theorem isFirst_iff_absent {before after : List Char} (hne : word ≠ []) :
    IsFirst word before after ↔ ¬ word <:+: before ++ word.dropLast := by
  have hlength : 0 < word.length := List.length_pos_iff.mpr hne
  constructor
  · rintro h ⟨left, right, hoccurs⟩
    have htotal := congrArg List.length hoccurs
    simp only [List.length_append, List.length_dropLast] at htotal
    refine h left.length (by omega) ?_
    -- the occurrence ends before the last character of the word
    have hlast : before ++ word ++ after =
        left ++ (word ++ (right ++ (word.getLast hne :: after))) := by
      calc before ++ word ++ after
          = before ++ (word.dropLast ++ [word.getLast hne]) ++ after := by
            rw [List.dropLast_append_getLast]
        _ = (before ++ word.dropLast) ++ (word.getLast hne :: after) := by simp
        _ = left ++ (word ++ (right ++ (word.getLast hne :: after))) := by
            rw [← hoccurs]
            simp
    rw [hlast, List.drop_left]
    exact List.prefix_append _ _
  · intro h place hplace hoccurs
    refine h ⟨before.take place, (before ++ word.dropLast).drop (place + word.length), ?_⟩
    have hshort : place + word.length ≤ (before ++ word.dropLast).length := by
      simp only [List.length_append, List.length_dropLast]
      omega
    have hprefix : word <+: (before ++ word.dropLast).drop place := by
      refine List.prefix_of_prefix_length_le hoccurs ?_ (by rw [List.length_drop]; omega)
      have hfront : before ++ word.dropLast <+: before ++ word ++ after := by
        refine List.IsPrefix.trans ?_ (List.prefix_append _ after)
        exact (List.prefix_append_right_inj before).mpr (List.dropLast_prefix word)
      exact List.IsPrefix.drop hfront place
    obtain ⟨rest, hrest⟩ := hprefix
    have hdrop : (before ++ word.dropLast).drop (place + word.length) = rest := by
      rw [← List.drop_drop, ← hrest, List.drop_left]
    rw [hdrop, List.append_assoc, hrest]
    have htake : before.take place = (before ++ word.dropLast).take place := by
      rw [List.take_append_of_le_length (by omega)]
    rw [htake, List.take_append_drop]

/-- An occurrence in the first of two texts is found there. -/
theorem replaceFirst?_append_left {replacement result : List Char}
    (h : replaceFirst? word replacement front = some result) :
    replaceFirst? word replacement (front ++ back) = some (result ++ back) := by
  obtain ⟨before, after, rfl, rfl, hfirst⟩ := replaceFirst?_eq_some_iff.mp h
  refine replaceFirst?_eq_some_iff.mpr ⟨before, after ++ back, by simp, by simp, ?_⟩
  by_cases hne : word = []
  · subst hne
    intro place hplace _
    exact hfirst place hplace (List.nil_prefix)
  · rw [isFirst_iff_absent hne] at hfirst ⊢
    exact hfirst

theorem replaceFirst?_eq_none_iff {replacement text : List Char} :
    replaceFirst? word replacement text = none ↔ ¬ word <:+: text := by
  induction text with
  | nil => simp [replaceFirst?]
  | cons c rest ih =>
      rw [replaceFirst?, List.infix_cons_iff, not_or]
      by_cases hfront : word <+: c :: rest
      · simp [List.isPrefixOf_iff_prefix.mpr hfront, hfront]
      · rw [if_neg (fun h => hfront (List.isPrefixOf_iff_prefix.mp h)), Option.map_eq_none_iff, ih]
        simp [hfront]

/-- A piece in which the word cannot begin is passed over. -/
theorem replaceFirst?_append_of_notMem {replacement piece : List Char} (hne : word ≠ [])
    (hpiece : ∀ c ∈ word.head?, c ∉ piece) :
    replaceFirst? word replacement (piece ++ back) =
      (replaceFirst? word replacement back).map (piece ++ ·) := by
  induction piece with
  | nil => simp
  | cons c piece ih =>
      have hnot : ¬ word <+: c :: (piece ++ back) := by
        intro hprefix
        cases word with
        | nil => exact hne rfl
        | cons d rest =>
            obtain ⟨rfl, -⟩ := List.cons_prefix_cons.mp hprefix
            exact hpiece d rfl List.mem_cons_self
      rw [List.cons_append, replaceFirst?, if_neg (fun h => hnot (List.isPrefixOf_iff_prefix.mp h)),
        ih fun d hd hmem => hpiece d hd (List.mem_cons_of_mem _ hmem), Option.map_map]
      rfl

/-- A word that does not occur in the first of two texts is looked for in the second. -/
theorem replaceFirst?_append_right {replacement : List Char} (hword : word ≠ [])
    (hapart : Apart word front back) (h : ¬ word <:+: front) :
    replaceFirst? word replacement (front ++ back) =
      (replaceFirst? word replacement back).map (front ++ ·) := by
  cases hback : replaceFirst? word replacement back with
  | none =>
      rw [Option.map_none, replaceFirst?_eq_none_iff, infix_append_of_apart hapart, not_or]
      exact ⟨h, replaceFirst?_eq_none_iff.mp hback⟩
  | some result =>
      obtain ⟨before, after, rfl, rfl, hfirst⟩ := replaceFirst?_eq_some_iff.mp hback
      refine replaceFirst?_eq_some_iff.mpr ⟨front ++ before, after, by simp, by simp, ?_⟩
      rw [isFirst_iff_absent hword] at hfirst ⊢
      -- the text in front of the last character of the occurrence begins as the second text does
      have hshort : Apart word front (before ++ word.dropLast) := by
        refine @Apart.of_append_right _ _ _ (word.getLast hword :: after) ?_
        have hsame : before ++ word ++ after =
            before ++ word.dropLast ++ (word.getLast hword :: after) := by
          calc before ++ word ++ after
              = before ++ (word.dropLast ++ [word.getLast hword]) ++ after := by
                rw [List.dropLast_append_getLast]
            _ = before ++ word.dropLast ++ (word.getLast hword :: after) := by simp
        rwa [← hsame]
      rw [List.append_assoc, infix_append_of_apart hshort, not_or]
      exact ⟨h, hfirst⟩

end

end WebIdl.Text
