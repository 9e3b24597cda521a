import WebIdl.Proofs.Dialect.RoundTrip
import WebIdl.Proofs.Text.Mask

/-!
# Changing a piece of a parsed file

A file is written by taking back its tweaks and its masks.  When a piece of the parsed text gives way
to another one, both have to be taken back where they were put in, and nowhere else.  `Splice` says
what that asks of the two pieces and of the characters around them.  Then the same change is made to
the written text (`Splice.written`), and the changed text is what parsing makes of it
(`Stable.applyAll_eq`).
-/

namespace WebIdl

open WebIdl.Text WebIdl.Directive

namespace Dialect

/-- The tweak of the named dialects. -/
def bufferTweak : Tweak :=
  ⟨"SharedArrayBuffer", "// SharedArrayBuffer"⟩

/-- The word that is hidden in a comment. -/
def word : List Char :=
  bufferTweak.target.toList

/-- The word in its comment. -/
def hidden : List Char :=
  bufferTweak.replacement.toList

theorem tweaksFor_cases {dialect : Dialect} (h : dialect ∈ known) (sourceName : Option String) :
    dialect.tweaksFor sourceName = [] ∨ dialect.tweaksFor sourceName = [bufferTweak] := by
  unfold tweaksFor
  split
  · exact Or.inl rfl
  · exact Or.inl rfl
  · rename_i path _
    simp only [known, List.mem_cons, List.not_mem_nil, or_false] at h
    rcases h with rfl | rfl
    · simp only [gecko, List.lookup_cons, List.lookup_nil]
      split
      · exact Or.inr rfl
      · exact Or.inl rfl
    · exact Or.inl rfl

theorem word_ne_nil : word ≠ [] := by decide

theorem hidden_ne_nil : hidden ≠ [] := by decide

theorem neighbours_word_subset : neighbours word ⊆ neighbours hidden := by decide

/-- One piece of a text can give way to another one without touching tweaks and masks. -/
structure Splice (before piece other after : List Char) : Prop where
  ne_nil : other ≠ []
  piece_plain : ∀ c ∈ piece, c ≠ '/' ∧ c ≠ '#'
  other_plain : ∀ c ∈ other, c ≠ '/' ∧ c ≠ '#'
  fresh : ¬ word <:+: other
  apart_hidden : Apart hidden before (piece ++ after)
  apart_mark : Apart mark before (piece ++ after)
  left : Apart hidden before other
  right : Apart word other after
  line : (∀ c ∈ after.head?, c ≠ '/' ∧ c ≠ '#') ∨
    endsLine true (before ++ piece) = false ∧ endsLine true (before ++ other) = false

/-! ## Taking back tweaks -/

/-- What is left of a parsed text when its tweaks have been taken back. -/
def reverted (tweaks : List Tweak) (text : List Char) : List Char :=
  (Tweak.revertAll tweaks (String.ofList text)).toList

/-- What is written for a parsed text. -/
def written (tweaks : List Tweak) (text : List Char) : List Char :=
  unmaskFrom true (reverted tweaks text)

theorem toList_write (document : Document) :
    document.write.toList = written document.tweaks document.parsedText.toList := by
  rw [Document.write, toList_unmask, written, reverted, String.ofList_toList]

theorem reverted_nil (text : List Char) : reverted [] text = text := by
  simp [reverted, Tweak.revertAll]

theorem reverted_bufferTweak (text : List Char) :
    reverted [bufferTweak] text = (replaceFirst? hidden word text).getD text := by
  rw [reverted, Tweak.revertAll, List.foldr_cons, List.foldr_nil, Tweak.revert,
    String.toList_ofList]
  rw [show bufferTweak.replacement.toList = hidden from rfl,
    show bufferTweak.target.toList = word from rfl]
  cases replaceFirst? hidden word text <;> simp

/-- The text ends as before when its tweaks are taken back. -/
theorem getLast?_reverted {tweaks : List Tweak} (htweaks : tweaks = [] ∨ tweaks = [bufferTweak])
    (text : List Char) : (reverted tweaks text).getLast? = text.getLast? := by
  rcases htweaks with rfl | rfl
  · rw [reverted_nil]
  · rw [reverted_bufferTweak]
    cases hresult : replaceFirst? hidden word text with
    | none => rfl
    | some result =>
        obtain ⟨left, right, rfl, rfl, -⟩ := replaceFirst?_eq_some_iff.mp hresult
        rw [Option.getD_some]
        simp only [List.getLast?_append]
        rfl

namespace Splice

variable {before piece other after : List Char}

/-- Tweaks are taken back on the two sides of the piece. -/
theorem reverted (h : Splice before piece other after) {tweaks : List Tweak}
    (htweaks : tweaks = [] ∨ tweaks = [bufferTweak]) :
    ∃ rest, (rest.head? = after.head? ∨ after.head? = some '/' ∧ rest.head? = some 'S') ∧
      Dialect.reverted tweaks (before ++ (piece ++ after)) =
        Dialect.reverted tweaks before ++ (piece ++ rest) ∧
      Dialect.reverted tweaks (before ++ (other ++ after)) =
        Dialect.reverted tweaks before ++ (other ++ rest) := by
  rcases htweaks with rfl | rfl
  · exact ⟨after, Or.inl rfl, by simp [reverted_nil], by simp [reverted_nil]⟩
  · simp only [reverted_bufferTweak]
    -- the hidden word begins with a slash, so it does not begin inside either piece
    have hpass (text : List Char) (htext : ∀ c ∈ text, c ≠ '/' ∧ c ≠ '#') :
        ∀ c ∈ hidden.head?, c ∉ text := by
      intro c hc hmem
      obtain rfl : '/' = c := Option.some.inj hc
      exact (htext _ hmem).1 rfl
    -- it is replaced in front of the piece, behind it, or not at all
    cases hbefore : replaceFirst? hidden word before with
    | some result =>
        refine ⟨after, Or.inl rfl, ?_, ?_⟩
        · rw [replaceFirst?_append_left hbefore]
          rfl
        · rw [replaceFirst?_append_left hbefore]
          rfl
    | none =>
        have hnot := replaceFirst?_eq_none_iff.mp hbefore
        have hother := @Apart.append_right _ _ _ after h.left h.ne_nil
        rw [replaceFirst?_append_right hidden_ne_nil h.apart_hidden hnot,
          replaceFirst?_append_right hidden_ne_nil hother hnot,
          replaceFirst?_append_of_notMem hidden_ne_nil (hpass piece h.piece_plain),
          replaceFirst?_append_of_notMem hidden_ne_nil (hpass other h.other_plain)]
        cases hafter : replaceFirst? hidden word after with
        | none => exact ⟨after, Or.inl rfl, rfl, rfl⟩
        | some result =>
            refine ⟨result, ?_, rfl, rfl⟩
            obtain ⟨left, right, rfl, rfl, -⟩ := replaceFirst?_eq_some_iff.mp hafter
            cases left with
            | nil => exact Or.inr ⟨rfl, rfl⟩
            | cons c left => exact Or.inl rfl

/-- The same change is made to the written text. -/
theorem written (h : Splice before piece other after) {tweaks : List Tweak}
    (htweaks : tweaks = [] ∨ tweaks = [bufferTweak]) :
    ∃ rest,
      Dialect.written tweaks (before ++ (piece ++ after)) =
        Dialect.written tweaks before ++ (piece ++ rest) ∧
      Dialect.written tweaks (before ++ (other ++ after)) =
        Dialect.written tweaks before ++ (other ++ rest) := by
  obtain ⟨rest, hhead, hold, hnew⟩ := h.reverted htweaks
  have hlast := getLast?_reverted htweaks before
  simp only [Dialect.written, hold, hnew]
  generalize Dialect.reverted tweaks before = front at hlast
  -- the mark of a masked line does not reach over an end of a piece
  have hmark : Apart mark front (piece ++ rest) := by
    cases piece with
    | cons c piece =>
        refine apart_mark_of_head fun b hb => h.piece_plain b ?_
        obtain rfl : c = b := by simpa using hb
        exact List.mem_cons_self
    | nil =>
        rcases hhead with hsame | ⟨-, hS⟩
        · intro a ha b hb
          exact h.apart_mark a (by rwa [← hlast]) b (by rwa [List.nil_append, ← hsame])
        · refine apart_mark_of_head fun b hb => ?_
          obtain rfl : 'S' = b := by simpa [hS] using hb
          decide
  have hpiece : Apart mark piece rest :=
    apart_mark_of_last fun a ha => (h.piece_plain a (List.mem_of_getLast? ha)).1
  have hother : Apart mark other rest :=
    apart_mark_of_last fun a ha => (h.other_plain a (List.mem_of_getLast? ha)).1
  have hfront : Apart mark front other :=
    apart_mark_of_head fun b hb => h.other_plain b (List.mem_of_mem_head? hb)
  rw [unmaskFrom_append hmark, unmaskFrom_append hpiece, unmaskFrom_plain h.piece_plain,
    unmaskFrom_append (hfront.append_right h.ne_nil), unmaskFrom_append hother,
    unmaskFrom_plain h.other_plain]
  refine ⟨_, rfl, ?_⟩
  congr 2
  have hends (text : List Char) :
      endsLine (endsLine true front) text = endsLine true (before ++ text) := by
    rw [endsLine_append, endsLine_eq true front, endsLine_eq true before, hlast]
  rw [hends, hends]
  rcases h.line with hplain | ⟨hold, hnew⟩
  · refine unmaskFrom_of_head (fun c hc => ?_) _ _
    rcases hhead with hsame | ⟨hslash, -⟩
    · exact (hplain c (by rwa [← hsame])).1
    · exact absurd rfl (hplain '/' hslash).1
  · rw [hold, hnew]

end Splice

/-! ## Texts that have been parsed -/

/-- Of the tweaks that a source may need, these have been applied to the text, each at the first
place where its word stood. -/
inductive Tweaked : List Tweak → List Tweak → List Char → Prop where
  | none {text : List Char} : Tweaked [] [] text
  | absent {text : List Char} (h : ¬ word <:+: text) : Tweaked [bufferTweak] [] text
  | applied {left right : List Char} (h : ¬ word <:+: left ++ word.dropLast) :
      Tweaked [bufferTweak] [bufferTweak] (left ++ (hidden ++ right))

/-- The text is masked, and it is tweaked as far as it can be. -/
structure Stable (available applied : List Tweak) (text : List Char) : Prop where
  masked : ¬ ['\n', '#'] <:+: '\n' :: text
  tweaked : Tweaked available applied text

theorem Tweaked.applied_cases {available applied : List Tweak} {text : List Char}
    (h : Tweaked available applied text) : applied = [] ∨ applied = [bufferTweak] := by
  cases h with
  | none => exact Or.inl rfl
  | absent => exact Or.inl rfl
  | applied => exact Or.inr rfl

theorem hidden_eq : hidden = "// ".toList ++ word := by decide

/-- The word and its comment hold no newline and no `#`. -/
theorem apart_newline {front back : List Char} (piece : List Char)
    (hpiece : piece = word ∨ piece = hidden) :
    Apart ['\n', '#'] front piece ∧ Apart ['\n', '#'] piece back ∧ ¬ ['\n', '#'] <:+: piece := by
  have hplain : ∀ c ∈ piece, c ≠ '\n' ∧ c ≠ '#' := by
    have hall : piece.all (fun c => c != '\n' && c != '#') = true := by
      rcases hpiece with rfl | rfl <;> decide
    simpa using hall
  refine ⟨?_, ?_, ?_⟩
  · intro a _ b hb hmem
    obtain ⟨-, rfl⟩ : a = '\n' ∧ b = '#' := by simpa [neighbours] using hmem
    exact (hplain _ (List.mem_of_mem_head? hb)).2 rfl
  · intro a ha b _ hmem
    obtain ⟨rfl, -⟩ : a = '\n' ∧ b = '#' := by simpa [neighbours] using hmem
    exact (hplain _ (List.mem_of_getLast? ha)).1 rfl
  · intro hoccurs
    exact (hplain '#' (hoccurs.subset (by simp))).2 rfl

/-- Parsing begins with a text of this kind. -/
theorem stable_applyAll {dialect : Dialect} (h : dialect ∈ known) (sourceName : Option String)
    (text : String) :
    Stable (dialect.tweaksFor sourceName)
      (Tweak.applyAll (dialect.tweaksFor sourceName) (mask text)).2
      (Tweak.applyAll (dialect.tweaksFor sourceName) (mask text)).1.toList := by
  have hmasked := masked_iff.mp (masked_mask text)
  rcases tweaksFor_cases h sourceName with htweaks | htweaks
  · rw [htweaks]
    exact ⟨hmasked, .none⟩
  · rw [htweaks]
    unfold Tweak.applyAll
    cases hchanged : bufferTweak.substitute? (mask text) with
    | none =>
        rw [Tweak.substitute?, Option.map_eq_none_iff] at hchanged
        exact ⟨hmasked, .absent (replaceFirst?_eq_none_iff.mp hchanged)⟩
    | some changed =>
        obtain ⟨result, hresult, rfl⟩ := Option.map_eq_some_iff.mp hchanged
        obtain ⟨left, right, htext, rfl, hfirst⟩ := replaceFirst?_eq_some_iff.mp hresult
        simp only [Tweak.applyAll, String.toList_ofList, List.append_assoc]
        refine ⟨?_, .applied ((isFirst_iff_absent word_ne_nil).mp hfirst)⟩
        obtain ⟨hleft, hright, hfree⟩ := @apart_newline ('\n' :: left) right hidden (Or.inr rfl)
        rw [htext] at hmasked
        have hspliced := not_infix_splice hleft hright hidden_ne_nil hfree hmasked
        rw [List.cons_append, List.cons_append, List.append_assoc] at hspliced
        exact hspliced

namespace Stable

variable {available applied : List Tweak}

/-- A text of this kind is what parsing makes of the text that is written for it. -/
theorem applyAll_eq {text : String} (h : Stable available applied text.toList) :
    Tweak.applyAll available (mask (unmask (Tweak.revertAll applied text))) = (text, applied) := by
  obtain ⟨hmasked, htweaked⟩ := h
  have hplain : mask (unmask text) = text := mask_unmask_eq_iff.mpr (masked_iff.mpr hmasked)
  generalize hchars : text.toList = chars at hmasked htweaked
  cases htweaked with
  | none =>
      rw [Tweak.revertAll, List.foldr_nil, hplain]
      rfl
  | absent habsent =>
      rw [Tweak.revertAll, List.foldr_nil, hplain]
      have hsubstitute : bufferTweak.substitute? text = none := by
        rw [Tweak.substitute?, Option.map_eq_none_iff, hchars]
        exact replaceFirst?_eq_none_iff.mpr habsent
      simp [Tweak.applyAll, hsubstitute]
  | @applied left right hfirst =>
      have hword : IsFirst word left right := (isFirst_iff_absent word_ne_nil).mpr hfirst
      have hlead : ∀ c ∈ "// ".toList, c ∉ word := by
        simpa using (by decide : '/' ∉ word ∧ ' ' ∉ word)
      have hhidden : IsFirst hidden left right := hidden_eq ▸ hword.lead word_ne_nil hlead
      -- the word is put back in its place
      have hrevert : Tweak.revertAll [bufferTweak] text =
          String.ofList (left ++ word ++ right) := by
        have hback := replaceFirst?_of_isFirst hhidden word
        rw [Tweak.revertAll, List.foldr_cons, List.foldr_nil, Tweak.revert, hchars,
          ← List.append_assoc]
        rw [show bufferTweak.replacement.toList = hidden from rfl,
          show bufferTweak.target.toList = word from rfl, hback]
        rfl
      have hunmasked : mask (unmask (String.ofList (left ++ word ++ right))) =
          String.ofList (left ++ word ++ right) := by
        refine mask_unmask_eq_iff.mpr (masked_iff.mpr ?_)
        obtain ⟨hleft, hright, hfree⟩ := @apart_newline ('\n' :: left) right word (Or.inl rfl)
        rw [String.toList_ofList]
        refine @not_infix_splice _ _ _ hidden _ hleft hright word_ne_nil hfree ?_
        simpa using hmasked
      have hsubstitute : bufferTweak.substitute? (String.ofList (left ++ word ++ right)) =
          some text := by
        have hagain := replaceFirst?_of_isFirst hword hidden
        rw [Tweak.substitute?, String.toList_ofList]
        rw [show bufferTweak.replacement.toList = hidden from rfl,
          show bufferTweak.target.toList = word from rfl, hagain, List.append_assoc, ← hchars]
        simp
      rw [hrevert, hunmasked, Tweak.applyAll, hsubstitute]
      rfl

/-- A text of this kind stays one when a piece of it gives way to another. -/
theorem splice {before piece other after : List Char} (hsplice : Splice before piece other after)
    (h : Stable available applied (before ++ (piece ++ after))) :
    Stable available applied (before ++ (other ++ after)) := by
  obtain ⟨hmasked, htweaked⟩ := h
  have hleft : Apart word before other := hsplice.left.of_neighbours neighbours_word_subset
  refine ⟨?_, ?_⟩
  · rw [← List.append_assoc, ← List.cons_append, ← List.cons_append] at hmasked
    rw [← List.append_assoc, ← List.cons_append, ← List.cons_append]
    refine not_infix_splice ?_ ?_ hsplice.ne_nil ?_ hmasked
    · intro a _ b hb hmem
      obtain ⟨-, rfl⟩ : a = '\n' ∧ b = '#' := by simpa [neighbours] using hmem
      exact (hsplice.other_plain _ (List.mem_of_mem_head? hb)).2 rfl
    · intro a ha b hb hmem
      obtain ⟨rfl, rfl⟩ : a = '\n' ∧ b = '#' := by simpa [neighbours] using hmem
      rcases hsplice.line with hplain | ⟨-, hends⟩
      · exact (hplain _ hb).2 rfl
      · rw [endsLine_eq, List.getLast?_append_of_ne_nil _ hsplice.ne_nil, ha] at hends
        cases hends
    · intro hoccurs
      exact (hsplice.other_plain '#' (hoccurs.subset (by simp))).2 rfl
  · generalize htext : before ++ (piece ++ after) = text at htweaked
    cases htweaked with
    | none => exact .none
    | absent habsent =>
        refine .absent ?_
        rw [← htext, ← List.append_assoc] at habsent
        rw [← List.append_assoc]
        exact not_infix_splice hleft hsplice.right hsplice.ne_nil hsplice.fresh habsent
    | @applied left right hfirst =>
        have hhead : ∀ c ∈ hidden.head?, c ∉ piece := by
          intro c hc hmem
          obtain rfl : '/' = c := Option.some.inj hc
          exact (hsplice.piece_plain _ hmem).1 rfl
        rcases occurrence_cases hsplice.apart_hidden hidden_ne_nil hhead htext with
          ⟨rest, rfl, rfl⟩ | ⟨rest, rfl, rfl⟩
        · have hsame : left ++ (hidden ++ rest) ++ (other ++ after) =
              left ++ (hidden ++ (rest ++ (other ++ after))) := by simp
          rw [hsame]
          exact .applied hfirst
        · have hsame : before ++ (other ++ (rest ++ (hidden ++ right))) =
              before ++ (other ++ rest) ++ (hidden ++ right) := by simp
          rw [hsame]
          refine .applied ?_
          -- only the first character of the word is an `S`
          have hright : Apart word other (rest ++ word.dropLast) := by
            cases rest with
            | cons c rest => exact hsplice.right
            | nil =>
                intro a _ b hb hmem
                obtain rfl : 'S' = b := Option.some.inj hb
                have hpairs : ∀ pair ∈ neighbours word, pair.2 ≠ 'S' := by decide
                exact hpairs _ hmem rfl
          have hspliced := @not_infix_splice word before (rest ++ word.dropLast) piece other hleft
            hright hsplice.ne_nil hsplice.fresh (by simpa using hfirst)
          simpa using hspliced

end Stable

end Dialect

end WebIdl
