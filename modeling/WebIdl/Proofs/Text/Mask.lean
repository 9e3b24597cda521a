import WebIdl.Proofs.Directive
import WebIdl.Proofs.Text.Splice

/-!
# Masks, character by character

Unmasking goes through a text from the left and has to know only whether it stands at the start of a
line (`unmaskFrom`).  So a text is unmasked piece by piece, where no mark of a masked line reaches
from one piece into the next.  That a text has no directives, too, is a matter of neighbours: no
newline is followed by `#`.
-/

namespace WebIdl.Directive

open WebIdl.Text

/-! ## Unmasking -/

/-- The mark of a masked line. -/
def mark : List Char :=
  ['/', '/', '#']

/-- Unmasks a text that begins at the start of a line, or inside one. -/
def unmaskFrom : Bool → List Char → List Char
  | true, '/' :: '/' :: '#' :: rest => '#' :: unmaskFrom false rest
  | _, c :: rest => c :: unmaskFrom (c == '\n') rest
  | _, [] => []

theorem unmaskFrom_false_cons (c : Char) (rest : List Char) :
    unmaskFrom false (c :: rest) = c :: unmaskFrom (c == '\n') rest := by
  rw [unmaskFrom]
  simp

theorem unmaskFrom_cons {c : Char} {rest : List Char} (h : ∀ tail, c :: rest ≠ mark ++ tail)
    (atStart : Bool) : unmaskFrom atStart (c :: rest) = c :: unmaskFrom (c == '\n') rest := by
  rw [unmaskFrom]
  rintro tail rfl rfl rfl
  exact h tail rfl

/-- The first piece of a text that goes on in its line. -/
theorem pieces_cons_eq {c : Char} {rest first : List Char} {others : List (List Char)}
    (hc : c ≠ '\n') (h : pieces '\n' (c :: rest) = first :: others) :
    ∃ tail, pieces '\n' rest = tail :: others ∧ first = c :: tail := by
  rw [pieces, if_neg hc] at h
  cases hrest : pieces '\n' rest with
  | nil => exact absurd hrest (pieces_ne_nil _ _)
  | cons tail more =>
      rw [hrest] at h
      obtain ⟨rfl, rfl⟩ := List.cons.inj h
      exact ⟨tail, rfl, rfl⟩

/-- A text begins with its first piece. -/
theorem prefix_of_pieces {text first : List Char} {others : List (List Char)}
    (h : pieces '\n' text = first :: others) : first <+: text := by
  have hjoin := joinPieces_pieces '\n' text
  rw [h] at hjoin
  rw [← hjoin]
  cases others with
  | nil => exact List.prefix_rfl
  | cons next more => exact List.prefix_append _ _

theorem joinPieces_cons_cons (c : Char) (first : List Char) (others : List (List Char)) :
    joinPieces '\n' ((c :: first) :: others) = c :: joinPieces '\n' (first :: others) := by
  cases others <;> rfl

/-- A text is unmasked line by line: all its lines, or all but the first. -/
theorem joinPieces_unmaskLine {text first : List Char} {others : List (List Char)}
    (h : pieces '\n' text = first :: others) :
    joinPieces '\n' (unmaskLine first :: others.map unmaskLine) = unmaskFrom true text ∧
      joinPieces '\n' (first :: others.map unmaskLine) = unmaskFrom false text := by
  induction text generalizing first others with
  | nil =>
      obtain ⟨rfl, rfl⟩ := List.cons.inj h
      exact ⟨rfl, rfl⟩
  | cons c rest ih =>
      by_cases hc : c = '\n'
      · subst hc
        rw [pieces, if_pos rfl] at h
        obtain ⟨rfl, rfl⟩ := List.cons.inj h
        cases hrest : pieces '\n' rest with
        | nil => exact absurd hrest (pieces_ne_nil _ _)
        | cons next more =>
            have hnext := (ih hrest).1
            rw [unmaskFrom_cons (by simp [mark]), unmaskFrom_false_cons]
            simp only [beq_self_eq_true, ← hnext, List.map_cons]
            exact ⟨rfl, rfl⟩
      · obtain ⟨tail, hrest, rfl⟩ := pieces_cons_eq hc h
        have hinside := (ih hrest).2
        have hflag : (c == '\n') = false := beq_eq_false_iff_ne.mpr hc
        refine ⟨?_, by rw [joinPieces_cons_cons, hinside, unmaskFrom_false_cons, hflag]⟩
        rcases restarts_unmaskLine.restarted (c :: tail) with
          ⟨more, hline, hunmask⟩ | ⟨hline, hunmask⟩
        · -- the mark is taken away, and none of it is a newline
          obtain ⟨rfl, rfl⟩ : c = '/' ∧ tail = '/' :: '#' :: more := List.cons.inj hline
          obtain ⟨back, rfl⟩ := prefix_of_pieces hrest
          simp only [List.cons_append, joinPieces_cons_cons, unmaskFrom_false_cons,
            List.cons.injEq, true_and] at hinside
          rw [hunmask, List.singleton_append, joinPieces_cons_cons, hinside]
          rfl
        · rw [hunmask, joinPieces_cons_cons, hinside, unmaskFrom_cons ?_, hflag]
          -- a text that begins with the mark has a first line that does
          intro back hback
          obtain ⟨rfl, rfl⟩ := List.cons.inj hback
          obtain ⟨second, hsecond, rfl⟩ := pieces_cons_eq (by decide) hrest
          obtain ⟨third, -, rfl⟩ := pieces_cons_eq (by decide) hsecond
          exact hline third rfl

theorem toList_unmask (text : String) : (unmask text).toList = unmaskFrom true text.toList := by
  obtain ⟨first, others, hpieces⟩ := List.exists_cons_of_ne_nil (pieces_ne_nil '\n' text.toList)
  rw [unmask, mapLines, String.toList_ofList, lines, hpieces]
  exact (joinPieces_unmaskLine hpieces).1

/-- Does the text end at the end of a line?  If it is empty, that depends on where it begins. -/
def endsLine : Bool → List Char → Bool
  | atStart, [] => atStart
  | _, c :: rest => endsLine (c == '\n') rest

theorem endsLine_append (atStart : Bool) (front back : List Char) :
    endsLine atStart (front ++ back) = endsLine (endsLine atStart front) back := by
  induction front generalizing atStart with
  | nil => rfl
  | cons c front ih => exact ih _

/-- Whether a text ends a line is seen from its last character. -/
theorem endsLine_eq (atStart : Bool) (text : List Char) :
    endsLine atStart text = (text.getLast?.map (· == '\n')).getD atStart := by
  rcases List.eq_nil_or_concat text with rfl | ⟨front, c, rfl⟩
  · rfl
  · rw [List.concat_eq_append, endsLine_append, List.getLast?_append]
    rfl

/-- Where no mark begins, it does not matter whether a line does. -/
theorem unmaskFrom_of_head {text : List Char} (h : ∀ c ∈ text.head?, c ≠ '/')
    (first second : Bool) : unmaskFrom first text = unmaskFrom second text := by
  cases text with
  | nil => simp [unmaskFrom]
  | cons c rest =>
      have hnot : ∀ tail, c :: rest ≠ mark ++ tail := by
        intro tail heq
        exact h c rfl (List.cons.inj heq).1
      rw [unmaskFrom_cons hnot, unmaskFrom_cons hnot]

/-- A text that holds no character of a mark stays as it is. -/
theorem unmaskFrom_plain {text : List Char} (h : ∀ c ∈ text, c ≠ '/' ∧ c ≠ '#') (atStart : Bool) :
    unmaskFrom atStart text = text := by
  induction text generalizing atStart with
  | nil => simp [unmaskFrom]
  | cons c text ih =>
      rw [unmaskFrom_cons, ih fun d hd => h d (List.mem_cons_of_mem _ hd)]
      intro tail heq
      exact (h c List.mem_cons_self).1 (List.cons.inj heq).1

theorem apart_mark_of_head {front back : List Char} (h : ∀ b ∈ back.head?, b ≠ '/' ∧ b ≠ '#') :
    Apart mark front back := by
  intro a _ b hb hmem
  have hpairs : ∀ pair ∈ neighbours mark, pair.2 = '/' ∨ pair.2 = '#' := by decide
  exact (hpairs _ hmem).elim (h b hb).1 (h b hb).2

theorem apart_mark_of_last {front back : List Char} (h : ∀ a ∈ front.getLast?, a ≠ '/') :
    Apart mark front back := by
  intro a ha b _ hmem
  have hpairs : ∀ pair ∈ neighbours mark, pair.1 = '/' := by decide
  exact h a ha (hpairs _ hmem)

/-- Two texts are unmasked one after the other, if no mark reaches from one into the next. -/
theorem unmaskFrom_append {front back : List Char} (h : Apart mark front back) (atStart : Bool) :
    unmaskFrom atStart (front ++ back) =
      unmaskFrom atStart front ++ unmaskFrom (endsLine atStart front) back := by
  fun_induction unmaskFrom atStart front with
  | case1 rest ih =>
      -- the texts meet at the same two characters
      have hrest : Apart mark rest back := by
        intro a ha b hb
        refine h a ?_ b hb
        cases rest with
        | nil => cases ha
        | cons d rest => simpa [List.getLast?_cons_cons] using ha
      rw [List.cons_append, List.cons_append, List.cons_append, unmaskFrom, ih hrest]
      rfl
  | case2 atStart c rest hnot ih =>
      have hrest : Apart mark rest back := by
        intro a ha b hb
        refine h a ?_ b hb
        cases rest with
        | nil => cases ha
        | cons d rest => simpa [List.getLast?_cons_cons] using ha
      rw [List.cons_append, unmaskFrom, ih hrest]
      · rfl
      · -- a mark that begins in the first text ends in it
        rintro tail rfl rfl hmark
        cases rest with
        | nil => exact h '/' rfl '/' (by rw [show back = _ from hmark]; rfl) (by decide)
        | cons d rest =>
            obtain ⟨rfl, hnext⟩ := List.cons.inj hmark
            cases rest with
            | nil => exact h '/' rfl '#' (by rw [show back = _ from hnext]; rfl) (by decide)
            | cons e rest =>
                obtain ⟨rfl, -⟩ := List.cons.inj hnext
                exact hnot rest rfl rfl rfl
  | case3 atStart => rfl

/-! ## Texts without directives -/

/-- The lines behind the first one are no directives if no newline is followed by `#`. -/
theorem forall_others_iff {text first : List Char} {others : List (List Char)}
    (h : pieces '\n' text = first :: others) :
    (∀ line ∈ others, ∀ rest, line ≠ '#' :: rest) ↔ ¬ ['\n', '#'] <:+: text := by
  induction text generalizing first others with
  | nil =>
      obtain ⟨rfl, rfl⟩ := List.cons.inj h
      simp
  | cons c rest ih =>
      rw [List.infix_cons_iff, not_or]
      -- a line ends here, or the first line goes on
      by_cases hc : c = '\n'
      · subst hc
        rw [pieces, if_pos rfl] at h
        obtain ⟨rfl, rfl⟩ := List.cons.inj h
        cases hrest : pieces '\n' rest with
        | nil => exact absurd hrest (pieces_ne_nil _ _)
        | cons next more =>
            rw [← ih hrest, List.forall_mem_cons]
            refine and_congr_left fun _ => ?_
            constructor
            · rintro hnext ⟨tail, htail⟩
              obtain rfl : '#' :: tail = rest := by simpa using htail
              obtain ⟨line, -, rfl⟩ := pieces_cons_eq (by decide) hrest
              exact hnext line rfl
            · rintro hnot tail rfl
              obtain ⟨back, rfl⟩ := prefix_of_pieces hrest
              exact hnot ⟨tail ++ back, rfl⟩
      · obtain ⟨tail, hrest, rfl⟩ := pieces_cons_eq hc h
        rw [ih hrest]
        refine ⟨fun hnot => ⟨?_, hnot⟩, And.right⟩
        rintro ⟨tail, htail⟩
        exact hc (List.cons.inj htail).1.symm

/-- A text has no directives if no newline, and not the start of the text, is followed by `#`. -/
theorem masked_iff {text : String} : Masked text ↔ ¬ ['\n', '#'] <:+: '\n' :: text.toList := by
  have hlines : pieces '\n' ('\n' :: text.toList) = [] :: lines text := by
    rw [pieces, if_pos rfl, lines]
  exact forall_others_iff hlines

end WebIdl.Directive
