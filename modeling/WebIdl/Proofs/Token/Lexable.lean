import Mathlib.Data.List.Chain
import WebIdl.Proofs.Token.Lexeme
import WebIdl.Proofs.Token.Lossless
import WebIdl.Proofs.Tree.Essence

/-!
# Tokens that can be read back

Which tokens a text is cut into is decided locally: by each token on its own, and by what follows it.
A list of tokens is `Lexable` if its tokens are lexemes behind trivia and each ends where the next one
begins.  The text of such a list is cut into these tokens again (`Lexable.stream_eq`), and what a text
has been cut into is such a list (`lexable_of_streamFrom`).
-/

namespace WebIdl

open WebIdl.Lexeme

/-! ## Trivia -/

namespace Lexeme

/-- The text begins with a lexeme, not with trivia. -/
def Begins (text : List Char) : Prop :=
  text ≠ [] ∧ trivia? text = none

theorem Begins.stops_isBlank {text : List Char} (h : Begins text) : Stops isBlank text := by
  cases text with
  | nil => exact stops_nil _
  | cons c text =>
      refine stops_cons.mpr ?_
      cases hc : isBlank c with
      | false => rfl
      | true =>
          have hnone := h.2
          simp [trivia?, run?, run, hc] at hnone

theorem IsLexeme.begins {kind : Token.Kind} {word : List Char} (h : IsLexeme kind word)
    (tail : List Char) : Begins (word ++ tail) := by
  obtain ⟨c, rest, rfl, hblank, hslash⟩ := h.head
  refine ⟨by simp, ?_⟩
  have hrun : run? isBlank (c :: rest ++ tail) = none := run?_eq_none (stops_cons.mpr hblank)
  have hcomment : comment? (c :: rest ++ tail) = none := by
    unfold comment?
    split
    · rename_i heq
      exact absurd (List.cons.inj heq).1 hslash
    · rename_i heq
      exact absurd (List.cons.inj heq).1 hslash
    · rfl
  rw [trivia?, hrun, hcomment]
  rfl

/-- The end of a comment shows where it ends. -/
theorem toCommentEnd?_append {text body rest : List Char}
    (h : toCommentEnd? text = some (body, rest)) (other : List Char) :
    toCommentEnd? (body ++ other) = some (body, other) := by
  fun_induction toCommentEnd? text generalizing body with
  | case1 rest =>
      obtain ⟨rfl, rfl⟩ := Prod.mk.inj (Option.some.inj h)
      rfl
  | case2 c text hnot ih =>
      obtain ⟨⟨inner, back⟩, hinner, heq⟩ := Option.map_eq_some_iff.mp h
      obtain ⟨rfl, rfl⟩ := Prod.mk.inj heq
      -- the slash of the end would have been seen before
      have hearly : ∀ later, c = '*' → inner ++ other = '/' :: later → False := by
        intro later hc hslash
        have hcut := toCommentEnd?_proper hinner
        cases inner with
        | nil => exact hcut.2 rfl
        | cons d inner =>
            obtain ⟨rfl, -⟩ := List.cons.inj hslash
            exact hnot _ hc hcut.1.symm
      show toCommentEnd? (c :: (inner ++ other)) = _
      rw [toCommentEnd?, ih hinner]
      · rfl
      · exact hearly
  | case3 => cases h

theorem toCommentEnd?_last {text body rest : List Char}
    (h : toCommentEnd? text = some (body, rest)) : ∃ front, body = front ++ ['/'] := by
  fun_induction toCommentEnd? text generalizing body with
  | case1 rest =>
      obtain ⟨rfl, rfl⟩ := Prod.mk.inj (Option.some.inj h)
      exact ⟨['*'], rfl⟩
  | case2 c text hnot ih =>
      obtain ⟨⟨inner, back⟩, hinner, heq⟩ := Option.map_eq_some_iff.mp h
      obtain ⟨rfl, rfl⟩ := Prod.mk.inj heq
      obtain ⟨front, rfl⟩ := ih hinner
      exact ⟨c :: front, rfl⟩
  | case3 => cases h

/-- A piece of trivia is cut off as before when the lexeme behind it changes. -/
theorem trivia?_append {blank front rest other : List Char}
    (h : trivia? (blank ++ (front ++ rest)) = some (blank, front ++ rest)) (hrest : Begins rest)
    (hother : Begins other) :
    trivia? (blank ++ (front ++ other)) = some (blank, front ++ other) := by
  simp only [trivia?, Option.orElse_eq_orElse, Option.orElse_eq_or, Option.or_eq_some_iff] at h ⊢
  rcases h with hblank | ⟨-, hcomment⟩
  · obtain ⟨-, hne, hall, hstops⟩ := run?_cases hblank
    refine Or.inl (run?_eq hne hall ?_)
    cases front with
    | nil => exact hother.stops_isBlank
    | cons c front => exact stops_cons.mpr (stops_cons.mp hstops)
  · refine Or.inr ?_
    generalize htext : blank ++ (front ++ rest) = text at hcomment
    unfold comment? at hcomment
    split at hcomment
    · rename_i text
      obtain ⟨body, back, hrun, -, hbody, hback⟩ := run_cases (· != '\n') text
      rw [hrun] at hcomment
      obtain ⟨rfl, rfl⟩ := Prod.mk.inj (Option.some.inj hcomment)
      refine ⟨run?_eq_none (stops_cons.mpr rfl), ?_⟩
      have hline : Stops (· != '\n') (front ++ other) := by
        cases front with
        | nil =>
            -- a newline cannot stand where a lexeme begins
            cases rest with
            | nil => exact absurd rfl hrest.1
            | cons c rest =>
                obtain rfl : c = '\n' := by simpa using stops_cons.mp hback
                cases stops_cons.mp hrest.stops_isBlank
        | cons c front =>
            intro d hd
            exact hback d (by simpa using hd)
      have hagain := run_eq hbody hline
      simp [Cut.after, comment?, hagain]
    · rename_i text
      obtain ⟨⟨body, back⟩, hbody, heq⟩ := Option.map_eq_some_iff.mp hcomment
      obtain ⟨rfl, rfl⟩ := Prod.mk.inj heq
      refine ⟨run?_eq_none (stops_cons.mpr rfl), ?_⟩
      have hagain := toCommentEnd?_append hbody (front ++ other)
      simp [Cut.after, comment?, hagain]
    · cases hcomment

end Lexeme

/-! ## Cutting a text, step by step -/

namespace Token

theorem Progress.skip_skip (progress : Progress) (first second : List Char) :
    (progress.skip first).skip second = progress.skip (first ++ second) := by
  simp [Progress.skip, Nat.add_assoc]

theorem Progress.skip_nil (progress : Progress) : progress.skip [] = progress := by
  simp [Progress.skip]

theorem streamFrom_of_trivia {progress : Progress} {text blank tail : List Char}
    (h : trivia? text = some (blank, tail)) :
    streamFrom progress text = streamFrom (progress.skip blank) tail := by
  cases text with
  | nil =>
      have hproper := (trivia?_proper h).rest_lt
      simp at hproper
  | cons c rest =>
      rw [streamFrom]
      split
      · rename_i hblank
        obtain ⟨rfl, rfl⟩ := Prod.mk.inj (Option.some.inj (h.symm.trans hblank))
        rfl
      · rename_i hnone
        cases h.symm.trans hnone

theorem streamFrom_of_scan {progress : Progress} {c : Char} {rest word tail : List Char}
    {kind : Kind} (hbegins : Begins (c :: rest)) (hscan : scan c rest = (kind, word, tail))
    (hallowed : (kind == .identifier && Keyword.reserved.contains (String.ofList word)) = false) :
    streamFrom progress (c :: rest) =
      (streamFrom (progress.next word) tail).map (progress.token kind word :: ·) := by
  rw [streamFrom]
  split
  · rename_i hblank
    cases hbegins.2.symm.trans hblank
  · split
    rename_i kind' word' tail' hscan'
    obtain ⟨rfl, heq⟩ := Prod.mk.inj (hscan.symm.trans hscan')
    obtain ⟨rfl, rfl⟩ := Prod.mk.inj heq
    rw [if_neg (by rw [hallowed]; simp)]

/-- The text is trivia that can stand before any lexeme. -/
structure Skips (text : List Char) : Prop where
  skip : ∀ (progress : Progress) (rest : List Char), Begins rest →
    streamFrom progress (text ++ rest) = streamFrom (progress.skip text) rest
  head : ∀ c ∈ text.head?, isBlank c = true ∨ c = '/'
  last : ∀ c ∈ text.getLast?, isBlank c = true ∨ c = '/'

/-- The text is trivia that can stand at the end. -/
structure Trails (text : List Char) : Prop where
  stream : ∀ progress : Progress,
    streamFrom progress text = .ok [(progress.skip text).token .eof []]
  head : ∀ c ∈ text.head?, isBlank c = true ∨ c = '/'

theorem skips_nil : Skips [] where
  skip progress rest _ := by rw [Progress.skip_nil, List.nil_append]
  head c hc := by cases hc
  last c hc := by cases hc

theorem head_of_trivia? {c : Char} {rest : List Char} {cut : Cut}
    (h : trivia? (c :: rest) = some cut) : isBlank c = true ∨ c = '/' := by
  by_contra hnot
  rw [not_or, Bool.not_eq_true] at hnot
  have hrun : run? isBlank (c :: rest) = none := run?_eq_none (stops_cons.mpr hnot.1)
  have hcomment : comment? (c :: rest) = none := by
    unfold comment?
    split
    · rename_i heq
      exact absurd (List.cons.inj heq).1 hnot.2
    · rename_i heq
      exact absurd (List.cons.inj heq).1 hnot.2
    · rfl
  rw [trivia?, hrun, hcomment] at h
  cases h

/-- Trivia before a lexeme ends with a blank or with the end of a comment: a comment that runs to the
end of its line is followed by the newline. -/
theorem last_of_trivia? {text blank tail : List Char} (h : trivia? text = some (blank, tail))
    (htail : Begins tail) : ∀ c ∈ blank.getLast?, isBlank c = true ∨ c = '/' := by
  intro c hc
  simp only [trivia?, Option.orElse_eq_orElse, Option.orElse_eq_or, Option.or_eq_some_iff] at h
  rcases h with hblank | ⟨-, hcomment⟩
  · obtain ⟨-, -, hall, -⟩ := run?_cases hblank
    exact Or.inl (hall c (List.mem_of_getLast? hc))
  · unfold comment? at hcomment
    split at hcomment
    · rename_i rest
      obtain ⟨body, back, hrun, -, -, hback⟩ := run_cases (· != '\n') rest
      rw [hrun] at hcomment
      obtain ⟨rfl, rfl⟩ := Prod.mk.inj (Option.some.inj hcomment)
      -- what follows is a newline, where no lexeme begins
      cases back with
      | nil => exact absurd rfl htail.1
      | cons d back =>
          obtain rfl : d = '\n' := by simpa using stops_cons.mp hback
          cases stops_cons.mp htail.stops_isBlank
    · obtain ⟨⟨body, back⟩, hbody, heq⟩ := Option.map_eq_some_iff.mp hcomment
      obtain ⟨rfl, rfl⟩ := Prod.mk.inj heq
      refine Or.inr ?_
      obtain ⟨front, rfl⟩ := toCommentEnd?_last hbody
      rw [← List.append_assoc, List.getLast?_append] at hc
      simpa using hc.symm
    · cases hcomment

/-- One blank is trivia. -/
theorem skips_blank {c : Char} (h : isBlank c = true) : Skips [c] where
  skip progress rest hrest := by
    refine streamFrom_of_trivia ?_
    have hrun : run? isBlank ([c] ++ rest) = some ([c], rest) :=
      run?_eq (by simp) (by simpa using h) hrest.stops_isBlank
    rw [trivia?, hrun]
    rfl
  head d hd := by
    obtain rfl : c = d := by simpa using hd
    exact Or.inl h
  last d hd := by
    obtain rfl : c = d := by simpa using hd
    exact Or.inl h

/-- A text that is cut into tokens is trivia only, or trivia, a lexeme, and a text that is cut into
the other tokens. -/
theorem streamFrom_cases {progress : Progress} {text : List Char} {tokens : List Token}
    (h : streamFrom progress text = .ok tokens) :
    (Trails text ∧ tokens = [(progress.skip text).token .eof []]) ∨
      ∃ blank c rest kind word tail others, text = blank ++ c :: rest ∧ Skips blank ∧
        Begins (c :: rest) ∧ scan c rest = (kind, word, tail) ∧
        (kind == .identifier && Keyword.reserved.contains (String.ofList word)) = false ∧
        streamFrom ((progress.skip blank).next word) tail = .ok others ∧
        tokens = (progress.skip blank).token kind word :: others := by
  fun_induction streamFrom progress text generalizing tokens with
  | case1 progress =>
      obtain rfl := Except.ok.inj h
      refine Or.inl ⟨⟨fun progress => ?_, fun c hc => by cases hc⟩, by rw [Progress.skip_nil]⟩
      rw [streamFrom, Progress.skip_nil]
  | case2 progress c rest blank tail htrivia hshorter ih =>
      have hcut : blank ++ tail = c :: rest := (trivia?_proper htrivia).1
      have hne : blank ≠ [] := (trivia?_proper htrivia).2
      have hhead (front : List Char) :
          ∀ d ∈ (blank ++ front).head?, isBlank d = true ∨ d = '/' := by
        intro d hd
        cases blank with
        | nil => exact absurd rfl hne
        | cons b blank =>
            obtain ⟨rfl, -⟩ := List.cons.inj hcut
            obtain rfl : b = d := by simpa using hd
            exact head_of_trivia? htrivia
      -- trivia in front of the rest goes with what the rest begins with
      rcases ih h with ⟨htrails, rfl⟩ | ⟨front, d, others, kind, word, back, found, rfl, hskips,
        hbegins, hscan, hallowed, hstream, rfl⟩
      · refine Or.inl ⟨⟨fun progress => ?_, ?_⟩, ?_⟩
        · rw [streamFrom_of_trivia htrivia, htrails.stream, Progress.skip_skip, hcut]
        · rw [← hcut]
          exact hhead tail
        · rw [Progress.skip_skip, hcut]
      · refine Or.inr ⟨blank ++ front, d, others, kind, word, back, found, ?_, ⟨?_, ?_, ?_⟩, hbegins,
          hscan, hallowed, ?_, ?_⟩
        · rw [← hcut, List.append_assoc]
        · intro progress rest hrest
          rw [← hcut] at htrivia
          rw [List.append_assoc, streamFrom_of_trivia (trivia?_append htrivia hbegins hrest),
            hskips.skip _ _ hrest, Progress.skip_skip]
        · exact hhead front
        · intro c hc
          cases front with
          | nil => exact last_of_trivia? htrivia hbegins c (by simpa using hc)
          | cons b front =>
              refine hskips.last c ?_
              rwa [List.getLast?_append_of_ne_nil _ (List.cons_ne_nil b front)] at hc
        · rwa [← Progress.skip_skip]
        · rw [← Progress.skip_skip]
  | case3 => cases h
  | case4 progress c rest htrivia kind word tail hscan hshorter hreserved ih =>
      cases hrest : streamFrom (progress.next word) tail with
      | error found => simp [hrest, Except.map] at h
      | ok others =>
          obtain rfl : progress.token kind word :: others = tokens := by
            simpa [hrest, Except.map] using h
          exact Or.inr ⟨[], c, rest, kind, word, tail, others, rfl, skips_nil,
            ⟨List.cons_ne_nil _ _, htrivia⟩, hscan, by simpa using hreserved,
            by rwa [Progress.skip_nil], by rw [Progress.skip_nil]⟩

/-! ## Tokens that can be read back -/

/-- The token is a lexeme behind trivia, and not one that no text may use. -/
structure Readable (token : Token) : Prop where
  trivia : Skips token.trivia.toList
  lexeme : IsLexeme token.kind token.text.toList
  allowed : (token.kind == .identifier && Keyword.reserved.contains token.text) = false

/-- The first token ends where the second one begins. -/
def Parted (token next : Token) : Prop :=
  Ends token.kind token.text.toList next.chars

/-- A mark or a string ends where any token begins. -/
theorem parted_of_closed {token next : Token}
    (hword : isWordLexeme token.kind token.text.toList = false)
    (hnumber : isNumberLexeme token.kind = false) : Parted token next where
  word h := by rw [hword] at h; cases h
  number h := by rw [hnumber] at h; cases h

end Token

/-- The tokens can be read back from their text. -/
structure Lexable (front : List Token) (last : Token) : Prop where
  readable : ∀ token ∈ front, token.Readable
  parted : (front ++ [last]).IsChain Token.Parted
  kind : last.kind = .eof
  text : last.text = ""
  trails : Token.Trails last.trivia.toList

/-- Trivia begins with a blank or a comment, also at the end of the text. -/
theorem Lexable.head_trivia {front : List Token} {last : Token} (h : Lexable front last)
    {token : Token} (htoken : token ∈ front ++ [last]) :
    ∀ c ∈ token.trivia.toList.head?, isBlank c = true ∨ c = '/' := by
  rcases List.mem_append.mp htoken with hfront | hlast
  · exact (h.readable token hfront).trivia.head
  · obtain rfl := List.mem_singleton.mp hlast
    exact h.trails.head

theorem Lexeme.stops_append {p : Char → Bool} {front back : List Char} (h : Stops p front)
    (hne : front ≠ [] ∨ back = []) : Stops p (front ++ back) := by
  cases front with
  | nil =>
      rw [hne.resolve_left (fun hnot => hnot rfl)]
      exact stops_nil p
  | cons c front => exact stops_cons.mpr (stops_cons.mp h)

theorem Lexeme.stops_of_append {p : Char → Bool} {front back : List Char}
    (h : Stops p (front ++ back)) : Stops p front := by
  cases front with
  | nil => exact stops_nil p
  | cons c front => exact stops_cons.mpr (stops_cons.mp h)

theorem Lexeme.Ends.append {kind : Token.Kind} {word front back : List Char}
    (h : Ends kind word front) (hne : front ≠ [] ∨ back = []) : Ends kind word (front ++ back) where
  word hword := stops_append (h.word hword) hne
  number hnumber := stops_append (h.number hnumber) hne

theorem Lexable.of_append {front back : List Token} {last : Token} (h : Lexable (front ++ back) last) :
    Lexable back last where
  readable token htoken := h.readable token (List.mem_append_right _ htoken)
  parted := by
    have hparted := h.parted
    rw [List.append_assoc] at hparted
    exact (List.isChain_append.mp hparted).2.1
  kind := h.kind
  text := h.text
  trails := h.trails

/-- A token ends where the text of the tokens behind it begins. -/
theorem Lexable.ends {token last : Token} {front : List Token} (h : Lexable (token :: front) last) :
    Lexeme.Ends token.kind token.text.toList (charsOf (front ++ [last])) := by
  obtain ⟨hnext, -⟩ := List.isChain_cons.mp h.parted
  cases front with
  | nil => simpa using (hnext last rfl).append (Or.inr rfl)
  | cons next front =>
      refine (hnext next rfl).append (Or.inl ?_)
      obtain ⟨c, rest, hchars, -, -⟩ := (h.readable next (by simp)).lexeme.head
      simp [Token.chars, hchars]

/-- What stands before a word does not end with a part of a word. -/
theorem Lexable.not_isWordPart_of_getLast? {before rest : List Token} {token last : Token}
    (h : Lexable (before ++ token :: rest) last) {c : Char}
    (hhead : token.text.toList.head? = some c) (hc : isWordPart c = true) :
    ∀ a ∈ (charsOf before ++ token.trivia.toList).getLast?, isWordPart a = false := by
  intro a ha
  have htoken : token.Readable := h.readable token (by simp)
  cases htrivia : token.trivia.toList with
  | cons d trivia =>
      rw [htrivia, List.getLast?_append_of_ne_nil _ (List.cons_ne_nil d trivia), ← htrivia] at ha
      rcases htoken.trivia.last a ha with hblank | rfl
      · simp only [isBlank, Bool.or_eq_true, beq_iff_eq] at hblank
        rcases hblank with ((rfl | rfl) | rfl) | rfl <;> decide
      · decide
  | nil =>
      rw [htrivia, List.append_nil] at ha
      rcases List.eq_nil_or_concat before with rfl | ⟨front, previous, rfl⟩
      · cases ha
      · rw [List.concat_eq_append] at h ha
        have hprevious : previous.Readable := h.readable previous (by simp)
        have hparted : Token.Parted previous token := by
          have hchain := h.parted
          simp only [List.append_assoc, List.cons_append, List.nil_append] at hchain
          exact (List.isChain_cons_cons.mp (List.isChain_append.mp hchain).2.1).1
        have hchars : token.chars.head? = some c := by rw [Token.chars, htrivia, List.nil_append, hhead]
        -- a word or a number would go on with the word
        have hword : isWordLexeme previous.kind previous.text.toList = false := by
          cases hcase : isWordLexeme previous.kind previous.text.toList with
          | false => rfl
          | true => rw [hparted.word hcase c hchars] at hc; cases hc
        have hnumber : isNumberLexeme previous.kind = false := by
          cases hcase : isNumberLexeme previous.kind with
          | false => rfl
          | true =>
              have hstop := hparted.number hcase c hchars
              rw [isNumberPart_of_isWordPart c hc] at hstop
              cases hstop
        obtain ⟨first, more, hmore, -, -⟩ := hprevious.lexeme.head
        refine hprevious.lexeme.last_of_closed hword hnumber a ?_
        have hne : previous.text.toList ≠ [] := by simp [hmore]
        rwa [charsOf_append, charsOf_cons, charsOf_nil, List.append_nil, Token.chars,
          ← List.append_assoc, List.getLast?_append_of_ne_nil _ hne] at ha

/-- The text of readable tokens is cut into these tokens. -/
theorem Lexable.streamFrom_eq {front : List Token} {last : Token} (h : Lexable front last)
    {progress : Token.Progress} (hprogress : progress.trivia = []) :
    ∃ tokens, Token.streamFrom progress (charsOf (front ++ [last])) = .ok tokens ∧
      tokens.map Token.essence = (front ++ [last]).map Token.essence := by
  -- token by token: each is read whole, since what follows does not go on with it
  induction front generalizing progress with
  | nil =>
      refine ⟨[(progress.skip last.trivia.toList).token .eof []], ?_, ?_⟩
      · simpa [Token.chars, h.text] using h.trails.stream progress
      · simp [Token.essence, Token.Progress.token, Token.Progress.skip, hprogress, h.kind, h.text]
  | cons token front ih =>
      have htoken := h.readable token List.mem_cons_self
      have hrest : Lexable front last := @Lexable.of_append [token] front last h
      have hends := h.ends
      obtain ⟨c, rest, hchars, -, -⟩ := htoken.lexeme.head
      have hcons : token.text.toList ++ charsOf (front ++ [last]) =
          c :: (rest ++ charsOf (front ++ [last])) := by
        rw [hchars]
        rfl
      have hbegins := htoken.lexeme.begins (charsOf (front ++ [last]))
      have hscan := scan_of_isLexeme htoken.lexeme hends hcons
      obtain ⟨others, hothers, hessence⟩ := ih hrest (show
        ((progress.skip token.trivia.toList).next token.text.toList).trivia = [] from rfl)
      refine ⟨(progress.skip token.trivia.toList).token token.kind token.text.toList :: others,
        ?_, ?_⟩
      · rw [List.cons_append, charsOf_cons, Token.chars, List.append_assoc,
          htoken.trivia.skip _ _ hbegins, hcons, Token.streamFrom_of_scan (hcons ▸ hbegins) hscan,
          hothers]
        · rfl
        · rw [String.ofList_toList]
          exact htoken.allowed
      · rw [List.cons_append, List.map_cons, List.map_cons, hessence]
        simp [Token.essence, Token.Progress.token, Token.Progress.skip, hprogress]

theorem Lexable.stream_eq {front : List Token} {last : Token} (h : Lexable front last) :
    ∃ tokens, Token.stream (textOf (front ++ [last])) = .ok tokens ∧
      tokens.map Token.essence = (front ++ [last]).map Token.essence := by
  rw [Token.stream, toList_textOf]
  exact h.streamFrom_eq rfl

/-- Trivia stops a number, and so does a lexeme that no number goes on with. -/
theorem stops_chars {token : Token}
    (htrivia : ∀ c ∈ token.trivia.toList.head?, isBlank c = true ∨ c = '/')
    (htext : Stops isNumberPart token.text.toList) : Stops isNumberPart token.chars := by
  rw [Token.chars]
  cases hchars : token.trivia.toList with
  | nil => exact htext
  | cons c rest =>
      refine stops_cons.mpr ?_
      rcases htrivia c (by simp [hchars]) with hblank | rfl
      · simp only [isBlank, Bool.or_eq_true, beq_iff_eq] at hblank
        rcases hblank with ((rfl | rfl) | rfl) | rfl <;> decide
      · decide

/-- What a text is cut into can be read back, if every character of it belongs to a lexeme and no
number is followed by more of a number. -/
theorem lexable_of_streamFrom {progress : Token.Progress} {text : List Char} {tokens : List Token}
    (hprogress : progress.trivia = []) (h : Token.streamFrom progress text = .ok tokens)
    (hknown : ∀ token ∈ tokens, token.kind ≠ .other)
    (hnumbers : tokens.IsChain fun token next =>
      isNumberLexeme token.kind = true → Stops isNumberPart next.text.toList) :
    ∃ front last, tokens = front ++ [last] ∧ Lexable front last := by
  -- on the tokens; what was read apart can be read apart again
  induction tokens generalizing progress text with
  | nil =>
      rcases Token.streamFrom_cases h with ⟨-, heq⟩ | ⟨_, _, _, _, _, _, _, _, _, _, _, _, _, heq⟩
      · cases heq
      · cases heq
  | cons token others ih =>
      rcases Token.streamFrom_cases h with ⟨htrails, heq⟩ | ⟨blank, c, rest, kind, word, tail, _, rfl,
        hskips, hbegins, hscan, hallowed, hstream, heq⟩
      · obtain ⟨rfl, rfl⟩ := List.cons.inj heq
        refine ⟨[], _, rfl, by simp, .singleton _, rfl, rfl, ?_⟩
        simpa [Token.Progress.token, Token.Progress.skip, hprogress] using htrails
      · obtain ⟨rfl, rfl⟩ := List.cons.inj heq
        obtain ⟨hnext, hchain⟩ := List.isChain_cons.mp hnumbers
        obtain ⟨front, last, rfl, hlexable⟩ := ih rfl hstream
          (fun other hother => hknown other (List.mem_cons_of_mem _ hother)) hchain
        obtain ⟨hlexeme, hstops⟩ := isLexeme_of_scan hscan (hknown _ List.mem_cons_self)
        have htail : charsOf (front ++ [last]) = tail := by
          simpa [Token.Progress.next] using Token.charsOf_streamFrom hstream
        refine ⟨_ :: front, last, rfl, ?_, ?_, hlexable.kind, hlexable.text, hlexable.trails⟩
        · intro other hother
          rcases List.mem_cons.mp hother with rfl | hother
          · refine ⟨?_, ?_, ?_⟩
            · simpa [Token.Progress.token, Token.Progress.skip, hprogress] using hskips
            · simpa [Token.Progress.token] using hlexeme
            · simpa [Token.Progress.token] using hallowed
          · exact hlexable.readable other hother
        · rw [List.cons_append, List.isChain_cons]
          refine ⟨fun next hmem => ⟨fun hword => ?_, fun hnumber => ?_⟩, hlexable.parted⟩
          · -- a word stopped where the text stopped going on with it
            have hrest : Stops isWordPart tail :=
              hstops (by simpa [Token.Progress.token] using hword)
            obtain ⟨more, hmore⟩ := List.head?_eq_some_iff.mp hmem
            rw [← htail, hmore, charsOf_cons] at hrest
            exact stops_of_append hrest
          · have hhead := hlexable.head_trivia (List.mem_of_mem_head? hmem)
            exact stops_chars hhead (hnext next hmem hnumber)

end WebIdl
