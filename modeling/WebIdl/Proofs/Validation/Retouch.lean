import WebIdl.Proofs.Dialect.Splice
import WebIdl.Proofs.Token.Lexable
import WebIdl.Proofs.Validation.Mends

/-!
# What repairs do to tokens

In the row of tokens of a document, a repair touches one token: it gives it another lexeme, or puts
other tokens before or behind it (`Retouches`).  The tokens can still be read back from their text
(`Retouches.lexable`): where the lexemes around the change meet, they end and begin as before, or with
a mark that belongs to no other lexeme.  And the change is one that touches no tweak and no mask
(`Retouches.splice`).
-/

namespace WebIdl

open WebIdl.Shape WebIdl.Lexeme WebIdl.Text WebIdl.Directive

/-! ## The tokens of repairs -/

namespace Repair

theorem tokens_emptyDictionary :
    emptyDictionary.tokens = [inline "=" " ", inline "\x7b" " ", inline "\x7d" ""] := by
  simp [emptyDictionary, Node.tokens, tokensOf]

theorem tokens_exposed (trivia : String) :
    (exposed trivia).tokens =
      [identifier "Exposed" trivia, inline "=" "", identifier "Window" ""] := by
  simp [exposed, Node.tokens, tokensOf]

theorem tokens_exposedList (trivia : String) :
    (exposedList trivia).tokens =
      [inline "[" trivia, identifier "Exposed" "", inline "=" "", identifier "Window" "",
        inline "]" ""] := by
  simp [exposedList, Node.tokens, tokensOf, exposed]

end Repair

/-- What is done to the text at a token: something is put before or behind its lexeme, or in place of
it. -/
structure Touch where
  isBehind : Bool
  replaces : Bool
  inserted : String
deriving DecidableEq, Repr

namespace Touch

/-- The characters of the token in front of the change. -/
def front (touch : Touch) (token : Token) : List Char :=
  token.trivia.toList ++ if touch.isBehind then token.text.toList else []

/-- The characters of the token that are replaced. -/
def piece (touch : Touch) (token : Token) : List Char :=
  if touch.replaces then token.text.toList else []

/-- The characters of the token behind the change. -/
def back (touch : Touch) (token : Token) : List Char :=
  if touch.isBehind || touch.replaces then [] else token.text.toList

/-- Puts a text in place of a lexeme. -/
def replace (text : String) : Touch where
  isBehind := false
  replaces := true
  inserted := text

/-- Puts a text behind a lexeme. -/
def append (text : String) : Touch where
  isBehind := true
  replaces := false
  inserted := text

/-- Puts a text before a lexeme. -/
def lead (text : String) : Touch where
  isBehind := false
  replaces := false
  inserted := text

end Touch

/-- The repair makes the tokens of the list out of the token, if the other list follows. -/
inductive Retouches : Repair → Token → List Token → List Token → Touch → Prop where
  | void {base : Token} {after : List Token} (hkind : base.kind = .inline)
      (htext : base.text = "void") :
      Retouches .replaceVoid base [{ base with text := "undefined" }] after (.replace "undefined")
  | rename {name : Token} {after : List Token} {former newName : String}
      (hkind : name.kind = .identifier)
      (hname : Rule.IsRenamed former newName (unescape name.text)) :
      Retouches (.rename newName) name [{ name with text := newName }] after (.replace newName)
  | default {name : Token} {after : List Token}
      (hname : Terminal.argumentName.accepts name = true) :
      Retouches .addDefault name (name :: Repair.emptyDictionary.tokens) after
        (.append " = \x7b\x7d")
  | join {last closing : Token} {after : List Token}
      (hclosing : (Terminal.word "]").accepts closing = true) :
      Retouches .addExposed last (last :: Repair.comma :: (Repair.exposed " ").tokens)
        (closing :: after) (.append ", Exposed=Window")
  | lead {base : Token} {after : List Token}
      (hbase : Terminal.accepts { words := ["interface", "namespace"] } base = true) :
      Retouches .addExposed base
        ((Repair.exposedList base.trivia).tokens ++ [{ base with trivia := "\n" }]) after
        (.lead "[Exposed=Window]\n")

/-! ## The token that is touched -/

/-- The last token of the last attribute of a list. -/
def Node.lastItemToken? (attributes : Node) : Option Token :=
  attributes.items.getLast?.bind fun item => item.tokens.getLast?

namespace Repair

/-- The token of a construct that a repair touches, and what it does there. -/
def aim? : Repair → Node → Option (Token × Touch)
  | .replaceVoid, node => (node.token? .base).map fun base => (base, .replace "undefined")
  | .rename newName, node => (node.token? .name).map fun name => (name, .replace newName)
  | .addDefault, node => (node.token? .name).map fun name => (name, .append " = \x7b\x7d")
  | .addExposed, node =>
    match (node.node? .attributes).bind Node.lastItemToken? with
    | some last => some (last, .append ", Exposed=Window")
    | none => (node.token? .base).map fun base => (base, .lead "[Exposed=Window]\n")

/-- The tokens that a repair makes out of the one that it touches. -/
def retouched (repair : Repair) (touch : Touch) (token : Token) : List Token :=
  match repair with
  | .replaceVoid => [{ token with text := "undefined" }]
  | .rename newName => [{ token with text := newName }]
  | .addDefault => token :: emptyDictionary.tokens
  | .addExposed =>
    if touch.isBehind then
      token :: comma :: (exposed " ").tokens
    else
      (exposedList token.trivia).tokens ++ [{ token with trivia := "\n" }]

/-- The lexemes that repairs put in. -/
def addedTexts : List String :=
  ["=", "\x7b", "\x7d", ",", "Exposed", "Window", "[", "]"]

end Repair

theorem Retouches.tokens_eq {repair : Repair} {token : Token} {tokens after : List Token}
    {touch : Touch} (h : Retouches repair token tokens after touch) :
    tokens = repair.retouched touch token := by
  cases h <;> rfl

/-- The keywords of the definitions that are exposed. -/
theorem text_of_keyword {base : Token}
    (h : Terminal.accepts { words := ["interface", "namespace"] } base = true) :
    base.text = "interface" ∨ base.text = "namespace" := by
  have haccepts : base.kind = .inline ∧ (base.text = "interface" ∨ base.text = "namespace") := by
    simpa [Terminal.accepts] using h
  exact haccepts.2

/-- A repair touches one token of the construct, the one that it aims at.  If that is the first token
of the construct, it does not look like one that repairs put in. -/
theorem Mends.retouches {repair : Repair} {old new : Node} (h : Mends repair old new)
    (after : List Token) :
    ∃ before token tokens back touch, old.tokens = before ++ token :: back ∧
      new.tokens = before ++ (tokens ++ back) ∧
      Retouches repair token tokens (back ++ after) touch ∧
      repair.aim? old = some (token, touch) ∧
      (before = [] → token.text ∉ Repair.addedTexts) := by
  -- each repair splits the tokens of the node at the one it goes for
  cases h with
  | @void label attributes base separator htype hkind htext =>
      refine ⟨attributes.tokens, base, _, separator.toList, _, ?_, ?_, .void hkind htext, ?_, ?_⟩
      · simp [Node.tokens, tokensOf]
      · simp [Node.tokens, tokensOf]
      · simp [Repair.aim?]
      · intro _
        rw [htext]
        decide
  | @rename label name rest newName hconstruct hkind former hname =>
      refine ⟨[], name, _, tokensOf rest, _, ?_, ?_, .rename hkind hname, ?_, ?_⟩
      · simp [Node.tokens, tokensOf]
      · simp [Node.tokens, tokensOf]
      · simp [Repair.aim?]
      · -- none of these is a name that has been changed, or one that it has been changed into
        intro _ hadded
        have hall : ∀ text ∈ Repair.addedTexts, ∀ pair ∈ Rule.legacyNames,
            unescape text ≠ pair.1 ∧ unescape text ≠ pair.2 := by decide
        obtain ⟨hformer, hnew⟩ := hall _ hadded _ hname.1
        exact hname.2.elim hformer hnew
  | @default label attributes type optional name separator hconstruct hname =>
      refine ⟨attributes.tokens ++ optional :: type.tokens, name, _, separator.toList, _, ?_, ?_,
        .default hname, ?_, ?_⟩
      · simp [Node.tokens, tokensOf]
      · simp [Node.tokens, tokensOf]
      · simp [Repair.aim?]
      · simp
  | @join label own opening closing front last rest hclosing hlast =>
      -- a new item is written behind the last token of the last item
      obtain ⟨tokens, token, hsplit⟩ := (List.eq_nil_or_concat last.tokens).resolve_left hlast
      rw [List.concat_eq_append] at hsplit
      refine ⟨opening :: (front.flatMap Node.tokens ++ tokens), token, _,
        closing :: tokensOf rest, _, ?_, ?_, .join hclosing, ?_, ?_⟩
      · simp [Node.tokens, tokensOf, hsplit]
      · simp [Node.tokens, tokensOf, hsplit]
      · simp [Repair.aim?, Node.lastItemToken?, Node.items, hsplit]
      · simp
  | @lead label own base rest hown hbase =>
      refine ⟨[], base, _, tokensOf rest, _, ?_, ?_, .lead hbase, ?_, ?_⟩
      · simp [Node.tokens, tokensOf]
      · simp [Node.tokens, tokensOf]
      · simp [Repair.aim?, Node.lastItemToken?, Node.items]
      · intro _
        rcases text_of_keyword hbase with htext | htext
        · rw [htext]
          decide
        · rw [htext]
          decide

namespace Retouches

variable {repair : Repair} {token : Token} {tokens after : List Token} {touch : Touch}

theorem chars_eq (h : Retouches repair token tokens after touch) :
    token.chars = touch.front token ++ (touch.piece token ++ touch.back token) ∧
      charsOf tokens =
        touch.front token ++ (touch.inserted.toList ++ touch.back token) := by
  cases h with
  | void hkind htext => simp [Token.chars, Touch.front, Touch.piece, Touch.back, Touch.replace]
  | rename hkind hname => simp [Token.chars, Touch.front, Touch.piece, Touch.back, Touch.replace]
  | default hname =>
      simp [Token.chars, Touch.front, Touch.piece, Touch.back, Touch.append,
        Repair.tokens_emptyDictionary, Repair.inline]
  | join hclosing =>
      simp [Token.chars, Touch.front, Touch.piece, Touch.back, Touch.append,
        Repair.tokens_exposed, Repair.comma, Repair.inline, Repair.identifier]
  | lead hbase =>
      simp [Token.chars, Touch.front, Touch.piece, Touch.back, Touch.lead,
        Repair.tokens_exposedList, Repair.inline, Repair.identifier]

end Retouches

/-! ## Lexemes that repairs put in -/

/-- Is the text, on its own, read as one lexeme of the kind? -/
def Lexeme.reads (kind : Token.Kind) (text : String) : Bool :=
  match text.toList with
  | [] => false
  | c :: rest => decide (kind ≠ .other ∧ scan c rest = (kind, c :: rest, []))

theorem isLexeme_of_reads {kind : Token.Kind} {text : String} (h : reads kind text = true) :
    IsLexeme kind text.toList := by
  unfold reads at h
  cases hchars : text.toList with
  | nil => rw [hchars] at h; cases h
  | cons c rest =>
      rw [hchars] at h
      obtain ⟨hkind, hscan⟩ := of_decide_eq_true h
      exact (isLexeme_of_scan hscan hkind).1

theorem readable_of_reads {token : Token} (h : reads token.kind token.text = true)
    (htrivia : Token.Skips token.trivia.toList)
    (hallowed : Keyword.reserved.contains token.text = false) : token.Readable where
  trivia := htrivia
  lexeme := isLexeme_of_reads h
  allowed := by rw [hallowed, Bool.and_false]

/-- New names of attributes are identifiers. -/
theorem reads_newName {former newName : String} (h : (former, newName) ∈ Rule.legacyNames) :
    reads .identifier newName = true ∧ Keyword.reserved.contains newName = false := by
  have hall : ∀ pair ∈ Rule.legacyNames,
      reads .identifier pair.2 = true ∧ Keyword.reserved.contains pair.2 = false := by decide
  exact hall _ h

namespace Token

/-- Any token ends where a blank or a mark begins. -/
theorem parted_of_head {token next : Token} {c : Char} (hhead : next.chars.head? = some c)
    (hc : isNumberPart c = false) : Parted token next where
  word _ := by
    intro d hd
    obtain rfl : c = d := Option.some.inj (hhead.symm.trans hd)
    cases hword : isWordPart c with
    | false => rfl
    | true => rw [isNumberPart_of_isWordPart c hword] at hc; cases hc
  number _ := by
    intro d hd
    obtain rfl : c = d := Option.some.inj (hhead.symm.trans hd)
    exact hc

/-- What ends where a word begins ends where anything else takes the place of the word. -/
theorem Parted.of_trivia {token next other : Token} (h : Parted token next)
    (htrivia : other.trivia = next.trivia) {c : Char} (hhead : next.text.toList.head? = some c)
    (hc : isWordPart c = true) : Parted token other := by
  cases hchars : next.trivia.toList with
  | nil =>
      have hnext : next.chars.head? = some c := by
        rw [Token.chars, hchars, List.nil_append, hhead]
      refine parted_of_closed ?_ ?_
      · cases hword : isWordLexeme token.kind token.text.toList with
        | false => rfl
        | true => rw [h.word hword c hnext] at hc; cases hc
      · cases hnumber : isNumberLexeme token.kind with
        | false => rfl
        | true =>
            have hstop := h.number hnumber c hnext
            rw [isNumberPart_of_isWordPart c hc] at hstop
            cases hstop
  | cons d rest =>
      have hsame : other.chars.head? = next.chars.head? := by
        simp [Token.chars, htrivia, hchars]
      exact ⟨fun hword e he => h.word hword e (by rwa [← hsame]),
        fun hnumber e he => h.number hnumber e (by rwa [← hsame])⟩

end Token

theorem isChain_splice {R : Token → Token → Prop} {before tokens after : List Token} {token : Token}
    (h : (before ++ token :: after).IsChain R) (htokens : tokens.IsChain R) (hne : tokens ≠ [])
    (hfirst : ∀ previous, R previous token → ∀ first ∈ tokens.head?, R previous first)
    (hlast : ∀ next ∈ after.head?, R token next → ∀ last ∈ tokens.getLast?, R last next) :
    (before ++ (tokens ++ after)).IsChain R := by
  obtain ⟨hbefore, hrest, hmeet⟩ := List.isChain_append.mp h
  obtain ⟨hnext, hafter⟩ := List.isChain_cons.mp hrest
  refine List.isChain_append.mpr ⟨hbefore, List.isChain_append.mpr ⟨htokens, hafter, ?_⟩, ?_⟩
  · intro last hmem next hnextmem
    exact hlast next hnextmem (hnext next hnextmem) last hmem
  · intro previous hprevious first hmem
    rw [List.head?_append_of_ne_nil _ hne] at hmem
    exact hfirst previous (hmeet previous hprevious token rfl) first hmem

namespace Retouches

variable {repair : Repair} {token last : Token} {before tokens rest : List Token} {touch : Touch}

/-- A word begins with a part of a word. -/
theorem isWordPart_of_head {word : List Char} (h : IsWord word) :
    ∃ c, word.head? = some c ∧ isWordPart c = true := by
  cases word with
  | nil =>
      obtain ⟨sign, c, rest, hnil, -⟩ := h
      simp at hnil
  | cons c rest => exact ⟨c, rfl, h.all c List.mem_cons_self⟩

theorem isWord_of_isLexeme {kind : Token.Kind} {word : List Char} (h : IsLexeme kind word)
    (hword : isWordLexeme kind word = true) : IsWord word := by
  cases h with
  | identifier hshape _ => exact hshape
  | keyword hshape _ => exact hshape
  | mark hshape => rw [not_isWordLexeme_of_isPunctuation hshape] at hword; cases hword
  | _ => cases hword

/-- The keyword of a definition that is exposed begins with a letter. -/
theorem head_base {base : Token}
    (h : Terminal.accepts { words := ["interface", "namespace"] } base = true) :
    ∃ c, base.text.toList.head? = some c ∧ (c = 'i' ∨ c = 'n') := by
  rcases text_of_keyword h with htext | htext
  · exact ⟨'i', by rw [htext]; rfl, Or.inl rfl⟩
  · exact ⟨'n', by rw [htext]; rfl, Or.inr rfl⟩

/-- A bracket and the trivia before it begin with a blank, a comment or the bracket. -/
theorem head_closing {closing : Token} (h : (Terminal.word "]").accepts closing = true)
    (htrivia : ∀ c ∈ closing.trivia.toList.head?, Lexeme.isBlank c = true ∨ c = '/') :
    ∃ c, closing.chars.head? = some c ∧ (Lexeme.isBlank c = true ∨ c = '/' ∨ c = ']') := by
  have haccepts : closing.kind = .inline ∧ closing.text = "]" := by
    simpa [Terminal.word, Terminal.accepts] using h
  have htext := haccepts.2
  rw [Token.chars, htext]
  cases hchars : closing.trivia.toList with
  | nil => exact ⟨']', rfl, Or.inr (Or.inr rfl)⟩
  | cons c rest =>
      refine ⟨c, rfl, ?_⟩
      rcases htrivia c (by rw [hchars]; rfl) with hblank | hslash
      · exact Or.inl hblank
      · exact Or.inr (Or.inl hslash)

theorem isNumberPart_of_isBlank {c : Char} (h : Lexeme.isBlank c = true) : isNumberPart c = false := by
  simp only [Lexeme.isBlank, Bool.or_eq_true, beq_iff_eq] at h
  rcases h with ((rfl | rfl) | rfl) | rfl <;> decide

end Retouches

/-- The tokens can stand in place of the token, with the others behind them: each is a lexeme, and they
part from each other and from their neighbours as the token did. -/
structure StandsIn (token : Token) (tokens after : List Token) : Prop where
  readable : ∀ other ∈ tokens, other.Readable
  parted : tokens.IsChain Token.Parted
  ne_nil : tokens ≠ []
  first : ∀ previous, Token.Parted previous token → ∀ first ∈ tokens.head?,
    Token.Parted previous first
  last : ∀ next ∈ after.head?, Token.Parted token next → ∀ final ∈ tokens.getLast?,
    Token.Parted final next

section

variable {token last : Token} {before tokens rest after : List Token}

theorem StandsIn.lexable (h : StandsIn token tokens (rest ++ [last]))
    (hlexable : Lexable (before ++ token :: rest) last) :
    Lexable (before ++ (tokens ++ rest)) last := by
  refine ⟨fun other hother => ?_, ?_, hlexable.kind, hlexable.text, hlexable.trails⟩
  · simp only [List.mem_append] at hother
    rcases hother with hother | hother | hother
    · exact hlexable.readable other (by simp [hother])
    · exact h.readable other hother
    · exact hlexable.readable other (by simp [hother])
  · have hparted := hlexable.parted
    simp only [List.append_assoc, List.cons_append] at hparted ⊢
    exact isChain_splice hparted h.parted h.ne_nil h.first h.last

/-- A word stands in for a word of its kind. -/
theorem standsIn_word {text : String} (htoken : token.Readable)
    (hword : isWordLexeme token.kind token.text.toList = true)
    (hreads : reads token.kind text = true) (hallowed : Keyword.reserved.contains text = false) :
    StandsIn token [{ token with text }] after where
  readable other hother := by
    obtain rfl := List.mem_singleton.mp hother
    exact readable_of_reads hreads htoken.trivia hallowed
  parted := .singleton _
  ne_nil := by simp
  first previous hparted first hfirst := by
    obtain rfl := Option.some.inj hfirst
    obtain ⟨c, hc, hpart⟩ :=
      Retouches.isWordPart_of_head (Retouches.isWord_of_isLexeme htoken.lexeme hword)
    exact hparted.of_trivia rfl hc hpart
  last next _ hparted final hfinal := by
    obtain rfl := Option.some.inj hfinal
    exact ⟨fun _ => hparted.word hword, fun hnumber => hparted.number hnumber⟩

/-- The token stays, and others are put behind it. -/
theorem standsIn_behind {added : List Token} (htoken : token.Readable)
    (hadded : ∀ other ∈ added, other.Readable) (hparted : (token :: added).IsChain Token.Parted)
    (hlast : ∀ next ∈ after.head?, ∀ final ∈ (token :: added).getLast?, Token.Parted final next) :
    StandsIn token (token :: added) after where
  readable := List.forall_mem_cons.mpr ⟨htoken, hadded⟩
  parted := hparted
  ne_nil := by simp
  first previous hprevious first hfirst := by
    obtain rfl := Option.some.inj hfirst
    exact hprevious
  last next hnext _ final hfinal := hlast next hnext final hfinal

/-- A default value is put behind the name of an argument. -/
theorem standsIn_default (htoken : token.Readable) :
    StandsIn token (token :: Repair.emptyDictionary.tokens) after := by
  have hblank : Token.Skips [' '] := Token.skips_blank (by decide)
  rw [Repair.tokens_emptyDictionary]
  refine standsIn_behind htoken ?_ ?_ ?_
  · simp only [List.forall_mem_cons, List.not_mem_nil, false_implies,
      implies_true, and_true]
    refine ⟨?_, ?_, ?_⟩
    · exact readable_of_reads (by decide) hblank (by decide)
    · exact readable_of_reads (by decide) hblank (by decide)
    · exact readable_of_reads (by decide) Token.skips_nil (by decide)
  · simp only [List.isChain_cons_cons, List.isChain_singleton, and_true]
    refine ⟨?_, ?_, ?_⟩
    · exact Token.parted_of_head (c := ' ') rfl (by decide)
    · exact Token.parted_of_head (c := ' ') rfl (by decide)
    · exact Token.parted_of_head (c := '\x7d') rfl (by decide)
  · -- a brace ends where anything begins
    intro next _ final hfinal
    obtain rfl : Repair.inline "\x7d" "" = final := by simpa using hfinal
    exact Token.parted_of_closed (by decide) (by decide)

/-- An attribute is put behind the last one of a list, which a bracket closes. -/
theorem standsIn_join {closing : Token} (htoken : token.Readable)
    (hclosing : (Terminal.word "]").accepts closing = true)
    (htrivia : ∀ c ∈ closing.trivia.toList.head?, Lexeme.isBlank c = true ∨ c = '/') :
    StandsIn token (token :: Repair.comma :: (Repair.exposed " ").tokens) (closing :: after) := by
  have hblank : Token.Skips [' '] := Token.skips_blank (by decide)
  rw [Repair.tokens_exposed]
  refine standsIn_behind htoken ?_ ?_ ?_
  · simp only [List.forall_mem_cons, List.not_mem_nil, false_implies,
      implies_true, and_true]
    refine ⟨?_, ?_, ?_, ?_⟩
    · exact readable_of_reads (by decide) Token.skips_nil (by decide)
    · exact readable_of_reads (by decide) hblank (by decide)
    · exact readable_of_reads (by decide) Token.skips_nil (by decide)
    · exact readable_of_reads (by decide) Token.skips_nil (by decide)
  · simp only [List.isChain_cons_cons, List.isChain_singleton, and_true]
    refine ⟨?_, ?_, ?_, ?_⟩
    · exact Token.parted_of_head (c := ',') rfl (by decide)
    · exact Token.parted_of_head (c := ' ') rfl (by decide)
    · exact Token.parted_of_head (c := '=') rfl (by decide)
    · exact Token.parted_of_closed (by decide) (by decide)
  · -- the word that is put in last meets the bracket or the trivia before it
    intro next hnext final hfinal
    obtain rfl : Repair.identifier "Window" "" = final := by simpa using hfinal
    obtain rfl : closing = next := by simpa using hnext
    obtain ⟨c, hc, hcases⟩ := Retouches.head_closing hclosing htrivia
    refine Token.parted_of_head hc ?_
    rcases hcases with hblank | rfl | rfl
    · exact Retouches.isNumberPart_of_isBlank hblank
    · decide
    · decide

/-- A list of attributes takes the place of a keyword, which moves to a line of its own. -/
theorem standsIn_lead (htoken : token.Readable)
    (hbase : Terminal.accepts { words := ["interface", "namespace"] } token = true) :
    StandsIn token
      ((Repair.exposedList token.trivia).tokens ++ [{ token with trivia := "\n" }]) after := by
  have hnewline : Token.Skips "\n".toList := by
    simpa using Token.skips_blank (by decide : Lexeme.isBlank '\n' = true)
  have hbracket : isWordLexeme .inline "[".toList = false := by decide
  rw [Repair.tokens_exposedList]
  refine ⟨?_, ?_, by simp, ?_, ?_⟩
  · simp only [List.cons_append, List.nil_append, List.forall_mem_cons, List.not_mem_nil, false_implies,
      implies_true, and_true]
    refine ⟨?_, ?_, ?_, ?_, ?_, hnewline, htoken.lexeme, htoken.allowed⟩
    · exact readable_of_reads (by decide : reads .inline "[" = true) htoken.trivia
        (by decide : Keyword.reserved.contains "[" = false)
    · exact readable_of_reads (by decide) Token.skips_nil (by decide)
    · exact readable_of_reads (by decide) Token.skips_nil (by decide)
    · exact readable_of_reads (by decide) Token.skips_nil (by decide)
    · exact readable_of_reads (by decide) Token.skips_nil (by decide)
  · simp only [List.cons_append, List.nil_append, List.isChain_cons_cons, List.isChain_singleton,
      and_true]
    refine ⟨?_, ?_, ?_, ?_, ?_⟩
    · exact Token.parted_of_closed hbracket rfl
    · exact Token.parted_of_head (c := '=') rfl (by decide)
    · exact Token.parted_of_closed (by decide) (by decide)
    · exact Token.parted_of_head (c := ']') rfl (by decide)
    · exact Token.parted_of_closed (by decide) (by decide)
  · -- the bracket stands behind the trivia of the keyword, where a word was parted from what is before
    intro previous hparted first hfirst
    obtain rfl := Option.some.inj hfirst
    obtain ⟨c, hc, hletter⟩ := Retouches.head_base hbase
    exact hparted.of_trivia rfl hc (by rcases hletter with rfl | rfl <;> decide)
  · intro next _ hparted final hfinal
    obtain rfl : _ = final := by simpa using hfinal
    exact ⟨hparted.word, hparted.number⟩

end

namespace Retouches

variable {repair : Repair} {token last : Token} {before tokens rest : List Token} {touch : Touch}

/-- The tokens can be read back, as the token in their place could. -/
theorem lexable (h : Retouches repair token tokens (rest ++ [last]) touch)
    (hlexable : Lexable (before ++ token :: rest) last) :
    Lexable (before ++ (tokens ++ rest)) last := by
  have htoken : token.Readable := hlexable.readable token (by simp)
  refine StandsIn.lexable ?_ hlexable
  generalize hafter : rest ++ [last] = after at h
  cases h with
  | void hkind htext =>
      refine standsIn_word htoken ?_ ?_ rfl
      · rw [hkind, htext]
        decide
      · rw [hkind]
        decide
  | rename hkind hname =>
      obtain ⟨hreads, hallowed⟩ := reads_newName hname.1
      refine standsIn_word htoken ?_ ?_ hallowed
      · rw [hkind]
        rfl
      · rwa [hkind]
  | default hname => exact standsIn_default htoken
  | @join _ closing after hclosing =>
      have hmem : closing ∈ before ++ token :: rest ++ [last] := by
        rw [List.append_assoc, List.cons_append, hafter]
        simp
      exact standsIn_join htoken hclosing (hlexable.head_trivia hmem)
  | lead hbase => exact standsIn_lead htoken hbase

/-! ## The text of the tokens -/

theorem endsLine_eq_false {front back : List Char} {c : Char} (hlast : back.getLast? = some c)
    (hc : c ≠ '\n') : endsLine true (front ++ back) = false := by
  have hne : back ≠ [] := by
    rintro rfl
    cases hlast
  rw [endsLine_eq, List.getLast?_append_of_ne_nil _ hne, hlast]
  simpa using hc

/-- Does the text begin with a character that no other one comes before in the hidden word? -/
def beginsApart (text : String) : Bool :=
  text.toList.head?.all fun c => (neighbours Dialect.hidden).all (·.2 != c)

theorem notMem_neighbours_of_beginsApart {text : String} (h : beginsApart text = true) :
    ∀ c ∈ text.toList.head?, ∀ pair ∈ neighbours Dialect.hidden, pair.2 ≠ c := by
  intro c hc pair hpair
  rw [beginsApart, Option.mem_def.mp hc] at h
  simpa using List.all_eq_true.mp h pair hpair

/-- A text without the characters of masks. -/
theorem plain_of_all {chars : List Char} (h : chars.all (fun c => c != '/' && c != '#') = true) :
    ∀ c ∈ chars, c ≠ '/' ∧ c ≠ '#' := by
  simpa using h

/-- One word gives way to another. -/
theorem splice_word {front piece other after : List Char} (hpiece : IsWord piece)
    (hother : IsWord other) (hfresh : ¬ Dialect.word <:+: other)
    (hfirst : ∀ c ∈ piece.head?, ∀ pair ∈ neighbours Dialect.hidden, pair.2 ≠ c)
    (hleft : Apart Dialect.hidden front other) (hafter : Stops isWordPart after) :
    Dialect.Splice front piece other after := by
  -- a word has neither a slash nor a hash, and ends no line
  have hplain {word : List Char} (hword : IsWord word) : ∀ c ∈ word, c ≠ '/' ∧ c ≠ '#' := by
    intro c hc
    have hpart := hword.all c hc
    constructor
    · rintro rfl
      revert hpart
      decide
    · rintro rfl
      revert hpart
      decide
  have hends {word : List Char} (hword : IsWord word) : endsLine true (front ++ word) = false := by
    obtain ⟨c, hc, -⟩ := isWordPart_of_head hword
    have hne : word ≠ [] := by
      rintro rfl
      cases hc
    obtain ⟨d, hd⟩ := Option.isSome_iff_exists.mp (List.getLast?_isSome.mpr hne)
    refine endsLine_eq_false hd ?_
    rintro rfl
    have hpart := hword.all _ (List.mem_of_getLast? hd)
    revert hpart
    decide
  obtain ⟨first, hhead, -⟩ := isWordPart_of_head hpiece
  have hhead_append : (piece ++ after).head? = some first := by
    rw [List.head?_append, hhead]
    rfl
  refine {
    ne_nil := ?_
    piece_plain := hplain hpiece
    other_plain := hplain hother
    fresh := hfresh
    apart_hidden := ?_
    apart_mark := ?_
    left := hleft
    right := ?_
    line := Or.inr ⟨hends hpiece, hends hother⟩ }
  · rintro rfl
    obtain ⟨c, hc, -⟩ := isWordPart_of_head hother
    cases hc
  · intro a _ b hb hmem
    rw [hhead_append] at hb
    obtain rfl := Option.some.inj hb
    exact hfirst first hhead _ hmem rfl
  · refine apart_mark_of_head fun b hb => ?_
    rw [hhead_append] at hb
    obtain rfl := Option.some.inj hb
    exact hplain hpiece first (List.mem_of_mem_head? hhead)
  · -- all of the hidden word are parts of words
    intro a _ b hb hmem
    have hpairs : ∀ pair ∈ neighbours Dialect.word, isWordPart pair.2 = true := by decide
    have hpart := hpairs _ hmem
    rw [hafter b hb] at hpart
    cases hpart

/-- Something is put behind a lexeme. -/
theorem splice_append {front after : List Char} {text : String}
    (htext : text = " = \x7b\x7d" ∨ text = ", Exposed=Window") {a : Char}
    (hlast : front.getLast? = some a) (ha : Lexeme.isBlank a = false ∧ a ≠ '/')
    (hafter : Apart Dialect.hidden front after) :
    Dialect.Splice front [] text.toList after := by
  -- the text is put in behind a token, not behind trivia
  have hnewline : a ≠ '\n' := by
    rintro rfl
    cases ha.1
  have hends : endsLine true (front ++ text.toList) = false := by
    rcases htext with rfl | rfl
    · exact endsLine_eq_false (c := '\x7d') (by decide) (by decide)
    · exact endsLine_eq_false (c := 'w') (by decide) (by decide)
  refine {
    ne_nil := ?_
    piece_plain := by simp
    other_plain := ?_
    fresh := ?_
    apart_hidden := hafter
    apart_mark := ?_
    left := ?_
    right := ?_
    line := Or.inr ⟨?_, hends⟩ }
  · rcases htext with rfl | rfl <;> decide
  · rcases htext with rfl | rfl <;> exact plain_of_all (by decide)
  · rcases htext with rfl | rfl <;> decide
  · refine apart_mark_of_last fun b hb => ?_
    obtain rfl := Option.some.inj (hlast.symm.trans hb)
    exact ha.2
  · -- only a slash stands before a blank of the hidden word, and nothing before a comma
    intro b hb c hc hmem
    obtain rfl := Option.some.inj (hlast.symm.trans hb)
    have hpairs : ∀ pair ∈ neighbours Dialect.hidden, pair.2 = c → pair.1 = '/' := by
      rcases htext with rfl | rfl
      · obtain rfl : ' ' = c := Option.some.inj hc
        decide
      · obtain rfl : ',' = c := Option.some.inj hc
        decide
    exact ha.2 (hpairs _ hmem rfl)
  · intro b hb c _ hmem
    have hpairs : ∀ pair ∈ neighbours Dialect.word, pair.1 ≠ '\x7d' ∧ pair.1 ≠ 'w' := by decide
    rcases htext with rfl | rfl
    · obtain rfl : '\x7d' = b := Option.some.inj hb
      exact (hpairs _ hmem).1 rfl
    · obtain rfl : 'w' = b := Option.some.inj hb
      exact (hpairs _ hmem).2 rfl
  · have hsame := @endsLine_eq_false [] front a hlast hnewline
    simpa using hsame

/-- No name that is changed begins as the hidden word goes on. -/
theorem notMem_neighbours_of_name {former newName text : String}
    (h : Rule.IsRenamed former newName (unescape text)) {c : Char}
    (hc : c ∈ text.toList.head?) : ∀ pair ∈ neighbours Dialect.hidden, pair.2 ≠ c := by
  unfold unescape at h
  split at h
  · rename_i rest heq
    obtain rfl : '_' = c := by simpa [heq] using hc
    decide
  · have hall : ∀ names ∈ Rule.legacyNames, ∀ name ∈ [names.1, names.2],
        beginsApart name = true := by decide
    exact notMem_neighbours_of_beginsApart (hall _ h.1 text (by simpa using h.2)) c hc

/-- The word `undefined` takes the place of `void`. -/
theorem splice_void {front after : List Char}
    (hfront : ∀ a ∈ front.getLast?, isWordPart a = false) (hafter : Stops isWordPart after) :
    Dialect.Splice front "void".toList "undefined".toList after := by
  have hvoid : IsWord "void".toList :=
    isWord_of_isLexeme (isLexeme_of_reads (by decide : reads .inline "void" = true)) (by decide)
  have hundefined : IsWord "undefined".toList :=
    isWord_of_isLexeme (isLexeme_of_reads (by decide : reads .inline "undefined" = true)) (by decide)
  refine splice_word hvoid hundefined (by decide)
    (notMem_neighbours_of_beginsApart (by decide : beginsApart "void" = true)) ?_ hafter
  -- before the `u` of the hidden word there is a part of a word
  intro a ha b hb hmem
  obtain rfl : 'u' = b := Option.some.inj hb
  have hpairs : ∀ pair ∈ neighbours Dialect.hidden, pair.2 = 'u' → isWordPart pair.1 = true := by
    decide
  have hpart := hpairs _ hmem rfl
  rw [hfront a ha] at hpart
  cases hpart

/-- The new name of an attribute takes the place of the former one. -/
theorem splice_rename {front after : List Char} {former newName text : String}
    (hname : Rule.IsRenamed former newName (unescape text)) (htext : IsWord text.toList)
    (hafter : Stops isWordPart after) :
    Dialect.Splice front text.toList newName.toList after := by
  have hnew : IsWord newName.toList :=
    isWord_of_isLexeme (isLexeme_of_reads (reads_newName hname.1).1) rfl
  refine splice_word htext hnew ?_ (fun c hc => notMem_neighbours_of_name hname hc) ?_ hafter
  · have hall : ∀ pair ∈ Rule.legacyNames, ¬ Dialect.word <:+: pair.2.toList := by decide
    exact hall _ hname.1
  · intro a _ b hb hmem
    have hall : ∀ names ∈ Rule.legacyNames, beginsApart names.2 = true := by decide
    exact notMem_neighbours_of_beginsApart (hall _ hname.1) b hb _ hmem rfl

/-- In the hidden word, a part of a word is followed by another. -/
theorem apart_hidden_of_word {front after : List Char} {a : Char} (hlast : front.getLast? = some a)
    (ha : isWordPart a = true) (hafter : Stops isWordPart after) :
    Apart Dialect.hidden front after := by
  intro b hb c hc hmem
  obtain rfl := Option.some.inj (hlast.symm.trans hb)
  have hpairs : ∀ pair ∈ neighbours Dialect.hidden, isWordPart pair.1 = true →
      isWordPart pair.2 = true := by decide
  have hpart := hpairs _ hmem ha
  rw [hafter c hc] at hpart
  cases hpart

/-- Only a slash stands before a blank or a slash of the hidden word. -/
theorem apart_hidden_of_closing {front after : List Char} {a : Char}
    (hlast : front.getLast? = some a) (ha : a ≠ '/')
    (hafter : ∀ c ∈ after.head?, Lexeme.isBlank c = true ∨ c = '/' ∨ c = ']') :
    Apart Dialect.hidden front after := by
  intro b hb c hc hmem
  obtain rfl := Option.some.inj (hlast.symm.trans hb)
  have hpairs : ∀ pair ∈ neighbours Dialect.hidden, pair.1 ≠ '/' →
      Lexeme.isBlank pair.2 = false ∧ pair.2 ≠ '/' ∧ pair.2 ≠ ']' := by decide
  obtain ⟨hblank, hslash, hbracket⟩ := hpairs _ hmem ha
  rcases hafter c hc with hcase | hcase | hcase
  · rw [hcase] at hblank
    cases hblank
  · exact hslash hcase
  · exact hbracket hcase

/-- A list of attributes is put before the keyword of a definition. -/
theorem splice_lead {front after : List Char} {c : Char} (hafter : after.head? = some c)
    (hletter : c = 'i' ∨ c = 'n') :
    Dialect.Splice front [] "[Exposed=Window]\n".toList after := by
  have hplain : c ≠ '/' ∧ c ≠ '#' := by rcases hletter with rfl | rfl <;> decide
  -- the text ends its own line, and a keyword follows
  refine {
    ne_nil := by decide
    piece_plain := by simp
    other_plain := plain_of_all (by decide)
    fresh := by decide
    apart_hidden := ?_
    apart_mark := ?_
    left := ?_
    right := ?_
    line := Or.inl ?_ }
  · intro a _ b hb hmem
    obtain rfl := Option.some.inj (hafter.symm.trans hb)
    have hpairs : ∀ pair ∈ neighbours Dialect.hidden, pair.2 ≠ 'i' ∧ pair.2 ≠ 'n' := by decide
    exact hletter.elim (hpairs _ hmem).1 (hpairs _ hmem).2
  · refine apart_mark_of_head fun b hb => ?_
    obtain rfl := Option.some.inj (hafter.symm.trans hb)
    exact hplain
  · intro a _ b hb hmem
    obtain rfl : '[' = b := Option.some.inj hb
    have hpairs : ∀ pair ∈ neighbours Dialect.hidden, pair.2 ≠ '[' := by decide
    exact hpairs _ hmem rfl
  · intro a ha b _ hmem
    obtain rfl : '\n' = a := Option.some.inj ha
    have hpairs : ∀ pair ∈ neighbours Dialect.word, pair.1 ≠ '\n' := by decide
    exact hpairs _ hmem rfl
  · intro b hb
    obtain rfl := Option.some.inj (hafter.symm.trans hb)
    exact hplain

/-- The name of an argument is a word. -/
theorem isWordLexeme_of_argumentName {name : Token}
    (h : Terminal.argumentName.accepts name = true) :
    isWordLexeme name.kind name.text.toList = true := by
  have haccepts : name.kind = .identifier ∨
      name.kind = .inline ∧ name.text ∈ Keyword.argumentNames := by
    simpa [Terminal.argumentName, Terminal.accepts] using h
  rcases haccepts with hkind | ⟨hkind, htext⟩
  · rw [hkind]
    rfl
  · have hall : ∀ word ∈ Keyword.argumentNames, isWordLexeme .inline word.toList = true := by
      decide
    rw [hkind]
    exact hall _ htext

theorem last_text {token : Token} (h : token.Readable) : ∃ a, token.text.toList.getLast? = some a := by
  obtain ⟨c, rest, hchars, -, -⟩ := h.lexeme.head
  exact Option.isSome_iff_exists.mp (List.getLast?_isSome.mpr (by simp [hchars]))

theorem getLast?_front (front : List Char) (text : String) {token : Token} {a : Char}
    (h : token.text.toList.getLast? = some a) :
    (front ++ (Touch.append text).front token).getLast? = some a := by
  have hne : token.text.toList ≠ [] := by
    intro hnil
    rw [hnil] at h
    cases h
  simp only [Touch.front, Touch.append, if_true]
  rw [← List.append_assoc, List.getLast?_append_of_ne_nil _ hne, h]

/-- The change to the text of the tokens touches no tweak and no mask. -/
theorem splice (h : Retouches repair token tokens (rest ++ [last]) touch)
    (hlexable : Lexable (before ++ token :: rest) last) {tail : List Char}
    (htail : tail <+: charsOf (rest ++ [last])) :
    Dialect.Splice (charsOf before ++ touch.front token) (touch.piece token)
      touch.inserted.toList (touch.back token ++ tail) := by
  have htoken : token.Readable := hlexable.readable token (by simp)
  obtain ⟨a, ha⟩ := last_text htoken
  -- the tail begins as the tokens behind do, which part from the token
  have hhead : ∀ c ∈ tail.head?, c ∈ (charsOf (rest ++ [last])).head? := by
    intro c hc
    obtain ⟨more, hmore⟩ := htail
    rw [← hmore, List.head?_append, Option.mem_def.mp hc]
    rfl
  have hword (hcase : isWordLexeme token.kind token.text.toList = true) : Stops isWordPart tail :=
    fun c hc => hlexable.of_append.ends.word hcase c (hhead c hc)
  generalize hafter : rest ++ [last] = after at h
  cases h with
  | void hkind htext =>
      have hfront : charsOf before ++ (Touch.replace "undefined").front token =
          charsOf before ++ token.trivia.toList := by
        simp [Touch.front, Touch.replace]
      have hpiece : (Touch.replace "undefined").piece token = "void".toList := by
        simp [Touch.piece, Touch.replace, htext]
      rw [hfront, hpiece]
      refine splice_void ?_ (hword ?_)
      · exact hlexable.not_isWordPart_of_getLast? (c := 'v') (by rw [htext]; rfl) (by decide)
      · rw [hkind, htext]
        decide
  | rename hkind hname =>
      have hcase : isWordLexeme token.kind token.text.toList = true := by
        rw [hkind]
        rfl
      exact splice_rename hname (isWord_of_isLexeme htoken.lexeme hcase) (hword hcase)
  | default hname =>
      have hcase := isWordLexeme_of_argumentName hname
      have hpart := (isWord_of_isLexeme htoken.lexeme hcase).all a (List.mem_of_getLast? ha)
      have hfront := getLast?_front (charsOf before) " = \x7b\x7d" ha
      exact splice_append (Or.inl rfl) hfront (htoken.lexeme.last a ha)
        (apart_hidden_of_word hfront hpart (hword hcase))
  | @join _ closing after hclosing =>
      have hfront := getLast?_front (charsOf before) ", Exposed=Window" ha
      have hclass := htoken.lexeme.last a ha
      refine splice_append (Or.inr rfl) hfront hclass
        (apart_hidden_of_closing hfront hclass.2 fun c hc => ?_)
      have hmem : closing ∈ before ++ token :: rest ++ [last] := by
        rw [List.append_assoc, List.cons_append, hafter]
        simp
      obtain ⟨d, hd, hcases⟩ := head_closing hclosing (hlexable.head_trivia hmem)
      have hsame : (charsOf (rest ++ [last])).head? = some d := by
        rw [hafter, charsOf_cons, List.head?_append, hd]
        rfl
      obtain rfl := Option.some.inj (hsame.symm.trans (hhead c hc))
      exact hcases
  | lead hbase =>
      obtain ⟨c, hc, hletter⟩ := head_base hbase
      refine splice_lead ?_ hletter
      rw [List.head?_append]
      simp [Touch.back, Touch.lead, hc]

end Retouches

end WebIdl
