import Mathlib.Data.List.Perm.Basic
import WebIdl.Proofs.Dialect.Mending
import WebIdl.Proofs.Token.Scan
import WebIdl.Proofs.Validation.Apart

/-!
# Repairs change the file at their places only

A repair of a parsed document is an edit of its file: at one place, some characters give way to
others.  Any repairs of what the rules have found, each made once and in any order, change the file by
their edits, which do not overlap (`Dialect.write_of_repairs`).

The places of the edits are those in the first file.  To get at them, the repairs are made from the
last one to the first: what comes before a repair is then as it was (`Placed.In.mend`), and it is
written as it was (`Placed.In.written_eq`).
-/

namespace WebIdl

open WebIdl.Shape WebIdl.Lexeme WebIdl.Text WebIdl.Mending

/-! ## Edits -/

/-- A change of a text: at a place, some characters give way to others. -/
structure Text.Edit where
  /-- The number of characters in front of the change. -/
  start : Nat
  removed : List Char
  inserted : List Char
deriving DecidableEq, Repr

namespace Text.Edit

/-- The text after the change. -/
def apply (edit : Edit) (text : List Char) : List Char :=
  text.take edit.start ++ edit.inserted ++ text.drop (edit.start + edit.removed.length)

/-- The text after some changes whose places are given in ascending order.  The last one is made
first, so that the places of the others stay as they are. -/
def applyAll (edits : List Edit) (text : List Char) : List Char :=
  edits.foldr apply text

/-- The first change is over where the second one starts. -/
def Precedes (edit other : Edit) : Prop :=
  edit.start + edit.removed.length ≤ other.start

/-- What the change removes stands at its place in the text. -/
def Stands (edit : Edit) (text : List Char) : Prop :=
  edit.removed <+: text.drop edit.start

theorem apply_eq (front removed inserted back : List Char) :
    apply ⟨front.length, removed, inserted⟩ (front ++ (removed ++ back)) =
      front ++ (inserted ++ back) := by
  have hdrop : (front ++ (removed ++ back)).drop (front.length + removed.length) = back := by
    rw [← List.drop_drop, List.drop_left, List.drop_left]
  rw [apply, hdrop, List.take_left, List.append_assoc]

end Text.Edit

/-- The part of the file that was parsed as the text up to a place: that text, as it is written. -/
def Document.fileFront (document : Document) (place : Nat) : String :=
  Directive.unmask (Tweak.revertAll document.tweaks
    (String.ofList (document.parsedText.toList.take place)))

/-- The place in the text that was parsed where a token is touched. -/
def Touch.place (touch : Touch) (token : Token) : Nat :=
  token.offset + if touch.isBehind then token.text.length else 0

/-- The change that the repair of a diagnostic makes to the file, at the token that it touches. -/
def Diagnostic.edit? (document : Document) (diagnostic : Diagnostic) : Option Edit :=
  (diagnostic.aim? document.items).map fun (token, touch) => {
    start := (document.fileFront (touch.place token)).length
    removed := touch.piece token
    inserted := touch.inserted.toList }

/-! ## Repairs in their places -/

/-- The row of tokens can be read back from its text. -/
def ReadsBack (row : List Token) : Prop :=
  ∃ front last, row = front ++ [last] ∧ Lexable front last

/-- A repair of a token, and the tokens before it. -/
structure Placed where
  before : List Token
  token : Token
  repair : Repair
  touch : Touch

instance : Inhabited Placed := ⟨⟨[], default, .replaceVoid, .replace ""⟩⟩

namespace Placed

/-- The spot at which the repair is made. -/
def spot (placed : Placed) : Spot where
  index := placed.token.index
  repair := placed.repair
  touch := placed.touch

/-- The tokens that the repair makes. -/
def tokens (placed : Placed) : List Token :=
  placed.repair.retouched placed.touch placed.token

/-- The text before the change. -/
def front (placed : Placed) : List Char :=
  charsOf placed.before ++ placed.touch.front placed.token

/-- The change that the repair makes to the file. -/
def edit (tweaks : List Tweak) (placed : Placed) : Edit where
  start := (Dialect.written tweaks placed.front).length
  removed := placed.touch.piece placed.token
  inserted := placed.touch.inserted.toList

/-- The repair can be made in the row of tokens. -/
structure In (placed : Placed) (row after : List Token) : Prop where
  row_eq : row = placed.before ++ placed.token :: after
  isOwn : placed.token.isOwn = true
  retouches : Retouches placed.repair placed.token placed.tokens after placed.touch

/-- The first repair is made before the second one, or at the same token and not behind it. -/
def Precedes (placed other : Placed) : Prop :=
  placed.before.length < other.before.length ∨
    placed.before.length = other.before.length ∧ placed.touch.isBehind = false ∧
      other.touch.isBehind = true

variable {placed other : Placed} {row after rest : List Token} {tweaks : List Tweak}

namespace In

/-- The text of the row, with the piece of it that is replaced. -/
theorem charsOf_row (h : placed.In row after) :
    charsOf row = placed.front ++ (placed.touch.piece placed.token ++
      (placed.touch.back placed.token ++ charsOf after)) := by
  rw [h.row_eq, charsOf_append, charsOf_cons, h.retouches.chars_eq.1, front]
  simp

theorem mend_row (h : placed.In row after) (hnodup : (ownIndices row).Nodup) :
    Spot.mend row placed.spot = placed.before ++ (placed.tokens ++ after) := by
  rw [h.row_eq] at hnodup ⊢
  exact Spot.mend_eq hnodup h.isOwn rfl

/-- The text of the row after the repair. -/
theorem charsOf_mend (h : placed.In row after) (hnodup : (ownIndices row).Nodup) :
    charsOf (Spot.mend row placed.spot) = placed.front ++ (placed.touch.inserted.toList ++
      (placed.touch.back placed.token ++ charsOf after)) := by
  rw [h.mend_row hnodup, charsOf_append, charsOf_append, h.retouches.chars_eq.2, front]
  simp

theorem ownIndices_mend (h : placed.In row after) (hnodup : (ownIndices row).Nodup) :
    ownIndices (Spot.mend row placed.spot) = ownIndices row := by
  rw [h.mend_row hnodup, h.retouches.ownIndices_eq h.isOwn, h.row_eq]

/-- The row can still be read back after the repair. -/
theorem readsBack_mend (h : placed.In row after) (hrow : ReadsBack row)
    (hnodup : (ownIndices row).Nodup) : ReadsBack (Spot.mend row placed.spot) := by
  rw [h.mend_row hnodup]
  obtain ⟨front, last, hsplit, hlexable⟩ := hrow
  obtain ⟨rest, rfl, rfl⟩ := exists_rest h.retouches hlexable (hsplit.symm.trans h.row_eq)
  exact ⟨placed.before ++ (placed.tokens ++ rest), last, by simp, h.retouches.lexable hlexable⟩

/-- What is before the change is written as it was, and what is behind it is not touched, also if the
text goes on only for a while. -/
theorem written_split (h : placed.In row after) (hrow : ReadsBack row)
    (htweaks : tweaks = [] ∨ tweaks = [Dialect.bufferTweak]) {tail : List Char}
    (htail : tail <+: charsOf after) :
    ∃ rest,
      Dialect.written tweaks (placed.front ++ (placed.touch.piece placed.token ++
        (placed.touch.back placed.token ++ tail))) =
        Dialect.written tweaks placed.front ++ (placed.touch.piece placed.token ++ rest) ∧
      Dialect.written tweaks (placed.front ++ (placed.touch.inserted.toList ++
        (placed.touch.back placed.token ++ tail))) =
        Dialect.written tweaks placed.front ++ (placed.touch.inserted.toList ++ rest) := by
  obtain ⟨front, last, hsplit, hlexable⟩ := hrow
  obtain ⟨rest, rfl, rfl⟩ := exists_rest h.retouches hlexable (hsplit.symm.trans h.row_eq)
  exact (h.retouches.splice hlexable htail).written htweaks

/-- The repair changes what is written by its edit. -/
theorem written_mend (h : placed.In row after) (hrow : ReadsBack row)
    (hnodup : (ownIndices row).Nodup)
    (htweaks : tweaks = [] ∨ tweaks = [Dialect.bufferTweak]) :
    Dialect.written tweaks (charsOf (Spot.mend row placed.spot)) =
      (placed.edit tweaks).apply (Dialect.written tweaks (charsOf row)) := by
  obtain ⟨rest, hold, hnew⟩ := h.written_split hrow htweaks List.prefix_rfl
  rw [h.charsOf_mend hnodup, h.charsOf_row, hold, hnew]
  exact (Edit.apply_eq _ _ _ _).symm

/-- What is before the repair is written as the text up to its edit, and what the edit removes comes
next. -/
theorem stands (h : placed.In row after) (hrow : ReadsBack row)
    (htweaks : tweaks = [] ∨ tweaks = [Dialect.bufferTweak]) :
    Dialect.written tweaks placed.front <+: Dialect.written tweaks (charsOf row) ∧
      (placed.edit tweaks).Stands (Dialect.written tweaks (charsOf row)) := by
  obtain ⟨rest, hold, -⟩ := h.written_split hrow htweaks List.prefix_rfl
  rw [h.charsOf_row, hold, Edit.Stands, edit, List.drop_left]
  exact ⟨List.prefix_append _ _, List.prefix_append _ _⟩

end In

/-- The tokens around two repairs, of which one precedes the other. -/
theorem Precedes.cases (hprecedes : placed.Precedes other) (h : placed.In row after)
    (hother : other.In row rest) :
    (∃ between, other.before = placed.before ++ placed.token :: between ∧
      after = between ++ other.token :: rest) ∨
    (other.before = placed.before ∧ other.token = placed.token ∧ after = rest ∧
      placed.touch.isBehind = false ∧ other.touch.isBehind = true) := by
  have hrow := h.row_eq.symm.trans hother.row_eq
  rcases hprecedes with hlt | ⟨hlength, hbehind⟩
  · rcases List.append_eq_append_iff.mp hrow with ⟨between, hbefore, hafter⟩ |
      ⟨between, hbefore, -⟩
    · cases between with
      | nil =>
          rw [hbefore] at hlt
          simp at hlt
      | cons token between =>
          obtain ⟨rfl, hrest⟩ := List.cons.inj hafter
          exact Or.inl ⟨between, hbefore, hrest⟩
    · rw [hbefore, List.length_append] at hlt
      omega
  · obtain ⟨hbefore, hafter⟩ := List.append_inj hrow hlength
    obtain ⟨htoken, hrest⟩ := List.cons.inj hafter
    exact Or.inr ⟨hbefore.symm, htoken.symm, hrest, hbehind⟩

/-- A repair can be made as before when one that it precedes has been made. -/
theorem In.mend (h : placed.In row after) (hother : other.In row rest)
    (hprecedes : placed.Precedes other) (hnodup : (ownIndices row).Nodup) :
    ∃ behind, placed.In (Spot.mend row other.spot) behind := by
  rw [hother.mend_row hnodup]
  rcases hprecedes.cases h hother with ⟨between, hbefore, rfl⟩ |
    ⟨hbefore, htoken, rfl, hfalse, htrue⟩
  · refine ⟨between ++ (other.tokens ++ rest), ?_, h.isOwn,
      h.retouches.of_retouched_behind hother.retouches⟩
    rw [hbefore]
    simp
  · -- something has been put behind the token
    obtain ⟨-, back, -, hback⟩ := hother.retouches.retouched_cases.resolve_right fun hcase => by
      rw [htrue] at hcase
      cases hcase.1
    refine ⟨back ++ after, ?_, h.isOwn, h.retouches.of_isBehind_false hfalse _⟩
    rw [tokens, hback, hbefore, htoken]
    rfl

/-- The edits of two repairs do not overlap. -/
theorem Precedes.edit (hprecedes : placed.Precedes other) (h : placed.In row after)
    (hother : other.In row rest) (hrow : ReadsBack row)
    (htweaks : tweaks = [] ∨ tweaks = [Dialect.bufferTweak]) :
    (placed.edit tweaks).Precedes (other.edit tweaks) := by
  obtain ⟨tail, htail, hfront⟩ : ∃ tail, tail <+: charsOf after ∧
      other.front = placed.front ++ (placed.touch.piece placed.token ++
        (placed.touch.back placed.token ++ tail)) := by
    have hchars := h.retouches.chars_eq.1
    rcases hprecedes.cases h hother with ⟨between, hbefore, rfl⟩ | ⟨hbefore, htoken, -, -, htrue⟩
    · refine ⟨charsOf between ++ other.touch.front other.token, ?_, ?_⟩
      · rw [charsOf_append, charsOf_cons, hother.retouches.chars_eq.1]
        simp
      · rw [front, hbefore, charsOf_append, charsOf_cons, hchars, front]
        simp
    · refine ⟨[], List.nil_prefix, ?_⟩
      have hall : other.touch.front placed.token = placed.token.chars := by
        rw [Touch.front, htrue, if_pos rfl, Token.chars]
      rw [front, hbefore, htoken, hall, hchars, front]
      simp
  obtain ⟨more, hold, -⟩ := h.written_split hrow htweaks htail
  rw [Edit.Precedes, Placed.edit, Placed.edit, hfront, hold]
  simp

/-- Repairs that are made from the last one to the first change what is written by their edits. -/
theorem written_foldl {repairs : List Placed} (hin : ∀ placed ∈ repairs, ∃ after, placed.In row after)
    (hordered : repairs.Pairwise fun later earlier => earlier.Precedes later)
    (hrow : ReadsBack row) (hnodup : (ownIndices row).Nodup)
    (htweaks : tweaks = [] ∨ tweaks = [Dialect.bufferTweak]) :
    Dialect.written tweaks (charsOf ((repairs.map spot).foldl Spot.mend row)) =
      (repairs.map (edit tweaks)).foldl (fun text edit => edit.apply text)
        (Dialect.written tweaks (charsOf row)) := by
  induction repairs generalizing row with
  | nil => rfl
  | cons placed repairs ih =>
      obtain ⟨after, h⟩ := hin placed List.mem_cons_self
      obtain ⟨hfirst, hrest⟩ := List.pairwise_cons.mp hordered
      have hstill : ∀ earlier ∈ repairs, ∃ behind, earlier.In (Spot.mend row placed.spot) behind := by
        intro earlier hearlier
        obtain ⟨behind, hbehind⟩ := hin earlier (List.mem_cons_of_mem _ hearlier)
        exact hbehind.mend h (hfirst earlier hearlier) hnodup
      rw [List.map_cons, List.foldl_cons, List.map_cons, List.foldl_cons,
        ih hstill hrest (h.readsBack_mend hrow hnodup) (by rwa [h.ownIndices_mend hnodup]),
        h.written_mend hrow hnodup htweaks]

end Placed

/-! ## Diagnostics in their places -/

/-- The tokens of the row are numbered by their places. -/
def Numbered (row : List Token) : Prop :=
  ∀ (place : Nat) (token : Token), row[place]? = some token → token.index = place

theorem Numbered.nodup {row : List Token} (h : Numbered row) : (row.map Token.index).Nodup := by
  have hrange : row.map Token.index = List.range row.length := by
    refine List.ext_getElem (by simp) fun place hplace _ => ?_
    rw [List.getElem_map, List.getElem_range]
    exact h place _ (List.getElem?_eq_getElem _)
  rw [hrange]
  exact List.nodup_range

/-- The repair of the diagnostic, in its place in the document. -/
structure Diagnostic.PlacedAt (diagnostic : Diagnostic) (items : List Node) (placed : Placed) :
    Prop where
  repair : diagnostic.repair = some placed.repair
  aim : diagnostic.aim? items = some (placed.token, placed.touch)
  fits : ∃ after, placed.In (items.flatMap Node.tokens) after
  index : placed.token.index = placed.before.length

/-- A repair that is still to be made has its place in the document, if the tokens are numbered. -/
theorem Mending.Intact.exists_placedAt {extended : Bool} {available applied : List Tweak}
    {mending : Mending} {diagnostic : Diagnostic} (h : Intact extended available applied mending)
    (hfound : diagnostic ∈ mending.found) (hdue : diagnostic.IsDue mending.items)
    (hsome : diagnostic.repair.isSome = true)
    (hnumbered : Numbered mending.tokens) :
    ∃ placed, diagnostic.PlacedAt mending.items placed := by
  obtain ⟨repair, hrepair⟩ := Option.isSome_iff_exists.mp hsome
  obtain ⟨old, new, others, -, hswaps, -, hmends⟩ := h.exists_mends hfound hdue hrepair
  obtain ⟨before, token, after, touch, hrow, -, hretouches, haim, hfirst⟩ := hswaps.exists_row hmends
  have hplace : token.index = before.length := hnumbered before.length token (by
    rw [Mending.tokens, hrow]
    simp)
  have hown : token.isOwn = true := by
    cases before with
    | nil => exact Token.isOwn_of_text (hfirst rfl)
    | cons first before => exact Token.isOwn_of_index (by rw [hplace]; simp)
  refine ⟨⟨before, token, repair, touch⟩, hrepair, ?_, ⟨after, hrow, hown, hretouches⟩, hplace⟩
  rw [Diagnostic.aim?_eq hrepair hswaps.node?_eq, haim]

namespace Diagnostic.PlacedAt

variable {diagnostic other : Diagnostic} {items : List Node} {placed aside : Placed}

theorem aimsAt (h : diagnostic.PlacedAt items placed) : diagnostic.AimsAt items placed.spot := by
  obtain ⟨hrepair, haim, ⟨after, hin⟩, -⟩ := h
  exact ⟨hrepair, placed.token, haim, rfl, hin.isOwn⟩

theorem isSound (h : diagnostic.PlacedAt items placed) : placed.spot.IsSound := by
  obtain ⟨-, -, ⟨after, hin⟩, -⟩ := h
  exact ⟨placed.token, placed.tokens, after, hin.retouches⟩

/-- Spots are ordered as the places of their repairs. -/
theorem precedes (h : diagnostic.PlacedAt items placed) (hother : other.PlacedAt items aside)
    (hkey : placed.spot.key < aside.spot.key) : placed.Precedes aside := by
  simp only [Spot.key, Placed.spot, h.index, hother.index] at hkey
  rw [Placed.Precedes]
  cases hbehind : placed.touch.isBehind <;> cases hbehind' : aside.touch.isBehind <;>
    simp only [hbehind, hbehind', Bool.toNat_false, Bool.toNat_true] at hkey <;> simp <;> omega

end Diagnostic.PlacedAt

/-! ## Parsed documents -/

theorem Document.toList_fileFront (document : Document) (place : Nat) :
    (document.fileFront place).toList =
      Dialect.written document.tweaks (document.parsedText.toList.take place) := by
  rw [fileFront, Directive.toList_unmask]
  rfl

/-- The text that was parsed, up to the place where a token is touched. -/
theorem Diagnostic.PlacedAt.take_eq {document : Document} {diagnostic : Diagnostic} {placed : Placed}
    (h : diagnostic.PlacedAt document.items placed)
    (hstands : Token.Stands document.parsedText.toList placed.before placed.token) :
    document.parsedText.toList.take (placed.touch.place placed.token) = placed.front := by
  obtain ⟨-, -, ⟨after, hin⟩, -⟩ := h
  have hlength : placed.touch.place placed.token = placed.front.length := by
    rw [Touch.place, hstands.offset, Placed.front, Touch.front, List.length_append,
      List.length_append, String.length_toList, Nat.add_assoc]
    split
    · rw [String.length_toList]
    · rfl
  rw [hlength, Document.parsedText_eq, toList_textOf, hin.charsOf_row, List.take_left]

theorem Diagnostic.PlacedAt.edit?_eq {document : Document} {diagnostic : Diagnostic}
    {placed : Placed} (h : diagnostic.PlacedAt document.items placed)
    (hstands : Token.Stands document.parsedText.toList placed.before placed.token) :
    diagnostic.edit? document = some (placed.edit document.tweaks) := by
  have hstart : (document.fileFront (placed.touch.place placed.token)).length =
      (Dialect.written document.tweaks placed.front).length := by
    rw [← String.length_toList, Document.toList_fileFront, h.take_eq hstands]
  rw [Diagnostic.edit?, h.aim, Option.map_some]
  dsimp only
  rw [hstart]
  rfl

/-- The tokens of a document that was parsed stand in their places. -/
theorem Dialect.stands_of_parse {dialect : Dialect} {extended : Bool}
    (hdialect : dialect = if extended then gecko else standard) {text : String}
    {sourceName : Option String} {document : Document}
    (h : (dialect.parse text sourceName).result = .ok document) {place : Nat} {token : Token}
    (htoken : (document.items.flatMap Node.tokens)[place]? = some token) :
    Token.Stands document.parsedText.toList ((document.items.flatMap Node.tokens).take place)
      token := by
  obtain ⟨source, nodes, last, hsource, htokens, -, -, rfl⟩ := (parse_eq_ok_iff hdialect).mp h
  have hall : (nodes ++ [Node.ofEof last]).flatMap Node.tokens = source.tokens.toList := by
    rw [htokens]
    simp [Node.ofEof, Node.tokens, tokensOf]
  unfold Source.read at hsource
  split at hsource
  · rename_i tokens hstream
    obtain rfl := Except.ok.inj hsource
    rw [hall] at htoken
    rw [Document.parsedText_eq, hall, Token.textOf_stream hstream]
    exact Token.stands_of_stream hstream htoken
  · cases hsource

/-- A list whose keys are different can be sorted by them. -/
theorem exists_sorted {α : Type} {key : α → Nat} {list : List α} (h : (list.map key).Nodup) :
    ∃ sorted : List α, sorted.Perm list ∧ sorted.Pairwise fun first second => key first < key second := by
  let sorted := list.mergeSort fun first second => decide (key first ≤ key second)
  have hperm : sorted.Perm list := List.mergeSort_perm _ _
  have hle : sorted.Pairwise fun first second => key first ≤ key second := by
    refine (List.pairwise_mergeSort (fun a b c hab hbc => ?_) (fun a b => ?_) list).imp
      of_decide_eq_true
    · simp only [decide_eq_true_eq] at hab hbc ⊢
      exact hab.trans hbc
    · simpa using Nat.le_total (key a) (key b)
  have hne : sorted.Pairwise fun first second => key first ≠ key second :=
    List.pairwise_map.mp ((hperm.map key).nodup_iff.mpr h)
  exact ⟨sorted, hperm, (hle.and hne).imp fun hboth => Nat.lt_of_le_of_ne hboth.1 hboth.2⟩

/-- Repairs of different constructs, each made once, change what is written by their edits, which are
made from the last one to the first. -/
theorem Mending.Intact.written_of_fixes {extended : Bool} {available applied : List Tweak}
    {mending : Mending} (h : Intact extended available applied mending)
    (hnumbered : Numbered mending.tokens) {chosen : List Diagnostic} {placed : Diagnostic → Placed}
    (hchosen : ∀ diagnostic ∈ chosen, diagnostic ∈ mending.found ∧
      diagnostic.IsDue mending.items ∧ diagnostic.PlacedAt mending.items (placed diagnostic))
    (hsites : (chosen.map Diagnostic.site).Nodup) :
    ∃ (items : List Node) (sorted : List Diagnostic),
      chosen.foldlM (fun items diagnostic => diagnostic.fix items) mending.items = .ok items ∧
      sorted.Perm chosen ∧ (sorted.map placed).Pairwise Placed.Precedes ∧
      Dialect.written applied (charsOf (items.flatMap Node.tokens)) =
        Edit.applyAll ((sorted.map placed).map (Placed.edit applied))
          (Dialect.written applied (charsOf mending.tokens)) := by
  have hplaced (diagnostic : Diagnostic) (hmem : diagnostic ∈ chosen) :=
    (hchosen diagnostic hmem).2.2
  have hindices : (ownIndices mending.tokens).Nodup :=
    hnumbered.nodup.sublist (List.filter_sublist.map _)
  have hkeys : (chosen.map fun diagnostic => (placed diagnostic).spot.key).Nodup := by
    refine List.pairwise_map.mpr ((List.pairwise_map.mp hsites).imp_of_mem ?_)
    intro first second hfirst hsecond hne
    exact h.key_ne hnumbered.nodup (hchosen first hfirst).1 (hchosen second hsecond).1
      (hplaced first hfirst).aimsAt (hplaced second hsecond).aimsAt hne
  have haims (diagnostic : Diagnostic) (hmem : diagnostic ∈ chosen) :
      diagnostic ∈ mending.found ∧ diagnostic.IsDue mending.items ∧
        diagnostic.AimsAt mending.items (placed diagnostic).spot := by
    obtain ⟨hfound, hdue, hplace⟩ := hchosen diagnostic hmem
    exact ⟨hfound, hdue, hplace.aimsAt⟩
  obtain ⟨items, hfix, htokens⟩ := h.exists_mended haims hsites hkeys hindices
  obtain ⟨sorted, hperm, hsorted⟩ := exists_sorted hkeys
  have hordered : (sorted.map placed).Pairwise Placed.Precedes := by
    refine List.pairwise_map.mpr (hsorted.imp_of_mem fun hfirst hsecond hlt => ?_)
    exact (hplaced _ (hperm.subset hfirst)).precedes (hplaced _ (hperm.subset hsecond)) hlt
  refine ⟨items, sorted, hfix, hperm, hordered, ?_⟩
  -- the repairs can as well be made from the last one to the first
  have hreversed : items.flatMap Node.tokens =
      (((sorted.map placed).reverse).map Placed.spot).foldl Spot.mend mending.tokens := by
    rw [htokens]
    refine Spot.foldl_mend_perm ?_ ?_ ?_ _
    · rw [List.map_reverse, List.map_map]
      exact ((hperm.map _).symm).trans (List.reverse_perm _).symm
    · intro spot hspot
      obtain ⟨diagnostic, hmem, rfl⟩ := List.mem_map.mp hspot
      exact (hplaced diagnostic hmem).isSound
    · rwa [List.map_map]
  rw [hreversed, Placed.written_foldl ?_ (List.pairwise_reverse.mpr hordered) h.lexable hindices
    h.stable.tweaked.applied_cases, Edit.applyAll, List.foldr_eq_foldl_reverse, List.map_reverse]
  intro repair hrepair
  obtain ⟨diagnostic, hmem, rfl⟩ := List.mem_map.mp (List.mem_reverse.mp hrepair)
  exact (hplaced diagnostic (hperm.subset hmem)).fits

namespace Dialect

/-- The tokens of a document that was parsed are numbered by their places. -/
theorem numbered_of_parse {dialect : Dialect} {extended : Bool}
    (hdialect : dialect = if extended then gecko else standard) {text : String}
    {sourceName : Option String} {document : Document}
    (h : (dialect.parse text sourceName).result = .ok document) :
    Numbered (document.items.flatMap Node.tokens) := by
  intro place token htoken
  obtain ⟨hplace, -⟩ := List.getElem?_eq_some_iff.mp htoken
  rw [(stands_of_parse hdialect h htoken).index, List.length_take, Nat.min_eq_left hplace.le]

/-- Repairs change the file at their places only.  Under a named dialect, take any document that was
parsed, from a text of which no line looks masked, and any repairs of what the rules find in it, each
once and in any order.  They are all made, and what is written then is the text with their edits:

- a lexeme that was shown as obsolete gives way to the new one;
- ` = {}` is put behind the lexeme of the name that was shown;
- `, Exposed=Window` is put behind the last token of the last attribute, or else `[Exposed=Window]` and
  a newline before the keyword of the definition.

The edits stand in the text one after the other, each at the place in the text where the lexeme that it
touches stands. -/
theorem write_of_repairs {dialectName : String} {dialect : Dialect}
    (hdialect : named dialectName = .ok dialect) {text : String}
    (hplain : Directive.collides text = false) {sourceName : Option String} {document : Document}
    (h : (dialect.parse text sourceName).result = .ok document) :
    ∃ found, validate Rule.all document.items = .ok found ∧
    ∀ chosen : List Diagnostic,
      chosen.Subperm (found.filter fun diagnostic => diagnostic.repair.isSome) →
    ∃ (items : List Node) (edits : List Edit),
      chosen.foldlM (fun items diagnostic => diagnostic.fix items) document.items = .ok items ∧
      { document with items }.write.toList = Edit.applyAll edits text.toList ∧
      (edits.map some).Perm (chosen.map (Diagnostic.edit? document)) ∧
      edits.Pairwise Edit.Precedes ∧
      (∀ edit ∈ edits, edit.Stands text.toList) ∧
      ∀ diagnostic ∈ chosen, ∃ token touch,
        diagnostic.aim? document.items = some (token, touch) ∧
        (diagnostic.repair ≠ some .addExposed → diagnostic.token = some token) ∧
        (document.fileFront (touch.place token)).toList <+: text.toList := by
  obtain ⟨extended, -, -, hextended⟩ := exists_extended (mem_known_of_named hdialect)
  have hintact := (intact_of_parse hextended h).look
  have hnumbered := numbered_of_parse hextended h
  have htweaks := hintact.stable.tweaked.applied_cases
  -- what is written for the document is the text
  have hwritten : written document.tweaks (charsOf (document.items.flatMap Node.tokens)) =
      text.toList := by
    rw [← toList_textOf, ← Document.parsedText_eq, ← toList_write,
      write_of_parse (mem_known_of_named hdialect) h, Directive.unmask_mask_eq_iff.mpr hplain]
  refine ⟨_, hintact.validate_eq_ok Rule.all, fun chosen hchosen => ?_⟩
  have hfound (diagnostic : Diagnostic) (hmem : diagnostic ∈ chosen) :
      diagnostic ∈ objections Rule.all document.items ∧ diagnostic.repair.isSome = true :=
    List.mem_filter.mp (hchosen.subset hmem)
  have hexists : ∀ diagnostic, diagnostic ∈ chosen →
      ∃ placed, diagnostic.PlacedAt document.items placed := fun diagnostic hmem =>
    hintact.exists_placedAt (List.mem_append_right _ (hfound diagnostic hmem).1)
      (fun _ => (hfound diagnostic hmem).1) (hfound diagnostic hmem).2 hnumbered
  choose! placed hplaced using hexists
  have hsites : (chosen.map Diagnostic.site).Nodup := by
    obtain ⟨list, hlist, hsub⟩ := hchosen
    have hall := Rule.nodup_sites hintact.formed hintact.void_inline
    exact (hlist.map _).nodup_iff.mp (hall.sublist (hsub.map _))
  obtain ⟨items, sorted, hfix, hperm, hordered, hwrite⟩ := hintact.written_of_fixes hnumbered
    (fun diagnostic hmem => ⟨List.mem_append_right _ (hfound diagnostic hmem).1,
      fun _ => (hfound diagnostic hmem).1, hplaced diagnostic hmem⟩) hsites
  have hstands (diagnostic : Diagnostic) (hmem : diagnostic ∈ chosen) :
      Token.Stands document.parsedText.toList (placed diagnostic).before
        (placed diagnostic).token := by
    obtain ⟨after, hin⟩ := (hplaced diagnostic hmem).fits
    have hplace := @stands_of_parse _ _ hextended _ _ _ h (placed diagnostic).before.length
      (placed diagnostic).token (by rw [hin.row_eq]; simp)
    rwa [hin.row_eq, List.take_left] at hplace
  refine ⟨items, (sorted.map placed).map (Placed.edit document.tweaks), hfix, ?_, ?_, ?_, ?_, ?_⟩
  · rw [toList_write, Document.parsedText_eq, toList_textOf, ← hwritten]
    exact hwrite
  · rw [List.map_map, List.map_map]
    refine (hperm.map _).trans (.of_eq (List.map_congr_left fun diagnostic hmem => ?_))
    exact ((hplaced diagnostic hmem).edit?_eq (hstands diagnostic hmem)).symm
  · refine List.pairwise_map.mpr (hordered.imp_of_mem fun hfirst hsecond hprecedes => ?_)
    obtain ⟨first, hmem, rfl⟩ := List.mem_map.mp hfirst
    obtain ⟨second, hmem', rfl⟩ := List.mem_map.mp hsecond
    obtain ⟨_, hin⟩ := (hplaced first (hperm.subset hmem)).fits
    obtain ⟨_, hin'⟩ := (hplaced second (hperm.subset hmem')).fits
    exact hprecedes.edit hin hin' hintact.lexable htweaks
  · intro edit hedit
    rw [List.map_map] at hedit
    obtain ⟨diagnostic, hmem, rfl⟩ := List.mem_map.mp hedit
    obtain ⟨_, hin⟩ := (hplaced diagnostic (hperm.subset hmem)).fits
    rw [← hwritten]
    exact (hin.stands hintact.lexable htweaks).2
  · intro diagnostic hmem
    have hplace := hplaced diagnostic hmem
    obtain ⟨_, hin⟩ := hplace.fits
    refine ⟨_, _, hplace.aim, fun hother => ?_, ?_⟩
    · exact Rule.token_of_aim? (hfound diagnostic hmem).1 hother hplace.aim
    · rw [Document.toList_fileFront, hplace.take_eq (hstands diagnostic hmem), ← hwritten]
      exact (hin.stands hintact.lexable htweaks).1

/-- A text with something to mend for every rule that mends.  Two of the repairs meet at one name. -/
def crowdedText : String :=
  "#a\nnamespace N\x7b\x7d;[Unforgeable]interface I\x7bvoid f(optional D d);\x7d;dictionary D\x7b\x7d;"

/-- The edits of the text, as the rules find them. -/
def crowdedEdits : List Edit :=
  [⟨42, "void".toList, "undefined".toList⟩,
    ⟨3, [], "[Exposed=Window]\n".toList⟩,
    ⟨29, [], ", Exposed=Window".toList⟩,
    ⟨18, "Unforgeable".toList, "LegacyUnforgeable".toList⟩,
    ⟨61, [], " = \x7b\x7d".toList⟩]

/-- The text is parsed, and these are its edits. -/
def crowdedSample : Sample gecko fun document =>
    decide (((objections Rule.all document.items).filter fun diagnostic =>
      diagnostic.repair.isSome).map (Diagnostic.edit? document) = crowdedEdits.map some) where
  text := crowdedText
  sourceName := none
  parses := by decide +kernel

/-- The repairs of the text are made from the last one that was found to the first. -/
theorem write_of_repairs_crowded : ∃ document found items edits,
    (gecko.parse crowdedText none).result = .ok document ∧
      validate Rule.all document.items = .ok found ∧
      (found.filter fun diagnostic => diagnostic.repair.isSome).reverse.foldlM
        (fun items diagnostic => diagnostic.fix items) document.items = .ok items ∧
      { document with items }.write.toList = Edit.applyAll edits crowdedText.toList ∧
      edits.Perm crowdedEdits ∧ edits.Pairwise Edit.Precedes := by
  obtain ⟨document, hdocument, hcheck⟩ := crowdedSample.exists_document
  have hedits := of_decide_eq_true hcheck
  have hgecko : named "gecko" = .ok gecko := rfl
  obtain ⟨found, hfound, hrepairs⟩ := write_of_repairs hgecko
    (by decide +kernel : Directive.collides crowdedText = false) hdocument
  obtain rfl : objections Rule.all document.items = found := Except.ok.inj
    ((validate_of_parse (mem_known_of_named hgecko) hdocument Rule.all).symm.trans hfound)
  obtain ⟨items, edits, hfix, hwrite, hperm, hordered, -⟩ :=
    hrepairs _ (List.reverse_perm _).subperm
  refine ⟨document, _, items, edits, hdocument, hfound, hfix, hwrite, ?_, hordered⟩
  rw [List.map_reverse, hedits, ← List.map_reverse] at hperm
  exact ((List.map_perm_map_iff fun _ _ => Option.some.inj).mp hperm).trans (List.reverse_perm _)

end Dialect

end WebIdl
