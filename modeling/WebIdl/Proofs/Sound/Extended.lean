import WebIdl.Proofs.Sound.Definitions

/-!
# What the productions of extensions find

Besides what they find, it matters what is not there when they find nothing: the standard
productions that are tried behind them then see no legacy caller and no record with `UTF8String`
keys.
-/

namespace WebIdl.Grammar

open WebIdl.Parser WebIdl.Shape

section

variable {extended : Bool} {scope : Scope} {nested : Production → Parser (Option Node)}
  {cursor moved : Cursor}

theorem found_bodylessInterface (extended : Bool) {found : Option Node}
    (h : bodylessInterface scope cursor = .ok found moved) :
    Found scope (Conforms extended { symbol := .bodylessInterface, mode := .never }) cursor
      found moved := by
  refine found_rewinding h fun node hnode => ?_
  obtain ⟨base, afterBase, hbase, hnode⟩ := (oneOf_inline? _).bind hnode
  cases base with
  | none => exact absurd (pure_eq_ok.mp hnode).1 (by simp)
  | some base =>
  obtain ⟨name, afterName, hname, hnode⟩ := oneOf_identifier.bind hnode
  cases name with
  | none => exact absurd (pure_eq_ok.mp hnode).1 (by simp)
  | some name =>
  obtain ⟨termination, afterTermination, htermination, hnode⟩ := (oneOf_inline? _).bind hnode
  cases termination with
  | none => exact absurd (pure_eq_ok.mp hnode).1 (by simp)
  | some termination =>
  have hnode := enter_bind.mp hnode
  obtain ⟨hsome, rfl⟩ := pure_eq_ok.mp hnode
  obtain rfl := Option.some.inj hsome
  have hreads := (hbase.reads.trans hname.reads).trans htermination.reads
  refine ⟨(show Reads scope cursor afterTermination _ from ?_).congr rfl rfl, ?_⟩
  · simpa [bare, Node.tokens, tokensOf] using hreads
  exact .of_form bodylessInterfaceForm (List.mem_singleton_self _) rfl
    (.node (conforms_noAttributes (by simp)) (.token (hbase.accepted base rfl)
      (.token (hname.accepted name rfl) (.token (htermination.accepted termination rfl) .nil))))

theorem callbackConstructorBody_eq_ok (hnested : Sound extended scope nested) {base word : Token}
    {node : Node} (h : callbackConstructorBody nested base word scope cursor = .ok node moved) :
    ∃ parts, node = .mk { construct := .callbackConstructor }
        (bare :: .token .base base :: .token .constructor word :: parts) ∧
      Reads scope cursor moved (tokensOf parts) ∧
      Fits (Conforms extended) callbackTail parts := by
  obtain ⟨name, afterName, hname, hnamed, h⟩ := oneOf_identifier.expect_bind h
  obtain ⟨assign, afterAssign, hassign, hassigned, h⟩ :=
    (oneOf_inline? _).expect_bind (enter_bind.mp h)
  obtain ⟨type, afterType, htype, h⟩ := Parser.expect_bind.mp h
  obtain ⟨hreadsType, htype⟩ := found_returnType hnested htype
  obtain ⟨opening, afterOpening, hopening, hopened, h⟩ := (oneOf_inline? _).expect_bind h
  obtain ⟨arguments, afterArguments, harguments, h⟩ := bind_eq_ok.mp h
  obtain ⟨hreadsArguments, hitems⟩ := reads_argumentList hnested harguments
  obtain ⟨closing, afterClosing, hclosing, hclosed, h⟩ := (oneOf_inline? _).expect_bind h
  obtain ⟨termination, _, htermination, hended, h⟩ := (oneOf_inline? _).expect_bind h
  obtain ⟨rfl, rfl⟩ := pure_eq_ok.mp h
  refine ⟨.token .name name :: .token .assign assign :: .node .type type ::
    .token .opening opening :: (Part.ofNodes .argument arguments ++ [.token .closing closing,
      .token .termination termination]), by simp, ?_, ?_⟩
  · simpa [tokensOf] using (((((hname.trans (hassign.congr rfl rfl)).trans hreadsType).trans
      hopening).trans hreadsArguments).trans hclosing).trans htermination
  · exact .token hnamed (.token hassigned (.node htype (.token hopened (.list hitems (Nat.zero_le _)
      (.token hclosed (.token hended .nil))))))

theorem found_callbackConstructor (hnested : Sound extended scope nested) {found : Option Node}
    (h : callbackConstructor nested scope cursor = .ok found moved) :
    Found scope (Conforms extended { symbol := .callbackConstructor, mode := .never }) cursor
      found moved := by
  refine found_rewinding h fun node hnode => ?_
  obtain ⟨base, afterBase, hbase, hnode⟩ := (oneOf_inline? _).bind hnode
  cases base with
  | none => exact absurd (pure_eq_ok.mp hnode).1 (by simp)
  | some base =>
  obtain ⟨word, afterWord, hword, hnode⟩ := (oneOf_inline? _).bind hnode
  cases word with
  | none => exact absurd (pure_eq_ok.mp hnode).1 (by simp)
  | some word =>
  obtain ⟨body, _, hbody, hnode⟩ := bind_eq_ok.mp hnode
  obtain ⟨hsome, rfl⟩ := pure_eq_ok.mp hnode
  obtain rfl := Option.some.inj hsome
  obtain ⟨parts, rfl, hreads, hparts⟩ := callbackConstructorBody_eq_ok hnested hbody
  refine ⟨by simpa [bare, Node.tokens, tokensOf] using
    (hbase.reads.trans hword.reads).trans hreads, ?_⟩
  exact .of_form (callbackForm .callbackConstructor [.word .constructor "constructor"])
    (List.mem_singleton_self _) rfl
    (.node (conforms_noAttributes (by simp)) (.token (hbase.accepted base rfl)
      (.token (hword.accepted word rfl) hparts)))

/-! ## Legacy callers -/

theorem found_legacyCaller (hnested : Sound extended scope nested) {found : Option Node}
    (h : legacyCaller nested scope cursor = .ok found moved) :
    Found scope (Conforms extended { symbol := .legacyCaller, mode := .never }) cursor
      found moved ∧ (found = none → Absent .legacyCaller (scope.rest cursor)) := by
  obtain ⟨special, afterSpecial, hspecial, h⟩ := (oneOf_identifier? _).bind h
  cases special with
  | none =>
      obtain ⟨rfl, rfl⟩ := pure_eq_ok.mp h
      exact ⟨hspecial.none, fun _ => hspecial.declined rfl⟩
  | some special =>
      obtain ⟨node, _, hnode, h⟩ := bind_eq_ok.mp h
      obtain ⟨rfl, rfl⟩ := pure_eq_ok.mp h
      refine ⟨?_, by simp⟩
      have haccepts := hspecial.accepted special rfl
      obtain ⟨parts, rfl, hreads, hcases⟩ := specialOperation_eq_ok hnested hnode
      refine ⟨by simpa [bare, Node.tokens, tokensOf] using hspecial.reads.trans hreads, ?_⟩
      rcases hcases with ⟨htext, -⟩ | hparts
      · rw [(accepts_named.mp haccepts).2] at htext
        exact absurd htext (by decide)
      · exact .of_form _ (List.mem_singleton_self _) rfl
          (.node (conforms_noAttributes (by simp)) (.token haccepts hparts))

theorem found_legacyCallerInterface (hnested : Sound extended scope nested) {found : Option Node}
    (h : legacyCallerInterface nested scope cursor = .ok found moved) :
    Found scope (Conforms extended
      { symbol := .interface "legacycaller interface" true, mode := .never }) cursor
      found moved := by
  obtain ⟨base, afterBase, hbase, h⟩ := (oneOf_inline? _).bind (position_bind.mp h)
  cases base with
  | none =>
      obtain ⟨rfl, rfl⟩ := pure_eq_ok.mp h
      exact hbase.none
  | some base =>
      rcases deferring_eq_ok h with ⟨node, rfl, hnode⟩ | ⟨rfl, hposition⟩
      · refine FoundBehind.found ?_
        exact foundBehind_container hnested (.interface true) rfl
          (show _ = Part.ofToken? .partiality none ++ _ from rfl) .nil
          (.token (hbase.accepted base rfl) .nil) List.mem_cons_self
          (fun _ => List.mem_cons_of_mem _ List.mem_cons_self)
          (by simpa [tokensOf] using hbase.reads) hnode
      · exact hposition

/-! ## Records with `UTF8String` keys -/

theorem conforms_utf8Key {key : Token} (hkey : (Terminal.named utf8String).accepts key = true) :
    Conforms extended { symbol := .utf8Key, mode := .never } (typeNode none [.token .base key]) :=
  .of_form _ (List.mem_singleton_self _) rfl
    (.node (conforms_noAttributes (by simp)) (.token hkey .nil))

/-- A token that the parser did not take is not there. -/
theorem not_accepts_of_declined {terminal : Terminal} {token : Token} {rest : List Token}
    (h : Takes terminal scope cursor none moved) (hrest : scope.rest cursor = token :: rest) :
    ¬ terminal.accepts token = true := by
  simp [h.declined rfl token (by simp [hrest])]

/-- A token that the parser took is the one that is there. -/
theorem rest_of_taken {terminal : Terminal} {token next : Token} {rest : List Token}
    (h : Takes terminal scope cursor (some token) moved) (hrest : scope.rest cursor = next :: rest) :
    scope.rest moved = rest := by
  rw [h.reads.rest_eq] at hrest
  exact (List.cons.inj hrest).2

theorem found_utf8StringRecord (hnested : Sound extended scope nested) {found : Option Node}
    (h : utf8StringRecord nested scope cursor = .ok found moved) :
    Found scope (Conforms extended { symbol := .type none .utf8Record, mode := .never }) cursor
      found moved ∧ (found = none → ¬ BeginsUtf8Record (scope.rest cursor)) := by
  constructor
  · refine found_rewinding h fun node hnode => ?_
    obtain ⟨base, afterBase, hbase, hnode⟩ := (oneOf_inline? _).bind hnode
    cases base with
    | none => exact absurd (pure_eq_ok.mp hnode).1 (by simp)
    | some base =>
    obtain ⟨opening, afterOpening, hopening, hnode⟩ := (oneOf_inline? _).bind hnode
    cases opening with
    | none => exact absurd (pure_eq_ok.mp hnode).1 (by simp)
    | some opening =>
    obtain ⟨key, afterKey, hkey, hnode⟩ := (oneOf_identifier? _).bind hnode
    cases key with
    | none => exact absurd (pure_eq_ok.mp hnode).1 (by simp)
    | some key =>
    obtain ⟨comma, afterComma, hcomma, hseparator, hnode⟩ := (oneOf_inline? _).expect_bind hnode
    obtain ⟨value, afterValue, hvalue, hnode⟩ := Parser.expect_bind.mp hnode
    obtain ⟨hreadsValue, hvalue⟩ := hnested.found hvalue
    obtain ⟨closing, afterClosing, hclosing, hclosed, hnode⟩ := (oneOf_inline? _).expect_bind hnode
    obtain ⟨mark, afterMark, hmark, hnode⟩ := bind_eq_ok.mp hnode
    have hmark := takes_nullableMark hmark
    obtain ⟨hsome, rfl⟩ := pure_eq_ok.mp hnode
    obtain rfl := Option.some.inj hsome
    refine ⟨by simpa [typeNode, bare, Node.tokens, tokensOf] using ((((((hbase.reads.trans
      hopening.reads).trans hkey.reads).trans hcomma).trans hreadsValue).trans hclosing).trans
      hmark.reads), ?_⟩
    have hkeyType : Conforms extended
        { symbol := .utf8Key, mode := .never, separator := some "," }
        ((typeNode none [.token .base key]).withSeparator comma) :=
      (conforms_utf8Key (hkey.accepted key rfl)).withSeparator hseparator
    refine conforms_type_iff.mpr ⟨.utf8Record, List.mem_singleton_self _, _,
      List.mem_singleton_self _, Node.noAttributes, .token .base base :: .token .opening opening ::
        (Part.ofNodes .subtype [(typeNode none [.token .base key]).withSeparator comma, value] ++
          [.token .closing closing]), mark, rfl, conforms_noAttributes (by simp), ?_,
      hmark.accepted, fun _ => rfl⟩
    exact .token (hbase.accepted base rfl) (.token (hopening.accepted opening rfl)
      (.node hkeyType (.node hvalue (.token hclosed .nil))))
  · -- the three tokens that tell the record commit the parser, so it cannot decline behind them
    rintro rfl ⟨base, opening, key, rest, hrest, hbase, hopening, hkey⟩
    rcases rewinding_eq_ok.mp h with ⟨_, hsome, -⟩ | ⟨-, middle, hnone, -⟩
    · cases hsome
    obtain ⟨first, afterFirst, hfirst, hnone⟩ := (oneOf_inline? _).bind hnone
    cases first with
    | none => exact not_accepts_of_declined hfirst hrest hbase
    | some first =>
    have hrest := rest_of_taken hfirst hrest
    obtain ⟨second, afterSecond, hsecond, hnone⟩ := (oneOf_inline? _).bind hnone
    cases second with
    | none => exact not_accepts_of_declined hsecond hrest hopening
    | some second =>
    have hrest := rest_of_taken hsecond hrest
    obtain ⟨third, afterThird, hthird, hnone⟩ := (oneOf_identifier? _).bind hnone
    cases third with
    | none => exact not_accepts_of_declined hthird hrest hkey
    | some third =>
    obtain ⟨comma, afterComma, hcomma, hseparator, hnone⟩ := (oneOf_inline? _).expect_bind hnone
    obtain ⟨value, afterValue, hvalue, hnone⟩ := Parser.expect_bind.mp hnone
    obtain ⟨closing, afterClosing, hclosing, hclosed, hnone⟩ := (oneOf_inline? _).expect_bind hnone
    obtain ⟨mark, afterMark, hmark, hnone⟩ := bind_eq_ok.mp hnone
    exact absurd (pure_eq_ok.mp hnone).1 (by simp)

theorem found_utf8StringField (hnested : Sound extended scope nested) {found : Option Node}
    (h : utf8StringField nested scope cursor = .ok found moved) :
    Found scope (Conforms extended { symbol := .utf8StringField, mode := .never }) cursor
      found moved ∧ (found = none → Absent .utf8StringField (scope.rest cursor)) := by
  constructor
  · refine found_rewinding h fun node hnode => ?_
    obtain ⟨required, afterRequired, hrequired, hnode⟩ := (oneOf_inline? _).bind hnode
    obtain ⟨type, afterType, htype, hnode⟩ := bind_eq_ok.mp hnode
    have htype := (found_utf8StringRecord hnested htype).1
    cases type with
    | none => exact absurd (pure_eq_ok.mp hnode).1 (by simp)
    | some type =>
    obtain ⟨hreadsType, htype⟩ := htype
    obtain ⟨body, _, hbody, hnode⟩ := bind_eq_ok.mp hnode
    obtain ⟨hsome, rfl⟩ := pure_eq_ok.mp hnode
    obtain rfl := Option.some.inj hsome
    obtain ⟨name, value, termination, rfl, hreads, hname, hvalue, htermination, hplain⟩ :=
      fieldBody_eq_ok extended hbody
    refine ⟨by simpa [bare, Node.tokens, tokensOf] using
      (hrequired.reads.trans hreadsType).trans hreads, ?_⟩
    -- the type is read without a place and put into the field
    have hplaced := @conforms_utf8Record_withPlace _ (some fieldPlace) _ _ htype
    have hattributes : Conforms extended { symbol := .attributes .never } Node.noAttributes :=
      conforms_noAttributes (by simp)
    cases required with
    | some required =>
        obtain rfl := hplain rfl
        exact .of_form _ List.mem_cons_self rfl
          (.node hattributes (.token (hrequired.accepted required rfl) (.node hplaced
            (.token hname (.token htermination .nil)))))
    | none =>
        exact .of_form _ (List.mem_cons_of_mem _ List.mem_cons_self) rfl
          (.node hattributes (.node hplaced (.token hname (.nodeOption hvalue
            (.token htermination .nil)))))
  · rintro rfl
    rcases rewinding_eq_ok.mp h with ⟨_, hsome, -⟩ | ⟨-, middle, hnone, -⟩
    · cases hsome
    obtain ⟨required, afterRequired, hrequired, hnone⟩ := (oneOf_inline? _).bind hnone
    obtain ⟨type, afterType, htype, hnone⟩ := bind_eq_ok.mp hnone
    cases type with
    | some type =>
        obtain ⟨body, _, hbody, hnone⟩ := bind_eq_ok.mp hnone
        exact absurd (pure_eq_ok.mp hnone).1 (by simp)
    | none =>
        -- the record is missed behind `required` or without it
        have hnot := (found_utf8StringRecord hnested htype).2 rfl
        cases required with
        | none =>
            rw [Scope.rest_congr hrequired.none] at hnot
            refine ⟨hnot, fun word rest hrest hword => ?_⟩
            exact absurd hword (not_accepts_of_declined hrequired hrest)
        | some required =>
            have hword := hrequired.accepted required rfl
            refine ⟨?_, fun next rest hrest _ => rest_of_taken hrequired hrest ▸ hnot⟩
            rintro ⟨base, opening, key, rest, hrest, hbase, -⟩
            obtain rfl : base = required := by
              simpa [hrest] using hrequired.head?_eq
            exact absurd ((accepts_word.mp hword).2.symm.trans (accepts_word.mp hbase).2) (by decide)

theorem found_utf8StringTypedef (hnested : Sound extended scope nested) {found : Option Node}
    (h : utf8StringTypedef nested scope cursor = .ok found moved) :
    Found scope (Conforms extended { symbol := .utf8StringTypedef, mode := .never }) cursor
      found moved ∧ (found = none → Absent .utf8StringTypedef (scope.rest cursor)) := by
  constructor
  · refine found_rewinding h fun node hnode => ?_
    obtain ⟨base, afterBase, hbase, hnode⟩ := (oneOf_inline? _).bind hnode
    cases base with
    | none => exact absurd (pure_eq_ok.mp hnode).1 (by simp)
    | some base =>
    obtain ⟨type, afterType, htype, hnode⟩ := bind_eq_ok.mp hnode
    have htype := (found_utf8StringRecord hnested htype).1
    cases type with
    | none => exact absurd (pure_eq_ok.mp hnode).1 (by simp)
    | some type =>
    obtain ⟨hreadsType, htype⟩ := htype
    obtain ⟨body, _, hbody, hnode⟩ := bind_eq_ok.mp hnode
    obtain ⟨hsome, rfl⟩ := pure_eq_ok.mp hnode
    obtain rfl := Option.some.inj hsome
    obtain ⟨name, termination, rfl, hreads, hname, htermination⟩ := typedefBody_eq_ok hbody
    refine ⟨by simpa [bare, Node.tokens, tokensOf] using
      (hbase.reads.trans hreadsType).trans hreads, ?_⟩
    have hplaced := @conforms_utf8Record_withPlace _ (some typedefPlace) _ _ htype
    exact .of_form _ (List.mem_singleton_self _) rfl
      (.node (conforms_noAttributes (by simp)) (.token (hbase.accepted base rfl) (.node hplaced
        (.token hname (.token htermination .nil)))))
  · -- declined behind the word `typedef`, so no such record stands there
    rintro rfl word rest hrest hword
    rcases rewinding_eq_ok.mp h with ⟨_, hsome, -⟩ | ⟨-, middle, hnone, -⟩
    · cases hsome
    obtain ⟨base, afterBase, hbase, hnone⟩ := (oneOf_inline? _).bind hnone
    cases base with
    | none => exact absurd hword (not_accepts_of_declined hbase hrest)
    | some base =>
    obtain ⟨type, afterType, htype, hnone⟩ := bind_eq_ok.mp hnone
    cases type with
    | some type =>
        obtain ⟨body, _, hbody, hnone⟩ := bind_eq_ok.mp hnone
        exact absurd (pure_eq_ok.mp hnone).1 (by simp)
    | none => exact rest_of_taken hbase hrest ▸ (found_utf8StringRecord hnested htype).2 rfl

end

end WebIdl.Grammar
