import WebIdl.Proofs.Sound.Coverage
import WebIdl.Proofs.Shape.Legible
import WebIdl.Proofs.Tree.Located
import WebIdl.Proofs.Validation.Mends

/-!
# Making repairs

A document is mended step by step: rules look it over, and the repairs of what they have found, now
or earlier, are made in any order and any number of times.  Every repair that a rule proposes can be
made (`Diagnostic.exists_fix`), and it can still be made after others: no repair takes away what
another one needs (`Suited.fix`).
-/

namespace WebIdl

open WebIdl.Shape

/-! ## The items of a document -/

/-- The items are well-formed definitions and, behind them, the end of the text. -/
def FormedItems (extended : Bool) (items : List Node) : Prop :=
  ∃ nodes last, items = nodes ++ [Node.ofEof last] ∧ last.kind = .eof ∧
    ∀ node ∈ nodes, Formed extended { symbol := .definition } node

section

variable {extended : Bool}

/-- What is inside a well-formed construct is well formed. -/
theorem Shape.Formed.at? {category : Category} {node inner : Node} {path : List Nat}
    (h : Formed extended category node) (hcategory : category.isRegular = true)
    (hinner : node.at? path = some inner) :
    ∃ own : Category, own.isRegular = true ∧ Formed extended own inner ∧
      (path = [] → own = category) := by
  induction path generalizing category node with
  | nil =>
      obtain rfl : node = inner := by simpa [Node.at?] using hinner
      exact ⟨category, hcategory, h, fun _ => rfl⟩
  | cons number path ih =>
      obtain ⟨child, hchild, hbelow⟩ := Option.bind_eq_some_iff.mp hinner
      obtain ⟨label, parts⟩ := node
      obtain ⟨front, role, back, rfl, -⟩ := exists_split hchild
      obtain ⟨own, hregular, hformed, -⟩ :=
        h.child hcategory (List.mem_append_right front List.mem_cons_self)
      obtain ⟨deeper, hdeeper, hfound, -⟩ := ih hformed hregular hbelow
      exact ⟨deeper, hdeeper, hfound, fun hnil => by cases hnil⟩

/-- A construct inside a document is well formed, or it is the end of the text. -/
theorem FormedItems.node? {items : List Node} {site : Site} {node : Node}
    (h : FormedItems extended items) (hnode : site.node? items = some node) :
    (∃ own : Category, own.isRegular = true ∧ Formed extended own node ∧
      (site.path = [] → own = { symbol := .definition })) ∨ ∃ last, node = Node.ofEof last := by
  obtain ⟨nodes, last, rfl, -, hnodes⟩ := h
  obtain ⟨item, hitem, hat⟩ := Option.bind_eq_some_iff.mp hnode
  rcases List.mem_append.mp (List.mem_of_getElem? hitem) with hdefinition | heof
  · exact Or.inl ((hnodes item hdefinition).at? rfl hat)
  · obtain rfl := List.mem_singleton.mp heof
    cases hpath : site.path with
    | nil =>
        rw [hpath] at hat
        exact Or.inr ⟨last, (Option.some.inj hat).symm⟩
    | cons number path =>
        rw [hpath] at hat
        cases hat

/-- No rule fails in a well-formed document. -/
theorem FormedItems.legible {items : List Node} (h : FormedItems extended items) :
    Legible items := by
  intro site node hmem
  rcases h.node? (node?_of_mem_located hmem) with ⟨own, hregular, hformed, -⟩ | ⟨last, rfl⟩
  · exact hformed.isLegible hregular
  · -- the end of the text has neither a name nor constructs inside
    exact ⟨nofun, nofun, nofun⟩

theorem FormedItems.swap {items others : List Node} {site : Site} {old new : Node}
    (h : FormedItems extended items) (hswaps : SwapsAt site old new items others)
    (hold : old.construct ≠ .eof)
    (hnew : GivesWay extended old new ∨ site.path = [] ∧
      (Formed extended { symbol := .definition } old →
        Formed extended { symbol := .definition } new)) : FormedItems extended others := by
  obtain ⟨nodes, last, rfl, hlast, hnodes⟩ := h
  obtain ⟨front, node, changed, back, hitems, -, hswaps, rfl⟩ := hswaps
  rcases List.eq_nil_or_concat back with rfl | ⟨back, item, rfl⟩
  · -- nothing inside the end of the text can be swapped
    obtain ⟨rfl, heof⟩ := List.append_inj' hitems rfl
    obtain rfl : Node.ofEof last = node := by simpa using heof
    generalize hpath : site.path = path at hswaps
    generalize hnode : Node.ofEof last = node at hswaps
    cases hswaps with
    | here => exact absurd (by rw [← hnode]; rfl) hold
    | inside label front role back _ =>
        cases front <;> simp [Node.ofEof] at hnode
  · rw [List.concat_eq_append, ← List.cons_append, ← List.append_assoc] at hitems ⊢
    obtain ⟨rfl, heof⟩ := List.append_inj' hitems rfl
    obtain rfl : Node.ofEof last = item := by simpa using heof
    refine ⟨_, last, rfl, hlast, fun other hother => ?_⟩
    have hdefinition := hnodes node (by simp)
    have hchanged : Formed extended { symbol := .definition } changed := by
      rcases hnew with hgives | ⟨hpath, htop⟩
      · exact hgives.swap hswaps _ rfl hdefinition
      · rw [hpath] at hswaps
        cases hswaps
        exact htop hdefinition
    rcases List.mem_append.mp hother with hother | hother
    · exact hnodes other (List.mem_append_left _ hother)
    · rcases List.mem_cons.mp hother with rfl | hother
      · exact hchanged
      · exact hnodes other (by simp [hother])

end

/-! ## One repair -/

/-- No repair is for the end of the text, a default value or a list of attributes. -/
theorem Repair.Suits.construct_ne {repair : Repair} {node : Node} {construct : Construct}
    (h : repair.Suits node) (hnone : construct ∈ [.eof, .default, .extendedAttributes]) :
    node.construct ≠ construct := by
  intro heq
  simp only [List.mem_cons, List.not_mem_nil, or_false] at hnone
  cases repair with
  | replaceVoid =>
      rcases hnone with rfl | rfl | rfl <;> simp [Repair.Suits, heq, Construct.isType] at h
  | addExposed =>
      rcases hnone with rfl | rfl | rfl <;> simp [Repair.Suits, Rule.needsExposure, heq] at h
  | rename => rcases hnone with rfl | rfl | rfl <;> simp [Repair.Suits, heq] at h
  | addDefault => rcases hnone with rfl | rfl | rfl <;> simp [Repair.Suits, heq] at h

namespace Diagnostic

/-- The repair of the diagnostic, if it has one, suits the construct at its place. -/
def Suited (diagnostic : Diagnostic) (items : List Node) : Prop :=
  ∀ repair ∈ diagnostic.repair, (repair = .addExposed → diagnostic.site.path = []) ∧
    ∃ node, diagnostic.site.node? items = some node ∧ repair.Suits node

theorem repair_of_fix {diagnostic : Diagnostic} {items others : List Node}
    (h : diagnostic.fix items = .ok others) : ∃ repair, diagnostic.repair = some repair := by
  cases hrepair : diagnostic.repair with
  | none => simp [fix, hrepair] at h
  | some repair => exact ⟨repair, rfl⟩

/-- A repair can be made where it suits.  It changes one construct or nothing, and the document stays
well formed. -/
theorem exists_fix {extended : Bool} {diagnostic : Diagnostic} {items : List Node}
    {repair : Repair} (hitems : FormedItems extended items) (hsuited : diagnostic.Suited items)
    (hrepair : diagnostic.repair = some repair) :
    ∃ old new others, repair.Suits old ∧ diagnostic.fix items = .ok others ∧
      SwapsAt diagnostic.site old new items others ∧ FormedItems extended others ∧
      (new = old ∧ repair.Made old ∨ Mends repair old new) := by
  obtain ⟨htop, old, hold, hsuits⟩ := hsuited repair hrepair
  have heof : old.construct ≠ .eof := hsuits.construct_ne (by simp)
  obtain ⟨own, hregular, hformed, hown⟩ :=
    (hitems.node? hold).resolve_right fun hlast => by
      obtain ⟨last, heq⟩ := hlast
      exact heof (congrArg Node.construct heq)
  obtain ⟨new, happly, hmends, -⟩ :=
    exists_mends hformed hregular hsuits fun hexposed => hown (htop hexposed)
  have hswaps := diagnostic.site.swapsAt_modify hold new
  refine ⟨old, new, _, hsuits, ?_, hswaps, hitems.swap hswaps heof ?_, hmends⟩
  · simp [fix, hrepair, hold, happly]
  · by_cases hexposed : repair = .addExposed
    · refine Or.inr ⟨htop hexposed, fun hdefinition => ?_⟩
      obtain ⟨other, hother, -, hchanged⟩ := exists_mends hdefinition rfl hsuits fun _ => rfl
      rwa [Except.ok.inj (happly.symm.trans hother)]
    · refine Or.inl fun category hcategory hcase => ?_
      obtain ⟨other, hother, -, hchanged⟩ :=
        exists_mends hcase hcategory hsuits fun h => absurd h hexposed
      rwa [Except.ok.inj (happly.symm.trans hother)]

end Diagnostic

/-! ## What repairs leave for others -/

/-- Every repair that suits the first construct suits the second. -/
def Keeps (node changed : Node) : Prop :=
  ∀ repair : Repair, repair.Suits node → repair.Suits changed

/-- Every construct inside the first one has its like at the same place of the second. -/
def Extends (node changed : Node) : Prop :=
  ∀ path inner, node.at? path = some inner → ∃ other, changed.at? path = some other ∧
    Keeps inner other

theorem Extends.refl (node : Node) : Extends node node :=
  fun _ inner h => ⟨inner, h, fun _ hsuits => hsuits⟩

theorem extends_of_children {node changed : Node} (h : Keeps node changed)
    (hchildren : ∀ (number : Nat) (child : Node), node.children[number]? = some child →
      ∃ other, changed.children[number]? = some other ∧ Extends child other) :
    Extends node changed := by
  intro path inner hinner
  cases path with
  | nil =>
      obtain rfl : node = inner := by simpa [Node.at?] using hinner
      exact ⟨changed, rfl, h⟩
  | cons number path =>
      obtain ⟨child, hchild, hbelow⟩ := Option.bind_eq_some_iff.mp hinner
      obtain ⟨other, hother, hextends⟩ := hchildren number child hchild
      obtain ⟨found, hfound, hkeeps⟩ := hextends path inner hbelow
      exact ⟨found, by rw [Node.at?, hother]; exact hfound, hkeeps⟩

theorem Node.nameOrEmpty_congr {node other : Node} (hconstruct : other.construct = node.construct)
    (hname : other.token? .name = node.token? .name) : other.nameOrEmpty = node.nameOrEmpty := by
  rw [Node.nameOrEmpty_eq, Node.nameOrEmpty_eq, hconstruct, hname]

/-- A construct keeps what repairs need if its own words and its default value stay as they are, or
become what repairs make of them. -/
theorem keeps_of_views {node changed : Node} (hconstruct : changed.construct = node.construct)
    (hname : changed.nameOrEmpty = node.nameOrEmpty ∨ ∃ former newName,
      Rule.IsRenamed former newName node.nameOrEmpty ∧ changed.nameOrEmpty = newName)
    (hbase : ∀ base ∈ node.token? .base, ∃ other ∈ changed.token? .base, other.kind = base.kind ∧
      (other.text = base.text ∨ other.text = "undefined"))
    (hpartial : changed.has .partiality = node.has .partiality)
    (hoptional : changed.has .optional = node.has .optional)
    (hdefault : node.node? .default = none ∨ node.node? .default = some Repair.emptyDictionary →
      changed.node? .default = none ∨ changed.node? .default = some Repair.emptyDictionary) :
    Keeps node changed := by
  intro repair hsuits
  cases repair with
  | replaceVoid =>
      obtain ⟨htype, base, hfound, hkind, htext⟩ := hsuits
      obtain ⟨other, hother, hsame, hword⟩ := hbase base hfound
      refine ⟨hconstruct ▸ htype, other, hother, hsame.trans hkind, ?_⟩
      rcases hword with hword | hword
      · rwa [hword]
      · exact Or.inr hword
  | addExposed =>
      rw [Repair.Suits, Rule.needsExposure] at hsuits ⊢
      rwa [hconstruct, Node.isPartial, hpartial]
  | rename name =>
      obtain ⟨hattribute, former, hrenamed⟩ := hsuits
      refine ⟨hconstruct.trans hattribute, former, ?_⟩
      rcases hname with hsame | ⟨other, newName, hother, hsame⟩
      · rwa [hsame]
      · exact ⟨hrenamed.1, Or.inr (hsame.trans (hother.unique hrenamed))⟩
  | addDefault =>
      obtain ⟨hargument, hword, hvalue⟩ := hsuits
      exact ⟨hconstruct.trans hargument, hoptional.trans hword, hdefault hvalue⟩

/-- A separator behind a construct changes nothing for repairs. -/
theorem extends_withSeparator (node : Node) (separator : Token) :
    Extends node (node.withSeparator (some separator)) := by
  obtain ⟨label, parts⟩ := node
  refine extends_of_children (keeps_of_views rfl ?_ ?_ ?_ ?_ ?_) fun number child hchild =>
    ⟨child, by simpa [Node.withSeparator] using hchild, .refl child⟩
  · exact Or.inl (Node.nameOrEmpty_congr rfl (by simp [Node.withSeparator, Node.token?_append]))
  · intro base hbase
    refine ⟨base, ?_, rfl, Or.inl rfl⟩
    rw [Option.mem_def] at hbase ⊢
    rw [Node.withSeparator, Node.token?_append, hbase, Option.some_or]
  · simp [Node.withSeparator, Node.has, Node.token?_append]
  · simp [Node.withSeparator, Node.has, Node.token?_append]
  · simp [Node.withSeparator, Node.node?_append]

/-- What is inside a construct that is mended is still there, for repairs. -/
theorem Mends.extends {repair : Repair} {old new : Node} (h : Mends repair old new) :
    Extends old new := by
  cases h with
  | void htype hkind htext =>
      refine extends_of_children (keeps_of_views rfl ?_ ?_ ?_ ?_ ?_) fun number child hchild =>
        ⟨child, hchild, .refl child⟩
      · exact Or.inl (Node.nameOrEmpty_congr rfl (by simp))
      all_goals simp [Node.has]
  | @rename label name rest newName hconstruct hkind former hname =>
      refine extends_of_children (keeps_of_views rfl ?_ ?_ ?_ ?_ ?_) fun number child hchild =>
        ⟨child, hchild, .refl child⟩
      · refine Or.inr ⟨former, newName, ?_, ?_⟩
        · rwa [Node.nameOrEmpty_extendedAttribute hconstruct hkind]
        · have hplain : unescape newName = newName := by
            have hall : ∀ pair ∈ Rule.legacyNames, unescape pair.2 = pair.2 := by decide
            exact hall _ hname.1
          rw [Node.nameOrEmpty_extendedAttribute hconstruct (by exact hkind), hplain]
      · exact fun base hbase => ⟨base, by simpa using hbase, rfl, Or.inl rfl⟩
      all_goals simp [Node.has]
  | default hconstruct hname =>
      refine extends_of_children (keeps_of_views rfl ?_ ?_ ?_ ?_ ?_) fun number child hchild =>
        ⟨child, ?_, .refl child⟩
      · exact Or.inl (Node.nameOrEmpty_congr rfl (by simp))
      · simp
      · simp [Node.has]
      · simp [Node.has]
      · simp
      · -- the default value is the last child
        rcases number with _ | _ | number
        · exact hchild
        · exact hchild
        · simp at hchild
  -- the list gets an item, and the one before it gets a comma
  | @join label own opening closing front last rest hclosing hlast =>
      have hitems : Extends
          (.mk own (.token .opening opening :: Part.ofNodes .item (front ++ [last]) ++
            [.token .closing closing]))
          (.mk own (.token .opening opening ::
            Part.ofNodes .item (front ++ [last.withSeparator Repair.comma, Repair.exposed " "]) ++
              [.token .closing closing])) := by
        refine extends_of_children (keeps_of_views rfl ?_ ?_ ?_ ?_ ?_) fun number child hchild => ?_
        · exact Or.inl (Node.nameOrEmpty_congr rfl (by simp))
        · simp
        · simp [Node.has]
        · simp [Node.has]
        · simp
        · simp only [Node.children_mk, List.cons_append, childrenOf_token, childrenOf_append,
            childrenOf_ofNodes, childrenOf_nil, List.append_nil] at hchild ⊢
          rcases Nat.lt_trichotomy number front.length with hlt | rfl | hgt
          · rw [List.getElem?_append_left hlt] at hchild ⊢
            exact ⟨child, hchild, .refl child⟩
          · obtain rfl : last = child := by simpa using hchild
            exact ⟨_, by simp, extends_withSeparator last Repair.comma⟩
          · have hout : (front ++ [last])[number]? = none := List.getElem?_eq_none (by simp; omega)
            rw [hout] at hchild
            cases hchild
      refine extends_of_children (keeps_of_views rfl ?_ ?_ ?_ ?_ ?_) fun number child hchild => ?_
      · exact Or.inl (Node.nameOrEmpty_congr rfl (by simp))
      · exact fun base hbase => ⟨base, by simpa using hbase, rfl, Or.inl rfl⟩
      · simp [Node.has]
      · simp [Node.has]
      · simp
      · cases number with
        | zero =>
            obtain rfl := Option.some.inj hchild
            exact ⟨_, rfl, hitems⟩
        | succ number => exact ⟨child, hchild, .refl child⟩
  -- an empty list of attributes becomes one with an item, so nothing has to stay
  | @lead label own base rest hown hbase =>
      refine extends_of_children (keeps_of_views rfl ?_ ?_ ?_ ?_ ?_) fun number child hchild => ?_
      · exact Or.inl (Node.nameOrEmpty_congr rfl (by simp))
      · simp
      · simp [Node.has]
      · simp [Node.has]
      · simp
      · cases number with
        | zero =>
            obtain rfl := Option.some.inj hchild
            refine ⟨_, rfl, extends_of_children (keeps_of_views hown.symm ?_ ?_ ?_ ?_ ?_) ?_⟩
            · exact Or.inl (Node.nameOrEmpty_congr hown.symm (by simp [Repair.exposedList]))
            all_goals simp [Node.has, Repair.exposedList]
        | succ number => exact ⟨child, hchild, .refl child⟩

/-- What is inside the default value that repairs add cannot be mended. -/
theorem Swaps.ne_emptyDictionary {old new node changed : Node} {path : List Nat}
    (h : Swaps old new path node changed) (hold : old.construct ≠ .default) :
    node ≠ Repair.emptyDictionary := by
  intro heq
  cases h with
  | here => exact hold (by rw [heq]; rfl)
  | inside label front role back _ =>
      have hchildren := congrArg Node.children heq
      simp [Repair.emptyDictionary] at hchildren

/-- What is inside a tree is still there, for repairs, if what is inside the construct that is swapped
in it is. -/
theorem Swaps.extends {old new node changed : Node} {path : List Nat}
    (h : Swaps old new path node changed) (hold : old.construct ≠ .default)
    (hnew : Extends old new) : Extends node changed := by
  -- along the path: only the child on it changes, and it stays where it is
  induction h with
  | here => exact hnew
  | @inside path child changed label front role back hbelow ih =>
      have hne := hbelow.ne_emptyDictionary hold
      refine extends_of_children (keeps_of_views rfl ?_ ?_ ?_ ?_ ?_) fun number inner hinner => ?_
      · exact Or.inl (Node.nameOrEmpty_congr rfl (by simp [Node.token?_append]))
      · exact fun base hbase =>
          ⟨base, by simpa [Node.token?_append] using hbase, rfl, Or.inl rfl⟩
      · simp [Node.has, Node.token?_append]
      · simp [Node.has, Node.token?_append]
      · rw [Node.node?_append, Node.node?_append, Node.node?_node, Node.node?_node]
        by_cases hrole : role = .default
        · -- a default value in the front hides this one, which is not the one that repairs add
          cases (Node.mk label front).node? .default with
          | none => simp [hrole, hne]
          | some value => simp
        · rw [if_neg hrole, if_neg hrole]
          exact id
      · simp only [Node.children_mk, childrenOf_append, childrenOf_node] at hinner ⊢
        rcases Nat.lt_trichotomy number (childrenOf front).length with hlt | rfl | hgt
        · rw [List.getElem?_append_left hlt] at hinner ⊢
          exact ⟨inner, hinner, .refl inner⟩
        · obtain rfl : child = inner := by simpa using hinner
          exact ⟨changed, by simp, ih⟩
        · rw [List.getElem?_append_right (Nat.le_of_lt hgt)] at hinner ⊢
          obtain ⟨later, hlater⟩ := Nat.exists_eq_add_of_lt hgt
          rw [hlater, show (childrenOf front).length + later + 1 - (childrenOf front).length =
            later + 1 by omega] at hinner ⊢
          exact ⟨inner, hinner, .refl inner⟩

theorem SwapsAt.node?_of_extends {site other : Site} {old new node : Node}
    {items others : List Node} (h : SwapsAt site old new items others)
    (hold : old.construct ≠ .default) (hnew : Extends old new)
    (hnode : other.node? items = some node) :
    ∃ found, other.node? others = some found ∧ Keeps node found := by
  obtain ⟨front, item, changed, back, rfl, -, hswaps, rfl⟩ := h
  obtain ⟨own, hown, hat⟩ := Option.bind_eq_some_iff.mp hnode
  rw [Site.node?]
  rcases Nat.lt_trichotomy other.item front.length with hlt | heq | hgt
  · rw [List.getElem?_append_left hlt] at hown ⊢
    exact ⟨node, by rw [hown]; exact hat, fun _ hsuits => hsuits⟩
  · rw [heq] at hown ⊢
    obtain rfl : item = own := by simpa using hown
    rw [List.getElem?_append_right (Nat.le_refl _), Nat.sub_self]
    exact hswaps.extends hold hnew _ _ hat
  · obtain ⟨later, hlater⟩ := Nat.exists_eq_add_of_lt hgt
    rw [List.getElem?_append_right (Nat.le_of_lt hgt), hlater,
      show front.length + later + 1 - front.length = later + 1 by omega] at hown ⊢
    exact ⟨node, by rw [show (changed :: back)[later + 1]? = some own from hown]; exact hat,
      fun _ hsuits => hsuits⟩

/-- A repair that can be made can still be made after another one. -/
theorem Diagnostic.Suited.fix {diagnostic : Diagnostic} {items others : List Node} {site : Site}
    {repair : Repair} {old new : Node} (h : diagnostic.Suited items)
    (hswaps : SwapsAt site old new items others) (hsuits : repair.Suits old)
    (hmends : new = old ∧ repair.Made old ∨ Mends repair old new) : diagnostic.Suited others := by
  have hextends : Extends old new := by
    rcases hmends with ⟨rfl, -⟩ | hmends
    · exact .refl _
    · exact hmends.extends
  intro own hown
  obtain ⟨htop, node, hnode, hfits⟩ := h own hown
  obtain ⟨found, hfound, hkeeps⟩ :=
    hswaps.node?_of_extends (hsuits.construct_ne (by simp)) hextends hnode
  exact ⟨htop, found, hfound, hkeeps own hfits⟩

/-! ## What rules find -/

theorem tokens_subset_of_node? {items : List Node} {site : Site} {node : Node}
    (h : site.node? items = some node) : node.tokens ⊆ items.flatMap Node.tokens := by
  obtain ⟨before, after, heq, -⟩ := (site.swapsAt_modify h node).tokens_eq
  rw [heq]
  exact fun token htoken => by simp [htoken]

theorem noDuplicate_repair {claimed : List Node} {definitions : List (Site × Node)}
    {diagnostic : Diagnostic} (h : diagnostic ∈ Rule.duplicatesFrom claimed definitions) :
    diagnostic.repair = none := by
  induction definitions generalizing claimed with
  | nil => cases h
  | cons definition rest ih =>
      rw [Rule.duplicatesFrom] at h
      split at h
      · rcases List.mem_cons.mp h with rfl | h
        · rfl
        · exact ih h
      · exact ih h

/-- The constructs in the role of arguments are arguments. -/
theorem Shape.Formed.argument_of_mem {extended : Bool} {category : Category} {node child : Node}
    (h : Formed extended category node) (hcategory : category.isRegular = true)
    (hchild : .node .argument child ∈ node.parts) : child.construct = .argument := by
  obtain ⟨own, -, hformed, hapt⟩ := h.child hcategory hchild
  obtain ⟨symbol, mode, separator⟩ := own
  cases symbol with
  | argument =>
      obtain ⟨hown, hconstruct, -, -⟩ := hformed
      simp only [Symbol.forms, Symbol.ownForms, argumentForms, List.mem_cons, List.not_mem_nil,
        or_false] at hown
      rcases hown with rfl | rfl <;> exact hconstruct
  | _ => cases hapt

/-- In a well-formed document whose only `void` is the keyword, a repair that a rule proposes suits
the construct and has not been made yet. -/
theorem Diagnostic.suits_of_mem_objections {extended : Bool} {items : List Node}
    {diagnostic : Diagnostic} {repair : Repair} (hitems : FormedItems extended items)
    (hvoid : ∀ token ∈ items.flatMap Node.tokens, token.text = "void" → token.kind = .inline)
    (h : diagnostic ∈ objections Rule.all items) (hrepair : diagnostic.repair = some repair) :
    (repair = .addExposed → diagnostic.site.path = []) ∧
      ∃ node, diagnostic.site.node? items = some node ∧ repair.Suits node ∧ ¬repair.Made node := by
  obtain ⟨rule, -, hrule⟩ := List.mem_flatMap.mp h
  -- each rule that repairs reports a node that its repair suits
  cases rule with
  | replaceVoid =>
      obtain ⟨⟨site, node⟩, hlocated, hfound⟩ := List.mem_filterMap.mp hrule
      obtain ⟨base, hbase, hfound⟩ := Option.bind_eq_some_iff.mp hfound
      split at hfound
      · rename_i hcase
        obtain rfl := Option.some.inj hfound
        obtain rfl := Option.some.inj hrepair
        simp only [Bool.and_eq_true, beq_iff_eq] at hcase
        have hnode := node?_of_mem_located hlocated
        have hkind := hvoid base (tokens_subset_of_node? hnode (mem_tokens_of_token? hbase)) hcase.2
        refine ⟨fun hexposed => (by cases hexposed), node, hnode,
          ⟨hcase.1, base, hbase, hkind, Or.inl hcase.2⟩, ?_⟩
        rintro ⟨other, hother, htext⟩
        rw [hbase] at hother
        obtain rfl := Option.some.inj hother
        rw [hcase.2] at htext
        exact absurd htext (by decide)
      · cases hfound
  | requireExposed =>
      obtain ⟨⟨site, node⟩, hdefinition, rfl⟩ := List.mem_map.mp hrule
      obtain rfl := Option.some.inj hrepair
      obtain ⟨hdefinition, hneeds⟩ := List.mem_filter.mp hdefinition
      obtain ⟨⟨item, number⟩, hitem, heq⟩ := List.mem_map.mp (List.mem_filter.mp hdefinition).1
      obtain ⟨rfl, rfl⟩ := Prod.mk.inj heq
      rw [List.mk_mem_zipIdx_iff_getElem?] at hitem
      refine ⟨fun _ => rfl, item, ?_, (Bool.and_eq_true_iff.mp hneeds).1, id⟩
      change Site.node? ⟨number, []⟩ items = some item
      rw [Site.node?, hitem]
      rfl
  | renamedLegacy =>
      obtain ⟨⟨site, node⟩, hlocated, hfound⟩ := List.mem_filterMap.mp hrule
      dsimp only at hfound
      split at hfound
      · rename_i hconstruct
        obtain ⟨name, hname, rfl⟩ := Option.map_eq_some_iff.mp hfound
        obtain rfl := Option.some.inj hrepair
        obtain ⟨front, back, hnames, -⟩ := List.lookup_eq_some_iff.mp hname
        refine ⟨fun hexposed => (by cases hexposed), node, node?_of_mem_located hlocated,
          ⟨beq_iff_eq.mp hconstruct, node.nameOrEmpty, ?_, Or.inl rfl⟩, id⟩
        rw [hnames]
        simp
      · cases hfound
  | dictArgDefault =>
      obtain ⟨⟨site, owner⟩, hlocated, hfound⟩ := List.mem_flatMap.mp hrule
      obtain ⟨⟨number, argument⟩, hargument, rfl⟩ := List.mem_map.mp hfound
      obtain ⟨hnumbered, hlacks⟩ := List.mem_filter.mp hargument
      obtain rfl := Option.some.inj hrepair
      obtain ⟨hchild, hpart⟩ := Node.mem_numberedAs hnumbered
      have howner := node?_of_mem_located hlocated
      -- only the arguments of a formed node stand in that role
      have hconstruct : argument.construct = .argument := by
        rcases hitems.node? howner with ⟨own, hregular, hformed, -⟩ | ⟨last, rfl⟩
        · exact hformed.argument_of_mem hregular hpart
        · simp [Node.ofEof, Node.parts] at hpart
      simp only [Rule.lacksDefault] at hlacks
      split at hlacks
      · cases hlacks
      simp only [Bool.and_eq_true, Option.isNone_iff_eq_none] at hlacks
      obtain ⟨hoptional, hnone⟩ := hlacks.1.1.1.1
      refine ⟨fun hexposed => (by cases hexposed), argument, ?_, ⟨hconstruct, hoptional, Or.inl hnone⟩,
        fun hmade => ?_⟩
      · obtain ⟨item, hitem, hat⟩ := Option.bind_eq_some_iff.mp howner
        change Site.node? ⟨site.item, site.path ++ [number]⟩ items = some argument
        rw [Site.node?, hitem, Option.bind_some, Node.at?_append, hat, Option.bind_some, Node.at?,
          hchild]
        rfl
      · rw [Repair.Made, hnone] at hmade
        cases hmade
  | noDuplicate =>
      rw [noDuplicate_repair hrule] at hrepair
      cases hrepair
  | attrInvalidType =>
      obtain ⟨⟨site, node⟩, -, hfound⟩ := List.mem_filterMap.mp hrule
      obtain ⟨type, -, hfound⟩ := Option.bind_eq_some_iff.mp hfound
      split at hfound
      · obtain ⟨reason, -, rfl⟩ := Option.map_eq_some_iff.mp hfound
        cases hrepair
      · cases hfound

theorem Diagnostic.suited_of_mem_objections {extended : Bool} {items : List Node}
    {diagnostic : Diagnostic} (hitems : FormedItems extended items)
    (hvoid : ∀ token ∈ items.flatMap Node.tokens, token.text = "void" → token.kind = .inline)
    (h : diagnostic ∈ objections Rule.all items) : diagnostic.Suited items := by
  intro repair hrepair
  obtain ⟨htop, node, hnode, hsuits, -⟩ := suits_of_mem_objections hitems hvoid h hrepair
  exact ⟨htop, node, hnode, hsuits⟩

end WebIdl
