import WebIdl.Proofs.Tree.Mapped
import WebIdl.Proofs.Validation.Found

/-!
# What a repair does to the findings of the rules
-/

namespace WebIdl

open WebIdl.Shape

/-! ## Inside a construct that is mended -/

/-- The rule looks at no more of a construct than at its own words, and finds nothing in what repairs
put in. -/
structure IsShallow (find : Site → Node → List Diagnostic) : Prop where
  isLocal : IsLocal find
  separator : ∀ site node token, find site (node.withSeparator (some token)) = find site node
  unwritten : ∀ site label, find site (.mk label []) = []
  list : ∀ site label opening closing nodes, find site (.mk label (.token .opening opening ::
    Part.ofNodes .item nodes ++ [.token .closing closing])) = []
  exposed : ∀ site trivia, find site (Repair.exposed trivia) = []
  emptyDictionary : ∀ site, find site Repair.emptyDictionary = []

section

variable {find : Site → Node → List Diagnostic} {repair : Repair} {old new : Node}

theorem foundFrom_ofNodes (site : Site) (number : Nat) (role : Role) (nodes : List Node) :
    foundFrom find site number (Part.ofNodes role nodes) =
      (nodes.zipIdx number).flatMap fun (node, index) => foundIn find (site.below [index]) node := by
  induction nodes generalizing number with
  | nil => rfl
  | cons node nodes ih =>
      rw [show Part.ofNodes role (node :: nodes) = .node role node :: Part.ofNodes role nodes from rfl,
        foundFrom_node, ih, List.zipIdx_cons, List.flatMap_cons]

namespace IsShallow

theorem foundIn_separator (h : IsShallow find) (site : Site) (node : Node) (token : Token) :
    foundIn find site (node.withSeparator (some token)) = foundIn find site node := by
  have hself := h.separator site node token
  obtain ⟨label, parts⟩ := node
  rw [Node.withSeparator] at hself ⊢
  rw [foundIn_mk, foundIn_mk, hself, foundFrom_append, foundFrom_ofToken?, List.append_nil]

theorem foundIn_exposed (h : IsShallow find) (site : Site) (trivia : String) :
    foundIn find site (Repair.exposed trivia) = [] := by
  have hself := h.exposed site trivia
  rw [Repair.exposed] at hself ⊢
  rw [foundIn_mk, hself]
  simp

theorem foundIn_emptyDictionary (h : IsShallow find) (site : Site) :
    foundIn find site Repair.emptyDictionary = [] := by
  have hself := h.emptyDictionary site
  rw [Repair.emptyDictionary] at hself ⊢
  rw [foundIn_mk, hself]
  simp

theorem foundIn_list (h : IsShallow find) (site : Site) (label : Label) (opening closing : Token)
    (nodes : List Node) :
    foundIn find site (.mk label (.token .opening opening ::
      Part.ofNodes .item nodes ++ [.token .closing closing])) =
        foundFrom find site 0 (Part.ofNodes .item nodes) := by
  rw [foundIn_mk, h.list, List.nil_append, List.cons_append, foundFrom_token, foundFrom_append]
  simp

end IsShallow

/-- What is found inside a construct that is mended is found there as before. -/
theorem Mends.foundFrom_eq (h : Mends repair old new) (hfind : IsShallow find) (site : Site) :
    foundFrom find site 0 new.parts = foundFrom find site 0 old.parts := by
  cases h with
  | void _ _ _ => simp [Node.parts]
  | rename _ _ _ => simp [Node.parts]
  | default _ _ => simp [Node.parts, hfind.foundIn_emptyDictionary]
  | @join label own opening closing front last rest _ _ =>
      have hitems : foundFrom find (site.below [0]) 0 (Part.ofNodes .item
          (front ++ [last.withSeparator (some Repair.comma), Repair.exposed " "])) =
          foundFrom find (site.below [0]) 0 (Part.ofNodes .item (front ++ [last])) := by
        simp [foundFrom_ofNodes, List.zipIdx_append, hfind.foundIn_separator, hfind.foundIn_exposed]
      rw [Node.parts, Node.parts, foundFrom_node, foundFrom_node, hfind.foundIn_list,
        hfind.foundIn_list, hitems]
  | @lead label own base rest _ _ =>
      have hlist : foundIn find (site.below [0]) (Repair.exposedList base.trivia) = [] := by
        have hsame := hfind.foundIn_list (site.below [0]) { construct := .extendedAttributes }
          (Repair.inline "[" base.trivia) (Repair.inline "]" "") [Repair.exposed ""]
        refine hsame.trans ?_
        simp [foundFrom_ofNodes, hfind.foundIn_exposed]
      have hnone : foundIn find (site.below [0]) (.mk own []) = [] := by
        rw [foundIn_mk, hfind.unwritten, foundFrom_nil, List.nil_append]
      simp [Node.parts, hlist, hnone]

/-- A construct that is mended loses the finding that the repair is for, if it loses it itself. -/
theorem Mends.foundIn_eq (h : Mends repair old new) (hfind : IsShallow find) {target : Site}
    (hself : find target new = (find target old).filter (Diagnostic.stays target repair)) :
    foundIn find target new =
      (foundIn find target old).filter (Diagnostic.stays target repair) := by
  have hinside := h.foundFrom_eq hfind target
  have hbelow : (foundFrom find target 0 old.parts).filter (Diagnostic.stays target repair) =
      foundFrom find target 0 old.parts := by
    refine filter_stays_of_site fun diagnostic hmem heq => ?_
    obtain ⟨step, path, hsite, -⟩ := hfind.isLocal.foundFrom hmem
    have hnil : target.below [] = target.below ((0 + step) :: path) := by
      rw [Site.below_nil, ← hsite, heq]
    cases Site.below_inj.mp hnil
  obtain ⟨label, parts⟩ := old
  obtain ⟨label', parts'⟩ := new
  rw [Node.parts, Node.parts] at hinside
  rw [Node.parts] at hbelow
  rw [foundIn_mk, foundIn_mk, List.filter_append, hself, hinside, hbelow]

end

/-! ## The words of a construct -/

section

variable {extended : Bool} {repair : Repair} {old new node changed : Node} {path : List Nat}

namespace Mends

theorem label_eq (h : Mends repair old new) : new.label = old.label := by
  cases h <;> rfl

theorem has_eq (h : Mends repair old new) (role : Role) : new.has role = old.has role := by
  cases h with
  | void _ _ _ => by_cases hrole : Role.base = role <;> simp [Node.has, hrole]
  | rename _ _ _ => by_cases hrole : Role.name = role <;> simp [Node.has, hrole]
  | default _ _ => simp [Node.has]
  | join _ _ => simp [Node.has]
  | lead _ _ => by_cases hrole : Role.base = role <;> simp [Node.has, hrole]

theorem name_eq (h : Mends repair old new) (hrepair : ∀ name, repair ≠ .rename name) :
    new.token? .name = old.token? .name := by
  cases h with
  | rename _ _ _ => exact absurd rfl (hrepair _)
  | _ => simp

theorem value_eq (h : Mends repair old new) (hrepair : repair ≠ .replaceVoid) {role : Role}
    (hrole : role ≠ .name) :
    (new.token? role).map Token.value = (old.token? role).map Token.value := by
  cases h with
  | void _ _ _ => exact absurd rfl hrepair
  | rename _ _ _ => simp [Ne.symm hrole]
  | default _ _ => simp
  | join _ _ => simp
  | @lead label own base rest _ _ =>
      have hvalue : Token.value { base with trivia := "\n" } = base.value := rfl
      by_cases hbase : Role.base = role <;> simp [hbase, hvalue]

end Mends

namespace Swaps

theorem token?_eq (h : Swaps old new path node changed) (hpath : path ≠ []) (role : Role) :
    changed.token? role = node.token? role := by
  cases h with
  | here => exact absurd rfl hpath
  | inside label front own back _ => simp [Node.token?_append]

theorem label_eq (h : Swaps old new path node changed) (hlabel : new.label = old.label) :
    changed.label = node.label := by
  cases h with
  | here => exact hlabel
  | inside label front own back _ => rfl

theorem has_eq (h : Swaps old new path node changed) (hmends : Mends repair old new) (role : Role) :
    changed.has role = node.has role := by
  cases hpath : path with
  | nil =>
      subst hpath
      cases h
      exact hmends.has_eq role
  | cons number rest => rw [Node.has, Node.has, h.token?_eq (by simp [hpath])]

end Swaps

/-! ## Types and arguments -/

/-- What rules ask about a type. -/
structure TypeReading where
  isType : Bool
  isNullable : Bool
  typeName : String
  generic : String

def Node.typeReading (type : Node) : TypeReading where
  isType := type.construct.isType
  isNullable := type.isNullable
  typeName := type.typeName
  generic := type.genericOrEmpty

/-- The type that rules read in the construct. -/
def Node.readType (node : Node) : Option TypeReading :=
  (node.node? .type).map Node.typeReading

theorem Node.typeReading_congr {type other : Node} (hconstruct : other.construct = type.construct)
    (hhas : ∀ role, other.has role = type.has role)
    (hvalue : ∀ role, role ≠ .name →
      (other.token? role).map Token.value = (type.token? role).map Token.value) :
    other.typeReading = type.typeReading := by
  have hname : other.typeName = type.typeName := by
    refine Node.typeName_congr hconstruct (hhas _) fun role hrole => hvalue role ?_
    rintro rfl
    simp at hrole
  have hgeneric : other.genericOrEmpty = type.genericOrEmpty := by
    rw [genericOrEmpty, genericOrEmpty,
      Node.genericName_congr hconstruct (hhas _) (hvalue .base (by simp))]
  simp only [typeReading, hconstruct, Node.isNullable, hhas, hname, hgeneric]

/-- A type reads as before, unless it is the one in which `void` has been replaced. -/
theorem Swaps.typeReading_eq (h : Swaps old new path node changed) (hmends : Mends repair old new)
    (hvoid : path = [] → repair ≠ .replaceVoid) : changed.typeReading = node.typeReading := by
  have hconstruct : changed.construct = node.construct :=
    congrArg Label.construct (h.label_eq hmends.label_eq)
  refine Node.typeReading_congr hconstruct (h.has_eq hmends) fun role hrole => ?_
  cases hpath : path with
  | nil =>
      subst hpath
      cases h
      exact hmends.value_eq (hvoid rfl) hrole
  | cons number rest => rw [h.token?_eq (by simp [hpath])]

variable {category : Category} {label : Label} {front back : List Part} {role : Role}

/-- The type of an attribute or of an argument reads as before: it is never `void`. -/
theorem Swaps.typeReading_of_role (h : Swaps old new path node changed)
    (hmends : Mends repair old new) (hcategory : category.isRegular = true)
    (hformed : Formed extended category (.mk label (front ++ .node role node :: back)))
    (hconstruct : label.construct = .attribute ∨ label.construct = .argument)
    (hrole : role = .type) : changed.typeReading = node.typeReading := by
  refine h.typeReading_eq hmends ?_
  rintro rfl rfl
  cases h
  obtain ⟨own, hregular, hchild, hapt⟩ := hformed.child hcategory
    (List.mem_append_right front List.mem_cons_self)
  rw [Node.construct_mk] at hapt
  cases hmends with
  | void htype hkind htext =>
      obtain ⟨place, limit, hsymbol, -⟩ :=
        hchild.void_cases hregular htype (by simp) hkind htext
      rw [hrole, hsymbol] at hapt
      rcases hconstruct with hconstruct | hconstruct <;> rw [hconstruct] at hapt <;> cases hapt

theorem readType_around (h : role = .type → changed.typeReading = node.typeReading) :
    (Node.mk label (front ++ .node role changed :: back)).readType =
      (Node.mk label (front ++ .node role node :: back)).readType := by
  rw [Node.readType, Node.readType, Node.node?_append, Node.node?_append, Node.node?_node,
    Node.node?_node]
  cases (Node.mk label front).node? .type with
  | some type => rfl
  | none =>
      by_cases hrole : role = .type
      · simp [hrole, h hrole]
      · simp [hrole]

theorem isNone_around (own : Role) :
    ((Node.mk label (front ++ .node role changed :: back)).node? own).isNone =
      ((Node.mk label (front ++ .node role node :: back)).node? own).isNone := by
  rw [Node.node?_append, Node.node?_append, Node.node?_node, Node.node?_node]
  cases (Node.mk label front).node? own <;> by_cases hrole : role = own <;> simp [hrole]

/-- The numbers of the children in a role. -/
theorem Node.numberedAs_mk (label : Label) (parts : List Part) (role : Role) :
    (Node.mk label parts).numberedAs role = numberedAs.go role 0 parts := rfl

theorem Node.numberedAs_go_append (role : Role) (number : Nat) (front back : List Part) :
    numberedAs.go role number (front ++ back) =
      numberedAs.go role number front ++
        numberedAs.go role (number + (childrenOf front).length) back := by
  induction front generalizing number with
  | nil => rfl
  | cons part front ih =>
      cases part with
      | token own token => simpa [numberedAs.go] using ih number
      | node own inner =>
          have hrest := ih (number + 1)
          by_cases hrole : own = role <;>
            simp [numberedAs.go, hrole, hrest, Nat.add_assoc, Nat.add_comm 1]

theorem Node.range_of_mem_go {role : Role} {number place : Nat} {parts : List Part} {child : Node}
    (h : (place, child) ∈ numberedAs.go role number parts) :
    number ≤ place ∧ place < number + (childrenOf parts).length := by
  induction parts generalizing number with
  | nil => simp [numberedAs.go] at h
  | cons part parts ih =>
      cases part with
      | token own token => exact ih h
      | node own inner =>
          have hlater (hmem : (place, child) ∈ numberedAs.go role (number + 1) parts) :
              number ≤ place ∧ place < number + (inner :: childrenOf parts).length := by
            have hrange := ih hmem
            rw [List.length_cons]
            omega
          rw [numberedAs.go] at h
          split at h
          · rcases List.mem_cons.mp h with heq | hmem
            · obtain ⟨rfl, rfl⟩ := Prod.mk.inj heq
              simp
            · exact hlater hmem
          · exact hlater h

theorem Node.numberedAs_go_ofNodes {own role : Role} (hrole : own ≠ role) (number : Nat)
    (nodes : List Node) : numberedAs.go role number (Part.ofNodes own nodes) = [] := by
  induction nodes generalizing number with
  | nil => rfl
  | cons node nodes ih =>
      rw [show Part.ofNodes own (node :: nodes) = .node own node :: Part.ofNodes own nodes from rfl,
        numberedAs.go, if_neg hrole, ih]

/-- A construct that is mended has the arguments that it had. -/
theorem Mends.numberedAs_argument (h : Mends repair old new) :
    new.numberedAs .argument = old.numberedAs .argument := by
  cases h with
  | @default _ _ _ _ _ separator _ _ => cases separator <;> rfl
  | _ => rfl

end

/-! ## Rules that look at one construct at a time -/

namespace Node

variable (node : Node) (separator : Option Token)

@[simp] theorem construct_withSeparator :
    (node.withSeparator separator).construct = node.construct := by
  cases node
  rfl

theorem token?_withSeparator {role : Role} (hrole : role ≠ .separator) :
    (node.withSeparator separator).token? role = node.token? role := by
  cases node
  simp [withSeparator, token?_append, Ne.symm hrole]

@[simp] theorem node?_withSeparator (role : Role) :
    (node.withSeparator separator).node? role = node.node? role := by
  cases node
  simp [withSeparator, node?_append]

@[simp] theorem numberedAs_withSeparator (role : Role) :
    (node.withSeparator separator).numberedAs role = node.numberedAs role := by
  cases node
  cases separator <;>
    simp [withSeparator, numberedAs_mk, numberedAs_go_append, Part.ofToken?, numberedAs.go]

@[simp] theorem nameOrEmpty_withSeparator :
    (node.withSeparator separator).nameOrEmpty = node.nameOrEmpty :=
  nameOrEmpty_congr (by simp) (token?_withSeparator node separator (by decide))

end Node

section

variable {extended : Bool} {target : Site} {repair : Repair} {old new : Node}
  {items others : List Node}

/-- What such a rule finds after a repair, if it finds at most one thing in each construct. -/
theorem SwapsAt.filterMap_eq {f : Site × Node → Option Diagnostic}
    (h : SwapsAt target old new items others) (hitems : FormedItems extended items)
    (hold : old.construct ≠ .eof) (hmends : Mends repair old new)
    (hfind : IsShallow fun site node => (f (site, node)).toList)
    (hsite : ∀ {site node diagnostic}, f (site, node) = some diagnostic → diagnostic.site = site)
    (hself : (f (target, new)).toList =
      (f (target, old)).toList.filter (Diagnostic.stays target repair))
    (haround : ∀ {site : Site} {label : Label} {front back : List Part} {role : Role}
      {child changed : Node} {path : List Nat} {category : Category}, category.isRegular = true →
      Formed extended category (.mk label (front ++ .node role child :: back)) →
      Swaps old new path child changed →
      f (site, .mk label (front ++ .node role changed :: back)) =
        f (site, .mk label (front ++ .node role child :: back))) :
    (located others).filterMap f =
      ((located items).filterMap f).filter (Diagnostic.stays target repair) := by
  rw [List.filterMap_eq_flatMap_toList, List.filterMap_eq_flatMap_toList]
  refine h.found_eq hitems hold hfind.isLocal (hmends.foundIn_eq hfind hself) ?_
  intro site label front back role child changed path category hcategory hformed hswaps htarget
  dsimp only
  rw [haround hcategory hformed hswaps, filter_stays_of_site]
  intro diagnostic hmem heq
  rw [Option.mem_toList] at hmem
  have hsame : site.below [] = site.below ((childrenOf front).length :: path) := by
    rw [Site.below_nil, ← htarget, ← heq, hsite hmem]
  cases Site.below_inj.mp hsame

namespace Rule

theorem replaceVoidOn_of_mends (h : SwapsAt target old new items others)
    (hitems : FormedItems extended items) (hold : old.construct ≠ .eof)
    (hmends : Mends repair old new) :
    replaceVoidOn others = (replaceVoidOn items).filter (Diagnostic.stays target repair) := by
  -- an objection is about the node it is found at
  have hsite {site : Site} {node : Node} {diagnostic : Diagnostic}
      (hfound : ((node.token? .base).bind fun base =>
        if node.construct.isType && base.text == "void" then some (voidObjection site base)
        else none) = some diagnostic) : ∃ base, diagnostic = voidObjection site base := by
    obtain ⟨base, -, hbase⟩ := Option.bind_eq_some_iff.mp hfound
    split at hbase
    · exact ⟨base, (Option.some.inj hbase).symm⟩
    · cases hbase
  refine h.filterMap_eq hitems hold hmends ⟨?_, ?_, ?_, ?_, ?_, ?_⟩ ?_ ?_ ?_
  · intro site node diagnostic hmem
    obtain ⟨base, rfl⟩ := hsite (Option.mem_toList.mp hmem)
    exact ⟨[], (Site.below_nil site).symm⟩
  · intro site node token
    simp [Node.token?_withSeparator]
  · simp
  · simp
  · simp [Repair.exposed]
  · simp [Repair.emptyDictionary]
  · intro site node diagnostic hfound
    obtain ⟨base, rfl⟩ := hsite hfound
    rfl
  · cases hmends with
    | @void label attributes base separator htype hkind htext =>
        have hgone : Diagnostic.stays target .replaceVoid (voidObjection target base) = false := by
          simp [Diagnostic.stays, voidObjection]
        simp [htype, htext, hgone]
    | rename hconstruct _ _ => simp [hconstruct, Construct.isType]
    | default hconstruct _ => simp [hconstruct, Construct.isType]
    | join _ _ =>
        rw [filter_stays_of_repair]
        · simp
        · intro diagnostic hmem
          obtain ⟨base, rfl⟩ := hsite (Option.mem_toList.mp hmem)
          simp [voidObjection]
    | @lead label own base rest _ hbase =>
        have htext : base.text ≠ "void" := by
          intro heq
          simp [Terminal.accepts, heq] at hbase
        simp [htext]
  · intro site label front back role child changed path category _ _ _
    simp [Node.token?_append]

theorem renamingObjection_congr {node other : Node}
    (hname : other.token? .name = node.token? .name) (site : Site) :
    renamingObjection site other = renamingObjection site node := by
  funext name newName
  simp only [renamingObjection, hname]

/-- Every former name has its new name, which has none. -/
theorem lookup_legacyNames {former newName : String} (h : (former, newName) ∈ legacyNames) :
    legacyNames.lookup former = some newName ∧ legacyNames.lookup newName = none ∧
      unescape newName = newName := by
  have hall : ∀ pair ∈ legacyNames, legacyNames.lookup pair.1 = some pair.2 ∧
      legacyNames.lookup pair.2 = none ∧ unescape pair.2 = pair.2 := by decide
  exact hall _ h

end Rule

/-- An attribute that is renamed has the new name, and had that name or the former one. -/
theorem Mends.name_of_rename {newName : String} (h : Mends (.rename newName) old new) :
    new.nameOrEmpty = newName ∧ ∃ former, Rule.IsRenamed former newName old.nameOrEmpty := by
  cases h with
  | @rename label name rest _ hconstruct hkind former hrenamed =>
      obtain ⟨-, -, hplain⟩ := Rule.lookup_legacyNames hrenamed.1
      refine ⟨?_, former, ?_⟩
      · rw [Node.nameOrEmpty_extendedAttribute hconstruct (by exact hkind), hplain]
      · rwa [Node.nameOrEmpty_extendedAttribute hconstruct hkind]

namespace Rule

theorem renamingObjections_of_mends (h : SwapsAt target old new items others)
    (hitems : FormedItems extended items) (hold : old.construct ≠ .eof)
    (hmends : Mends repair old new) :
    renamingObjections others = (renamingObjections items).filter (Diagnostic.stays target repair) := by
  have hsite {site : Site} {node : Node} {diagnostic : Diagnostic}
      (hfound : (if node.construct == .extendedAttribute then
        (legacyNames.lookup node.nameOrEmpty).map
          (renamingObjection site node node.nameOrEmpty) else none) =
          some diagnostic) : ∃ newName,
          diagnostic = renamingObjection site node node.nameOrEmpty newName := by
    split at hfound
    · obtain ⟨newName, -, rfl⟩ := Option.map_eq_some_iff.mp hfound
      exact ⟨newName, rfl⟩
    · cases hfound
  -- the rule reads nothing but the class of a node and its name
  have hsame {node other : Node} (hconstruct : other.construct = node.construct)
      (hname : other.token? .name = node.token? .name) (site : Site) :
      (if other.construct == .extendedAttribute then
        (legacyNames.lookup other.nameOrEmpty).map
          (renamingObjection site other other.nameOrEmpty) else none) =
      if node.construct == .extendedAttribute then
        (legacyNames.lookup node.nameOrEmpty).map
          (renamingObjection site node node.nameOrEmpty) else none := by
    rw [hconstruct, Node.nameOrEmpty_congr hconstruct hname, renamingObjection_congr hname]
  have hempty : legacyNames.lookup "" = none := by decide
  refine h.filterMap_eq hitems hold hmends ⟨?_, ?_, ?_, ?_, ?_, ?_⟩ ?_ ?_ ?_
  · intro site node diagnostic hmem
    obtain ⟨newName, rfl⟩ := hsite (Option.mem_toList.mp hmem)
    exact ⟨[], (Site.below_nil site).symm⟩
  · intro site node token
    exact congrArg Option.toList (hsame (Node.construct_withSeparator node _)
      (Node.token?_withSeparator node _ (by decide)) site)
  · simp [Node.nameOrEmpty_eq, hempty]
  · simp [Node.nameOrEmpty_eq, hempty]
  · intro site trivia
    have hname : (Repair.exposed trivia).nameOrEmpty = unescape "Exposed" :=
      Node.nameOrEmpty_extendedAttribute rfl rfl
    have hlookup : legacyNames.lookup (unescape "Exposed") = none := by decide
    simp [hname, hlookup]
  · simp [Repair.emptyDictionary]
  · intro site node diagnostic hfound
    obtain ⟨newName, rfl⟩ := hsite hfound
    rfl
  · have hother (hrepair : ∀ name, repair ≠ .rename name)
        (hname : new.token? .name = old.token? .name) :
        Option.toList (if new.construct == .extendedAttribute then
          (legacyNames.lookup new.nameOrEmpty).map
            (renamingObjection target new new.nameOrEmpty) else none) =
        (Option.toList (if old.construct == .extendedAttribute then
          (legacyNames.lookup old.nameOrEmpty).map
            (renamingObjection target old old.nameOrEmpty) else none)).filter
            (Diagnostic.stays target repair) := by
      rw [hsame (congrArg Label.construct hmends.label_eq) hname, filter_stays_of_repair]
      intro diagnostic hmem heq
      obtain ⟨newName, rfl⟩ := hsite (Option.mem_toList.mp hmem)
      exact hrepair newName (Option.some.inj heq).symm
    cases repair with
    | rename newName =>
        obtain ⟨hnew, former, hrenamed⟩ := hmends.name_of_rename
        obtain ⟨hlookup, hnone, -⟩ := lookup_legacyNames hrenamed.1
        simp only [hnew, hnone, Option.map_none, ite_self, Option.toList_none]
        rcases hrenamed.2 with hformer | hformer
        · -- the new name is no legacy name, so the objection goes away
          have hgone : Diagnostic.stays target (.rename newName)
              (renamingObjection target old former newName) = false := by
            simp [Diagnostic.stays, renamingObjection]
          rw [hformer, hlookup]
          split <;> simp [hgone]
        · simp [hformer, hnone]
    | _ => exact hother (by simp) (hmends.name_eq (by simp))
  · intro site label front back role child changed path category _ _ _
    refine hsame ?_ ?_ site
    · rfl
    · simp [Node.token?_append]

/-- What is wrong with the type of an attribute depends on what is read of the type. -/
theorem invalidReason?_congr {type other : Node} (h : other.typeReading = type.typeReading) :
    invalidReason? items other = invalidReason? items type := by
  have hgeneric : other.genericOrEmpty = type.genericOrEmpty := congrArg TypeReading.generic h
  have hname : other.typeName = type.typeName := congrArg TypeReading.typeName h
  simp only [invalidReason?, hgeneric, hname]

theorem typeObjection_congr {node other : Node} (hname : other.token? .name = node.token? .name)
    (site : Site) : typeObjection site other = typeObjection site node := by
  funext reason
  simp only [typeObjection, hname]

/-- The attributes of such types are the same after a repair, if the dictionaries are. -/
theorem typeObjections_of_mends (h : SwapsAt target old new items others)
    (hitems : FormedItems extended items) (hold : old.construct ≠ .eof)
    (hmends : Mends repair old new) (hdictionaries : isDictionary others = isDictionary items) :
    typeObjections others =
      (typeObjections items).filter (Diagnostic.stays target repair) := by
  have hcontext (type : Node) : invalidReason? others type = invalidReason? items type := by
    simp only [invalidReason?, hdictionaries]
  have hsite {site : Site} {node : Node} {diagnostic : Diagnostic}
      (hfound : ((node.node? .type).bind fun type =>
        if node.construct == .attribute && type.construct.isType then
          (invalidReason? items type).map (typeObjection site node) else none) = some diagnostic) :
      ∃ reason, diagnostic = typeObjection site node reason := by
    obtain ⟨type, -, htype⟩ := Option.bind_eq_some_iff.mp hfound
    split at htype
    · obtain ⟨reason, -, rfl⟩ := Option.map_eq_some_iff.mp htype
      exact ⟨reason, rfl⟩
    · cases htype
  -- the rule reads the name of an attribute and its type
  have hsame {node other : Node} (hconstruct : other.construct = node.construct)
      (hviews : node.construct = .attribute →
        other.token? .name = node.token? .name ∧ other.readType = node.readType) (site : Site) :
      ((other.node? .type).bind fun type =>
        if other.construct == .attribute && type.construct.isType then
          (invalidReason? items type).map (typeObjection site other) else none) =
      (node.node? .type).bind fun type =>
        if node.construct == .attribute && type.construct.isType then
          (invalidReason? items type).map (typeObjection site node) else none := by
    rw [hconstruct]
    by_cases hattribute : node.construct = .attribute
    · obtain ⟨hname, hread⟩ := hviews hattribute
      rw [typeObjection_congr hname]
      simp only [Node.readType] at hread
      cases hnode : node.node? .type with
      | none => simp_all
      | some type =>
          cases hother : other.node? .type with
          | none => simp_all
          | some found =>
              have hreading : found.typeReading = type.typeReading := by
                simpa [hnode, hother] using hread
              have hisType : found.construct.isType = type.construct.isType :=
                congrArg TypeReading.isType hreading
              simp only [Option.bind_some, hisType, invalidReason?_congr hreading]
    · simp [hattribute]
  rw [typeObjections, typeObjections]
  simp only [hcontext]
  refine h.filterMap_eq hitems hold hmends ⟨?_, ?_, ?_, ?_, ?_, ?_⟩ ?_ ?_ ?_
  · intro site node diagnostic hmem
    obtain ⟨reason, rfl⟩ := hsite (Option.mem_toList.mp hmem)
    exact ⟨[], (Site.below_nil site).symm⟩
  · intro site node token
    refine congrArg Option.toList (hsame (Node.construct_withSeparator node _)
      (fun _ => ⟨Node.token?_withSeparator node _ (by decide), ?_⟩) site)
    simp [Node.readType]
  · simp
  · simp
  · simp [Repair.exposed]
  · simp [Repair.emptyDictionary]
  · intro site node diagnostic hfound
    obtain ⟨reason, rfl⟩ := hsite hfound
    rfl
  · rw [filter_stays_of_repair]
    · refine congrArg Option.toList (hsame (congrArg Label.construct hmends.label_eq)
        (fun hattribute => ?_) target)
      -- no repair is made at an attribute itself
      cases hmends with
      | void htype _ _ =>
          rw [Node.construct_mk] at hattribute
          rw [hattribute] at htype
          cases htype
      | rename hconstruct _ _ => cases hattribute.symm.trans hconstruct
      | default hconstruct _ => cases hattribute.symm.trans hconstruct
      | join _ _ => simp [Node.readType]
      | lead _ _ => simp [Node.readType]
    · intro diagnostic hmem heq
      obtain ⟨reason, rfl⟩ := hsite (Option.mem_toList.mp hmem)
      cases heq
  · intro site label front back role child changed path category hcategory hformed hswaps
    refine hsame ?_ (fun hattribute => ⟨?_, ?_⟩) site
    · rfl
    · simp [Node.token?_append]
    · exact readType_around (hswaps.typeReading_of_role hmends hcategory hformed (Or.inl hattribute))

/-- Whether an argument lacks a default value depends on what is read of it. -/
theorem lacksDefault_congr {argument other : Node}
    (hoptional : other.has .optional = argument.has .optional)
    (hdefault : (other.node? .default).isNone = (argument.node? .default).isNone)
    (htype : other.readType = argument.readType) :
    lacksDefault items other = lacksDefault items argument := by
  simp only [Node.readType] at htype
  rw [lacksDefault, lacksDefault]
  cases hargument : argument.node? .type with
  | none =>
      have hnone : other.node? .type = none := by simpa [hargument] using htype
      rw [hnone]
  | some type =>
      obtain ⟨found, hfound, hreading⟩ : ∃ found, other.node? .type = some found ∧
          found.typeReading = type.typeReading := by simpa [hargument] using htype
      have hisType : found.construct.isType = type.construct.isType :=
        congrArg TypeReading.isType hreading
      have hnullable : found.isNullable = type.isNullable :=
        congrArg TypeReading.isNullable hreading
      have hname : found.typeName = type.typeName := congrArg TypeReading.typeName hreading
      simp only [hfound, hoptional, hdefault, hisType, hnullable, hname]

/-- An argument lacks a default value as before, unless it is the one that has got one. -/
theorem lacksDefault_of_swaps {child changed : Node} {path : List Nat} {category : Category}
    (h : Swaps old new path child changed) (hsuits : repair.Suits old)
    (hmends : Mends repair old new) (hcategory : category.isRegular = true)
    (hformed : Formed extended category child) (hargument : child.construct = .argument)
    (hcase : path = [] → repair ≠ .addDefault) :
    lacksDefault items changed = lacksDefault items child ∧
      changed.token? .name = child.token? .name := by
  cases h with
  | here =>
      -- of the other repairs, none is for an argument
      cases repair with
      | replaceVoid => simp [Repair.Suits, hargument, Construct.isType] at hsuits
      | addExposed => simp [Repair.Suits, Rule.needsExposure, hargument] at hsuits
      | rename name => simp [Repair.Suits, hargument] at hsuits
      | addDefault => exact absurd rfl (hcase rfl)
  | @inside path inner other label front role back hbelow =>
      refine ⟨lacksDefault_congr ?_ (isNone_around .default) (readType_around ?_), ?_⟩
      · simp [Node.has, Node.token?_append]
      · exact hbelow.typeReading_of_role hmends hcategory hformed (Or.inr hargument)
      · simp [Node.token?_append]

/-- The objections to those of some arguments that lack a default value. -/
def defaultObjections (items : List Node) (site : Site) (numbered : List (Nat × Node)) :
    List Diagnostic :=
  (numbered.filter fun (_, argument) => lacksDefault items argument).map fun (number, argument) =>
    defaultObjection (site.below [number]) argument

section

variable {site : Site} {numbered : List (Nat × Node)}

@[simp] theorem defaultObjections_nil : defaultObjections items site [] = [] := rfl

theorem defaultObjections_append (more : List (Nat × Node)) :
    defaultObjections items site (numbered ++ more) =
      defaultObjections items site numbered ++ defaultObjections items site more := by
  simp [defaultObjections]

theorem defaultObjections_singleton (number : Nat) (argument : Node) :
    defaultObjections items site [(number, argument)] =
      if lacksDefault items argument then [defaultObjection (site.below [number]) argument]
      else [] := by
  cases hlacks : lacksDefault items argument <;> simp [defaultObjections, hlacks]

theorem defaultObjections_cons (entry : Nat × Node) :
    defaultObjections items site (entry :: numbered) =
      defaultObjections items site [entry] ++ defaultObjections items site numbered :=
  @defaultObjections_append items site [entry] numbered

theorem mem_defaultObjections {diagnostic : Diagnostic}
    (h : diagnostic ∈ defaultObjections items site numbered) :
    ∃ number argument, (number, argument) ∈ numbered ∧
      diagnostic = defaultObjection (site.below [number]) argument := by
  obtain ⟨⟨number, argument⟩, hfiltered, rfl⟩ := List.mem_map.mp h
  exact ⟨number, argument, (List.mem_filter.mp hfiltered).1, rfl⟩

/-- Objections to arguments with other numbers stay. -/
theorem defaultObjections_filter {path : List Nat} {place : Nat}
    (h : ∀ number argument, (number, argument) ∈ numbered → number ≠ place) :
    (defaultObjections items site numbered).filter
        (Diagnostic.stays (site.below (place :: path)) repair) =
      defaultObjections items site numbered := by
  refine filter_stays_of_site fun diagnostic hmem heq => ?_
  obtain ⟨number, argument, hnumber, rfl⟩ := mem_defaultObjections hmem
  exact h number argument hnumber (List.cons.inj (Site.below_inj.mp heq)).1

end

theorem isShallow_defaultObjections (items : List Node) :
    IsShallow fun site node => defaultObjections items site (node.numberedAs .argument) := by
  refine ⟨?_, ?_, ?_, ?_, ?_, ?_⟩
  · intro site node diagnostic hmem
    obtain ⟨number, argument, -, rfl⟩ := mem_defaultObjections hmem
    exact ⟨[number], rfl⟩
  · intro site node token
    simp only [Node.numberedAs_withSeparator]
  · intro site label
    rfl
  · intro site label opening closing nodes
    have hnone : (Node.mk label (.token .opening opening :: Part.ofNodes .item nodes ++
        [.token .closing closing])).numberedAs .argument = [] := by
      rw [Node.numberedAs_mk, List.cons_append, Node.numberedAs.go, Node.numberedAs_go_append,
        Node.numberedAs_go_ofNodes (by decide)]
      rfl
    simp only [hnone, defaultObjections_nil]
  · intro site trivia
    rfl
  · intro site
    rfl

/-- An argument loses its objection only if it is the one that has got a default value. -/
theorem defaultObjections_of_swaps {site : Site} {child changed : Node} {place : Nat}
    {path : List Nat} {category : Category} (h : Swaps old new path child changed)
    (hsuits : repair.Suits old) (hmends : Mends repair old new)
    (hcategory : category.isRegular = true) (hformed : Formed extended category child)
    (hargument : child.construct = .argument) :
    defaultObjections items site [(place, changed)] =
      (defaultObjections items site [(place, child)]).filter
        (Diagnostic.stays (site.below (place :: path)) repair) := by
  rw [defaultObjections_singleton, defaultObjections_singleton]
  -- the argument has got its default value, or the repair is made elsewhere inside it
  by_cases hcase : path = [] ∧ repair = .addDefault
  · obtain ⟨rfl, rfl⟩ := hcase
    cases h
    have hnew : lacksDefault items new = false := by
      cases hmends
      simp [lacksDefault]
    have hgone : Diagnostic.stays (site.below [place]) .addDefault
        (defaultObjection (site.below [place]) old) = false := by
      simp [Diagnostic.stays, defaultObjection]
    cases lacksDefault items old <;> simp [hnew, hgone]
  · obtain ⟨hlacks, hname⟩ := @lacksDefault_of_swaps extended repair old new items _ _ _ _ h hsuits
      hmends hcategory hformed hargument fun hpath hrepair => hcase ⟨hpath, hrepair⟩
    have hsame : defaultObjection (site.below [place]) changed =
        defaultObjection (site.below [place]) child := by
      simp only [defaultObjection, hname]
    have hstays : Diagnostic.stays (site.below (place :: path)) repair
        (defaultObjection (site.below [place]) child) = true := by
      rw [Diagnostic.stays, Bool.not_eq_true', Bool.and_eq_false_iff, beq_eq_false_iff_ne,
        beq_eq_false_iff_ne, Ne, Ne, ← not_and_or]
      rintro ⟨hsite, hrepair⟩
      exact hcase ⟨(List.cons.inj (Site.below_inj.mp hsite)).2.symm, (Option.some.inj hrepair).symm⟩
    rw [hlacks, hsame]
    cases lacksDefault items child <;> simp [hstays]

/-- Around the place of a repair, so do the arguments of a construct. -/
theorem defaultObjections_around (hsuits : repair.Suits old) (hmends : Mends repair old new) :
    HoldsAround extended
      (fun site node => defaultObjections items site (node.numberedAs .argument))
      target repair old new := by
  intro site label front back role child changed path category hcategory hformed hswaps htarget
  subst htarget
  -- the arguments before and behind have other numbers
  have hfront : ∀ number argument,
      (number, argument) ∈ Node.numberedAs.go .argument 0 front →
        number ≠ (childrenOf front).length := fun number argument hmem => by
    have hrange := Node.range_of_mem_go hmem
    omega
  have hback : ∀ number argument,
      (number, argument) ∈ Node.numberedAs.go .argument ((childrenOf front).length + 1) back →
        number ≠ (childrenOf front).length := fun number argument hmem => by
    have hrange := Node.range_of_mem_go hmem
    omega
  simp only [Node.numberedAs_mk, Node.numberedAs_go_append, Node.numberedAs.go, Nat.zero_add,
    defaultObjections_append, List.filter_append, defaultObjections_filter hfront]
  split
  · rename_i hrole
    have hmem : Part.node role child ∈ front ++ .node role child :: back :=
      List.mem_append_right front List.mem_cons_self
    obtain ⟨own, hregular, hchild, -⟩ := hformed.child hcategory hmem
    have hargument : child.construct = .argument :=
      hformed.argument_of_mem hcategory (by simp [Node.parts, hrole])
    have hcut (argument : Node) := @defaultObjections_cons items site
      (Node.numberedAs.go .argument ((childrenOf front).length + 1) back)
      ((childrenOf front).length, argument)
    rw [hcut, hcut, List.filter_append, defaultObjections_filter hback,
      defaultObjections_of_swaps hswaps hsuits hmends hregular hchild hargument]
  · rw [defaultObjections_filter hback]

theorem dictArgDefaultOn_of_mends (h : SwapsAt target old new items others)
    (hitems : FormedItems extended items) (hold : old.construct ≠ .eof)
    (hsuits : repair.Suits old) (hmends : Mends repair old new)
    (hdictionaries : isDictionary others = isDictionary items)
    (hrequired : hasRequiredField others = hasRequiredField items) :
    dictArgDefaultOn others =
      (dictArgDefaultOn items).filter (Diagnostic.stays target repair) := by
  have hcontext (argument : Node) : lacksDefault others argument = lacksDefault items argument := by
    simp only [lacksDefault, hdictionaries, hrequired]
  rw [dictArgDefaultOn, dictArgDefaultOn]
  simp only [hcontext]
  have hfind := isShallow_defaultObjections items
  refine h.found_eq hitems hold hfind.isLocal (hmends.foundIn_eq hfind ?_)
    (defaultObjections_around hsuits hmends)
  rw [hmends.numberedAs_argument, filter_stays_of_site]
  intro diagnostic hmem heq
  obtain ⟨number, argument, -, rfl⟩ := mem_defaultObjections hmem
  have hsame : target.below [number] = target.below [] := heq.trans (Site.below_nil target).symm
  cases Site.below_inj.mp hsame

end Rule

end

end WebIdl
