import WebIdl.Command.Run
import WebIdl.Proofs.Batch.Run

/-!
# Where a batch stops

A batch stops at the first file that cannot be decoded or parsed, or at the first directory that cannot
be listed.  The files that it visited before have been mended, or needed no repair, and everything else
is as it was.  The command looks at all its arguments before anything is done.
-/

namespace WebIdl.Batch

/-! ## Files that were visited, and files that fail -/

/-- The file that a path leads to held a text that parses.  It holds the same bytes still if there was
nothing to repair, and else what is written of the document after all repairs. -/
def HoldsMended (dialect : Dialect) (tree after : FileTree) (path : Path) : Prop :=
  ∃ place bytes text document found items count, tree.resolve path = .ok place ∧
    tree.bytes? place = some bytes ∧ String.fromUTF8? bytes = some text ∧
    (dialect.parse text (some path.fileName)).result = .ok document ∧
    validate Rule.all document.items = .ok found ∧
    Diagnostic.fixAll dialect.admits found document.items = .ok (items, count) ∧
    after.bytes? place = some
      (if found.any (Diagnostic.isAdmitted dialect.admits) then
        { document with items }.write.toUTF8
      else bytes)

/-- The file that a path leads to cannot be decoded, or it cannot be parsed. -/
inductive Breaks (dialect : Dialect) (tree : FileTree) (path : Path) : BatchError → Prop where
  | undecodable {place : Path} {bytes : ByteArray} (hplace : tree.resolve path = .ok place)
      (hbytes : tree.bytes? place = some bytes) (hutf8 : String.fromUTF8? bytes = none) :
      Breaks dialect tree path (.file .undecodable)
  | unparsable {place : Path} {bytes : ByteArray} {text : String} {error : SyntaxError}
      (hplace : tree.resolve path = .ok place) (hbytes : tree.bytes? place = some bytes)
      (htext : String.fromUTF8? bytes = some text)
      (hparse : (dialect.parse text (some path.fileName)).result = .error (.syntaxError error)) :
      Breaks dialect tree path (.parse (.syntaxError error))

/-- The files are those of a directory that a batch visits: all that the paths of its entries lead to
and whose names end in the suffix, in the order of their names, each of them once. -/
structure Lists (tree : FileTree) (directory : Path) (files : List Path) : Prop where
  mem_iff : ∀ path, path ∈ files ↔ ∃ name, path = directory.push name ∧
    name.endsWith fileSuffix = true ∧ tree.isFile path = .ok true
  sorted : files.Pairwise fun path other => path.fileName ≤ other.fileName
  nodup : (tree.files.map (·.1)).Nodup → files.Nodup

section

variable {dialect : Dialect} {tree : FileTree} {path place : Path} {directories paths : List Path}
  {batch : Batch}

theorem breaks_of_fails (hdialect : dialect ∈ Dialect.known) {error : BatchError}
    (h : Fails dialect tree path error) : Breaks dialect tree path error := by
  obtain ⟨place, hlead, herror⟩ := h
  obtain ⟨bytes, hbytes⟩ := Option.isSome_iff_exists.mp hlead.found
  rw [renewal, hbytes] at herror
  dsimp only at herror
  split at herror
  · rename_i hutf8
    obtain rfl := Except.error.inj herror
    exact .undecodable hlead.resolves hbytes hutf8
  · rename_i text htext
    rw [hlead.name] at herror
    rcases mendText_cases hdialect text path.fileName with
      ⟨problem, hparse, hmend⟩ | ⟨document, items, count, -, -, hmend⟩
    · rw [hmend] at herror
      obtain rfl := Except.error.inj herror
      exact .unparsable hlead.resolves hbytes htext hparse
    · rw [hmend] at herror
      cases herror

theorem Visited.holdsMended (h : Visited dialect tree paths batch)
    (hdialect : dialect ∈ Dialect.known) (hpath : path ∈ paths) (hlead : tree.LeadsTo path place) :
    HoldsMended dialect tree batch.tree path := by
  have hmem : place ∈ placesOf tree paths :=
    List.mem_filterMap.mpr ⟨path, hpath, by rw [hlead.resolves]; rfl⟩
  obtain ⟨change, hchange⟩ := h.sound place hmem
  obtain ⟨bytes, hbytes⟩ := Option.isSome_iff_exists.mp hlead.found
  have hafter : batch.tree.bytes? place = some ((change.map (·.1)).getD bytes) := by
    rw [h.tree_eq, treeAfter, FileTree.bytes?_renewed, hbytes, if_pos hmem, bytesMade?, hchange]
    rfl
  -- the file was read, parsed and mended, since the batch went past it
  rw [renewal, hbytes] at hchange
  dsimp only at hchange
  split at hchange
  · cases hchange
  · rename_i text htext
    rw [hlead.name] at hchange
    rcases mendText_cases hdialect text path.fileName with
      ⟨problem, -, hmend⟩ | ⟨document, items, count, hparse, hfix, hmend⟩
    · rw [hmend] at hchange
      cases hchange
    · refine ⟨place, bytes, text, document, _, items, count, hlead.resolves, hbytes, htext, hparse,
        Dialect.validate_of_parse hdialect hparse Rule.all, hfix, ?_⟩
      rw [hmend] at hchange
      obtain rfl := (Except.ok.inj hchange).symm
      rw [hafter]
      obtain ⟨-, rfl⟩ := Diagnostic.fixAll_eq_ok_iff.mp hfix
      -- with no admitted finding nothing is written
      cases hadmitted : (objections Rule.all document.items).filter
          (Diagnostic.isAdmitted dialect.admits) with
      | nil =>
          have hnone : (objections Rule.all document.items).any
              (Diagnostic.isAdmitted dialect.admits) = false :=
            List.any_eq_false.mpr (List.filter_eq_nil_iff.mp hadmitted)
          simp [hnone]
      | cons diagnostic rest =>
          have hsome : (objections Rule.all document.items).any
              (Diagnostic.isAdmitted dialect.admits) = true := by
            have hmem : diagnostic ∈ (objections Rule.all document.items).filter
                (Diagnostic.isAdmitted dialect.admits) := hadmitted ▸ List.mem_cons_self
            exact List.any_eq_true.mpr ⟨diagnostic, List.mem_filter.mp hmem⟩
          simp [hsome]

theorem exists_leadsTo_of_schedule (h : path ∈ (schedule tree directories).1) :
    ∃ place, tree.LeadsTo path place := by
  induction directories with
  | nil => cases h
  | cons directory rest ih =>
      cases hfiles : filesOf tree directory with
      | error error =>
          rw [schedule, hfiles] at h
          cases h
      | ok files =>
          rw [schedule, hfiles] at h
          rcases List.mem_append.mp h with h | h
          · exact exists_leadsTo hfiles h
          · exact ih h

/-- How a batch stops. -/
theorem exists_stop (hdialect : dialect ∈ Dialect.known) (directories : List Path)
    (tree : FileTree) :
    ∃ batch stop front rest,
      mendDirectories (.ok dialect) directories { tree } = (batch, stop) ∧
      (schedule tree directories).1 = front ++ rest ∧
      (∀ path ∈ front, HoldsMended dialect tree batch.tree path) ∧
      (∃ change, batch.tree = tree.renewed change ∧
        ∀ place, place ∉ placesOf tree front → change place = none) ∧
      (rest = [] ∧ stop = (schedule tree directories).2.map .file ∨
        ∃ path later error, rest = path :: later ∧ Breaks dialect tree path error ∧
          (∀ place, tree.resolve path = .ok place → place ∉ placesOf tree front) ∧
          stop = some error) := by
  obtain ⟨front, rest, hsplit, hends⟩ :=
    mendDirectories_ends hdialect (visited_nil dialect tree) directories
  rw [List.nil_append] at hends
  have hholds {batch : Batch} (h : Visited dialect tree front batch) :
      (∀ path ∈ front, HoldsMended dialect tree batch.tree path) ∧
      ∃ change, batch.tree = tree.renewed change ∧
        ∀ place, place ∉ placesOf tree front → change place = none := by
    refine ⟨fun path hpath => ?_, _, h.tree_eq, fun place hplace => if_neg hplace⟩
    obtain ⟨place, hlead⟩ :=
      exists_leadsTo_of_schedule (hsplit ▸ List.mem_append_left rest hpath)
    exact h.holdsMended hdialect hpath hlead
  generalize hresult : mendDirectories (.ok dialect) directories { tree } = result at hends
  cases hends with
  | finished h =>
      obtain ⟨hfront, hchange⟩ := hholds h
      exact ⟨_, _, front, [], rfl, hsplit, hfront, hchange, Or.inl ⟨rfl, rfl⟩⟩
  | failed h herror =>
      obtain ⟨hfront, hchange⟩ := hholds h
      refine ⟨_, _, front, _, rfl, hsplit, hfront, hchange,
        Or.inr ⟨_, _, _, rfl, breaks_of_fails hdialect herror, fun place hplace hmem => ?_, rfl⟩⟩
      -- what was visited before did not fail
      obtain ⟨other, hlead, herror⟩ := herror
      obtain rfl : other = place := Except.ok.inj (hlead.resolves.symm.trans hplace)
      obtain ⟨change, hsound⟩ := h.sound other hmem
      cases hsound.symm.trans herror

end

end WebIdl.Batch

/-! ## The command -/

namespace WebIdl

/-- The path leads to a directory. -/
def FileTree.LeadsToDirectory (tree : FileTree) (path : Path) : Prop :=
  ∃ place, tree.resolve path = .ok place ∧ tree.hasDirectory place = true

theorem FileTree.isDirectory_of_leadsTo {tree : FileTree} {path : Path}
    (h : tree.LeadsToDirectory path) : tree.isDirectory path = .ok true := by
  obtain ⟨place, hplace, hdirectory⟩ := h
  rw [isDirectory, hplace]
  exact congrArg Except.ok hdirectory

theorem FileTree.leadsTo_of_isDirectory {tree : FileTree} {path : Path}
    (h : tree.isDirectory path = .ok true) : tree.LeadsToDirectory path := by
  unfold isDirectory at h
  split at h
  · rename_i place hplace
    exact ⟨place, hplace, Except.ok.inj h⟩
  · cases h
  · cases h

theorem FileTree.isDirectory_of_not {tree : FileTree} {path : Path}
    (h : ¬tree.LeadsToDirectory path) :
    tree.isDirectory path = .ok false ∧ tree.resolve path ≠ .error .nameTooLong ∨
      tree.isDirectory path = .error .nameTooLong ∧ tree.resolve path = .error .nameTooLong := by
  unfold isDirectory
  split
  · rename_i place hplace
    have hnone : tree.hasDirectory place = false := by
      rw [Bool.eq_false_iff]
      exact fun hdirectory => h ⟨place, hplace, hdirectory⟩
    rw [hplace, hnone]
    exact Or.inl ⟨rfl, by simp⟩
  · rename_i hlong
    exact Or.inr ⟨rfl, hlong⟩
  · rename_i error hother herror
    refine Or.inl ⟨rfl, fun hlong => ?_⟩
    rw [herror] at hlong
    exact hother (Except.error.inj hlong)

/-- A name that is too long is not looked up. -/
theorem FileTree.resolve_of_overlong {tree : FileTree} {name : String}
    (hslash : '/' ∉ name.toList) (hzero : '\x00' ∉ name.toList)
    (hlong : nameLimit < name.utf8ByteSize) :
    tree.resolve (Path.ofString name) = .error .nameTooLong := by
  have hpieces {text : List Char} (h : '/' ∉ text) : Text.pieces '/' text = [text] := by
    induction text with
    | nil => rfl
    | cons c rest ih =>
        simp only [List.mem_cons, not_or] at h
        rw [Text.pieces, if_neg (Ne.symm h.1), ih h.2]
  have hpath : Path.ofString name = ⟨false, [name]⟩ := by
    have hhead : (name.toList.head? == some '/') = false := by
      rw [beq_eq_false_iff_ne]
      exact fun heq => hslash (List.mem_of_mem_head? heq)
    have hname : (name != "" && name != ".") = true := by
      simp only [Bool.and_eq_true, bne_iff_ne]
      constructor
      · rintro rfl
        exact absurd hlong (by decide)
      · rintro rfl
        exact absurd hlong (by decide)
    simp [Path.ofString, hpieces hslash, hhead, hname]
  rw [hpath, resolve]
  simp only [List.any_cons, List.any_nil, Bool.or_false, List.contains_iff_mem, hzero, if_false]
  split
  · rfl
  · simp [follow, hasDirectory, hlong]

namespace Command

/-- A word that does not begin with a dash is a directory. -/
theorem ofArguments_singleton {name : String} (h : name.toList.head? ≠ some '-') :
    Request.ofArguments [name] = .run [name] := by
  have hword : Word.ofString name = .directory name := by
    simp only [Word.ofString]
    split
    · rename_i heq
      rw [heq] at h
      exact absurd rfl h
    · rename_i heq
      rw [heq] at h
      exact absurd rfl h
    · simp [isPlain, h]
  have hwords : words [name] = [.directory name] := by
    rw [words]
    · rw [hword]
      rfl
    · rintro rfl
      exact absurd rfl h
  rw [Request.ofArguments, hwords]
  rfl

variable {tree : FileTree} {dialect : String} {names : List String}

/-- Directories at the front are passed over. -/
theorem findM?_append {test : String → Except FileError Bool} {front rest : List String}
    (h : ∀ name ∈ front, test name = .ok false) :
    (front ++ rest).findM? test = rest.findM? test := by
  induction front with
  | nil => rfl
  | cons name front ih =>
      rw [List.cons_append, List.findM?, h name List.mem_cons_self]
      exact ih fun other hother => h other (List.mem_cons_of_mem _ hother)

theorem mend_of_missing {front back : List String} {name : String}
    (hfront : ∀ other ∈ front, tree.LeadsToDirectory (Path.ofString other))
    (hname : ¬tree.LeadsToDirectory (Path.ofString name)) :
    (mend dialect (front ++ name :: back) tree).tree = tree ∧
      (tree.resolve (Path.ofString name) ≠ .error .nameTooLong →
        (mend dialect (front ++ name :: back) tree).status = .ok 2) ∧
      (tree.resolve (Path.ofString name) = .error .nameTooLong →
        (mend dialect (front ++ name :: back) tree).status =
          .error (.batch (.file .nameTooLong))) := by
  unfold mend
  dsimp only
  rw [findM?_append fun other hother => by
    rw [FileTree.isDirectory_of_leadsTo (hfront other hother)]
    rfl]
  rcases FileTree.isDirectory_of_not hname with ⟨hfalse, hshort⟩ | ⟨herror, hlong⟩
  · rw [List.findM?, hfalse]
    exact ⟨rfl, fun _ => rfl, fun hlong => absurd hlong hshort⟩
  · rw [List.findM?, herror]
    exact ⟨rfl, fun hshort => absurd hlong hshort, fun _ => rfl⟩

theorem mend_of_directories
    (h : ∀ name ∈ names, tree.LeadsToDirectory (Path.ofString name)) {batch : Batch}
    {stop : Option BatchError} (hrun : Batch.mendDirectories (Dialect.named dialect)
      (names.map Path.ofString) { tree } = (batch, stop)) :
    (mend dialect names tree).tree = batch.tree ∧
      (stop = none → (mend dialect names tree).status = .ok 0) ∧
      ∀ error, stop = some (.parse (.syntaxError error)) →
        (mend dialect names tree).status = .ok 2 := by
  have hnone : names.findM? (fun name => do
      return !(← tree.isDirectory (Path.ofString name))) = .ok none := by
    rw [← List.append_nil names, findM?_append fun name hname => by
      rw [FileTree.isDirectory_of_leadsTo (h name hname)]
      rfl]
    rfl
  unfold mend
  dsimp only
  rw [hnone, hrun]
  dsimp only
  cases stop with
  | none => exact ⟨rfl, fun _ => rfl, fun _ hstop => (by cases hstop)⟩
  | some error =>
      refine ⟨?_, fun hstop => (by cases hstop), fun failure hstop => ?_⟩
      · split <;> rfl
      · obtain rfl := Option.some.inj hstop
        rfl

end Command

/-! ## The main result -/

namespace Batch

/-- A batch that fails leaves a clean front part behind.  Under a named dialect a batch visits the
directories in order, and in each the files whose names end in the suffix, in the order of their names.
It stops at the first file that cannot be decoded or parsed, or at the first directory that cannot be
listed.  Every file visited before holds its old bytes, if there was nothing to repair, or what is
written of its document after all repairs; and the file that fails and everything else is as it was.

The command changes nothing if an argument is not a directory, and ends with status two, unless the
first such argument is too long to be looked up.  Otherwise it does what the batch does, and ends with
status two if that stops at a file that cannot be parsed, and with zero if it comes to its end. -/
theorem mendDirectories_stops {dialectName : String} {dialect : Dialect}
    (hdialect : Dialect.named dialectName = .ok dialect) (tree : FileTree) :
    (∀ directories : List Path, ∃ batch stop front rest,
      mendDirectories (Dialect.named dialectName) directories { tree } = (batch, stop) ∧
      (schedule tree directories).1 = front ++ rest ∧
      (∀ path ∈ front, HoldsMended dialect tree batch.tree path) ∧
      (∀ place, place ∉ placesOf tree front → batch.tree.bytes? place = tree.bytes? place) ∧
      batch.tree.directories = tree.directories ∧
      batch.tree.files.map (·.1) = tree.files.map (·.1) ∧
      (rest = [] ∧ stop = (schedule tree directories).2.map .file ∨
        ∃ path later error, rest = path :: later ∧ Breaks dialect tree path error ∧
          (∀ place, tree.resolve path = .ok place → place ∉ placesOf tree front) ∧
          stop = some error)) ∧
    (∀ directory files, filesOf tree directory = .ok files → Lists tree directory files) ∧
    ∀ (program : Option String) (arguments names : List String),
      Command.Request.ofArguments arguments = .run names →
      (∀ front name back, names = front ++ name :: back →
        (∀ other ∈ front, tree.LeadsToDirectory (Path.ofString other)) →
        ¬tree.LeadsToDirectory (Path.ofString name) →
        (Command.run dialectName program arguments tree).tree = tree ∧
          (tree.resolve (Path.ofString name) ≠ .error .nameTooLong →
            (Command.run dialectName program arguments tree).status = .ok 2)) ∧
      ((∀ name ∈ names, tree.LeadsToDirectory (Path.ofString name)) →
        ∀ batch stop, mendDirectories (Dialect.named dialectName) (names.map Path.ofString) { tree } =
            (batch, stop) →
          (Command.run dialectName program arguments tree).tree = batch.tree ∧
          (stop = none → (Command.run dialectName program arguments tree).status = .ok 0) ∧
          ∀ error, stop = some (.parse error) →
            (Command.run dialectName program arguments tree).status = .ok 2) := by
  have hknown := Dialect.mem_known_of_named hdialect
  have hstop (directories : List Path) := exists_stop hknown directories tree
  refine ⟨fun directories => ?_, fun directory files h => ⟨fun path => mem_filesOf h,
    sorted_filesOf h, nodup_filesOf h⟩, fun program arguments names hrequest => ?_⟩
  · obtain ⟨batch, stop, front, rest, hrun, hsplit, hfront, ⟨change, htree, hchange⟩, hend⟩ :=
      hstop directories
    refine ⟨batch, stop, front, rest, hdialect ▸ hrun, hsplit, hfront, fun place hplace => ?_,
      by rw [htree]; rfl, by rw [htree, FileTree.files_renewed], hend⟩
    rw [htree, FileTree.bytes?_renewed, hchange place hplace]
    exact Option.map_id_apply
  · have hmend : Command.run dialectName program arguments tree =
        Command.mend dialectName names tree := by
      rw [Command.run, hrequest]
    rw [hmend]
    refine ⟨fun front name back hnames hdirectories hname => ?_, fun hnames batch stop hrun => ?_⟩
    · subst hnames
      obtain ⟨htree, hstatus, -⟩ := @Command.mend_of_missing _ dialectName _ back _ hdirectories hname
      exact ⟨htree, hstatus⟩
    · obtain ⟨htree, hzero, htwo⟩ := Command.mend_of_directories hnames hrun
      refine ⟨htree, hzero, fun error herror => ?_⟩
      -- only syntax errors stop a batch under a named dialect
      obtain ⟨own, cause, front, rest, hown, -, -, -, hend⟩ := hstop (names.map Path.ofString)
      rw [hdialect, hown] at hrun
      obtain ⟨rfl, rfl⟩ := Prod.mk.inj hrun
      rcases hend with ⟨-, hlisting⟩ | ⟨path, later, failure, -, hbreaks, -, hfailure⟩
      · rw [herror] at hlisting
        cases hcause : (schedule tree (names.map Path.ofString)).2 <;> simp [hcause] at hlisting
      · rw [hfailure] at herror
        obtain rfl := Option.some.inj herror
        cases hbreaks
        exact htwo _ hfailure

/-- A run of the command that stops at a file that cannot be parsed. -/
structure Halted (dialectName : String) where
  tree : FileTree
  names : List String
  request : Command.Request.ofArguments names = .run names
  isFound : names.all (fun name => (tree.isDirectory (Path.ofString name)).toOption == some true) = true
  stops : (match mendDirectories (Dialect.named dialectName) (names.map Path.ofString) { tree } with
    | (batch, some (.parse _)) => batch.repairs == 1
    | _ => false) = true

theorem Halted.exists_batch {dialectName : String} (sample : Halted dialectName) :
    ∃ batch error, mendDirectories (Dialect.named dialectName) (sample.names.map Path.ofString)
      { tree := sample.tree } = (batch, some (.parse error)) ∧ batch.repairs = 1 := by
  have hstops := sample.stops
  split at hstops
  · rename_i batch error hbatch
    exact ⟨batch, error, hbatch, beq_iff_eq.mp hstops⟩
  · cases hstops

/-- The first file can be mended, and the second one cannot be parsed. -/
def halfway : Halted "webidl" where
  tree :=
    { directories := [⟨false, ["d"]⟩, ⟨false, ["e"]⟩]
      files :=
        [(⟨false, ["d", "A.webidl"]⟩, "interface A \x7b void f(); \x7d;".toUTF8),
          (⟨false, ["e", "B.webidl"]⟩, "interface \x7b".toUTF8)] }
  names := ["d", "./e/"]
  request := by decide +kernel
  isFound := by decide +kernel
  stops := by decide +kernel

/-- The command stops halfway, with one repair made, and says so. -/
theorem mendDirectories_stops_halfway : ∃ batch error,
    mendDirectories (Dialect.named "webidl") (halfway.names.map Path.ofString)
      { tree := halfway.tree } = (batch, some (.parse error)) ∧ batch.repairs = 1 ∧
    (Command.run "webidl" none halfway.names halfway.tree).tree = batch.tree ∧
    (Command.run "webidl" none halfway.names halfway.tree).status = .ok 2 := by
  obtain ⟨batch, error, hbatch, hrepairs⟩ := halfway.exists_batch
  obtain ⟨-, -, hcommand⟩ := mendDirectories_stops
    (show Dialect.named "webidl" = .ok Dialect.standard from rfl) halfway.tree
  obtain ⟨htree, -, hstatus⟩ := (hcommand none halfway.names halfway.names halfway.request).2
    (fun name hname => FileTree.leadsTo_of_isDirectory (by
      have hfound := List.all_eq_true.mp halfway.isFound name hname
      cases hcase : halfway.tree.isDirectory (Path.ofString name) with
      | error error =>
          rw [hcase] at hfound
          cases hfound
      | ok found =>
          rw [hcase] at hfound
          exact congrArg Except.ok (Option.some.inj (beq_iff_eq.mp hfound)))) _ _ hbatch
  exact ⟨batch, error, hbatch, hrepairs, htree, hstatus error rfl⟩

/-- A name that is too long to be looked up. -/
def overlong : String := String.ofList (List.replicate 256 'a')

/-- It is not so that the command ends with status two whenever an argument is not a directory. -/
theorem run_of_missing_false : ¬∀ (tree : FileTree) (arguments names : List String),
    Command.Request.ofArguments arguments = .run names →
    (∃ name ∈ names, ¬tree.LeadsToDirectory (Path.ofString name)) →
    (Command.run "gecko" none arguments tree).tree = tree ∧
      (Command.run "gecko" none arguments tree).status = .ok 2 := by
  intro hall
  have hchars {c : Char} (h : c ∈ overlong.toList) : c = 'a' :=
    List.eq_of_mem_replicate (String.toList_ofList ▸ h)
  have hlong : ({} : FileTree).resolve (Path.ofString overlong) = .error .nameTooLong :=
    FileTree.resolve_of_overlong (fun h => absurd (hchars h) (by decide))
      (fun h => absurd (hchars h) (by decide)) (by decide +kernel)
  have hrequest : Command.Request.ofArguments [overlong] = .run [overlong] :=
    Command.ofArguments_singleton fun h =>
      absurd (hchars (List.mem_of_mem_head? h)) (by decide)
  have hmissing : ¬({} : FileTree).LeadsToDirectory (Path.ofString overlong) := by
    rintro ⟨place, hplace, -⟩
    cases hlong.symm.trans hplace
  obtain ⟨-, hstatus⟩ := hall {} [overlong] [overlong] hrequest
    ⟨overlong, List.mem_singleton_self _, hmissing⟩
  obtain ⟨-, -, hfails⟩ := @Command.mend_of_missing {} "gecko" [] [] overlong (by simp) hmissing
  rw [Command.run, hrequest] at hstatus
  cases hstatus.symm.trans (hfails hlong)

end Batch

end WebIdl
