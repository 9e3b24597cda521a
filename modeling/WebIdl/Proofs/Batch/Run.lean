import Mathlib.Algebra.BigOperators.Group.Finset.Basic
import WebIdl.Proofs.Batch.Listing
import WebIdl.Proofs.Batch.Text

/-!
# What a batch has done

A batch makes of each file what its contents at the start say (`renewal`).  After some paths have been
visited, the files that they lead to hold what was made of them, and everything else is as it was
(`Visited`).  Another visit keeps this up (`Visited.visit`): a file that has been visited is not
changed any more, because what was mended needs no mending.
-/

namespace WebIdl.Batch

open scoped BigOperators

/-! ## One file -/

/-- What a batch makes of the file at a place: its new contents and the number of repairs, or nothing if
it needs none. -/
def renewal (dialect : Dialect) (tree : FileTree) (place : Path) :
    Except BatchError (Option (ByteArray × Nat)) :=
  match tree.bytes? place with
  | none => .ok none
  | some bytes =>
    match String.fromUTF8? bytes with
    | none => .error (.file .undecodable)
    | some text =>
      (mendText dialect text place.fileName).map
        (Option.map fun (changed, count) => (changed.toUTF8, count))

/-- Makes a renewal of the file at a place, and counts the repairs. -/
def put (tree : FileTree) (place : Path) : Option (ByteArray × Nat) → FileTree × Nat
  | none => (tree, 0)
  | some (changed, count) =>
    (tree.renewed fun file => if file = place then some changed else none, count)

section

variable {dialect : Dialect} {tree other : FileTree} {path place : Path}

/-- A visit of a file does what is to be made of it. -/
theorem mendFile_eq (h : tree.LeadsTo path place) :
    mendFile (.ok dialect) path tree = (renewal dialect tree place).map (put tree place) := by
  obtain ⟨bytes, hbytes⟩ := Option.isSome_iff_exists.mp h.found
  rw [mendFile, renewal, FileTree.read, h.resolves, hbytes]
  simp only [Except.mapError, bind, Except.bind, h.plain, hbytes]
  cases htext : String.fromUTF8? bytes with
  | none => rfl
  | some text =>
      simp only [h.name, pure, Except.pure, Bool.false_eq_true, if_false]
      cases hmend : mendText dialect text path.fileName with
      | error error => rfl
      | ok changed =>
          cases changed with
          | none => rfl
          | some pair => simp only [Except.map, Option.map, put, FileTree.write_eq_renewed h.resolves]

theorem renewal_congr (h : other.bytes? place = tree.bytes? place) :
    renewal dialect other place = renewal dialect tree place := by
  rw [renewal, renewal, h]

/-- New contents are those of a text that was mended. -/
theorem exists_mendText {changed : ByteArray} {count : Nat}
    (h : renewal dialect tree place = .ok (some (changed, count))) :
    ∃ text written, mendText dialect text place.fileName = .ok (some (written, count)) ∧
      written.toUTF8 = changed := by
  unfold renewal at h
  split at h
  · cases h
  · split at h
    · cases h
    · rename_i text htext
      cases hmade : mendText dialect text place.fileName with
      | error error =>
          rw [hmade] at h
          cases h
      | ok made =>
          rw [hmade] at h
          obtain ⟨⟨written, own⟩, rfl, heq⟩ := Option.map_eq_some_iff.mp (Except.ok.inj h)
          obtain ⟨rfl, rfl⟩ := Prod.mk.inj heq
          exact ⟨text, written, hmade, rfl⟩

theorem count_ne_zero (hdialect : dialect ∈ Dialect.known) {changed : ByteArray} {count : Nat}
    (h : renewal dialect tree place = .ok (some (changed, count))) : count ≠ 0 := by
  obtain ⟨text, written, hmade, -⟩ := exists_mendText h
  rcases mendText_cases hdialect text place.fileName with
    ⟨error, -, herror⟩ | ⟨document, items, made, -, -, hmended⟩
  · cases hmade.symm.trans herror
  · have hsome := Except.ok.inj (hmade.symm.trans hmended)
    split at hsome
    · cases hsome
    · rename_i hcount
      rwa [← (Prod.mk.inj (Option.some.inj hsome)).2] at hcount

theorem fromUTF8?_toUTF8 (text : String) : String.fromUTF8? text.toUTF8 = some text := by
  simp [String.fromUTF8?, String.fromUTF8, text.isValidUTF8]

/-- A file that was mended needs nothing any more. -/
theorem renewal_again (hdialect : dialect ∈ Dialect.known) {changed : ByteArray} {count : Nat}
    (h : renewal dialect tree place = .ok (some (changed, count)))
    (hother : other.bytes? place = some changed) : renewal dialect other place = .ok none := by
  obtain ⟨text, written, hmade, rfl⟩ := exists_mendText h
  rw [renewal, hother]
  simp only [fromUTF8?_toUTF8, mendText_again hdialect hmade]
  rfl

end

/-! ## Some files -/

/-- The places that some paths lead to. -/
def placesOf (tree : FileTree) (paths : List Path) : List Path :=
  paths.filterMap fun path => (tree.resolve path).toOption

/-- The contents that the file at a place gets, if it gets others. -/
def bytesMade? (dialect : Dialect) (tree : FileTree) (place : Path) : Option ByteArray :=
  (renewal dialect tree place).toOption.join.map (·.1)

/-- The number of repairs that the file at a place needs. -/
def repairsAt (dialect : Dialect) (tree : FileTree) (place : Path) : Nat :=
  ((renewal dialect tree place).toOption.join.map (·.2)).getD 0

/-- The tree in which the files that some paths lead to have been mended. -/
def treeAfter (dialect : Dialect) (tree : FileTree) (paths : List Path) : FileTree :=
  tree.renewed fun place => if place ∈ placesOf tree paths then bytesMade? dialect tree place else none

/-- The batch has visited these paths, in this order, since the tree was as given. -/
structure Visited (dialect : Dialect) (tree : FileTree) (paths : List Path) (batch : Batch) :
    Prop where
  tree_eq : batch.tree = treeAfter dialect tree paths
  seen : batch.filesSeen = paths.length
  repairs : batch.repairs = ∑ place ∈ (placesOf tree paths).toFinset, repairsAt dialect tree place
  /-- What was visited could be mended. -/
  sound : ∀ place ∈ placesOf tree paths, ∃ change, renewal dialect tree place = .ok change
  mended : ∀ entry ∈ batch.mended, ∃ place ∈ placesOf tree paths,
    tree.resolve entry.1 = .ok place ∧ entry.2 = repairsAt dialect tree place ∧ entry.2 ≠ 0
  /-- No file was written twice. -/
  nodup : (batch.mended.map (·.1)).Nodup

section

variable {dialect : Dialect} {tree : FileTree} {path place : Path} {paths rest : List Path}
  {batch : Batch}

theorem visited_nil (dialect : Dialect) (tree : FileTree) : Visited dialect tree [] { tree } where
  tree_eq := by simp [treeAfter, placesOf, FileTree.renewed_none]
  seen := rfl
  repairs := by simp [placesOf, Batch.repairs]
  sound := by simp [placesOf]
  mended := by simp
  nodup := by simp

theorem placesOf_append (h : tree.resolve path = .ok place) :
    placesOf tree (paths ++ [path]) = placesOf tree paths ++ [place] := by
  simp [placesOf, h, Except.toOption]

/-- A file that has been visited needs nothing any more, and any other one needs what it needed. -/
theorem renewal_treeAfter (hdialect : dialect ∈ Dialect.known)
    (hsound : place ∈ placesOf tree paths → ∃ change, renewal dialect tree place = .ok change)
    (hfound : (tree.bytes? place).isSome = true) :
    renewal dialect (treeAfter dialect tree paths) place =
      if place ∈ placesOf tree paths then .ok none else renewal dialect tree place := by
  obtain ⟨bytes, hbytes⟩ := Option.isSome_iff_exists.mp hfound
  split
  · rename_i hmem
    obtain ⟨change, hchange⟩ := hsound hmem
    have hafter : (treeAfter dialect tree paths).bytes? place =
        some ((change.map (·.1)).getD bytes) := by
      rw [treeAfter, FileTree.bytes?_renewed, hbytes, if_pos hmem, bytesMade?, hchange]
      rfl
    cases change with
    | none => rw [renewal_congr (hafter.trans hbytes.symm), hchange]
    | some pair => exact renewal_again hdialect hchange hafter
  · rename_i hmem
    refine renewal_congr ?_
    rw [treeAfter, FileTree.bytes?_renewed, if_neg hmem]
    exact Option.map_id_apply

/-- How far a batch has come after one more file. -/
def visit (batch : Batch) (path : Path) (tree : FileTree) (count : Nat) : Batch :=
  if count = 0 then { batch with filesSeen := batch.filesSeen + 1 }
  else
    { batch with
      tree, filesSeen := batch.filesSeen + 1, mended := batch.mended ++ [(path, count)] }

theorem mendFiles_cons {after : FileTree} {count : Nat}
    (h : mendFile (.ok dialect) path batch.tree = .ok (after, count)) :
    mendFiles (.ok dialect) (path :: rest) batch =
      mendFiles (.ok dialect) rest (batch.visit path after count) := by
  rw [mendFiles, h]
  cases count <;> rfl

theorem repairs_visit (after : FileTree) (count : Nat) :
    (batch.visit path after count).repairs = batch.repairs + count := by
  unfold visit
  split
  · rename_i hcount
    rw [hcount]
    rfl
  · simp [repairs, List.foldl_append]

theorem treeAfter_append (h : tree.resolve path = .ok place) :
    treeAfter dialect tree (paths ++ [path]) =
      (treeAfter dialect tree paths).renewed fun file => if file = place then
        if place ∈ placesOf tree paths then none else bytesMade? dialect tree place else none := by
  rw [treeAfter, treeAfter, FileTree.renewed_renewed, placesOf_append h]
  congr 1
  funext file
  by_cases heq : file = place
  · subst heq
    by_cases hmem : file ∈ placesOf tree paths <;> simp [hmem]
  · simp [heq]

theorem filesSeen_visit (after : FileTree) (count : Nat) :
    (batch.visit path after count).filesSeen = batch.filesSeen + 1 := by
  unfold visit
  split <;> rfl

theorem put_eq (tree : FileTree) (place : Path) (change : Option (ByteArray × Nat)) :
    put tree place change =
      (tree.renewed fun file => if file = place then change.map (·.1) else none,
        (change.map (·.2)).getD 0) := by
  cases change with
  | none => simp [put, FileTree.renewed_none]
  | some pair => rfl

theorem mem_toFinset_placesOf (h : tree.resolve path = .ok place) :
    (placesOf tree (paths ++ [path])).toFinset = insert place (placesOf tree paths).toFinset := by
  ext file
  simp [placesOf_append h]

namespace Visited

/-- What a visit does after others. -/
theorem mendFile_eq (h : Visited dialect tree paths batch) (hdialect : dialect ∈ Dialect.known)
    (hlead : tree.LeadsTo path place) :
    mendFile (.ok dialect) path batch.tree =
      (if place ∈ placesOf tree paths then .ok none else renewal dialect tree place).map
        (put batch.tree place) := by
  have hlead' : (treeAfter dialect tree paths).LeadsTo path place := hlead.renewed _
  rw [h.tree_eq, Batch.mendFile_eq hlead', renewal_treeAfter hdialect (h.sound place) hlead.found]

/-- A visit that fails. -/
theorem visit_error (h : Visited dialect tree paths batch) (hdialect : dialect ∈ Dialect.known)
    (hlead : tree.LeadsTo path place) {error : BatchError}
    (herror : renewal dialect tree place = .error error) :
    mendFiles (.ok dialect) (path :: rest) batch =
      ({ batch with filesSeen := batch.filesSeen + 1 }, some error) := by
  have hmem : place ∉ placesOf tree paths := by
    intro hmem
    obtain ⟨change, hchange⟩ := h.sound place hmem
    cases hchange.symm.trans herror
  have hfile : mendFile (.ok dialect) path batch.tree = .error error := by
    rw [h.mendFile_eq hdialect hlead, if_neg hmem, herror]
    rfl
  rw [mendFiles, hfile]

/-- A visit that succeeds. -/
theorem visit (h : Visited dialect tree paths batch) (hdialect : dialect ∈ Dialect.known)
    (hlead : tree.LeadsTo path place) {change : Option (ByteArray × Nat)}
    (hchange : renewal dialect tree place = .ok change) :
    ∃ after, Visited dialect tree (paths ++ [path]) after ∧
      ∀ rest, mendFiles (.ok dialect) (path :: rest) batch = mendFiles (.ok dialect) rest after := by
  -- what is left to be done after the visits before
  obtain ⟨done, hdone⟩ : ∃ done, done = if place ∈ placesOf tree paths then none else change :=
    ⟨_, rfl⟩
  have hfile : mendFile (.ok dialect) path batch.tree = .ok (put batch.tree place done) := by
    rw [h.mendFile_eq hdialect hlead, hdone]
    split
    · rfl
    · rw [hchange]
      rfl
  rw [put_eq] at hfile
  have hbytes : done.map (·.1) =
      if place ∈ placesOf tree paths then none else bytesMade? dialect tree place := by
    rw [hdone, bytesMade?, hchange]
    split <;> rfl
  have hrepairs : (done.map (·.2)).getD 0 =
      if place ∈ placesOf tree paths then 0 else repairsAt dialect tree place := by
    rw [hdone, repairsAt, hchange]
    split <;> rfl
  -- a file is written on its first visit only
  have hfirst (pair : ByteArray × Nat) (hpair : done = some pair) :
      pair.2 ≠ 0 ∧ place ∉ placesOf tree paths := by
    rw [hdone] at hpair
    split at hpair
    · cases hpair
    · rename_i hmem
      rw [hpair] at hchange
      exact ⟨count_ne_zero hdialect hchange, hmem⟩
  have hplaces := @placesOf_append tree path place paths hlead.resolves
  have hkeep {entry : Path × Nat} (hentry : entry ∈ batch.mended) :
      ∃ file ∈ placesOf tree (paths ++ [path]), tree.resolve entry.1 = .ok file ∧
        entry.2 = repairsAt dialect tree file ∧ entry.2 ≠ 0 := by
    obtain ⟨file, hfile, hentry⟩ := h.mended entry hentry
    exact ⟨file, hplaces ▸ List.mem_append_left _ hfile, hentry⟩
  refine ⟨_, ⟨?_, ?_, ?_, ?_, ?_, ?_⟩, fun rest => mendFiles_cons hfile⟩
  · rw [treeAfter_append hlead.resolves, ← hbytes, ← h.tree_eq]
    cases done with
    | none => simp [Batch.visit, FileTree.renewed_none]
    | some pair => simp [Batch.visit, (hfirst pair rfl).1]
  · rw [filesSeen_visit, h.seen, List.length_append]
    rfl
  · rw [repairs_visit, h.repairs, hrepairs, mem_toFinset_placesOf hlead.resolves]
    split
    · rename_i hmem
      rw [Finset.insert_eq_of_mem (by simpa using hmem), Nat.add_zero]
    · rename_i hmem
      rw [Finset.sum_insert (by simpa using hmem), Nat.add_comm]
  · intro other hother
    rw [hplaces, List.mem_append, List.mem_singleton] at hother
    rcases hother with hother | rfl
    · exact h.sound other hother
    · exact ⟨change, hchange⟩
  · cases done with
    | none => exact fun entry hentry => hkeep hentry
    | some pair =>
        obtain ⟨hcount, hmem⟩ := hfirst pair rfl
        intro entry hentry
        simp only [Batch.visit, Option.map_some, Option.getD_some, hcount, if_false,
          List.mem_append, List.mem_singleton] at hentry
        rcases hentry with hentry | rfl
        · exact hkeep hentry
        · rw [if_neg hmem] at hrepairs
          exact ⟨place, hplaces ▸ List.mem_append_right _ List.mem_cons_self, hlead.resolves,
            hrepairs, hcount⟩
  · cases done with
    | none => exact h.nodup
    | some pair =>
        obtain ⟨hcount, hmem⟩ := hfirst pair rfl
        simp only [Batch.visit, Option.map_some, Option.getD_some, hcount, if_false, List.map_append,
          List.map_cons, List.map_nil]
        refine List.nodup_append.mpr ⟨h.nodup, by simp, ?_⟩
        rintro written hwritten other hother rfl
        obtain rfl := List.mem_singleton.mp hother
        obtain ⟨entry, hentry, rfl⟩ := List.mem_map.mp hwritten
        obtain ⟨file, hvisited, hresolve, -⟩ := h.mended entry hentry
        obtain rfl : file = place := Except.ok.inj (hresolve.symm.trans hlead.resolves)
        exact hmem hvisited

end Visited

end

/-! ## Whole runs -/

/-- The paths that a batch visits if nothing fails, up to the first directory that cannot be listed, and
why that one cannot be listed. -/
def schedule (tree : FileTree) : List Path → List Path × Option FileError
  | [] => ([], none)
  | directory :: rest =>
    match filesOf tree directory with
    | .error error => ([], some error)
    | .ok files => (files ++ (schedule tree rest).1, (schedule tree rest).2)

/-- The file that a path leads to fails with this error. -/
def Fails (dialect : Dialect) (tree : FileTree) (path : Path) (error : BatchError) : Prop :=
  ∃ place, tree.LeadsTo path place ∧ renewal dialect tree place = .error error

/-- A batch that has visited the paths at the front, and has others before it, ends like this: it has
come to the end, or the first of the others fails. -/
inductive Ends (dialect : Dialect) (tree : FileTree) (front : List Path) (stop : Option BatchError) :
    List Path → Batch × Option BatchError → Prop where
  | finished {batch : Batch} (h : Visited dialect tree front batch) :
      Ends dialect tree front stop [] (batch, stop)
  | failed {batch : Batch} {path : Path} {rest : List Path} {error : BatchError}
      (h : Visited dialect tree front batch) (herror : Fails dialect tree path error) :
      Ends dialect tree front stop (path :: rest)
        ({ batch with filesSeen := batch.filesSeen + 1 }, some error)

section

variable {dialect : Dialect} {tree : FileTree} {visited paths : List Path} {batch : Batch}

/-- How a run over some files ends. -/
theorem mendFiles_ends (hdialect : dialect ∈ Dialect.known)
    (h : Visited dialect tree visited batch)
    (hpaths : ∀ path ∈ paths, ∃ place, tree.LeadsTo path place) :
    ∃ front rest, paths = front ++ rest ∧
      Ends dialect tree (visited ++ front) none rest (mendFiles (.ok dialect) paths batch) := by
  induction paths generalizing visited batch with
  | nil => exact ⟨[], [], rfl, by simpa [mendFiles] using Ends.finished h⟩
  | cons path rest ih =>
      obtain ⟨place, hlead⟩ := hpaths path List.mem_cons_self
      cases hrenewal : renewal dialect tree place with
      | error error =>
          refine ⟨[], path :: rest, rfl, ?_⟩
          rw [h.visit_error hdialect hlead hrenewal, List.append_nil]
          exact .failed h ⟨place, hlead, hrenewal⟩
      | ok change =>
          obtain ⟨after, hafter, hnext⟩ := h.visit hdialect hlead hrenewal
          obtain ⟨front, others, rfl, hends⟩ := ih hafter fun other hother =>
            hpaths other (List.mem_cons_of_mem _ hother)
          refine ⟨path :: front, others, rfl, ?_⟩
          rw [hnext]
          simpa using hends

/-- How a run over some directories ends. -/
theorem mendDirectories_ends (hdialect : dialect ∈ Dialect.known)
    (h : Visited dialect tree visited batch) (directories : List Path) :
    ∃ front rest, (schedule tree directories).1 = front ++ rest ∧
      Ends dialect tree (visited ++ front) ((schedule tree directories).2.map .file) rest
        (mendDirectories (.ok dialect) directories batch) := by
  induction directories generalizing visited batch with
  | nil => exact ⟨[], [], rfl, by simpa [mendDirectories, schedule] using Ends.finished h⟩
  | cons directory rest ih =>
      have hlisted : filesOf batch.tree directory = filesOf tree directory := by
        rw [h.tree_eq, treeAfter, filesOf_renewed]
      cases hfiles : filesOf tree directory with
      | error error =>
          refine ⟨[], [], by rw [schedule, hfiles]; rfl, ?_⟩
          rw [mendDirectories, hlisted, schedule, hfiles, List.append_nil]
          exact .finished h
      | ok files =>
          obtain ⟨front, others, hsplit, hends⟩ := mendFiles_ends hdialect h fun path hpath =>
            exists_leadsTo hfiles hpath
          rw [mendDirectories, hlisted, schedule, hfiles]
          dsimp only
          generalize mendFiles (.ok dialect) files batch = result at hends
          cases hends with
          | finished hvisited =>
              obtain ⟨more, last, hmore, hlast⟩ := ih hvisited
              refine ⟨front ++ more, last, by simp [hsplit, hmore], ?_⟩
              simpa using hlast
          | @failed done path later error hvisited herror =>
              refine ⟨front, path :: later ++ (schedule tree rest).1, by simp [hsplit], ?_⟩
              exact .failed hvisited herror

end

end WebIdl.Batch
