import WebIdl.Proofs.Batch.Run

/-!
# Batches may be repeated and reordered

A batch that comes to its end has visited all files of its directories, and left each as what its
contents at the start say.  So it matters neither how often a directory is listed nor in which order,
and another run finds nothing to do.
-/

namespace WebIdl.Batch

section

variable {dialect : Dialect} {tree : FileTree} {paths others directories : List Path} {batch : Batch}

/-! ## What is visited -/

/-- The files of a directory that can be listed. -/
def listed (tree : FileTree) (directory : Path) : List Path :=
  (filesOf tree directory).toOption.getD []

theorem schedule_eq
    (h : ∀ directory ∈ directories, ∃ files, filesOf tree directory = .ok files) :
    schedule tree directories = (directories.flatMap (listed tree), none) := by
  induction directories with
  | nil => rfl
  | cons directory rest ih =>
      obtain ⟨files, hfiles⟩ := h directory List.mem_cons_self
      rw [schedule, hfiles, ih fun other hother => h other (List.mem_cons_of_mem _ hother),
        List.flatMap_cons, listed, hfiles]
      rfl

theorem exists_files_of_schedule (h : (schedule tree directories).2 = none) :
    ∀ directory ∈ directories, ∃ files, filesOf tree directory = .ok files := by
  induction directories with
  | nil => simp
  | cons directory rest ih =>
      cases hfiles : filesOf tree directory with
      | error error =>
          rw [schedule, hfiles] at h
          cases h
      | ok files =>
          rw [schedule, hfiles] at h
          intro other hother
          rcases List.mem_cons.mp hother with rfl | hother
          · exact ⟨files, hfiles⟩
          · exact ih h other hother

theorem exists_leadsTo_of_listed {directory path : Path} (h : path ∈ listed tree directory) :
    ∃ place, tree.LeadsTo path place := by
  rw [listed] at h
  cases hfiles : filesOf tree directory with
  | error error =>
      rw [hfiles] at h
      cases h
  | ok files =>
      rw [hfiles] at h
      exact exists_leadsTo hfiles h

theorem listed_renewed (change : Path → Option ByteArray) :
    listed (tree.renewed change) = listed tree := by
  funext directory
  rw [listed, listed, filesOf_renewed]

theorem placesOf_renewed (change : Path → Option ByteArray) :
    placesOf (tree.renewed change) paths = placesOf tree paths := by
  simp only [placesOf, FileTree.resolve_renewed]

/-! ## Runs that come to their end -/

/-- A run that comes to its end has visited all files of its directories. -/
theorem visited_of_mendDirectories (hdialect : dialect ∈ Dialect.known)
    (h : mendDirectories (.ok dialect) directories { tree } = (batch, none)) :
    (∀ directory ∈ directories, ∃ files, filesOf tree directory = .ok files) ∧
      Visited dialect tree (directories.flatMap (listed tree)) batch := by
  obtain ⟨front, rest, hsplit, hends⟩ :=
    mendDirectories_ends hdialect (visited_nil dialect tree) directories
  rw [h] at hends
  generalize hstop : (schedule tree directories).2.map BatchError.file = stop at hends
  cases hends with
  | finished hvisited =>
      have hlisted := exists_files_of_schedule (Option.map_eq_none_iff.mp hstop)
      rw [schedule_eq hlisted, List.append_nil] at hsplit
      rw [List.nil_append, ← hsplit] at hvisited
      exact ⟨hlisted, hvisited⟩

/-- A run comes to its end if its directories can be listed and no file fails. -/
theorem exists_mendDirectories (hdialect : dialect ∈ Dialect.known)
    (hlisted : ∀ directory ∈ directories, ∃ files, filesOf tree directory = .ok files)
    (hsound : ∀ place ∈ placesOf tree (directories.flatMap (listed tree)),
      ∃ change, renewal dialect tree place = .ok change) :
    ∃ batch, mendDirectories (.ok dialect) directories { tree } = (batch, none) := by
  obtain ⟨front, rest, hsplit, hends⟩ :=
    mendDirectories_ends hdialect (visited_nil dialect tree) directories
  rw [schedule_eq hlisted] at hsplit hends
  generalize mendDirectories (.ok dialect) directories { tree } = result at hends
  cases hends with
  | finished hvisited => exact ⟨_, rfl⟩
  | @failed done path later error hvisited herror =>
      obtain ⟨place, hlead, herror⟩ := herror
      obtain ⟨change, hchange⟩ := hsound place <| by
        rw [show directories.flatMap (listed tree) = front ++ path :: later from hsplit]
        simp [placesOf, hlead.resolves, Except.toOption]
      cases hchange.symm.trans herror

/-- What has become of the files depends on which ones were visited only. -/
theorem treeAfter_congr
    (h : ∀ place, place ∈ placesOf tree others ↔ place ∈ placesOf tree paths) :
    treeAfter dialect tree others = treeAfter dialect tree paths := by
  simp only [treeAfter, h]

/-- The directories that are listed, in whatever order and however often. -/
theorem mem_placesOf_congr (h : ∀ directory, directory ∈ others ↔ directory ∈ directories)
    (place : Path) : place ∈ placesOf tree (others.flatMap (listed tree)) ↔
      place ∈ placesOf tree (directories.flatMap (listed tree)) := by
  simp only [placesOf, List.mem_filterMap, List.mem_flatMap, h]

/-- A run over the same directories, in whatever order and however often, also comes to its end, with
the same contents. -/
theorem exists_mendDirectories_of_mem (hdialect : dialect ∈ Dialect.known)
    (h : mendDirectories (.ok dialect) directories { tree } = (batch, none))
    (hothers : ∀ directory, directory ∈ others ↔ directory ∈ directories) :
    ∃ other, mendDirectories (.ok dialect) others { tree } = (other, none) ∧
      other.tree = batch.tree ∧ Visited dialect tree (others.flatMap (listed tree)) other := by
  obtain ⟨hlisted, hvisited⟩ := visited_of_mendDirectories hdialect h
  obtain ⟨other, hother⟩ := exists_mendDirectories hdialect
    (fun directory hmem => hlisted directory ((hothers directory).mp hmem))
    (fun place hplace => hvisited.sound place ((mem_placesOf_congr hothers place).mp hplace))
  obtain ⟨-, hvisited'⟩ := visited_of_mendDirectories hdialect hother
  refine ⟨other, hother, ?_, hvisited'⟩
  rw [hvisited'.tree_eq, hvisited.tree_eq, treeAfter_congr (mem_placesOf_congr hothers)]

/-- Another run over the same directories does nothing. -/
theorem exists_mendDirectories_again (hdialect : dialect ∈ Dialect.known)
    (h : mendDirectories (.ok dialect) directories { tree } = (batch, none)) :
    ∃ again, mendDirectories (.ok dialect) directories { tree := batch.tree } = (again, none) ∧
      again.repairs = 0 ∧ again.mended = [] ∧ again.tree = batch.tree := by
  obtain ⟨hlisted, hvisited⟩ := visited_of_mendDirectories hdialect h
  have hplaces : placesOf batch.tree (directories.flatMap (listed batch.tree)) =
      placesOf tree (directories.flatMap (listed tree)) := by
    rw [hvisited.tree_eq, treeAfter, placesOf_renewed, listed_renewed]
  -- nothing is left to be made of what was visited
  have hdone (place : Path)
      (hplace : place ∈ placesOf batch.tree (directories.flatMap (listed batch.tree))) :
      renewal dialect batch.tree place = .ok none := by
    rw [hplaces] at hplace
    have hfound : (tree.bytes? place).isSome = true := by
      obtain ⟨path, hpath, hresolve⟩ := List.mem_filterMap.mp hplace
      obtain ⟨directory, -, hpath⟩ := List.mem_flatMap.mp hpath
      obtain ⟨other, hlead⟩ := exists_leadsTo_of_listed hpath
      rw [hlead.resolves] at hresolve
      obtain rfl := Option.some.inj hresolve
      exact hlead.found
    rw [hvisited.tree_eq, renewal_treeAfter hdialect (hvisited.sound place) hfound, if_pos hplace]
  obtain ⟨again, hagain⟩ := @exists_mendDirectories _ batch.tree _ hdialect (fun directory hmem => by
    rw [hvisited.tree_eq, treeAfter, filesOf_renewed]
    exact hlisted directory hmem) (fun place hplace => ⟨none, hdone place hplace⟩)
  obtain ⟨-, hvisited'⟩ := visited_of_mendDirectories hdialect hagain
  have hzero (place : Path)
      (hplace : place ∈ placesOf batch.tree (directories.flatMap (listed batch.tree))) :
      repairsAt dialect batch.tree place = 0 := by
    rw [repairsAt, hdone place hplace]
    rfl
  refine ⟨again, hagain, ?_, ?_, ?_⟩
  · rw [hvisited'.repairs]
    exact Finset.sum_eq_zero fun place hplace => hzero place (List.mem_toFinset.mp hplace)
  · refine List.eq_nil_iff_forall_not_mem.mpr fun entry hentry => ?_
    obtain ⟨place, hplace, -, hcount, hne⟩ := hvisited'.mended entry hentry
    exact hne (hcount.trans (hzero place hplace))
  · rw [hvisited'.tree_eq, treeAfter]
    have hnone : (fun place => if place ∈ placesOf batch.tree (directories.flatMap
        (listed batch.tree)) then bytesMade? dialect batch.tree place else none) = fun _ => none := by
      funext place
      split
      · rename_i hplace
        rw [bytesMade?, hdone place hplace]
        rfl
      · rfl
    rw [hnone, FileTree.renewed_none]

end

/-- Batches are idempotent and independent of the order of directories.  If a batch under a named
dialect comes to its end, then another one over the same directories makes no repair, writes no file
and leaves the tree as it is; no file has been written twice; a batch over the same directories, each
listed as often as one likes, comes to its end with the same tree; and in any other order it also
counts the same files and repairs. -/
theorem mendDirectories_settled {dialectName : String} {dialect : Dialect}
    (hdialect : Dialect.named dialectName = .ok dialect) {directories : List Path} {tree : FileTree}
    {batch : Batch}
    (h : mendDirectories (Dialect.named dialectName) directories { tree } = (batch, none)) :
    (∃ again, mendDirectories (Dialect.named dialectName) directories { tree := batch.tree } =
        (again, none) ∧ again.repairs = 0 ∧ again.mended = [] ∧ again.tree = batch.tree) ∧
      (batch.mended.map (·.1)).Nodup ∧
      (∀ others : List Path, (∀ directory, directory ∈ others ↔ directory ∈ directories) →
        ∃ other, mendDirectories (Dialect.named dialectName) others { tree } = (other, none) ∧
          other.tree = batch.tree) ∧
      ∀ others : List Path, others.Perm directories →
        ∃ other, mendDirectories (Dialect.named dialectName) others { tree } = (other, none) ∧
          other.tree = batch.tree ∧ other.filesSeen = batch.filesSeen ∧
          other.repairs = batch.repairs := by
  have hknown := Dialect.mem_known_of_named hdialect
  rw [hdialect] at h ⊢
  have hvisited := (visited_of_mendDirectories hknown h).2
  refine ⟨exists_mendDirectories_again hknown h, hvisited.nodup, fun others hothers => ?_,
    fun others hperm => ?_⟩
  · obtain ⟨other, hother, htree, -⟩ := exists_mendDirectories_of_mem hknown h hothers
    exact ⟨other, hother, htree⟩
  · have hothers (directory : Path) := @List.Perm.mem_iff _ directory _ _ hperm
    obtain ⟨other, hother, htree, hvisited'⟩ := exists_mendDirectories_of_mem hknown h hothers
    refine ⟨other, hother, htree, ?_, ?_⟩
    · rw [hvisited'.seen, hvisited.seen, (hperm.flatMap_right _).length_eq]
    · rw [hvisited'.repairs, hvisited.repairs]
      congr 1
      ext place
      simp only [List.mem_toFinset, mem_placesOf_congr hothers]

/-- A batch that comes to its end after some repairs. -/
structure Finished (dialectName : String) where
  tree : FileTree
  directories : List Path
  repairs : Nat
  finishes : (match mendDirectories (Dialect.named dialectName) directories { tree } with
    | (batch, none) => batch.repairs == repairs
    | (_, some _) => false) = true

theorem Finished.exists_batch {dialectName : String} (sample : Finished dialectName) :
    ∃ batch, mendDirectories (Dialect.named dialectName) sample.directories { tree := sample.tree } =
      (batch, none) ∧ batch.repairs = sample.repairs := by
  have hfinishes := sample.finishes
  split at hfinishes
  · rename_i batch hbatch
    exact ⟨batch, hbatch, beq_iff_eq.mp hfinishes⟩
  · cases hfinishes

/-- Two directories with something to repair, one of which is listed twice under different paths. -/
def twiceListed : Finished "gecko" where
  tree :=
    { directories := [⟨false, ["d"]⟩, ⟨false, ["e"]⟩]
      files :=
        [(⟨false, ["d", "B.webidl"]⟩, "[Unforgeable]interface A \x7b void f(); \x7d;".toUTF8),
          (⟨false, ["e", "A.webidl"]⟩, "namespace N \x7b void g(); \x7d;".toUTF8)] }
  directories := [⟨false, ["d"]⟩, ⟨false, ["d", "..", "d"]⟩, ⟨false, ["e"]⟩]
  repairs := 3
  finishes := by decide +kernel

/-- The second run makes none of the three repairs again, and the same files come out of the two
directories if they are listed once more, or in another order. -/
theorem mendDirectories_settled_twiceListed : ∃ batch again doubled back,
    mendDirectories (Dialect.named "gecko") twiceListed.directories { tree := twiceListed.tree } =
      (batch, none) ∧ batch.repairs = 3 ∧
    mendDirectories (Dialect.named "gecko") twiceListed.directories { tree := batch.tree } =
      (again, none) ∧ again.repairs = 0 ∧ again.tree = batch.tree ∧
    mendDirectories (Dialect.named "gecko") (twiceListed.directories ++ twiceListed.directories)
      { tree := twiceListed.tree } = (doubled, none) ∧ doubled.tree = batch.tree ∧
    mendDirectories (Dialect.named "gecko") twiceListed.directories.reverse
      { tree := twiceListed.tree } = (back, none) ∧ back.tree = batch.tree ∧ back.repairs = 3 := by
  obtain ⟨batch, hbatch, hrepairs⟩ := twiceListed.exists_batch
  obtain ⟨⟨again, hagain, hzero, -, hsame⟩, -, hmem, hperm⟩ := mendDirectories_settled
    (show Dialect.named "gecko" = .ok Dialect.gecko from rfl) hbatch
  obtain ⟨doubled, hdoubled, htree⟩ := hmem (twiceListed.directories ++ twiceListed.directories) (by simp)
  obtain ⟨back, hback, hbackTree, -, hbackRepairs⟩ :=
    hperm twiceListed.directories.reverse (List.reverse_perm _)
  exact ⟨batch, again, doubled, back, hbatch, hrepairs, hagain, hzero, hsame, hdoubled, htree, hback,
    hbackTree, hbackRepairs.trans hrepairs⟩

end WebIdl.Batch
