import Mathlib.Data.List.Nodup
import WebIdl.Batch
import WebIdl.Proofs.Files.Tree

/-!
# The files that a batch visits

A batch visits the files of a directory whose names end in the suffix, in the order of their names.
Which ones these are depends on where files and directories are, and not on what they hold.
-/

namespace WebIdl.Batch

variable {tree : FileTree} {directory path : Path} {files : List Path}

/-! ## One directory -/

@[simp] theorem onlyFiles_renewed (change : Path → Option ByteArray) (paths : List Path) :
    onlyFiles (tree.renewed change) paths = onlyFiles tree paths := by
  induction paths with
  | nil => rfl
  | cons path rest ih => simp only [onlyFiles, FileTree.isFile_renewed, ih]

@[simp] theorem filesOf_renewed (change : Path → Option ByteArray) :
    filesOf (tree.renewed change) directory = filesOf tree directory := by
  simp only [filesOf, FileTree.entryNames_renewed, onlyFiles_renewed]

theorem onlyFiles_eq_ok {paths : List Path} (h : onlyFiles tree paths = .ok files) :
    files = paths.filter fun path => (tree.isFile path).toOption == some true := by
  induction paths generalizing files with
  | nil => exact (Except.ok.inj h).symm
  | cons path rest ih =>
      cases hfile : tree.isFile path with
      | error error => simp [onlyFiles, hfile, bind, Except.bind] at h
      | ok isFile =>
          cases hrest : onlyFiles tree rest with
          | error error => simp [onlyFiles, hfile, hrest, bind, Except.bind] at h
          | ok more =>
              simp only [onlyFiles, hfile, hrest, bind, Except.bind, pure, Except.pure,
                Except.ok.injEq] at h
              rw [← h, ih hrest, List.filter_cons, hfile]
              cases isFile <;> rfl

theorem isFile_iff :
    ((tree.isFile path).toOption == some true) = true ↔ tree.isFile path = .ok true := by
  cases tree.isFile path <;> simp [Except.toOption]

theorem ne_parent_of_endsWith {name : String} (h : name.endsWith fileSuffix = true) :
    name ≠ ".." := by
  rintro rfl
  revert h
  decide

/-- What is listed of a directory. -/
theorem filesOf_eq_ok (h : filesOf tree directory = .ok files) :
    ∃ place, tree.resolve directory = .ok place ∧
      files = ((((((tree.directories ++ tree.files.map (·.1)).filter fun entry =>
        entry.parent == place && !entry.names.isEmpty).map Path.fileName).mergeSort
          fun a b => decide (a ≤ b)).filter (·.endsWith fileSuffix)).map directory.push).filter
            fun path => (tree.isFile path).toOption == some true := by
  unfold filesOf at h
  cases hplace : tree.resolve directory with
  | error error => simp [FileTree.entryNames, hplace, bind, Except.bind] at h
  | ok place =>
      refine ⟨place, rfl, ?_⟩
      cases hdirectory : tree.hasDirectory place with
      | false =>
          simp [FileTree.entryNames, hplace, hdirectory, bind, Except.bind, throw,
            throwThe, MonadExceptOf.throw] at h
      | true =>
          simp only [FileTree.entryNames, hplace, hdirectory, bind, Except.bind, if_true, pure,
            Except.pure] at h
          exact onlyFiles_eq_ok h

/-- The files of a directory are listed by the order of their names. -/
theorem sorted_filesOf (h : filesOf tree directory = .ok files) :
    files.Pairwise fun path other => path.fileName ≤ other.fileName := by
  obtain ⟨place, -, rfl⟩ := filesOf_eq_ok h
  refine List.Pairwise.filter _ (List.pairwise_map.mpr ?_)
  simp only [Path.fileName_push]
  refine List.Pairwise.filter _ ?_
  have htrans (a b c : String) (hab : decide (a ≤ b) = true) (hbc : decide (b ≤ c) = true) :
      decide (a ≤ c) = true :=
    decide_eq_true (String.le_trans (of_decide_eq_true hab) (of_decide_eq_true hbc))
  have htotal (a b : String) : (decide (a ≤ b) || decide (b ≤ a)) = true := by
    simpa using String.le_total a b
  exact (List.pairwise_mergeSort htrans htotal _).imp fun hle => of_decide_eq_true hle

/-- The files of a directory are all that lead to a file and whose names end in the suffix. -/
theorem mem_filesOf (h : filesOf tree directory = .ok files) :
    path ∈ files ↔ ∃ name, path = directory.push name ∧ name.endsWith fileSuffix = true ∧
      tree.isFile path = .ok true := by
  obtain ⟨place, hplace, rfl⟩ := filesOf_eq_ok h
  simp only [List.mem_filter, List.mem_map, List.mem_mergeSort, isFile_iff]
  constructor
  · rintro ⟨⟨name, ⟨-, hsuffix⟩, rfl⟩, hisFile⟩
    exact ⟨name, rfl, hsuffix, hisFile⟩
  · rintro ⟨name, rfl, hsuffix, hisFile⟩
    refine ⟨⟨name, ⟨?_, hsuffix⟩, rfl⟩, hisFile⟩
    -- the file is an entry of the directory that the path of the directory leads to
    obtain ⟨file, hresolve, -, hfound⟩ := FileTree.isFile_eq_true.mp hisFile
    obtain ⟨own, hown, rfl⟩ := FileTree.resolve_push hresolve (ne_parent_of_endsWith hsuffix)
    obtain rfl : own = place :=
      Except.ok.inj (hown.symm.trans (FileTree.follow_of_resolve hplace))
    refine ⟨own.push name, ⟨List.mem_append_right _ (FileTree.isSome_bytes?.mp hfound), ?_⟩, ?_⟩
    · simp [Path.push, Path.parent]
    · exact Path.fileName_push own name

/-- Where no two files are in one place, none is listed twice. -/
theorem nodup_filesOf (h : filesOf tree directory = .ok files)
    (htree : (tree.files.map (·.1)).Nodup) : files.Nodup := by
  obtain ⟨place, hplace, rfl⟩ := filesOf_eq_ok h
  have hinside {entry : Path} (hentry : (entry.parent == place && !entry.names.isEmpty) = true) :
      place.push entry.fileName = entry := by
    simp only [Bool.and_eq_true, beq_iff_eq, Bool.not_eq_true', List.isEmpty_eq_false_iff] at hentry
    rw [← hentry.1, Path.push_parent hentry.2]
  -- the order does not matter
  refine ((((List.mergeSort_perm _ _).filter _).map _).filter _).nodup_iff.mpr ?_
  simp only [List.filter_append, List.map_append]
  have hnone : ((((tree.directories.filter fun entry =>
      entry.parent == place && !entry.names.isEmpty).map Path.fileName).filter
        (·.endsWith fileSuffix)).map directory.push).filter
          (fun path => (tree.isFile path).toOption == some true) = [] := by
    refine List.filter_eq_nil_iff.mpr fun path hmem hfile => ?_
    obtain ⟨name, hname, rfl⟩ := List.mem_map.mp hmem
    obtain ⟨hname, hsuffix⟩ := List.mem_filter.mp hname
    obtain ⟨entry, hentry, rfl⟩ := List.mem_map.mp hname
    obtain ⟨hdirectory, hentry⟩ := List.mem_filter.mp hentry
    obtain ⟨file, hresolve, hplain, -⟩ := FileTree.isFile_eq_true.mp (isFile_iff.mp hfile)
    obtain ⟨own, hown, rfl⟩ := FileTree.resolve_push hresolve (ne_parent_of_endsWith hsuffix)
    obtain rfl : own = place :=
      Except.ok.inj (hown.symm.trans (FileTree.follow_of_resolve hplace))
    rw [hinside hentry] at hplain
    rw [FileTree.hasDirectory, List.contains_iff_mem.mpr hdirectory, Bool.or_true] at hplain
    cases hplain
  rw [hnone, List.nil_append]
  refine (List.Nodup.map ?_ (List.Nodup.filter _ ?_)).filter _
  · intro name other heq
    rw [← Path.fileName_push directory name, heq, Path.fileName_push]
  · refine (List.nodup_map_iff_inj_on (htree.filter _)).mpr fun entry hentry other hother heq => ?_
    rw [← hinside (List.mem_filter.mp hentry).2, heq, hinside (List.mem_filter.mp hother).2]

/-- What is listed leads to a file. -/
theorem exists_leadsTo (h : filesOf tree directory = .ok files) (hpath : path ∈ files) :
    ∃ place, tree.LeadsTo path place := by
  obtain ⟨name, rfl, hsuffix, hisFile⟩ := (mem_filesOf h).mp hpath
  obtain ⟨place, hresolve, hplain, hfound⟩ := FileTree.isFile_eq_true.mp hisFile
  obtain ⟨own, -, rfl⟩ := FileTree.resolve_push hresolve (ne_parent_of_endsWith hsuffix)
  exact ⟨own.push name, hresolve, hplain, hfound, by simp⟩

end WebIdl.Batch
