import Mathlib.Data.List.Basic
import WebIdl.Files.Tree

/-!
# What changed contents change

Writing a file changes what it holds, and nothing else of a tree of files: the directories and files
stay where they are, so every path leads where it led before.
-/

namespace WebIdl

namespace Path

@[simp] theorem fileName_push (path : Path) (name : String) : (path.push name).fileName = name := by
  simp [push, fileName]

@[simp] theorem parent_push (path : Path) (name : String) : (path.push name).parent = path := by
  simp [push, parent]

/-- An entry is its directory and its name. -/
theorem push_parent {path : Path} (h : path.names ≠ []) : path.parent.push path.fileName = path := by
  obtain ⟨isAbsolute, names⟩ := path
  have hnames : names.dropLast ++ [names.getLastD ""] = names := by
    rcases List.eq_nil_or_concat names with rfl | ⟨front, last, rfl⟩
    · exact absurd rfl h
    · simp
  exact congrArg (Path.mk isAbsolute) hnames

theorem enter_of_ne {path : Path} {name : String} (h : name ≠ "..") :
    path.enter name = path.push name := by
  simp [enter, h]

end Path

namespace FileTree

/-! ## Changed contents -/

/-- The tree in which some files have got other contents. -/
def renewed (tree : FileTree) (change : Path → Option ByteArray) : FileTree :=
  { tree with files := tree.files.map fun entry => (entry.1, (change entry.1).getD entry.2) }

variable {tree : FileTree} {change more : Path → Option ByteArray} {path place directory : Path}

theorem renewed_none (tree : FileTree) : tree.renewed (fun _ => none) = tree := by
  simp [renewed]

theorem renewed_renewed : (tree.renewed change).renewed more =
    tree.renewed fun place => (more place).or (change place) := by
  simp only [renewed, List.map_map, mk.injEq, true_and]
  refine List.map_congr_left fun entry _ => ?_
  cases hmore : more entry.1 <;> simp [hmore]

@[simp] theorem directories_renewed : (tree.renewed change).directories = tree.directories := rfl

@[simp] theorem files_renewed :
    (tree.renewed change).files.map (·.1) = tree.files.map (·.1) := by
  simp [renewed]

theorem bytes?_renewed : (tree.renewed change).bytes? place =
    (tree.bytes? place).map fun bytes => (change place).getD bytes := by
  rw [bytes?, bytes?, renewed, List.find?_map, Option.map_map, Option.map_map]
  change Option.map _ (tree.files.find? (·.1 == place)) = _
  cases hfound : tree.files.find? (·.1 == place) with
  | none => rfl
  | some entry =>
      have hplace : entry.1 = place := by simpa using List.find?_some hfound
      simp [hplace]

@[simp] theorem isSome_bytes?_renewed :
    ((tree.renewed change).bytes? place).isSome = (tree.bytes? place).isSome := by
  rw [bytes?_renewed, Option.isSome_map]

theorem write_eq_renewed (h : tree.resolve path = .ok place) (text : String) :
    tree.write path text =
      tree.renewed fun file => if file = place then some text.toUTF8 else none := by
  rw [write, h]
  simp only [renewed, mk.injEq, true_and]
  refine List.map_congr_left fun entry _ => ?_
  by_cases heq : entry.1 = place <;> simp [heq]

/-! ## Paths lead where they led -/

@[simp] theorem hasDirectory_renewed :
    (tree.renewed change).hasDirectory place = tree.hasDirectory place := rfl

@[simp] theorem directoryError_renewed :
    (tree.renewed change).directoryError place = tree.directoryError place := by
  simp [directoryError]

@[simp] theorem follow_renewed (names : List String) :
    (tree.renewed change).follow place names = tree.follow place names := by
  induction names generalizing place with
  | nil => rfl
  | cons name rest ih => simp only [follow, hasDirectory_renewed, directoryError_renewed, ih]

@[simp] theorem resolve_renewed : (tree.renewed change).resolve path = tree.resolve path := by
  simp only [resolve, follow_renewed]

@[simp] theorem isFile_renewed : (tree.renewed change).isFile path = tree.isFile path := by
  simp only [isFile, resolve_renewed, hasDirectory_renewed, isSome_bytes?_renewed]

@[simp] theorem entryNames_renewed :
    (tree.renewed change).entryNames path = tree.entryNames path := by
  simp only [entryNames, resolve_renewed, hasDirectory_renewed, directoryError_renewed,
    directories_renewed, files_renewed]

/-! ## Entries of a directory -/

theorem isSome_bytes? : (tree.bytes? place).isSome = true ↔ place ∈ tree.files.map (·.1) := by
  rw [bytes?, Option.isSome_map, List.find?_isSome, List.mem_map]
  simp only [beq_iff_eq]

theorem follow_append (front back : List String) :
    tree.follow place (front ++ back) = (tree.follow place front).bind (tree.follow · back) := by
  induction front generalizing place with
  | nil => rfl
  | cons name rest ih =>
      simp only [List.cons_append, follow]
      split
      · rfl
      · split
        · rfl
        · exact ih

theorem follow_of_resolve (h : tree.resolve path = .ok place) :
    tree.follow ⟨path.isAbsolute, []⟩ path.names = .ok place := by
  unfold resolve at h
  split at h
  · cases h
  · split at h
    · cases h
    · exact h

/-- The path of an entry leads into the directory that the path of the directory leads to. -/
theorem resolve_push {name : String} (h : tree.resolve (directory.push name) = .ok place)
    (hname : name ≠ "..") :
    ∃ own, tree.follow ⟨directory.isAbsolute, []⟩ directory.names = .ok own ∧
      place = own.push name := by
  have hfollow : tree.follow ⟨directory.isAbsolute, []⟩ (directory.names ++ [name]) = .ok place :=
    follow_of_resolve h
  rw [follow_append] at hfollow
  cases hown : tree.follow ⟨directory.isAbsolute, []⟩ directory.names with
  | error error =>
      rw [hown] at hfollow
      cases hfollow
  | ok own =>
      refine ⟨own, rfl, ?_⟩
      rw [hown] at hfollow
      simp only [Except.bind, follow] at hfollow
      split at hfollow
      · cases hfollow
      · split at hfollow
        · cases hfollow
        · rw [← Except.ok.inj hfollow, Path.enter_of_ne hname]

/-- The path leads to the file at this place, which bears the last name of the path. -/
structure LeadsTo (tree : FileTree) (path place : Path) : Prop where
  resolves : tree.resolve path = .ok place
  plain : tree.hasDirectory place = false
  found : (tree.bytes? place).isSome = true
  name : place.fileName = path.fileName

theorem LeadsTo.renewed (h : tree.LeadsTo path place) (change : Path → Option ByteArray) :
    (tree.renewed change).LeadsTo path place where
  resolves := by rw [resolve_renewed, h.resolves]
  plain := h.plain
  found := by rw [isSome_bytes?_renewed, h.found]
  name := h.name

theorem isFile_eq_true : tree.isFile path = .ok true ↔
    ∃ place, tree.resolve path = .ok place ∧ tree.hasDirectory place = false ∧
      (tree.bytes? place).isSome = true := by
  unfold isFile
  split
  · rename_i place hplace
    simp [hplace]
  · rename_i herror
    simp [herror]
  · rename_i herror
    simp [herror]

end FileTree

end WebIdl
