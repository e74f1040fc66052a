import Mathlib.Data.List.Basic
import TileWorld.FileTree

/-! Files that are written and read back. Writing changes nothing but the node that the path names,
so the way to it is still there. -/
namespace TileWorld

namespace FileNode

theorem lookup_setEntry_of_ne {entries : List (String × FileNode)} {name other : String} {node : FileNode}
    (h : other ≠ name) : (setEntry entries name node).lookup other = entries.lookup other := by
  induction entries with
  | nil => simp [setEntry, h]
  | cons e es ih => grind [setEntry]

theorem entries_of_not_isFolder {node : FileNode} (h : node.isFolder = false) : node.entries = [] := by
  cases node <;> first | rfl | cases h

theorem find?_append (node : FileNode) (names rest : List String) :
    node.find? (names ++ rest) = (node.find? names).bind (find? rest) := by
  induction names generalizing node with
  | nil => rfl
  | cons name names ih =>
    rw [List.cons_append, find?, find?]
    cases node.entries.lookup name with
    | none => rfl
    | some child => exact ih child

/-- A folder that stands above another node, or beside the way to a node that is put, stays a folder. -/
theorem isFolder_find?_put {new : FileNode} {names place : List String} {node : FileNode}
    (h : (node.find? place).any isFolder = true) (hnot : ¬ names <+: place) :
    ((put new names node).find? place).any isFolder = true := by
  induction place generalizing node names with
  | nil =>
    cases names with
    | nil => exact absurd List.nil_prefix hnot
    | cons name names => rfl
  | cons part place ih =>
    cases names with
    | nil => exact absurd List.nil_prefix hnot
    | cons name names =>
      rw [find?] at h
      rw [put, find?, entries]
      by_cases hpart : part = name
      · subst hpart
        rw [lookup_setEntry, Option.bind_some]
        cases hchild : node.entries.lookup part with
        | none =>
          rw [hchild] at h
          cases h
        | some child =>
          rw [hchild, Option.bind_some] at h
          exact ih h fun hway => hnot (List.cons_prefix_cons.mpr ⟨rfl, hway⟩)
      · rw [lookup_setEntry_of_ne hpart]
        exact h

/-- What stands above a folder is one. -/
theorem isFolder_find?_of_isPrefix {node : FileNode} {names place : List String} (hway : names <+: place)
    (h : (node.find? place).any isFolder = true) : (node.find? names).any isFolder = true := by
  obtain ⟨rest, rfl⟩ := hway
  rw [find?_append] at h
  cases hnode : node.find? names with
  | none =>
    rw [hnode] at h
    cases h
  | some child =>
    rw [hnode, Option.bind_some] at h
    rw [Option.any_some]
    cases rest with
    | nil => exact h
    | cons name rest =>
      by_contra hnot
      rw [find?, entries_of_not_isFolder (by simpa using hnot)] at h
      cases h

end FileNode

namespace FileTree

/-- A step of the way through a tree. -/
theorem follow_cons_eq_ok_iff {t : FileTree} {place : List String} {part : String}
    {parts found : List String} :
    t.follow place (part :: parts) = .ok found ↔
      (t.root.find? place).any FileNode.isFolder = true ∧
        (if part = "" ∨ part = "." then t.follow place parts = .ok found
        else if part = ".." then t.follow place.dropLast parts = .ok found
        else part.utf8ByteSize ≤ maxNameSize ∧ t.follow (place ++ [part]) parts = .ok found) := by
  rw [follow]
  cases t.root.find? place with
  | none => simp
  | some node => cases hnode : node.isFolder <;> grind

theorem follow_append_eq_ok_iff {t : FileTree} {place parts rest found : List String} :
    t.follow place (parts ++ rest) = .ok found ↔
      ∃ between, t.follow place parts = .ok between ∧ t.follow between rest = .ok found := by
  induction parts generalizing place with
  | nil => simp [follow]
  | cons part parts ih =>
    simp only [List.cons_append, follow_cons_eq_ok_iff]
    grind

/-- A way through folders is there in every tree that has these folders. -/
theorem follow_of_isFolder {t t' : FileTree}
    (h : ∀ place, (t.root.find? place).any FileNode.isFolder = true →
      (t'.root.find? place).any FileNode.isFolder = true)
    {place parts found : List String} (hfollow : t.follow place parts = .ok found) :
    t'.follow place parts = .ok found := by
  induction parts generalizing place with
  | nil => exact hfollow
  | cons part parts ih =>
    rw [follow_cons_eq_ok_iff] at hfollow ⊢
    obtain ⟨hfolder, hrest⟩ := hfollow
    refine ⟨h place hfolder, ?_⟩
    split_ifs at hrest ⊢
    · exact ih hrest
    · exact ih hrest
    · exact ⟨hrest.1, ih hrest.2⟩

theorem parts_ne_nil (path : String) : parts path ≠ [] := by
  rw [parts, ne_eq, List.map_eq_nil_iff]
  exact Text.split_ne_nil _ _

/-- What a successful write found on its way, and what it left. -/
structure WrittenAt (t t' : FileTree) (path content : String) (front : List String) (name : String)
    (folder : List String) : Prop where
  path_ok : checkPath path = .ok ()
  parts_eq : parts path = front ++ [name]
  follow_eq : t.follow (t.start path) front = .ok folder
  isFolder : (t.root.find? folder).any FileNode.isFolder = true
  not_isFolder : ¬ (t.root.find? (folder ++ [name])).any FileNode.isFolder = true
  proper : name ≠ "" ∧ name ≠ "." ∧ name ≠ ".."
  short : name.utf8ByteSize ≤ maxNameSize
  tree_eq : t' = { t with root := t.root.withNode (.text content) (folder ++ [name]) }

theorem exists_of_write {t t' : FileTree} {path content : String} (h : t.write path content = .ok t') :
    ∃ front name folder, WrittenAt t t' path content front name folder := by
  obtain ⟨front, name, hparts⟩ : ∃ front name, parts path = front ++ [name] :=
    ⟨_, _, (List.dropLast_append_getLast (parts_ne_nil path)).symm⟩
  rw [write] at h
  cases hpath : checkPath path with
  | error e => simp [hpath, bind, Except.bind] at h
  | ok _ =>
    cases hfollow : t.follow (t.start path) (namedParts path).dropLast with
    | error e => simp [hpath, hfollow, bind, Except.bind] at h
    | ok folder =>
      cases hnode : t.root.find? folder with
      | none => simp [hpath, hfollow, hnode, bind, Except.bind, throw, throwThe, MonadExceptOf.throw] at h
      | some node =>
        simp only [hpath, hfollow, hnode, bind, Except.bind, throw, throwThe, MonadExceptOf.throw, pure,
          Except.pure] at h
        split_ifs at h with hfolder hrefused hlong
        have hproper : name ≠ "" ∧ name ≠ "." ∧ name ≠ ".." := by
          simpa [namesFolder, hparts] using (not_or.mp (mt Bool.or_eq_true_iff.mpr hrefused)).1
        -- The last part is not empty, so that none is taken off the end.
        have hnamed : namedParts path = front ++ [name] := by
          simp [namedParts, hparts, hproper.1]
        have hname : (namedParts path).getLast?.getD "" = name := by simp [hnamed]
        rw [hname] at hrefused hlong h
        rw [hnamed, List.dropLast_concat] at hfollow
        have hplace : t.root.find? (folder ++ [name]) = node.entries.lookup name := by
          rw [FileNode.find?_append, hnode, Option.bind_some, FileNode.find?]
          cases node.entries.lookup name <;> rfl
        refine ⟨front, name, folder, hpath, hparts, hfollow, ?_, ?_, hproper, Nat.le_of_not_lt hlong,
          (Except.ok.inj h).symm⟩
        · rw [hnode, Option.any_some]
          simpa using hfolder
        · rw [hplace]
          exact (not_or.mp (mt Bool.or_eq_true_iff.mpr hrefused)).2

/-- A file that was written is read as what was written. -/
theorem read_of_write {t t' : FileTree} {path content : String} (h : t.write path content = .ok t') :
    t'.read path = .ok content := by
  obtain ⟨front, name, folder, hw⟩ := exists_of_write h
  have hroot : t'.root = FileNode.put (.text content) (folder ++ [name]) t.root := by
    rw [hw.tree_eq]
    rfl
  have hstart : t'.start path = t.start path := by
    rw [hw.tree_eq]
    rfl
  have hkeep (place : List String) (hplace : (t.root.find? place).any FileNode.isFolder = true) :
      (t'.root.find? place).any FileNode.isFolder = true := by
    rw [hroot]
    -- Only a place at or below the written name could be lost, and then the name were a folder's.
    exact FileNode.isFolder_find?_put hplace fun hway =>
      hw.not_isFolder (FileNode.isFolder_find?_of_isPrefix hway hplace)
  have hresolve : t'.resolve path = .ok (folder ++ [name]) := by
    have hlast : t'.follow folder [name] = .ok (folder ++ [name]) := by
      rw [follow_cons_eq_ok_iff, if_neg (not_or.mpr ⟨hw.proper.1, hw.proper.2.1⟩), if_neg hw.proper.2.2]
      exact ⟨hkeep folder hw.isFolder, hw.short, rfl⟩
    have hfollow := follow_append_eq_ok_iff.mpr ⟨folder, follow_of_isFolder hkeep hw.follow_eq, hlast⟩
    rw [resolve, hw.path_ok, hw.parts_eq, hstart]
    exact hfollow
  have hnode : t'.node path = .ok (.text content) := by
    rw [node, hresolve]
    simp only [bind, Except.bind, hroot, FileNode.find?_put]
  rw [read, hnode]
  rfl

end FileTree

end TileWorld
