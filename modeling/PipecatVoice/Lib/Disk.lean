import Mathlib.Algebra.GroupWithZero.Nat
import Mathlib.Data.List.AList
import PipecatVoice.Lib.PosixPath

/-!
# The files around one directory

A file system without symbolic links, as far as a program that works in one
directory can tell: its files by their paths, and that the directory and those
above it are none of them. A write fails on a directory and on a name that is
too long.

* `lookup_write`, `lookup_unlink` — what an operation does to each path;
* `mem_children` — the entries of the directory.
-/

namespace PosixPath

/-- A directory, by its resolved path. -/
structure Dir where
  path : Path
  resolved : Resolved path

/-- The path of an entry. -/
def Dir.entry (dir : Dir) (c : Name) : Path := dir.path ++ [c]

/-- Files; `dir` is a directory. -/
structure Disk (φ : Type) (dir : Dir) where
  files : AList fun _ : Path => φ
  /-- no file is in the place of a directory -/
  isDir : ∀ p, p <+: dir.path → p ∉ files

/-- The length of a name on the disk. -/
def nameBytes (c : Name) : ℕ := (c.map Char.utf8Size).sum

/-- `NAME_MAX` -/
def nameMax : ℕ := 255

namespace Disk

variable {φ : Type} {dir : Dir}

/-- No files. -/
def empty : Disk φ dir where
  files := ∅
  isDir := fun _ _ => AList.notMem_empty _

/-- The file at a path. -/
def lookup (d : Disk φ dir) (p : Path) : Option φ := d.files.lookup p

theorem isDir_insert (d : Disk φ dir) {p : Path} (hp : ¬ p <+: dir.path) (f : φ) (q : Path)
    (hq : q <+: dir.path) : q ∉ d.files.insert p f := by
  rw [AList.mem_insert, not_or]
  refine ⟨?_, d.isDir q hq⟩
  rintro rfl
  exact hp hq

theorem isDir_erase (d : Disk φ dir) (p q : Path) (hq : q <+: dir.path) :
    q ∉ d.files.erase p := by
  rw [AList.mem_erase, not_and]
  exact fun _ => d.isDir q hq

/-- Write a file, new or not; `none` is an `OSError`. -/
def write (d : Disk φ dir) (p : Path) (f : φ) : Option (Disk φ dir) :=
  if hp : p <+: dir.path then none
  else if nameBytes (p.getLastD []) ≤ nameMax then
    some { files := d.files.insert p f, isDir := d.isDir_insert hp f }
  else none

/-- Remove a file, if it is there. -/
def unlink (d : Disk φ dir) (p : Path) : Disk φ dir where
  files := d.files.erase p
  isDir := d.isDir_erase p

/-- The name of an entry of the directory. -/
def childName (dir : Dir) (p : Path) : Option Name :=
  if p.dropLast = dir.path then p.getLast? else none

/-- The names of the files in the directory. -/
def children (d : Disk φ dir) : List Name := d.files.keys.filterMap (childName dir)

/-! ## What the operations do -/

theorem entry_inj {c c' : Name} (h : dir.entry c = dir.entry c') : c = c' :=
  List.singleton_inj.mp (List.append_cancel_left h)

theorem entry_not_prefix_dir (c : Name) : ¬ dir.entry c <+: dir.path := by
  intro h
  have hlen := h.length_le
  rw [Dir.entry, List.length_append, List.length_singleton] at hlen
  exact absurd hlen (Nat.not_succ_le_self _)

theorem lookup_dir_eq_none (d : Disk φ dir) {p : Path} (hp : p <+: dir.path) :
    d.lookup p = none := AList.lookup_eq_none.mpr (d.isDir p hp)

/-- **A write** changes one path. -/
theorem lookup_write {d d' : Disk φ dir} {p : Path} {f : φ} (h : d.write p f = some d')
    (q : Path) : d'.lookup q = if q = p then some f else d.lookup q := by
  rw [write] at h
  split at h
  · cases h
  · split at h
    · obtain rfl := Option.some.inj h
      rw [lookup]
      split
      · rename_i hq
        rw [hq]
        exact AList.lookup_insert d.files
      · rename_i hq
        exact AList.lookup_insert_ne hq
    · cases h

/-- A write of an entry succeeds exactly if the name is not too long. -/
theorem isSome_write_entry (d : Disk φ dir) (c : Name) (f : φ) :
    (d.write (dir.entry c) f).isSome = true ↔ nameBytes c ≤ nameMax := by
  have hlast : (dir.entry c).getLastD [] = c := by
    rw [Dir.entry, List.getLastD_concat]
  rw [write, dif_neg (entry_not_prefix_dir c), hlast]
  split
  · rename_i h
    exact iff_of_true rfl h
  · rename_i h
    exact iff_of_false Bool.false_ne_true h

theorem lookup_unlink (d : Disk φ dir) (p q : Path) :
    (d.unlink p).lookup q = if q = p then none else d.lookup q := by
  rw [lookup, unlink]
  split
  · rename_i hq
    rw [hq]
    exact AList.lookup_erase p d.files
  · rename_i hq
    exact AList.lookup_erase_ne hq

theorem childName_eq_some {p : Path} {c : Name} :
    childName dir p = some c ↔ p = dir.entry c := by
  rw [childName, Dir.entry]
  refine ⟨?_, ?_⟩
  · intro h
    split at h
    · rename_i hdrop
      rw [← hdrop]
      exact (List.dropLast_append_getLast? c h).symm
    · cases h
  · rintro rfl
    rw [List.dropLast_concat, if_pos rfl, List.getLast?_concat]

/-- **The entries** of the directory. -/
theorem mem_children {d : Disk φ dir} {c : Name} :
    c ∈ d.children ↔ (d.lookup (dir.entry c)).isSome := by
  rw [children, List.mem_filterMap, lookup, AList.lookup_isSome]
  simp only [childName_eq_some]
  refine ⟨?_, ?_⟩
  · rintro ⟨p, hp, rfl⟩
    exact AList.mem_keys.mpr hp
  · intro h
    exact ⟨_, AList.mem_keys.mp h, rfl⟩

theorem nodup_children (d : Disk φ dir) : d.children.Nodup := by
  apply List.Nodup.filterMap ?_ d.files.keys_nodup
  intro p q c hp hq
  rw [Option.mem_def, childName_eq_some] at hp hq
  rw [hp, hq]

end Disk

end PosixPath
