import Mathlib.Data.List.Infix
import Mathlib.Data.List.Basic

/-!
# Paths of a POSIX file system

An absolute path is the list of the names on the way from the root. `join` puts
a text behind a path the way `pathlib` does, `resolve` is what the system then
opens where there are no symbolic links, and `fileName` and `withSuffix` are the
`name` and `with_suffix` of `pathlib`.

* `resolve_join` — a proper name behind a path is an entry of its directory;
* `fileName_cases` — a file name is empty, `..` or a proper name;
* `withSuffix_append` — the suffix after a non-empty stem is replaced.
-/

namespace PosixPath

abbrev Name := List Char

/-- The names from the root. -/
abbrev Path := List Name

/-- A name that an entry of a directory may have. -/
structure IsName (c : Name) : Prop where
  ne_nil : c ≠ []
  ne_dot : c ≠ ['.']
  ne_dotdot : c ≠ ['.', '.']
  slash : '/' ∉ c

/-- A path of such names. -/
def Resolved (p : Path) : Prop := ∀ c ∈ p, IsName c

/-- The components of a text, without the empty ones and those for the directory
itself. -/
def parts (s : List Char) : Path := (s.splitOn '/').filter fun part => part ≠ [] ∧ part ≠ ['.']

/-- `Path(s).name` -/
def fileName (s : List Char) : Name := (parts s).getLastD []

/-- `dir / s`; an absolute `s` replaces `dir`. -/
def join (dir : Path) (s : List Char) : Path :=
  if s.head? = some '/' then parts s else dir ++ parts s

/-- What a path leads to: `..` goes up. -/
def resolve (p : Path) : Path :=
  p.foldl (fun at' c => if c = ['.', '.'] then at'.dropLast else at' ++ [c]) []

/-- The place of the last dot, or `-1`. -/
def rfindDot (name : Name) : ℤ :=
  if '.' ∈ name then name.length - 1 - name.reverse.idxOf '.' else -1

/-- `with_suffix`, of a name: a suffix starts at the last dot, unless the name
starts or ends with it. -/
def withSuffix (name : Name) (suffix : List Char) : Name :=
  let i := rfindDot name
  if 0 < i ∧ i < name.length - 1 then name.take i.toNat ++ suffix else name ++ suffix

/-! ## Components -/

theorem IsName.append {s ext : List Char} (hs : '/' ∉ s) (hext : '/' ∉ ext)
    (hlen : 2 < ext.length) : IsName (s ++ ext) := by
  have hlong : 2 < (s ++ ext).length := by
    rw [List.length_append]
    omega
  refine ⟨?_, ?_, ?_, ?_⟩
  · rintro h
    rw [h] at hlong
    exact absurd hlong (by decide)
  · rintro h
    rw [h] at hlong
    exact absurd hlong (by decide)
  · rintro h
    rw [h] at hlong
    exact absurd hlong (by decide)
  · rw [List.mem_append, not_or]
    exact ⟨hs, hext⟩

theorem slash_notMem_of_mem_splitOn {s : List Char} : ∀ c ∈ s.splitOn '/', '/' ∉ c := by
  induction s with
  | nil =>
    intro c hc
    rw [List.splitOn_nil, List.mem_singleton] at hc
    rw [hc]
    exact List.not_mem_nil
  | cons x s ih =>
    intro c hc
    rw [List.splitOn_cons_eq_if_modifyHead] at hc
    split at hc
    · rcases List.mem_cons.mp hc with rfl | hrest
      · exact List.not_mem_nil
      · exact ih c hrest
    · rename_i hx
      obtain ⟨head, rest, hsplit⟩ := List.exists_cons_of_ne_nil (List.splitOn_ne_nil '/' s)
      rw [hsplit, List.modifyHead_cons] at hc
      rw [hsplit] at ih
      rcases List.mem_cons.mp hc with rfl | hrest
      · rw [List.mem_cons, not_or]
        refine ⟨?_, ih head List.mem_cons_self⟩
        rintro rfl
        exact hx (beq_self_eq_true '/')
      · exact ih c (List.mem_cons_of_mem head hrest)

/-- A component has no slash in it. -/
theorem slash_notMem_of_mem_parts {s : List Char} {c : Name} (h : c ∈ parts s) : '/' ∉ c :=
  slash_notMem_of_mem_splitOn c (List.mem_of_mem_filter h)

theorem parts_of_isName {c : Name} (h : IsName c) : parts c = [c] := by
  rw [parts, List.splitOn_eq_singleton h.slash, List.filter_singleton,
    decide_eq_true ⟨h.ne_nil, h.ne_dot⟩]
  rfl

/-- **A file name** is empty, leads up, or is the name of an entry. -/
theorem fileName_cases (s : List Char) :
    fileName s = [] ∨ fileName s = ['.', '.'] ∨ IsName (fileName s) := by
  rw [fileName]
  rcases List.eq_nil_or_concat (parts s) with hnil | ⟨init, c, hc⟩
  · rw [hnil]
    exact Or.inl rfl
  · rw [List.concat_eq_append] at hc
    have hmem : c ∈ parts s := by
      rw [hc]
      exact List.mem_append_right init List.mem_cons_self
    obtain ⟨hne, hdot⟩ := of_decide_eq_true (List.mem_filter.mp hmem).2
    rw [hc, List.getLastD_concat]
    by_cases hup : c = ['.', '.']
    · exact Or.inr (Or.inl hup)
    · exact Or.inr (Or.inr ⟨hne, hdot, hup, slash_notMem_of_mem_parts hmem⟩)

theorem slash_notMem_fileName (s : List Char) : '/' ∉ fileName s := by
  rcases fileName_cases s with h | h | h
  · rw [h]
    exact List.not_mem_nil
  · rw [h]
    decide
  · exact h.slash

theorem fileName_of_isName {c : Name} (h : IsName c) : fileName c = c := by
  rw [fileName, parts_of_isName h]
  rfl

/-! ## What the system opens -/

theorem resolve_append (p q : Path) :
    resolve (p ++ q) =
      q.foldl (fun at' c => if c = ['.', '.'] then at'.dropLast else at' ++ [c]) (resolve p) :=
  List.foldl_append

theorem resolve_of_resolved {p : Path} (h : Resolved p) : resolve p = p := by
  induction p using List.reverseRecOn with
  | nil => rfl
  | append_singleton p c ih =>
    have hp : Resolved p := fun c' hc' => h c' (List.mem_append_left _ hc')
    have hc : IsName c := h c (List.mem_append_right p List.mem_cons_self)
    rw [resolve_append, ih hp, List.foldl_cons, if_neg hc.ne_dotdot, List.foldl_nil]

/-- **A proper name** behind a directory is an entry of it. -/
theorem resolve_join {dir : Path} (hdir : Resolved dir) {c : Name} (hc : IsName c) :
    resolve (join dir c) = dir ++ [c] := by
  have hhead : c.head? ≠ some '/' := fun h => hc.slash (List.mem_of_mem_head? h)
  rw [join, if_neg hhead, parts_of_isName hc, resolve_append, resolve_of_resolved hdir,
    List.foldl_cons, if_neg hc.ne_dotdot, List.foldl_nil]

theorem resolve_join_nil {dir : Path} (hdir : Resolved dir) : resolve (join dir []) = dir := by
  have hparts : parts [] = [] := rfl
  rw [join, List.head?_nil, if_neg (Option.some_ne_none _).symm, hparts, List.append_nil,
    resolve_of_resolved hdir]

theorem resolve_join_dotdot {dir : Path} (hdir : Resolved dir) :
    resolve (join dir ['.', '.']) = dir.dropLast := by
  have hparts : parts ['.', '.'] = [['.', '.']] := by decide
  rw [join, if_neg (by decide), hparts, resolve_append, resolve_of_resolved hdir,
    List.foldl_cons, if_pos rfl, List.foldl_nil]

/-- **A file name** behind a directory leads to an entry of it, or to a directory
on the way to it. -/
theorem resolve_join_fileName {dir : Path} (hdir : Resolved dir) (s : List Char) :
    (∃ c, IsName c ∧ fileName s = c ∧ resolve (join dir (fileName s)) = dir ++ [c]) ∨
      resolve (join dir (fileName s)) <+: dir := by
  rcases fileName_cases s with h | h | h
  · rw [h, resolve_join_nil hdir]
    exact Or.inr List.prefix_rfl
  · rw [h, resolve_join_dotdot hdir]
    exact Or.inr (List.dropLast_prefix dir)
  · exact Or.inl ⟨_, h, rfl, resolve_join hdir h⟩

/-! ## Suffixes -/

theorem rfindDot_append {stem ext : List Char} (hext : '.' ∉ ext) :
    rfindDot (stem ++ '.' :: ext) = stem.length := by
  have hmem : '.' ∈ stem ++ '.' :: ext := List.mem_append_right stem List.mem_cons_self
  have hrev : (stem ++ '.' :: ext).reverse = ext.reverse ++ '.' :: stem.reverse := by
    simp
  have hidx : (ext.reverse ++ '.' :: stem.reverse).idxOf '.' = ext.length := by
    rw [List.idxOf_append_of_notMem (by rwa [List.mem_reverse]), List.idxOf_cons_self,
      List.length_reverse, Nat.add_zero]
  rw [rfindDot, if_pos hmem, hrev, hidx, List.length_append, List.length_cons]
  omega

/-- **The suffix is replaced** where there is something on both sides of the last
dot. -/
theorem withSuffix_append {stem ext : List Char} (hstem : stem ≠ []) (hext : ext ≠ [])
    (hdot : '.' ∉ ext) (suffix : List Char) :
    withSuffix (stem ++ '.' :: ext) suffix = stem ++ suffix := by
  have hstem' := List.length_pos_iff.mpr hstem
  have hext' := List.length_pos_iff.mpr hext
  have hlen : (stem ++ '.' :: ext).length = stem.length + (ext.length + 1) := by
    rw [List.length_append, List.length_cons]
  rw [withSuffix, rfindDot_append hdot, hlen, if_pos (by omega), Int.toNat_natCast,
    List.take_left]

/-- A name that is nothing but a suffix has none. -/
theorem withSuffix_of_dot {ext : List Char} (hdot : '.' ∉ ext) (suffix : List Char) :
    withSuffix ('.' :: ext) suffix = '.' :: ext ++ suffix := by
  have hrfind : rfindDot ([] ++ '.' :: ext) = ([] : List Char).length := rfindDot_append hdot
  rw [List.nil_append, List.length_nil] at hrfind
  rw [withSuffix, hrfind, if_neg (by omega)]

end PosixPath
