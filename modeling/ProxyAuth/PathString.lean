import ProxyAuth.CString
import ProxyAuth.FileSystem
import Mathlib.Data.List.DropRight

/-!
Paths as strings of bytes, and the calls that take one.

A path is cut at its slashes. Empty pieces say nothing, except that a path which ends in a
slash asks for a directory: it is resolved as if `.` stood at its end. A path that starts
with a slash starts at the root, and the empty path leads nowhere.
-/

namespace ProxyAuth.PathString

open ProxyAuth.Control ProxyAuth.CString ProxyAuth.Stat ProxyAuth.FileSystem

def slash : Byte := 0x2F
def dot : Byte := 0x2E

/-- What can stand as one entry of a directory. -/
def IsName (l : List Byte) : Prop := l ≠ [] ∧ slash ∉ l ∧ l ≠ [dot] ∧ l ≠ [dot, dot]

instance (l : List Byte) : Decidable (IsName l) := inferInstanceAs (Decidable (_ ∧ _ ∧ _ ∧ _))

abbrev Name := {l : List Byte // IsName l}

/-- What a piece between slashes stands for. -/
def comp (l : List Byte) : Option (Comp Name) :=
  if h : IsName l then some (.name ⟨l, h⟩)
  else if l = [dot] then some .dot
  else if l = [dot, dot] then some .dotdot
  else none

def pieces (l : List Byte) : List (Comp Name) := (l.splitOn slash).filterMap comp

def comps (l : List Byte) : List (Comp Name) :=
  pieces l ++ if l.getLast? = some slash then [.dot] else []

def pathName (s : Str) : PathName Name := ⟨decide (s.bytes.head? = some slash), comps s.bytes⟩

variable {ι : Type}

def resolveStr (fs : FS ι Name) (follow : Bool) (s : Str) : Walk ι ι :=
  if s.bytes = [] then Act.stop enoent else fs.resolve follow (pathName s)

def lstat (fs : FS ι Name) (s : Str) : Lstat :=
  match (resolveStr fs false s).result with
  | .ok i => .found (fs.stat i)
  | .error e => .failed e

/-- `fopen` for reading: the inode behind the stream. -/
def fopen (fs : FS ι Name) (s : Str) : Option ι := (resolveStr fs true s).result.toOption

/-! ### A directory and what is pasted after it -/

lemma comp_of_isName {l : List Byte} (h : IsName l) : comp l = some (.name ⟨l, h⟩) := dif_pos h

/-- A piece without a slash is some component, unless it is empty. -/
lemma exists_comp {l : List Byte} (hne : l ≠ []) (h : slash ∉ l) : ∃ c, comp l = some c := by
  by_cases hname : IsName l
  · exact ⟨_, comp_of_isName hname⟩
  · by_cases h1 : l = [dot]
    · exact ⟨.dot, by rw [h1]; decide⟩
    · by_cases h2 : l = [dot, dot]
      · exact ⟨.dotdot, by rw [h2]; decide⟩
      · exact absurd ⟨hne, h, h1, h2⟩ hname

lemma eq_of_comp {l : List Byte} {n : Name} (h : comp l = some (.name n)) : n.1 = l := by
  unfold comp at h
  split_ifs at h <;> cases h
  rfl

lemma pieces_append (d l : List Byte) : pieces (d ++ slash :: l) = pieces d ++ pieces l := by
  rw [pieces, List.splitOn_append_cons_self, List.filterMap_append, pieces, pieces]

lemma pieces_of_no_slash {l : List Byte} (h : slash ∉ l) : pieces l = (comp l).toList := by
  rw [pieces, List.splitOn_eq_singleton h]
  cases hc : comp l <;> simp [hc]

lemma comps_of_no_slash {l : List Byte} (h : slash ∉ l) : comps l = (comp l).toList := by
  have hlast : l.getLast? ≠ some slash := fun hl => h (List.mem_of_getLast? hl)
  rw [comps, if_neg hlast, List.append_nil, pieces_of_no_slash h]

/-- The only name in a path without a slash is the path itself. -/
lemma name_mem_comps_iff {l : List Byte} (h : slash ∉ l) {n : Name} :
    .name n ∈ comps l ↔ comp l = some (.name n) := by
  rw [comps_of_no_slash h, Option.mem_toList]

lemma comps_dir (d : List Byte) : comps (d ++ [slash]) = pieces d ++ [.dot] := by
  have hnil : pieces [] = [] := by decide
  rw [comps, pieces_append, hnil, List.append_nil, if_pos (by simp)]

lemma comps_append (d : List Byte) {l : List Byte} (hne : l ≠ []) :
    comps (d ++ slash :: l) = pieces d ++ comps l := by
  have hlast : (d ++ slash :: l).getLast? = l.getLast? := by
    rw [List.getLast?_append_of_ne_nil _ (by simp), List.getLast?_cons_of_ne_nil hne]
  rw [comps, comps, pieces_append, hlast, List.append_assoc]

/-- A path that ends in a slash. -/
def IsDirPath (s : Str) : Prop := s.bytes.getLast? = some slash

instance (s : Str) : Decidable (IsDirPath s) := inferInstanceAs (Decidable (_ = _))

section Dir

variable {dir : Str} (hdir : IsDirPath dir)

include hdir

lemma IsDirPath.exists_eq : ∃ d, dir.bytes = d ++ [slash] :=
  List.getLast?_eq_some_iff.mp hdir

lemma IsDirPath.comps_eq : ∃ cs, comps dir.bytes = cs ++ [.dot] ∧
    ∀ s : Str, s.bytes ≠ [] → comps (dir ++ s).bytes = cs ++ comps s.bytes := by
  obtain ⟨d, hd⟩ := hdir.exists_eq
  refine ⟨pieces d, by rw [hd, comps_dir], fun s hs => ?_⟩
  rw [Str.bytes_append, hd, List.append_assoc, List.singleton_append, comps_append d hs]

lemma IsDirPath.startAt_append (s : Str) (fs : FS ι Name) (cur : ι) :
    fs.startAt cur (pathName (dir ++ s)) = fs.startAt cur (pathName dir) := by
  obtain ⟨d, hd⟩ := hdir.exists_eq
  have hhead : (dir ++ s).bytes.head? = dir.bytes.head? := by cases d <;> simp [hd]
  rw [FS.startAt, FS.startAt, pathName, pathName, hhead]

/-- The directory, and what is pasted after it, are resolved by the same first steps. -/
lemma IsDirPath.resolve (fs : FS ι Name) :
    ∃ cs cur, (∀ follow, resolveStr fs follow dir = fs.walk follow FS.maxLinks (cs ++ [.dot]) cur) ∧
      ∀ s : Str, s.bytes ≠ [] → ∀ follow, resolveStr fs follow (dir ++ s) =
        fs.walk follow FS.maxLinks (cs ++ comps s.bytes) cur := by
  obtain ⟨cs, hd, happ⟩ := hdir.comps_eq
  obtain ⟨d, hbytes⟩ := hdir.exists_eq
  refine ⟨cs, fs.startAt fs.cwd (pathName dir), fun follow => ?_, fun s hs follow => ?_⟩
  · rw [resolveStr, if_neg (by simp [hbytes]), FS.resolve, pathName, hd]
  · rw [resolveStr, if_neg (by simp [hs]), FS.resolve, hdir.startAt_append, pathName, happ s hs]

/-- One component after the directory is looked up in what the directory's path leads to. -/
lemma IsDirPath.resolve_comp {s : Str} (hs : slash ∉ s.bytes) {c : Comp Name}
    (hc : comp s.bytes = some c) (fs : FS ι Name) :
    resolveStr fs false (dir ++ s) = resolveStr fs true dir >>= fun d => fs.lookup d c := by
  obtain ⟨cs, cur, hd, happ⟩ := hdir.resolve fs
  have hne : s.bytes ≠ [] := by
    intro hnil
    rw [hnil] at hc
    cases hc
  rw [happ s hne, hd, comps_of_no_slash hs, hc, Option.toList_some, FS.walk_snoc]

/-- A path that ends in a slash never comes to a link. -/
lemma IsDirPath.resolve_follow (fs : FS ι Name) (follow : Bool) :
    resolveStr fs follow dir = resolveStr fs true dir := by
  obtain ⟨cs, cur, hd, -⟩ := hdir.resolve fs
  cases follow with
  | true => rfl
  | false =>
    rw [hd, hd, FS.walk_snoc]
    exact Act.bind_pure _

/-- Whatever is pasted after the directory, as long as it has no slash, is one lookup there. -/
lemma IsDirPath.resolve_getD {s : Str} (hs : slash ∉ s.bytes) (fs : FS ι Name) :
    resolveStr fs false (dir ++ s) =
      resolveStr fs true dir >>= fun d => fs.lookup d ((comp s.bytes).getD .dot) := by
  by_cases hne : s.bytes = []
  · have happ : dir ++ s = dir := by rw [show s = Str.empty from Str.ext hne, Str.append_empty]
    rw [happ, hdir.resolve_follow fs false, hne]
    exact (Act.bind_pure _).symm
  · obtain ⟨c, hc⟩ := exists_comp hne hs
    rw [hc, hdir.resolve_comp hs hc]
    rfl

/-- The names in a path are those of the directory and those of what is pasted after it. -/
lemma IsDirPath.name_mem_comps {n : Name} {s : Str} :
    .name n ∈ comps (dir ++ s).bytes ↔ .name n ∈ comps dir.bytes ∨ .name n ∈ comps s.bytes := by
  obtain ⟨cs, hd, happ⟩ := hdir.comps_eq
  by_cases hne : s.bytes = []
  · have hnil : comps [] = [] := by decide
    rw [show s = Str.empty from Str.ext hne, Str.append_empty, Str.bytes_empty, hnil]
    simp
  · rw [happ s hne, hd]
    simp

end Dir

/-- A path that does not come to a link is the same with and without following it. -/
lemma resolveStr_follow {fs : FS ι Name} {s : Str}
    (h : ∀ i, (resolveStr fs false s).result = .ok i → fs.isLink i = false) :
    resolveStr fs true s = resolveStr fs false s := by
  unfold resolveStr at h ⊢
  split_ifs with hs
  · rfl
  · rw [if_neg hs] at h
    exact FS.walk_follow _ _ _ h

/-- A path that leads somewhere when its last link is followed has something at its end. -/
lemma resolveStr_unfollowed {fs : FS ι Name} {s : Str} {i : ι}
    (h : (resolveStr fs true s).result = .ok i) :
    ∃ j, (resolveStr fs false s).result = .ok j := by
  unfold resolveStr at h ⊢
  split_ifs at h ⊢
  · cases h
  · exact FS.walk_unfollowed _ _ _ _ h

/-- A path with a name that the file system cannot hold leads nowhere. -/
lemma resolveStr_not_tooLong {fs : FS ι Name} {follow : Bool} {s : Str} {i : ι} {n : Name}
    (h : (resolveStr fs follow s).result = .ok i) (hn : .name n ∈ comps s.bytes) :
    fs.tooLong n = false := by
  unfold resolveStr at h
  split_ifs at h
  · cases h
  · exact FS.walk_not_tooLong _ _ _ h hn

end ProxyAuth.PathString
