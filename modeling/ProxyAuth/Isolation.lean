import ProxyAuth.Race

/-!
Which file a user name leads to.

The path of the trusted file is the directory's path with the user name pasted after it. It
stands for the entry of that name when the name is one component and was not cut, and for
something else otherwise: `..` and `a/b` lead out of the directory, and a long name is cut to
another one.
-/

namespace ProxyAuth.Isolation

open ProxyAuth.Control ProxyAuth.CString ProxyAuth.Stat ProxyAuth.Sec ProxyAuth.FileName
open ProxyAuth.BtMisc ProxyAuth.BtTrust ProxyAuth.FileSystem ProxyAuth.PathString ProxyAuth.Race

variable {ι : Type}

/-- The file system holds names up to `NAME_MAX` bytes. -/
def HoldsNames (nameMax : ℕ) (fs : FS ι Name) : Prop :=
  ∀ n, fs.tooLong n = decide (nameMax < n.1.length)

/-- The entry of the directory `d` with exactly this name, if there is one. -/
def entryOf (fs : FS ι Name) (d : ι) (name : List Byte) : Option ι :=
  if h : IsName name then
    if fs.tooLong ⟨name, h⟩ then none else fs.entries d ⟨name, h⟩
  else none

/-- What `find_trusted_devices` opens for a user while nothing changes. -/
def opened (lim : Limits) (stack : ℕ → Byte) (dirStale fileStale : St) (fs : FS ι Name)
    (dir user : Str) : Except Fault (Option ι) :=
  findTrustedFile lim stack (opsAt dirStale fileStale fs fs fs) (some dir) (some user)

/-- In every file system where the directory exists, the path built for the user leads to the
directory's entry with exactly that name, and nothing else is opened. -/
def OwnEntry (lim : Limits) (nameMax : ℕ) (dir user : Str) : Prop :=
  ∀ (ι : Type) (fs : FS ι Name) (d : ι), HoldsNames nameMax fs →
    (resolveStr fs true dir).result = .ok d → ∀ stack,
    (∃ path, fileName lim stack dir user = .ok path ∧
      (resolveStr fs false path).result.toOption = entryOf fs d user.bytes) ∧
    ∀ dirStale fileStale i, opened lim stack dirStale fileStale fs dir user = .ok (some i) →
      entryOf fs d user.bytes = some i

/-- No inode has two names in the directory. -/
def SingleNames (fs : FS ι Name) (d : ι) : Prop :=
  ∀ n m i, fs.entries d n = some i → fs.entries d m = some i → n = m

/-- Two users never have the same file opened for them. -/
def Apart (lim : Limits) (nameMax : ℕ) (dir u v : Str) : Prop :=
  ∀ (ι : Type) (fs : FS ι Name) (d : ι), HoldsNames nameMax fs →
    (resolveStr fs true dir).result = .ok d → SingleNames fs d →
    ∀ stack dirStale fileStale i, opened lim stack dirStale fileStale fs dir u = .ok (some i) →
      opened lim stack dirStale fileStale fs dir v ≠ .ok (some i)

/-- Each of two users has an entry of the directory, and different users different ones. -/
structure Isolated (lim : Limits) (nameMax : ℕ) (dir u v : Str) : Prop where
  left : OwnEntry lim nameMax dir u
  right : OwnEntry lim nameMax dir v
  apart : u ≠ v → Apart lim nameMax dir u v

/-- The part of the user name that gets into the path. -/
def cut (lim : Limits) (user : Str) : Str := user.take (clamp lim.loginNameMax user)

/-- The name is one component of a path and short enough to be taken whole. -/
def Fits (lim : Limits) (user : Str) : Prop :=
  IsName user.bytes ∧ user.len ≤ lim.loginNameMax

/-- The directory or what is pasted after it has a component that no file system with this
`NAME_MAX` holds. -/
def LeadsNowhere (lim : Limits) (nameMax : ℕ) (dir user : Str) : Prop :=
  ∃ n : Name, (.name n ∈ comps dir.bytes ∨ .name n ∈ comps (cut lim user).bytes) ∧
    nameMax < n.1.length

def Confined (lim : Limits) (nameMax : ℕ) (dir user : Str) : Prop :=
  Fits lim user ∨ LeadsNowhere lim nameMax dir user

/-! ### What is opened -/

/-- What passes the check and is opened is what the path leads to without following a link. -/
lemma resolveStr_of_opened {fs : FS ι Name} {path : Str} {stale : St} {i : ι}
    (hcheck : checkConfig (lstat fs path) stale 0 = .ok ()) (hopen : fopen fs path = some i) :
    (resolveStr fs false path).result = .ok i := by
  have hlink : ∀ j, (resolveStr fs false path).result = .ok j → fs.isLink j = false := by
    intro j hj
    rw [lstat_eq_found.mpr ⟨j, hj, rfl⟩, checkConfig_found_iff] at hcheck
    exact hcheck.not_link
  rw [fopen, resolveStr_follow hlink] at hopen
  rcases hr : (resolveStr fs false path).result with e | j
  · rw [hr] at hopen
    cases hopen
  · rw [hr] at hopen
    exact congrArg Except.ok (Option.some.inj hopen)

lemma path_of_opened {lim : Limits} {stack : ℕ → Byte} {dirStale fileStale : St} {fs : FS ι Name}
    {dir user : Str} {i : ι} (h : opened lim stack dirStale fileStale fs dir user = .ok (some i)) :
    ∃ path, fileName lim stack dir user = .ok path ∧
      (resolveStr fs false path).result = .ok i := by
  obtain ⟨-, hfile⟩ := findTrustedFile_eq_some.mp h
  obtain ⟨path, hpath, hcheck, hopen⟩ := getTrustedDevFile_eq_some.mp hfile
  exact ⟨path, hpath, resolveStr_of_opened hcheck hopen⟩

lemma fileName_cut {lim : Limits} {dir : Str} (hlen : dir.len < lim.pathMax) (stack : ℕ → Byte)
    (user : Str) : fileName lim stack dir user = .ok (dir ++ cut lim user) := by
  have hsum := lim.sum_lt
  rw [fileName_eq, take_clamp_of_le (by omega) (by omega), cut]

/-- It is enough to look at the path. -/
lemma ownEntry_iff {lim : Limits} {nameMax : ℕ} {dir user : Str} (hlen : dir.len < lim.pathMax) :
    OwnEntry lim nameMax dir user ↔
      ∀ (ι : Type) (fs : FS ι Name) (d : ι), HoldsNames nameMax fs →
        (resolveStr fs true dir).result = .ok d →
        (resolveStr fs false (dir ++ cut lim user)).result.toOption = entryOf fs d user.bytes := by
  constructor
  · intro h ι fs d hfs hd
    obtain ⟨⟨path, hpath, hres⟩, -⟩ := h ι fs d hfs hd fun _ => 0
    obtain rfl := Except.ok.inj ((fileName_cut hlen _ user).symm.trans hpath)
    exact hres
  · intro h ι fs d hfs hd stack
    refine ⟨⟨_, fileName_cut hlen stack user, h ι fs d hfs hd⟩, fun _ _ i hi => ?_⟩
    obtain ⟨path, hpath, hres⟩ := path_of_opened hi
    obtain rfl := Except.ok.inj ((fileName_cut hlen stack user).symm.trans hpath)
    rw [← h ι fs d hfs hd, hres]
    rfl

/-- Users with an entry each have different entries. -/
lemma apart_of_ownEntry {lim : Limits} {nameMax : ℕ} {dir u v : Str}
    (hu : OwnEntry lim nameMax dir u) (hv : OwnEntry lim nameMax dir v) (hne : u ≠ v) :
    Apart lim nameMax dir u v := by
  intro ι fs d hfs hd hsingle stack dirStale fileStale i hi hi'
  have heu := (hu ι fs d hfs hd stack).2 dirStale fileStale i hi
  have hev := (hv ι fs d hfs hd stack).2 dirStale fileStale i hi'
  unfold entryOf at heu hev
  split_ifs at heu hev with h1 h2 h3 h4
  have hname := hsingle _ _ i heu hev
  exact hne (Str.ext (congrArg Subtype.val hname))

/-! ### Names that fit -/

section Confined

variable {lim : Limits} {nameMax : ℕ} {dir user : Str}

lemma cut_of_fits (h : Fits lim user) : cut lim user = user := by
  have hsum := lim.sum_lt
  exact take_clamp_of_le (by omega) h.2

lemma len_cut_le (lim : Limits) (user : Str) : (cut lim user).len ≤ lim.loginNameMax := by
  have hle := clamp_le lim.loginNameMax user
  rw [cut, Str.len_take]
  omega

lemma lookup_name_toOption (fs : FS ι Name) (d : ι) {name : List Byte} (h : IsName name) :
    (fs.lookup d (.name ⟨name, h⟩)).result.toOption = entryOf fs d name := by
  simp only [FS.lookup, Act.bind_of_ok (Act.emit_result d), entryOf, dif_pos h]
  split_ifs
  · rfl
  · cases fs.entries d ⟨name, h⟩ <;> rfl

lemma entry_of_fits (hdir : IsDirPath dir) (h : Fits lim user) {fs : FS ι Name} {d : ι}
    (hd : (resolveStr fs true dir).result = .ok d) :
    (resolveStr fs false (dir ++ cut lim user)).result.toOption = entryOf fs d user.bytes := by
  rw [cut_of_fits h, hdir.resolve_comp h.1.2.1 (comp_of_isName h.1), Act.bind_of_ok hd]
  exact lookup_name_toOption fs d h.1

/-- A path that leads nowhere belongs to a name no entry can have. -/
lemma entry_of_leadsNowhere (hdir : IsDirPath dir) (h : LeadsNowhere lim nameMax dir user)
    {fs : FS ι Name} (hfs : HoldsNames nameMax fs) {d : ι}
    (hd : (resolveStr fs true dir).result = .ok d) :
    (resolveStr fs false (dir ++ cut lim user)).result.toOption = entryOf fs d user.bytes := by
  obtain ⟨n, hn, hlong⟩ := h
  have hno : fs.tooLong n = true := by rw [hfs n, decide_eq_true hlong]
  have hpath : (resolveStr fs false (dir ++ cut lim user)).result.toOption = none := by
    rcases hr : (resolveStr fs false (dir ++ cut lim user)).result with e | i
    · rfl
    · rw [resolveStr_not_tooLong hr (hdir.name_mem_comps.mpr hn)] at hno
      cases hno
  rw [hpath, entryOf]
  split_ifs with hname hheld
  · rfl
  · -- the name itself has no slash, so the long component is the name, cut or not
    exfalso
    have hcut : slash ∉ (cut lim user).bytes := fun h => hname.2.1 (List.mem_of_mem_take h)
    rcases hn with hmem | hmem
    · rw [resolveStr_not_tooLong hd hmem] at hno
      cases hno
    · have heq : n.1 = (cut lim user).bytes := eq_of_comp ((name_mem_comps_iff hcut).mp hmem)
      have hle : n.1.length ≤ user.bytes.length := by
        rw [heq, cut, Str.bytes_take, List.length_take]
        exact Nat.min_le_right _ _
      rw [hfs, decide_eq_true_iff] at hheld
      exact hheld (hlong.trans_le hle)
  · rfl

end Confined

/-! ### A file system in which every path leads somewhere -/

/-- Every directory has a subdirectory of every name, up to `NAME_MAX` bytes long; a
directory is known by the names that lead to it. -/
def fullTree (nameMax : ℕ) : FS (List Name) Name where
  stat _ := ⟨0x41ED#32, 0⟩
  entries d n := some (n :: d)
  parent := List.tail
  target _ := ⟨false, []⟩
  root := []
  cwd := []
  tooLong n := decide (nameMax < n.1.length)

section FullTree

variable {nameMax : ℕ}

lemma fullTree_isDir (d : List Name) : (fullTree nameMax).isDir d = true := by
  change sIsdir 0x41ED#32 = true
  decide

/-- Where a component leads to, read off the names. -/
def stepTo (d : List Name) : Comp Name → List Name
  | .dot => d
  | .dotdot => d.tail
  | .name n => n :: d

lemma fullTree_lookup {c : Comp Name} (hc : ∀ n, c = .name n → n.1.length ≤ nameMax)
    (d : List Name) : ((fullTree nameMax).lookup d c).result = .ok (stepTo d c) := by
  cases c with
  | dot => rfl
  | dotdot =>
    have hparent : (fullTree nameMax).isDir ((fullTree nameMax).parent d) = true := fullTree_isDir _
    rw [FS.lookup, Act.bind_of_ok (Act.emit_result d), if_pos hparent]
    rfl
  | name n =>
    have hlen := hc n rfl
    have hheld : (fullTree nameMax).tooLong n ≠ true := by simpa [fullTree] using hlen
    rw [FS.lookup, Act.bind_of_ok (Act.emit_result d), if_neg hheld]
    rfl

lemma fullTree_walkFrom {follow : Bool}
    (onLink : List (Comp Name) → List Name → Walk (List Name) (List Name)) (cs : List (Comp Name))
    (d : List Name) (hcs : ∀ n, .name n ∈ cs → n.1.length ≤ nameMax) :
    ∃ e, ((fullTree nameMax).walkFrom follow onLink cs d).result = .ok e := by
  induction cs generalizing d with
  | nil => exact ⟨d, rfl⟩
  | cons c cs ih =>
    have hi := fullTree_lookup (fun n hn => hcs n (hn ▸ List.mem_cons_self)) d
    have hlink : ¬ (fullTree nameMax).isLink (stepTo d c) = true := by
      rw [FS.not_isLink_of_isDir (fullTree_isDir _)]
      exact Bool.false_ne_true
    rw [FS.walkFrom, if_pos (fullTree_isDir d), Act.bind_of_ok hi, if_neg fun h => hlink h.1]
    exact ih (stepTo d c) fun n hn => hcs n (List.mem_cons_of_mem _ hn)

lemma fullTree_resolveStr (follow : Bool) (s : Str) (hs : s.bytes ≠ [])
    (hcs : ∀ n, .name n ∈ comps s.bytes → n.1.length ≤ nameMax) :
    ∃ e, (resolveStr (fullTree nameMax) follow s).result = .ok e := by
  rw [resolveStr, if_neg hs]
  exact fullTree_walkFrom _ _ _ hcs

/-- One step leads to the entry of a name only when it is the step to that name. -/
lemma eq_of_stepTo {d : List Name} {c : Comp Name} {n : Name} (h : stepTo d c = n :: d) :
    c = .name n := by
  cases c with
  | dot => exact absurd h.symm (List.cons_ne_self n d)
  | dotdot =>
    have hlen := congrArg List.length h
    simp only [stepTo, List.length_tail, List.length_cons] at hlen
    omega
  | name m =>
    obtain ⟨rfl, -⟩ := List.cons.inj h
    rfl

/-- In the full tree, what is pasted after the directory leads to the entry of the user's name
only when it is that name, whole. -/
lemma fits_of_entry {lim : Limits} {dir user : Str} (hdir : IsDirPath dir) {d e : List Name}
    (hheld : ∀ n : Name, .name n ∈ comps (cut lim user).bytes → n.1.length ≤ nameMax)
    (hd : (resolveStr (fullTree nameMax) true dir).result = .ok d)
    (he : (resolveStr (fullTree nameMax) false (dir ++ cut lim user)).result = .ok e)
    (h : entryOf (fullTree nameMax) d user.bytes = some e) : Fits lim user := by
  unfold entryOf at h
  split_ifs at h with hname hlong
  obtain rfl : ⟨user.bytes, hname⟩ :: d = e := Option.some.inj h
  have hcut : slash ∉ (cut lim user).bytes := fun h => hname.2.1 (List.mem_of_mem_take h)
  have hlast : ∀ n, (comp (cut lim user).bytes).getD .dot = .name n →
      comp (cut lim user).bytes = some (.name n) := by
    intro n hn
    cases hc : comp (cut lim user).bytes <;> simp_all
  rw [hdir.resolve_getD hcut, Act.bind_of_ok hd, fullTree_lookup] at he
  · have hstep := eq_of_stepTo (Except.ok.inj he)
    have heq : user.bytes = (cut lim user).bytes := eq_of_comp (hlast _ hstep)
    have hle : user.len ≤ lim.loginNameMax := by
      calc user.len = (cut lim user).len := congrArg List.length heq
        _ ≤ lim.loginNameMax := len_cut_le lim user
    exact ⟨hname, hle⟩
  · intro n hn
    exact hheld n ((name_mem_comps_iff hcut).mpr (hlast n hn))

/-! ### The condition -/

lemma ownEntry_iff_confined {lim : Limits} {dir user : Str} (hdir : IsDirPath dir)
    (hlen : dir.len < lim.pathMax) :
    OwnEntry lim nameMax dir user ↔ Confined lim nameMax dir user := by
  rw [ownEntry_iff hlen]
  constructor
  · intro h
    by_contra hno
    obtain ⟨hfits, hnowhere⟩ := not_or.mp hno
    obtain ⟨b, hb⟩ := hdir.exists_eq
    have hheld : ∀ n : Name, .name n ∈ comps dir.bytes ∨ .name n ∈ comps (cut lim user).bytes →
        n.1.length ≤ nameMax := fun n hn => not_lt.mp fun hlt => hnowhere ⟨n, hn, hlt⟩
    obtain ⟨d, hd⟩ := fullTree_resolveStr true dir (by simp [hb])
      fun n hn => hheld n (.inl hn)
    obtain ⟨e, he⟩ := fullTree_resolveStr false (dir ++ cut lim user) (by simp [hb])
      fun n hn => hheld n (hdir.name_mem_comps.mp hn)
    have hentry := h _ (fullTree nameMax) d (fun _ => rfl) hd
    rw [he] at hentry
    exact hfits (fits_of_entry hdir (fun n hn => hheld n (.inr hn)) hd he hentry.symm)
  · rintro (h | h) ι fs d hfs hd
    · exact entry_of_fits hdir h hd
    · exact entry_of_leadsNowhere hdir h hfs hd

/-- **Two users are isolated from each other exactly when both names are single components
that were not cut,** or lead nowhere because they are longer than names can be. -/
theorem isolated_iff_confined {lim : Limits} {dir u v : Str} (hdir : IsDirPath dir)
    (hlen : dir.len < lim.pathMax) :
    Isolated lim nameMax dir u v ↔ Confined lim nameMax dir u ∧ Confined lim nameMax dir v := by
  rw [← ownEntry_iff_confined hdir hlen, ← ownEntry_iff_confined hdir hlen]
  exact ⟨fun h => ⟨h.left, h.right⟩, fun h => ⟨h.1, h.2, apart_of_ownEntry h.1 h.2⟩⟩

end FullTree

theorem isolated_zaku_kim : Isolated linuxLimits 255 trustedDirPath (lit "zaku") (lit "kim") :=
  (isolated_iff_confined (by decide) (by decide)).mpr
    ⟨.inl ⟨by decide, by decide⟩, .inl ⟨by decide, by decide⟩⟩

lemma opened_shadow : opened linuxLimits (fun _ => 0) ⟨0, 0⟩ ⟨0, 0⟩ etcTree trustedDirPath
    (lit "../shadow") = .ok (some 5) :=
  findTrustedFile_eq_some.mpr ⟨by decide, getTrustedDevFile_eq_some.mpr
    ⟨_, fileName_of_le _ _ (by decide) (by decide), by decide, by decide⟩⟩

/-- The user name `../shadow` has a file outside of the directory read. -/
theorem not_isolated_shadow :
    ¬ Isolated linuxLimits 255 trustedDirPath (lit "../shadow") (lit "zaku") := by
  intro h
  have hdir : (resolveStr etcTree true trustedDirPath).result = .ok 2 := by decide
  have hown := h.left ℕ etcTree 2 (fun _ => rfl) hdir fun _ => 0
  have hentry := hown.2 ⟨0, 0⟩ ⟨0, 0⟩ 5 opened_shadow
  have hnone : entryOf etcTree 2 (lit "../shadow").bytes = none := by decide
  rw [hnone] at hentry
  cases hentry

end ProxyAuth.Isolation
