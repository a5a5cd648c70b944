import ProxyAuth.BtTrust
import ProxyAuth.PathString
import ProxyAuth.Unprivileged

/-!
The check of the trusted file and its opening, while others act.

`find_trusted_devices` looks at the directory, then at the file, and then opens the file;
each time the path is resolved anew, in the file system of that moment. In between, everybody
may do what needs no privileges.
-/

namespace ProxyAuth.Race

open ProxyAuth.Control ProxyAuth.CString ProxyAuth.Stat ProxyAuth.Sec ProxyAuth.FileName
open ProxyAuth.BtMisc ProxyAuth.BtTrust ProxyAuth.FileSystem ProxyAuth.PathString
open ProxyAuth.Unprivileged

variable {ι : Type}

/-- The three calls of `find_trusted_devices`, made at three moments. -/
def opsAt (dirStale fileStale : St) (fs₁ fs₂ fs₃ : FS ι Name) : FileOps ι where
  dirStale := dirStale
  fileStale := fileStale
  lstatDir := lstat fs₁
  lstatFile := lstat fs₂
  fopen := fopen fs₃

/-! ### One call -/

lemma lstat_eq_found {fs : FS ι Name} {s : Str} {st : St} :
    lstat fs s = .found st ↔ ∃ i, (resolveStr fs false s).result = .ok i ∧ fs.stat i = st := by
  unfold lstat
  rcases (resolveStr fs false s).result with e | i <;> simp

/-- An accepted path leads to an inode that only root can change, provided the check sees
why `lstat` fails. -/
lemma exists_of_checkConfig {fs : FS ι Name} {s : Str} {stale : St} {isDir : ℤ}
    (hseen : Lstat.Seen (lstat fs s)) (h : checkConfig (lstat fs s) stale isDir = .ok ()) :
    ∃ i, (resolveStr fs false s).result = .ok i ∧ RootControlled isDir (fs.stat i) := by
  rcases hl : lstat fs s with st | e
  · obtain ⟨i, hi, rfl⟩ := lstat_eq_found.mp hl
    rw [hl] at h
    exact ⟨i, hi, (checkConfig_found_iff _ _ _).mp h⟩
  · obtain rfl : e = enoent := hseen e hl
    rw [hl] at h
    exact absurd rfl ((checkConfig_ok_iff _ _ _).mp h).1

lemma protected_of_rootControlled {st : St} {isDir : ℤ} (h : RootControlled isDir st) :
    Protected st :=
  ⟨h.root, h.group, h.other⟩

/-! ### Three calls -/

variable {A : Set ι} {fs₀ fs₁ fs₂ fs₃ : FS ι Name} {dir s : Str}

/-- What resolving the directory says stays true. -/
lemma resolveStr_settled (hs : Stable A fs₁ fs₂) (h : LooksAt A fs₁ (resolveStr fs₁ true dir)) :
    Settled A fs₁ (resolveStr fs₁ true dir) (resolveStr fs₂ true dir) := by
  unfold resolveStr at h ⊢
  split_ifs at h ⊢
  · exact settled_stop enoent
  · exact resolve_settled hs h

/-- In a directory that root guards, a name stands for the same inode at both moments, and
when only root can change that inode its status is the same, too. -/
lemma entry_settled (hdir : IsDirPath dir) (hs : slash ∉ s.bytes) {d i : ι}
    (h : LooksAt A fs₁ (resolveStr fs₁ true dir)) (hd : (resolveStr fs₁ true dir).result = .ok d)
    (hg : Guarded A fs₁ d) (h12 : Stable A fs₁ fs₂) (h23 : Stable A fs₂ fs₃)
    (hi : (resolveStr fs₂ false (dir ++ s)).result = .ok i) (hp : Protected (fs₂.stat i)) :
    (resolveStr fs₃ false (dir ++ s)).result = .ok i ∧ fs₃.stat i = fs₂.stat i := by
  have h2 := resolveStr_settled h12 h
  have h3 := resolveStr_settled (h12.trans h23) h
  have hpin : Pinned A fs₁ d := h2.pinned d hd
  -- the directory is found again, so the two lookups are in one and the same place
  rw [hdir.resolve_getD hs, h2.eq, Act.bind_result_ok] at hi
  obtain ⟨d', hd', hi⟩ := hi
  obtain rfl : d = d' := Except.ok.inj (hd.symm.trans hd')
  have hlook := lookup_settled h23 (h12.pinned hpin)
    (looksAt_lookup ((h12.keeps hpin).guarded hg) ((comp s.bytes).getD .dot))
  refine ⟨?_, (h23.keeps (hlook.pinned i hi)).stat hp⟩
  rw [hdir.resolve_getD hs, h3.eq, Act.bind_of_ok hd, hlook.eq]
  exact hi

/-- **What is opened is what was checked.** Whatever others do before and between the three
calls, an opened file is the inode the check of the file looked at: a regular file that only
root can change, and still the same when it is opened. -/
theorem opened_is_checked [DecidableEq ι] {lim : Limits} {stack : ℕ → Byte}
    {dirStale fileStale : St} {user : Str} {i : ι} (hdir : IsDirPath dir)
    (hlen : dir.len < lim.pathMax) (huser : slash ∉ user.bytes)
    (hA : LooksAt A fs₀ (resolveStr fs₀ true dir)) (h01 : Relation.ReflTransGen (Step A) fs₀ fs₁)
    (h12 : Relation.ReflTransGen (Step A) fs₁ fs₂) (h23 : Relation.ReflTransGen (Step A) fs₂ fs₃)
    (hseen : Lstat.Seen (lstat fs₁ dir))
    (hseen' : ∀ path, fileName lim stack dir user = .ok path → Lstat.Seen (lstat fs₂ path))
    (h : findTrustedFile lim stack (opsAt dirStale fileStale fs₁ fs₂ fs₃) (some dir) (some user) =
      .ok (some i)) :
    ∃ path, fileName lim stack dir user = .ok path ∧
      (resolveStr fs₂ false path).result = .ok i ∧ RootControlled 0 (fs₂.stat i) ∧
      (resolveStr fs₃ true path).result = .ok i ∧ RootControlled 0 (fs₃.stat i) := by
  have hsum := lim.sum_lt
  obtain ⟨hcheck, hfile⟩ := findTrustedFile_eq_some.mp h
  obtain ⟨path, hpath, hfile, hopen⟩ := getTrustedDevFile_eq_some.mp hfile
  obtain ⟨d, hd, hdok⟩ := exists_of_checkConfig hseen (ret_eq_one.mp hcheck)
  obtain ⟨j, hj, hjok⟩ := exists_of_checkConfig (hseen' path hpath) hfile
  have hname := hpath
  rw [fileName_eq, take_clamp_of_le (by omega) (by omega)] at hname
  obtain rfl := Except.ok.inj hname
  have hcut : slash ∉ (user.take (clamp lim.loginNameMax user)).bytes :=
    fun hmem => huser (List.mem_of_mem_take hmem)
  rw [hdir.resolve_follow fs₁ false] at hd
  have h1 := stable_of_steps h01
  have hA1 := (resolveStr_settled h1 hA).looksAt h1 hA
  obtain ⟨hj3, hst⟩ := entry_settled hdir hcut hA1 hd (.inr (protected_of_rootControlled hdok))
    (stable_of_steps h12) (stable_of_steps h23) hj (protected_of_rootControlled hjok)
  have hlink : fs₃.isLink j = false := by
    rw [FS.isLink, hst]
    exact hjok.not_link
  have hfollow : (resolveStr fs₃ true
      (dir ++ user.take (clamp lim.loginNameMax user))).result = .ok j := by
    rw [resolveStr_follow fun k hk => Except.ok.inj (hj3.symm.trans hk) ▸ hlink]
    exact hj3
  have hji : j = i := by
    change (resolveStr fs₃ true _).result.toOption = some i at hopen
    rw [hfollow] at hopen
    exact Option.some.inj hopen
  subst hji
  exact ⟨_, hpath, hj, hjok, hfollow, hst ▸ hjok⟩

/-! ### One race -/

/-- `/etc/proxy_auth/zaku` and `/etc/shadow`, and `/tmp`, which everybody may write. -/
def etcTree : FS ℕ Name where
  stat i :=
    if i = 3 then ⟨0x8180#32, 0⟩
    else if i = 4 then ⟨0x41FF#32, 0⟩
    else if i = 5 then ⟨0x81A0#32, 0⟩
    else ⟨0x41ED#32, 0⟩
  entries d n :=
    if d = 0 ∧ n.1 = (lit "etc").bytes then some 1
    else if d = 0 ∧ n.1 = (lit "tmp").bytes then some 4
    else if d = 1 ∧ n.1 = (lit "proxy_auth").bytes then some 2
    else if d = 1 ∧ n.1 = (lit "shadow").bytes then some 5
    else if d = 2 ∧ n.1 = (lit "zaku").bytes then some 3
    else none
  parent d := if d = 2 then 1 else 0
  target _ := ⟨false, []⟩
  root := 0
  cwd := 0
  tooLong n := decide (255 < n.1.length)

/-- Everything in `/tmp` has become a link to the trusted file. -/
def linkedTree : FS ℕ Name :=
  { etcTree with entries := Function.update etcTree.entries 4 fun _ => some 3 }

lemma etcTree_step : Step {0, 1} etcTree linkedTree := by
  refine Step.entries 4 ?_ _
  rintro (h | h)
  · simp at h
  · exact absurd h.other (by decide)

theorem opened_is_checked_zaku :
    ∃ path, fileName linuxLimits (fun _ => 0) trustedDirPath (lit "zaku") = .ok path ∧
      (resolveStr linkedTree false path).result = .ok 3 ∧
      RootControlled 0 (linkedTree.stat 3) ∧
      (resolveStr linkedTree true path).result = .ok 3 ∧
      RootControlled 0 (linkedTree.stat 3) := by
  have hpath : fileName linuxLimits (fun _ => 0) trustedDirPath (lit "zaku") =
      .ok (trustedDirPath ++ lit "zaku") := fileName_of_le _ _ (by decide) (by decide)
  have hevents : (resolveStr etcTree true trustedDirPath).events = [0, 1] := by decide
  have hdir : lstat etcTree trustedDirPath = .found ⟨0x41ED#32, 0⟩ := by decide
  have hfile : lstat linkedTree (trustedDirPath ++ lit "zaku") = .found ⟨0x8180#32, 0⟩ := by decide
  have hopen : findTrustedFile linuxLimits (fun _ => 0)
      (opsAt ⟨0, 0⟩ ⟨0, 0⟩ etcTree linkedTree linkedTree) (some trustedDirPath)
      (some (lit "zaku")) = .ok (some 3) :=
    findTrustedFile_eq_some.mpr ⟨by decide, getTrustedDevFile_eq_some.mpr
      ⟨_, hpath, by decide, by decide⟩⟩
  refine opened_is_checked (A := {0, 1}) (by decide) (by decide) (by decide) ?_ .refl
    (.single etcTree_step) .refl ?_ ?_ hopen
  · intro d hd
    rw [hevents] at hd
    exact .inl (by simpa using hd)
  · intro e he
    rw [hdir] at he
    cases he
  · intro path hp e he
    obtain rfl := Except.ok.inj (hpath.symm.trans hp)
    rw [hfile] at he
    cases he

end ProxyAuth.Race
