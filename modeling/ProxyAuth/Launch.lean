import ProxyAuth.PostAuth
import ProxyAuth.Race

/-!
The program the child of a login runs, while others act.

The login checks the trusted directory and the child executes the entry `deauth` of it, some time
later; nobody looks at that file itself. What the directory's check says holds on, so nobody but
root can have put another file in its place.
-/

namespace ProxyAuth.Launch

open ProxyAuth.Control ProxyAuth.CString ProxyAuth.Stat ProxyAuth.Sec ProxyAuth.FileName
open ProxyAuth.BtMisc ProxyAuth.BtTrust ProxyAuth.Login ProxyAuth.PostAuth ProxyAuth.FileSystem
open ProxyAuth.PathString ProxyAuth.Unprivileged ProxyAuth.Race

variable {ι : Type}

/-- `execl` succeeds only on a path that leads somewhere in the file system of the moment. -/
def ExecutesIn (fs : FS ι Name) (E : Spawn) : Prop :=
  ∀ path, E.execl path = true → ∃ i, (resolveStr fs true path).result = .ok i

/-! ### What the login has checked -/

/-- A login that succeeds has opened a trusted file. -/
lemma exists_file {w : World} {dir user : Option Str} {login : Login}
    (h : bluetoothLogin w dir user = .ok login) (hstatus : login.status = true) :
    ∃ f, findTrustedFile w.limits w.stack w.files dir user = .ok (some f) := by
  obtain ⟨r, hr⟩ := findTrustedFile_ok w.limits w.stack w.files dir user
  rcases r with _ | f
  · unfold bluetoothLogin at h
    obtain ⟨⟨paired, numPaired⟩, -, h₁⟩ := bind_eq_ok.mp h
    obtain ⟨⟨trusted, numDevices⟩, htrusted, h₂⟩ := bind_eq_ok.mp h₁
    rw [findTrustedDevices_unopened hr] at htrusted
    obtain ⟨rfl, rfl⟩ := Prod.mk.inj (Except.ok.inj htrusted)
    obtain ⟨found, hfound, h₃⟩ := bind_eq_ok.mp h₂
    obtain ⟨-, -, h₄⟩ := bind_eq_ok.mp h₃
    obtain ⟨-, -, h₅⟩ := bind_eq_ok.mp h₄
    obtain rfl : found = login := Except.ok.inj h₅
    cases hfound
    cases hstatus
  · exact ⟨f, hr⟩

/-- The check of the directory has accepted it. -/
lemma checked_of_loggedIn {A : Auth} {username : Str} {login : Login}
    (hin : LoggedIn A username login) :
    checkConfig (A.world.files.lstatDir trustedDirPath) A.world.files.dirStale 1 = .ok () := by
  obtain ⟨f, hf⟩ := exists_file hin.2.1 hin.2.2
  exact ret_eq_one.mp (findTrustedFile_eq_some.mp hf).1

/-- A child that becomes a program belongs to a login that succeeded, and has found that program
under its path. -/
lemma loggedIn_of_became {A : Auth} {path : Str} {argv : List Str} {uid : ℕ}
    (h : (pamSmAuthenticate A).2 = some (.became path argv uid)) :
    ∃ username login, LoggedIn A username login ∧ path = trustedDirPath ++ deauth ∧
      A.spawn.execl path = true := by
  have hin : ∃ username login, LoggedIn A username login := by
    apply loggedIn_of_success
    unfold pamSmAuthenticate at h ⊢
    rcases huser : A.user with _ | username
    · simp [huser] at h
    · rw [huser] at h
      rcases hlogin : bluetoothLogin A.world (some trustedDirPath) (some username) with e | login
      · simp [hlogin] at h
      · by_cases hstatus : login.status = true
        · simp [hlogin, hstatus, execDeauth, afterExec]
        · simp [hlogin, hstatus] at h
  obtain ⟨username, login, hin⟩ := hin
  rw [pamSmAuthenticate_of_loggedIn hin] at h
  by_cases hfork : A.spawn.fork = true
  · rw [if_pos hfork] at h
    rcases execChild_cases A.spawn login.detected username A.logFp with
      ⟨hl, pwUid, -, hchild⟩ | ⟨-, code, hchild⟩
    · rw [hchild] at h
      injection h with h
      injection h with hpath
      exact ⟨username, login, hin, hpath.symm, hpath ▸ hl.2.2⟩
    · rw [hchild, giveUp] at h
      split_ifs at h <;> cases h
  · rw [if_neg hfork] at h
    cases h

/-! ### One entry of the directory -/

variable {B : Set ι} {fs₀ fs₁ fs₂ : FS ι Name} {dir s : Str}

/-- In a directory that only root can change, a name stands for the same inode later on. -/
lemma entry_stays (hdir : IsDirPath dir) (hs : slash ∉ s.bytes) {d i : ι}
    (hlook : LooksAt B fs₁ (resolveStr fs₁ true dir)) (hst : Stable B fs₁ fs₂)
    (hd : (resolveStr fs₁ true dir).result = .ok d) (hg : Guarded B fs₁ d)
    (hi : (resolveStr fs₂ false (dir ++ s)).result = .ok i) :
    (resolveStr fs₁ false (dir ++ s)).result = .ok i ∧ Keeps B fs₁ fs₂ i := by
  have hway := resolveStr_settled hst hlook
  have hpin : Pinned B fs₁ d := hway.pinned d hd
  have hlast := lookup_settled hst hpin (looksAt_lookup hg ((comp s.bytes).getD .dot))
  rw [hdir.resolve_getD hs, hway.eq, Act.bind_of_ok hd, hlast.eq] at hi
  refine ⟨?_, hst.keeps (hlast.pinned i hi)⟩
  rw [hdir.resolve_getD hs, Act.bind_of_ok hd]
  exact hi

/-! ### From the check to the program -/

/-- **What runs is what root has put there.** Whatever others do before the check of the directory
and between it and `execl`, the program's path leads to the inode it led to when the directory was
checked. If that is no link, it is the program that runs, and if only root may change it, its
owner and mode are still the same. -/
theorem launched_is_checked [DecidableEq ι] {A : Auth} {path : Str} {argv : List Str} {uid : ℕ}
    (hB : LooksAt B fs₀ (resolveStr fs₀ true trustedDirPath))
    (h01 : Relation.ReflTransGen (Step B) fs₀ fs₁) (h12 : Relation.ReflTransGen (Step B) fs₁ fs₂)
    (hlstat : A.world.files.lstatDir trustedDirPath = lstat fs₁ trustedDirPath)
    (hseen : Lstat.Seen (lstat fs₁ trustedDirPath)) (hexec : ExecutesIn fs₂ A.spawn)
    (h : (pamSmAuthenticate A).2 = some (.became path argv uid)) :
    ∃ d i, (resolveStr fs₁ true trustedDirPath).result = .ok d ∧ RootControlled 1 (fs₁.stat d) ∧
      (resolveStr fs₁ false path).result = .ok i ∧ (resolveStr fs₂ false path).result = .ok i ∧
      (fs₁.isLink i = false → (resolveStr fs₂ true path).result = .ok i) ∧
      (Protected (fs₁.stat i) → fs₂.stat i = fs₁.stat i) := by
  have hdir : IsDirPath trustedDirPath := by decide
  obtain ⟨username, login, hin, rfl, hrun⟩ := loggedIn_of_became h
  have hcheck := checked_of_loggedIn hin
  rw [hlstat] at hcheck
  obtain ⟨d, hd, hroot⟩ := exists_of_checkConfig hseen hcheck
  rw [hdir.resolve_follow fs₁ false] at hd
  have h1 := stable_of_steps h01
  have hlook := (resolveStr_settled h1 hB).looksAt h1 hB
  obtain ⟨k, hk⟩ := hexec _ hrun
  obtain ⟨i, hi⟩ := resolveStr_unfollowed hk
  obtain ⟨hi1, hkeeps⟩ := entry_stays hdir (by decide) hlook (stable_of_steps h12) hd
    (.inr (protected_of_rootControlled hroot)) hi
  refine ⟨d, i, hd, hroot, hi1, hi, fun hno => ?_, hkeeps.stat⟩
  rw [resolveStr_follow fun j hj => ?_]
  · exact hi
  · obtain rfl : i = j := Except.ok.inj (hi.symm.trans hj)
    exact hkeeps.isLink.trans hno

/-! ### One login -/

/-- `/etc/proxy_auth/deauth` is a file of root's. -/
def programTree : FS ℕ Name :=
  { etcTree with
    stat := fun i => if i = 6 then ⟨0x81ED#32, 0⟩ else etcTree.stat i
    entries := fun d n => if d = 2 ∧ n.1 = deauth.bytes then some 6 else etcTree.entries d n }

/-- Everything in `/tmp` has become a link to it. -/
def busyTree : FS ℕ Name :=
  { programTree with entries := Function.update programTree.entries 4 fun _ => some 6 }

lemma programTree_step : Step {0, 1} programTree busyTree := by
  refine Step.entries 4 ?_ _
  rintro (h | h)
  · simp at h
  · exact absurd h.other (by decide)

/-- The phone's user logs in before that, and the program starts after it. -/
def treeAuth : Auth where
  logFp := true
  user := some (lit "zaku")
  world := { phoneWorld with files := { phoneWorld.files with lstatDir := lstat programTree } }
  spawn :=
    { smoothSpawn with execl := fun path => (resolveStr busyTree true path).result.toOption.isSome }

lemma treeAuth_loggedIn : LoggedIn treeAuth (lit "zaku") ⟨true, some phone⟩ := by
  have hfile : findTrustedFile treeAuth.world.limits treeAuth.world.stack treeAuth.world.files
      (some trustedDirPath) (some (lit "zaku")) = findTrustedFile phoneWorld.limits
        phoneWorld.stack phoneWorld.files (some trustedDirPath) (some (lit "zaku")) := by
    have hdir : lstat programTree trustedDirPath = .found ⟨0x41ED#32, 0⟩ := by decide
    rw [findTrustedFile_eq, findTrustedFile_eq,
      show treeAuth.world.files.lstatDir trustedDirPath = _ from hdir]
    rfl
  have hdevices : findTrustedDevices treeAuth.world (some trustedDirPath) (some (lit "zaku")) =
      findTrustedDevices phoneWorld (some trustedDirPath) (some (lit "zaku")) := by
    unfold findTrustedDevices
    rw [hfile]
    rfl
  have hphone : bluetoothLogin phoneWorld (some trustedDirPath) (some (lit "zaku")) =
      .ok ⟨true, some phone⟩ := login_phoneWorld
  refine ⟨rfl, ?_, rfl⟩
  rw [← hphone, bluetoothLogin, bluetoothLogin, hdevices]
  rfl

theorem launched_is_checked_zaku :
    ∃ d i, (resolveStr programTree true trustedDirPath).result = .ok d ∧
      RootControlled 1 (programTree.stat d) ∧
      (resolveStr programTree false (trustedDirPath ++ deauth)).result = .ok i ∧
      (resolveStr busyTree false (trustedDirPath ++ deauth)).result = .ok i ∧
      (programTree.isLink i = false →
        (resolveStr busyTree true (trustedDirPath ++ deauth)).result = .ok i) ∧
      (Protected (programTree.stat i) → busyTree.stat i = programTree.stat i) := by
  have hevents : (resolveStr programTree true trustedDirPath).events = [0, 1] := by decide
  have hdir : lstat programTree trustedDirPath = .found ⟨0x41ED#32, 0⟩ := by decide
  have hrun : treeAuth.spawn.execl (trustedDirPath ++ deauth) = true := by decide
  have hbecame : (pamSmAuthenticate treeAuth).2 =
      some (.became (trustedDirPath ++ deauth) [trustedDirPath ++ deauth, phone] 1000) := by
    rw [pamSmAuthenticate_of_loggedIn treeAuth_loggedIn, execChild_eq, hrun]
    rfl
  refine launched_is_checked (B := {0, 1}) ?_ .refl (.single programTree_step) rfl ?_ ?_ hbecame
  · intro d hd
    rw [hevents] at hd
    exact .inl (by simpa using hd)
  · intro e he
    rw [hdir] at he
    cases he
  · intro path hpath
    change (resolveStr busyTree true path).result.toOption.isSome = true at hpath
    rcases hr : (resolveStr busyTree true path).result with e | i
    · rw [hr] at hpath
      cases hpath
    · exact ⟨i, rfl⟩

end ProxyAuth.Launch
