import ProxyAuth.Login

/-!
After the devices have been compared (`pam_proxy.c`, `pam_post_auth.c`).

`exec_deauth` forks. In the child it returns to its caller whenever something fails before
or at `execl`, and the caller goes on there as it does in the process PAM called.
-/

namespace ProxyAuth.PostAuth

open ProxyAuth.Control ProxyAuth.CString ProxyAuth.BtMisc ProxyAuth.BtPair
open ProxyAuth.BtTrust ProxyAuth.Login

inductive PamCode
  | success | authErr | bufErr | systemErr
  deriving DecidableEq

/-- What becomes of a process: it returns from the function at hand, runs another program
from then on, or is killed by a fault. -/
inductive Fate
  | returned (code : PamCode)
  | became (path : Str) (argv : List Str) (uid : ℕ)
  | crashed (fault : Fault)
  deriving DecidableEq

/-- What `exec_deauth` meets: whether `fork`, `malloc`, `setuid` and `execl` succeed, the
password database, the user id of the process, and what a new block of memory holds. -/
structure Spawn where
  fork : Bool
  pathMem : Bool
  heap : ℕ → Byte
  getpwnam : Str → Option ℕ
  setuid : ℕ → Bool
  uid : ℕ
  execl : Str → Bool

def deauth : Str := lit "deauth"

/-- The string built in `path`. -/
def deauthPath (heap : ℕ → Byte) (dir : Str) : Except Fault Str := do
  let len := dir.len + deauth.len
  let path ← blit ((List.range (len + 2)).map heap) 0 dir.bytes
  let path ← store path dir.len 0
  let path ← strncat path deauth (deauth.len + 1)
  let path ← store path len 0
  pure (ofBuf path)

/-- An exit after a failure: the message goes to the log, open or not. -/
def giveUp (logFp : Bool) (code : PamCode) : Fate :=
  if logFp then .returned code else .crashed .nullDeref

/-- `exec_deauth` in the child. A null `bt_addr` ends the argument list. -/
def execChild (E : Spawn) (btAddr : Option Str) (username : Str) (logFp : Bool) (dir : Str) :
    Fate :=
  if E.pathMem then
    match deauthPath E.heap dir with
    | .error fault => .crashed fault
    | .ok path =>
      match E.getpwnam username with
      | none => giveUp logFp .systemErr
      | some pwUid =>
        let uid := if E.setuid pwUid then pwUid else E.uid
        if E.execl path then .became path (path :: btAddr.toList) uid
        else giveUp logFp .systemErr
  else giveUp logFp .bufErr

/-- `exec_deauth`: what it comes to in the process that called it, and in the child. -/
def execDeauth (E : Spawn) (btAddr : Option Str) (username : Str) (logFp : Bool) (dir : Str) :
    Fate × Option Fate :=
  (.returned .success, if E.fork then some (execChild E btAddr username logFp dir) else none)

/-- What one call of `pam_sm_authenticate` meets; `user` is what `pam_get_user` delivers. -/
structure Auth where
  logFp : Bool
  user : Option Str
  world : World
  spawn : Spawn

/-- A process in which `exec_deauth` has returned goes on to return `PAM_SUCCESS`. -/
def afterExec : Fate → Fate
  | .returned _ => .returned .success
  | fate => fate

/-- `pam_sm_authenticate`: the fates of the process PAM called and of its child. -/
def pamSmAuthenticate (A : Auth) : Fate × Option Fate :=
  match A.user with
  | none => (.returned .authErr, none)
  | some username =>
    match bluetoothLogin A.world (some trustedDirPath) (some username) with
    | .error fault => (.crashed fault, none)
    | .ok login =>
      if login.status then
        let (caller, child) := execDeauth A.spawn login.detected username A.logFp trustedDirPath
        (afterExec caller, child.map afterExec)
      else (.returned .authErr, none)

/-! ### The path -/

/-- The path fits its block, and is the directory followed by the name of the program. -/
lemma deauthPath_eq (heap : ℕ → Byte) (dir : Str) :
    deauthPath heap dir = .ok (dir ++ deauth) := by
  have hlen : ((List.range (dir.len + deauth.len + 2)).map heap).length =
      dir.len + deauth.len + 2 := by simp
  obtain ⟨b₁, b₂, h₁, h₂, hdir⟩ := holds_of_copy (s := dir)
    (b := (List.range (dir.len + deauth.len + 2)).map heap) (by omega)
  rw [hlen] at hdir
  obtain ⟨b₃, h₃, hpath⟩ := hdir.strncat (k := deauth.len + 1) (t := deauth) (by omega)
  rw [Str.take_of_len_le (by omega)] at hpath
  obtain ⟨b₄, h₄, hpath'⟩ := hpath.store
  rw [Str.len_append] at h₄
  simp only [deauthPath, h₁, ok_bind, h₂, h₃, h₄, pure_eq_ok, hpath'.ofBuf]

lemma execChild_eq (E : Spawn) (btAddr : Option Str) (username : Str) (logFp : Bool) (dir : Str) :
    execChild E btAddr username logFp dir =
      if E.pathMem then
        match E.getpwnam username with
        | none => giveUp logFp .systemErr
        | some pwUid =>
          if E.execl (dir ++ deauth) then
            .became (dir ++ deauth) ((dir ++ deauth) :: btAddr.toList)
              (if E.setuid pwUid then pwUid else E.uid)
          else giveUp logFp .systemErr
      else giveUp logFp .bufErr := by
  rw [execChild, deauthPath_eq]

/-- The call of `execl` is reached, and succeeds. -/
def Launches (E : Spawn) (username : Str) : Prop :=
  E.pathMem = true ∧ (∃ pwUid, E.getpwnam username = some pwUid) ∧
    E.execl (trustedDirPath ++ deauth) = true

/-- Whatever fails in the child, it comes back to its caller if the log is open, and crashes
over the message if it is not. -/
lemma execChild_cases (E : Spawn) (btAddr : Option Str) (username : Str) (logFp : Bool) :
    (Launches E username ∧ ∃ pwUid, E.getpwnam username = some pwUid ∧
        execChild E btAddr username logFp trustedDirPath =
          .became (trustedDirPath ++ deauth) ((trustedDirPath ++ deauth) :: btAddr.toList)
            (if E.setuid pwUid then pwUid else E.uid)) ∨
      (¬ Launches E username ∧ ∃ code,
        execChild E btAddr username logFp trustedDirPath = giveUp logFp code) := by
  rw [execChild_eq]
  by_cases hmem : E.pathMem = true
  · rcases hpw : E.getpwnam username with _ | pwUid
    · refine .inr ⟨fun h => ?_, .systemErr, by rw [if_pos hmem]⟩
      obtain ⟨pwUid, h⟩ := h.2.1
      rw [hpw] at h
      cases h
    · by_cases hexec : E.execl (trustedDirPath ++ deauth) = true
      · refine .inl ⟨⟨hmem, ⟨pwUid, hpw⟩, hexec⟩, pwUid, rfl, ?_⟩
        rw [if_pos hmem]
        exact if_pos hexec
      · refine .inr ⟨fun h => hexec h.2.2, .systemErr, ?_⟩
        rw [if_pos hmem]
        exact if_neg hexec
  · exact .inr ⟨fun h => hmem h.1, .bufErr, by rw [if_neg hmem]⟩

/-! ### A login that succeeds -/

/-- `bluetooth_login` succeeds for the user `pam_get_user` names. -/
def LoggedIn (A : Auth) (username : Str) (login : Login) : Prop :=
  A.user = some username ∧
    bluetoothLogin A.world (some trustedDirPath) (some username) = .ok login ∧
      login.status = true

variable {A : Auth} {username : Str} {login : Login}

lemma pamSmAuthenticate_of_loggedIn (h : LoggedIn A username login) :
    pamSmAuthenticate A = (.returned .success,
      if A.spawn.fork then
        some (afterExec (execChild A.spawn login.detected username A.logFp trustedDirPath))
      else none) := by
  obtain ⟨huser, hlogin, hstatus⟩ := h
  rw [pamSmAuthenticate, huser]
  simp only [hlogin, hstatus, if_true, execDeauth, afterExec]
  split_ifs <;> rfl

/-- `PAM_SUCCESS` means that the comparison succeeded. -/
lemma loggedIn_of_success (h : (pamSmAuthenticate A).1 = .returned .success) :
    ∃ username login, LoggedIn A username login := by
  unfold pamSmAuthenticate at h
  rcases huser : A.user with _ | username
  · simp [huser] at h
  · rw [huser] at h
    rcases hlogin : bluetoothLogin A.world (some trustedDirPath) (some username) with fault | login
    · simp [hlogin] at h
    · by_cases hstatus : login.status = true
      · exact ⟨username, login, huser, hlogin, hstatus⟩
      · simp [hlogin, hstatus] at h

/-! ### Who returns to PAM -/

/-- The process PAM called returns, and its child does not. -/
def OneReturns (x : Fate × Option Fate) : Prop :=
  (∃ code, x.1 = .returned code) ∧ ∀ child, x.2 = some child → ∀ code, child ≠ .returned code

/-- Of every successful login, one process returns to PAM. -/
def ReturnsOnce (A : Auth) : Prop :=
  ∀ username login, LoggedIn A username login → OneReturns (pamSmAuthenticate A)

/-- There is no child, or nothing fails in it, or there is no log to write the failure to. -/
def ChildLeaves (A : Auth) (username : Str) : Prop :=
  A.spawn.fork = false ∨ A.logFp = false ∨ Launches A.spawn username

/-- **A child that fails with the log open comes back as a second login.** -/
theorem returnsOnce_iff (A : Auth) :
    ReturnsOnce A ↔ ∀ username login, LoggedIn A username login → ChildLeaves A username := by
  refine forall_congr' fun username => forall_congr' fun login => forall_congr' fun h => ?_
  rw [pamSmAuthenticate_of_loggedIn h, OneReturns, ChildLeaves]
  rcases hfork : A.spawn.fork with _ | _
  · simp
  · rcases execChild_cases A.spawn login.detected username A.logFp with
      ⟨hl, pwUid, -, hchild⟩ | ⟨hl, code, hchild⟩
    · simp [hchild, hl, afterExec]
    · rcases hlog : A.logFp with _ | _
      · simp [hlog ▸ hchild, giveUp, afterExec]
      · simp [hlog ▸ hchild, giveUp, afterExec, hl]

/-- The spawn of a login in which nothing fails. -/
def smoothSpawn : Spawn where
  fork := true
  pathMem := true
  heap _ := 0
  getpwnam _ := some 1000
  setuid _ := true
  uid := 0
  execl _ := true

/-- The login of the user of the phone, with the log open. -/
def phoneAuth (E : Spawn) : Auth := ⟨true, some (lit "zaku"), phoneWorld, E⟩

lemma phoneAuth_loggedIn (E : Spawn) :
    LoggedIn (phoneAuth E) (lit "zaku") ⟨true, some phone⟩ :=
  ⟨rfl, login_phoneWorld, rfl⟩

/-- Where the child does not find the user in the database, both processes return
`PAM_SUCCESS`. -/
theorem not_returnsOnce_unknown_user :
    ¬ ReturnsOnce (phoneAuth { smoothSpawn with getpwnam := fun _ => none }) := by
  intro h
  have hone := h _ _ (phoneAuth_loggedIn _)
  rw [pamSmAuthenticate_of_loggedIn (phoneAuth_loggedIn _)] at hone
  refine hone.2 (.returned .success) ?_ .success rfl
  rw [execChild_eq]
  rfl

/-! ### Who is watched -/

lemma pairedLoop_detected {trusted : Option (List Slot)} {num : ℤ} {alloc : Bool}
    {slots : List Slot} {k : ℕ} {login : Login}
    (h : pairedLoop trusted num alloc none slots k = .ok login) (hstatus : login.status = true) :
    ∃ d, pairedLoop trusted num true none slots k = .ok ⟨true, some d⟩ ∧
      login.detected = if alloc then some d else none := by
  induction slots generalizing k with
  | nil =>
    cases k with
    | zero => cases h; cases hstatus
    | succ k => cases h
  | cons s slots ih =>
    cases k with
    | zero => cases h; cases hstatus
    | succ k =>
      rw [pairedLoop] at h ⊢
      obtain ⟨dev, hdev, h⟩ := bind_eq_ok.mp h
      obtain ⟨t, ht, h⟩ := bind_eq_ok.mp h
      rw [hdev, ok_bind, ht, ok_bind]
      cases t with
      | false => exact ih h
      | true =>
        rcases dev with _ | d
        · cases h
        · cases h
          exact ⟨copyMac d.bytes, rfl, rfl⟩

/-- A device is found whether or not there is memory for its address; without memory, none
is handed on. -/
lemma bluetoothLogin_detected {w : World} {dir user : Option Str} {login : Login}
    (h : bluetoothLogin w dir user = .ok login) (hstatus : login.status = true) :
    ∃ d, bluetoothLogin { w with detectedMem := true } dir user = .ok ⟨true, some d⟩ ∧
      login.detected = if w.detectedMem then some d else none := by
  unfold bluetoothLogin at h
  obtain ⟨⟨paired, numPaired⟩, hpaired, h₁⟩ := bind_eq_ok.mp h
  obtain ⟨⟨trusted, numDevices⟩, htrusted, h₂⟩ := bind_eq_ok.mp h₁
  obtain ⟨found, hfound, h₃⟩ := bind_eq_ok.mp h₂
  obtain ⟨⟨⟩, hfree, h₄⟩ := bind_eq_ok.mp h₃
  obtain ⟨⟨⟩, hfree', h₅⟩ := bind_eq_ok.mp h₄
  obtain rfl : found = login := Except.ok.inj h₅
  have hsearch : ∃ d, (if trusted.isSome ∧ paired.isSome then
        findTrustedPairedDevice true trusted numDevices paired numPaired none
      else pure ⟨false, none⟩) = .ok ⟨true, some d⟩ ∧
        found.detected = if w.detectedMem then some d else none := by
    rcases trusted with _ | trusted
    · cases hfound
      cases hstatus
    rcases paired with _ | paired
    · cases hfound
      cases hstatus
    exact pairedLoop_detected hfound hstatus
  obtain ⟨d, hd, hdet⟩ := hsearch
  have htrusted' : findTrustedDevices { w with detectedMem := true } dir user =
      .ok (trusted, numDevices) := htrusted
  refine ⟨d, ?_, hdet⟩
  unfold bluetoothLogin
  simp only [hpaired, htrusted', hd, hfree, hfree', ok_bind]
  rfl

/-- The device the comparison stopped at. -/
def authenticator (w : World) (username : Str) : Except Fault (Option Str) :=
  (bluetoothLogin { w with detectedMem := true } (some trustedDirPath) (some username)).map
    Login.detected

/-- `PAM_SUCCESS` is returned only when a child runs the server for the device that
authenticated, as the user who logs in. -/
def GuardSpawned (A : Auth) : Prop :=
  (pamSmAuthenticate A).1 = .returned .success → ∃ username d uid, A.user = some username ∧
    authenticator A.world username = .ok (some d) ∧ A.spawn.getpwnam username = some uid ∧
      (pamSmAuthenticate A).2 =
        some (.became (trustedDirPath ++ deauth) [trustedDirPath ++ deauth, d] uid)

/-- There is memory for the address and a child, nothing fails in the child, and it has the
user id of the user, through `setuid` or from the start. -/
structure GuardReady (A : Auth) (username : Str) : Prop where
  detected : A.world.detectedMem = true
  fork : A.spawn.fork = true
  launches : Launches A.spawn username
  uid : ∀ pwUid, A.spawn.getpwnam username = some pwUid →
    A.spawn.setuid pwUid = true ∨ A.spawn.uid = pwUid

lemma authenticator_eq (h : LoggedIn A username login) :
    ∃ d, authenticator A.world username = .ok (some d) ∧
      login.detected = if A.world.detectedMem then some d else none := by
  obtain ⟨-, hlogin, hstatus⟩ := h
  obtain ⟨d, hd, hdet⟩ := bluetoothLogin_detected hlogin hstatus
  exact ⟨d, by rw [authenticator, hd]; rfl, hdet⟩

/-- Of one successful login. -/
lemma guardReady_iff (h : LoggedIn A username login) :
    GuardReady A username ↔ ∃ d uid, authenticator A.world username = .ok (some d) ∧
      A.spawn.getpwnam username = some uid ∧ (pamSmAuthenticate A).2 =
        some (.became (trustedDirPath ++ deauth) [trustedDirPath ++ deauth, d] uid) := by
  obtain ⟨d, hd, hdet⟩ := authenticator_eq h
  rw [pamSmAuthenticate_of_loggedIn h]
  rcases execChild_cases A.spawn login.detected username A.logFp with
    ⟨hl, pwUid, hpw, hchild⟩ | ⟨hl, code, hchild⟩
  · rw [hchild]
    constructor
    · rintro ⟨hmem, hfork, -, huid⟩
      refine ⟨d, pwUid, hd, hpw, ?_⟩
      have hid : (if A.spawn.setuid pwUid then pwUid else A.spawn.uid) = pwUid := by
        rcases huid pwUid hpw with hset | heq
        · rw [if_pos hset]
        · rw [heq, ite_self]
      rw [if_pos hfork, hid, hdet, if_pos hmem]
      rfl
    · rintro ⟨d', uid, -, hpw', heq⟩
      rcases hfork : A.spawn.fork with _ | _
      · simp [hfork] at heq
      rcases hmem : A.world.detectedMem with _ | _
      · simp [hfork, hdet, hmem, afterExec] at heq
      obtain rfl : pwUid = uid := Option.some.inj (hpw.symm.trans hpw')
      refine ⟨hmem, hfork, hl, fun uid' hpw' => ?_⟩
      obtain rfl : pwUid = uid' := Option.some.inj (hpw.symm.trans hpw')
      by_cases hset : A.spawn.setuid pwUid = true
      · exact .inl hset
      · simp [hfork, afterExec, hset] at heq
        exact .inr heq.2
  · refine ⟨fun hready => absurd hready.launches hl, ?_⟩
    rintro ⟨d', uid, -, -, heq⟩
    rw [hchild] at heq
    rcases hfork : A.spawn.fork with _ | _
    · simp [hfork] at heq
    · rcases hlog : A.logFp with _ | _
      · simp [hfork, hlog, giveUp, afterExec] at heq
      · simp [hfork, hlog, giveUp, afterExec] at heq

/-- **A login has its guard exactly when nothing fails on the way to it.** -/
theorem guardSpawned_iff (A : Auth) :
    GuardSpawned A ↔ ∀ username login, LoggedIn A username login → GuardReady A username := by
  constructor
  · intro h username login hin
    obtain ⟨username', d, uid, huser, hd, hpw, hchild⟩ :=
      h (by rw [pamSmAuthenticate_of_loggedIn hin])
    obtain rfl : username = username' := Option.some.inj (hin.1.symm.trans huser)
    exact (guardReady_iff hin).mpr ⟨d, uid, hd, hpw, hchild⟩
  · intro h hsuccess
    obtain ⟨username, login, hin⟩ := loggedIn_of_success hsuccess
    obtain ⟨d, uid, hd, hpw, hchild⟩ := (guardReady_iff hin).mp (h username login hin)
    exact ⟨username, d, uid, hin.1, hd, hpw, hchild⟩

/-- Where `fork` fails, the user is logged in and nobody watches. -/
theorem not_guardSpawned_no_fork :
    ¬ GuardSpawned (phoneAuth { smoothSpawn with fork := false }) := by
  intro h
  have hin := phoneAuth_loggedIn { smoothSpawn with fork := false }
  obtain ⟨_, _, _, -, -, -, hchild⟩ := h (by rw [pamSmAuthenticate_of_loggedIn hin])
  rw [pamSmAuthenticate_of_loggedIn hin] at hchild
  cases hchild

end ProxyAuth.PostAuth
