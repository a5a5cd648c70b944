import ProxyAuth.PostAuth
import ProxyAuth.Stdio

/-!
The log of the login (`/var/log/pam-proxy-auth.log`).

The functions of the login with what they print to the log. The stream is not flushed before the
fork, so that what its buffer holds is printed by both processes if both come to close it.
-/

namespace ProxyAuth.LogFile

open ProxyAuth.Control ProxyAuth.CString ProxyAuth.Getline ProxyAuth.Sec ProxyAuth.BtMisc
open ProxyAuth.BtPair ProxyAuth.FileName ProxyAuth.BtTrust ProxyAuth.Login ProxyAuth.PostAuth
open ProxyAuth.Stdio

/-! ### The time -/

/-- What `asctime` returns. -/
structure Asctime where
  text : Str
  nonempty : 0 < text.len
  fits : text.len ≤ 50

/-- `get_login_time`: the buffer is terminated in place of the newline. -/
def getLoginTime (currTime : Buf) (t : Asctime) : Except Fault Buf := do
  let timeLen := t.text.len
  let currTime ← blit currTime 0 (strncpy (t.text.bytes ++ [0]) timeLen)
  store currTime (timeLen - 1) 0

/-- `char curr_time[50]`. -/
def timeBuf (stack : ℕ → Byte) : Buf := (List.range 50).map stack

/-- The time fits its buffer, and comes without the newline. -/
lemma getLoginTime_eq (stack : ℕ → Byte) (t : Asctime) :
    ∃ b, getLoginTime (timeBuf stack) t = .ok b ∧ ofBuf b = t.text.take (t.text.len - 1) := by
  have hcopy : strncpy (t.text.bytes ++ [0]) t.text.len = t.text.bytes := by
    rw [strncpy, ofBuf_append_nul, Nat.sub_self, List.replicate_zero, List.append_nil]
    exact List.take_of_length_le le_rfl
  have hlen : t.text.bytes.length = t.text.len := rfl
  have hnonempty := t.nonempty
  have hfits : 0 + t.text.bytes.length ≤ (timeBuf stack).length := by
    rw [Nat.zero_add, hlen, timeBuf, List.length_map, List.length_range]
    exact t.fits
  set rest := (timeBuf stack).drop (0 + t.text.bytes.length) with hrest
  have hstore : t.text.len - 1 < (t.text.bytes ++ rest).length := by
    rw [List.length_append]
    omega
  refine ⟨(t.text.bytes ++ rest).set (t.text.len - 1) 0, ?_, ?_⟩
  · simp only [getLoginTime, hcopy, blit, if_pos hfits, ok_bind, List.take_zero, List.nil_append]
    rw [← hrest, store, if_pos hstore]
  · rw [List.set_eq_take_append_cons_drop, if_pos hstore, ofBuf_append_nul_eq,
      List.take_append_of_le_length (by omega), ofBuf_take, ofBuf_bytes]

/-! ### The lines -/

inductive Entry
  | noUsername
  | complaint (file : Str) (c : Complaint)
  | noFile (fileName username : Str)
  | callFindDevice (currTime : Str)
  | trustedDevice (dev : Str)
  | deviceFound (currTime dev : Str)
  | noneFound (currTime : Str) (bluetoothStatus : ℤ)
  | viaProxy
  | mallocError (currTime : Str)
  | getpwnamError (currTime username : Str)
  | execlError (currTime : Str)
  deriving DecidableEq

def Entry.text : Entry → Str
  | .noUsername => lit "Could not find username\n"
  | .complaint file c => c.logText file
  | .noFile fileName username => lit "File: " ++ fileName ++
      lit " does not exist. There are no trusted device for the user: " ++ username ++ lit "\n"
  | .callFindDevice currTime => currTime ++ lit ": Call find device\n"
  | .trustedDevice dev => lit "Trusted Device: " ++ dev ++ lit "\n"
  | .deviceFound currTime dev => currTime ++ lit ": Device " ++ dev ++ lit " found\n"
  | .noneFound currTime bluetoothStatus => currTime ++ lit ": No trusted devices was found " ++
      lit (toString bluetoothStatus) ++ lit "\n"
  | .viaProxy => lit "Login via Auth Proxy\n"
  | .mallocError currTime => currTime ++ lit ": (exec_deauth) malloc Error\n"
  | .getpwnamError currTime username => currTime ++
      lit ": (exec_deauth) getpwnam Error. Trued to get uid of user " ++ username ++ lit "\n"
  | .execlError currTime => currTime ++ lit ": (exec_deauth) execl Error\n"

/-- What the entries look like in the file. -/
def bytes (es : List Entry) : List Byte := es.flatMap fun e => e.text.bytes

/-! ### The functions that print them -/

abbrev Logged := Act Entry Fault

variable {φ : Type}

/-- No file is returned, and the log says why. -/
def refuse (logFp : Bool) (e : Entry) : Logged (Option φ) := do
  Act.emitIf (logFp = true) e
  pure none

def getTrustedDevFile (logFp : Bool) (lim : Limits) (stack : ℕ → Byte) (ops : FileOps φ)
    (dir user : Option Str) : Logged (Option φ) :=
  match dir, user with
  | some dir, some user => do
    let file ← Act.call id (fileName lim stack dir user)
    match checkConfig (ops.lstatFile file) ops.fileStale 0 with
    | .error c => refuse logFp (.complaint file c)
    | .ok () =>
      match ops.fopen file with
      | none => refuse logFp (.noFile file user)
      | some f => pure (some f)
  | _, _ => pure none

def findTrustedFile (logFp : Bool) (lim : Limits) (stack : ℕ → Byte) (ops : FileOps φ)
    (dir user : Option Str) : Logged (Option φ) :=
  match dir, user with
  | some d, some _ =>
    match checkConfig (ops.lstatDir d) ops.dirStale 1 with
    | .error c => refuse logFp (.complaint d c)
    | .ok () => getTrustedDevFile logFp lim stack ops dir user
  | _, _ => pure none

def findTrustedDevices (logFp : Bool) (w : World) (dir user : Option Str) :
    Logged (Option (List Slot) × ℤ) := do
  match ← findTrustedFile logFp w.limits w.stack w.files dir user with
  | none => pure (none, 0)
  | some f =>
    let num := getNumLines w.lineMem f.counted
    if num = 0 then pure (none, 0)
    else if num < 0 ∨ w.arrayMem = false then pure (none, num)
    else do
      let slots ← Act.call id (setTrustedDevices w.lineMem w.entryMem f.filled
        (List.replicate num.toNat .unwritten) num)
      pure (some slots, num)

def pairedLoop (logFp : Bool) (trusted : Option (List Slot)) (numDevices : ℤ) (alloc : Bool)
    (detected : Option Str) : List Slot → ℕ → Logged Login
  | _, 0 => pure ⟨false, detected⟩
  | [], _ + 1 => Act.stop .outOfBounds
  | s :: ss, k + 1 => do
    let dev ← Act.call id s.read
    let found ← Act.call id (isDevTrusted dev trusted numDevices)
    if found then
      match dev with
      | none => Act.stop .nullDeref
      | some d => do
        Act.emitIf (logFp = true) (.trustedDevice d)
        pure ⟨true, if alloc then some (copyMac d.bytes) else none⟩
    else pairedLoop logFp trusted numDevices alloc detected ss k

def findTrustedPairedDevice (logFp : Bool) (alloc : Bool) (trusted : Option (List Slot))
    (numDevices : ℤ) (paired : Option (List Slot)) (numPaired : ℤ) (detected : Option Str) :
    Logged Login :=
  match trusted, paired with
  | some _, some p => pairedLoop logFp trusted numDevices alloc detected p numPaired.toNat
  | _, _ => pure ⟨false, detected⟩

/-- What `asctime` returns in the login and in the child, and what the buffers for it hold. -/
structure Times where
  login : Asctime
  loginStack : ℕ → Byte
  child : Asctime
  childStack : ℕ → Byte

/-- The line about what the comparison came to. -/
def report (logFp : Bool) (currTime : Str) (login : Login) : Logged PUnit :=
  if login.status then
    match login.detected with
    | some dev => Act.emitIf (logFp = true) (.deviceFound currTime dev)
    | none => pure ⟨⟩
  else Act.emitIf (logFp = true) (.noneFound currTime 0)

/-- The part of `bluetooth_login` after the trusted devices were found. -/
def compareLists (logFp : Bool) (T : Times) (w : World) (trusted : Option (List Slot))
    (numDevices : ℤ) (paired : Option (List Slot)) (numPaired : ℤ) : Logged Login := do
  let currTime ← Act.call id (getLoginTime (timeBuf T.loginStack) T.login)
  Act.emitIf (logFp = true) (.callFindDevice (ofBuf currTime))
  let login ← (if paired.isSome then
      findTrustedPairedDevice logFp w.detectedMem trusted numDevices paired numPaired none
    else pure ⟨false, none⟩)
  report logFp (ofBuf currTime) login
  pure login

def bluetoothLogin (logFp : Bool) (T : Times) (w : World) (dir user : Option Str) :
    Logged Login := do
  let (paired, numPaired) ← Act.call id (getPairedDevices w.pairMem w.bus 0)
  let (trusted, numDevices) ← findTrustedDevices logFp w dir user
  let login ← (if trusted.isSome then compareLists logFp T w trusted numDevices paired numPaired
    else pure ⟨false, none⟩)
  Act.call id (freeDeviceList trusted numDevices)
  Act.call id (freeDeviceList paired numPaired)
  pure login

/-- The last line of the child, if the log is open. -/
def giveUp (logFp : Bool) (e : Entry) (code : PamCode) : Act Entry Fate PamCode :=
  if logFp then do
    Act.emit e
    pure code
  else Act.stop (.crashed .nullDeref)

def execChild (E : Spawn) (T : Times) (btAddr : Option Str) (username : Str) (logFp : Bool)
    (dir : Str) : Act Entry Fate PamCode := do
  let currTime ← (if logFp then Act.call .crashed (getLoginTime (timeBuf T.childStack) T.child)
    else pure (timeBuf T.childStack))
  if E.pathMem then do
    let path ← Act.call .crashed (deauthPath E.heap dir)
    match E.getpwnam username with
    | none => giveUp logFp (.getpwnamError (ofBuf currTime) username) .systemErr
    | some pwUid =>
      let uid := if E.setuid pwUid then pwUid else E.uid
      if E.execl path then Act.stop (.became path (path :: btAddr.toList) uid)
      else giveUp logFp (.execlError (ofBuf currTime)) .systemErr
  else giveUp logFp (.mallocError (ofBuf currTime)) .bufErr

/-- What a process that runs to the end of `pam_sm_authenticate` becomes. -/
def fate : Except Fate PamCode → Fate
  | .ok code => .returned code
  | .error fate => fate

/-- What one process prints, and what becomes of it. -/
structure Trail where
  entries : List Entry
  fate : Fate

/-- The log is closed at the end of `pam_sm_authenticate`. -/
def Trail.closes (t : Trail) : Bool :=
  match t.fate with
  | .returned _ => true
  | _ => false

def Trail.writer (t : Trail) : Writer Byte := ⟨t.entries.map fun e => e.text.bytes, t.closes⟩

/-- `pam_sm_authenticate`: what is printed before the fork, and what the two processes print
after it. -/
structure Trails where
  before : List Entry
  caller : Trail
  child : Option Trail

def pamSmAuthenticate (A : Auth) (T : Times) : Trails :=
  match A.user with
  | none => ⟨if A.logFp then [.noUsername] else [], ⟨[], .returned .authErr⟩, none⟩
  | some username =>
    let x := bluetoothLogin A.logFp T A.world (some trustedDirPath) (some username)
    match x.result with
    | .error fault => ⟨x.events, ⟨[], .crashed fault⟩, none⟩
    | .ok login =>
      if login.status then
        let y := execChild A.spawn T login.detected username A.logFp trustedDirPath
        ⟨x.events ++ (if A.logFp then [.viaProxy] else []), ⟨[], .returned .success⟩,
          if A.spawn.fork then some ⟨y.events, afterExec (fate y.result)⟩ else none⟩
      else ⟨x.events, ⟨[], .returned .authErr⟩, none⟩

/-- What the file can gain, with a buffer of `size` bytes in each of the processes. -/
def Trails.Gains (t : Trails) (size : ℕ) (file : List Byte) : Prop :=
  Stdio.Gains size (t.before.map fun e => e.text.bytes) t.caller.writer
    (t.child.map Trail.writer) file

/-! ### Without the log -/

section

variable (logFp : Bool)

lemma refuse_result (e : Entry) : (refuse logFp e : Logged (Option φ)).result = .ok none := by
  rw [refuse, Act.bind_result, Act.emitIf_result]
  rfl

lemma getTrustedDevFile_result (lim : Limits) (stack : ℕ → Byte) (ops : FileOps φ)
    (dir user : Option Str) :
    (getTrustedDevFile logFp lim stack ops dir user).result =
      BtTrust.getTrustedDevFile lim stack ops dir user := by
  rcases dir with _ | dir
  · rfl
  rcases user with _ | user
  · rfl
  rw [getTrustedDevFile, BtTrust.getTrustedDevFile, Act.bind_result, Act.call_id_result]
  rcases fileName lim stack dir user with e | file
  · rfl
  rw [ok_bind, ok_bind]
  rcases hc : checkConfig (ops.lstatFile file) ops.fileStale 0 with c | ⟨⟩
  · simp [refuse_result, ret]
  · rcases hf : ops.fopen file with _ | f
    · simp [refuse_result, ret]
    · simp [ret]

lemma findTrustedFile_result (lim : Limits) (stack : ℕ → Byte) (ops : FileOps φ)
    (dir user : Option Str) :
    (findTrustedFile logFp lim stack ops dir user).result =
      BtTrust.findTrustedFile lim stack ops dir user := by
  rcases dir with _ | dir
  · rfl
  rcases user with _ | user
  · rfl
  rw [findTrustedFile, BtTrust.findTrustedFile]
  rcases hc : checkConfig (ops.lstatDir dir) ops.dirStale 1 with c | ⟨⟩
  · simp [refuse_result, ret]
  · simp [ret, getTrustedDevFile_result]

lemma findTrustedDevices_result (w : World) (dir user : Option Str) :
    (findTrustedDevices logFp w dir user).result = BtTrust.findTrustedDevices w dir user := by
  rw [findTrustedDevices, BtTrust.findTrustedDevices, Act.bind_result, findTrustedFile_result]
  rcases BtTrust.findTrustedFile w.limits w.stack w.files dir user with e | _ | f
  · rfl
  · rfl
  · simp only [ok_bind]
    split_ifs
    · rfl
    · rfl
    · rw [Act.bind_result, Act.call_id_result]
      rfl

lemma pairedLoop_result (trusted : Option (List Slot)) (numDevices : ℤ) (alloc : Bool)
    (detected : Option Str) (l : List Slot) (k : ℕ) :
    (pairedLoop logFp trusted numDevices alloc detected l k).result =
      BtTrust.pairedLoop trusted numDevices alloc detected l k := by
  induction l generalizing k with
  | nil => cases k <;> rfl
  | cons s ss ih =>
    rcases k with _ | k
    · rfl
    simp only [pairedLoop, BtTrust.pairedLoop, Act.bind_result, Act.call_id_result]
    rcases s.read with e | dev
    · rfl
    rw [ok_bind, ok_bind]
    rcases isDevTrusted dev trusted numDevices with e | found
    · rfl
    rw [ok_bind, ok_bind]
    cases found
    · exact ih k
    · rcases dev with _ | d
      · rfl
      · simp [Act.bind_result]

lemma report_result (currTime : Str) (login : Login) :
    (report logFp currTime login).result = .ok ⟨⟩ := by
  unfold report
  rcases login with ⟨_ | _, _ | dev⟩
  · exact Act.emitIf_result _ _
  · exact Act.emitIf_result _ _
  · rfl
  · exact Act.emitIf_result _ _

lemma compareLists_result (T : Times) (w : World) {trusted : Option (List Slot)} (numDevices : ℤ)
    (paired : Option (List Slot)) (numPaired : ℤ) (h : trusted.isSome = true) :
    (compareLists logFp T w trusted numDevices paired numPaired).result =
      if trusted.isSome ∧ paired.isSome then
        BtTrust.findTrustedPairedDevice w.detectedMem trusted numDevices paired numPaired none
      else .ok ⟨false, none⟩ := by
  obtain ⟨b, hb, -⟩ := getLoginTime_eq T.loginStack T.login
  obtain ⟨t, rfl⟩ := Option.isSome_iff_exists.mp h
  rw [compareLists, hb, Act.call_ok, Act.pure_bind, Act.bind_result, Act.emitIf_result, ok_bind]
  have hfind : (if paired.isSome then
      findTrustedPairedDevice logFp w.detectedMem (some t) numDevices paired numPaired none
    else pure ⟨false, none⟩ : Logged Login).result = if (some t).isSome ∧ paired.isSome then
        BtTrust.findTrustedPairedDevice w.detectedMem (some t) numDevices paired numPaired none
      else .ok ⟨false, none⟩ := by
    rcases paired with _ | p
    · rfl
    · exact pairedLoop_result logFp _ _ _ _ p _
  rw [Act.bind_result, hfind]
  rcases (if (some t).isSome ∧ paired.isSome then
      BtTrust.findTrustedPairedDevice w.detectedMem (some t) numDevices paired numPaired none
    else .ok ⟨false, none⟩ : Except Fault Login) with e | login
  · rfl
  rw [ok_bind, Act.bind_result, report_result]
  rfl

lemma bluetoothLogin_result (T : Times) (w : World) (dir user : Option Str) :
    (bluetoothLogin logFp T w dir user).result = BtTrust.bluetoothLogin w dir user := by
  unfold bluetoothLogin BtTrust.bluetoothLogin
  rw [Act.bind_result, Act.call_id_result]
  rcases getPairedDevices w.pairMem w.bus 0 with e | ⟨paired, numPaired⟩
  · rfl
  simp only [ok_bind, Act.bind_result, findTrustedDevices_result]
  rcases BtTrust.findTrustedDevices w dir user with e | ⟨trusted, numDevices⟩
  · rfl
  simp only [ok_bind]
  by_cases h : trusted.isSome = true
  · simp only [Act.call_id_result, Act.pure_result]
    rw [if_pos h, compareLists_result logFp T w numDevices paired numPaired h]
    rfl
  · simp only [Act.call_id_result, Act.pure_result]
    rw [if_neg h, if_neg fun hboth => h hboth.1]
    rfl

end

lemma execChild_fate (E : Spawn) (T : Times) (btAddr : Option Str) (username : Str) (logFp : Bool)
    (dir : Str) :
    fate (execChild E T btAddr username logFp dir).result =
      PostAuth.execChild E btAddr username logFp dir := by
  have hgiveUp : ∀ e code, fate (giveUp logFp e code).result = PostAuth.giveUp logFp code := by
    intro e code
    cases logFp <;> rfl
  obtain ⟨b, hb, -⟩ := getLoginTime_eq T.childStack T.child
  obtain ⟨b', hb'⟩ : ∃ b', (if logFp then
      Act.call Fate.crashed (getLoginTime (timeBuf T.childStack) T.child)
    else pure (timeBuf T.childStack) : Act Entry Fate Buf) = pure b' := by
    cases logFp
    · exact ⟨_, rfl⟩
    · exact ⟨b, by rw [hb]; rfl⟩
  rw [execChild, hb', Act.pure_bind, PostAuth.execChild]
  split_ifs with hmem
  · rw [deauthPath_eq, Act.call_ok, Act.pure_bind]
    rcases E.getpwnam username with _ | pwUid
    · exact hgiveUp _ _
    · simp only
      split_ifs
      · rfl
      · rfl
      · exact hgiveUp _ _
  · exact hgiveUp _ _

/-- Both processes come to the same ends as without the log. -/
theorem pamSmAuthenticate_fates (A : Auth) (T : Times) :
    PostAuth.pamSmAuthenticate A = ((pamSmAuthenticate A T).caller.fate,
      (pamSmAuthenticate A T).child.map Trail.fate) := by
  unfold PostAuth.pamSmAuthenticate pamSmAuthenticate
  rcases A.user with _ | username
  · rfl
  simp only [bluetoothLogin_result]
  rcases BtTrust.bluetoothLogin A.world (some trustedDirPath) (some username) with fault | login
  · rfl
  rcases hstatus : login.status with _ | _
  · simp [hstatus]
  · cases hfork : A.spawn.fork <;>
      simp [hstatus, hfork, execDeauth, afterExec, execChild_fate]

end ProxyAuth.LogFile
