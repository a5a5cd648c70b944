import ProxyAuth.LogFile

/-!
What the log of the login says.

A login that succeeds leaves its lines once, or twice where a child comes back from a failure. A
login that is refused leaves a line unless a file was opened that no list was made of.
-/

namespace ProxyAuth.LogLines

open ProxyAuth.Control ProxyAuth.CString ProxyAuth.Getline ProxyAuth.Sec ProxyAuth.BtMisc
open ProxyAuth.BtPair ProxyAuth.FileName ProxyAuth.BtTrust ProxyAuth.Login ProxyAuth.PostAuth
open ProxyAuth.Stdio ProxyAuth.LogFile

variable {φ : Type}

/-! ### A login that succeeds -/

def loginTime (T : Times) : Str := T.login.text.take (T.login.text.len - 1)

def childTime (T : Times) : Str := T.child.text.take (T.child.text.len - 1)

/-- What a login prints that finds `dev`. -/
def story (T : Times) (dev : Str) (detected : Option Str) : List Entry :=
  [.callFindDevice (loginTime T), .trustedDevice dev] ++
    (detected.map (.deviceFound (loginTime T))).toList ++ [.viaProxy]

/-- The line of a child that fails. -/
def childError (E : Spawn) (T : Times) (username : Str) : Entry :=
  if E.pathMem then
    match E.getpwnam username with
    | none => .getpwnamError (childTime T) username
    | some _ => .execlError (childTime T)
  else .mallocError (childTime T)

/-- A piece that delivers a file prints nothing, and one that does not prints why. -/
def Explains (x : Logged (Option φ)) : Prop :=
  (∃ e, x.events = [e] ∧ x.result = .ok none) ∨ ∃ f, x.events = [] ∧ x.result = .ok (some f)

lemma explains_refuse (e : Entry) : Explains (refuse true e : Logged (Option φ)) :=
  .inl ⟨e, rfl, rfl⟩

lemma explains_findTrustedFile (lim : Limits) (stack : ℕ → Byte) (ops : FileOps φ)
    (dir user : Str) :
    Explains (LogFile.findTrustedFile true lim stack ops (some dir) (some user)) := by
  have hpath : fileName lim stack dir user = .ok (trustedPath lim dir user) :=
    fileName_eq lim stack dir user
  rw [LogFile.findTrustedFile]
  rcases checkConfig (ops.lstatDir dir) ops.dirStale 1 with c | ⟨⟩
  · exact explains_refuse _
  simp only [LogFile.getTrustedDevFile, hpath, Act.call_ok, Act.pure_bind]
  rcases checkConfig (ops.lstatFile (trustedPath lim dir user)) ops.fileStale 0 with c | ⟨⟩
  · exact explains_refuse _
  · rcases ops.fopen (trustedPath lim dir user) with _ | f
    · exact explains_refuse _
    · exact .inr ⟨f, rfl, rfl⟩

/-- The list made of a file prints nothing. -/
lemma findTrustedDevices_events (logFp : Bool) (w : World) (dir user : Option Str) :
    (LogFile.findTrustedDevices logFp w dir user).events =
      (LogFile.findTrustedFile logFp w.limits w.stack w.files dir user).events := by
  rw [LogFile.findTrustedDevices]
  rcases hres : (LogFile.findTrustedFile logFp w.limits w.stack w.files dir user).result with
    e | _ | f
  · rw [Act.bind_of_error hres]
  · rw [Act.bind_of_ok hres]
    exact List.append_nil _
  · rw [Act.bind_of_ok hres]
    simp only
    split_ifs
    · exact List.append_nil _
    · exact List.append_nil _
    · rcases setTrustedDevices w.lineMem w.entryMem f.filled _ _ <;> exact List.append_nil _

/-- The search prints the device that it finds. -/
lemma pairedLoop_found {trusted : Option (List Slot)} {num : ℤ} {alloc : Bool} {l : List Slot}
    {k : ℕ} {login : Login}
    (h : (LogFile.pairedLoop true trusted num alloc none l k).result = .ok login)
    (hstatus : login.status = true) :
    ∃ d, .str d ∈ l ∧
      (LogFile.pairedLoop true trusted num alloc none l k).events = [.trustedDevice d] ∧
      login.detected = if alloc then some (copyMac d.bytes) else none := by
  induction l generalizing k with
  | nil =>
    rcases k with _ | k
    · obtain rfl := Except.ok.inj h
      cases hstatus
    · cases h
  | cons s ss ih =>
    rcases k with _ | k
    · obtain rfl := Except.ok.inj h
      cases hstatus
    rw [LogFile.pairedLoop] at h ⊢
    rcases hs : s.read with e | dev
    · rw [hs] at h
      cases h
    simp only [hs, Act.call_ok, Act.pure_bind] at h ⊢
    rcases hd : isDevTrusted dev trusted num with e | found
    · rw [hd] at h
      cases h
    simp only [hd, Act.call_ok, Act.pure_bind] at h ⊢
    cases found
    · obtain ⟨d, hmem, hrest⟩ := ih h
      exact ⟨d, List.mem_cons_of_mem _ hmem, hrest⟩
    · rcases dev with _ | d
      · cases h
      · obtain rfl := Except.ok.inj h
        refine ⟨d, ?_, rfl, rfl⟩
        cases s with
        | unwritten => cases hs
        | null => cases hs
        | str t =>
          obtain rfl := Option.some.inj (Except.ok.inj hs)
          exact List.mem_cons_self

/-- Every string in the list of connected devices is cut at 17 bytes. -/
lemma len_le_of_paired {mem : Mem} {bus : Bus} {num num' : ℤ} {l : List Slot} {d : Str}
    (h : getPairedDevices mem bus num = .ok (some l, num')) (hd : .str d ∈ l) :
    d.len ≤ btMacLen := by
  rcases bus with _ | _ | objects
  · cases h
  · cases h
  rcases harray : mem.array with _ | _
  · simp [getPairedDevices, processDbusBtList, harray] at h
  have hkept := processDbusBtList_kept harray objects num
  rw [getPairedDevices] at h
  split_ifs at hkept
  · obtain ⟨slots, hslots, hpre⟩ := hkept
    obtain rfl : slots = l := by
      rw [hslots] at h
      exact Option.some.inj (congrArg Prod.fst (Except.ok.inj h))
    rw [hpre.eq, List.mem_append] at hd
    rcases hd with hd | hd
    · simp only [List.mem_map] at hd
      obtain ⟨_, ⟨a, -, rfl⟩, hd⟩ := hd
      obtain rfl := Slot.str.inj hd
      rw [Str.len_take]
      exact min_le_left _ _
    · cases List.eq_of_mem_replicate hd
  · rw [hkept] at h
    cases h

lemma getLoginTime_login (T : Times) :
    ∃ b, getLoginTime (timeBuf T.loginStack) T.login = .ok b ∧ ofBuf b = loginTime T :=
  getLoginTime_eq T.loginStack T.login

lemma getLoginTime_child (T : Times) :
    ∃ b, getLoginTime (timeBuf T.childStack) T.child = .ok b ∧ ofBuf b = childTime T :=
  getLoginTime_eq T.childStack T.child

/-- What the comparison prints when it finds a device. -/
lemma compareLists_found {T : Times} {w : World} {trusted paired : Option (List Slot)}
    {num numPaired : ℤ} {login : Login}
    (h : (compareLists true T w trusted num paired numPaired).result = .ok login)
    (hstatus : login.status = true) :
    ∃ l d, paired = some l ∧ .str d ∈ l ∧
      login.detected = (if w.detectedMem then some (copyMac d.bytes) else none) ∧
      (compareLists true T w trusted num paired numPaired).events =
        [.callFindDevice (loginTime T), .trustedDevice d] ++
          (login.detected.map (.deviceFound (loginTime T))).toList := by
  obtain ⟨b, hb, htime⟩ := getLoginTime_login T
  simp only [compareLists, hb, Act.call_ok, Act.pure_bind, htime] at h ⊢
  obtain ⟨-, -, h⟩ := Act.bind_result_ok.mp h
  obtain ⟨found, hfound, h⟩ := Act.bind_result_ok.mp h
  obtain ⟨-, -, h⟩ := Act.bind_result_ok.mp h
  obtain rfl : found = login := Except.ok.inj h
  rcases paired with _ | l
  · obtain rfl := Except.ok.inj hfound
    cases hstatus
  rcases trusted with _ | t
  · obtain rfl := Except.ok.inj hfound
    cases hstatus
  obtain ⟨d, hmem, hevents, hdetected⟩ := pairedLoop_found hfound hstatus
  refine ⟨l, d, rfl, hmem, hdetected, ?_⟩
  have hreport : (report true (loginTime T) found).events =
      (found.detected.map (.deviceFound (loginTime T))).toList := by
    rw [report, if_pos hstatus]
    rcases found.detected with _ | dev <;> rfl
  rw [Act.bind_of_ok (Act.emitIf_result _ _), Act.bind_of_ok hfound,
    Act.bind_of_ok (report_result true _ _), hreport]
  change [.callFindDevice (loginTime T)] ++
    ((LogFile.pairedLoop true (some t) num w.detectedMem none l numPaired.toNat).events ++ _) = _
  rw [hevents, Act.pure_events, List.append_nil]
  rfl

/-- What `bluetooth_login` prints: why there is no file, or what the comparison prints. -/
lemma bluetoothLogin_events {logFp : Bool} {T : Times} {w : World} {dir user : Option Str}
    {login : Login} (h : (LogFile.bluetoothLogin logFp T w dir user).result = .ok login) :
    ∃ paired numPaired trusted num, getPairedDevices w.pairMem w.bus 0 = .ok (paired, numPaired) ∧
      BtTrust.findTrustedDevices w dir user = .ok (trusted, num) ∧
      (LogFile.bluetoothLogin logFp T w dir user).events =
        (LogFile.findTrustedFile logFp w.limits w.stack w.files dir user).events ++
          (if trusted.isSome then (compareLists logFp T w trusted num paired numPaired).events
            else []) ∧
      (if trusted.isSome then
        (compareLists logFp T w trusted num paired numPaired).result = .ok login
      else login = ⟨false, none⟩) := by
  unfold LogFile.bluetoothLogin at h ⊢
  obtain ⟨⟨paired, numPaired⟩, hpaired, h⟩ := Act.bind_result_ok.mp h
  rw [Act.bind_of_ok hpaired, Act.call_events, List.nil_append]
  obtain ⟨⟨trusted, num⟩, htrusted, h⟩ := Act.bind_result_ok.mp h
  dsimp only
  rw [Act.bind_of_ok htrusted, findTrustedDevices_events]
  obtain ⟨found, hfound, h⟩ := Act.bind_result_ok.mp h
  dsimp only
  rw [Act.bind_of_ok hfound]
  obtain ⟨_, hfree, h⟩ := Act.bind_result_ok.mp h
  rw [Act.bind_of_ok hfree]
  obtain ⟨_, hfree', h⟩ := Act.bind_result_ok.mp h
  rw [Act.bind_of_ok hfree']
  obtain rfl : found = login := Except.ok.inj h
  refine ⟨paired, numPaired, trusted, num, (Act.call_id_result _).symm.trans hpaired,
    (findTrustedDevices_result logFp w dir user).symm.trans htrusted, ?_, ?_⟩
  · simp only [Act.call_events, Act.pure_events, List.append_nil]
    split_ifs <;> rfl
  · split_ifs with hsome
    · rwa [if_pos hsome] at hfound
    · rw [if_neg hsome] at hfound
      exact (Except.ok.inj hfound).symm

variable {A : Auth} {T : Times} {username : Str} {login : Login}

/-- A login that succeeds prints its story, and nothing else. -/
lemma before_of_loggedIn (h : LoggedIn A username login) (hlog : A.logFp = true) (T : Times) :
    ∃ dev, dev.len ≤ btMacLen ∧
      login.detected = (if A.world.detectedMem then some dev else none) ∧
      (LogFile.pamSmAuthenticate A T).before = story T dev login.detected := by
  obtain ⟨huser, hlogin, hstatus⟩ := h
  rw [← bluetoothLogin_result true T] at hlogin
  obtain ⟨paired, numPaired, trusted, num, hpaired, htrusted, hevents, hcompare⟩ :=
    bluetoothLogin_events hlogin
  rcases trusted with _ | t
  · obtain rfl := hcompare
    cases hstatus
  obtain ⟨l, d, rfl, hmem, hdetected, hcompared⟩ := compareLists_found hcompare hstatus
  have hlen := len_le_of_paired hpaired hmem
  rw [copyMac_bytes, Str.take_of_len_le hlen] at hdetected
  have hopened : (LogFile.findTrustedFile true A.world.limits A.world.stack A.world.files
      (some trustedDirPath) (some username)).events = [] := by
    rcases explains_findTrustedFile A.world.limits A.world.stack A.world.files trustedDirPath
      username with ⟨e, -, hnone⟩ | ⟨f, hnil, -⟩
    · rw [findTrustedFile_result] at hnone
      rw [findTrustedDevices_unopened hnone] at htrusted
      cases htrusted
    · exact hnil
  refine ⟨d, hlen, hdetected, ?_⟩
  simp only [LogFile.pamSmAuthenticate, huser, hlog, hlogin, hstatus, if_true]
  rw [hevents, hopened, List.nil_append]
  simp only [Option.isSome_some, if_true, hcompared]
  rfl

def childTrail (E : Spawn) (T : Times) (btAddr : Option Str) (username : Str) : Trail :=
  let y := LogFile.execChild E T btAddr username true trustedDirPath
  ⟨y.events, afterExec (fate y.result)⟩

/-- The child prints what it fails over, or nothing if it becomes the server. -/
lemma childTrail_writer (E : Spawn) (T : Times) (btAddr : Option Str) (username : Str) :
    (Launches E username ∧ (childTrail E T btAddr username).writer = ⟨[], false⟩) ∨
      (¬ Launches E username ∧ (childTrail E T btAddr username).writer =
        ⟨[(childError E T username).text.bytes], true⟩) := by
  obtain ⟨b, hb, htime⟩ := getLoginTime_child T
  simp only [childTrail, LogFile.execChild, if_true, hb, Act.call_ok, Act.pure_bind,
    deauthPath_eq, htime]
  by_cases hmem : E.pathMem = true
  · rcases hpw : E.getpwnam username with _ | pwUid
    · refine .inr ⟨fun h => ?_, ?_⟩
      · obtain ⟨pwUid, h⟩ := h.2.1
        rw [hpw] at h
        cases h
      · simp only [if_pos hmem, childError, hpw]
        rfl
    · by_cases hexec : E.execl (trustedDirPath ++ deauth) = true
      · refine .inl ⟨⟨hmem, ⟨pwUid, hpw⟩, hexec⟩, ?_⟩
        simp only [if_pos hmem, if_pos hexec]
        rfl
      · refine .inr ⟨fun h => hexec h.2.2, ?_⟩
        simp only [if_pos hmem, if_neg hexec, childError, hpw]
        rfl
  · refine .inr ⟨fun h => hmem h.1, ?_⟩
    simp only [if_neg hmem, childError]
    rfl

lemma flatten_text (es : List Entry) : (es.map fun e => e.text.bytes).flatten = bytes es := rfl

@[simp] lemma length_bytes_cons (e : Entry) (es : List Entry) :
    (bytes (e :: es)).length = e.text.len + (bytes es).length := by
  rw [bytes, List.flatMap_cons, List.length_append, ← bytes, Str.len]

/-- The story of a login is short. -/
lemma length_story (T : Times) {dev : Str} (hdev : dev.len ≤ btMacLen) {detected : Option Str}
    (hdetected : ∀ d, detected = some d → d = dev) :
    (bytes (story T dev detected)).length ≤ 256 := by
  have htime : (loginTime T).len ≤ 49 := by
    have := T.login.fits
    rw [loginTime, Str.len_take]
    omega
  have hcall : (Entry.callFindDevice (loginTime T)).text.len = (loginTime T).len + 19 := by
    rw [Entry.text, Str.len_append, show (lit ": Call find device\n").len = 19 by decide]
  have htrusted : (Entry.trustedDevice dev).text.len = dev.len + 17 := by
    rw [Entry.text, Str.len_append, Str.len_append,
      show (lit "Trusted Device: ").len = 16 by decide, show (lit "\n").len = 1 by decide]
    omega
  have hfound : (Entry.deviceFound (loginTime T) dev).text.len =
      (loginTime T).len + dev.len + 16 := by
    rw [Entry.text, Str.len_append, Str.len_append, Str.len_append,
      show (lit ": Device ").len = 9 by decide, show (lit " found\n").len = 7 by decide]
    omega
  have hvia : Entry.viaProxy.text.len = 21 := by decide
  unfold btMacLen at hdev
  rcases detected with _ | d
  · simp only [story, Option.map_none, Option.toList_none, List.append_nil, List.cons_append,
      List.nil_append, length_bytes_cons, hcall, htrusted, hvia]
    change _ + (_ + (_ + 0)) ≤ 256
    omega
  · obtain rfl := hdetected d rfl
    simp only [story, Option.map_some, Option.toList_some, List.cons_append, List.nil_append,
      length_bytes_cons, hcall, htrusted, hfound, hvia]
    change _ + (_ + (_ + (_ + 0))) ≤ 256
    omega

lemma pamSmAuthenticate_of_loggedIn (h : LoggedIn A username login) (hlog : A.logFp = true)
    (T : Times) :
    (LogFile.pamSmAuthenticate A T).caller = ⟨[], .returned .success⟩ ∧
      (LogFile.pamSmAuthenticate A T).child =
        if A.spawn.fork then some (childTrail A.spawn T login.detected username) else none := by
  obtain ⟨huser, hlogin, hstatus⟩ := h
  rw [← bluetoothLogin_result A.logFp T] at hlogin
  rw [LogFile.pamSmAuthenticate, huser]
  simp only [hlogin]
  rw [if_pos hstatus, hlog]
  exact ⟨rfl, rfl⟩

/-- **The log of a login.** With a buffer of at least 256 bytes, the log gains the lines of the
login once, unless a child comes back from a failure: then each of the two processes prints all of
them, and the child a line more. -/
theorem log_of_login (h : LoggedIn A username login) (hlog : A.logFp = true) (T : Times) {size : ℕ}
    (hsize : 256 ≤ size) :
    ∃ dev, login.detected = (if A.world.detectedMem then some dev else none) ∧
      (ChildLeaves A username → ∀ file, (LogFile.pamSmAuthenticate A T).Gains size file ↔
        file = bytes (story T dev login.detected)) ∧
      (¬ ChildLeaves A username → ∀ file, (LogFile.pamSmAuthenticate A T).Gains size file ↔
        Merge (bytes (story T dev login.detected))
          (bytes (story T dev login.detected ++ [childError A.spawn T username])) file) := by
  obtain ⟨dev, hlen, hdetected, hbefore⟩ := before_of_loggedIn h hlog T
  obtain ⟨hcaller, hchild⟩ := pamSmAuthenticate_of_loggedIn h hlog T
  have hfits : ((story T dev login.detected).map fun e => e.text.bytes).flatten.length ≤ size := by
    refine (length_story T hlen fun d hd => ?_).trans hsize
    rw [hdetected] at hd
    split_ifs at hd
    exact (Option.some.inj hd).symm
  have hgains : ∀ file, (LogFile.pamSmAuthenticate A T).Gains size file ↔
      Stdio.Gains size ((story T dev login.detected).map fun e => e.text.bytes) ⟨[], true⟩
        ((if A.spawn.fork then some (childTrail A.spawn T login.detected username)
          else none).map Trail.writer) file := fun file => by
    rw [Trails.Gains, hcaller, hchild, hbefore]
    rfl
  have halone : ((story T dev login.detected).map fun e => e.text.bytes).flatten ++
      Writer.all ⟨[], true⟩ = bytes (story T dev login.detected) := by
    rw [flatten_text]
    exact List.append_nil _
  refine ⟨dev, hdetected, fun hleaves file => ?_, fun hstays file => ?_⟩
  · rw [hgains, ← halone]
    rcases hfork : A.spawn.fork with _ | _
    · exact gains_alone rfl
    · rcases childTrail_writer A.spawn T login.detected username with ⟨-, hw⟩ | ⟨hno, -⟩
      · rw [if_pos rfl, Option.map_some, hw, gains_forked rfl hfits fun _ => rfl,
          ← Merge.nil_right_iff]
        rfl
      · rcases hleaves with hf | hl | hl
        · rw [hfork] at hf
          cases hf
        · rw [hlog] at hl
          cases hl
        · exact absurd hl hno
  · rw [hgains]
    simp only [ChildLeaves, not_or, Bool.not_eq_false] at hstays
    rw [if_pos hstays.1, Option.map_some]
    rcases childTrail_writer A.spawn T login.detected username with ⟨hl, -⟩ | ⟨-, hw⟩
    · exact absurd hl hstays.2.2
    · rw [hw, gains_forked rfl hfits (fun h => by cases h), halone, flatten_text, if_pos rfl]
      have hall : Writer.all ⟨[(childError A.spawn T username).text.bytes], true⟩ =
          bytes [childError A.spawn T username] := rfl
      rw [hall, bytes, bytes, bytes, List.flatMap_append]

def usualTime : Asctime := ⟨lit "Wed Apr  1 00:34:23 2020\n", by decide, by decide⟩

def usualTimes : Times := ⟨usualTime, fun _ => 0, usualTime, fun _ => 0⟩

/-- The child does not find the user in the password database. -/
theorem log_of_unknown_user :
    ∃ dev, some phone = some dev ∧ ∀ file,
      (LogFile.pamSmAuthenticate (phoneAuth { smoothSpawn with getpwnam := fun _ => none })
        usualTimes).Gains 256 file ↔
        Merge (bytes (story usualTimes dev (some phone)))
          (bytes (story usualTimes dev (some phone) ++
            [.getpwnamError (childTime usualTimes) (lit "zaku")])) file := by
  have hstays : ¬ ChildLeaves (phoneAuth { smoothSpawn with getpwnam := fun _ => none })
      (lit "zaku") := by
    rintro (h | h | ⟨-, ⟨uid, h⟩, -⟩)
    · cases h
    · cases h
    · cases h
  obtain ⟨dev, hdev, -, htwice⟩ := log_of_login (phoneAuth_loggedIn _) rfl usualTimes le_rfl
  exact ⟨dev, hdev, htwice hstays⟩

/-! ### A login that is refused -/

lemma text_ne_nil (e : Entry) : e.text.bytes ≠ [] := by
  have hlast : (10 : Byte) ∈ e.text.bytes := by
    have hlit : ∀ s t : Str, (10 : Byte) ∈ t.bytes → (10 : Byte) ∈ (s ++ t).bytes :=
      fun s t h => List.mem_append_right _ h
    cases e with
    | complaint file c => cases c <;> exact hlit _ _ (by decide)
    | noUsername | viaProxy => decide
    | _ => exact hlit _ _ (by decide)
  exact List.ne_nil_of_mem hlast

lemma bytes_eq_nil {es : List Entry} : bytes es = [] ↔ es = [] := by
  rw [bytes, List.flatMap_eq_nil_iff]
  constructor
  · intro h
    rcases es with _ | ⟨e, es⟩
    · rfl
    · exact absurd (h e List.mem_cons_self) (text_ne_nil e)
  · rintro rfl
    simp

/-- No list is made of an open file. -/
def Unlisted (w : World) (f : TrustedFile) : Prop :=
  getNumLines w.lineMem f.counted ≤ 0 ∨ w.arrayMem = false

lemma unlisted_iff {w : World} {dir user : Option Str} {f : TrustedFile}
    {trusted : Option (List Slot)} {num : ℤ}
    (hfile : BtTrust.findTrustedFile w.limits w.stack w.files dir user = .ok (some f))
    (h : BtTrust.findTrustedDevices w dir user = .ok (trusted, num)) :
    Unlisted w f ↔ trusted = none := by
  simp only [BtTrust.findTrustedDevices, hfile, ok_bind] at h
  unfold Unlisted
  split_ifs at h with hzero hnone
  · cases h
    simp [hzero]
  · cases h
    exact iff_of_true (hnone.imp_left le_of_lt) rfl
  · obtain ⟨slots, -, h⟩ := bind_eq_ok.mp h
    cases h
    rw [not_or] at hnone
    refine iff_of_false (fun hle => ?_) (by simp)
    rcases hle with hle | hmem
    · omega
    · exact hnone.2 hmem

lemma gains_nil_of_refused {size : ℕ} (es : List Entry) :
    (Trails.mk es ⟨[], .returned .authErr⟩ none).Gains size [] ↔ es = [] := by
  rw [← bytes_eq_nil]
  refine (gains_alone rfl).trans ?_
  rw [flatten_text, eq_comm]
  exact iff_of_eq (congrArg (· = _) (List.append_nil _))

/-- A login that fails with a list of trusted devices prints that none was found. -/
lemma events_of_failed {w : World} {user : Str} (T : Times)
    (h : (LogFile.bluetoothLogin true T w (some trustedDirPath) (some user)).result = .ok login) :
    (LogFile.bluetoothLogin true T w (some trustedDirPath) (some user)).events = [] ↔
      ∃ f, BtTrust.findTrustedFile w.limits w.stack w.files (some trustedDirPath) (some user) =
        .ok (some f) ∧ Unlisted w f := by
  obtain ⟨paired, numPaired, trusted, num, -, htrusted, hevents, -⟩ := bluetoothLogin_events h
  rw [hevents, List.append_eq_nil_iff]
  have hexplains := explains_findTrustedFile w.limits w.stack w.files trustedDirPath user
  rw [Explains, findTrustedFile_result] at hexplains
  rcases hexplains with ⟨e, hsaid, hnone⟩ | ⟨f, hsilent, hopened⟩
  · refine iff_of_false (by simp [hsaid]) ?_
    rintro ⟨f, hsome, -⟩
    rw [hnone] at hsome
    cases hsome
  · have hcompare : (if trusted.isSome then
        (compareLists true T w trusted num paired numPaired).events else []) = [] ↔
          trusted = none := by
      rcases trusted with _ | t
      · simp
      · refine iff_of_false (fun hnil => ?_) (by simp)
        obtain ⟨b, hb, -⟩ := getLoginTime_login T
        simp only [Option.isSome_some, if_true, compareLists, hb, Act.call_ok,
          Act.pure_bind] at hnil
        rw [Act.bind_of_ok (Act.emitIf_result _ _)] at hnil
        cases hnil
    rw [hcompare, ← unlisted_iff hopened htrusted]
    constructor
    · exact fun hun => ⟨f, hopened, hun.2⟩
    · rintro ⟨f', hopened', hun⟩
      rw [hopened] at hopened'
      obtain rfl := Option.some.inj (Except.ok.inj hopened')
      exact ⟨hsilent, hun⟩

/-- **Silent refusals.** A login that is refused leaves no line in the log exactly when the file
of the user was opened, but no list was made of it. -/
theorem silent_iff (hlog : A.logFp = true) (T : Times) (size : ℕ)
    (h : (PostAuth.pamSmAuthenticate A).1 = .returned .authErr) :
    (LogFile.pamSmAuthenticate A T).Gains size [] ↔ ∃ username f, A.user = some username ∧
      BtTrust.findTrustedFile A.world.limits A.world.stack A.world.files (some trustedDirPath)
        (some username) = .ok (some f) ∧ Unlisted A.world f := by
  have hfate : (LogFile.pamSmAuthenticate A T).caller.fate = .returned .authErr := by
    rwa [pamSmAuthenticate_fates A T] at h
  unfold LogFile.pamSmAuthenticate at hfate ⊢
  rcases huser : A.user with _ | username
  · simp only [hlog, if_true]
    refine (gains_nil_of_refused _).trans (iff_of_false (by simp) ?_)
    rintro ⟨username, f, hnone, -⟩
    cases hnone
  simp only [huser, hlog] at hfate ⊢
  rcases hres : (LogFile.bluetoothLogin true T A.world (some trustedDirPath)
    (some username)).result with fault | login
  · simp only [hres] at hfate
    cases hfate
  simp only [hres] at hfate ⊢
  by_cases hstatus : login.status = true
  · rw [if_pos hstatus] at hfate
    cases hfate
  · rw [if_neg hstatus, gains_nil_of_refused, events_of_failed T hres]
    constructor
    · rintro ⟨f, hf⟩
      exact ⟨username, f, rfl, hf⟩
    · rintro ⟨_, f, hsame, hf⟩
      obtain rfl := Option.some.inj hsame
      exact ⟨f, hf⟩

/-- The login of the user of the phone, without memory for the list. -/
def forgetfulAuth : Auth :=
  ⟨true, some (lit "zaku"), { phoneWorld with bus := .noBus, arrayMem := false }, smoothSpawn⟩

lemma forgetfulAuth_opened :
    BtTrust.findTrustedFile forgetfulAuth.world.limits forgetfulAuth.world.stack
      forgetfulAuth.world.files (some trustedDirPath) (some (lit "zaku")) =
        .ok (some ⟨phoneFile, phoneFile⟩) := by
  have hdir : ret (checkConfig (.found ⟨0x41ED#32, 0⟩) ⟨0#32, 0⟩ 1) = 1 := by decide
  have hfile : ret (checkConfig (.found ⟨0x8180#32, 0⟩) ⟨0#32, 0⟩ 0) = 1 := by decide
  rw [findTrustedFile_eq]
  simp [forgetfulAuth, phoneWorld, hdir, hfile]

theorem silent_without_memory :
    (LogFile.pamSmAuthenticate forgetfulAuth usualTimes).Gains 256 [] := by
  have hunlisted : Unlisted forgetfulAuth.world ⟨phoneFile, phoneFile⟩ := .inr rfl
  obtain ⟨num, hlist⟩ : ∃ num, BtTrust.findTrustedDevices forgetfulAuth.world
      (some trustedDirPath) (some (lit "zaku")) = .ok (none, num) := by
    rw [findTrustedDevices_opened forgetfulAuth_opened, stored]
    split_ifs with hzero hnone
    · exact ⟨_, rfl⟩
    · exact ⟨_, rfl⟩
    · exact absurd (.inr rfl) hnone
  have hlogin : BtTrust.bluetoothLogin forgetfulAuth.world (some trustedDirPath)
      (some (lit "zaku")) = .ok ⟨false, none⟩ := by
    have hbus : forgetfulAuth.world.bus = .noBus := rfl
    simp [BtTrust.bluetoothLogin, hbus, getPairedDevices, hlist, freeDeviceList]
  have huser : forgetfulAuth.user = some (lit "zaku") := rfl
  have hrefused : (PostAuth.pamSmAuthenticate forgetfulAuth).1 = .returned .authErr := by
    simp [PostAuth.pamSmAuthenticate, huser, hlogin]
  exact (silent_iff rfl usualTimes 256 hrefused).mpr ⟨_, _, rfl, forgetfulAuth_opened, hunlisted⟩

end ProxyAuth.LogLines
