import ProxyAuth.LogLines

/-!
Whose lines are in the log.

The name that was asked for stands in the log as it is, in the path of the file and as such. A
name without a newline leaves only lines of the program's own, and with newlines it may leave any
line.
-/

namespace ProxyAuth.Forged

open ProxyAuth.Control ProxyAuth.CString ProxyAuth.Getline ProxyAuth.Stat ProxyAuth.Sec
open ProxyAuth.BtMisc ProxyAuth.BtPair ProxyAuth.FileName ProxyAuth.BtTrust ProxyAuth.Login
open ProxyAuth.PostAuth ProxyAuth.Stdio ProxyAuth.LogFile ProxyAuth.LogLines

/-! ### What is filled in -/

/-- A closed line, in which a newline can only come from the strings that were filled in. -/
def Filled (line : List Byte) (ss : List Str) : Prop :=
  ∃ t, line = t ++ [newline] ∧ (newline ∈ t ↔ ∃ s ∈ ss, newline ∈ s.bytes)

section
variable {line : List Byte} {ss : List Str}

lemma filled_last {s : Str} (h : s.bytes.getLast? = some newline ∧ newline ∉ s.bytes.dropLast) :
    Filled s.bytes [] := by
  obtain ⟨hlast, hno⟩ := h
  refine ⟨s.bytes.dropLast, ?_, iff_of_false hno (by simp)⟩
  exact (List.dropLast_append_getLast? newline hlast).symm

lemma Filled.literal {s : Str} (h : newline ∉ s.bytes) (hline : Filled line ss) :
    Filled (s.bytes ++ line) ss := by
  obtain ⟨t, rfl, ht⟩ := hline
  refine ⟨s.bytes ++ t, (List.append_assoc _ _ _).symm, ?_⟩
  rw [List.mem_append, ← ht]
  exact or_iff_right h

lemma Filled.arg (s : Str) (hline : Filled line ss) : Filled (s.bytes ++ line) (s :: ss) := by
  obtain ⟨t, rfl, ht⟩ := hline
  refine ⟨s.bytes ++ t, (List.append_assoc _ _ _).symm, ?_⟩
  rw [List.mem_append, ht]
  simp

end

/-- The strings that a complaint is filled with. -/
def complaintArgs (file : Str) : Complaint → List Str
  | .ownerPerm perm => [file, lit (toString perm.toNat)]
  | _ => [file]

lemma filled_complaint (file : Str) (c : Complaint) :
    Filled (c.logText file).bytes (complaintArgs file c) := by
  cases c with
  | ownerPerm perm =>
    simp only [Complaint.logText, Complaint.text, Str.bytes_append, List.append_assoc]
    exact .literal (by decide) (.arg file (.literal (by decide) (.arg _ (filled_last (by decide)))))
  | noEntry | isLink | notDirectory | notRegular | groupWrite | otherWrite | notRoot =>
    simp only [Complaint.logText, Complaint.text, Str.bytes_append, List.append_assoc]
    exact .literal (by decide) (.arg file (filled_last (by decide)))

/-- The strings that an entry is filled with. -/
def args : Entry → List Str
  | .noUsername | .viaProxy => []
  | .complaint file c => complaintArgs file c
  | .noFile fileName username => [fileName, username]
  | .callFindDevice currTime => [currTime]
  | .trustedDevice dev => [dev]
  | .deviceFound currTime dev => [currTime, dev]
  | .noneFound currTime bluetoothStatus => [currTime, lit (toString bluetoothStatus)]
  | .mallocError currTime | .execlError currTime => [currTime]
  | .getpwnamError currTime username => [currTime, username]

lemma filled_text (e : Entry) : Filled e.text.bytes (args e) := by
  cases e with
  | complaint file c => exact filled_complaint file c
  | noUsername | viaProxy => exact filled_last (by decide)
  | callFindDevice currTime | mallocError currTime | execlError currTime =>
    exact .arg currTime (filled_last (by decide))
  | trustedDevice dev =>
    simp only [Entry.text, Str.bytes_append, List.append_assoc]
    exact .literal (by decide) (.arg dev (filled_last (by decide)))
  | noFile fileName username =>
    simp only [Entry.text, Str.bytes_append, List.append_assoc]
    exact .literal (by decide) (.arg fileName (.literal (by decide)
      (.arg username (filled_last (by decide)))))
  | deviceFound currTime dev | noneFound currTime s | getpwnamError currTime dev =>
    simp only [Entry.text, Str.bytes_append, List.append_assoc]
    exact .arg currTime (.literal (by decide) (.arg _ (filled_last (by decide))))

lemma notMem_of_line {t : List Byte} (h : Line (t ++ [newline])) : newline ∉ t := by
  generalize hl : t ++ [newline] = l at h
  cases h with
  | @closed t' hno => rwa [List.append_cancel_right hl]
  | last hno => exact absurd (hl ▸ List.mem_append_right t List.mem_cons_self) hno

/-- Each line is an entry exactly where no string that is filled in holds a newline. -/
lemma lines_bytes_iff (es : List Entry) :
    lines (bytes es) = es.map (fun e => e.text.bytes) ↔
      ∀ e ∈ es, ∀ s ∈ args e, newline ∉ s.bytes := by
  constructor
  · intro h e he s hs hmem
    obtain ⟨t, ht, hiff⟩ := filled_text e
    have hline : Line e.text.bytes := by
      apply line_of_mem (c := bytes es)
      rw [h]
      exact List.mem_map_of_mem he
    exact notMem_of_line (ht ▸ hline) (hiff.mpr ⟨s, hs, hmem⟩)
  · intro h
    induction es with
    | nil => rfl
    | cons e es ih =>
      obtain ⟨t, ht, hiff⟩ := filled_text e
      have hno : newline ∉ t := by
        rw [hiff]
        rintro ⟨s, hs, hmem⟩
        exact h e List.mem_cons_self s hs hmem
      rw [bytes, List.flatMap_cons, ← bytes, ht, List.append_assoc, List.singleton_append,
        lines_closed t hno, ih fun e he => h e (List.mem_cons_of_mem _ he), List.map_cons, ht]

/-! ### A login that is refused -/

variable {A : Auth} {T : Times} {user : Str} {login : Login}

lemma mem_refuse {φ : Type} {logFp : Bool} {e e' : Entry}
    (h : e ∈ (refuse logFp e' : Logged (Option φ)).events) : e = e' := by
  unfold refuse at h
  rcases Act.mem_bind_events.mp h with h | ⟨_, -, h⟩
  · exact (Act.mem_emitIf_events.mp h).2
  · cases h

/-- What the search for the file prints names the directory, or the path of the file. -/
lemma mem_findTrustedFile {φ : Type} {logFp : Bool} {lim : Limits} {stack : ℕ → Byte}
    {ops : FileOps φ} {dir : Str} {e : Entry}
    (h : e ∈ (LogFile.findTrustedFile logFp lim stack ops (some dir) (some user)).events) :
    (∃ c, e = .complaint dir c) ∨ (∃ c, e = .complaint (trustedPath lim dir user) c) ∨
      e = .noFile (trustedPath lim dir user) user := by
  have hpath : fileName lim stack dir user = .ok (trustedPath lim dir user) :=
    fileName_eq lim stack dir user
  rw [LogFile.findTrustedFile] at h
  rcases hcheck : checkConfig (ops.lstatDir dir) ops.dirStale 1 with c | ⟨⟩
  · rw [hcheck] at h
    exact .inl ⟨c, mem_refuse h⟩
  simp only [hcheck, LogFile.getTrustedDevFile, hpath, Act.call_ok, Act.pure_bind] at h
  rcases hcheck : checkConfig (ops.lstatFile (trustedPath lim dir user)) ops.fileStale 0 with
    c | ⟨⟩
  · rw [hcheck] at h
    exact .inr (.inl ⟨c, mem_refuse h⟩)
  simp only [hcheck] at h
  rcases hopen : ops.fopen (trustedPath lim dir user) with _ | f
  · rw [hopen] at h
    exact .inr (.inr (mem_refuse h))
  · rw [hopen] at h
    cases h

/-- A search that finds nothing prints nothing. -/
lemma pairedLoop_silent {trusted : Option (List Slot)} {num : ℤ} {alloc : Bool}
    {l : List Slot} {k : ℕ}
    (h : (LogFile.pairedLoop true trusted num alloc none l k).result = .ok login)
    (hstatus : login.status = false) :
    (LogFile.pairedLoop true trusted num alloc none l k).events = [] := by
  induction l generalizing k with
  | nil => cases k <;> rfl
  | cons s ss ih =>
    rcases k with _ | k
    · rfl
    rw [LogFile.pairedLoop] at h ⊢
    rcases hs : s.read with e | dev
    · rfl
    simp only [hs, Act.call_ok, Act.pure_bind] at h ⊢
    rcases hd : isDevTrusted dev trusted num with e | found
    · rfl
    simp only [hd, Act.call_ok, Act.pure_bind] at h ⊢
    cases found
    · exact ih h
    · rcases dev with _ | d
      · rfl
      · obtain rfl := Except.ok.inj h
        cases hstatus

lemma mem_compareLists {w : World} {trusted paired : Option (List Slot)} {num numPaired : ℤ}
    {e : Entry} (h : (compareLists true T w trusted num paired numPaired).result = .ok login)
    (hstatus : login.status = false)
    (he : e ∈ (compareLists true T w trusted num paired numPaired).events) :
    e = .callFindDevice (loginTime T) ∨ e = .noneFound (loginTime T) 0 := by
  obtain ⟨b, hb, htime⟩ := getLoginTime_login T
  simp only [compareLists, hb, Act.call_ok, Act.pure_bind, htime] at h he
  rcases Act.mem_bind_events.mp he with he | ⟨_, -, he⟩
  · exact .inl (Act.mem_emitIf_events.mp he).2
  obtain ⟨-, -, h⟩ := Act.bind_result_ok.mp h
  obtain ⟨found, hfound, h⟩ := Act.bind_result_ok.mp h
  obtain ⟨-, -, h⟩ := Act.bind_result_ok.mp h
  obtain rfl : found = login := Except.ok.inj h
  rcases Act.mem_bind_events.mp he with he | ⟨login', hlogin', he⟩
  · -- The search has found nothing.
    rcases paired with _ | l
    · cases he
    rcases trusted with _ | t
    · cases he
    · change e ∈ (LogFile.pairedLoop true (some t) num w.detectedMem none l _).events at he
      rw [pairedLoop_silent hfound hstatus] at he
      cases he
  · obtain rfl : found = login' := Except.ok.inj (hfound.symm.trans hlogin')
    rcases Act.mem_bind_events.mp he with he | ⟨_, -, he⟩
    · rw [report, hstatus, if_neg Bool.false_ne_true] at he
      exact .inr (Act.mem_emitIf_events.mp he).2
    · cases he

/-- What a refused login prints before anything else could print. -/
def Refusal (A : Auth) (T : Times) (es : List Entry) : Prop :=
  match A.user with
  | none => es = [.noUsername]
  | some user => ∃ login, login.status = false ∧
      (LogFile.bluetoothLogin true T A.world (some trustedDirPath) (some user)).result =
        .ok login ∧
      es = (LogFile.bluetoothLogin true T A.world (some trustedDirPath) (some user)).events

/-- The log gains what a refused login prints, in one piece. -/
lemma gains_of_refused (hlog : A.logFp = true)
    (h : (PostAuth.pamSmAuthenticate A).1 = .returned .authErr) (T : Times) :
    Refusal A T (LogFile.pamSmAuthenticate A T).before ∧
      ∀ size file, (LogFile.pamSmAuthenticate A T).Gains size file ↔
        file = bytes (LogFile.pamSmAuthenticate A T).before := by
  rw [pamSmAuthenticate_fates A T] at h
  unfold LogFile.pamSmAuthenticate at h ⊢
  unfold Refusal
  have hfile : ∀ (es : List Entry) (size : ℕ) (file : List Byte),
      (Trails.mk es ⟨[], .returned .authErr⟩ none).Gains size file ↔ file = bytes es := by
    intro es size file
    refine (gains_alone rfl).trans (iff_of_eq (congrArg (file = ·) ?_))
    rw [flatten_text]
    exact List.append_nil _
  rcases huser : A.user with _ | user
  · simp only [hlog, if_true]
    exact ⟨trivial, hfile _⟩
  simp only [huser, hlog] at h ⊢
  rcases hres : (LogFile.bluetoothLogin true T A.world (some trustedDirPath) (some user)).result
    with fault | login
  · rw [hres] at h
    cases h
  simp only [hres] at h ⊢
  by_cases hstatus : login.status = true
  · rw [if_pos hstatus] at h
    cases h
  · rw [if_neg hstatus]
    exact ⟨⟨login, Bool.eq_false_of_not_eq_true hstatus, rfl, rfl⟩, hfile _⟩

lemma newline_notMem_path {lim : Limits} (h : newline ∉ user.bytes) :
    newline ∉ (trustedPath lim trustedDirPath user).bytes := by
  rw [trustedPath, Str.bytes_append, List.mem_append, not_or]
  have hdir : newline ∉ trustedDirPath.bytes := by decide
  exact ⟨fun hmem => hdir (List.mem_of_mem_take hmem), fun hmem => h (List.mem_of_mem_take hmem)⟩

lemma newline_notMem_toString (n : ℕ) : newline ∉ (lit (toString n)).bytes := by
  intro h
  obtain ⟨c, hc, heq⟩ := List.mem_map.mp ((List.takeWhile_prefix _).subset h)
  rw [Nat.toString_eq_repr, Nat.toList_repr] at hc
  have hdigit : c.isDigit = true := Nat.isDigit_of_mem_toDigits (by decide) (by decide) hc
  have hrange : 48 ≤ c.toNat ∧ c.toNat ≤ 57 := by
    simpa [Char.isDigit, UInt32.le_iff_toNat_le] using hdigit
  have hten : c.toNat % 256 = 10 := congrArg UInt8.toNat heq
  omega

lemma newline_notMem_complaint {f s : Str} (h : newline ∉ f.bytes) {c : Complaint}
    (hs : s ∈ complaintArgs f c) : newline ∉ s.bytes := by
  cases c with
  | ownerPerm perm =>
    rcases List.mem_pair.mp hs with rfl | rfl
    · exact h
    · exact newline_notMem_toString _
  | noEntry | isLink | notDirectory | notRegular | groupWrite | otherWrite | notRoot =>
    rwa [List.mem_singleton.mp hs]

/-- A login under a name that there is no file for. -/
def strangerAuth (user : Str) : Auth :=
  ⟨true, some user, { phoneWorld with
    bus := .noBus
    files := { phoneWorld.files with lstatFile := fun _ => .failed enoent } }, smoothSpawn⟩

lemma strangerAuth_refused (user : Str) :
    (PostAuth.pamSmAuthenticate (strangerAuth user)).1 = .returned .authErr := by
  have hcheck : ret (checkConfig (.failed enoent) (strangerAuth user).world.files.fileStale 0) =
      0 := rfl
  have hfile : BtTrust.findTrustedFile (strangerAuth user).world.limits
      (strangerAuth user).world.stack (strangerAuth user).world.files (some trustedDirPath)
        (some user) = .ok none := by
    rw [findTrustedFile_eq, if_pos (.inr hcheck)]
  have hlogin : BtTrust.bluetoothLogin (strangerAuth user).world (some trustedDirPath)
      (some user) = .ok ⟨false, none⟩ := by
    have hbus : (strangerAuth user).world.bus = .noBus := rfl
    simp [BtTrust.bluetoothLogin, hbus, getPairedDevices, findTrustedDevices_unopened hfile,
      freeDeviceList]
  have huser : (strangerAuth user).user = some user := rfl
  simp [PostAuth.pamSmAuthenticate, huser, hlogin]

/-- **The program's own lines.** A name without a newline, and the time as `asctime` gives it, leave
the entries of a refused login as the lines of the log. -/
theorem lines_of_refused (hlog : A.logFp = true)
    (h : (PostAuth.pamSmAuthenticate A).1 = .returned .authErr)
    (htime : newline ∉ (loginTime T).bytes)
    (hname : ∀ user, A.user = some user → newline ∉ user.bytes) (size : ℕ) :
    ∃ file, (∀ file', (LogFile.pamSmAuthenticate A T).Gains size file' ↔ file' = file) ∧
      lines file = (LogFile.pamSmAuthenticate A T).before.map fun e => e.text.bytes := by
  obtain ⟨hrefusal, hgains⟩ := gains_of_refused hlog h T
  refine ⟨_, hgains size, ?_⟩
  rw [lines_bytes_iff]
  intro e he s hs
  unfold Refusal at hrefusal
  rcases huser : A.user with _ | user
  · rw [huser] at hrefusal
    rw [hrefusal] at he
    obtain rfl := List.mem_singleton.mp he
    cases hs
  simp only [huser] at hrefusal
  obtain ⟨login, hstatus, hresult, hevents⟩ := hrefusal
  have hpath : newline ∉ (trustedPath A.world.limits trustedDirPath user).bytes :=
    newline_notMem_path (hname user huser)
  obtain ⟨paired, numPaired, trusted, num, -, -, hprinted, hcompare⟩ :=
    bluetoothLogin_events hresult
  rw [hevents, hprinted] at he
  rcases List.mem_append.mp he with he | he
  · rcases mem_findTrustedFile he with ⟨c, rfl⟩ | ⟨c, rfl⟩ | rfl
    · exact newline_notMem_complaint (by decide) hs
    · exact newline_notMem_complaint hpath hs
    · rcases List.mem_pair.mp hs with rfl | rfl
      · exact hpath
      · exact hname _ huser
  · split_ifs at he hcompare
    · rcases mem_compareLists hcompare hstatus he with rfl | rfl
      · rwa [List.mem_singleton.mp hs]
      · rcases List.mem_pair.mp hs with rfl | rfl
        · exact htime
        · decide
    · cases he

theorem lines_of_stranger :
    ∃ file, (∀ file', (LogFile.pamSmAuthenticate (strangerAuth (lit "kim")) usualTimes).Gains 256
        file' ↔ file' = file) ∧
      lines file = (LogFile.pamSmAuthenticate (strangerAuth (lit "kim")) usualTimes).before.map
        fun e => e.text.bytes := by
  refine lines_of_refused rfl (strangerAuth_refused _) (by decide) ?_ 256
  intro user huser
  obtain rfl := Option.some.inj huser
  decide

/-- Where the user's file does not exist, the log says so with the path of it. -/
lemma before_of_missing (hlog : A.logFp = true) (huser : A.user = some user)
    (hdir : checkConfig (A.world.files.lstatDir trustedDirPath) A.world.files.dirStale 1 = .ok ())
    (hmissing : A.world.files.lstatFile (trustedPath A.world.limits trustedDirPath user) =
      .failed enoent)
    (h : (PostAuth.pamSmAuthenticate A).1 = .returned .authErr) :
    (LogFile.pamSmAuthenticate A T).before =
      [.complaint (trustedPath A.world.limits trustedDirPath user) .noEntry] := by
  have hrefusal := (gains_of_refused hlog h T).1
  simp only [Refusal, huser] at hrefusal
  obtain ⟨login, -, hresult, hevents⟩ := hrefusal
  obtain ⟨paired, numPaired, trusted, num, -, htrusted, hprinted, -⟩ :=
    bluetoothLogin_events hresult
  have hpath : fileName A.world.limits A.world.stack trustedDirPath user =
      .ok (trustedPath A.world.limits trustedDirPath user) := fileName_eq _ _ _ _
  have hcheck : checkConfig (A.world.files.lstatFile
      (trustedPath A.world.limits trustedDirPath user)) A.world.files.fileStale 0 =
        .error .noEntry := by
    simp [hmissing, checkConfig, isNlnk]
  have hsearch : LogFile.findTrustedFile true A.world.limits A.world.stack A.world.files
      (some trustedDirPath) (some user) =
        ⟨[.complaint (trustedPath A.world.limits trustedDirPath user) .noEntry], .ok none⟩ := by
    simp only [LogFile.findTrustedFile, hdir, LogFile.getTrustedDevFile, hpath, Act.call_ok,
      Act.pure_bind, hcheck]
    rfl
  have hnone : trusted = none := by
    have hresult := findTrustedFile_result true A.world.limits A.world.stack A.world.files
      (some trustedDirPath) (some user)
    rw [hsearch] at hresult
    rw [findTrustedDevices_unopened hresult.symm] at htrusted
    exact (congrArg Prod.fst (Except.ok.inj htrusted)).symm
  rw [hevents, hprinted, hsearch, hnone]
  rfl

/-- **Anybody's lines.** Where there is no file for it, a name with newlines around any line leaves
that line in the log. -/
theorem line_of_name {line : Str} (hline : newline ∉ line.bytes) (hlog : A.logFp = true)
    (huser : A.user = some (lit "\n" ++ line ++ lit "\n"))
    (hlen : line.len + 2 ≤ A.world.limits.loginNameMax)
    (hdir : checkConfig (A.world.files.lstatDir trustedDirPath) A.world.files.dirStale 1 = .ok ())
    (hmissing : A.world.files.lstatFile (trustedPath A.world.limits trustedDirPath
      (lit "\n" ++ line ++ lit "\n")) = .failed enoent)
    (h : (PostAuth.pamSmAuthenticate A).1 = .returned .authErr) (T : Times) (size : ℕ) :
    ∃ file, (∀ file', (LogFile.pamSmAuthenticate A T).Gains size file' ↔ file' = file) ∧
      line.bytes ++ [newline] ∈ lines file := by
  have hnl : (lit "\n").bytes = [newline] := by decide
  have hsum := A.world.limits.sum_lt
  set user := lit "\n" ++ line ++ lit "\n" with hdef
  have hwhole : user.take (clamp A.world.limits.loginNameMax user) = user := by
    refine take_clamp_of_le (by omega) ?_
    rw [hdef, Str.len_append, Str.len_append, show (lit "\n").len = 1 by decide]
    omega
  -- The line before it ends with the directory.
  set front := (lit "Error: ").bytes ++
    (trustedDirPath.take (clamp (A.world.limits.pathMax - 1) trustedDirPath)).bytes with hfront
  have hno : newline ∉ front := by
    rw [hfront, List.mem_append, not_or]
    have hdirno : newline ∉ trustedDirPath.bytes := by decide
    exact ⟨by decide, fun hmem => hdirno (List.mem_of_mem_take hmem)⟩
  have hfile : bytes (LogFile.pamSmAuthenticate A T).before =
      front ++ newline :: (line.bytes ++ newline :: (lit " does not exist\n").bytes) := by
    rw [before_of_missing hlog huser hdir hmissing h, bytes, List.flatMap_singleton,
      Entry.text, Complaint.logText, trustedPath, hwhole]
    simp only [hdef, hfront, Str.bytes_append, hnl, List.append_assoc, List.cons_append,
      List.nil_append]
  refine ⟨_, (gains_of_refused hlog h T).2 size, ?_⟩
  rw [hfile, lines_closed front hno, lines_closed line.bytes hline]
  exact List.mem_cons_of_mem _ List.mem_cons_self

/-- A login that was refused, and in the log the line of one that succeeds. -/
theorem line_of_stranger :
    ∃ file, (∀ file', (LogFile.pamSmAuthenticate (strangerAuth
        (lit "\n" ++ lit "Login via Auth Proxy" ++ lit "\n")) usualTimes).Gains 256 file' ↔
          file' = file) ∧
      (lit "Login via Auth Proxy").bytes ++ [newline] ∈ lines file :=
  line_of_name (by decide) rfl rfl (by decide) rfl rfl (strangerAuth_refused _) usualTimes 256

end ProxyAuth.Forged
