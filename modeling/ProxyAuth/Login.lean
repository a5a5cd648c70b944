import ProxyAuth.BtTrust

/-!
Who may log in.

The two lists `bluetooth_login` compares are described first, each by a function of what the
program meets; the decision is then membership in both, and the device handed on is the
first of the connected ones that is trusted.
-/

namespace ProxyAuth.Login

open ProxyAuth.Control ProxyAuth.CString ProxyAuth.Getline ProxyAuth.Stat ProxyAuth.Sec
open ProxyAuth.BtMisc ProxyAuth.BtPair ProxyAuth.FileName ProxyAuth.BtTrust

/-- Every allocation for the two lists succeeds. -/
structure ListMem (w : World) : Prop where
  pairArray : w.pairMem.array = true
  pairAddr : ∀ k, w.pairMem.addr k = true
  array : w.arrayMem = true
  entry : ∀ k, w.entryMem k = true

/-- Both passes over an open trusted file read the same bytes. -/
def Unchanged (w : World) : Prop := ∀ p f, w.files.fopen p = some f → f.filled = f.counted

/-- At most `BT_MAX_CONN` entries of the reply, if there is one, qualify. -/
def FewDevices (w : World) : Prop :=
  ∀ objects, w.bus = .reply objects → (addresses objects).length ≤ btMaxConn

/-- The connected and trusted devices. -/
def pairedList (w : World) : List Str :=
  match w.bus with
  | .reply objects => (addresses objects).map (Str.take btMacLen)
  | _ => []

/-- The devices of the trusted file, when it is opened. -/
def trustedList (w : World) (dir user : Option Str) : List Str :=
  match findTrustedFile w.limits w.stack w.files dir user with
  | .ok (some f) => (entriesOf f.filled).take (getNumLines w.lineMem f.counted).toNat
  | _ => []

/-! ### The two lists -/

/-- After a reply, the array holds exactly the connected devices. -/
lemma getPairedDevices_reply {w : World} (hmem : ListMem w) (hfew : FewDevices w)
    {objects : List Object} (h : w.bus = .reply objects) (num : ℤ) :
    ∃ slots, getPairedDevices w.pairMem w.bus num =
      .ok (some slots, ((pairedList w).length : ℤ)) ∧ Filled slots (pairedList w) := by
  have hproc := processDbusBtList_eq hmem.pairArray hmem.pairAddr objects num
  rw [if_pos (hfew objects h)] at hproc
  obtain ⟨slots, hs, hf⟩ := hproc
  refine ⟨slots, ?_, ?_⟩
  · rw [h, getPairedDevices, hs]
    simp [pairedList, h]
  · simpa [pairedList, h] using hf

/-- Either the query failed, and nobody is connected, or the array holds exactly the
connected devices. -/
lemma getPairedDevices_cases {w : World} (hmem : ListMem w) (hfew : FewDevices w) (num : ℤ) :
    (getPairedDevices w.pairMem w.bus num = .ok (none, num) ∧ pairedList w = []) ∨
      ∃ slots, getPairedDevices w.pairMem w.bus num =
        .ok (some slots, ((pairedList w).length : ℤ)) ∧ Filled slots (pairedList w) := by
  rcases h : w.bus with _ | _ | objects
  · exact .inl ⟨rfl, by simp [pairedList, h]⟩
  · exact .inl ⟨rfl, by simp [pairedList, h]⟩
  · rw [← h]
    exact .inr (getPairedDevices_reply hmem hfew h num)

/-- A file that was opened came out of `fopen`. -/
lemma fopen_of_findTrustedFile {φ : Type} {lim : Limits} {stack : ℕ → Byte} {ops : FileOps φ}
    {dir user : Option Str} {f : φ} (h : findTrustedFile lim stack ops dir user = .ok (some f)) :
    ∃ p, ops.fopen p = some f := by
  rcases dir with _ | dir <;> rcases user with _ | user
  · cases h
  · cases h
  · cases h
  · obtain ⟨-, hfile⟩ := findTrustedFile_eq_some.mp h
    obtain ⟨path, -, -, hopen⟩ := getTrustedDevFile_eq_some.mp hfile
    exact ⟨path, hopen⟩

/-- Either there is no list, and nobody is trusted, or the array holds exactly the trusted
devices. -/
lemma findTrustedDevices_cases {w : World} (hmem : ListMem w) (hsame : Unchanged w)
    (dir user : Option Str) :
    (∃ num ≤ 0, findTrustedDevices w dir user = .ok (none, num) ∧ trustedList w dir user = []) ∨
      ∃ slots, findTrustedDevices w dir user =
        .ok (some slots, ((trustedList w dir user).length : ℤ)) ∧
          Filled slots (trustedList w dir user) := by
  obtain ⟨r, hr⟩ := findTrustedFile_ok w.limits w.stack w.files dir user
  rcases r with _ | f
  · exact .inl ⟨0, le_rfl, findTrustedDevices_unopened hr, by simp [trustedList, hr]⟩
  obtain ⟨p, hp⟩ := fopen_of_findTrustedFile hr
  have hle := getNumLines_le w.lineMem f.counted
  have htrust : trustedList w dir user =
      (entriesOf f.filled).take (getNumLines w.lineMem f.counted).toNat := by
    simp [trustedList, hr]
  rw [findTrustedDevices_opened hr]
  generalize getNumLines w.lineMem f.counted = num at *
  by_cases hpos : 0 < num
  · obtain ⟨σ, hσ, hpre⟩ := storeEach_prefilled hmem.entry (entriesOf f.filled)
      (σ := ⟨_, 0, 0⟩) (prefilled_nil num.toNat) rfl
    have hlen : ((trustedList w dir user).length : ℤ) = num := by
      rw [htrust, List.length_take, entriesOf, List.length_map, hsame p f hp, Nat.min_eq_left hle]
      omega
    refine .inr ⟨σ.slots, ?_, htrust ▸ hpre.filled⟩
    rw [stored, if_neg (by omega), if_neg (by simp [hmem.array]; omega), hσ, hlen]
    rfl
  · have hnone : trustedList w dir user = [] := by
      rw [htrust, Int.toNat_of_nonpos (by omega)]; simp
    refine .inl ⟨num, by omega, ?_, hnone⟩
    unfold stored
    split_ifs with h0 h1
    · rw [h0]
    · rfl
    · omega

/-! ### The search -/

/-- The search stops at the first connected device that is trusted. -/
lemma pairedLoop_filled {tslots l : List Slot} {ts ps : List Str} (ht : Filled tslots ts)
    (hp : Filled l ps) (alloc : Bool) (detected : Option Str) :
    pairedLoop (some tslots) ts.length alloc detected l ps.length =
      .ok (match ps.find? (· ∈ ts) with
        | none => ⟨false, detected⟩
        | some d => ⟨true, if alloc then some (d.take btMacLen) else none⟩) := by
  induction ps generalizing l with
  | nil => cases l <;> rfl
  | cons d ps ih =>
    obtain ⟨rest, rfl⟩ := hp
    have hih := ih (l := ps.map Slot.str ++ rest) ⟨rest, rfl⟩
    simp only [List.map_cons, List.cons_append, List.length_cons, pairedLoop, Slot.read, ok_bind,
      isDevTrusted_filled d ht]
    by_cases hd : d ∈ ts
    · simp [hd, copyMac_bytes]
    · simp [hd, hih]

/-- **The decision.** With memory for the lists, the login succeeds exactly when some
connected device is trusted, and hands on the first one. -/
lemma bluetoothLogin_eq {w : World} (hmem : ListMem w) (hsame : Unchanged w) (hfew : FewDevices w)
    (dir user : Option Str) :
    bluetoothLogin w dir user =
      .ok (match (pairedList w).find? (· ∈ trustedList w dir user) with
        | none => ⟨false, none⟩
        | some d => ⟨true, if w.detectedMem then some (d.take btMacLen) else none⟩) := by
  unfold bluetoothLogin
  rcases findTrustedDevices_cases hmem hsame dir user with
    ⟨numDevices, -, hdev, htrust⟩ | ⟨tslots, hdev, ht⟩
  · have hfind : (pairedList w).find? (· ∈ trustedList w dir user) = none :=
      List.find?_eq_none.mpr fun d _ => by simp [htrust]
    rw [hfind]
    rcases getPairedDevices_cases hmem hfew 0 with ⟨hpair, -⟩ | ⟨pslots, hpair, hp⟩
    · simp [hpair, hdev, freeDeviceList]
    · simp [hpair, hdev, freeDeviceList, freeLoop_filled hp]
  · rcases getPairedDevices_cases hmem hfew 0 with ⟨hpair, hnone⟩ | ⟨pslots, hpair, hp⟩
    · simp [hpair, hdev, hnone, freeDeviceList, freeLoop_filled ht]
    · simp only [hpair, hdev, ok_bind, Option.isSome_some, and_self, if_true,
        findTrustedPairedDevice, Int.toNat_natCast, pairedLoop_filled ht hp,
        freeDeviceList_filled ht, freeDeviceList_filled hp, pure_eq_ok]

/-! ### Lines and addresses -/

/-- Some line of the file begins with the address. -/
def Listed (content : List Byte) (a : Str) : Prop :=
  ∃ l ∈ lines content, l.take btMacLen = a.bytes

/-- A line becomes the address `a` exactly when its first 17 bytes are `a`. -/
lemma entry_eq_iff {l : List Byte} {a : Str} (ha : a.len = btMacLen) :
    entry l = a ↔ l.take btMacLen = a.bytes := by
  constructor
  · rintro rfl
    have hpre : (ofBuf l).bytes <+: l := List.takeWhile_prefix _
    have hlen : btMacLen ≤ (ofBuf l).bytes.length := by
      rw [entry, Str.len_take] at ha
      change min btMacLen (ofBuf l).bytes.length = btMacLen at ha
      omega
    obtain ⟨rest, hrest⟩ := hpre
    change _ = (ofBuf l).bytes.take btMacLen
    conv_lhs => rw [← hrest, List.take_append_of_le_length hlen]
  · intro h
    rw [entry, ← ofBuf_take, h, ofBuf_bytes]

/-- A line that begins with an address is not blank. -/
lemma mem_entries_iff {content : List Byte} {a : Str} (ha : a.len = btMacLen) :
    a ∈ entriesOf content ↔ Listed content a := by
  simp only [entriesOf, List.mem_map, nonblank, List.mem_filter, decide_eq_true_eq, Listed]
  constructor
  · rintro ⟨l, ⟨hl, -⟩, he⟩
    exact ⟨l, hl, (entry_eq_iff ha).mp he⟩
  · rintro ⟨l, hl, he⟩
    refine ⟨l, ⟨hl, ?_⟩, (entry_eq_iff ha).mpr he⟩
    rintro rfl
    have := congrArg List.length he
    rw [show a.bytes.length = btMacLen from ha] at this
    simp [btMacLen] at this

/-! ### Login, end to end -/

/-- An entry of the reply qualifies, and its address begins some line of the file. -/
def Matches (content : List Byte) (e : Str × Props) (a : Str) : Prop :=
  Qualifies e a ∧ Listed content a

/-- The address of the first entry, in reply order, that matches. -/
def FirstMatch (objects : List Object) (content : List Byte) (a : Str) : Prop :=
  ∃ pre e post, entries objects = pre ++ e :: post ∧ Matches content e a ∧
    ∀ e' ∈ pre, ∀ a', ¬ Matches content e' a'

/-- The file the login reads, and what is in it. -/
def Reads (w : World) (dir user : Str) (content : List Byte) : Prop :=
  ret (checkConfig (w.files.lstatDir dir) w.files.dirStale 1) = 1 ∧
    ∃ f, getTrustedDevFile w.limits w.stack w.files (some dir) (some user) = .ok (some f) ∧
      f.counted = content

lemma find?_filterMap_eq_some {α β : Type} {q : α → Option β} {p : β → Bool} {l : List α} {b : β} :
    (l.filterMap q).find? p = some b ↔
      ∃ pre x post, l = pre ++ x :: post ∧ (q x = some b ∧ p b = true) ∧
        ∀ y ∈ pre, ∀ c, ¬ (q y = some c ∧ p c = true) := by
  rw [List.find?_filterMap, Option.bind_eq_some_iff]
  simp only [List.find?_eq_some_iff_append]
  constructor
  · rintro ⟨x, ⟨hx, pre, post, rfl, hpre⟩, hq⟩
    refine ⟨pre, x, post, rfl, ⟨hq, by simpa [hq] using hx⟩, fun y hy c hc => ?_⟩
    simpa [hc.1, hc.2] using hpre y hy
  · rintro ⟨pre, x, post, rfl, ⟨hq, hp⟩, hpre⟩
    refine ⟨x, ⟨by simpa [hq] using hp, pre, post, rfl, fun y hy => ?_⟩, hq⟩
    have := hpre y hy
    rcases hy' : q y with _ | c
    · simp
    · simpa [hy'] using this c

/-- Every address that qualifies is a MAC string, as BlueZ has it. -/
def MacAddresses (w : World) : Prop :=
  ∀ objects, w.bus = .reply objects → ∀ e ∈ entries objects, ∀ a, Qualifies e a → IsBtAddr a.bytes

lemma pairedList_of_reply {w : World} (hmac : MacAddresses w) {objects : List Object}
    (h : w.bus = .reply objects) : pairedList w = addresses objects := by
  have hid : ∀ a ∈ addresses objects, a.take btMacLen = a := fun a ha => by
    obtain ⟨e, he, hq⟩ := mem_addresses.mp ha
    exact Str.take_of_len_le (hmac objects h e he a hq).1.le
  simp only [pairedList, h]
  exact (List.map_congr_left hid).trans (List.map_id _)

/-- The trusted devices are the addresses that begin a line. -/
lemma mem_trustedList {w : World} {dir user : Str} (hsame : Unchanged w)
    (hlines : ∀ content, Reads w dir user content → (lines content).length < 2 ^ 31) {a : Str}
    (ha : a.len = btMacLen) :
    a ∈ trustedList w (some dir) (some user) ↔
      ∃ content, Reads w dir user content ∧ Listed content a := by
  obtain ⟨r, hr⟩ := findTrustedFile_ok w.limits w.stack w.files (some dir) (some user)
  rcases r with _ | f
  · refine ⟨fun h => by simp [trustedList, hr] at h, ?_⟩
    rintro ⟨content, ⟨hdir, f, hf, -⟩, -⟩
    rw [findTrustedFile_eq_some.mpr ⟨hdir, hf⟩] at hr
    cases hr
  · obtain ⟨p, hp⟩ := fopen_of_findTrustedFile hr
    obtain ⟨hdir, hf⟩ := findTrustedFile_eq_some.mp hr
    have hlen : (nonblank f.counted).length < 2 ^ 31 :=
      (List.length_filter_le _ _).trans_lt (hlines f.counted ⟨hdir, f, hf, rfl⟩)
    have htrust : trustedList w (some dir) (some user) = entriesOf f.counted := by
      simp [trustedList, hr, hsame p f hp, getNumLines_of_lt _ hlen, entriesOf]
    rw [htrust, mem_entries_iff ha]
    constructor
    · exact fun h => ⟨f.counted, ⟨hdir, f, hf, rfl⟩, h⟩
    · rintro ⟨content, ⟨-, f', hf', rfl⟩, h⟩
      rw [hf] at hf'
      cases hf'
      exact h

/-- **Login, end to end.** With memory, an unchanged file of fewer than `2 ^ 31` lines and at
most `BT_MAX_CONN` qualifying devices, the login succeeds exactly when the address of a
qualifying entry begins some line of the user's file, and then hands on the first one in
reply order. -/
theorem bluetoothLogin_iff (w : World) (dir user : Str) (hmem : ListMem w)
    (hdet : w.detectedMem = true) (hsame : Unchanged w) (hfew : FewDevices w)
    (hlines : ∀ content, Reads w dir user content → (lines content).length < 2 ^ 31)
    (hmac : MacAddresses w) :
    ∃ login, bluetoothLogin w (some dir) (some user) = .ok login ∧
      (login.status = true ↔ ∃ objects content, w.bus = .reply objects ∧
        Reads w dir user content ∧ ∃ e ∈ entries objects, ∃ a, Matches content e a) ∧
      (login.status = true → ∃ objects content a, w.bus = .reply objects ∧
        Reads w dir user content ∧ FirstMatch objects content a ∧ login.detected = some a) ∧
      (login.status = false → login.detected = none) := by
  rw [bluetoothLogin_eq hmem hsame hfew, hdet]
  rcases hfind : (pairedList w).find? (· ∈ trustedList w (some dir) (some user)) with _ | d
  · refine ⟨_, rfl, ⟨fun h => by simp at h, ?_⟩, fun h => by simp at h, fun _ => rfl⟩
    rintro ⟨objects, content, hbus, hreads, e, he, a, hq, hl⟩
    have hin : a ∈ pairedList w := by
      rw [pairedList_of_reply hmac hbus]
      exact mem_addresses.mpr ⟨e, he, hq⟩
    have ha : a.len = btMacLen := (hmac objects hbus e he a hq).1
    have := List.find?_eq_none.mp hfind a hin
    exact absurd ((mem_trustedList hsame hlines ha).mpr ⟨content, hreads, hl⟩) (by simpa using this)
  · obtain ⟨objects, hbus⟩ : ∃ objects, w.bus = .reply objects := by
      rcases hb : w.bus with _ | _ | objects
      · simp [pairedList, hb] at hfind
      · simp [pairedList, hb] at hfind
      · exact ⟨objects, rfl⟩
    rw [pairedList_of_reply hmac hbus, addresses, find?_filterMap_eq_some] at hfind
    obtain ⟨pre, e, post, hsplit, ⟨hq, hd⟩, hpre⟩ := hfind
    have he : e ∈ entries objects := by simp [hsplit]
    have hqd := qualifying_eq_some.mp hq
    have hlen : d.len = btMacLen := (hmac objects hbus e he d hqd).1
    obtain ⟨content, hreads, hl⟩ := (mem_trustedList hsame hlines hlen).mp (by simpa using hd)
    refine ⟨_, rfl, ⟨fun _ => ⟨objects, content, hbus, hreads, e, he, d, hqd, hl⟩, fun _ => rfl⟩,
      fun _ => ⟨objects, content, d, hbus, hreads, ⟨pre, e, post, hsplit, ⟨hqd, hl⟩, ?_⟩, ?_⟩,
      fun h => by simp at h⟩
    · rintro e' he' a' ⟨hq', hl'⟩
      have hlen' := (hmac objects hbus e' (by simp [hsplit, he']) a' hq').1
      have hin := (mem_trustedList hsame hlines hlen').mpr ⟨content, hreads, hl'⟩
      exact hpre e' he' a' ⟨qualifying_eq_some.mpr hq', by simpa using hin⟩
    · simp [Str.take_of_len_le hlen.le]

/-! ### One login -/

/-- Memory for `getline` that hands out blocks of zeros. -/
def zeroBlocks : Alloc where
  block _ n := List.replicate (max 120 n) 0
  room := by simp
  least := by simp

def phone : Str := lit "AC:37:43:8E:C1:F4"

def phoneEntry : Str × Props :=
  (lit "org.bluez.Device1", [(lit "Address", .string phone), (lit "Connected", .boolean true),
    (lit "Trusted", .boolean true)])

def phoneFile : List Byte := phone.bytes ++ [newline]

/-- The phone is connected, and it is the one line of a file that root looks after. -/
def phoneWorld : World where
  bus := .reply [⟨lit "/org/bluez/hci0/dev_AC_37_43_8E_C1_F4", [phoneEntry]⟩]
  pairMem := ⟨true, fun _ => true⟩
  limits := linuxLimits
  stack _ := 0
  files :=
    { dirStale := ⟨0#32, 0⟩
      fileStale := ⟨0, 0⟩
      lstatDir := fun _ => .found ⟨0x41ED#32, 0⟩
      lstatFile := fun _ => .found ⟨0x8180#32, 0⟩
      fopen := fun _ => some ⟨phoneFile, phoneFile⟩ }
  lineMem := zeroBlocks
  arrayMem := true
  entryMem _ := true
  detectedMem := true

lemma phoneWorld_reads {dir user : Str} {content : List Byte} :
    Reads phoneWorld dir user content ↔ content = phoneFile := by
  have hdir :
      ret (checkConfig (phoneWorld.files.lstatDir dir) phoneWorld.files.dirStale 1) = 1 := by
    change ret (checkConfig (.found ⟨0x41ED#32, 0⟩) ⟨0#32, 0⟩ 1) = 1
    decide
  have hfile : ret (checkConfig (.found ⟨0x8180#32, 0⟩) ⟨0#32, 0⟩ 0) = 1 := by decide
  have hopen : getTrustedDevFile phoneWorld.limits phoneWorld.stack phoneWorld.files (some dir)
      (some user) = .ok (some ⟨phoneFile, phoneFile⟩) := by
    simp [getTrustedDevFile, fileName_eq, phoneWorld, hfile]
  constructor
  · rintro ⟨-, f, hf, rfl⟩
    rw [hopen] at hf
    cases hf
    rfl
  · rintro rfl
    exact ⟨hdir, _, hopen, rfl⟩

lemma phoneEntry_qualifies : Qualifies phoneEntry phone :=
  qualifying_eq_some.mp (by decide)

lemma phoneWorld_entries {objects : List Object} (h : phoneWorld.bus = .reply objects) :
    entries objects = [phoneEntry] := by
  cases h
  rfl

lemma phoneWorld_listMem : ListMem phoneWorld := ⟨rfl, fun _ => rfl, rfl, fun _ => rfl⟩

lemma phoneWorld_unchanged : Unchanged phoneWorld := fun _ _ h => by cases h; rfl

lemma phoneWorld_few : FewDevices phoneWorld := fun _ h => by cases h; decide

lemma eq_phone_of_qualifies {a : Str} (h : Qualifies phoneEntry a) : a = phone :=
  Option.some.inj ((qualifying_eq_some.mpr h).symm.trans
    (qualifying_eq_some.mpr phoneEntry_qualifies))

lemma phoneWorld_mac : MacAddresses phoneWorld := by
  intro objects h e he a ha
  rw [phoneWorld_entries h, List.mem_singleton] at he
  subst he
  rw [eq_phone_of_qualifies ha]
  decide

lemma pairedList_phoneWorld : pairedList phoneWorld = [phone] := by decide

lemma phone_mem_trustedList {dir user : Str} :
    phone ∈ trustedList phoneWorld (some dir) (some user) :=
  (mem_trustedList phoneWorld_unchanged
    (fun content h => by rw [phoneWorld_reads.mp h]; decide) (by decide)).mpr
      ⟨phoneFile, phoneWorld_reads.mpr rfl, phoneFile, by decide, by decide⟩

lemma login_phoneWorld {dir user : Str} :
    bluetoothLogin phoneWorld (some dir) (some user) = .ok ⟨true, some phone⟩ := by
  have htake : phone.take btMacLen = phone := Str.take_of_len_le (by decide)
  rw [bluetoothLogin_eq phoneWorld_listMem phoneWorld_unchanged phoneWorld_few,
    pairedList_phoneWorld, List.find?_cons_of_pos (by simpa using phone_mem_trustedList)]
  change Except.ok (Login.mk true (some (phone.take btMacLen))) = _
  rw [htake]

theorem bluetoothLogin_phone :
    ∃ login, bluetoothLogin phoneWorld (some trustedDirPath) (some (lit "zaku")) = .ok login ∧
      login = ⟨true, some phone⟩ := by
  have hlisted : Listed phoneFile phone := ⟨phoneFile, by decide, by decide⟩
  obtain ⟨login, hlogin, hiff, hfirst, -⟩ := bluetoothLogin_iff phoneWorld trustedDirPath
    (lit "zaku") phoneWorld_listMem rfl phoneWorld_unchanged phoneWorld_few
    (fun content h => by rw [phoneWorld_reads.mp h]; decide) phoneWorld_mac
  have hstatus : login.status = true :=
    hiff.mpr ⟨_, phoneFile, rfl, phoneWorld_reads.mpr rfl, phoneEntry,
      by simp [entries], phone, phoneEntry_qualifies, hlisted⟩
  obtain ⟨objects, content, a, hbus, -, ⟨pre, e, post, hsplit, hmatch, -⟩, hdet⟩ := hfirst hstatus
  have he : e ∈ entries objects := by simp [hsplit]
  rw [phoneWorld_entries hbus, List.mem_singleton] at he
  subst he
  refine ⟨login, hlogin, ?_⟩
  cases login
  simp_all [eq_phone_of_qualifies hmatch.1]

end ProxyAuth.Login
