import ProxyAuth.Ledger
import ProxyAuth.LogFile

/-!
What the login allocates, opens and gives back.

The functions of the login once more, each with what it acquires, uses and releases. The string of
a device has the slot that it is stored in for its name. A pointer that is null, that was never
written or that is past its array is astray where it is used. Leaving all of that out gives the
functions as they are.
-/

namespace ProxyAuth.Heap

open ProxyAuth.Control ProxyAuth.CString ProxyAuth.Getline ProxyAuth.BtMisc ProxyAuth.BtPair
open ProxyAuth.BtTrust ProxyAuth.Login ProxyAuth.PostAuth ProxyAuth.Ledger

/-- Streams, blocks of memory and references; `child` is the one the reply is unpacked into, and
the numbered ones belong to a call of `check_is_paired`. -/
inductive Block
  | log | trustedFile | line
  | conn | reply | child | ifaces | props | lower
  | dict (call : ℕ) | connected (call : ℕ) | trusted (call : ℕ) | address (call : ℕ)
  | pairedArray | pairedAddr (slot : ℕ)
  | trustedArray | trustedAddr (slot : ℕ)
  | detected
  deriving DecidableEq

abbrev Work := Act (Op Block) Fault

/-! ### `pam_bt_pair.c` -/

def checkIsPaired (alloc : Bool) (call slot : ℕ) (props : Props) : Work (Option Str) := do
  Act.emit (.use .props)
  Act.emit (.acquire (.dict call))
  Act.emit (.use (.dict call))
  match lookupBool props (lit "Connected") with
  | none => pure none
  | some isConnected => do
    Act.emit (.acquire (.connected call))
    Act.emit (.use (.dict call))
    match lookupBool props (lit "Trusted") with
    | none => pure none
    | some isTrusted => do
      Act.emit (.acquire (.trusted call))
      Act.emit (.use (.connected call))
      Act.emitIf (isConnected = true) (.use (.trusted call))
      if isConnected && isTrusted then do
        Act.emit (.use (.dict call))
        match lookupString props (lit "Address") with
        | none => pure none
        | some addr => do
          Act.emit (.acquire (.address call))
          Act.emit (.use (.address call))
          if alloc then do
            Act.emit (.acquire (.pairedAddr slot))
            Act.emit (.use (.address call))
            Act.emit (.use (.pairedAddr slot))
            pure (some (copyMac addr.bytes))
          else pure none
      else pure none

/-- The part of the inner loop for an interface that names a device. -/
def scanDevice (mem : Mem) (σ : Scan) (props : Props) : Work Scan := do
  let addr ← checkIsPaired (mem.addr σ.calls) σ.calls σ.num props
  match addr with
  | none => pure { σ with calls := σ.calls + 1 }
  | some addr => do
    let slots ← attempt (storeSlot σ.slots σ.num (.str addr))
    Act.emit (.use .pairedArray)
    pure ⟨slots, σ.num + 1, σ.calls + 1⟩

/-- The name of the interface is a part of `ifaces`. -/
def scanIface (mem : Mem) (iface : Str × Props) (σ : Scan) : Work Scan := do
  Act.emit (.use .ifaces)
  Act.emit (.acquire .props)
  Act.emit (.use .ifaces)
  Act.emit (.acquire .lower)
  Act.emit (.use .lower)
  let σ ← (if namesDevice iface.1 then scanDevice mem σ iface.2 else pure σ)
  Act.emit (.release .lower)
  Act.emit (.release .props)
  pure σ

def scanObject (mem : Mem) (o : Object) (σ : Scan) : Work Scan := do
  Act.emit (.use .child)
  Act.emit (.acquire .ifaces)
  Act.emit (.use .ifaces)
  let σ ← Act.loop (scanIface mem) o.ifaces σ
  Act.emit (.use .ifaces)
  Act.emit (.release .ifaces)
  pure σ

def processDbusBtList (mem : Mem) (result : Option (List Object)) (num : ℤ) :
    Work (Option (List Slot) × ℤ) :=
  match result with
  | none => pure (none, num)
  | some objects =>
    if mem.array then do
      Act.emit (.acquire .pairedArray)
      Act.emit (.use .reply)
      Act.emit (.acquire .child)
      Act.emit (.use .child)
      let σ ← Act.loop (scanObject mem) objects scanInit
      Act.emit (.use .child)
      pure (some σ.slots, σ.num)
    else pure (none, num)

def getPairedDevices (mem : Mem) (bus : Bus) (num : ℤ) : Work (Option (List Slot) × ℤ) :=
  match bus with
  | .noBus => pure (none, num)
  | .callFailed => do
    Act.emit (.acquire .conn)
    Act.emit (.use .conn)
    let paired ← processDbusBtList mem none num
    -- the reply is the null pointer, and is given back all the same
    Act.emit (.release .reply)
    Act.emit (.release .conn)
    pure paired
  | .reply objects => do
    Act.emit (.acquire .conn)
    Act.emit (.use .conn)
    Act.emit (.acquire .reply)
    let paired ← processDbusBtList mem (some objects) num
    Act.emit (.release .reply)
    Act.emit (.release .conn)
    pure paired

/-! ### `pam_bt_trust.c`, `pam_misc.c` and `pam_bt_misc.c` -/

/-- Each line that is printed uses the log. -/
def printed {α : Type} (x : LogFile.Logged α) : Work α :=
  ⟨x.events.map fun _ => .use .log, x.result⟩

def countLoop (A : Alloc) : List (List Byte) → Buf → ℤ → Work ℤ
  | [], _, n => do
    Act.emit (.use .trustedFile)
    pure n
  | l :: ls, line, n => do
    Act.emit (.use .trustedFile)
    Act.emit (.use .line)
    let line := getline A line l
    countLoop A ls line (if ofBuf line ≠ lit "\n" then wrap32 (n + 1) else n)

/-- The buffer is there from the first `getline` on. -/
def getNumLines (A : Alloc) (content : List Byte) : Work ℤ := do
  Act.emit (.acquire .line)
  let num ← countLoop A (lines content) [] 0
  Act.emit (.release .line)
  pure num

def fillLoop (A : Alloc) (alloc : ℕ → Bool) (num : ℕ) : List (List Byte) → Fill → Work Fill
  | [], σ => do
    Act.emit (.use .trustedFile)
    pure σ
  | l :: ls, σ => do
    Act.emit (.use .trustedFile)
    Act.emit (.use .line)
    let line := getline A σ.line l
    if σ.i < num then
      if ofBuf line ≠ lit "\n" then do
        let line ← attempt (store line btMacLen 0)
        let got := alloc σ.tries
        Act.emitIf (got = true) (.acquire (.trustedAddr σ.i))
        let slots ← attempt
          (storeSlot σ.slots σ.i (if got then .str (copyMac line) else .null))
        Act.emit (.use .trustedArray)
        Act.emitIf (got = true) (.use .line)
        Act.emitIf (got = true) (.use (.trustedAddr σ.i))
        fillLoop A alloc num ls ⟨line, slots, if got then σ.i + 1 else σ.i, σ.tries + 1⟩
      else fillLoop A alloc num ls { σ with line := line }
    else pure { σ with line := line }

def setTrustedDevices (A : Alloc) (alloc : ℕ → Bool) (content : List Byte) (slots : List Slot)
    (num : ℤ) : Work (List Slot) :=
  if 0 < num then do
    Act.emit (.use .trustedFile)
    Act.emit (.acquire .line)
    let σ ← fillLoop A alloc num.toNat (lines content) ⟨[], slots, 0, 0⟩
    Act.emit (.release .line)
    pure σ.slots
  else pure slots

/-- The list made from an open file. -/
def listTrusted (w : World) (f : TrustedFile) : Work (Option (List Slot) × ℤ) := do
  let num ← getNumLines w.lineMem f.counted
  if num = 0 then pure (none, 0)
  else if num < 0 ∨ w.arrayMem = false then pure (none, num)
  else do
    Act.emit (.acquire .trustedArray)
    let slots ← setTrustedDevices w.lineMem w.entryMem f.filled
      (List.replicate num.toNat .unwritten) num
    pure (some slots, num)

def findTrustedDevices (logFp : Bool) (w : World) (dir user : Option Str) :
    Work (Option (List Slot) × ℤ) := do
  let file ← printed (LogFile.findTrustedFile logFp w.limits w.stack w.files dir user)
  match file with
  | none => pure (none, 0)
  | some f => do
    Act.emit (.acquire .trustedFile)
    let trusted ← listTrusted w f
    Act.emit (.release .trustedFile)
    pure trusted

/-- The string is read, which has a block if it was allocated. -/
def useStr (block : Option Block) (p : Option Str) : Work PUnit :=
  match block with
  | none => pure ⟨⟩
  | some b => Act.emitIf (p.isSome = true) (.use b)

/-- `block` is that of `dev`, `addr` names the strings of the list, and `j` is the slot the loop has
come to. -/
def devLoop (block : Option Block) (array : Block) (addr : ℕ → Block) (dev : Option Str) (j : ℕ) :
    List Slot → ℕ → Work Bool
  | _, 0 => pure false
  | [], _ + 1 => fault .outOfBounds
  | s :: ss, k + 1 => do
    Act.emit (.use array)
    let t ← attempt s.read
    useStr block dev
    useStr (some (addr j)) t
    let same ← attempt (strEq dev t)
    if same then pure true else devLoop block array addr dev (j + 1) ss k

def isDevTrusted (block : Option Block) (array : Block) (addr : ℕ → Block) (dev : Option Str)
    (devices : Option (List Slot)) (num : ℤ) : Work Bool :=
  match devices with
  | none => if num ≤ 0 then pure false else fault .nullDeref
  | some l => devLoop block array addr dev 0 l num.toNat

def pairedLoop (logFp : Bool) (trusted : Option (List Slot)) (numDevices : ℤ) (alloc : Bool)
    (detected : Option Str) (i : ℕ) : List Slot → ℕ → Work Login
  | _, 0 => pure ⟨false, detected⟩
  | [], _ + 1 => fault .outOfBounds
  | s :: ss, k + 1 => do
    Act.emit (.use .pairedArray)
    let dev ← attempt s.read
    let found ←
      isDevTrusted (some (.pairedAddr i)) .trustedArray .trustedAddr dev trusted numDevices
    if found then
      match dev with
      | none => fault .nullDeref
      | some d => do
        Act.emitIf (logFp = true) (.use .log)
        Act.emitIf (logFp = true) (.use (.pairedAddr i))
        if alloc then do
          Act.emit (.acquire .detected)
          Act.emit (.use (.pairedAddr i))
          Act.emit (.use .detected)
          pure ⟨true, some (copyMac d.bytes)⟩
        else pure ⟨true, none⟩
    else pairedLoop logFp trusted numDevices alloc detected (i + 1) ss k

def findTrustedPairedDevice (logFp alloc : Bool) (trusted : Option (List Slot)) (numDevices : ℤ)
    (paired : Option (List Slot)) (numPaired : ℤ) (detected : Option Str) : Work Login :=
  match trusted, paired with
  | some _, some p => pairedLoop logFp trusted numDevices alloc detected 0 p numPaired.toNat
  | _, _ => pure ⟨false, detected⟩

/-- `addr` names the strings of the list. -/
def freeLoop (array : Block) (addr : ℕ → Block) (j : ℕ) : List Slot → ℕ → Work Unit
  | _, 0 => pure ()
  | [], _ + 1 => fault .outOfBounds
  | s :: ss, k + 1 => do
    Act.emit (.use array)
    -- `free` gets whatever is in the slot
    let p ← attempt s.read
    Act.emitIf p.isSome (.release (addr j))
    Act.emit (.use array)
    freeLoop array addr (j + 1) ss k

def freeDeviceList (array : Block) (addr : ℕ → Block) (devices : Option (List Slot)) (num : ℤ) :
    Work Unit :=
  match devices with
  | none => pure ()
  | some l => do
    freeLoop array addr 0 l num.toNat
    Act.emit (.release array)

/-! ### `bluetooth_login` and its callers -/

/-- What is printed about the comparison. -/
def report (logFp : Bool) (login : Login) : Work PUnit :=
  if login.status then
    if login.detected.isSome then do
      Act.emitIf (logFp = true) (.use .log)
      Act.emitIf (logFp = true) (.use .detected)
    else pure ⟨⟩
  else Act.emitIf (logFp = true) (.use .log)

/-- The part of `bluetooth_login` after the trusted devices were found. -/
def compareLists (logFp : Bool) (w : World) (trusted : Option (List Slot)) (numDevices : ℤ)
    (paired : Option (List Slot)) (numPaired : ℤ) : Work Login := do
  Act.emitIf (logFp = true) (.use .log)
  let login ← (if paired.isSome then
      findTrustedPairedDevice logFp w.detectedMem trusted numDevices paired numPaired none
    else pure ⟨false, none⟩)
  report logFp login
  pure login

def bluetoothLogin (logFp : Bool) (w : World) (dir user : Option Str) : Work Login := do
  let (paired, numPaired) ← getPairedDevices w.pairMem w.bus 0
  let (trusted, numDevices) ← findTrustedDevices logFp w dir user
  let login ← (if trusted.isSome then compareLists logFp w trusted numDevices paired numPaired
    else pure ⟨false, none⟩)
  freeDeviceList .trustedArray .trustedAddr trusted numDevices
  freeDeviceList .pairedArray .pairedAddr paired numPaired
  pure login

/-- What `pam_sm_authenticate` does with the log open, in the process that PAM called, where
`exec_deauth` does nothing but `fork`. What `free` gets for a device that found no memory is the
null pointer. -/
def authenticate (A : Auth) : Work PamCode :=
  match A.user with
  | none => do
    Act.emitIf (A.logFp = true) (.use .log)
    pure .authErr
  | some username => do
    let login ← bluetoothLogin A.logFp A.world (some trustedDirPath) (some username)
    if login.status then do
      Act.emitIf (A.logFp = true) (.use .log)
      Act.emitIf (login.detected.isSome = true) (.release .detected)
      pure .success
    else pure .authErr

def pamSmAuthenticate (A : Auth) : Work PamCode := do
  Act.emitIf (A.logFp = true) (.acquire .log)
  let code ← authenticate A
  Act.emitIf (A.logFp = true) (.release .log)
  pure code

/-! ### Without the blocks -/

lemma checkIsPaired_result (alloc : Bool) (call slot : ℕ) (props : Props) :
    (checkIsPaired alloc call slot props).result = .ok (BtPair.checkIsPaired alloc props) := by
  unfold checkIsPaired BtPair.checkIsPaired
  rcases lookupBool props (lit "Connected") with _ | c
  · rfl
  rcases lookupBool props (lit "Trusted") with _ | t
  · rfl
  cases c <;> cases t <;> try rfl
  rcases lookupString props (lit "Address") with _ | addr
  · rfl
  cases alloc <;> rfl

lemma scanDevice_result (mem : Mem) (σ : Scan) {iface : Str × Props}
    (h : namesDevice iface.1 = true) :
    (scanDevice mem σ iface.2).result = BtPair.scanIface mem σ iface := by
  rw [scanDevice, Act.bind_result, checkIsPaired_result, ok_bind, BtPair.scanIface, if_pos h]
  rcases BtPair.checkIsPaired (mem.addr σ.calls) iface.2 with _ | addr
  · rfl
  · simp [Act.bind_result]

lemma scanIface_result (mem : Mem) (iface : Str × Props) (σ : Scan) :
    (scanIface mem iface σ).result = BtPair.scanIface mem σ iface := by
  simp only [scanIface, Act.bind_result, Act.emit_result, ok_bind]
  by_cases h : namesDevice iface.1 = true
  · rw [if_pos h, scanDevice_result mem σ h]
    cases BtPair.scanIface mem σ iface <;> rfl
  · rw [if_neg h, BtPair.scanIface, if_neg h]
    rfl

lemma scanObject_result (mem : Mem) (o : Object) (σ : Scan) :
    (scanObject mem o σ).result = BtPair.scanObject mem σ o := by
  simp only [scanObject, Act.bind_result, Act.emit_result, ok_bind,
    Act.loop_result (scanIface_result mem)]
  rw [BtPair.scanObject]
  cases o.ifaces.foldlM (BtPair.scanIface mem) σ <;> rfl

lemma processDbusBtList_result (mem : Mem) (result : Option (List Object)) (num : ℤ) :
    (processDbusBtList mem result num).result = BtPair.processDbusBtList mem result num := by
  rcases result with _ | objects
  · rfl
  · unfold processDbusBtList BtPair.processDbusBtList
    by_cases h : mem.array = true
    · simp [h, Act.bind_result, Act.loop_result (scanObject_result mem)]
    · simp [h]

lemma getPairedDevices_result (mem : Mem) (bus : Bus) (num : ℤ) :
    (getPairedDevices mem bus num).result = BtPair.getPairedDevices mem bus num := by
  rcases bus with _ | _ | objects
  · rfl
  · rfl
  · simp only [getPairedDevices, BtPair.getPairedDevices, Act.bind_result, Act.emit_result,
      ok_bind, processDbusBtList_result]
    cases BtPair.processDbusBtList mem (some objects) num <;> rfl

lemma countLoop_result (A : Alloc) (ls : List (List Byte)) (line : Buf) (n : ℤ) :
    (countLoop A ls line n).result = .ok (BtTrust.countLoop A ls line n) := by
  induction ls generalizing line n with
  | nil => rfl
  | cons l ls ih =>
    simp only [countLoop, BtTrust.countLoop, Act.bind_result, Act.emit_result, ok_bind]
    exact ih _ _

lemma getNumLines_result (A : Alloc) (content : List Byte) :
    (getNumLines A content).result = .ok (BtTrust.getNumLines A content) := by
  simp only [getNumLines, Act.bind_result, Act.emit_result, ok_bind, countLoop_result]
  rfl

lemma fillLoop_result (A : Alloc) (alloc : ℕ → Bool) (num : ℕ) (ls : List (List Byte)) (σ : Fill) :
    (fillLoop A alloc num ls σ).result = BtTrust.fillLoop A alloc num ls σ := by
  induction ls generalizing σ with
  | nil => rfl
  | cons l ls ih =>
    simp only [fillLoop, BtTrust.fillLoop, Act.bind_result, Act.emit_result, ok_bind]
    by_cases hroom : σ.i < num
    · by_cases hblank : ofBuf (getline A σ.line l) ≠ lit "\n"
      · simp only [if_pos hroom, if_pos hblank, Act.bind_result, attempt_result]
        rcases store (getline A σ.line l) btMacLen 0 with e | line
        · rfl
        simp only [ok_bind, Act.emitIf_result, Act.emit_result]
        rcases alloc σ.tries with _ | _
        · rcases hs : storeSlot σ.slots σ.i .null with e | slots
          · simp [hs]
          · simpa [hs] using ih _
        · rcases hs : storeSlot σ.slots σ.i (.str (copyMac line)) with e | slots
          · simp [hs]
          · simpa [hs] using ih _
      · simp only [if_pos hroom, if_neg hblank]
        exact ih _
    · simp only [if_neg hroom]
      rfl

lemma setTrustedDevices_result (A : Alloc) (alloc : ℕ → Bool) (content : List Byte)
    (slots : List Slot) (num : ℤ) :
    (setTrustedDevices A alloc content slots num).result =
      BtTrust.setTrustedDevices A alloc content slots num := by
  unfold setTrustedDevices BtTrust.setTrustedDevices
  split_ifs
  · simp only [Act.bind_result, Act.emit_result, ok_bind, fillLoop_result]
    rfl
  · rfl

@[simp] lemma printed_result {α : Type} (x : LogFile.Logged α) : (printed x).result = x.result :=
  rfl

lemma findTrustedDevices_result (logFp : Bool) (w : World) (dir user : Option Str) :
    (findTrustedDevices logFp w dir user).result = BtTrust.findTrustedDevices w dir user := by
  unfold findTrustedDevices BtTrust.findTrustedDevices
  rw [Act.bind_result, printed_result, LogFile.findTrustedFile_result]
  rcases findTrustedFile w.limits w.stack w.files dir user with e | _ | f
  · rfl
  · rfl
  · simp only [ok_bind, Act.bind_result, Act.emit_result, listTrusted, getNumLines_result]
    split_ifs
    · rfl
    · rfl
    · simp only [Act.bind_result, Act.emit_result, ok_bind, setTrustedDevices_result]
      cases BtTrust.setTrustedDevices w.lineMem w.entryMem f.filled _ _ <;> rfl

@[simp] lemma useStr_result (block : Option Block) (p : Option Str) :
    (useStr block p).result = .ok ⟨⟩ := by
  cases block
  · rfl
  · exact Act.emitIf_result _ _

lemma devLoop_result (block : Option Block) (array : Block) (addr : ℕ → Block) (dev : Option Str)
    (j : ℕ) (l : List Slot) (k : ℕ) :
    (devLoop block array addr dev j l k).result = BtMisc.devLoop dev l k := by
  induction l generalizing j k with
  | nil => cases k <;> rfl
  | cons s ss ih =>
    rcases k with _ | k
    · rfl
    simp only [devLoop, BtMisc.devLoop, Act.bind_result, Act.emit_result, ok_bind, attempt_result]
    rcases s.read with e | t
    · rfl
    simp only [ok_bind, useStr_result]
    rcases strEq dev t with e | same
    · rfl
    cases same
    · exact ih (j + 1) k
    · rfl

lemma isDevTrusted_result (block : Option Block) (array : Block) (addr : ℕ → Block)
    (dev : Option Str) (devices : Option (List Slot)) (num : ℤ) :
    (isDevTrusted block array addr dev devices num).result =
      BtMisc.isDevTrusted dev devices num := by
  rcases devices with _ | l
  · unfold isDevTrusted BtMisc.isDevTrusted
    simp only
    split_ifs <;> rfl
  · exact devLoop_result block array addr dev 0 l num.toNat

lemma pairedLoop_result (logFp : Bool) (trusted : Option (List Slot)) (numDevices : ℤ)
    (alloc : Bool) (detected : Option Str) (i : ℕ) (l : List Slot) (k : ℕ) :
    (pairedLoop logFp trusted numDevices alloc detected i l k).result =
      BtTrust.pairedLoop trusted numDevices alloc detected l k := by
  induction l generalizing i k with
  | nil => cases k <;> rfl
  | cons s ss ih =>
    rcases k with _ | k
    · rfl
    simp only [pairedLoop, BtTrust.pairedLoop, Act.bind_result, Act.emit_result, ok_bind,
      attempt_result]
    rcases s.read with e | dev
    · rfl
    simp only [ok_bind, isDevTrusted_result]
    rcases BtMisc.isDevTrusted dev trusted numDevices with e | found
    · rfl
    cases found
    · exact ih (i + 1) k
    · rcases dev with _ | d
      · rfl
      · cases alloc <;> simp [Act.bind_result]

lemma freeLoop_result (array : Block) (addr : ℕ → Block) (j : ℕ) (l : List Slot) (k : ℕ) :
    (freeLoop array addr j l k).result = BtMisc.freeLoop l k := by
  induction l generalizing j k with
  | nil => cases k <;> rfl
  | cons s ss ih =>
    rcases k with _ | k
    · rfl
    simp only [freeLoop, BtMisc.freeLoop, Act.bind_result, Act.emit_result, ok_bind,
      attempt_result]
    rcases s.read with e | p
    · rfl
    · simp only [ok_bind, Act.emitIf_result]
      exact ih (j + 1) k

lemma freeDeviceList_result (array : Block) (addr : ℕ → Block) (devices : Option (List Slot))
    (num : ℤ) :
    (freeDeviceList array addr devices num).result = BtMisc.freeDeviceList devices num := by
  rcases devices with _ | l
  · rfl
  · simp only [freeDeviceList, BtMisc.freeDeviceList, Act.bind_result, freeLoop_result]
    cases BtMisc.freeLoop l num.toNat <;> rfl

@[simp] lemma report_result (logFp : Bool) (login : Login) :
    (report logFp login).result = .ok ⟨⟩ := by
  unfold report
  split_ifs
  · simp [Act.bind_result]
  · rfl
  · exact Act.emitIf_result _ _

lemma compareLists_result (logFp : Bool) (w : World) {trusted : Option (List Slot)}
    (numDevices : ℤ) (paired : Option (List Slot)) (numPaired : ℤ) (h : trusted.isSome = true) :
    (compareLists logFp w trusted numDevices paired numPaired).result =
      if trusted.isSome ∧ paired.isSome then
        BtTrust.findTrustedPairedDevice w.detectedMem trusted numDevices paired numPaired none
      else .ok ⟨false, none⟩ := by
  obtain ⟨t, rfl⟩ := Option.isSome_iff_exists.mp h
  simp only [compareLists, Act.bind_result, Act.emitIf_result, ok_bind, report_result]
  rcases paired with _ | p
  · rfl
  · have hloop := pairedLoop_result logFp (some t) numDevices w.detectedMem none 0 p numPaired.toNat
    simp only [Option.isSome_some, if_true, and_self, findTrustedPairedDevice,
      BtTrust.findTrustedPairedDevice, hloop]
    cases BtTrust.pairedLoop (some t) numDevices w.detectedMem none p numPaired.toNat <;> rfl

/-- The login with its blocks decides as the login does. -/
theorem bluetoothLogin_result (logFp : Bool) (w : World) (dir user : Option Str) :
    (bluetoothLogin logFp w dir user).result = BtTrust.bluetoothLogin w dir user := by
  unfold bluetoothLogin BtTrust.bluetoothLogin
  rw [Act.bind_result, getPairedDevices_result]
  rcases BtPair.getPairedDevices w.pairMem w.bus 0 with e | ⟨paired, numPaired⟩
  · rfl
  rw [ok_bind, Act.bind_result, findTrustedDevices_result, ok_bind]
  rcases BtTrust.findTrustedDevices w dir user with e | ⟨trusted, numDevices⟩
  · rfl
  simp only [ok_bind, Act.bind_result, freeDeviceList_result, Act.pure_result]
  by_cases h : trusted.isSome = true
  · simp only [if_pos h, compareLists_result logFp w numDevices paired numPaired h]
    rfl
  · simp only [if_neg h, if_neg fun hboth : _ ∧ _ => h hboth.1]
    rfl

/-- `pam_sm_authenticate` with its blocks comes to the same end. -/
theorem pamSmAuthenticate_result (A : Auth) :
    (PostAuth.pamSmAuthenticate A).1 = match (pamSmAuthenticate A).result with
      | .ok code => .returned code
      | .error fault => .crashed fault := by
  unfold pamSmAuthenticate authenticate PostAuth.pamSmAuthenticate
  simp only [Act.bind_result, Act.emitIf_result, ok_bind]
  rcases A.user with _ | username
  · simp [Act.bind_result]
  · simp only [Act.bind_result, bluetoothLogin_result]
    rcases BtTrust.bluetoothLogin A.world (some trustedDirPath) (some username) with e | login
    · rfl
    · rcases hstatus : login.status with _ | _
      · simp [hstatus]
      · simp [hstatus, Act.bind_result, execDeauth, afterExec]

end ProxyAuth.Heap
