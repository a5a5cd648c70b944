import ProxyAuth.Getline
import ProxyAuth.Sec
import ProxyAuth.BtPair
import ProxyAuth.FileName

/-!
The devices a user trusts, and the login decision (`pam_bt_trust.c`, `pam_misc.c`).

The trusted file of a user is checked, opened and read twice: `get_num_lines` counts the
lines that are not blank, and `set_trusted_devices` fills an array of that size. What the
system calls answer is an argument, separately for each place that asks, since the files may
change in between.
-/

namespace ProxyAuth.BtTrust

open ProxyAuth.Control ProxyAuth.CString ProxyAuth.Getline ProxyAuth.Stat ProxyAuth.Sec
open ProxyAuth.BtMisc ProxyAuth.BtPair ProxyAuth.FileName

/-! ### Opening it -/

/-- What the file system answers to the three calls on the way to the file, and what the two
`struct stat` hold before them. A handle has any type. -/
structure FileOps (φ : Type) where
  dirStale : St
  fileStale : St
  lstatDir : Str → Lstat
  lstatFile : Str → Lstat
  fopen : Str → Option φ

variable {φ : Type}

def getTrustedDevFile (lim : Limits) (stack : ℕ → Byte) (ops : FileOps φ) (dir user : Option Str) :
    Except Fault (Option φ) :=
  match dir, user with
  | some dir, some user => do
    let file ← fileName lim stack dir user
    if ret (checkConfig (ops.lstatFile file) ops.fileStale 0) = 0 then pure none
    else pure (ops.fopen file)
  | _, _ => .ok none

/-- `find_trusted_devices`, up to and including the call of `get_trusted_dev_file`. -/
def findTrustedFile (lim : Limits) (stack : ℕ → Byte) (ops : FileOps φ) (dir user : Option Str) :
    Except Fault (Option φ) :=
  match dir, user with
  | some d, some _ =>
    if ret (checkConfig (ops.lstatDir d) ops.dirStale 1) ≤ 0 then .ok none
    else getTrustedDevFile lim stack ops dir user
  | _, _ => .ok none

section Opening

variable {lim : Limits} {stack : ℕ → Byte} {ops : FileOps φ} {dir user : Str} {f : φ}

/-- A file is opened when its path passes the check. -/
lemma getTrustedDevFile_eq_some :
    getTrustedDevFile lim stack ops (some dir) (some user) = .ok (some f) ↔
      ∃ path, fileName lim stack dir user = .ok path ∧
        checkConfig (ops.lstatFile path) ops.fileStale 0 = .ok () ∧ ops.fopen path = some f := by
  simp only [getTrustedDevFile, bind_eq_ok, pure_eq_ok]
  refine exists_congr fun path => and_congr_right fun _ => ?_
  split_ifs with h
  · simp [ret_eq_zero.mp h]
  · simp [not_not.mp (ret_eq_zero.not.mp h)]

lemma findTrustedFile_eq_some :
    findTrustedFile lim stack ops (some dir) (some user) = .ok (some f) ↔
      ret (checkConfig (ops.lstatDir dir) ops.dirStale 1) = 1 ∧
        getTrustedDevFile lim stack ops (some dir) (some user) = .ok (some f) := by
  unfold findTrustedFile
  simp only [ret_le_zero]
  split_ifs with h <;> simp [h]

/-- The path the file of a user has. -/
def trustedPath (lim : Limits) (dir user : Str) : Str :=
  dir.take (clamp (lim.pathMax - 1) dir) ++ user.take (clamp lim.loginNameMax user)

/-- The search for the file always comes to a result: what `fopen` gives for the path, when
both checks accept. -/
lemma findTrustedFile_eq (lim : Limits) (stack : ℕ → Byte) (ops : FileOps φ) (dir user : Str) :
    findTrustedFile lim stack ops (some dir) (some user) =
      .ok (if ret (checkConfig (ops.lstatDir dir) ops.dirStale 1) ≤ 0 ∨
          ret (checkConfig (ops.lstatFile (trustedPath lim dir user)) ops.fileStale 0) = 0
        then none else ops.fopen (trustedPath lim dir user)) := by
  have hpath : fileName lim stack dir user = .ok (trustedPath lim dir user) :=
    fileName_eq lim stack dir user
  simp only [findTrustedFile, getTrustedDevFile, hpath, ok_bind, pure_eq_ok]
  by_cases hdir : ret (checkConfig (ops.lstatDir dir) ops.dirStale 1) ≤ 0
  · simp [hdir]
  · by_cases hfile :
        ret (checkConfig (ops.lstatFile (trustedPath lim dir user)) ops.fileStale 0) = 0
    · simp [hdir, hfile]
    · simp [hdir, hfile]

lemma findTrustedFile_ok (lim : Limits) (stack : ℕ → Byte) (ops : FileOps φ)
    (dir user : Option Str) : ∃ r, findTrustedFile lim stack ops dir user = .ok r := by
  rcases dir with _ | dir <;> rcases user with _ | user
  · exact ⟨_, rfl⟩
  · exact ⟨_, rfl⟩
  · exact ⟨_, rfl⟩
  · exact ⟨_, findTrustedFile_eq lim stack ops dir user⟩

end Opening

/-! ### Reading it -/

/-- The loop of `get_num_lines`, over the lines still to come. -/
def countLoop (A : Alloc) : List (List Byte) → Buf → ℤ → ℤ
  | [], _, n => n
  | l :: ls, line, n =>
    let line := getline A line l
    countLoop A ls line (if ofBuf line ≠ lit "\n" then wrap32 (n + 1) else n)

def getNumLines (A : Alloc) (content : List Byte) : ℤ := countLoop A (lines content) [] 0

/-- The variables of `set_trusted_devices`: the buffer, the array, `i`, and how often
`malloc` was called. -/
structure Fill where
  line : Buf
  slots : List Slot
  i : ℕ
  tries : ℕ

/-- The loop of `set_trusted_devices`; a failed allocation leaves a null pointer in the slot
and `i` where it is. -/
def fillLoop (A : Alloc) (alloc : ℕ → Bool) (num : ℕ) :
    List (List Byte) → Fill → Except Fault Fill
  | [], σ => .ok σ
  | l :: ls, σ =>
    let line := getline A σ.line l
    if σ.i < num then
      if ofBuf line ≠ lit "\n" then do
        let line ← store line btMacLen 0
        if alloc σ.tries then
          let slots ← storeSlot σ.slots σ.i (.str (copyMac line))
          fillLoop A alloc num ls ⟨line, slots, σ.i + 1, σ.tries + 1⟩
        else
          let slots ← storeSlot σ.slots σ.i .null
          fillLoop A alloc num ls ⟨line, slots, σ.i, σ.tries + 1⟩
      else fillLoop A alloc num ls { σ with line := line }
    else .ok { σ with line := line }

def setTrustedDevices (A : Alloc) (alloc : ℕ → Bool) (content : List Byte) (slots : List Slot)
    (num : ℤ) : Except Fault (List Slot) :=
  if 0 < num then do
    let σ ← fillLoop A alloc num.toNat (lines content) ⟨[], slots, 0, 0⟩
    pure σ.slots
  else .ok slots

/-- An open trusted file: what the counting pass reads, and what the filling pass reads. -/
structure TrustedFile where
  counted : List Byte
  filled : List Byte

/-- Everything one call of these functions meets outside of the program. -/
structure World where
  bus : Bus
  pairMem : Mem
  limits : Limits
  stack : ℕ → Byte
  files : FileOps TrustedFile
  lineMem : Alloc
  arrayMem : Bool
  entryMem : ℕ → Bool
  detectedMem : Bool

/-- `find_trusted_devices`: the array and the count. A count below zero asks `malloc` for
more than it can give. -/
def findTrustedDevices (w : World) (dir user : Option Str) :
    Except Fault (Option (List Slot) × ℤ) := do
  match ← findTrustedFile w.limits w.stack w.files dir user with
  | none => pure (none, 0)
  | some f =>
    let num := getNumLines w.lineMem f.counted
    if num = 0 then pure (none, 0)
    else if num < 0 ∨ w.arrayMem = false then pure (none, num)
    else
      let slots ← setTrustedDevices w.lineMem w.entryMem f.filled
        (List.replicate num.toNat .unwritten) num
      pure (some slots, num)

/-! ### The decision -/

/-- `status` and `*detected_dev`. -/
structure Login where
  status : Bool
  detected : Option Str
  deriving DecidableEq

/-- The loop of `find_trusted_paired_device`, over the paired devices not yet looked at. -/
def pairedLoop (trusted : Option (List Slot)) (numDevices : ℤ) (alloc : Bool)
    (detected : Option Str) :
    List Slot → ℕ → Except Fault Login
  | _, 0 => .ok ⟨false, detected⟩
  | [], _ + 1 => .error .outOfBounds
  | s :: ss, k + 1 => do
    let dev ← s.read
    if ← isDevTrusted dev trusted numDevices then
      match dev with
      | none => .error .nullDeref
      | some d => pure ⟨true, if alloc then some (copyMac d.bytes) else none⟩
    else pairedLoop trusted numDevices alloc detected ss k

def findTrustedPairedDevice (alloc : Bool) (trusted : Option (List Slot)) (numDevices : ℤ)
    (paired : Option (List Slot)) (numPaired : ℤ) (detected : Option Str) : Except Fault Login :=
  match trusted, paired with
  | some _, some p => pairedLoop trusted numDevices alloc detected p numPaired.toNat
  | _, _ => .ok ⟨false, detected⟩

def bluetoothLogin (w : World) (dir user : Option Str) : Except Fault Login := do
  let (paired, numPaired) ← getPairedDevices w.pairMem w.bus 0
  let (trusted, numDevices) ← findTrustedDevices w dir user
  let login ← (if trusted.isSome ∧ paired.isSome then
      findTrustedPairedDevice w.detectedMem trusted numDevices paired numPaired none
    else pure ⟨false, none⟩)
  freeDeviceList trusted numDevices
  freeDeviceList paired numPaired
  pure login

/-! ### What the two passes read -/

/-- The lines that are not blank. -/
def nonblank (content : List Byte) : List (List Byte) :=
  (lines content).filter fun l => l ≠ [newline]

/-- What a line becomes in the array: its first 17 bytes, up to a NUL. -/
def entry (l : List Byte) : Str := (ofBuf l).take btMacLen

lemma ofBuf_eq_newline_iff {l : List Byte} (h : Line l) : ofBuf l = lit "\n" ↔ l = [newline] := by
  refine ⟨fun hl => ?_, fun hl => by rw [hl]; decide⟩
  have hbytes : l.takeWhile (· != 0) = [newline] := congrArg Str.bytes hl
  have hhead : ∀ b t, l = b :: t → b = newline := by
    rintro b t rfl
    by_cases hb : b = 0
    · simp [hb] at hbytes
    · simp only [List.takeWhile_cons, bne_iff_ne, ne_eq, hb, not_false_eq_true, if_true,
        List.cons.injEq] at hbytes
      exact hbytes.1
  cases h with
  | @closed t ht =>
    rcases t with _ | ⟨b, t⟩
    · rfl
    · exact absurd (hhead b _ rfl) fun hb => ht (by simp [hb])
  | @last t ht hne =>
    rcases l with _ | ⟨b, t⟩
    · exact absurd rfl hne
    · exact absurd (hhead b _ rfl) fun hb => ht (by simp [hb])

lemma countLoop_eq (A : Alloc) (ls : List (List Byte)) (hls : ∀ l ∈ ls, Line l) (line : Buf)
    (k : ℤ) :
    countLoop A ls line (wrap32 k) = wrap32 (k + (ls.filter fun l => l ≠ [newline]).length) := by
  induction ls generalizing line k with
  | nil => simp [countLoop]
  | cons l ls ih =>
    have hl := hls l List.mem_cons_self
    have ih := ih fun l hl => hls l (List.mem_cons_of_mem _ hl)
    rw [countLoop, ofBuf_getline]
    by_cases hb : l = [newline]
    · rw [if_neg (not_not.mpr ((ofBuf_eq_newline_iff hl).mpr hb)), ih,
        List.filter_cons_of_neg (by simpa using hb)]
    · rw [if_pos (mt (ofBuf_eq_newline_iff hl).mp hb), wrap32_add, ih,
        List.filter_cons_of_pos (by simpa using hb)]
      congr 1
      push_cast [List.length_cons]
      ring

/-- The count is that of the lines that are not blank, as an `int`. -/
lemma getNumLines_eq (A : Alloc) (content : List Byte) :
    getNumLines A content = wrap32 (nonblank content).length := by
  have h := countLoop_eq A (lines content) (fun l => line_of_mem) [] 0
  rwa [Int.zero_add, wrap32_of_lt (by decide) (by decide)] at h

lemma getNumLines_le (A : Alloc) (content : List Byte) :
    (getNumLines A content).toNat ≤ (nonblank content).length := by
  have := wrap32_natCast_le (nonblank content).length
  rw [getNumLines_eq]; omega

lemma getNumLines_of_lt (A : Alloc) {content : List Byte}
    (h : (nonblank content).length < 2 ^ 31) :
    getNumLines A content = (nonblank content).length := by
  rw [getNumLines_eq, wrap32_of_lt (by omega) (by exact_mod_cast h)]

/-- The array, `i`, and the calls of `malloc`, without the buffer. -/
structure Stores where
  slots : List Slot
  i : ℕ
  tries : ℕ

/-- The filling pass as it looks from outside: each entry in turn is stored in the array, as
long as there is room. -/
def storeEach (alloc : ℕ → Bool) (num : ℕ) : List Str → Stores → Except Fault Stores
  | [], σ => .ok σ
  | s :: ss, σ =>
    if σ.i < num then
      if alloc σ.tries then do
        let slots ← storeSlot σ.slots σ.i (.str s)
        storeEach alloc num ss ⟨slots, σ.i + 1, σ.tries + 1⟩
      else do
        let slots ← storeSlot σ.slots σ.i .null
        storeEach alloc num ss ⟨slots, σ.i, σ.tries + 1⟩
    else .ok σ

/-- The entries of a file. -/
def entriesOf (content : List Byte) : List Str := (nonblank content).map entry

/-- **The buffer leaks nothing.** What the loop stores depends on the lines alone, not on
what the buffer held before. -/
lemma fillLoop_eq (A : Alloc) (alloc : ℕ → Bool) (num : ℕ) (ls : List (List Byte))
    (hls : ∀ l ∈ ls, Line l) {σ : Fill} (hbuf : σ.line = [] ∨ 120 ≤ σ.line.length) :
    ∃ line, fillLoop A alloc num ls σ =
      (storeEach alloc num ((ls.filter fun l => l ≠ [newline]).map entry)
        ⟨σ.slots, σ.i, σ.tries⟩).map fun r => ⟨line, r.slots, r.i, r.tries⟩ := by
  induction ls generalizing σ with
  | nil => exact ⟨σ.line, rfl⟩
  | cons l ls ih =>
    have hl := hls l List.mem_cons_self
    have ih := @ih fun l hl => hls l (List.mem_cons_of_mem _ hl)
    have hlen := getline_length A l hbuf
    rw [fillLoop]
    by_cases hroom : σ.i < num
    · rw [if_pos hroom, ofBuf_getline]
      by_cases hb : l = [newline]
      · rw [if_neg (not_not.mpr ((ofBuf_eq_newline_iff hl).mpr hb)),
          List.filter_cons_of_neg (by simpa using hb)]
        exact ih (σ := { σ with line := _ }) (.inr hlen)
      · have hcut : btMacLen < (getline A σ.line l).length := by unfold btMacLen; omega
        have hcopy : copyMac ((getline A σ.line l).set btMacLen 0) = entry l := by
          rw [copyMac_eq, ofBuf_getline_set A _ _ hcut, entry]
          exact Str.take_of_len_le (by simp)
        have hlen' : 120 ≤ ((getline A σ.line l).set btMacLen 0).length := by simpa using hlen
        rw [if_pos (mt (ofBuf_eq_newline_iff hl).mp hb), store, if_pos hcut, ok_bind, hcopy,
          List.filter_cons_of_pos (by simpa using hb), List.map_cons, storeEach]
        simp only [hroom, if_true]
        by_cases halloc : alloc σ.tries = true
        · simp only [halloc, if_true]
          rcases storeSlot σ.slots σ.i (.str (entry l)) with e | slots
          · exact ⟨[], rfl⟩
          · exact ih (σ := ⟨_, slots, σ.i + 1, σ.tries + 1⟩) (.inr hlen')
        · simp only [halloc, if_false, Bool.false_eq_true]
          rcases storeSlot σ.slots σ.i .null with e | slots
          · exact ⟨[], rfl⟩
          · exact ih (σ := ⟨_, slots, σ.i, σ.tries + 1⟩) (.inr hlen')
    · rw [if_neg hroom]
      rcases hf : (l :: ls).filter fun l => l ≠ [newline] with _ | ⟨l', ls'⟩
      · exact ⟨getline A σ.line l, rfl⟩
      · refine ⟨getline A σ.line l, ?_⟩
        rw [List.map_cons, storeEach]
        simp only [hroom, if_false]
        rfl

lemma setTrustedDevices_eq (A : Alloc) (alloc : ℕ → Bool) (content : List Byte)
    (slots : List Slot) {num : ℤ} (hnum : 0 < num) :
    setTrustedDevices A alloc content slots num =
      (storeEach alloc num.toNat (entriesOf content) ⟨slots, 0, 0⟩).map Stores.slots := by
  obtain ⟨line, hfill⟩ := fillLoop_eq A alloc num.toNat (lines content) (fun l => line_of_mem)
    (σ := ⟨[], slots, 0, 0⟩) (.inl rfl)
  rw [setTrustedDevices, if_pos hnum, hfill, entriesOf, nonblank]
  cases storeEach _ _ _ _ <;> rfl

/-- The list of `find_trusted_devices`, made of the entries `es` in an array of `num` slots. -/
def stored (array : Bool) (alloc : ℕ → Bool) (num : ℤ) (es : List Str) :
    Except Fault (Option (List Slot) × ℤ) :=
  if num = 0 then .ok (none, 0)
  else if num < 0 ∨ array = false then .ok (none, num)
  else (storeEach alloc num.toNat es ⟨List.replicate num.toNat .unwritten, 0, 0⟩).map
    fun σ => (some σ.slots, num)

lemma findTrustedDevices_opened {w : World} {dir user : Option Str} {f : TrustedFile}
    (h : findTrustedFile w.limits w.stack w.files dir user = .ok (some f)) :
    findTrustedDevices w dir user =
      stored w.arrayMem w.entryMem (getNumLines w.lineMem f.counted) (entriesOf f.filled) := by
  simp only [findTrustedDevices, h, ok_bind]
  unfold stored
  split_ifs with hzero hnone
  · rfl
  · rfl
  · rw [setTrustedDevices_eq _ _ _ _ (by omega)]
    cases storeEach _ _ _ _ <;> rfl

lemma findTrustedDevices_unopened {w : World} {dir user : Option Str}
    (h : findTrustedFile w.limits w.stack w.files dir user = .ok none) :
    findTrustedDevices w dir user = .ok (none, 0) := by
  simp [findTrustedDevices, h]

/-- With memory, the entries are stored in order, as many as there is room for. -/
lemma storeEach_prefilled {alloc : ℕ → Bool} (halloc : ∀ k, alloc k = true) {num : ℕ}
    (ss : List Str) {σ : Stores} {ws : List Str} (hslots : Prefilled num σ.slots ws)
    (hi : σ.i = ws.length) :
    ∃ σ', storeEach alloc num ss σ = .ok σ' ∧
      Prefilled num σ'.slots (ws ++ ss.take (num - ws.length)) := by
  induction ss generalizing σ ws with
  | nil => exact ⟨σ, rfl, by simpa using hslots⟩
  | cons s ss ih =>
    rw [storeEach]
    by_cases hroom : σ.i < num
    · obtain ⟨slots, hs, hpre⟩ := hslots.store (hi ▸ hroom) s
      obtain ⟨k, hk⟩ : ∃ k, num - ws.length = k + 1 := ⟨num - ws.length - 1, by omega⟩
      have hk' : num - (ws ++ [s]).length = k := by
        rw [List.length_append, List.length_singleton]; omega
      have hih := ih (σ := ⟨slots, σ.i + 1, σ.tries + 1⟩) hpre (by simp [hi])
      rw [if_pos hroom, halloc, if_pos rfl, hi, hs, ok_bind, hk, List.take_succ_cons]
      rw [hk'] at hih
      simpa [hi] using hih
    · have hzero : num - ws.length = 0 := by omega
      rw [if_neg hroom, hzero]
      exact ⟨σ, rfl, by simpa using hslots⟩

/-- Whatever allocations fail, every store is inside the array, and every string in it is one
of the entries. -/
lemma storeEach_any (alloc : ℕ → Bool) (num : ℕ) (ss : List Str) {σ : Stores}
    (hlen : σ.slots.length = num) :
    ∃ σ', storeEach alloc num ss σ = .ok σ' ∧ σ'.slots.length = num ∧
      ∀ s, .str s ∈ σ'.slots → .str s ∈ σ.slots ∨ s ∈ ss := by
  induction ss generalizing σ with
  | nil => exact ⟨σ, rfl, hlen, fun s h => .inl h⟩
  | cons t ss ih =>
    rw [storeEach]
    by_cases hroom : σ.i < num
    · have hstore : ∀ x, storeSlot σ.slots σ.i x = .ok (σ.slots.set σ.i x) := fun x => by
        rw [storeSlot, if_pos (by omega)]
      -- What goes to the slot is the entry, or nothing.
      have hrest : ∀ x i, (∀ s, Slot.str s = x → s = t) →
          ∃ σ', storeEach alloc num ss ⟨σ.slots.set σ.i x, i, σ.tries + 1⟩ = .ok σ' ∧
            σ'.slots.length = num ∧ ∀ s, .str s ∈ σ'.slots → .str s ∈ σ.slots ∨ s ∈ t :: ss := by
        intro x i hx
        obtain ⟨σ', h, hl, hs⟩ := ih (σ := ⟨σ.slots.set σ.i x, i, σ.tries + 1⟩)
          (by simpa using hlen)
        refine ⟨σ', h, hl, fun s hmem => ?_⟩
        rcases hs s hmem with hmem | hmem
        · rcases List.mem_or_eq_of_mem_set hmem with hold | hnew
          · exact .inl hold
          · exact .inr (hx s hnew ▸ List.mem_cons_self)
        · exact .inr (List.mem_cons_of_mem _ hmem)
      by_cases halloc : alloc σ.tries = true
      · obtain ⟨σ', h, hl, hs⟩ := hrest (.str t) (σ.i + 1) (by simp)
        exact ⟨σ', by simp [hroom, halloc, hstore, h], hl, hs⟩
      · obtain ⟨σ', h, hl, hs⟩ := hrest .null σ.i (by simp)
        exact ⟨σ', by simp [hroom, halloc, hstore, h], hl, hs⟩
    · rw [if_neg hroom]
      exact ⟨σ, rfl, hlen, fun s h => .inl h⟩

end ProxyAuth.BtTrust
