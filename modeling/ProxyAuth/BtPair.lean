import ProxyAuth.BtMisc
import Mathlib.Data.List.Infix

/-!
The devices BlueZ reports as connected and trusted (`pam_bt_pair.c`).

The reply to `GetManagedObjects` lists objects, each with its interfaces and their
properties. Every interface whose name mentions a device is looked at, and the address of
one that is connected and trusted is stored in the next slot of an array of `BT_MAX_CONN`
pointers.
-/

namespace ProxyAuth.BtPair

open ProxyAuth.Control ProxyAuth.CString ProxyAuth.BtMisc

/-- A property value; of the types other than `b` and `s` only the signature matters. -/
inductive Variant
  | boolean (b : Bool)
  | string (s : Str)
  | other (signature : Str)
  deriving DecidableEq

abbrev Props := List (Str × Variant)

structure Object where
  path : Str
  ifaces : List (Str × Props)

/-- What a query comes to: no system bus, a failed or timed-out call, or a reply. -/
inductive Bus
  | noBus | callFailed
  | reply (objects : List Object)

/-- The value a dictionary built from `props` holds under `key`; a later entry replaces an
earlier one. -/
def lookup (props : Props) (key : Str) : Option Variant :=
  (props.reverse.find? fun p => p.1 == key).map (·.2)

/-- `g_variant_dict_lookup_value` with type `b`. -/
def lookupBool (props : Props) (key : Str) : Option Bool :=
  match lookup props key with
  | some (.boolean b) => some b
  | _ => none

/-- `g_variant_dict_lookup_value` with type `s`. -/
def lookupString (props : Props) (key : Str) : Option Str :=
  match lookup props key with
  | some (.string s) => some s
  | _ => none

/-- `check_is_paired`; `alloc` says whether its `malloc` succeeds. -/
def checkIsPaired (alloc : Bool) (props : Props) : Option Str := do
  let isConnected ← lookupBool props (lit "Connected")
  let isTrusted ← lookupBool props (lit "Trusted")
  if isConnected && isTrusted then
    let addr ← lookupString props (lit "Address")
    if alloc then some (copyMac addr.bytes) else none
  else none

def asciiLower (c : Byte) : Byte := if 65 ≤ c && c ≤ 90 then c + 32 else c

/-- `g_strstr_len(haystack, -1, needle)` finds something. -/
def strstr (haystack needle : List Byte) : Bool := haystack.tails.any needle.isPrefixOf

/-- The interface name, in lower case, contains `device`. -/
def namesDevice (name : Str) : Bool := strstr (name.bytes.map asciiLower) (lit "device").bytes

/-- Which allocations of this file succeed: the array, and the string of each call of
`check_is_paired`. -/
structure Mem where
  array : Bool
  addr : ℕ → Bool

/-- The loop variables: the array, `num_of_paired_lc`, and the calls made so far. -/
structure Scan where
  slots : List Slot
  num : ℕ
  calls : ℕ

/-- The body of the inner loop. -/
def scanIface (mem : Mem) (σ : Scan) (iface : Str × Props) : Except Fault Scan :=
  if namesDevice iface.1 then
    match checkIsPaired (mem.addr σ.calls) iface.2 with
    | none => .ok { σ with calls := σ.calls + 1 }
    | some addr => do
      let slots ← storeSlot σ.slots σ.num (.str addr)
      pure ⟨slots, σ.num + 1, σ.calls + 1⟩
  else .ok σ

/-- The body of the outer loop. -/
def scanObject (mem : Mem) (σ : Scan) (o : Object) : Except Fault Scan :=
  o.ifaces.foldlM (scanIface mem) σ

def scanInit : Scan := ⟨List.replicate btMaxConn .unwritten, 0, 0⟩

/-- `process_dbus_bt_list`: the array, and the count, left as it was when there is none. -/
def processDbusBtList (mem : Mem) (result : Option (List Object)) (num : ℤ) :
    Except Fault (Option (List Slot) × ℤ) :=
  match result with
  | none => .ok (none, num)
  | some objects =>
    if mem.array then do
      let σ ← objects.foldlM (scanObject mem) scanInit
      pure (some σ.slots, σ.num)
    else .ok (none, num)

def getPairedDevices (mem : Mem) (bus : Bus) (num : ℤ) : Except Fault (Option (List Slot) × ℤ) :=
  match bus with
  | .noBus => .ok (none, num)
  | .callFailed => processDbusBtList mem none num
  | .reply objects => processDbusBtList mem (some objects) num

/-! ### The entries that qualify -/

/-- The name contains the word, in any letter case. -/
def MentionsDevice (name : Str) : Prop :=
  ∃ pre w post, name.bytes = pre ++ w ++ post ∧ w.map asciiLower = (lit "device").bytes

/-- An interface entry that describes a connected and trusted device with this address. -/
structure Qualifies (iface : Str × Props) (addr : Str) : Prop where
  device : MentionsDevice iface.1
  connected : lookup iface.2 (lit "Connected") = some (.boolean true)
  trusted : lookup iface.2 (lit "Trusted") = some (.boolean true)
  address : lookup iface.2 (lit "Address") = some (.string addr)

/-- The interface entries of a reply, in order. -/
def entries (objects : List Object) : List (Str × Props) := objects.flatMap Object.ifaces

/-- The address of an entry, when it qualifies. -/
def qualifying (iface : Str × Props) : Option Str :=
  if namesDevice iface.1 ∧ lookupBool iface.2 (lit "Connected") = some true ∧
      lookupBool iface.2 (lit "Trusted") = some true then
    lookupString iface.2 (lit "Address")
  else none

/-- The addresses of the qualifying entries, in reply order. -/
def addresses (objects : List Object) : List Str := (entries objects).filterMap qualifying

/-- The addresses of the qualifying entries for which there was memory; the calls of
`check_is_paired` are numbered from `k` on. -/
def kept (mem : Mem) (k : ℕ) (es : List (Str × Props)) : List Str :=
  ((es.filter fun e => namesDevice e.1).zipIdx k).filterMap fun p =>
    if mem.addr p.2 then qualifying p.1 else none

lemma strstr_iff {h n : List Byte} : strstr h n = true ↔ n <:+: h := by
  simp only [strstr, List.any_eq_true, List.mem_tails, List.isPrefixOf_iff_prefix]
  exact ⟨fun ⟨t, hs, hp⟩ => hp.isInfix.trans hs.isInfix, fun h => by
    obtain ⟨t, hp, hs⟩ := List.infix_iff_prefix_suffix.mp h
    exact ⟨t, hs, hp⟩⟩

lemma namesDevice_iff {name : Str} : namesDevice name = true ↔ MentionsDevice name := by
  rw [namesDevice, strstr_iff]
  constructor
  · rintro ⟨pre, post, h⟩
    obtain ⟨l, post', hl, h1, rfl⟩ := List.map_eq_append_iff.mp h.symm
    obtain ⟨pre', w, rfl, rfl, hw⟩ := List.map_eq_append_iff.mp h1
    exact ⟨pre', w, post', hl, hw⟩
  · rintro ⟨pre, w, post, h, hw⟩
    exact ⟨pre.map asciiLower, post.map asciiLower, by simp [h, hw]⟩

lemma lookupBool_eq_some {props : Props} {key : Str} {b : Bool} :
    lookupBool props key = some b ↔ lookup props key = some (.boolean b) := by
  unfold lookupBool
  rcases lookup props key with _ | v
  · simp
  · cases v <;> simp

lemma lookupString_eq_some {props : Props} {key s : Str} :
    lookupString props key = some s ↔ lookup props key = some (.string s) := by
  unfold lookupString
  rcases lookup props key with _ | v
  · simp
  · cases v <;> simp

lemma qualifying_eq_some {iface : Str × Props} {addr : Str} :
    qualifying iface = some addr ↔ Qualifies iface addr := by
  unfold qualifying
  split_ifs with h
  · obtain ⟨hd, hc, ht⟩ := h
    rw [lookupString_eq_some]
    exact ⟨fun ha =>
      ⟨namesDevice_iff.mp hd, lookupBool_eq_some.mp hc, lookupBool_eq_some.mp ht, ha⟩,
      Qualifies.address⟩
  · refine ⟨fun ha => by simp at ha, fun q => absurd ⟨?_, ?_, ?_⟩ h⟩
    · exact namesDevice_iff.mpr q.device
    · exact lookupBool_eq_some.mpr q.connected
    · exact lookupBool_eq_some.mpr q.trusted

lemma mem_addresses {objects : List Object} {a : Str} :
    a ∈ addresses objects ↔ ∃ e ∈ entries objects, Qualifies e a := by
  simp [addresses, qualifying_eq_some]

/-- An entry that names a device yields the address exactly when it qualifies and there is
memory, cut at 17 bytes. -/
lemma checkIsPaired_eq {iface : Str × Props} (h : namesDevice iface.1 = true) (alloc : Bool) :
    checkIsPaired alloc iface.2 =
      (if alloc then qualifying iface else none).map (Str.take btMacLen) := by
  unfold checkIsPaired qualifying
  rcases hc : lookupBool iface.2 (lit "Connected") with _ | c <;>
    rcases ht : lookupBool iface.2 (lit "Trusted") with _ | t <;> try simp [h]
  cases c <;> cases t <;> simp
  cases lookupString iface.2 (lit "Address") <;> cases alloc <;> simp [copyMac_bytes]

lemma qualifying_eq_none_of_not_namesDevice {iface : Str × Props}
    (h : namesDevice iface.1 = false) : qualifying iface = none := by
  simp [qualifying, h]

variable {mem : Mem} {k : ℕ}

lemma kept_nil : kept mem k [] = [] := rfl

lemma kept_cons_of_not_namesDevice {e : Str × Props} (h : namesDevice e.1 = false)
    (es : List (Str × Props)) : kept mem k (e :: es) = kept mem k es := by
  rw [kept, List.filter_cons_of_neg (by simp [h]), kept]

lemma kept_cons_of_namesDevice {e : Str × Props} (h : namesDevice e.1 = true)
    (es : List (Str × Props)) :
    kept mem k (e :: es) =
      (if mem.addr k then qualifying e else none).toList ++ kept mem (k + 1) es := by
  rw [kept, List.filter_cons_of_pos (by simp [h]), List.zipIdx_cons, List.filterMap_cons]
  rcases (if mem.addr k then qualifying e else none) with _ | a
  · rfl
  · rfl

/-- With memory for every address, all that qualify are kept. -/
lemma kept_of_addr (hmem : ∀ k, mem.addr k = true) (es : List (Str × Props)) :
    kept mem k es = es.filterMap qualifying := by
  induction es generalizing k with
  | nil => rfl
  | cons e es ih =>
    by_cases hd : namesDevice e.1 = true
    · rw [kept_cons_of_namesDevice hd, hmem, if_pos rfl, ih]
      rcases hq : qualifying e with _ | a
      · rw [List.filterMap_cons_none hq]
        rfl
      · rw [List.filterMap_cons_some hq]
        rfl
    · have hd : namesDevice e.1 = false := by simpa using hd
      rw [kept_cons_of_not_namesDevice hd, ih,
        List.filterMap_cons_none (qualifying_eq_none_of_not_namesDevice hd)]

/-! ### What the scan stores -/

/-- The scan has stored the addresses `ws`, and counted them. -/
structure Scanned (σ : Scan) (ws : List Str) : Prop where
  slots : Prefilled btMaxConn σ.slots ws
  num : σ.num = ws.length

lemma scanned_init : Scanned scanInit [] := ⟨prefilled_nil btMaxConn, rfl⟩

/-- One entry that names a device: nothing is stored unless it qualifies and there is memory;
then the address is, if there is a slot left for it. -/
lemma scanIface_step (mem : Mem) {σ : Scan} {ws : List Str} (h : Scanned σ ws) {e : Str × Props}
    (hd : namesDevice e.1 = true) :
    match (if mem.addr σ.calls then qualifying e else none) with
    | none => ∃ σ', scanIface mem σ e = .ok σ' ∧ Scanned σ' ws ∧ σ'.calls = σ.calls + 1
    | some a =>
      if ws.length < btMaxConn then
        ∃ σ', scanIface mem σ e = .ok σ' ∧ Scanned σ' (ws ++ [a.take btMacLen]) ∧
          σ'.calls = σ.calls + 1
      else scanIface mem σ e = .error .outOfBounds := by
  unfold scanIface
  rw [if_pos hd, checkIsPaired_eq hd]
  rcases (if mem.addr σ.calls then qualifying e else none) with _ | a
  · exact ⟨_, rfl, ⟨h.slots, h.num⟩, rfl⟩
  · split_ifs with hlt
    · obtain ⟨slots, hs, hsc⟩ := h.slots.store hlt (a.take btMacLen)
      exact ⟨⟨slots, ws.length + 1, σ.calls + 1⟩, by simp [h.num, hs], ⟨hsc, by simp⟩, rfl⟩
    · simp [h.num, h.slots.store_full hlt]

lemma scanIface_skip {σ : Scan} {e : Str × Props} (hd : namesDevice e.1 = false) :
    scanIface mem σ e = .ok σ := by
  rw [scanIface, if_neg (by simp [hd])]

lemma scan_flatten (objects : List Object) (σ : Scan) :
    objects.foldlM (scanObject mem) σ = (entries objects).foldlM (scanIface mem) σ := by
  induction objects generalizing σ with
  | nil => rfl
  | cons o os ih =>
    rw [List.foldlM_cons, entries, List.flatMap_cons, List.foldlM_append]
    unfold scanObject
    congr 1
    funext σ'
    exact ih σ'

/-- All entries: the addresses that are kept, in order, as long as they fit. -/
lemma scan_run (mem : Mem) (es : List (Str × Props)) {σ : Scan} {ws : List Str} (h : Scanned σ ws) :
    if ws.length + (kept mem σ.calls es).length ≤ btMaxConn then
      ∃ σ', es.foldlM (scanIface mem) σ = .ok σ' ∧
        Scanned σ' (ws ++ (kept mem σ.calls es).map (Str.take btMacLen))
    else es.foldlM (scanIface mem) σ = .error .outOfBounds := by
  induction es generalizing σ ws with
  | nil =>
    rw [if_pos (by simpa [kept_nil] using h.slots.le)]
    exact ⟨σ, rfl, by simpa [kept_nil] using h⟩
  | cons e es ih =>
    rw [List.foldlM_cons]
    by_cases hd : namesDevice e.1 = true
    · have hstep := scanIface_step mem h hd
      rw [kept_cons_of_namesDevice hd]
      rcases hq : (if mem.addr σ.calls then qualifying e else none) with _ | a
      · rw [hq] at hstep
        obtain ⟨σ₁, h₁, hs₁, hcalls⟩ := hstep
        rw [h₁, ok_bind, ← hcalls]
        exact ih hs₁
      · rw [hq] at hstep
        by_cases hlt : ws.length < btMaxConn
        · simp only [hlt, if_true] at hstep
          obtain ⟨σ₁, h₁, hs₁, hcalls⟩ := hstep
          rw [h₁, ok_bind, ← hcalls]
          have hih := ih hs₁
          rw [List.length_append, List.length_singleton, Nat.add_assoc, Nat.add_comm 1] at hih
          simpa using hih
        · simp only [hlt, if_false] at hstep
          rw [hstep, error_bind, if_neg (by simp; omega)]
    · have hd : namesDevice e.1 = false := by simpa using hd
      rw [scanIface_skip hd, ok_bind, kept_cons_of_not_namesDevice hd]
      exact ih h

/-- What the array holds after a reply, when it was allocated. -/
lemma processDbusBtList_kept (harray : mem.array = true) (objects : List Object) (num : ℤ) :
    if (kept mem 0 (entries objects)).length ≤ btMaxConn then
      ∃ slots, processDbusBtList mem (some objects) num =
          .ok (some slots, ((kept mem 0 (entries objects)).length : ℤ)) ∧
        Prefilled btMaxConn slots ((kept mem 0 (entries objects)).map (Str.take btMacLen))
    else processDbusBtList mem (some objects) num = .error .outOfBounds := by
  have hrun := scan_run mem (entries objects) scanned_init
  unfold processDbusBtList
  simp only [harray, if_true, scan_flatten]
  simp only [List.length_nil, Nat.zero_add, List.nil_append] at hrun
  change if (kept mem 0 (entries objects)).length ≤ btMaxConn then _ else _ at hrun
  split_ifs at hrun ⊢ with h
  · obtain ⟨σ, hσ, hs⟩ := hrun
    refine ⟨σ.slots, ?_, hs.slots⟩
    rw [hσ, ok_bind, hs.num, List.length_map]
    rfl
  · rw [hrun, error_bind]

/-- **The array of connected devices.** With memory, it holds the addresses of the
qualifying entries in order, each cut at 17 bytes; one entry too many is a store outside
of it. -/
theorem processDbusBtList_eq (harray : mem.array = true) (haddr : ∀ k, mem.addr k = true)
    (objects : List Object) (num : ℤ) :
    if (addresses objects).length ≤ btMaxConn then
      ∃ slots, processDbusBtList mem (some objects) num =
          .ok (some slots, ((addresses objects).length : ℤ)) ∧
        Filled slots ((addresses objects).map (Str.take btMacLen))
    else processDbusBtList mem (some objects) num = .error .outOfBounds := by
  have h := processDbusBtList_kept harray objects num
  rw [kept_of_addr haddr] at h
  change if (addresses objects).length ≤ btMaxConn then _ else _ at h
  split_ifs at h ⊢
  · obtain ⟨slots, hs, hpre⟩ := h
    exact ⟨slots, hs, hpre.filled⟩
  · exact h

/-! ### Room in the array -/

/-- Every store of the scan is inside the array, and the count that is reported, if one is, is
at most the number of slots. -/
def StaysInside (mem : Mem) (objects : List Object) (num : ℤ) : Prop :=
  ∃ r, processDbusBtList mem (some objects) num = .ok r ∧
    ∀ slots, r.1 = some slots → slots.length = btMaxConn ∧ r.2 ≤ btMaxConn

/-- **Room in the array.** The scan stays inside exactly when there is no array, or at most
`BT_MAX_CONN` entries qualify and find memory for their address. -/
theorem staysInside_iff (mem : Mem) (objects : List Object) (num : ℤ) :
    StaysInside mem objects num ↔
      (mem.array = true → (kept mem 0 (entries objects)).length ≤ btMaxConn) := by
  by_cases harray : mem.array = true
  · have h := processDbusBtList_kept harray objects num
    split_ifs at h with hfits
    · obtain ⟨slots, hs, hpre⟩ := h
      refine ⟨fun _ _ => hfits, fun _ => ⟨_, hs, ?_⟩⟩
      rintro slots' heq
      obtain rfl : slots = slots' := Option.some.inj heq
      exact ⟨hpre.length, Int.ofNat_le.mpr hfits⟩
    · refine ⟨?_, fun hle => absurd (hle harray) hfits⟩
      rintro ⟨r, hr, -⟩
      rw [h] at hr
      cases hr
  · have hnone : processDbusBtList mem (some objects) num = .ok (none, num) := by
      simp [processDbusBtList, harray]
    refine ⟨fun _ h => absurd h harray, fun _ => ⟨_, hnone, ?_⟩⟩
    rintro slots heq
    cases heq

/-- The entry of a connected and trusted device. -/
def device (addr : Str) : Str × Props :=
  (lit "org.bluez.Device1", [(lit "Address", .string addr), (lit "Connected", .boolean true),
    (lit "Trusted", .boolean true)])

/-- Eight devices are connected over two adapters. -/
def crowd : List Object :=
  [⟨lit "/org/bluez/hci0/dev", List.replicate 4 (device (lit "AC:37:43:8E:C1:F4"))⟩,
    ⟨lit "/org/bluez/hci1/dev", List.replicate 4 (device (lit "AC:37:43:8E:C1:F5"))⟩]

/-- Every allocation succeeds. -/
def roomy : Mem := ⟨true, fun _ => true⟩

theorem not_staysInside_crowd : ¬ StaysInside roomy crowd 0 := by
  have hlen : ¬ (addresses crowd).length ≤ btMaxConn := by decide
  have harray : roomy.array = true := rfl
  have h := processDbusBtList_eq harray (fun _ => rfl) crowd 0
  rw [if_neg hlen] at h
  rintro ⟨r, hr, -⟩
  rw [h] at hr
  cases hr

end ProxyAuth.BtPair
