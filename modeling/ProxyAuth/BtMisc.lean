import ProxyAuth.Control
import ProxyAuth.CString
import Mathlib.Data.List.Basic
import Mathlib.Data.List.GetD

/-!
Bluetooth addresses and arrays of them (`pam_bt_misc.c`).

An array of addresses is a block of pointers that `malloc` left uninitialised; a slot holds
a string once one was stored in it, and the null pointer when the allocation of the string
failed. The loops trust the count they are given, so reading past the block, or reading a
slot that was never written, is a fault here.
-/

namespace ProxyAuth.BtMisc

open ProxyAuth.Control ProxyAuth.CString

def btMacLen : ℕ := 17
def btMaxConn : ℕ := 7

def trustedDirPath : Str := lit "/etc/proxy_auth/"

/-! ### Addresses -/

def colon : Byte := 58

/-- `isxdigit` in the C locale. -/
def isxdigit (c : Byte) : Bool :=
  (48 ≤ c && c ≤ 57) || (65 ≤ c && c ≤ 70) || (97 ≤ c && c ≤ 102)

/-- The `while` loop of `verify_bt_addr`: `is_valid` and `len` when it stops. -/
def verifyLoop : ℕ → List Byte → Bool × ℕ
  | len, [] => (true, len)
  | len, c :: cs =>
    let isDiv3 := (len + 1) % 3 == 0
    if btMacLen < len || (!isxdigit c && !isDiv3) || (!isxdigit c && isDiv3 && c != colon) then
      (false, len)
    else verifyLoop (len + 1) cs

def verifyBtAddr (address : Option Str) : Bool :=
  match address with
  | none => false
  | some a =>
    if a.len ≤ btMacLen then
      let r := verifyLoop 0 a.bytes
      r.1 && r.2 == btMacLen
    else false

/-- What the documentation calls a Bluetooth address: 17 characters, a colon at each of
these positions and a hexadecimal digit at every other. -/
def colonAt : List ℕ := [2, 5, 8, 11, 14]

def okAt (i : ℕ) (c : Byte) : Bool := if i ∈ colonAt then c == colon else isxdigit c

def IsBtAddr (l : List Byte) : Prop :=
  l.length = btMacLen ∧ ∀ i (h : i < l.length), okAt i l[i] = true

instance (l : List Byte) : Decidable (IsBtAddr l) := inferInstanceAs (Decidable (_ ∧ _))

/-- What the loop lets through: at every third position also a colon. -/
def passes (i : ℕ) (c : Byte) : Bool := isxdigit c || ((i + 1) % 3 == 0 && c == colon)

lemma verifyLoop_eq (len : ℕ) (l : List Byte) (hlen : len + l.length ≤ btMacLen + 1)
    (h : ∀ i (hi : i < l.length), passes (len + i) l[i] = true) :
    verifyLoop len l = (true, len + l.length) := by
  induction l generalizing len with
  | nil => rfl
  | cons c cs ih =>
    have hc : passes len c = true := h 0 (by simp)
    have hlt : ¬ btMacLen < len := by simp only [List.length_cons] at hlen; omega
    have hcond : (btMacLen < len || (!isxdigit c && !((len + 1) % 3 == 0)) ||
        (!isxdigit c && (len + 1) % 3 == 0 && c != colon)) = false := by
      unfold passes at hc
      cases hx : isxdigit c <;> simp_all
    rw [verifyLoop, if_neg (by simpa using hcond), ih (len + 1)]
    · simp only [List.length_cons]; congr 1; omega
    · simp only [List.length_cons] at hlen; omega
    · intro i hi
      have := h (i + 1) (by simpa using hi)
      rw [List.getElem_cons_succ] at this
      rwa [Nat.add_right_comm, Nat.add_assoc]

lemma passes_of_okAt {i : ℕ} {c : Byte} (h : okAt i c = true) : passes i c = true := by
  unfold okAt at h
  unfold passes
  split_ifs at h with hi
  · have hi3 : (i + 1) % 3 = 0 := by
      simp only [colonAt, List.mem_cons, List.not_mem_nil, or_false] at hi
      omega
    simp [h, hi3]
  · simp [h]

/-- The loop comes to the end of the string only if every character passes, and has then
counted all of them. -/
lemma passes_of_verifyLoop {len : ℕ} {l : List Byte} (h : (verifyLoop len l).1 = true) :
    (∀ i (hi : i < l.length), passes (len + i) l[i] = true) ∧
      (verifyLoop len l).2 = len + l.length := by
  induction l generalizing len with
  | nil => exact ⟨fun i hi => absurd hi (Nat.not_lt_zero i), rfl⟩
  | cons c cs ih =>
    rw [verifyLoop] at h ⊢
    split_ifs at h ⊢ with hcond
    obtain ⟨hrest, hlen⟩ := ih h
    have hc : passes len c = true := by
      unfold passes
      cases hx : isxdigit c <;> simp_all
    refine ⟨fun i hi => ?_, by rw [hlen, List.length_cons]; omega⟩
    cases i with
    | zero => exact hc
    | succ i =>
      have := hrest i (by simpa using hi)
      rwa [Nat.add_right_comm, Nat.add_assoc] at this

/-- What `verify_bt_addr` accepts. -/
lemma verifyBtAddr_iff {a : Str} : verifyBtAddr (some a) = true ↔
    a.bytes.length = btMacLen ∧ ∀ i (h : i < a.bytes.length), passes i a.bytes[i] = true := by
  constructor
  · intro h
    simp only [verifyBtAddr] at h
    split_ifs at h
    simp only [Bool.and_eq_true, beq_iff_eq] at h
    obtain ⟨hpass, hlen⟩ := passes_of_verifyLoop h.1
    rw [hlen, Nat.zero_add] at h
    refine ⟨h.2, fun i hi => ?_⟩
    have := hpass i hi
    rwa [Nat.zero_add] at this
  · rintro ⟨hlen, hpass⟩
    have hloop := verifyLoop_eq 0 a.bytes (by rw [hlen]; omega) fun i hi => by
      rw [Nat.zero_add]; exact hpass i hi
    have hlen' : a.len = btMacLen := hlen
    simp [verifyBtAddr, hlen', hloop, hlen]

/-- Every address in the documented form passes. -/
lemma verifyBtAddr_of_isBtAddr {a : Str} (h : IsBtAddr a.bytes) :
    verifyBtAddr (some a) = true :=
  verifyBtAddr_iff.mpr ⟨h.1, fun i hi => passes_of_okAt (h.2 i hi)⟩

/-- An address in which some of the colons, at least one, are hexadecimal digits. -/
structure DigitForColon (l : List Byte) : Prop where
  length : l.length = btMacLen
  others : ∀ i (h : i < l.length), i ∉ colonAt → isxdigit l[i] = true
  colons : ∀ i (h : i < l.length), i ∈ colonAt → l[i] = colon ∨ isxdigit l[i] = true
  digit : ∃ i, ∃ h : i < l.length, i ∈ colonAt ∧ isxdigit l[i] = true

lemma mem_colonAt_iff {i : ℕ} (h : i < btMacLen) : i ∈ colonAt ↔ (i + 1) % 3 = 0 := by
  unfold btMacLen at h
  simp only [colonAt, List.mem_cons, List.not_mem_nil, or_false]
  omega

/-- A colon is no hexadecimal digit. -/
lemma not_isxdigit_colon : isxdigit colon = false := by decide

lemma DigitForColon.passes {l : List Byte} (h : DigitForColon l) {i : ℕ} (hi : i < l.length) :
    passes i l[i] = true := by
  unfold BtMisc.passes
  by_cases hc : i ∈ colonAt
  · have h3 := (mem_colonAt_iff (h.length ▸ hi)).mp hc
    rcases h.colons i hi hc with heq | hx
    · simp [h3, heq]
    · simp [hx]
  · simp [h.others i hi hc]

/-- What passes either has all its colons, or has a digit for one of them. -/
lemma isBtAddr_or_digitForColon {l : List Byte} (hlen : l.length = btMacLen)
    (hpass : ∀ i (h : i < l.length), passes i l[i] = true) : IsBtAddr l ∨ DigitForColon l := by
  have hothers : ∀ i (h : i < l.length), i ∉ colonAt → isxdigit l[i] = true := by
    intro i hi hc
    have h3 := (mem_colonAt_iff (hlen ▸ hi)).not.mp hc
    have := hpass i hi
    simpa [passes, h3] using this
  have hcolons : ∀ i (h : i < l.length), i ∈ colonAt → l[i] = colon ∨ isxdigit l[i] = true := by
    intro i hi hc
    have := hpass i hi
    simp only [passes, Bool.or_eq_true, Bool.and_eq_true, beq_iff_eq] at this
    exact this.elim .inr fun h => .inl h.2
  by_cases hdigit : ∃ i, ∃ h : i < l.length, i ∈ colonAt ∧ isxdigit l[i] = true
  · exact .inr ⟨hlen, hothers, hcolons, hdigit⟩
  · refine .inl ⟨hlen, fun i hi => ?_⟩
    by_cases hc : i ∈ colonAt
    · have heq := (hcolons i hi hc).resolve_right fun hx => hdigit ⟨i, hi, hc, hx⟩
      simp [okAt, hc, heq]
    · simpa [okAt, hc] using hothers i hi hc

/-- **The validator.** It accepts exactly the documented addresses, except that where a colon
belongs it also takes a hexadecimal digit. -/
theorem verifyBtAddr_iff_isBtAddr (a : Str) :
    (verifyBtAddr (some a) = true ↔ IsBtAddr a.bytes) ↔ ¬ DigitForColon a.bytes := by
  rw [verifyBtAddr_iff]
  constructor
  · intro hiff hdigit
    obtain ⟨i, hi, hc, hx⟩ := hdigit.digit
    have hvalid := hiff.mp ⟨hdigit.length, fun i hi => hdigit.passes hi⟩
    have hcolon := hvalid.2 i hi
    rw [okAt, if_pos hc, beq_iff_eq] at hcolon
    rw [hcolon, not_isxdigit_colon] at hx
    cases hx
  · intro hno
    constructor
    · rintro ⟨hlen, hpass⟩
      exact (isBtAddr_or_digitForColon hlen hpass).resolve_right hno
    · exact fun h => ⟨h.1, fun i hi => passes_of_okAt (h.2 i hi)⟩

/-- Seventeen hexadecimal digits. -/
def digits : Str := lit "AC37437438EAC1F4A"

theorem not_verifyBtAddr_iff_isBtAddr :
    ¬ (verifyBtAddr (some digits) = true ↔ IsBtAddr digits.bytes) := by
  have haccepted : verifyBtAddr (some digits) = true := by decide
  have hcolon : ¬ okAt 2 digits.bytes[2] = true := by decide
  intro hiff
  exact hcolon ((hiff.mp haccepted).2 2 (by decide))

/-- `strncpy(d, src, BT_MAC_LEN); d[BT_MAC_LEN] = '\0'`: the string then in `d`. -/
def copyMac (src : Buf) : Str := ofBuf (strncpy src btMacLen ++ [0])

lemma copyMac_eq (src : Buf) : copyMac src = (ofBuf src).take btMacLen := ofBuf_strncpy src btMacLen

lemma copyMac_bytes (s : Str) : copyMac s.bytes = s.take btMacLen := by
  rw [copyMac_eq, ofBuf_bytes]

/-! ### Arrays of addresses -/

/-- One `char *` of an array. -/
inductive Slot
  | unwritten | null
  | str (s : Str)
  deriving DecidableEq

/-- The pointer read from a slot; reading one that was never written is a fault. -/
def Slot.read : Slot → Except Fault (Option Str)
  | .unwritten => .error .uninit
  | .null => .ok none
  | .str s => .ok (some s)

/-- `strcmp(a, b) == 0`. -/
def strEq : Option Str → Option Str → Except Fault Bool
  | some a, some b => .ok (a == b)
  | _, _ => .error .nullDeref

/-- The loop of `is_dev_trusted` over the slots not yet looked at, `k` of them counted. -/
def devLoop (dev : Option Str) : List Slot → ℕ → Except Fault Bool
  | _, 0 => .ok false
  | [], _ + 1 => .error .outOfBounds
  | s :: ss, k + 1 => do
    let t ← s.read
    if ← strEq dev t then pure true else devLoop dev ss k

def isDevTrusted (dev : Option Str) (devices : Option (List Slot)) (num : ℤ) :
    Except Fault Bool :=
  match devices with
  | none => if num ≤ 0 then .ok false else .error .nullDeref
  | some l => devLoop dev l num.toNat

def freeLoop : List Slot → ℕ → Except Fault Unit
  | _, 0 => .ok ()
  | [], _ + 1 => .error .outOfBounds
  | s :: ss, k + 1 => do
    let _ ← s.read
    freeLoop ss k

def freeDeviceList (devices : Option (List Slot)) (num : ℤ) : Except Fault Unit :=
  match devices with
  | none => .ok ()
  | some l => freeLoop l num.toNat

/-- `devices[i] = s`. -/
def storeSlot (devices : List Slot) (i : ℕ) (s : Slot) : Except Fault (List Slot) :=
  if i < devices.length then .ok (devices.set i s) else .error .outOfBounds

/-- The first slots hold the strings `ss`. -/
def Filled (l : List Slot) (ss : List Str) : Prop := ss.map Slot.str <+: l

lemma devLoop_filled (d : Str) {l : List Slot} {ss : List Str} (h : Filled l ss) :
    devLoop (some d) l ss.length = .ok (decide (d ∈ ss)) := by
  induction ss generalizing l with
  | nil => cases l <;> simp [devLoop]
  | cons s ss ih =>
    obtain ⟨rest, rfl⟩ := h
    have hih := ih (l := ss.map Slot.str ++ rest) ⟨rest, rfl⟩
    by_cases hd : d = s
    · simp [devLoop, Slot.read, strEq, hd]
    · simp [devLoop, Slot.read, strEq, hd, hih]

lemma freeLoop_filled {l : List Slot} {ss : List Str} (h : Filled l ss) :
    freeLoop l ss.length = .ok () := by
  induction ss generalizing l with
  | nil => cases l <;> simp [freeLoop]
  | cons s ss ih =>
    obtain ⟨rest, rfl⟩ := h
    have hih := ih (l := ss.map Slot.str ++ rest) ⟨rest, rfl⟩
    simp [freeLoop, Slot.read, hih]

/-- The release of a list needs every counted slot written. -/
lemma freeLoop_eq_ok {l : List Slot} {k : ℕ} :
    freeLoop l k = .ok () ↔ k ≤ l.length ∧ ∀ j < k, l[j]? ≠ some .unwritten := by
  induction k generalizing l with
  | zero => cases l <;> simp [freeLoop]
  | succ k ih =>
    rcases l with _ | ⟨s, l⟩
    · simp [freeLoop]
    · have hhead : (∀ j < k + 1, (s :: l)[j]? ≠ some .unwritten) ↔
          s ≠ .unwritten ∧ ∀ j < k, l[j]? ≠ some .unwritten := by
        rw [Nat.forall_lt_succ_left]
        simp
      rw [hhead, List.length_cons, Nat.add_le_add_iff_right]
      cases s with
      | unwritten => simp [freeLoop, Slot.read]
      | null => simpa [freeLoop, Slot.read] using ih
      | str s => simpa [freeLoop, Slot.read] using ih

/-- Over counted slots that are all filled, `is_dev_trusted` is membership. -/
lemma isDevTrusted_filled (d : Str) {l : List Slot} {ss : List Str} (h : Filled l ss) :
    isDevTrusted (some d) (some l) ss.length = .ok (decide (d ∈ ss)) := by
  simpa [isDevTrusted] using devLoop_filled d h

lemma freeDeviceList_filled {l : List Slot} {ss : List Str} (h : Filled l ss) :
    freeDeviceList (some l) ss.length = .ok () := by
  simpa [freeDeviceList] using freeLoop_filled h

/-- An array of `cap` slots in which `ss` was stored so far, the rest being as `malloc` left
it. -/
structure Prefilled (cap : ℕ) (l : List Slot) (ss : List Str) : Prop where
  eq : l = ss.map Slot.str ++ List.replicate (cap - ss.length) .unwritten
  le : ss.length ≤ cap

lemma prefilled_nil (cap : ℕ) : Prefilled cap (List.replicate cap .unwritten) [] :=
  ⟨by simp, by simp⟩

variable {cap : ℕ} {l : List Slot} {ss : List Str}

lemma Prefilled.filled (h : Prefilled cap l ss) : Filled l ss := ⟨_, h.eq.symm⟩

lemma Prefilled.length (h : Prefilled cap l ss) : l.length = cap := by
  have := h.le
  rw [h.eq]
  simp only [List.length_append, List.length_map, List.length_replicate]; omega

/-- A string stored in the first free slot. -/
lemma Prefilled.store (h : Prefilled cap l ss) (hlt : ss.length < cap) (s : Str) :
    ∃ l', storeSlot l ss.length (.str s) = .ok l' ∧ Prefilled cap l' (ss ++ [s]) := by
  have hin : ss.length < l.length := by rw [h.length]; exact hlt
  refine ⟨_, by rw [storeSlot, if_pos hin], ?_, by simpa using Nat.succ_le_of_lt hlt⟩
  obtain ⟨k, hk⟩ : ∃ k, cap - ss.length = k + 1 := ⟨cap - ss.length - 1, by omega⟩
  have hk' : cap - (ss ++ [s]).length = k := by
    rw [List.length_append, List.length_singleton]; omega
  rw [h.eq, hk', hk, List.set_append_right _ _ (by simp)]
  simp [List.replicate_succ]

/-- A full array has no slot for another string. -/
lemma Prefilled.store_full (h : Prefilled cap l ss) (hlt : ¬ ss.length < cap) (s : Slot) :
    storeSlot l ss.length s = .error .outOfBounds := by
  rw [storeSlot, if_neg (by rw [h.length]; exact hlt)]

end ProxyAuth.BtMisc
