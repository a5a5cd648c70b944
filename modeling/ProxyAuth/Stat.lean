import Mathlib.Data.BitVec
import Mathlib.Data.Nat.Basic

/-!
What `lstat` says about a file: its mode word and its owner.

The type of the file is the field of the mode selected by `S_IFMT`; the nine permission
bits stand below it, three for the owner, three for the group and three for the others. The
macros of `sys/stat.h` test masks; the lemmas below say which bits they look at.
-/

namespace ProxyAuth.Stat

/-- The parts of `struct stat` a permission check reads. -/
structure St where
  mode : BitVec 32
  uid : ℕ
  deriving DecidableEq

def sIfmt : BitVec 32 := 0xF000#32
def sIfdir : BitVec 32 := 0x4000#32
def sIfreg : BitVec 32 := 0x8000#32
def sIflnk : BitVec 32 := 0xA000#32
def sIwgrp : BitVec 32 := 0x10#32
def sIwoth : BitVec 32 := 0x2#32

def sIsdir (m : BitVec 32) : Bool := m &&& sIfmt == sIfdir
def sIsreg (m : BitVec 32) : Bool := m &&& sIfmt == sIfreg
def sIslnk (m : BitVec 32) : Bool := m &&& sIfmt == sIflnk

/-- `ENOENT`. -/
def enoent : ℕ := 2

/-- The outcome of `lstat`: it fills the buffer, or fails with an `errno` and leaves the
buffer alone. -/
inductive Lstat
  | found (st : St)
  | failed (errno : ℕ)
  deriving DecidableEq

/-! ### The bits behind the masks -/

namespace St

def ownerRead (s : St) : Bool := s.mode.getLsbD 8
def ownerWrite (s : St) : Bool := s.mode.getLsbD 7
def ownerExec (s : St) : Bool := s.mode.getLsbD 6
def groupWrite (s : St) : Bool := s.mode.getLsbD 4
def otherWrite (s : St) : Bool := s.mode.getLsbD 1

end St

lemma sIslnk_of_sIsdir {m : BitVec 32} (h : sIsdir m = true) : sIslnk m = false := by
  simp only [sIsdir, beq_iff_eq] at h
  simp [sIslnk, h, sIfdir, sIflnk]

/-- Of a word, the low three bits are those of `k` when bit `i` of both agree for `i < 3`. -/
lemma and_seven_eq_iff (w k : BitVec 32) (hk : k &&& 7#32 = k) :
    w &&& 7#32 = k ↔ ∀ i < 3, w.getLsbD i = k.getLsbD i := by
  have hseven : ∀ i < 32, (7#32).getLsbD i = decide (i < 3) := by decide
  constructor
  · intro h i hi
    have := congrArg (fun x => x.getLsbD i) h
    simp only [BitVec.getLsbD_and, hseven i (by omega), decide_eq_true hi, Bool.and_true] at this
    exact this
  · intro h
    rw [← hk]
    apply BitVec.eq_of_getLsbD_eq
    intro i hi
    simp only [BitVec.getLsbD_and, hseven i hi]
    by_cases hi3 : i < 3
    · rw [h i hi3]
    · simp [hi3]

/-- The owner's bits, shifted down, are `perm` exactly when they are those of `perm`. -/
lemma owner_eq_iff (m k : BitVec 32) (hk : k &&& 7#32 = k) :
    (m >>> 6) &&& 7#32 = k ↔
      m.getLsbD 8 = k.getLsbD 2 ∧ m.getLsbD 7 = k.getLsbD 1 ∧ m.getLsbD 6 = k.getLsbD 0 := by
  rw [and_seven_eq_iff _ _ hk]
  simp only [BitVec.getLsbD_ushiftRight]
  constructor
  · intro h
    exact ⟨h 2 (by omega), h 1 (by omega), h 0 (by omega)⟩
  · rintro ⟨h2, h1, h0⟩ i hi
    match i, hi with
    | 0, _ => exact h0
    | 1, _ => exact h1
    | 2, _ => exact h2

/-- A mask of one bit selects that bit. -/
lemma and_twoPow_ne_zero (m : BitVec 32) (n : ℕ) :
    m &&& BitVec.twoPow 32 n ≠ 0#32 ↔ m.getLsbD n = true := by
  rw [BitVec.and_twoPow]
  by_cases h : m.getLsbD n = true
  · have hn : n < 32 := by
      by_contra hc
      rw [BitVec.getLsbD_of_ge _ _ (by omega)] at h
      exact Bool.false_ne_true h
    simp only [h, if_true, iff_true]
    intro h0
    have := congrArg (fun x => x.getLsbD n) h0
    simp [hn] at this
  · simp [h]

lemma and_sIwgrp (s : St) : s.mode &&& sIwgrp ≠ 0#32 ↔ s.groupWrite = true :=
  and_twoPow_ne_zero s.mode 4

lemma and_sIwoth (s : St) : s.mode &&& sIwoth ≠ 0#32 ↔ s.otherWrite = true :=
  and_twoPow_ne_zero s.mode 1

end ProxyAuth.Stat
