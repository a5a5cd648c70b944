import ProxyAuth.Control
import ProxyAuth.CString
import ProxyAuth.Stat
import Mathlib.Tactic.SplitIfs

/-!
The check of a configuration path (`pam_sec.c`).

`check_config` hands one `struct stat` to `is_nlnk`, which fills it, and then to
`check_perm`. A rejection is modelled by the complaint it prints; the value returned to C is
`1` exactly when there is none. What the struct held before the call is an argument, since a
failed `lstat` leaves it in place.
-/

namespace ProxyAuth.Sec

open ProxyAuth.Control ProxyAuth.CString ProxyAuth.Stat

/-- The complaints of the three functions, in the order of their checks. -/
inductive Complaint
  | noEntry | isLink | notDirectory | notRegular
  | ownerPerm (perm : BitVec 32) | groupWrite | otherWrite | notRoot
  deriving DecidableEq

/-- The line a complaint about `file` writes to `stderr`. -/
def Complaint.text (file : Str) : Complaint → Str
  | .noEntry => file ++ lit " does not exist\n"
  | .isLink => lit "Error: " ++ file ++ lit " is a link\n"
  | .notDirectory => lit "Error: " ++ file ++ lit " is not a directory\n"
  | .notRegular => lit "Error: " ++ file ++ lit " is not a regular file\n"
  | .ownerPerm perm => lit "Error: Owner type does not have " ++ file ++
      lit " permission set to " ++ lit (toString perm.toNat) ++ lit "\n"
  | .groupWrite => lit "Error: Group has write permission to " ++ file ++ lit "\n"
  | .otherWrite => lit "Error: Other has write permission to " ++ file ++ lit "\n"
  | .notRoot => lit "Error: " ++ file ++ lit " is not owned by root\n"

/-- The line the same complaint writes to the log, when there is one. -/
def Complaint.logText (file : Str) : Complaint → Str
  | .noEntry => lit "Error: " ++ file ++ lit " does not exist\n"
  | c => c.text file

/-- The struct after `lstat`. -/
def fill (r : Lstat) (stale : St) : St :=
  match r with
  | .found st => st
  | .failed _ => stale

/-- `is_nlnk`: only `ENOENT` is taken for a failure. -/
def isNlnk (r : Lstat) (stale : St) : Except Complaint St :=
  if r = .failed enoent then .error .noEntry
  else if sIslnk (fill r stale).mode then .error .isLink
  else .ok (fill r stale)

/-- The bits the owner must have: a directory also needs execute permission. -/
def perm (isDir : ℤ) : BitVec 32 := if isDir ≠ 0 then 7#32 else 6#32

def checkPerm (st : St) (isDir : ℤ) : Except Complaint Unit :=
  if (st.mode >>> 6) &&& 7#32 ≠ perm isDir then .error (.ownerPerm (perm isDir))
  else if st.mode &&& sIwgrp ≠ 0#32 then .error .groupWrite
  else if st.mode &&& sIwoth ≠ 0#32 then .error .otherWrite
  else if st.uid ≠ 0 then .error .notRoot
  else .ok ()

/-- The type the caller asked for, tested by `check_config` itself. -/
def checkKind (st : St) (isDir : ℤ) : Except Complaint Unit :=
  if isDir ≠ 0 then if sIsdir st.mode then .ok () else .error .notDirectory
  else if sIsreg st.mode then .ok () else .error .notRegular

def checkConfig (r : Lstat) (stale : St) (isDir : ℤ) : Except Complaint Unit := do
  let st ← isNlnk r stale
  checkKind st isDir
  checkPerm st isDir

/-- The `int` a check returns. -/
def ret : Except Complaint Unit → ℤ
  | .ok _ => 1
  | .error _ => 0

lemma ret_eq_one {x : Except Complaint Unit} : ret x = 1 ↔ x = .ok () := by
  cases x <;> simp [ret]

lemma ret_eq_zero {x : Except Complaint Unit} : ret x = 0 ↔ ¬ x = .ok () := by
  rcases x with c | ⟨⟩ <;> simp [ret]

lemma ret_le_zero {x : Except Complaint Unit} : ret x ≤ 0 ↔ ¬ ret x = 1 := by
  cases x <;> simp [ret]

/-! ### What is accepted -/

/-- A directory (or, when `isDir` is zero, a regular file) that is no link and that only
root can change. -/
structure RootControlled (isDir : ℤ) (st : St) : Prop where
  not_link : sIslnk st.mode = false
  kind : if isDir ≠ 0 then sIsdir st.mode = true else sIsreg st.mode = true
  owner_read : st.ownerRead = true
  owner_write : st.ownerWrite = true
  owner_exec : st.ownerExec = decide (isDir ≠ 0)
  group : st.groupWrite = false
  other : st.otherWrite = false
  root : st.uid = 0

lemma owner_iff (st : St) (isDir : ℤ) :
    (st.mode >>> 6) &&& 7#32 = perm isDir ↔
      st.ownerRead = true ∧ st.ownerWrite = true ∧ st.ownerExec = decide (isDir ≠ 0) := by
  have hperm : perm isDir &&& 7#32 = perm isDir := by unfold perm; split_ifs <;> decide
  rw [owner_eq_iff _ _ hperm]
  by_cases hd : isDir = 0 <;>
    simp [perm, hd, St.ownerRead, St.ownerWrite, St.ownerExec, BitVec.getLsbD_eq_getElem]

lemma isNlnk_ok_iff (r : Lstat) (stale st : St) :
    isNlnk r stale = .ok st ↔
      (r ≠ .failed enoent ∧ sIslnk (fill r stale).mode = false) ∧ fill r stale = st := by
  unfold isNlnk
  by_cases he : r = .failed enoent
  · simp [he]
  · by_cases hl : sIslnk (fill r stale).mode = true <;> simp [he, hl]

lemma checkKind_ok_iff (st : St) (isDir : ℤ) :
    checkKind st isDir = .ok () ↔
      if isDir ≠ 0 then sIsdir st.mode = true else sIsreg st.mode = true := by
  unfold checkKind
  split_ifs <;> simp_all

lemma checkPerm_ok_iff (st : St) (isDir : ℤ) :
    checkPerm st isDir = .ok () ↔
      (st.ownerRead = true ∧ st.ownerWrite = true ∧ st.ownerExec = decide (isDir ≠ 0)) ∧
        st.groupWrite = false ∧ st.otherWrite = false ∧ st.uid = 0 := by
  rw [← owner_iff, ← Bool.not_eq_true st.groupWrite, ← Bool.not_eq_true st.otherWrite,
    ← and_sIwgrp, ← and_sIwoth]
  unfold checkPerm
  by_cases h : (st.mode >>> 6) &&& 7#32 = perm isDir
  · simp only [h, ne_eq, not_true, if_false, true_and, not_not]
    split_ifs <;> simp_all
  · simp [h]

/-- The check reads nothing but the struct `is_nlnk` leaves. -/
lemma checkConfig_ok_iff (r : Lstat) (stale : St) (isDir : ℤ) :
    checkConfig r stale isDir = .ok () ↔
      r ≠ .failed enoent ∧ RootControlled isDir (fill r stale) := by
  simp only [checkConfig, bind_eq_ok, isNlnk_ok_iff, checkPerm_ok_iff]
  constructor
  · rintro ⟨st, ⟨⟨he, hl⟩, rfl⟩, ⟨⟩, hk, ⟨h1, h2, h3⟩, h4, h5, h6⟩
    exact ⟨he, hl, (checkKind_ok_iff _ _).mp hk, h1, h2, h3, h4, h5, h6⟩
  · rintro ⟨he, h⟩
    exact ⟨_, ⟨⟨he, h.not_link⟩, rfl⟩, (), (checkKind_ok_iff _ _).mpr h.kind,
      ⟨h.owner_read, h.owner_write, h.owner_exec⟩, h.group, h.other, h.root⟩

lemma checkConfig_found_iff (st stale : St) (isDir : ℤ) :
    checkConfig (.found st) stale isDir = .ok () ↔ RootControlled isDir st := by
  rw [checkConfig_ok_iff]
  simp [fill]

/-- The failure, if it is one, is the one the check knows. -/
def Lstat.Seen (r : Lstat) : Prop := ∀ e, r = .failed e → e = enoent

/-- Then what the struct held before plays no part. -/
lemma checkConfig_of_seen {r : Lstat} (h : Lstat.Seen r) (stale stale' : St) (isDir : ℤ) :
    checkConfig r stale isDir = checkConfig r stale' isDir := by
  cases r with
  | found st => rfl
  | failed e =>
    obtain rfl : e = enoent := h e rfl
    simp [checkConfig, isNlnk]

/-- What a complaint says about the struct that was checked. -/
def Complaint.Holds (r : Lstat) (st : St) (isDir : ℤ) : Complaint → Prop
  | .noEntry => r = .failed enoent
  | .isLink => sIslnk st.mode = true
  | .notDirectory => isDir ≠ 0 ∧ sIsdir st.mode = false
  | .notRegular => isDir = 0 ∧ sIsreg st.mode = false
  | .ownerPerm p => p = perm isDir ∧ (st.mode >>> 6) &&& 7#32 ≠ p
  | .groupWrite => st.groupWrite = true
  | .otherWrite => st.otherWrite = true
  | .notRoot => st.uid ≠ 0

lemma checkKind_error {r : Lstat} {st : St} {isDir : ℤ} {c : Complaint}
    (h : checkKind st isDir = .error c) : c.Holds r st isDir := by
  unfold checkKind at h
  split_ifs at h with h1 h2 h3 <;> cases h
  · exact ⟨h1, by simpa using h2⟩
  · exact ⟨by simpa using h1, by simpa using h3⟩

lemma checkPerm_error {r : Lstat} {st : St} {isDir : ℤ} {c : Complaint}
    (h : checkPerm st isDir = .error c) : c.Holds r st isDir := by
  unfold checkPerm at h
  split_ifs at h with h1 h2 h3 h4 <;> cases h
  · exact ⟨rfl, h1⟩
  · exact (and_sIwgrp st).mp h2
  · exact (and_sIwoth st).mp h3
  · exact h4

/-- Every complaint is true of the struct it was made about. -/
theorem checkConfig_error {r : Lstat} {stale : St} {isDir : ℤ} {c : Complaint}
    (h : checkConfig r stale isDir = .error c) : c.Holds r (fill r stale) isDir := by
  unfold checkConfig at h
  rcases hn : isNlnk r stale with c' | st
  · rw [hn] at h
    cases h
    unfold isNlnk at hn
    split_ifs at hn with h1 h2 <;> cases hn
    · exact h1
    · exact h2
  · obtain ⟨-, rfl⟩ := (isNlnk_ok_iff _ _ _).mp hn
    rw [hn, ok_bind] at h
    rcases hk : checkKind (fill r stale) isDir with c' | ⟨⟩
    · rw [hk] at h
      cases h
      exact checkKind_error hk
    · rw [hk, ok_bind] at h
      exact checkPerm_error h

/-! ### The decision -/

/-- `check_config` returns `1` on a file that exists and is root-controlled, and `0` on
everything else. -/
def Decides (r : Lstat) (stale : St) (isDir : ℤ) : Prop :=
  ((∃ st, r = .found st ∧ RootControlled isDir st) → ret (checkConfig r stale isDir) = 1) ∧
    ((¬ ∃ st, r = .found st ∧ RootControlled isDir st) → ret (checkConfig r stale isDir) = 0)

/-- When `lstat` fails with another error than `ENOENT`, what the struct happened to hold
would not have been accepted. -/
def StaleRejected (r : Lstat) (stale : St) (isDir : ℤ) : Prop :=
  ∀ e, r = .failed e → e ≠ enoent → ¬ RootControlled isDir stale

/-- **The decision is right exactly when no unnoticed failure leaves an acceptable struct.** -/
theorem decides_iff_staleRejected (r : Lstat) (stale : St) (isDir : ℤ) :
    Decides r stale isDir ↔ StaleRejected r stale isDir := by
  unfold Decides StaleRejected
  rw [ret_eq_zero, ret_eq_one]
  cases r with
  | found st =>
    rw [checkConfig_found_iff]
    simp
  | failed e =>
    rw [checkConfig_ok_iff]
    simp [fill]

/-- With search permission denied on the way to the file, a struct that still describes a
root-owned file of mode `0600` is taken for the file. -/
theorem not_decides_eacces : ¬ Decides (.failed 13) ⟨0x8180#32, 0⟩ 0 := by
  intro h
  have hzero := h.2 (by rintro ⟨st, hst, -⟩; cases hst)
  revert hzero
  decide

end ProxyAuth.Sec
