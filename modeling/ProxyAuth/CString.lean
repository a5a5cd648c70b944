import Mathlib.Data.List.Basic
import Mathlib.Data.List.TakeWhile
import Mathlib.Algebra.Order.Ring.Int
import Mathlib.Tactic.Ring

/-!
Strings, buffers and counters as a C program sees them.

A string is a list of bytes without a NUL; a buffer is a list of bytes that may hold
anything, and the string in it is what stands before its first NUL. Stores are checked
against the length of the buffer, so that a function that leaves its buffer stops with a
fault instead of returning.
-/

namespace ProxyAuth.CString

abbrev Byte := UInt8
abbrev Buf := List Byte

/-- The ways in which a C function stops without returning. -/
inductive Fault
  | nullDeref | outOfBounds | uninit | assertFailed
  deriving DecidableEq

/-- What an `int` holds after an operation with the exact result `n`: the build does not
trap overflow, and the result wraps around. -/
@[irreducible] def wrap32 (n : ℤ) : ℤ := n.bmod (2 ^ 32)

lemma wrap32_of_lt {n : ℤ} (h : -2 ^ 31 ≤ n) (h' : n < 2 ^ 31) : wrap32 n = n := by
  rw [wrap32, Int.bmod_def]
  split_ifs <;> omega

lemma wrap32_add (n m : ℤ) : wrap32 (wrap32 n + m) = wrap32 (n + m) := by
  rw [wrap32, wrap32, wrap32]
  exact Int.bmod_add_bmod

lemma wrap32_natCast_le (n : ℕ) : wrap32 n ≤ n := by
  rw [wrap32, Int.bmod_def]
  split_ifs <;> omega

/-- A string: its bytes, the terminator left out. -/
structure Str where
  bytes : List Byte
  nul_free : (0 : Byte) ∉ bytes
  deriving DecidableEq

namespace Str

@[ext] lemma ext {s t : Str} (h : s.bytes = t.bytes) : s = t := by
  cases s; cases t; simp_all

def len (s : Str) : ℕ := s.bytes.length

def empty : Str := ⟨[], by simp⟩

def append (s t : Str) : Str :=
  ⟨s.bytes ++ t.bytes, by simp [s.nul_free, t.nul_free]⟩

instance : Append Str := ⟨append⟩

/-- The string of the first `n` bytes, all of them if there are fewer. -/
def take (n : ℕ) (s : Str) : Str :=
  ⟨s.bytes.take n, fun h => s.nul_free (List.mem_of_mem_take h)⟩

@[simp] lemma bytes_append (s t : Str) : (s ++ t).bytes = s.bytes ++ t.bytes := rfl
@[simp] lemma bytes_take (n : ℕ) (s : Str) : (s.take n).bytes = s.bytes.take n := rfl
@[simp] lemma bytes_empty : empty.bytes = [] := rfl

@[simp] lemma len_append (s t : Str) : (s ++ t).len = s.len + t.len := by simp [len]
@[simp] lemma len_take (n : ℕ) (s : Str) : (s.take n).len = min n s.len := by simp [len]

@[simp] lemma len_empty : empty.len = 0 := rfl
@[simp] lemma append_empty (s : Str) : s ++ empty = s := ext (by simp)
@[simp] lemma empty_append (s : Str) : empty ++ s = s := ext (by simp)

lemma take_of_len_le {n : ℕ} {s : Str} (h : s.len ≤ n) : s.take n = s :=
  ext (List.take_of_length_le h)

end Str

/-! ### The string in a buffer -/

/-- The string a buffer holds. -/
def ofBuf (b : Buf) : Str :=
  ⟨b.takeWhile (· != 0), fun h => by simpa using List.mem_takeWhile_imp h⟩

/-- A string literal of the source. -/
def lit (s : String) : Str := ofBuf (s.toList.map fun c => c.toNat.toUInt8)

lemma ne_nul_of_mem {l : List Byte} (h : (0 : Byte) ∉ l) : ∀ b ∈ l, (b != 0) = true := by
  intro b hb
  simp only [bne_iff_ne, ne_eq]
  rintro rfl
  exact h hb

lemma ofBuf_bytes (s : Str) : ofBuf s.bytes = s :=
  Str.ext (List.takeWhile_eq_self_iff.mpr (ne_nul_of_mem s.nul_free))

/-- Bytes up to the first NUL are kept, those after it are not seen. -/
lemma ofBuf_append_of_nul_free {l : List Byte} (h : (0 : Byte) ∉ l) (rest : Buf) :
    (ofBuf (l ++ rest)).bytes = l ++ (ofBuf rest).bytes :=
  List.takeWhile_append_of_pos (ne_nul_of_mem h)

/-- A string followed by its terminator is what the buffer holds, whatever comes after. -/
lemma ofBuf_append_nul (s : Str) (rest : Buf) : ofBuf (s.bytes ++ 0 :: rest) = s := by
  apply Str.ext
  rw [ofBuf_append_of_nul_free s.nul_free]
  simp [ofBuf]

lemma ofBuf_append_nul_eq (l : List Byte) (rest : Buf) : ofBuf (l ++ 0 :: rest) = ofBuf l := by
  apply Str.ext
  induction l with
  | nil => simp [ofBuf]
  | cons b l ih =>
    by_cases hb : b = 0
    · simp [ofBuf, hb]
    · simpa [ofBuf, List.takeWhile_cons, hb] using ih

/-- Where a buffer of `n` bytes is cut by a NUL stored at `n`, only the first `n` count. -/
lemma ofBuf_take (b : Buf) (n : ℕ) : ofBuf (b.take n) = (ofBuf b).take n := by
  apply Str.ext
  induction b generalizing n with
  | nil => simp [ofBuf]
  | cons a b ih =>
    cases n with
    | zero => simp [ofBuf]
    | succ n =>
      by_cases ha : a = 0
      · simp [ofBuf, ha]
      · simpa [ofBuf, List.takeWhile_cons, ha] using ih n

/-- The length of the string in a buffer; `none` when the search for the terminator runs
past the end. -/
def strlen (b : Buf) : Option ℕ := if (0 : Byte) ∈ b then some (ofBuf b).len else none

/-! ### Stores -/

/-- `b[i] = x`. -/
def store (b : Buf) (i : ℕ) (x : Byte) : Except Fault Buf :=
  if i < b.length then .ok (b.set i x) else .error .outOfBounds

/-- The bytes `l` written from index `i` on. -/
def blit (b : Buf) (i : ℕ) (l : List Byte) : Except Fault Buf :=
  if i + l.length ≤ b.length then .ok (b.take i ++ l ++ b.drop (i + l.length))
  else .error .outOfBounds

/-- The `n` bytes `strncpy` writes: the string up to its terminator, then NULs. -/
def strncpy (src : Buf) (n : ℕ) : Buf :=
  (ofBuf src).bytes.take n ++ List.replicate (n - (ofBuf src).len) 0

/-- `strncat`: at most `n` bytes of `s` and a terminator, from the terminator of `dst` on. -/
def strncat (dst : Buf) (s : Str) (n : ℕ) : Except Fault Buf :=
  match strlen dst with
  | none => .error .outOfBounds
  | some i => blit dst i (s.bytes.take n ++ [0])

/-- A copy of at most `n` bytes that is then terminated holds the first `n` bytes of the
string, and nothing that stood after its terminator. -/
lemma ofBuf_strncpy (src : Buf) (n : ℕ) : ofBuf (strncpy src n ++ [0]) = (ofBuf src).take n := by
  unfold strncpy
  rcases hm : n - (ofBuf src).len with _ | m
  · simpa using ofBuf_append_nul ((ofBuf src).take n) []
  · simpa [List.replicate_succ] using
      ofBuf_append_nul ((ofBuf src).take n) (List.replicate m 0 ++ [0])

/-! ### A buffer that holds a string -/

/-- The buffer has `n` bytes and holds `s`, terminated. -/
structure Holds (b : Buf) (n : ℕ) (s : Str) : Prop where
  length : b.length = n
  starts : s.bytes ++ [0] <+: b

lemma Holds.len_lt {b : Buf} {n : ℕ} {s : Str} (h : Holds b n s) : s.len < n := by
  have := h.starts.length_le
  rw [h.length, List.length_append, List.length_singleton] at this
  exact this

lemma Holds.ofBuf {b : Buf} {n : ℕ} {s : Str} (h : Holds b n s) : ofBuf b = s := by
  obtain ⟨rest, hb⟩ := h.starts
  rw [← hb, List.append_assoc]
  exact ofBuf_append_nul s rest

lemma Holds.strlen {b : Buf} {n : ℕ} {s : Str} (h : Holds b n s) : strlen b = some s.len := by
  obtain ⟨rest, hb⟩ := h.starts
  have hmem : (0 : Byte) ∈ b := by rw [← hb]; simp
  rw [CString.strlen, if_pos hmem, h.ofBuf]

/-- A string copied to the front of a buffer without its terminator, and then terminated. -/
lemma holds_of_copy {b : Buf} {s : Str} (h : s.len < b.length) :
    ∃ b₁ b₂, blit b 0 s.bytes = .ok b₁ ∧ CString.store b₁ s.len 0 = .ok b₂ ∧
      Holds b₂ b.length s := by
  have hfit : 0 + s.bytes.length ≤ b.length := by
    rw [Nat.zero_add]
    exact h.le
  obtain ⟨c, rest, hdrop⟩ : ∃ c rest, b.drop s.len = c :: rest :=
    ⟨_, _, List.drop_eq_getElem_cons h⟩
  have hlen : rest.length + 1 = b.length - s.len := by
    rw [← List.length_drop, hdrop, List.length_cons]
  refine ⟨s.bytes ++ c :: rest, s.bytes ++ 0 :: rest, ?_, ?_, ?_, ⟨rest, by simp⟩⟩
  · rw [blit, if_pos hfit, Nat.zero_add]
    change Except.ok ([] ++ s.bytes ++ b.drop s.len) = _
    rw [hdrop, List.nil_append]
  · have hin : s.len < (s.bytes ++ c :: rest).length := by simp [Str.len]
    rw [CString.store, if_pos hin, List.set_append_right (h := by simp [Str.len])]
    simp [Str.len]
  · rw [List.length_append, List.length_cons]
    change s.len + (rest.length + 1) = b.length
    omega

/-- Bytes and a terminator written over the terminator of `s` extend it, where they fit. -/
lemma Holds.strncat {b : Buf} {n k : ℕ} {s t : Str} (h : Holds b n s)
    (hroom : s.len + min k t.len < n) :
    ∃ b', strncat b t k = .ok b' ∧ Holds b' n (s ++ t.take k) := by
  obtain ⟨rest, hb⟩ := h.starts
  have hfit : s.len + (t.bytes.take k ++ [0]).length ≤ b.length := by
    rw [h.length]; simp only [List.length_append, List.length_take, List.length_singleton]
    change s.len + (min k t.len + 1) ≤ n; omega
  refine ⟨b.take s.len ++ (t.bytes.take k ++ [0]) ++
    b.drop (s.len + (t.bytes.take k ++ [0]).length),
    ?_, ?_, ?_⟩
  · rw [CString.strncat, h.strlen]
    simp only [blit, if_pos hfit]
  · simp only [List.length_append, List.length_take, List.length_drop, List.length_singleton]
      at hfit ⊢
    rw [h.length] at *; omega
  · have htake : b.take s.len = s.bytes := by
      rw [← hb, List.append_assoc]; simp [Str.len]
    rw [htake]
    refine ⟨b.drop (s.len + (t.bytes.take k ++ [0]).length), ?_⟩
    simp

/-- Storing a terminator on top of the one that is there changes nothing. -/
lemma Holds.store {b : Buf} {n : ℕ} {s : Str} (h : Holds b n s) :
    ∃ b', store b s.len 0 = .ok b' ∧ Holds b' n s := by
  have hlt : s.len < b.length := h.length ▸ h.len_lt
  refine ⟨b.set s.len 0, by rw [CString.store, if_pos hlt], by simp [h.length], ?_⟩
  obtain ⟨rest, hb⟩ := h.starts
  refine ⟨rest, ?_⟩
  rw [← hb, List.append_assoc, List.set_append_right (h := by simp [Str.len])]
  simp [Str.len]

end ProxyAuth.CString
