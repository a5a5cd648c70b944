import ProxyAuth.Control
import ProxyAuth.CString

/-!
The path of a user's trusted file, as `get_trusted_dev_file` builds it.

The directory and the user name are appended to a buffer of `PATH_MAX + LOGIN_NAME_MAX`
bytes, each cut to a length that went through an `unsigned int`.
-/

namespace ProxyAuth.FileName

open ProxyAuth.Control ProxyAuth.CString

/-- `PATH_MAX` and `LOGIN_NAME_MAX`. -/
structure Limits where
  pathMax : ℕ
  loginNameMax : ℕ
  pathMax_pos : 0 < pathMax
  loginNameMax_pos : 0 < loginNameMax
  sum_lt : pathMax + loginNameMax < 2 ^ 32

def linuxLimits : Limits := ⟨4096, 256, by decide, by decide, by decide⟩

/-- One of the two blocks that append a string to `file_name`, `cap` bytes of it at most:
the buffer and `len` afterwards. `copy_len` and `len` are `unsigned int`. -/
def appendName (cap : ℕ) (b : Buf) (len : ℕ) (s : Str) : Except Fault (Buf × ℕ) :=
  if 0 < s.len then do
    let copyLen := s.len % 2 ^ 32
    let copyLen := if cap < copyLen then cap else copyLen
    let b ← strncat b s copyLen
    pure (b, (len + copyLen) % 2 ^ 32)
  else .ok (b, len)

/-- `assert(strlen(file_name) < buf_size)`. -/
def assertShorter (b : Buf) (bufSize : ℕ) : Except Fault Unit :=
  match strlen b with
  | none => .error .outOfBounds
  | some n => if n < bufSize then .ok () else .error .assertFailed

/-- The string `get_trusted_dev_file` builds in `file_name`; `stack` is what the variable
length array holds at first. -/
def fileName (lim : Limits) (stack : ℕ → Byte) (dir user : Str) : Except Fault Str := do
  let bufSize := (lim.pathMax + lim.loginNameMax) % 2 ^ 32
  let b ← blit ((List.range bufSize).map stack) 0 [0]
  let (b, len) ← appendName (lim.pathMax - 1) b 0 dir
  assertShorter b bufSize
  let (b, len) ← appendName lim.loginNameMax b len user
  assertShorter b bufSize
  let b ← if bufSize < len then store b (bufSize - 1) 0 else store b len 0
  pure (ofBuf b)

/-- The buffer and `len` when the last terminator is about to be stored. -/
def pasted (lim : Limits) (stack : ℕ → Byte) (dir user : Str) : Except Fault (Buf × ℕ) := do
  let bufSize := (lim.pathMax + lim.loginNameMax) % 2 ^ 32
  let b ← blit ((List.range bufSize).map stack) 0 [0]
  let (b, len) ← appendName (lim.pathMax - 1) b 0 dir
  assertShorter b bufSize
  let (b, len) ← appendName lim.loginNameMax b len user
  assertShorter b bufSize
  pure (b, len)

/-- That last store. -/
def terminated (bufSize : ℕ) (b : Buf) (len : ℕ) : Except Fault Buf :=
  if bufSize < len then store b (bufSize - 1) 0 else store b len 0

/-! ### What it builds -/

/-- The number of bytes taken of a string of which at most `cap` are wanted. -/
def clamp (cap : ℕ) (s : Str) : ℕ := min (s.len % 2 ^ 32) cap

lemma clamp_le (cap : ℕ) (s : Str) : clamp cap s ≤ cap := Nat.min_le_right _ _

lemma clamp_le_len (cap : ℕ) (s : Str) : clamp cap s ≤ s.len :=
  (Nat.min_le_left _ _).trans (Nat.mod_le _ _)

lemma clamp_of_lt {cap : ℕ} {s : Str} (h : s.len < 2 ^ 32) : clamp cap s = min s.len cap := by
  rw [clamp, Nat.mod_eq_of_lt h]

/-- A string that fits is taken whole. -/
lemma take_clamp_of_le {cap : ℕ} {s : Str} (hcap : cap < 2 ^ 32) (h : s.len ≤ cap) :
    s.take (clamp cap s) = s := by
  rw [clamp_of_lt (by omega), Nat.min_eq_left h, Str.take_of_len_le le_rfl]

/-- A block keeps the buffer well formed and `len` equal to the length of its string. -/
lemma appendName_holds {k n : ℕ} {b : Buf} {s t : Str} (h : Holds b n s) (hn : n < 2 ^ 32)
    (hroom : s.len + k < n) :
    ∃ b', appendName k b s.len t = .ok (b', (s ++ t.take (clamp k t)).len) ∧
      Holds b' n (s ++ t.take (clamp k t)) := by
  have hk := clamp_le k t
  have hlen := clamp_le_len k t
  unfold appendName
  split_ifs with ht
  · have hif : (if k < t.len % 2 ^ 32 then k else t.len % 2 ^ 32) = clamp k t := by
      unfold clamp; split_ifs <;> omega
    obtain ⟨b', hb, hh⟩ := h.strncat (k := clamp k t) (t := t) (by omega)
    refine ⟨b', ?_, hh⟩
    simp only [hif, hb, ok_bind, pure_eq_ok, Str.len_append, Str.len_take, Nat.min_eq_left hlen]
    rw [Nat.mod_eq_of_lt (by omega)]
  · have hempty : t.take (clamp k t) = Str.empty := by
      refine Str.ext (List.length_eq_zero_iff.mp ?_)
      change (t.take (clamp k t)).len = 0
      rw [Str.len_take]; omega
    rw [hempty, Str.append_empty]
    exact ⟨b, rfl, h⟩

lemma assertShorter_holds {b : Buf} {n : ℕ} {s : Str} (h : Holds b n s) :
    assertShorter b n = .ok () := by
  simp [assertShorter, h.strlen, h.len_lt]

/-- `strcpy(file_name, "")`. -/
lemma blit_nul_holds (b : Buf) (h : 0 < b.length) :
    ∃ b', blit b 0 [0] = .ok b' ∧ Holds b' b.length Str.empty := by
  refine ⟨_, by rw [blit, if_pos (by simpa using Nat.succ_le_of_lt h)], ?_, ?_⟩
  · simp only [List.take_zero, List.nil_append, Nat.zero_add, List.length_singleton,
      List.length_append, List.length_drop]
    omega
  · exact ⟨b.drop 1, by simp⟩

lemma terminated_bind {α : Type} (bufSize : ℕ) (b : Buf) (len : ℕ) (f : Buf → Except Fault α) :
    (terminated bufSize b len >>= f) =
      if bufSize < len then store b (bufSize - 1) 0 >>= f else store b len 0 >>= f := by
  unfold terminated
  split_ifs
  · rfl
  · rfl

lemma fileName_eq_pasted (lim : Limits) (stack : ℕ → Byte) (dir user : Str) :
    fileName lim stack dir user = (do
      let (b, len) ← pasted lim stack dir user
      let b ← terminated ((lim.pathMax + lim.loginNameMax) % 2 ^ 32) b len
      pure (ofBuf b)) := by
  simp only [fileName, pasted, terminated_bind, bind_assoc, pure_bind]

section Pasted

variable (lim : Limits) (stack : ℕ → Byte) (dir user : Str)

/-- Both blocks stay in the buffer, both assertions hold, and `len` is the length of the path
that is then in the buffer: the directory and the user name, each cut. -/
lemma pasted_holds :
    ∃ b s, s = dir.take (clamp (lim.pathMax - 1) dir) ++ user.take (clamp lim.loginNameMax user) ∧
      pasted lim stack dir user = .ok (b, s.len) ∧ Holds b (lim.pathMax + lim.loginNameMax) s := by
  have hp := lim.pathMax_pos
  have hl := lim.loginNameMax_pos
  have hsum := lim.sum_lt
  have hd := clamp_le (lim.pathMax - 1) dir
  have hu := clamp_le lim.loginNameMax user
  unfold pasted
  rw [Nat.mod_eq_of_lt hsum]
  obtain ⟨b₀, hb₀, h₀⟩ := blit_nul_holds ((List.range (lim.pathMax + lim.loginNameMax)).map stack)
    (by simp; omega)
  rw [List.length_map, List.length_range] at h₀
  obtain ⟨b₁, hb₁, h₁⟩ := appendName_holds (k := lim.pathMax - 1) (t := dir) h₀ hsum
    (by simp; omega)
  rw [Str.empty_append] at hb₁ h₁
  have hlen₁ : (dir.take (clamp (lim.pathMax - 1) dir)).len ≤ lim.pathMax - 1 := by
    rw [Str.len_take]; omega
  obtain ⟨b₂, hb₂, h₂⟩ := appendName_holds (k := lim.loginNameMax) (t := user) h₁ hsum (by omega)
  change appendName _ b₀ 0 dir = _ at hb₁
  refine ⟨b₂, _, rfl, ?_, h₂⟩
  simp only [hb₀, ok_bind, hb₁, assertShorter_holds h₁, hb₂, assertShorter_holds h₂, pure_eq_ok]

/-- The terminator of a string in a buffer is stored over the one that is there. -/
lemma terminated_holds {b : Buf} {n : ℕ} {s : Str} (h : Holds b n s) :
    ∃ b', terminated n b s.len = .ok b' ∧ Holds b' n s := by
  rw [terminated, if_neg (not_lt.mpr h.len_lt.le)]
  exact h.store

/-- **The buffer is never left.** Whatever the strings and the limits, no append leaves the
buffer and both assertions hold; at the end `len` is the length of the string in it, and the
terminator stored there is in bounds and cuts nothing off. -/
theorem pasted_inBounds :
    ∃ b len b', pasted lim stack dir user = .ok (b, len) ∧
      b.length = lim.pathMax + lim.loginNameMax ∧ strlen b = some len ∧
      len < lim.pathMax + lim.loginNameMax ∧
      terminated ((lim.pathMax + lim.loginNameMax) % 2 ^ 32) b len = .ok b' ∧
      ofBuf b' = ofBuf b ∧ fileName lim stack dir user = .ok (ofBuf b) := by
  obtain ⟨b, s, -, hb, h⟩ := pasted_holds lim stack dir user
  obtain ⟨b', hb', h'⟩ := terminated_holds h
  rw [fileName_eq_pasted, hb, ok_bind, Nat.mod_eq_of_lt lim.sum_lt]
  refine ⟨b, s.len, b', rfl, h.length, h.strlen, h.len_lt, hb', ?_, ?_⟩
  · rw [h.ofBuf, h'.ofBuf]
  · simp only [hb', ok_bind, pure_eq_ok, h.ofBuf, h'.ofBuf]

/-- **The path.** Whatever the strings and the limits, no store leaves the buffer, both
assertions hold, and the path is the directory and the user name, each cut. -/
theorem fileName_eq :
    fileName lim stack dir user =
      .ok (dir.take (clamp (lim.pathMax - 1) dir) ++ user.take (clamp lim.loginNameMax user)) := by
  obtain ⟨b, s, hs, hb, h⟩ := pasted_holds lim stack dir user
  obtain ⟨b', hb', h'⟩ := terminated_holds h
  rw [fileName_eq_pasted, hb, ok_bind, Nat.mod_eq_of_lt lim.sum_lt, ← hs]
  simp only [hb', ok_bind, pure_eq_ok, h'.ofBuf]

end Pasted

/-- A directory path shorter than `PATH_MAX` and a name of at most `LOGIN_NAME_MAX` bytes
are pasted together whole. -/
lemma fileName_of_le (lim : Limits) (stack : ℕ → Byte) {dir user : Str}
    (hdir : dir.len < lim.pathMax) (huser : user.len ≤ lim.loginNameMax) :
    fileName lim stack dir user = .ok (dir ++ user) := by
  have hsum := lim.sum_lt
  rw [fileName_eq, take_clamp_of_le (by omega) (by omega), take_clamp_of_le (by omega) huser]

end ProxyAuth.FileName
