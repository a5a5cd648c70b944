import ProxyAuth.BtTrust

/-!
The reused buffer of `set_trusted_devices`, byte by byte.

Here `strcmp` and `strncpy` walk over the buffer `getline` fills, and a step behind its end is a
fault. Nothing past the terminator of the current line is looked at, so that what is left of
longer lines before it does not show.
-/

namespace ProxyAuth.LineBuffer

open ProxyAuth.Control ProxyAuth.CString ProxyAuth.Getline ProxyAuth.BtMisc ProxyAuth.BtTrust

/-! ### Walks over a buffer -/

/-- `strcmp(b, cs) == 0`, for a string with the bytes `cs`. -/
def strcmp : Buf → List Byte → Except Fault Bool
  | [], _ => .error .outOfBounds
  | x :: _, [] => .ok (x == 0)
  | x :: b, c :: cs => if x = c then strcmp b cs else .ok false

/-- The `n` bytes that `strncpy` copies from `b`; after the terminator it reads no more. -/
def copyBytes : Buf → ℕ → Except Fault (List Byte)
  | _, 0 => .ok []
  | [], _ + 1 => .error .outOfBounds
  | x :: b, n + 1 =>
    if x = 0 then .ok (List.replicate (n + 1) 0)
    else do
      let rest ← copyBytes b n
      pure (x :: rest)

/-- In a buffer with a terminator, the comparison stays inside and is one of strings. -/
lemma strcmp_eq {b : Buf} {cs : List Byte} (hb : (0 : Byte) ∈ b) (hcs : (0 : Byte) ∉ cs) :
    strcmp b cs = .ok (decide ((ofBuf b).bytes = cs)) := by
  induction b generalizing cs with
  | nil => cases hb
  | cons x b ih =>
    rcases cs with _ | ⟨c, cs⟩
    · by_cases hx : x = 0
      · simp [strcmp, ofBuf, hx]
      · simp [strcmp, ofBuf, hx]
    · have hc : (0 : Byte) ≠ c := List.ne_of_not_mem_cons hcs
      rw [strcmp]
      by_cases hxc : x = c
      · have hx : x ≠ 0 := fun hx => hc (hx ▸ hxc)
        have hmem : (0 : Byte) ∈ b := List.mem_of_ne_of_mem hx.symm hb
        rw [if_pos hxc, ih hmem (List.not_mem_of_not_mem_cons hcs), ← hxc]
        exact congrArg Except.ok (decide_eq_decide.mpr (by simp [ofBuf, hx]))
      · rw [if_neg hxc]
        by_cases hx : x = 0
        · simp [ofBuf, hx]
        · simp [ofBuf, hx, hxc]

/-- So does the copy, also where the buffer has as many bytes as are asked for. -/
lemma copyBytes_eq {b : Buf} {n : ℕ} (h : (0 : Byte) ∈ b ∨ n ≤ b.length) :
    copyBytes b n = .ok (strncpy b n) := by
  induction n generalizing b with
  | zero => rcases b with _ | ⟨x, b⟩ <;> simp [copyBytes, strncpy]
  | succ n ih =>
    rcases b with _ | ⟨x, b⟩
    · simp at h
    · by_cases hx : x = 0
      · simp [copyBytes, strncpy, ofBuf, Str.len, hx]
      · have h' : (0 : Byte) ∈ b ∨ n ≤ b.length := by
          rcases h with h | h
          · exact .inl (List.mem_of_ne_of_mem (Ne.symm hx) h)
          · exact .inr (Nat.le_of_succ_le_succ h)
        simp [copyBytes, hx, ih h', strncpy, ofBuf, Str.len]

/-! ### The loop -/

/-- The string in a new block of `BT_MAC_LEN + 1` bytes, once the line was copied to it; `fresh`
is what `malloc` left in the block. -/
def newEntry (fresh : ℕ → Byte) (line : Buf) : Except Fault Str := do
  let copy ← copyBytes line btMacLen
  let dev ← blit ((List.range (btMacLen + 1)).map fresh) 0 copy
  let dev ← store dev btMacLen 0
  pure (ofBuf dev)

/-- The loop of `set_trusted_devices`, over the lines still to come. -/
def fillBytes (A : Alloc) (fresh : ℕ → Byte) (alloc : ℕ → Bool) (num : ℕ) :
    List (List Byte) → Fill → Except Fault Fill
  | [], σ => .ok σ
  | l :: ls, σ =>
    let line := getline A σ.line l
    if σ.i < num then do
      let blank ← strcmp line [newline]
      if blank then fillBytes A fresh alloc num ls { σ with line := line }
      else do
        let line ← store line btMacLen 0
        if alloc σ.tries then do
          let dev ← newEntry fresh line
          let slots ← storeSlot σ.slots σ.i (.str dev)
          fillBytes A fresh alloc num ls ⟨line, slots, σ.i + 1, σ.tries + 1⟩
        else do
          let slots ← storeSlot σ.slots σ.i .null
          fillBytes A fresh alloc num ls ⟨line, slots, σ.i, σ.tries + 1⟩
    else .ok { σ with line := line }

def setTrustedDevicesBytes (A : Alloc) (fresh : ℕ → Byte) (alloc : ℕ → Bool)
    (content : List Byte) (slots : List Slot) (num : ℤ) : Except Fault (List Slot) :=
  if 0 < num then do
    let σ ← fillBytes A fresh alloc num.toNat (lines content) ⟨[], slots, 0, 0⟩
    pure σ.slots
  else .ok slots

lemma nul_mem_getline (A : Alloc) (b : Buf) (l : List Byte) : (0 : Byte) ∈ getline A b l := by
  simp [getline]

lemma nul_mem_of_store {b b' : Buf} {i : ℕ} (h : store b i 0 = .ok b') : (0 : Byte) ∈ b' := by
  unfold store at h
  split_ifs at h with hi
  obtain rfl := Except.ok.inj h
  exact List.mem_set hi 0

lemma length_strncpy (b : Buf) (n : ℕ) : (strncpy b n).length = n := by
  simp only [strncpy, List.length_append, List.length_take, List.length_replicate, Str.len]
  omega

/-- The copy and its terminator fill the new block. -/
lemma newEntry_eq (fresh : ℕ → Byte) {line : Buf} (h : (0 : Byte) ∈ line) :
    newEntry fresh line = .ok (copyMac line) := by
  have hlen := length_strncpy line btMacLen
  obtain ⟨x, hblit⟩ : ∃ x, blit ((List.range (btMacLen + 1)).map fresh) 0
      (strncpy line btMacLen) = .ok (strncpy line btMacLen ++ [x]) := by
    refine ⟨fresh btMacLen, ?_⟩
    rw [blit, if_pos (by simp [hlen]), hlen, List.range_succ, List.map_append, Nat.zero_add]
    simp
  have hstore : store (strncpy line btMacLen ++ [x]) btMacLen 0 =
      .ok (strncpy line btMacLen ++ [0]) := by
    rw [store, if_pos (by simp [hlen]), List.set_append_right _ _ hlen.le, hlen]
    simp
  simp only [newEntry, copyBytes_eq (.inl h), ok_bind, hblit, hstore, pure_eq_ok, copyMac]

/-- Byte by byte, the loop does what it does on strings. -/
lemma fillBytes_eq (A : Alloc) (fresh : ℕ → Byte) (alloc : ℕ → Bool) (num : ℕ)
    (ls : List (List Byte)) (σ : Fill) :
    fillBytes A fresh alloc num ls σ = fillLoop A alloc num ls σ := by
  induction ls generalizing σ with
  | nil => rfl
  | cons l ls ih =>
    have hblank : strcmp (getline A σ.line l) [newline] =
        .ok (decide (ofBuf (getline A σ.line l) = lit "\n")) := by
      rw [strcmp_eq (nul_mem_getline A σ.line l) (by decide)]
      congr 2
      exact propext ⟨fun h => Str.ext h, fun h => congrArg Str.bytes h⟩
    rw [fillBytes, fillLoop]
    simp only [hblank, ok_bind]
    by_cases hroom : σ.i < num
    · rw [if_pos hroom, if_pos hroom]
      by_cases hb : ofBuf (getline A σ.line l) = lit "\n"
      · rw [if_pos (by simpa using hb), if_neg (not_not.mpr hb), ih]
      · rw [if_neg (by simpa using hb), if_pos hb]
        rcases hstore : store (getline A σ.line l) btMacLen 0 with e | line
        · rfl
        · simp only [ok_bind, newEntry_eq fresh (nul_mem_of_store hstore), ih]
    · rw [if_neg hroom, if_neg hroom]

lemma setTrustedDevicesBytes_eq (A : Alloc) (fresh : ℕ → Byte) (alloc : ℕ → Bool)
    (content : List Byte) (slots : List Slot) (num : ℤ) :
    setTrustedDevicesBytes A fresh alloc content slots num =
      setTrustedDevices A alloc content slots num := by
  rw [setTrustedDevicesBytes, setTrustedDevices, fillBytes_eq]

/-! ### What it stores -/

/-- With memory for each, the entries go to the slots from `front` on, as far as there are
any. -/
lemma storeEach_all {num : ℕ} (ss : List Str) (front rest : List Slot) (tries : ℕ)
    (hnum : front.length + rest.length = num) :
    ∃ i k, storeEach (fun _ => true) num ss ⟨front ++ rest, front.length, tries⟩ =
      .ok ⟨front ++ ((ss.take rest.length).map Slot.str ++ rest.drop ss.length), i, k⟩ := by
  induction ss generalizing front rest tries with
  | nil => exact ⟨front.length, tries, by simp [storeEach]⟩
  | cons s ss ih =>
    rw [storeEach]
    rcases rest with _ | ⟨x, rest⟩
    · rw [if_neg (by simp at hnum ⊢; omega)]
      exact ⟨front.length, tries, by simp⟩
    · have hroom : front.length < num := by simp only [List.length_cons] at hnum; omega
      have hset : storeSlot (front ++ x :: rest) front.length (.str s) =
          .ok ((front ++ [.str s]) ++ rest) := by
        rw [storeSlot, if_pos (by simp), List.set_append_right _ _ le_rfl]
        simp
      obtain ⟨i, k, hih⟩ := ih (front ++ [.str s]) rest (tries + 1)
        (by simp only [List.length_cons] at hnum; simp; omega)
      rw [List.length_append, List.length_singleton] at hih
      refine ⟨i, k, ?_⟩
      simp only [hroom, if_true, hset, ok_bind, hih]
      simp

/-- **Nothing leaks from line to line.** Whatever the file holds, and whatever the memory held
before, every index is inside its buffer, and the entries are the first 17 bytes of the lines
that are not blank, each cut at its first NUL, in order, as many as there are slots. -/
theorem entries_of_lines (A : Alloc) (fresh : ℕ → Byte) (content : List Byte)
    (slots : List Slot) :
    setTrustedDevicesBytes A fresh (fun _ => true) content slots slots.length =
      .ok (((nonblank content).take slots.length).map
          (fun l => Slot.str (ofBuf (l.take btMacLen))) ++
        slots.drop (nonblank content).length) := by
  rw [setTrustedDevicesBytes_eq]
  rcases slots with _ | ⟨x, slots⟩
  · simp [setTrustedDevices]
  obtain ⟨i, k, hstore⟩ := storeEach_all (entriesOf content) [] (x :: slots) 0 (Nat.zero_add _)
  have hentries : entriesOf content =
      (nonblank content).map fun l => ofBuf (l.take btMacLen) := by
    apply List.map_congr_left
    intro l _
    rw [entry, ofBuf_take]
  simp only [List.nil_append, List.length_nil] at hstore
  rw [setTrustedDevices_eq _ _ _ _ (by simp), Int.toNat_natCast, hstore, hentries,
    List.length_map, ← List.map_take, List.map_map]
  rfl

end ProxyAuth.LineBuffer
