import ProxyAuth.Login

/-!
The count of a list and what is in it.

The count comes from one pass over the trusted file and the strings from another, and a
failed allocation leaves the index where it is. The slots up to the count are filled when the
second pass finds enough entries, and memory for enough of them.
-/

namespace ProxyAuth.Counted

open ProxyAuth.Control ProxyAuth.CString ProxyAuth.BtMisc ProxyAuth.BtTrust ProxyAuth.Login

/-! ### What the filling pass leaves -/

/-- How many of the `n` allocations from the `k`-th on succeed. -/
def granted (alloc : ℕ → Bool) (k n : ℕ) : ℕ := ((List.range' k n).filter alloc).length

variable {alloc : ℕ → Bool} {k n num : ℕ}

@[simp] lemma granted_zero : granted alloc k 0 = 0 := rfl

lemma granted_succ : granted alloc k (n + 1) = granted alloc k 1 + granted alloc (k + 1) n := by
  rw [granted, List.range'_succ, ← List.singleton_append, List.filter_append, List.length_append]
  rfl

lemma granted_one : granted alloc k 1 = if alloc k then 1 else 0 := by
  cases h : alloc k <;> simp [granted, h]

/-- The slots the filling pass comes to with `n` entries: one more than there are strings before
the last of them. -/
def reached (alloc : ℕ → Bool) (k : ℕ) : ℕ → ℕ
  | 0 => 0
  | n + 1 => granted alloc k n + 1

/-- An array of `num` slots that holds the strings `ws` first, and no string after them; the
slots from `c` on are as `malloc` left them, and no others. -/
structure Partly (num : ℕ) (slots : List Slot) (ws : List Str) (c : ℕ) : Prop where
  split : ∃ rest, slots = ws.map Slot.str ++ rest ∧ ∀ s, .str s ∉ rest
  length : slots.length = num
  unwritten_iff : ∀ j, slots[j]? = some .unwritten ↔ c ≤ j ∧ j < num
  strings_le : ws.length ≤ c
  le_succ : c ≤ ws.length + 1
  le : c ≤ num

variable {slots : List Slot} {ws : List Str} {c : ℕ}

lemma partly_nil (num : ℕ) : Partly num (List.replicate num .unwritten) [] 0 where
  split := ⟨_, rfl, by simp⟩
  length := List.length_replicate
  unwritten_iff j := by simp [List.getElem?_replicate]
  strings_le := le_rfl
  le_succ := Nat.zero_le _
  le := Nat.zero_le _

/-- A store in the slot after the strings, which may hold the null pointer of a failed
allocation. -/
lemma Partly.store (h : Partly num slots ws c) (hlt : ws.length < num) {x : Slot}
    (hx : x ≠ .unwritten) :
    storeSlot slots ws.length x = .ok (slots.set ws.length x) ∧
      (slots.set ws.length x).length = num ∧
      ∀ j, (slots.set ws.length x)[j]? = some .unwritten ↔ ws.length + 1 ≤ j ∧ j < num := by
  have hlen : ws.length < slots.length := by rw [h.length]; exact hlt
  have hge := h.strings_le
  have hle := h.le_succ
  refine ⟨by rw [storeSlot, if_pos hlen], by rw [List.length_set, h.length], fun j => ?_⟩
  rw [List.getElem?_set]
  split_ifs with hj
  · simp only [Option.some.injEq, hx, false_iff]
    omega
  · rw [h.unwritten_iff]
    omega

/-- What is in the array then. -/
lemma Partly.set_eq (h : Partly num slots ws c) (hlt : ws.length < num) :
    ∃ rest, (∀ s, .str s ∉ rest) ∧ ∀ x,
      slots.set ws.length x = ws.map Slot.str ++ x :: rest := by
  obtain ⟨rest, rfl, hrest⟩ := h.split
  have hlen := h.length
  rw [List.length_append, List.length_map] at hlen
  obtain ⟨y, rest, rfl⟩ := List.exists_cons_of_length_pos (by omega : 0 < rest.length)
  refine ⟨rest, fun s hs => hrest s (List.mem_cons_of_mem _ hs), fun x => ?_⟩
  rw [List.set_append_right _ _ (by simp)]
  simp

/-- One entry: a string more, if there is memory for it; and the slot is written. -/
lemma storeEach_cons (alloc : ℕ → Bool) {s : Str} (ss : List Str) {σ : Stores}
    (h : Partly num σ.slots ws c) (hi : σ.i = ws.length) (hroom : ws.length < num) :
    ∃ σ₁ ws₁, storeEach alloc num (s :: ss) σ = storeEach alloc num ss σ₁ ∧
      Partly num σ₁.slots ws₁ (ws.length + 1) ∧ σ₁.i = ws₁.length ∧
      ws₁.length = ws.length + granted alloc σ.tries 1 ∧ σ₁.tries = σ.tries + 1 := by
  obtain ⟨rest, hrest, hset⟩ := h.set_eq hroom
  rw [storeEach, if_pos (hi ▸ hroom), granted_one, hi]
  by_cases halloc : alloc σ.tries = true
  · obtain ⟨hstore, hlen, hunwritten⟩ := h.store hroom (x := .str s) (by simp)
    rw [if_pos halloc, if_pos halloc, hstore]
    refine ⟨_, ws ++ [s], rfl, ⟨⟨rest, ?_, hrest⟩, hlen, hunwritten, ?_, ?_, hroom⟩, ?_, ?_, rfl⟩
    · rw [hset]
      simp
    all_goals simp
  · obtain ⟨hstore, hlen, hunwritten⟩ := h.store hroom (x := .null) (by simp)
    rw [if_neg halloc, if_neg halloc, hstore]
    refine ⟨_, ws, rfl, ⟨⟨.null :: rest, hset _, by simpa using hrest⟩, hlen, hunwritten,
      Nat.le_succ _, le_rfl, hroom⟩, rfl, rfl, rfl⟩

/-- The filling pass: as many strings as there are successful allocations, up to the size of
the array. -/
lemma storeEach_partly (alloc : ℕ → Bool) (ss : List Str) {σ : Stores} (h : Partly num σ.slots ws c)
    (hi : σ.i = ws.length) :
    ∃ σ' ws' c', storeEach alloc num ss σ = .ok σ' ∧ Partly num σ'.slots ws' c' ∧
      ws'.length = min num (ws.length + granted alloc σ.tries ss.length) ∧
      (ss ≠ [] → c' = min num (ws.length + reached alloc σ.tries ss.length)) ∧
      (ss = [] → c' = c) := by
  have hws := h.strings_le
  have hc := h.le
  induction ss generalizing σ ws c with
  | nil =>
    refine ⟨σ, ws, c, rfl, h, ?_, fun hne => absurd rfl hne, fun _ => rfl⟩
    rw [List.length_nil, granted_zero]
    omega
  | cons s ss ih =>
    have hcons : s :: ss ≠ [] := List.cons_ne_nil s ss
    by_cases hroom : ws.length < num
    · obtain ⟨σ₁, ws₁, heq, h₁, hi₁, hlen₁, htries⟩ := storeEach_cons alloc ss h hi hroom
      obtain ⟨σ', ws', c', hσ, hpart, hcount, hmore, hlast⟩ := ih h₁ hi₁ h₁.strings_le h₁.le
      rw [htries] at hcount hmore
      refine ⟨σ', ws', c', heq.trans hσ, hpart, ?_, fun _ => ?_, fun h => absurd h hcons⟩
      · rw [hcount, hlen₁, List.length_cons, granted_succ (n := ss.length)]
        omega
      · rcases ss with _ | ⟨t, ts⟩
        · rw [hlast rfl]
          simp only [List.length_singleton, reached, granted_zero]
          omega
        · rw [hmore (List.cons_ne_nil t ts), hlen₁]
          simp only [List.length_cons, reached]
          rw [granted_succ (n := ts.length)]
          omega
    · refine ⟨σ, ws, c, ?_, h, ?_, fun _ => ?_, fun h => absurd h hcons⟩
      · rw [storeEach, if_neg (hi ▸ hroom)]
      · omega
      · omega

/-! ### The slots that are counted -/

/-- Every slot of a list that is counted holds a string, so that neither the search in the list
nor its release meets a slot that was not written. -/
def CountedFilled (w : World) (dir user : Option Str) : Prop :=
  ∀ slots num, findTrustedDevices w dir user = .ok (some slots, num) →
    (∀ i : ℕ, (i : ℤ) < num → ∃ s, slots[i]? = some (.str s)) ∧
      (∀ dev, ∃ b, isDevTrusted (some dev) (some slots) num = .ok b) ∧
      freeDeviceList (some slots) num = .ok ()

/-- Where a list is made, the filling pass finds as many entries with memory for them as the
counting pass has counted lines. -/
def EnoughEntries (w : World) (dir user : Option Str) : Prop :=
  ∀ f, findTrustedFile w.limits w.stack w.files dir user = .ok (some f) → w.arrayMem = true →
    wrap32 (nonblank f.counted).length ≤ granted w.entryMem 0 (nonblank f.filled).length

/-- A full array holds as many strings as it has slots. -/
lemma Partly.filled (h : Partly num slots ws c) (hfull : ws.length = num) :
    slots = ws.map Slot.str := by
  obtain ⟨rest, rfl, -⟩ := h.split
  have hlen := h.length
  rw [List.length_append, List.length_map, hfull] at hlen
  rw [List.length_eq_zero_iff.mp (by omega : rest.length = 0), List.append_nil]

/-- The slot after the strings holds none. -/
lemma Partly.not_str (h : Partly num slots ws c) (s : Str) : slots[ws.length]? ≠ some (.str s) := by
  obtain ⟨rest, rfl, hrest⟩ := h.split
  rw [List.getElem?_append_right (by simp), List.length_map, Nat.sub_self]
  intro hs
  exact hrest s (List.mem_of_getElem? hs)

/-- The list of an opened file. -/
lemma findTrustedDevices_partly {w : World} {dir user : Option Str} {f : TrustedFile}
    (hf : findTrustedFile w.limits w.stack w.files dir user = .ok (some f))
    (harray : w.arrayMem = true) (hpos : 0 < wrap32 (nonblank f.counted).length) :
    ∃ (num : ℕ) (slots : List Slot) (ws : List Str),
      (num : ℤ) = wrap32 (nonblank f.counted).length ∧
      findTrustedDevices w dir user = .ok (some slots, (num : ℤ)) ∧
      Partly num slots ws (min num (reached w.entryMem 0 (nonblank f.filled).length)) ∧
      ws.length = min num (granted w.entryMem 0 (nonblank f.filled).length) := by
  rw [findTrustedDevices_opened hf, getNumLines_eq]
  obtain ⟨num, hnum⟩ := Int.eq_ofNat_of_zero_le hpos.le
  rw [hnum] at hpos ⊢
  obtain ⟨σ, ws, c, hσ, hpart, hcount, hmore, hnone⟩ := storeEach_partly w.entryMem
    (entriesOf f.filled) (σ := ⟨_, 0, 0⟩) (partly_nil num) rfl
  have hlen : (entriesOf f.filled).length = (nonblank f.filled).length := List.length_map _
  rw [List.length_nil, Nat.zero_add, hlen] at hcount hmore
  refine ⟨num, σ.slots, ws, rfl, ?_, ?_, hcount⟩
  · rw [stored, if_neg (by omega), if_neg (by simp [harray]), Int.toNat_natCast, hσ]
    rfl
  · have hc : c = min num (reached w.entryMem 0 (nonblank f.filled).length) := by
      by_cases hempty : entriesOf f.filled = []
      · rw [hnone hempty, ← hlen, hempty]
        exact (Nat.min_zero num).symm
      · exact hmore hempty
    exact hc ▸ hpart

/-- The list can be given back when all of its slots are written. -/
lemma Partly.freeLoop_iff (h : Partly num slots ws c) : freeLoop slots num = .ok () ↔ num ≤ c := by
  rw [freeLoop_eq_ok, h.length]
  constructor
  · rintro ⟨-, hwritten⟩
    by_contra hlt
    exact hwritten c (by omega) ((h.unwritten_iff c).mpr ⟨le_rfl, by omega⟩)
  · intro hle
    refine ⟨le_rfl, fun j hj hun => ?_⟩
    have := (h.unwritten_iff j).mp hun
    omega

/-- Without memory for the array, or without a positive count, there is no list. -/
lemma findTrustedDevices_unlisted {w : World} {dir user : Option Str} {f : TrustedFile}
    (hf : findTrustedFile w.limits w.stack w.files dir user = .ok (some f))
    (h : ¬ (w.arrayMem = true ∧ 0 < wrap32 (nonblank f.counted).length)) :
    ∃ num, findTrustedDevices w dir user = .ok (none, num) := by
  rw [findTrustedDevices_opened hf, getNumLines_eq, stored]
  split_ifs with hzero hnone
  · exact ⟨0, rfl⟩
  · exact ⟨_, rfl⟩
  · obtain ⟨hpos, harray⟩ := not_or.mp hnone
    exact absurd ⟨by simpa using harray, by omega⟩ h

/-- A list comes out of an opened file with a positive count. -/
lemma of_list {w : World} {dir user : Option Str} {num : ℤ}
    (h : findTrustedDevices w dir user = .ok (some slots, num)) :
    ∃ f, findTrustedFile w.limits w.stack w.files dir user = .ok (some f) ∧
      w.arrayMem = true ∧ 0 < wrap32 (nonblank f.counted).length := by
  obtain ⟨r, hr⟩ := findTrustedFile_ok w.limits w.stack w.files dir user
  rcases r with _ | f
  · rw [findTrustedDevices_unopened hr] at h
    cases h
  · refine ⟨f, hr, ?_⟩
    by_contra hnone
    obtain ⟨n, hn⟩ := findTrustedDevices_unlisted hr hnone
    rw [hn] at h
    cases h

/-- **Count and fill.** Every counted slot is filled exactly when the second pass finds enough
entries, and memory for them. -/
theorem countedFilled_iff (w : World) (dir user : Option Str) :
    CountedFilled w dir user ↔ EnoughEntries w dir user := by
  constructor
  · intro h f hf harray
    by_contra hshort
    have hpos : 0 < wrap32 (nonblank f.counted).length := by omega
    obtain ⟨num, slots, ws, hnum, hlist, hpart, hcount⟩ := findTrustedDevices_partly hf harray hpos
    obtain ⟨s, hs⟩ := (h slots _ hlist).1 ws.length (by omega)
    exact hpart.not_str s hs
  · intro h slots num hlist
    obtain ⟨f, hf, harray, hpos⟩ := of_list hlist
    have henough := h f hf harray
    obtain ⟨n, slots', ws, hnum, hlist', hpart, hcount⟩ := findTrustedDevices_partly hf harray hpos
    obtain ⟨hslots, hn⟩ := Prod.mk.inj (Except.ok.inj (hlist.symm.trans hlist'))
    obtain rfl : slots = slots' := Option.some.inj hslots
    have hlen : ws.length = n := by omega
    have hfull := hpart.filled hlen
    have hfilled : Filled slots ws := ⟨[], by rw [List.append_nil, hfull]⟩
    rw [hn, ← hlen]
    refine ⟨fun i hi => ?_, fun dev => ⟨_, isDevTrusted_filled dev hfilled⟩,
      freeDeviceList_filled hfilled⟩
    have hi' : i < ws.length := by exact_mod_cast hi
    exact ⟨ws[i], by rw [hfull, List.getElem?_map, List.getElem?_eq_getElem hi']; rfl⟩

/-- The file loses a line between the two passes. -/
def shrunkWorld : World :=
  { phoneWorld with
    files := { phoneWorld.files with fopen := fun _ => some ⟨phoneFile ++ phoneFile, phoneFile⟩ } }

theorem not_countedFilled_shrunk :
    ¬ CountedFilled shrunkWorld (some trustedDirPath) (some (lit "zaku")) := by
  have hfile : findTrustedFile shrunkWorld.limits shrunkWorld.stack shrunkWorld.files
      (some trustedDirPath) (some (lit "zaku")) =
        .ok (some ⟨phoneFile ++ phoneFile, phoneFile⟩) := by
    rw [findTrustedFile_eq]
    rfl
  have hlist : findTrustedDevices shrunkWorld (some trustedDirPath) (some (lit "zaku")) =
      .ok (some [.str phone, .unwritten], 2) := by
    have hentries : entriesOf phoneFile = [phone] := by decide
    have htwo : wrap32 (nonblank (phoneFile ++ phoneFile)).length = 2 :=
      wrap32_of_lt (by decide) (by decide)
    rw [findTrustedDevices_opened hfile, getNumLines_eq, hentries, htwo]
    rfl
  intro h
  obtain ⟨s, hs⟩ := (h _ _ hlist).1 1 (by decide)
  cases hs

end ProxyAuth.Counted
