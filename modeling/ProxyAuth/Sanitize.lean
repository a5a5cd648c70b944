import ProxyAuth.Login

/-!
What `find_trusted_devices` makes of a file with lines that are no addresses.

Nothing looks at a line before it is copied: `verify_bt_addr` is not called on the way. A
list is free of junk only when the file was.
-/

namespace ProxyAuth.Sanitize

open ProxyAuth.Control ProxyAuth.CString ProxyAuth.Getline ProxyAuth.Sec
open ProxyAuth.BtMisc ProxyAuth.FileName ProxyAuth.BtTrust ProxyAuth.Login

/-- The trusted file, where one is opened, holds `c`. -/
def holding (w : World) (c : List Byte) : World :=
  { w with files := { w.files with fopen := fun p => (w.files.fopen p).map fun _ => ⟨c, c⟩ } }

/-! ### The list as a function of the entries -/

variable {w : World} {dir user : Option Str} {c : List Byte}

/-- Which file is opened does not depend on what is in it. -/
lemma findTrustedFile_holding :
    findTrustedFile w.limits w.stack (holding w c).files dir user =
      (findTrustedFile w.limits w.stack w.files dir user).map (Option.map fun _ => ⟨c, c⟩) := by
  rcases dir with _ | dir <;> rcases user with _ | user
  · rfl
  · rfl
  · rfl
  · rw [findTrustedFile_eq, findTrustedFile_eq, Except.map, holding]
    split_ifs <;> rfl

/-- What a file comes to is decided by its entries. -/
lemma findTrustedDevices_holding {f : TrustedFile}
    (h : findTrustedFile w.limits w.stack w.files dir user = .ok (some f)) :
    findTrustedDevices (holding w c) dir user =
      stored w.arrayMem w.entryMem (wrap32 (nonblank c).length) (entriesOf c) := by
  have hfile : findTrustedFile w.limits w.stack (holding w c).files dir user =
      .ok (some ⟨c, c⟩) := by
    rw [findTrustedFile_holding, h]
    rfl
  rw [findTrustedDevices_opened hfile, getNumLines_eq]
  rfl

lemma opened_of_list {slots : List Slot} {num : ℤ}
    (h : findTrustedDevices (holding w c) dir user = .ok (some slots, num)) :
    ∃ f, findTrustedFile w.limits w.stack w.files dir user = .ok (some f) := by
  obtain ⟨r, hr⟩ := findTrustedFile_ok w.limits w.stack w.files dir user
  rcases r with _ | f
  · have hnone : findTrustedFile w.limits w.stack (holding w c).files dir user = .ok none := by
      rw [findTrustedFile_holding, hr]
      rfl
    rw [findTrustedDevices_unopened hnone] at h
    cases h
  · exact ⟨f, hr⟩

/-- Every string of a list is one of the entries, however many allocations failed. -/
lemma stored_some {array : Bool} {alloc : ℕ → Bool} {n num : ℤ} {es : List Str}
    {slots : List Slot} (h : stored array alloc n es = .ok (some slots, num)) :
    num = n ∧ 0 < n ∧ array = true ∧ ∀ s, .str s ∈ slots → s ∈ es := by
  unfold stored at h
  split_ifs at h with hzero hnone
  · cases h
  · cases h
  obtain ⟨σ, hσ, -, hmem⟩ := storeEach_any alloc n.toNat es
    (σ := ⟨List.replicate _ .unwritten, 0, 0⟩) List.length_replicate
  rw [hσ] at h
  cases h
  refine ⟨rfl, by omega, by simpa using (not_or.mp hnone).2, fun s hs => ?_⟩
  rcases hmem s hs with hs | hs
  · simp at hs
  · exact hs

lemma stored_of_pos (alloc : ℕ → Bool) {n : ℤ} (es : List Str) (hpos : 0 < n) :
    ∃ slots, stored true alloc n es = .ok (some slots, n) := by
  obtain ⟨σ, hσ, -, -⟩ := storeEach_any alloc n.toNat es
    (σ := ⟨List.replicate _ .unwritten, 0, 0⟩) List.length_replicate
  refine ⟨σ.slots, ?_⟩
  rw [stored, if_neg (by omega), if_neg (by simp; omega), hσ]
  rfl

/-! ### Lines that are addresses -/

lemma IsBtAddr.nul_free {l : List Byte} (h : IsBtAddr l) : (0 : Byte) ∉ l := by
  intro hmem
  obtain ⟨i, hi, h0⟩ := List.mem_iff_getElem.mp hmem
  have hok := h.2 i hi
  rw [h0, okAt] at hok
  split_ifs at hok
  · exact absurd hok (by decide)
  · exact absurd hok (by decide)

/-- A line that is an address is stored as it is. -/
lemma entry_of_isBtAddr {l : List Byte} (h : IsBtAddr (text l)) : (entry l).bytes = text l := by
  let a : Str := ⟨text l, IsBtAddr.nul_free h⟩
  have hlen : a.len = btMacLen := h.1
  have htake : l.take btMacLen = a.bytes := by
    have := List.prefix_iff_eq_take.mp (text_isPrefix l)
    rw [h.1] at this
    exact this.symm
  exact congrArg Str.bytes ((entry_eq_iff hlen).mpr htake)

/-- One line fewer that is not blank makes for another count. -/
lemma wrap32_succ_ne (n : ℕ) : wrap32 (n + 1 : ℕ) ≠ wrap32 n := by
  unfold wrap32
  rw [Int.bmod_def, Int.bmod_def]
  split_ifs <;> omega

lemma nonblank_erase {pre post : List (List Byte)} {l : List Byte}
    (h : lines c = pre ++ l :: post) (hl : l ≠ [newline]) :
    (nonblank c).length = (nonblank (pre ++ post).flatten).length + 1 := by
  rw [nonblank, nonblank, lines_erase h, h, List.filter_append, List.filter_append,
    List.filter_cons_of_pos (by simpa using hl), List.length_append, List.length_append]
  rfl

lemma nonblank_erase_blank {pre post : List (List Byte)}
    (h : lines c = pre ++ [newline] :: post) : nonblank (pre ++ post).flatten = nonblank c := by
  rw [nonblank, nonblank, lines_erase h, h, List.filter_append,
    List.filter_append, List.filter_cons_of_neg (by simp)]

/-! ### The list and the file -/

/-- The string is a Bluetooth address and one whole line of the file. -/
def WholeLine (c : List Byte) (s : Str) : Prop := IsBtAddr s.bytes ∧ ∃ l ∈ lines c, text l = s.bytes

/-- Every string of the list is an address and a whole line, and a line that is no address
leaves no mark: without it the list is the same. -/
def Sanitized (w : World) (dir user : Option Str) (c : List Byte) : Prop :=
  ∀ slots num, findTrustedDevices (holding w c) dir user = .ok (some slots, num) →
    (∀ s, .str s ∈ slots → WholeLine c s) ∧
      ∀ pre l post, lines c = pre ++ l :: post → ¬ IsBtAddr (text l) →
        findTrustedDevices (holding w (pre ++ post).flatten) dir user = .ok (some slots, num)

/-- Where a list is made at all, every line of the file is blank or an address. -/
def Clean (w : World) (dir user : Option Str) (c : List Byte) : Prop :=
  (∃ f, findTrustedFile w.limits w.stack w.files dir user = .ok (some f)) → w.arrayMem = true →
    0 < wrap32 (nonblank c).length → ∀ l ∈ nonblank c, IsBtAddr (text l)

lemma sanitized_of_clean (h : Clean w dir user c) : Sanitized w dir user c := by
  intro slots num hlist
  obtain ⟨f, hf⟩ := opened_of_list hlist
  rw [findTrustedDevices_holding hf] at hlist
  obtain ⟨-, hpos, harray, hmem⟩ := stored_some hlist
  have hclean := h ⟨f, hf⟩ harray hpos
  constructor
  · intro s hs
    obtain ⟨l, hl, rfl⟩ := List.mem_map.mp (hmem s hs)
    have haddr := hclean l hl
    rw [WholeLine, entry_of_isBtAddr haddr]
    exact ⟨haddr, l, (List.mem_filter.mp hl).1, rfl⟩
  · intro pre l post hsplit hjunk
    have hblank : l = [newline] := by
      by_contra hne
      have hl : l ∈ nonblank c :=
        List.mem_filter.mpr ⟨by simp [hsplit], by simpa using hne⟩
      exact hjunk (hclean l hl)
    subst hblank
    rw [findTrustedDevices_holding hf, nonblank_erase_blank hsplit, entriesOf,
      nonblank_erase_blank hsplit]
    exact hlist

/-- **No line is looked at.** The list is sanitized exactly when there was nothing to
sanitize. -/
theorem sanitized_iff_clean (w : World) (dir user : Option Str) (c : List Byte) :
    Sanitized w dir user c ↔ Clean w dir user c := by
  refine ⟨fun h => ?_, sanitized_of_clean⟩
  rintro ⟨f, hf⟩ harray hpos l hl
  by_contra hjunk
  obtain ⟨hmem, hne⟩ := List.mem_filter.mp hl
  obtain ⟨pre, post, hsplit⟩ := List.append_of_mem hmem
  obtain ⟨slots, hslots⟩ := stored_of_pos w.entryMem (entriesOf c) hpos
  have hlist := findTrustedDevices_holding (c := c) hf
  rw [harray, hslots] at hlist
  have herase := (h slots _ hlist).2 pre l post hsplit hjunk
  rw [findTrustedDevices_holding hf] at herase
  have hcount := (stored_some herase).1
  rw [nonblank_erase hsplit (by simpa using hne)] at hcount
  exact wrap32_succ_ne _ hcount

/-- The line that disowns a phone. -/
def disowned : List Byte := phone.bytes ++ (lit " is lost\n").bytes

/-- A line that begins with an address and goes on is taken for the address. -/
theorem not_sanitized_overlong :
    ¬ Sanitized phoneWorld (some trustedDirPath) (some (lit "zaku")) disowned := by
  intro h
  have hreads : Reads phoneWorld trustedDirPath (lit "zaku") phoneFile := phoneWorld_reads.mpr rfl
  obtain ⟨hdir, f, hf, -⟩ := hreads
  have hopen := findTrustedFile_eq_some.mpr ⟨hdir, hf⟩
  have hlist : findTrustedDevices (holding phoneWorld disowned) (some trustedDirPath)
      (some (lit "zaku")) = .ok (some [.str phone], 1) := by
    have hentries : entriesOf disowned = [phone] := by decide
    have hone : wrap32 (nonblank disowned).length = 1 := wrap32_of_lt (by decide) (by decide)
    rw [findTrustedDevices_holding hopen, hentries, hone]
    rfl
  have hwhole := (h _ _ hlist).1 phone (by simp)
  revert hwhole
  unfold WholeLine
  decide

end ProxyAuth.Sanitize
