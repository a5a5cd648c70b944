import ProxyAuth.Leaks

/-!
The balance of the login.

Both lists of devices are given back, the files and the log are closed, and no block is used or
given back that is not held. What stays are the references of the query.
-/

namespace ProxyAuth.Balance

open ProxyAuth.Control ProxyAuth.CString ProxyAuth.Getline ProxyAuth.BtMisc ProxyAuth.BtPair
open ProxyAuth.BtTrust ProxyAuth.Login ProxyAuth.PostAuth ProxyAuth.Ledger ProxyAuth.Heap
open ProxyAuth.Leaks ProxyAuth.Sec ProxyAuth.FileName

variable {addr : ℕ → Block} {array b : Block} {j k : ℕ} {l : List Slot}

/-! ### The trusted devices -/

/-- What `find_trusted_devices` names. -/
def OfTrusted : Set Block
  | .trustedFile | .line | .trustedArray | .trustedAddr _ => True
  | _ => False

lemma balances_countLoop (A : Alloc) (ls : List (List Byte)) (line : Buf) (n : ℤ) :
    Balances OfTrusted {.line, .trustedFile} [] (Heap.countLoop A ls line n) fun _ =>
      {.line, .trustedFile} := by
  induction ls generalizing line n with
  | nil => exact (Balances.use (by simp)).bind fun _ _ => Balances.pure rfl
  | cons l ls ih =>
    refine (Balances.use (by simp)).bind fun _ _ => ?_
    exact (Balances.use (by simp)).bind fun _ _ => ih _ _

lemma balances_getNumLines (A : Alloc) (content : List Byte) :
    Balances OfTrusted {.trustedFile} [] (Heap.getNumLines A content) fun _ => {.trustedFile} :=
  Balances.bracket (balances_countLoop A (lines content) [] 0) (by trivial) (by simp)
    fun _ _ => by simp

/-- What is held while the file is read and `n` strings are stored. -/
def filling (n : ℕ) : Finset Block :=
  insert .line (insert .trustedFile (insert .trustedArray (addrs .trustedAddr n)))

lemma balances_fillLoop (A : Alloc) (alloc : ℕ → Bool) (num : ℕ) (ls : List (List Byte))
    (σ : Fill) :
    Balances OfTrusted (filling σ.i) [] (Heap.fillLoop A alloc num ls σ) fun σ' =>
      filling σ'.i := by
  have hfile : ∀ n, Block.trustedFile ∈ filling n := by simp [filling]
  have hline : ∀ n, Block.line ∈ filling n := by simp [filling]
  induction ls generalizing σ with
  | nil => exact (Balances.use (hfile _)).bind fun _ _ => Balances.pure rfl
  | cons l ls ih =>
    rw [Heap.fillLoop]
    refine (Balances.use (hfile _)).bind fun _ _ => (Balances.use (hline _)).bind fun _ _ => ?_
    by_cases hroom : σ.i < num
    · by_cases hblank : ofBuf (getline A σ.line l) ≠ lit "\n"
      · simp only [if_pos hroom, if_pos hblank]
        have hgot : (if alloc σ.tries = true then insert (.trustedAddr σ.i) (filling σ.i)
            else filling σ.i) = filling (if alloc σ.tries = true then σ.i + 1 else σ.i) := by
          split_ifs
          · rw [filling, filling, addrs_succ]
            ext b
            simp
            tauto
          · rfl
        refine (Balances.attempt _).bind fun line _ => ?_
        refine (Balances.acquireIf (fun _ => ?_) fun _ => by trivial).bind fun _ _ => ?_
        · simp [filling, mem_addrs]
        rw [hgot]
        refine (Balances.attempt _).bind fun slots _ => ?_
        refine (Balances.use (by simp [filling])).bind fun _ _ => ?_
        refine (Balances.useIf fun _ => hline _).bind fun _ _ => ?_
        refine (Balances.useIf fun h => ?_).bind fun _ _ =>
          ih ⟨line, slots, if alloc σ.tries = true then σ.i + 1 else σ.i, σ.tries + 1⟩
        simp [filling, mem_addrs, h]
      · simp only [if_pos hroom, if_neg hblank]
        exact ih { σ with line := getline A σ.line l }
    · simp only [if_neg hroom]
      exact Balances.pure rfl

/-- The filling pass leaves its strings in the first slots. -/
lemma compact_fillLoop {A : Alloc} {alloc : ℕ → Bool} {num : ℕ} {ls : List (List Byte)}
    {σ σ' : Fill} (h : BtTrust.fillLoop A alloc num ls σ = .ok σ') (hc : Compact σ.slots σ.i)
    (hle : σ.i ≤ num) : Compact σ'.slots σ'.i ∧ σ'.i ≤ num := by
  induction ls generalizing σ with
  | nil =>
    obtain rfl := Except.ok.inj h
    exact ⟨hc, hle⟩
  | cons l ls ih =>
    rw [BtTrust.fillLoop] at h
    by_cases hroom : σ.i < num
    · by_cases hblank : ofBuf (getline A σ.line l) ≠ lit "\n"
      · simp only [if_pos hroom, if_pos hblank] at h
        obtain ⟨line, -, h⟩ := bind_eq_ok.mp h
        split_ifs at h
        · obtain ⟨slots, hs, h⟩ := bind_eq_ok.mp h
          exact ih h (hc.store_str hs) hroom
        · obtain ⟨slots, hs, h⟩ := bind_eq_ok.mp h
          exact ih h (hc.store_null hs) hle
      · simp only [if_pos hroom, if_neg hblank] at h
        exact ih h hc hle
    · simp only [if_neg hroom] at h
      obtain rfl := Except.ok.inj h
      exact ⟨hc, hle⟩

lemma balances_setTrustedDevices (A : Alloc) (alloc : ℕ → Bool) (content : List Byte) {num : ℤ}
    (hnum : 0 < num) :
    Balances OfTrusted {.trustedFile, .trustedArray} []
      (Heap.setTrustedDevices A alloc content (List.replicate num.toNat .unwritten) num)
      fun slots => insert .trustedFile (ofList .trustedArray .trustedAddr (some slots) num) := by
  rw [Heap.setTrustedDevices, if_pos hnum]
  refine (Balances.use (by simp)).bind fun _ _ => ?_
  refine (Balances.acquire (by simp) (by trivial)).bind fun _ _ => ?_
  have hfill := balances_fillLoop A alloc num.toNat (lines content)
    ⟨[], List.replicate num.toNat .unwritten, 0, 0⟩
  refine (hfill.consequence le_rfl (by simp [filling, addrs]) fun _ _ => rfl).bind fun σ hσ => ?_
  refine (Balances.release (Finset.mem_insert_self _ _)).bind fun _ _ => Balances.pure ?_
  rw [fillLoop_result] at hσ
  obtain ⟨hcompact, hle⟩ := compact_fillLoop hσ (compact_replicate _) (Nat.zero_le _)
  change (filling σ.i).erase .line = _
  rw [filling, ofList, hcompact.strings_take hle]
  exact Finset.erase_insert (by simp [mem_addrs])

lemma balances_listTrusted (w : World) (f : TrustedFile) :
    Balances OfTrusted {.trustedFile} [] (listTrusted w f) fun t =>
      insert .trustedFile (ofList .trustedArray .trustedAddr t.1 t.2) := by
  refine (balances_getNumLines w.lineMem f.counted).bind fun num _ => ?_
  split_ifs with hzero hnone
  · exact Balances.pure rfl
  · exact Balances.pure rfl
  · refine (Balances.acquire (by simp) (by trivial)).bind fun _ _ => ?_
    have hpos : 0 < num := by omega
    have hset := balances_setTrustedDevices w.lineMem w.entryMem f.filled hpos
    rw [Finset.pair_comm] at hset
    exact hset.bind fun slots _ => Balances.pure rfl

variable {logFp : Bool} {P : Finset Block}

/-- Without the log, the search prints nothing. -/
lemma findTrustedFile_silent (w : World) (dir user : Option Str) :
    (LogFile.findTrustedFile false w.limits w.stack w.files dir user).events = [] := by
  rcases dir with _ | dir
  · rfl
  rcases user with _ | user
  · rfl
  rw [LogFile.findTrustedFile]
  rcases checkConfig (w.files.lstatDir dir) w.files.dirStale 1 with c | ⟨⟩
  · rfl
  simp only [LogFile.getTrustedDevFile]
  rcases fileName w.limits w.stack dir user with e | file
  · rfl
  rw [Act.call_ok, Act.pure_bind]
  rcases checkConfig (w.files.lstatFile file) w.files.fileStale 0 with c | ⟨⟩
  · rfl
  rcases w.files.fopen file with _ | f
  · rfl
  · rfl

lemma balances_printed {α : Type} {N : Set Block} {x : LogFile.Logged α} {a : α}
    (hx : x.result = .ok a) (hlog : x.events ≠ [] → .log ∈ P) :
    Balances N P [] (printed x) fun _ => P := by
  have hlines : ∀ es : List LogFile.Entry, (es ≠ [] → .log ∈ P) →
      strays P (es.map fun _ => .use .log) = [] ∧ after P (es.map fun _ => .use .log) = P := by
    intro es
    induction es with
    | nil => exact fun _ => ⟨rfl, rfl⟩
    | cons e es ih =>
      intro h
      have hmem := h (List.cons_ne_nil _ _)
      obtain ⟨hstrays, hafter⟩ := ih fun _ => hmem
      have hsound : Op.Sound P (.use .log) := hmem
      exact ⟨(strays_of_sound hsound).trans hstrays, hafter⟩
  obtain ⟨hstrays, hafter⟩ := hlines x.events hlog
  refine ⟨?_, fun _ _ => hafter, fun r hr => ?_⟩
  · rw [printed, hx]
    exact hstrays
  · obtain ⟨e, -, he⟩ := List.mem_map.mp hr
    cases he

lemma balances_findTrustedDevices (w : World) (dir user : Option Str)
    (hlog : logFp = true → .log ∈ P) (hnew : ∀ b ∈ P, b ∉ OfTrusted) :
    Balances OfTrusted P [] (Heap.findTrustedDevices logFp w dir user) fun t =>
      ofList .trustedArray .trustedAddr t.1 t.2 ∪ P := by
  obtain ⟨file, hfile⟩ := findTrustedFile_ok w.limits w.stack w.files dir user
  have hprinted := LogFile.findTrustedFile_result logFp w.limits w.stack w.files dir user
  refine (balances_printed (hprinted.trans hfile) fun hsaid => ?_).bind fun file _ => ?_
  · cases logFp
    · exact absurd (findTrustedFile_silent w dir user) hsaid
    · exact hlog rfl
  rcases file with _ | f
  · exact Balances.pure (Finset.empty_union _).symm
  have hfile : Block.trustedFile ∉ P := fun hmem => hnew _ hmem trivial
  have hlist := (balances_listTrusted w f).besides P fun b hb =>
    ⟨fun hmem => hfile (Finset.mem_singleton.mp hmem ▸ hb), hnew b hb⟩
  refine Balances.bracket (hlist.consequence le_rfl (Finset.insert_eq _ _).symm fun t _ => ?_)
    (by trivial) hfile fun t _ hmem => ?_
  · rw [Finset.insert_union]
  · rcases Finset.mem_union.mp hmem with hmem | hmem
    · rcases mem_ofList hmem with h | ⟨i, h⟩ <;> cases h
    · exact hfile hmem

/-! ### The decision -/

variable {block : Option Block}

lemma strings_subset_of_cons {s : Slot} {ss : List Slot} :
    strings addr (j + 1) (ss.take k) ⊆ strings addr j ((s :: ss).take (k + 1)) := by
  rw [List.take_succ_cons]
  cases s
  · exact le_rfl
  · exact le_rfl
  · exact Finset.subset_insert _ _

lemma mem_strings_of_read {s : Slot} {ss : List Slot} {t : Option Str} (hs : s.read = .ok t)
    (ht : t.isSome = true) : addr j ∈ strings addr j ((s :: ss).take (k + 1)) := by
  rw [List.take_succ_cons]
  cases s with
  | unwritten => cases hs
  | null =>
    obtain rfl := Except.ok.inj hs
    cases ht
  | str s => exact Finset.mem_insert_self _ _

lemma mem_of_read {s : Slot} {ss : List Slot} {t : Option Str} (hs : s.read = .ok t)
    (hl : strings addr j ((s :: ss).take (k + 1)) ⊆ P) :
    t.isSome = true → ∀ b ∈ some (addr j), b ∈ P := by
  intro ht b hb
  rw [← Option.some.inj hb]
  exact hl (mem_strings_of_read hs ht)

lemma balances_useStr {p : Option Str} (h : p.isSome = true → ∀ b ∈ block, b ∈ P) :
    Balances ∅ P [] (useStr block p) fun _ => P := by
  rcases block with _ | b
  · exact Balances.pure rfl
  · exact Balances.useIf fun hsome => h hsome b rfl

/-- Looking through a list of devices, nothing is read that was given back. -/
lemma balances_devLoop {dev : Option Str} (harray : array ∈ P)
    (hdev : dev.isSome = true → ∀ b ∈ block, b ∈ P) (hl : strings addr j (l.take k) ⊆ P) :
    Balances ∅ P [] (Heap.devLoop block array addr dev j l k) fun _ => P := by
  induction l generalizing j k with
  | nil =>
    rcases k with _ | k
    · exact Balances.pure rfl
    · exact Balances.fault _
  | cons s ss ih =>
    rcases k with _ | k
    · exact Balances.pure rfl
    rw [Heap.devLoop]
    refine (Balances.use harray).bind fun _ _ => (Balances.attempt _).bind fun t ht => ?_
    rw [attempt_result] at ht
    have hread := mem_of_read ht hl
    refine (balances_useStr hdev).bind fun _ _ => (balances_useStr hread).bind fun _ _ => ?_
    refine (Balances.attempt _).bind fun same _ => ?_
    cases same
    · exact ih (strings_subset_of_cons.trans hl)
    · exact Balances.pure rfl

lemma balances_isDevTrusted {dev : Option Str} {devices : Option (List Slot)} {num : ℤ}
    (hdev : dev.isSome = true → ∀ b ∈ block, b ∈ P) (hl : ofList array addr devices num ⊆ P) :
    Balances ∅ P [] (Heap.isDevTrusted block array addr dev devices num) fun _ => P := by
  rcases devices with _ | l
  · unfold Heap.isDevTrusted
    simp only
    split_ifs
    · exact Balances.pure rfl
    · exact Balances.fault _
  · exact balances_devLoop (hl (Finset.mem_insert_self _ _)) hdev
      ((Finset.subset_insert _ _).trans hl)

lemma balances_pairedLoop {trusted : Option (List Slot)} {num : ℤ} {alloc : Bool}
    (hlog : logFp = true → .log ∈ P)
    (htrusted : ofList .trustedArray .trustedAddr trusted num ⊆ P) (harray : .pairedArray ∈ P)
    (hl : strings .pairedAddr j (l.take k) ⊆ P) (hnew : .detected ∉ P) :
    Balances {.detected} P [] (Heap.pairedLoop logFp trusted num alloc none j l k) fun login =>
      if login.detected.isSome then insert .detected P else P := by
  induction l generalizing j k with
  | nil =>
    rcases k with _ | k
    · exact Balances.pure rfl
    · exact Balances.fault _
  | cons s ss ih =>
    rcases k with _ | k
    · exact Balances.pure rfl
    rw [Heap.pairedLoop]
    refine (Balances.use harray).bind fun _ _ => (Balances.attempt _).bind fun dev hdev => ?_
    rw [attempt_result] at hdev
    have hblock := mem_of_read hdev hl
    have hfound := balances_isDevTrusted hblock htrusted
    refine (hfound.consequence (Set.empty_subset _) rfl fun _ _ => rfl).bind fun found _ => ?_
    cases found
    · exact ih (strings_subset_of_cons.trans hl)
    · rcases dev with _ | d
      · exact Balances.fault _
      have hstring : Block.pairedAddr j ∈ P := hblock rfl _ rfl
      refine (Balances.useIf hlog).bind fun _ _ => ?_
      refine (Balances.useIf fun _ => hstring).bind fun _ _ => ?_
      cases alloc
      · exact Balances.pure rfl
      · refine (Balances.acquire hnew (Set.mem_singleton _)).bind fun _ _ => ?_
        refine (Balances.use (Finset.mem_insert_of_mem hstring)).bind fun _ _ => ?_
        exact (Balances.use (Finset.mem_insert_self _ _)).bind fun _ _ => Balances.pure rfl

lemma balances_findTrustedPairedDevice {trusted paired : Option (List Slot)} {num numPaired : ℤ}
    {alloc : Bool} (hlog : logFp = true → .log ∈ P)
    (htrusted : ofList .trustedArray .trustedAddr trusted num ⊆ P)
    (hpaired : ofList .pairedArray .pairedAddr paired numPaired ⊆ P) (hnew : .detected ∉ P) :
    Balances {.detected} P []
      (Heap.findTrustedPairedDevice logFp alloc trusted num paired numPaired none) fun login =>
        if login.detected.isSome then insert .detected P else P := by
  rcases trusted with _ | t
  · exact Balances.pure rfl
  rcases paired with _ | p
  · exact Balances.pure rfl
  exact balances_pairedLoop hlog htrusted (hpaired (Finset.mem_insert_self _ _))
    ((Finset.subset_insert _ _).trans hpaired) hnew

lemma balances_report {login : Login} (hlog : logFp = true → .log ∈ P)
    (hdetected : login.detected.isSome = true → .detected ∈ P) :
    Balances ∅ P [] (Heap.report logFp login) fun _ => P := by
  unfold Heap.report
  split_ifs with hstatus hsome
  · refine (Balances.useIf hlog).bind fun _ _ => ?_
    exact Balances.useIf fun _ => hdetected hsome
  · exact Balances.pure rfl
  · exact Balances.useIf hlog

lemma balances_compareLists (w : World) {trusted paired : Option (List Slot)} {num numPaired : ℤ}
    (hlog : logFp = true → .log ∈ P)
    (htrusted : ofList .trustedArray .trustedAddr trusted num ⊆ P)
    (hpaired : ofList .pairedArray .pairedAddr paired numPaired ⊆ P) (hnew : .detected ∉ P) :
    Balances {.detected} P [] (Heap.compareLists logFp w trusted num paired numPaired) fun login =>
      if login.detected.isSome then insert .detected P else P := by
  have hfind : Balances {.detected} P [] (if paired.isSome then
      Heap.findTrustedPairedDevice logFp w.detectedMem trusted num paired numPaired none
    else pure ⟨false, none⟩) fun login =>
      if login.detected.isSome then insert .detected P else P := by
    split_ifs
    · exact balances_findTrustedPairedDevice hlog htrusted hpaired hnew
    · exact Balances.pure rfl
  refine (Balances.useIf hlog).bind fun _ _ => hfind.bind fun login _ => ?_
  have hreport : Balances ∅ (if login.detected.isSome then insert .detected P else P) []
      (Heap.report logFp login) fun _ => if login.detected.isSome then insert .detected P else P :=
    balances_report (fun h => by simp [mem_insertIf, hlog h]) fun h => by simp [h]
  refine (hreport.consequence (Set.empty_subset _) rfl fun _ _ => rfl).bind fun _ _ => ?_
  exact Balances.pure rfl

/-! ### The login -/

lemma balances_freeTrusted (trusted : Option (List Slot)) (num : ℤ) :
    Balances ∅ (ofList .trustedArray .trustedAddr trusted num) []
      (Heap.freeDeviceList .trustedArray .trustedAddr trusted num) fun _ => ∅ :=
  balances_freeDeviceList (fun _ _ h => Block.trustedAddr.inj h) (fun i h => by cases h) trusted num

lemma balances_freePaired (paired : Option (List Slot)) (num : ℤ) :
    Balances ∅ (ofList .pairedArray .pairedAddr paired num) []
      (Heap.freeDeviceList .pairedArray .pairedAddr paired num) fun _ => ∅ :=
  balances_freeDeviceList (fun _ _ h => Block.pairedAddr.inj h) (fun i h => by cases h) paired num

lemma ofTrusted_of_mem {trusted : Option (List Slot)} {num : ℤ}
    (h : b ∈ ofList .trustedArray .trustedAddr trusted num) : b ∈ OfTrusted := by
  rcases mem_ofList h with rfl | ⟨i, rfl⟩ <;> trivial

/-- What `bluetooth_login` holds after the query. -/
def queried (w : World) (paired : Option (List Slot) × ℤ) : Finset Block :=
  ofList .pairedArray .pairedAddr paired.1 paired.2 ∪ leakedByQuery w.pairMem w.bus

lemma ofQuery_of_mem {w : World} {paired : Option (List Slot) × ℤ} (h : b ∈ queried w paired) :
    b ∈ OfQuery := by
  rcases Finset.mem_union.mp h with h | h
  · rcases mem_ofList h with rfl | ⟨i, rfl⟩ <;> trivial
  · rcases mem_leakedByQuery h with rfl | ⟨c, rfl | rfl | rfl | rfl⟩ <;> trivial

lemma ofQuery_disjoint (h : b ∈ OfQuery) : b ∉ OfTrusted ∧ b ≠ .detected ∧ b ≠ .log := by
  cases b <;> first | exact h.elim | exact ⟨by exact id, by simp⟩

lemma ofTrusted_disjoint (h : b ∈ OfTrusted) : b ≠ .detected ∧ b ≠ .log := by
  cases b <;> first | exact h.elim | simp

/-- What it holds once it has both lists, besides `P`. -/
def gathered (w : World) (P : Finset Block) (trusted paired : Option (List Slot) × ℤ) :
    Finset Block :=
  ofList .trustedArray .trustedAddr trusted.1 trusted.2 ∪ (queried w paired ∪ P)

section

variable (hP : ∀ b ∈ P, b = .log)
include hP

lemma detected_notMem_gathered (w : World) (trusted paired : Option (List Slot) × ℤ) :
    Block.detected ∉ gathered w P trusted paired := by
  intro hmem
  rcases Finset.mem_union.mp hmem with hmem | hmem
  · exact (ofTrusted_disjoint (ofTrusted_of_mem hmem)).1 rfl
  rcases Finset.mem_union.mp hmem with hmem | hmem
  · exact (ofQuery_disjoint (ofQuery_of_mem hmem)).2.1 rfl
  · cases hP _ hmem

lemma balances_decide (hlog : logFp = true → .log ∈ P) (w : World)
    (trusted paired : Option (List Slot) × ℤ) :
    Balances {.detected} (gathered w P trusted paired) []
      (if trusted.1.isSome then
        Heap.compareLists logFp w trusted.1 trusted.2 paired.1 paired.2
      else pure ⟨false, none⟩) fun login => gathered w P trusted paired ∪
        if login.detected.isSome then {.detected} else ∅ := by
  have hpaired : ofList .pairedArray .pairedAddr paired.1 paired.2 ⊆ gathered w P trusted paired :=
    Finset.subset_union_left.trans (Finset.subset_union_left.trans Finset.subset_union_right)
  have hheld : logFp = true → .log ∈ gathered w P trusted paired := fun h =>
    Finset.mem_union_right _ (Finset.mem_union_right _ (hlog h))
  split_ifs
  · refine (balances_compareLists w hheld Finset.subset_union_left hpaired
      (detected_notMem_gathered hP w trusted paired)).consequence le_rfl rfl fun login _ => ?_
    split_ifs
    · rw [Finset.union_comm (gathered w P trusted paired), ← Finset.insert_eq]
    · rw [Finset.union_empty]
  · exact Balances.pure (Finset.union_empty _).symm

/-- Both lists are given back, after the last look at them. -/
lemma balances_freeBoth {α : Type} (w : World) (x : α) (trusted paired : Option (List Slot) × ℤ)
    {F : Finset Block} {Q : α → Finset Block} (hF : ∀ b ∈ F, b = .detected)
    (hQ : leakedByQuery w.pairMem w.bus ∪ (P ∪ F) = Q x) :
    Balances ∅ (gathered w P trusted paired ∪ F) [] (do
      Heap.freeDeviceList .trustedArray .trustedAddr trusted.1 trusted.2
      Heap.freeDeviceList .pairedArray .pairedAddr paired.1 paired.2
      pure x : Work α) Q := by
  have hother : ∀ b ∈ P ∪ F, b = .log ∨ b = .detected := fun b hb =>
    (Finset.mem_union.mp hb).imp (hP b) (hF b)
  have hleft : ∀ b ∈ leakedByQuery w.pairMem w.bus ∪ (P ∪ F),
      b ∉ ofList .pairedArray .pairedAddr paired.1 paired.2 := by
    intro b hb hmem
    rcases Finset.mem_union.mp hb with hb | hb
    · rcases mem_leakedByQuery hb with rfl | ⟨c, rfl | rfl | rfl | rfl⟩ <;>
        rcases mem_ofList hmem with h | ⟨i, h⟩ <;> cases h
    · rcases hother b hb with rfl | rfl <;>
        rcases mem_ofList hmem with h | ⟨i, h⟩ <;> cases h
  have hrest : ∀ b ∈ ofList .pairedArray .pairedAddr paired.1 paired.2 ∪
      (leakedByQuery w.pairMem w.bus ∪ (P ∪ F)),
      b ∉ ofList .trustedArray .trustedAddr trusted.1 trusted.2 := by
    intro b hb hmem
    rw [← Finset.union_assoc] at hb
    rcases Finset.mem_union.mp hb with hb | hb
    · exact (ofQuery_disjoint (ofQuery_of_mem hb)).1 (ofTrusted_of_mem hmem)
    · rcases hother b hb with rfl | rfl
      · exact (ofTrusted_disjoint (ofTrusted_of_mem hmem)).2 rfl
      · exact (ofTrusted_disjoint (ofTrusted_of_mem hmem)).1 rfl
  have hheld : gathered w P trusted paired ∪ F =
      ofList .trustedArray .trustedAddr trusted.1 trusted.2 ∪
        (ofList .pairedArray .pairedAddr paired.1 paired.2 ∪
          (leakedByQuery w.pairMem w.bus ∪ (P ∪ F))) := by
    simp only [gathered, queried, Finset.union_assoc]
  rw [hheld]
  refine ((balances_freeTrusted trusted.1 trusted.2).besides _ fun b hb =>
    ⟨hrest b hb, by exact id⟩).bind fun _ _ => ?_
  rw [Finset.empty_union]
  refine ((balances_freePaired paired.1 paired.2).besides _ fun b hb =>
    ⟨hleft b hb, by exact id⟩).bind fun _ _ => Balances.pure ?_
  rw [Finset.empty_union, hQ]

/-- What is done with both lists. -/
lemma balances_withBoth {α : Type} (hlog : logFp = true → .log ∈ P) (w : World) (num : ℤ)
    (dir user : Option Str)
    {f : Option (List Slot) × ℤ → Option (List Slot) × ℤ → Work α} {Q : α → Finset Block}
    (hf : ∀ paired trusted, Balances Set.univ (gathered w P trusted paired) []
      (f paired trusted) Q) :
    Balances Set.univ P (lostReply w.bus) (do
      let paired ← Heap.getPairedDevices w.pairMem w.bus num
      let trusted ← Heap.findTrustedDevices logFp w dir user
      f paired trusted) Q := by
  have hlost : ∀ b ∈ P, .use b ∉ lostReply w.bus ∧ .release b ∉ lostReply w.bus := by
    intro b hb
    rw [hP b hb]
    cases w.bus <;> simp [lostReply]
  have hquery := (balances_getPairedDevices w.pairMem w.bus num).frame P (fun b hb =>
    ⟨Finset.notMem_empty b, fun hmem => (ofQuery_disjoint hmem).2.2 (hP b hb)⟩) hlost
  rw [Finset.empty_union] at hquery
  refine (hquery.consequence (Set.subset_univ _) rfl fun _ _ => rfl).bind fun paired _ => ?_
  have hfind : Balances OfTrusted (queried w paired ∪ P) []
      (Heap.findTrustedDevices logFp w dir user) fun t => gathered w P t paired :=
    balances_findTrustedDevices w dir user (fun h => Finset.mem_union_right _ (hlog h))
      fun b hb => by
        rcases Finset.mem_union.mp hb with hb | hb
        · exact (ofQuery_disjoint (ofQuery_of_mem hb)).1
        · exact fun hmem => (ofTrusted_disjoint hmem).2 (hP b hb)
  exact (hfind.consequence (Set.subset_univ _) rfl fun _ _ => rfl).bind fun trusted _ =>
    hf paired trusted

/-- `bluetooth_login` gives back both lists; the references of the query stay, and the address that
it hands on. -/
lemma balances_bluetoothLogin (hlog : logFp = true → .log ∈ P) (w : World)
    (dir user : Option Str) :
    Balances Set.univ P (lostReply w.bus) (Heap.bluetoothLogin logFp w dir user) fun login =>
      leakedByQuery w.pairMem w.bus ∪ (P ∪ if login.detected.isSome then {.detected} else ∅) := by
  refine balances_withBoth hP hlog w 0 dir user fun paired trusted => ?_
  refine ((balances_decide hP hlog w trusted paired).consequence (Set.subset_univ _) rfl
    fun _ _ => rfl).bind fun login _ => ?_
  refine (balances_freeBoth hP w login trusted paired (fun b hb => ?_) rfl).consequence
    (Set.empty_subset _) rfl fun _ _ => rfl
  split_ifs at hb
  · exact Finset.mem_singleton.mp hb
  · cases hb

end

lemma pairedLoop_failed {trusted : Option (List Slot)} {num : ℤ} {alloc : Bool} {login : Login}
    (h : BtTrust.pairedLoop trusted num alloc none l k = .ok login) (hs : login.status = false) :
    login.detected = none := by
  induction l generalizing k with
  | nil =>
    rcases k with _ | k
    · obtain rfl := Except.ok.inj h
      rfl
    · cases h
  | cons s ss ih =>
    rcases k with _ | k
    · obtain rfl := Except.ok.inj h
      rfl
    rw [BtTrust.pairedLoop] at h
    obtain ⟨dev, -, h⟩ := bind_eq_ok.mp h
    obtain ⟨found, -, h⟩ := bind_eq_ok.mp h
    cases found
    · exact ih h
    · rcases dev with _ | d
      · cases h
      · obtain rfl := Except.ok.inj h
        cases hs

/-- A login that fails hands no address on. -/
lemma bluetoothLogin_failed {w : World} {dir user : Option Str} {login : Login}
    (h : BtTrust.bluetoothLogin w dir user = .ok login) (hs : login.status = false) :
    login.detected = none := by
  unfold BtTrust.bluetoothLogin at h
  obtain ⟨⟨paired, numPaired⟩, -, h⟩ := bind_eq_ok.mp h
  obtain ⟨⟨trusted, num⟩, -, h⟩ := bind_eq_ok.mp h
  obtain ⟨found, hfound, h⟩ := bind_eq_ok.mp h
  obtain ⟨-, -, h⟩ := bind_eq_ok.mp h
  obtain ⟨-, -, h⟩ := bind_eq_ok.mp h
  obtain rfl := Except.ok.inj h
  rcases trusted with _ | t
  · obtain rfl := Except.ok.inj hfound
    rfl
  rcases paired with _ | p
  · obtain rfl := Except.ok.inj hfound
    rfl
  exact pairedLoop_failed hfound hs

/-- Where no reply came, the one that is given back. -/
def lostBy (A : Auth) : List (Op Block) :=
  if A.user.isSome then lostReply A.world.bus else []

/-- What stays of a login. -/
def remains (A : Auth) : Finset Block :=
  if A.user.isSome then leakedByQuery A.world.pairMem A.world.bus else ∅

lemma balances_authenticate (A : Auth) {P : Finset Block} (hP : ∀ b ∈ P, b = .log)
    (hlog : A.logFp = true → .log ∈ P) :
    Balances Set.univ P (lostBy A) (Heap.authenticate A) fun _ => remains A ∪ P := by
  unfold Heap.authenticate lostBy remains
  rcases A.user with _ | username
  · exact (Balances.useIf hlog).bind fun _ _ => Balances.pure (Finset.empty_union _).symm
  refine (balances_bluetoothLogin hP hlog A.world _ _).bind fun login hlogin => ?_
  have hnew : Block.detected ∉ leakedByQuery A.world.pairMem A.world.bus ∪ P := by
    intro hmem
    rcases Finset.mem_union.mp hmem with hmem | hmem
    · rcases mem_leakedByQuery hmem with h | ⟨c, h | h | h | h⟩ <;> cases h
    · cases hP _ hmem
  rw [← Finset.union_assoc]
  cases hstatus : login.status
  · rw [bluetoothLogin_result] at hlogin
    refine Balances.pure ?_
    rw [bluetoothLogin_failed hlogin hstatus]
    exact Finset.union_empty _
  · refine (Balances.useIf fun h => ?_).bind fun _ _ => ?_
    · exact Finset.mem_union_left _ (Finset.mem_union_right _ (hlog h))
    refine (Balances.releaseIf fun hsome => ?_).bind fun _ _ => Balances.pure ?_
    · simp [hsome]
    · change _ = leakedByQuery A.world.pairMem A.world.bus ∪ P
      split_ifs
      · rw [Finset.erase_union_distrib, Finset.erase_singleton, Finset.union_empty,
          Finset.erase_eq_of_notMem hnew]
      · exact Finset.union_empty _

/-- **The balance of a login.** Whatever the lookup of the user, the bus, the files and the
allocator answer, what is used or given back is held, with two exceptions: the reply of a call that
failed, and, where the login ends in a fault, what that fault is about. When the call returns, all
that it took is given back, but for the references of the query. -/
theorem login_balances (A : Auth) :
    Balances Set.univ ∅ (lostBy A) (Heap.pamSmAuthenticate A) fun _ => remains A := by
  have hbody := balances_authenticate A
    (P := if A.logFp = true then insert .log ∅ else ∅) (fun b hb => ?_) fun h => by simp [h]
  · refine Balances.bracketIf (hbody.consequence le_rfl rfl fun code _ => ?_) (Set.mem_univ _)
      (Finset.notMem_empty _) fun _ _ hmem => ?_
    · split_ifs
      · rw [Finset.union_comm]
        rfl
      · rw [Finset.union_empty]
    · unfold remains at hmem
      split_ifs at hmem
      · rcases mem_leakedByQuery hmem with h | ⟨c, h | h | h | h⟩ <;> cases h
      · cases hmem
  · split_ifs at hb
    · exact Finset.mem_singleton.mp hb
    · cases hb

end ProxyAuth.Balance
