import ProxyAuth.Heap
import Mathlib.Data.Finset.Image
import Mathlib.Data.Finset.Range

/-!
What a query of BlueZ leaves behind.

A list of devices is a block and the strings that were stored in it. Besides the list, references
of GLib stay: the reply is unpacked into a value that nobody gives back, and a call of
`check_is_paired` keeps its dictionary and all values that it looked up.
-/

namespace ProxyAuth.Leaks

open ProxyAuth.Control ProxyAuth.CString ProxyAuth.Getline ProxyAuth.BtMisc ProxyAuth.BtPair
open ProxyAuth.BtTrust ProxyAuth.Login ProxyAuth.PostAuth ProxyAuth.Ledger ProxyAuth.Heap

/-! ### Lists of devices -/

/-- The strings in the slots, the first of which is slot `j`. -/
def strings (addr : ℕ → Block) (j : ℕ) : List Slot → Finset Block
  | [] => ∅
  | .str _ :: ss => insert (addr j) (strings addr (j + 1) ss)
  | .null :: ss | .unwritten :: ss => strings addr (j + 1) ss

/-- What belongs to a list of which `num` slots count. -/
def ofList (array : Block) (addr : ℕ → Block) (devices : Option (List Slot)) (num : ℤ) :
    Finset Block :=
  match devices with
  | none => ∅
  | some l => insert array (strings addr 0 (l.take num.toNat))

variable {array : Block} {addr : ℕ → Block} {b : Block} {j k n : ℕ} {l : List Slot}

lemma mem_strings : b ∈ strings addr j l ↔ ∃ i s, l[i]? = some (.str s) ∧ b = addr (j + i) := by
  induction l generalizing j with
  | nil => simp [strings]
  | cons s ss ih =>
    have hcons : (∃ i t, (s :: ss)[i]? = some (.str t) ∧ b = addr (j + i)) ↔
        (∃ t, s = .str t ∧ b = addr j) ∨ b ∈ strings addr (j + 1) ss := by
      rw [ih]
      constructor
      · rintro ⟨_ | i, t, ht, rfl⟩
        · exact .inl ⟨t, Option.some.inj ht, rfl⟩
        · exact .inr ⟨i, t, ht, by rw [Nat.add_right_comm, Nat.add_assoc]⟩
      · rintro (⟨t, rfl, rfl⟩ | ⟨i, t, ht, rfl⟩)
        · exact ⟨0, t, rfl, rfl⟩
        · exact ⟨i + 1, t, ht, by rw [Nat.add_right_comm, Nat.add_assoc]⟩
    rw [hcons]
    cases s <;> simp [strings]

/-- Strings are in the first `n` slots, and in no others. -/
def Compact (l : List Slot) (n : ℕ) : Prop := ∀ i, (∃ s, l[i]? = some (.str s)) ↔ i < n

/-- The blocks of the first `n` strings. -/
def addrs (addr : ℕ → Block) (n : ℕ) : Finset Block := (Finset.range n).image addr

lemma mem_addrs : b ∈ addrs addr n ↔ ∃ i < n, addr i = b := by
  simp [addrs]

lemma addrs_succ (addr : ℕ → Block) (n : ℕ) :
    addrs addr (n + 1) = insert (addr n) (addrs addr n) := by
  rw [addrs, Finset.range_add_one, Finset.image_insert, ← addrs]

lemma Compact.strings_take (h : Compact l n) (hk : n ≤ k) :
    strings addr 0 (l.take k) = addrs addr n := by
  ext b
  rw [mem_strings, mem_addrs]
  constructor
  · rintro ⟨i, s, hs, rfl⟩
    rw [List.getElem?_take] at hs
    split_ifs at hs
    exact ⟨i, (h i).mp ⟨s, hs⟩, by rw [Nat.zero_add]⟩
  · rintro ⟨i, hi, rfl⟩
    obtain ⟨s, hs⟩ := (h i).mpr hi
    refine ⟨i, s, ?_, by rw [Nat.zero_add]⟩
    rw [List.getElem?_take, if_pos (by omega), hs]

lemma compact_replicate (n : ℕ) : Compact (List.replicate n .unwritten) 0 := by
  intro i
  simp [List.getElem?_replicate]

/-- A string stored in the first slot that has none. -/
lemma Compact.store_str {l' : List Slot} {s : Str} (h : Compact l n)
    (hs : storeSlot l n (.str s) = .ok l') : Compact l' (n + 1) := by
  unfold storeSlot at hs
  split_ifs at hs with hlt
  obtain rfl := Except.ok.inj hs
  intro i
  rw [List.getElem?_set]
  split_ifs with hi
  · subst hi
    exact iff_of_true ⟨s, rfl⟩ (Nat.lt_succ_self n)
  · rw [h i]
    omega

lemma Compact.store_null {l' : List Slot} (h : Compact l n)
    (hs : storeSlot l n .null = .ok l') : Compact l' n := by
  unfold storeSlot at hs
  split_ifs at hs with hlt
  obtain rfl := Except.ok.inj hs
  intro i
  rw [List.getElem?_set]
  split_ifs with hi
  · subst hi
    exact iff_of_false (by rintro ⟨s, hs⟩; cases hs) (lt_irrefl n)
  · exact h i

lemma mem_ofList {devices : Option (List Slot)} {num : ℤ} (h : b ∈ ofList array addr devices num) :
    b = array ∨ ∃ i, b = addr i := by
  rcases devices with _ | l
  · cases h
  · rcases Finset.mem_insert.mp h with h | h
    · exact .inl h
    · obtain ⟨i, -, -, h⟩ := mem_strings.mp h
      exact .inr ⟨_, h⟩

/-! ### Giving a list back -/

lemma balances_freeLoop (hinj : Function.Injective addr) (harray : ∀ i, addr i ≠ array)
    (l : List Slot) (j k : ℕ) :
    Balances ∅ (insert array (strings addr j (l.take k))) [] (Heap.freeLoop array addr j l k)
      fun _ => {array} := by
  induction l generalizing j k with
  | nil =>
    rcases k with _ | k
    · exact Balances.pure rfl
    · exact Balances.fault _
  | cons s ss ih =>
    rcases k with _ | k
    · exact Balances.pure rfl
    rw [List.take_succ_cons, Heap.freeLoop]
    refine (Balances.use (Finset.mem_insert_self _ _)).bind fun _ _ => ?_
    refine (Balances.attempt s.read).bind fun p hp => ?_
    rw [attempt_result] at hp
    have hrest : Balances ∅ (insert array (strings addr (j + 1) (ss.take k))) [] (do
        Act.emit (.use array)
        Heap.freeLoop array addr (j + 1) ss k : Work Unit) fun _ => {array} :=
      (Balances.use (Finset.mem_insert_self _ _)).bind fun _ _ => ih (j + 1) k
    cases s with
    | unwritten => cases hp
    | null =>
      obtain rfl := Except.ok.inj hp
      exact hrest
    | str t =>
      obtain rfl := Except.ok.inj hp
      have hnew : addr j ∉ strings addr (j + 1) (ss.take k) := by
        rw [mem_strings]
        rintro ⟨i, s, -, heq⟩
        have := hinj heq
        omega
      have herase : (insert array (strings addr j (.str t :: ss.take k))).erase (addr j) =
          insert array (strings addr (j + 1) (ss.take k)) := by
        rw [strings, Finset.erase_insert_of_ne (harray j).symm, Finset.erase_insert hnew]
      refine (Balances.release ?_).bind fun _ _ => herase ▸ hrest
      exact Finset.mem_insert_of_mem (Finset.mem_insert_self _ _)

lemma balances_freeDeviceList (hinj : Function.Injective addr) (harray : ∀ i, addr i ≠ array)
    (devices : Option (List Slot)) (num : ℤ) :
    Balances ∅ (ofList array addr devices num) [] (Heap.freeDeviceList array addr devices num)
      fun _ => ∅ := by
  rcases devices with _ | l
  · exact Balances.pure rfl
  · refine (balances_freeLoop hinj harray l 0 num.toNat).bind fun _ _ => ?_
    refine (Balances.release (Finset.mem_singleton_self _)).consequence (le_refl _) rfl ?_
    intro _ _
    exact Finset.erase_singleton _

/-! ### The query -/

/-- `check_is_paired` comes to look for the address, and finds it. -/
def HasAddress (props : Props) : Prop :=
  lookupBool props (lit "Connected") = some true ∧ lookupBool props (lit "Trusted") = some true ∧
    (lookupString props (lit "Address")).isSome = true

instance (props : Props) : Decidable (HasAddress props) :=
  inferInstanceAs (Decidable (_ ∧ _ ∧ _))

/-- What a call of `check_is_paired` does not give back. -/
def leaked (c : ℕ) (props : Props) : Finset Block :=
  {.dict c} ∪ (if (lookupBool props (lit "Connected")).isSome then {.connected c} else ∅) ∪
    (if (lookupBool props (lit "Connected")).isSome ∧ (lookupBool props (lit "Trusted")).isSome
      then {.trusted c} else ∅) ∪
    (if HasAddress props then {.address c} else ∅)

/-- The same of all interfaces that name a device; the calls are numbered from `k` on. -/
def leakedBy (k : ℕ) : List (Str × Props) → Finset Block
  | [] => ∅
  | e :: es => if namesDevice e.1 then leaked k e.2 ∪ leakedBy (k + 1) es else leakedBy k es

/-- What the calls from the number `k` on name, and the loops they are in. -/
def FromCall (outer : Prop) (k : ℕ) : Set Block
  | .dict c | .connected c | .trusted c | .address c => k ≤ c
  | .pairedAddr _ | .props | .lower => True
  | .ifaces => outer
  | _ => False

def OfCall (c slot : ℕ) : Set Block :=
  {.dict c, .connected c, .trusted c, .address c, .pairedAddr slot}

lemma mem_leaked {c : ℕ} {props : Props} (h : b ∈ leaked c props) :
    b = .dict c ∨ b = .connected c ∨ b = .trusted c ∨ b = .address c := by
  have hif : ∀ (p : Prop) [Decidable p] (b' : Block), b ∈ (if p then {b'} else ∅ : Finset Block) →
      b = b' := by
    intro p _ b' hb
    split_ifs at hb
    · exact Finset.mem_singleton.mp hb
    · exact absurd hb (Finset.notMem_empty b)
  simp only [leaked, Finset.mem_union, Finset.mem_singleton] at h
  rcases h with ((h | h) | h) | h
  · exact .inl h
  · exact .inr (.inl (hif _ _ h))
  · exact .inr (.inr (.inl (hif _ _ h)))
  · exact .inr (.inr (.inr (hif _ _ h)))

lemma mem_leakedBy {es : List (Str × Props)} (h : b ∈ leakedBy k es) :
    ∃ c, b = .dict c ∨ b = .connected c ∨ b = .trusted c ∨ b = .address c := by
  induction es generalizing k with
  | nil => cases h
  | cons e es ih =>
    rw [leakedBy] at h
    split_ifs at h
    · rcases Finset.mem_union.mp h with h | h
      · exact ⟨k, mem_leaked h⟩
      · exact ih h
    · exact ih h

lemma balances_checkIsPaired (alloc : Bool) (c slot : ℕ) (props : Props) :
    Balances (OfCall c slot) {.props} [] (Heap.checkIsPaired alloc c slot props) fun addr =>
      insert .props (leaked c props ∪ if addr.isSome then {.pairedAddr slot} else ∅) := by
  have hacq : ∀ {P : Finset Block} {b : Block}, b ∉ P → b ∈ OfCall c slot →
      Balances (OfCall c slot) P [] (Act.emit (.acquire b) : Work PUnit) fun _ => insert b P :=
    fun hP hN => Balances.acquire hP hN
  unfold Heap.checkIsPaired
  refine (Balances.use (by simp)).bind fun _ _ => ?_
  refine (hacq (by simp) (by simp [OfCall])).bind fun _ _ => ?_
  refine (Balances.use (by simp)).bind fun _ _ => ?_
  rcases hc : lookupBool props (lit "Connected") with _ | isConnected
  · refine Balances.pure ?_
    ext b
    simp [leaked, HasAddress, hc]
    grind
  refine (hacq (by simp) (by simp [OfCall])).bind fun _ _ => ?_
  refine (Balances.use (by simp)).bind fun _ _ => ?_
  rcases ht : lookupBool props (lit "Trusted") with _ | isTrusted
  · refine Balances.pure ?_
    ext b
    simp [leaked, HasAddress, hc, ht]
    grind
  refine (hacq (by simp) (by simp [OfCall])).bind fun _ _ => ?_
  refine (Balances.use (by simp)).bind fun _ _ => ?_
  refine (Balances.useIf (by simp)).bind fun _ _ => ?_
  have hnone : ¬ HasAddress props →
      insert (.trusted c) (insert (.connected c) (insert (.dict c) {.props})) =
        insert .props (leaked c props ∪ ∅) := by
    intro h
    ext b
    simp [leaked, hc, ht, h]
    grind
  by_cases hboth : (isConnected && isTrusted) = true
  · rw [if_pos hboth]
    obtain ⟨rfl, rfl⟩ : isConnected = true ∧ isTrusted = true := by simpa using hboth
    refine (Balances.use (by simp)).bind fun _ _ => ?_
    rcases ha : lookupString props (lit "Address") with _ | addr
    · exact Balances.pure (hnone (by simp [HasAddress, ha]))
    refine (hacq (by simp) (by simp [OfCall])).bind fun _ _ => ?_
    refine (Balances.use (by simp)).bind fun _ _ => ?_
    have hsome : insert (.address c) (insert (.trusted c) (insert (.connected c)
        (insert (.dict c) {.props}))) = insert .props (leaked c props) := by
      ext b
      simp [leaked, HasAddress, hc, ht, ha]
      grind
    rw [hsome]
    cases alloc
    · exact Balances.pure (by simp)
    · have hnew : Block.pairedAddr slot ∉ leaked c props := fun h => by simpa using mem_leaked h
      refine (hacq (by simp [hnew]) (by simp [OfCall])).bind fun _ _ => ?_
      have haddress : Block.address c ∈ leaked c props := by simp [leaked, HasAddress, hc, ht, ha]
      refine (Balances.use (by simp [haddress])).bind fun _ _ => ?_
      refine (Balances.use (by simp)).bind fun _ _ => Balances.pure ?_
      ext b
      simp
      grind
  · rw [if_neg hboth]
    refine Balances.pure (hnone fun h => hboth ?_)
    rw [HasAddress, hc, ht] at h
    simpa using And.intro h.1 h.2.1

/-- What the scan holds while `num` strings are stored. -/
def scanned (num : ℕ) : Finset Block :=
  insert .pairedArray (insert .child (addrs .pairedAddr num))

lemma mem_scanned {num : ℕ} :
    b ∈ scanned num ↔ b = .pairedArray ∨ b = .child ∨ ∃ i < num, .pairedAddr i = b := by
  rw [scanned, Finset.mem_insert, Finset.mem_insert, mem_addrs]

lemma balances_scanDevice (mem : Mem) (σ : Scan) (props : Props) :
    Balances (OfCall σ.calls σ.num) (insert .props (scanned σ.num)) [] (scanDevice mem σ props)
      fun σ' => insert .props (scanned σ'.num ∪ leaked σ.calls props) := by
  have hfresh : ∀ b ∈ scanned σ.num, b ∉ ({.props} : Finset Block) ∧
      b ∉ OfCall σ.calls σ.num := by
    intro b hb
    rcases mem_scanned.mp hb with rfl | rfl | ⟨i, hi, rfl⟩
    · simp [OfCall]
    · simp [OfCall]
    · refine ⟨by simp, fun hmem => ?_⟩
      simp [OfCall] at hmem
      omega
  have hcall := (balances_checkIsPaired (mem.addr σ.calls) σ.calls σ.num props).besides _ hfresh
  rw [← Finset.insert_eq] at hcall
  refine hcall.bind fun addr _ => ?_
  rcases addr with _ | addr
  · refine Balances.pure ?_
    ext b
    simp
    grind
  · refine (Balances.attempt _).bind fun slots _ => (Balances.use ?_).bind fun _ _ =>
      Balances.pure ?_
    · simp [scanned]
    · rw [scanned, scanned, addrs_succ]
      ext b
      simp
      grind

lemma ofCall_subset (outer : Prop) (c slot : ℕ) : OfCall c slot ⊆ FromCall outer c := by
  rintro b (rfl | rfl | rfl | rfl | rfl)
  · exact le_refl c
  · exact le_refl c
  · exact le_refl c
  · exact le_refl c
  · trivial

lemma balances_scanIface (mem : Mem) (σ : Scan) (e : Str × Props) :
    Balances (FromCall False σ.calls) (insert .ifaces (scanned σ.num)) []
      (Heap.scanIface mem e σ) fun σ' => insert .ifaces (scanned σ'.num) ∪
        if namesDevice e.1 then leaked σ.calls e.2 else ∅ := by
  set kept : Finset Block := if namesDevice e.1 then leaked σ.calls e.2 else ∅ with hkept
  have hbody : Balances (FromCall False σ.calls)
      (insert .lower (insert .props (insert .ifaces (scanned σ.num)))) []
      (if namesDevice e.1 then scanDevice mem σ e.2 else pure σ) fun σ' =>
        insert .lower (insert .props (insert .ifaces (scanned σ'.num) ∪ kept)) := by
    rw [hkept]
    split_ifs
    · have hdevice := (balances_scanDevice mem σ e.2).besides {.ifaces, .lower} (by
        simp [mem_scanned, OfCall])
      refine hdevice.consequence (ofCall_subset _ _ _) ?_ fun σ' _ => ?_
      all_goals
        ext b
        simp
        grind
    · exact Balances.pure (by rw [Finset.union_empty])
  have hnew : ∀ num, Block.props ∉ insert .ifaces (scanned num) ∪ kept ∧
      Block.lower ∉ insert .ifaces (scanned num) ∪ kept := by
    intro num
    have hleft : ∀ b ∈ kept, b ≠ .props ∧ b ≠ .lower := by
      rw [hkept]
      intro b hb
      split_ifs at hb
      · rcases mem_leaked hb with rfl | rfl | rfl | rfl <;> simp
      · cases hb
    refine ⟨fun hmem => ?_, fun hmem => ?_⟩
    all_goals
      rcases Finset.mem_union.mp hmem with hmem | hmem
    · simp [mem_scanned] at hmem
    · exact (hleft _ hmem).1 rfl
    · simp [mem_scanned] at hmem
    · exact (hleft _ hmem).2 rfl
  refine (Balances.use (Finset.mem_insert_self _ _)).bind fun _ _ => ?_
  refine (Balances.acquire (by simp [mem_scanned]) (by trivial)).bind fun _ _ => ?_
  refine (Balances.use (by simp)).bind fun _ _ => ?_
  refine (Balances.acquire (by simp [mem_scanned]) (by trivial)).bind fun _ _ => ?_
  refine (Balances.use (Finset.mem_insert_self _ _)).bind fun _ _ => hbody.bind fun σ' _ => ?_
  refine (Balances.release (Finset.mem_insert_self _ _)).bind fun _ _ => ?_
  rw [Finset.erase_insert (by simpa using (hnew σ'.num).2)]
  refine (Balances.release (Finset.mem_insert_self _ _)).bind fun _ _ => Balances.pure ?_
  exact Finset.erase_insert (hnew σ'.num).1

/-- The number of interfaces that name a device. -/
def devices (es : List (Str × Props)) : ℕ := es.countP fun e => namesDevice e.1

lemma calls_scanIface {mem : Mem} {σ σ' : Scan} {e : Str × Props}
    (h : BtPair.scanIface mem σ e = .ok σ') :
    σ'.calls = σ.calls + if namesDevice e.1 then 1 else 0 := by
  unfold BtPair.scanIface at h
  split_ifs at h ⊢ with hd
  · split at h
    · obtain rfl := Except.ok.inj h
      rfl
    · obtain ⟨slots, -, h⟩ := bind_eq_ok.mp h
      obtain rfl := Except.ok.inj h
      rfl
  · obtain rfl := Except.ok.inj h
    rfl

lemma leakedBy_append (k : ℕ) (es es' : List (Str × Props)) :
    leakedBy k (es ++ es') = leakedBy k es ∪ leakedBy (k + devices es) es' := by
  induction es generalizing k with
  | nil => simp [leakedBy, devices]
  | cons e es ih =>
    rw [List.cons_append, leakedBy, leakedBy, devices, List.countP_cons, ← devices]
    split_ifs with hd
    · rw [ih, Finset.union_assoc, Nat.add_assoc, Nat.add_comm 1]
    · rw [ih, Nat.add_zero]

/-- What calls before the number `k` took is not named from then on. -/
def Before (k : ℕ) (F : Finset Block) : Prop :=
  ∀ b ∈ F, b ∉ FromCall True k ∧ ∀ num, b ∉ scanned num

lemma before_leaked {c k : ℕ} (hk : c < k) (props : Props) : Before k (leaked c props) := by
  intro b hb
  rcases mem_leaked hb with rfl | rfl | rfl | rfl
  all_goals
    refine ⟨not_le.mpr hk, fun num => ?_⟩
    simp [mem_scanned]

lemma before_leakedBy {c k : ℕ} {es : List (Str × Props)} (hk : c + devices es ≤ k) :
    Before k (leakedBy c es) := by
  induction es generalizing c with
  | nil => simp [leakedBy, Before]
  | cons e es ih =>
    rw [devices, List.countP_cons, ← devices] at hk
    rw [leakedBy]
    split_ifs with hd
    · rw [if_pos hd] at hk
      intro b hb
      rcases Finset.mem_union.mp hb with hb | hb
      · exact before_leaked (by omega) e.2 b hb
      · exact ih (by omega) b hb
    · rw [if_neg hd] at hk
      exact ih hk

lemma fromCall_antitone (outer : Prop) {k k' : ℕ} (h : k ≤ k') :
    FromCall outer k' ⊆ FromCall outer k := by
  intro b hb
  cases b <;> first | exact le_trans h hb | exact hb

lemma fromCall_true (outer : Prop) (k : ℕ) : FromCall outer k ⊆ FromCall True k := by
  intro b hb
  cases b <;> first | exact hb | exact trivial

/-- One more step of a scan, after which the rest of it runs. -/
lemma balances_next {f : Scan → Work Scan} {x : Work Scan} {σ : Scan} {L R : Finset Block} {k : ℕ}
    {outer : Prop} {held : ℕ → Finset Block}
    (hheld : ∀ num, held num ⊆ insert .ifaces (scanned num))
    (hx : Balances (FromCall outer σ.calls) (held σ.num) [] x fun σ' => held σ'.num ∪ L)
    (hcalls : ∀ σ', x.result = .ok σ' → σ'.calls = k) (hk : σ.calls ≤ k) (hL : Before k L)
    (hf : ∀ σ', σ'.calls = k → Balances (FromCall outer k) (held σ'.num) [] (f σ') fun σ'' =>
      held σ''.num ∪ R) :
    Balances (FromCall outer σ.calls) (held σ.num) [] (x >>= f) fun σ'' =>
      held σ''.num ∪ (L ∪ R) := by
  refine hx.bind fun σ' hσ' => ?_
  have hrest := (hf σ' (hcalls σ' hσ')).besides L fun b hb => by
    refine ⟨fun hmem => ?_, fun hmem => (hL b hb).1 (fromCall_true outer k hmem)⟩
    rcases Finset.mem_insert.mp (hheld _ hmem) with rfl | hmem
    · exact (hL _ hb).1 trivial
    · exact (hL b hb).2 _ hmem
  refine hrest.consequence (fromCall_antitone outer hk) rfl fun σ'' _ => ?_
  rw [Finset.union_assoc, Finset.union_comm L]

lemma balances_ifaces (mem : Mem) (es : List (Str × Props)) (σ : Scan) :
    Balances (FromCall False σ.calls) (insert .ifaces (scanned σ.num)) []
      (Act.loop (Heap.scanIface mem) es σ) fun σ' =>
        insert .ifaces (scanned σ'.num) ∪ leakedBy σ.calls es := by
  induction es generalizing σ with
  | nil => exact Balances.pure (Finset.union_empty _).symm
  | cons e es ih =>
    rw [Act.loop_cons, leakedBy]
    have hstep := balances_scanIface mem σ e
    have hcalls : ∀ σ', (Heap.scanIface mem e σ).result = .ok σ' →
        σ'.calls = σ.calls + if namesDevice e.1 then 1 else 0 := fun σ' hσ' =>
      calls_scanIface ((scanIface_result mem e σ).symm.trans hσ')
    have hheld : ∀ num, insert .ifaces (scanned num) ⊆ insert .ifaces (scanned num) :=
      fun num => le_rfl
    split_ifs at hstep hcalls ⊢ with hd
    · exact balances_next hheld hstep hcalls (Nat.le_succ _)
        (before_leaked (Nat.lt_succ_self _) e.2) fun σ' h => h ▸ ih σ'
    · have hrest := balances_next hheld hstep hcalls le_rfl (L := ∅) (by simp [Before])
        fun σ' h => h ▸ ih σ'
      simpa using hrest

lemma calls_ifaces {mem : Mem} {es : List (Str × Props)} {σ σ' : Scan}
    (h : es.foldlM (BtPair.scanIface mem) σ = .ok σ') : σ'.calls = σ.calls + devices es := by
  induction es generalizing σ with
  | nil =>
    obtain rfl := Except.ok.inj h
    rfl
  | cons e es ih =>
    obtain ⟨σ₁, h₁, hrest⟩ := bind_eq_ok.mp (List.foldlM_cons.symm.trans h)
    have hfirst := calls_scanIface h₁
    have hmore := ih hrest
    rw [devices, List.countP_cons, ← devices]
    omega

lemma balances_scanObject (mem : Mem) (o : Object) (σ : Scan) :
    Balances (FromCall True σ.calls) (scanned σ.num) [] (Heap.scanObject mem o σ) fun σ' =>
      scanned σ'.num ∪ leakedBy σ.calls o.ifaces := by
  have hloop : Balances (FromCall True σ.calls) (insert .ifaces (scanned σ.num)) []
      (Act.loop (Heap.scanIface mem) o.ifaces σ) fun σ' =>
        insert .ifaces (scanned σ'.num ∪ leakedBy σ.calls o.ifaces) := by
    refine (balances_ifaces mem o.ifaces σ).consequence (fromCall_true False σ.calls) rfl ?_
    intro σ' _
    rw [Finset.insert_union]
  have hnew : ∀ num, Block.ifaces ∉ scanned num ∪ leakedBy σ.calls o.ifaces := by
    intro num hmem
    rcases Finset.mem_union.mp hmem with hmem | hmem
    · simp [mem_scanned] at hmem
    · exact (before_leakedBy (k := σ.calls + devices o.ifaces) le_rfl _ hmem).1 trivial
  refine (Balances.use (by simp [scanned])).bind fun _ _ => ?_
  refine (Balances.acquire (by simp [mem_scanned]) (by trivial)).bind fun _ _ => ?_
  refine (Balances.use (Finset.mem_insert_self _ _)).bind fun _ _ => hloop.bind fun σ' _ => ?_
  refine (Balances.use (Finset.mem_insert_self _ _)).bind fun _ _ => ?_
  refine (Balances.release (Finset.mem_insert_self _ _)).bind fun _ _ => Balances.pure ?_
  exact Finset.erase_insert (hnew σ'.num)

lemma balances_objects (mem : Mem) (os : List Object) (σ : Scan) :
    Balances (FromCall True σ.calls) (scanned σ.num) [] (Act.loop (Heap.scanObject mem) os σ)
      fun σ' => scanned σ'.num ∪ leakedBy σ.calls (entries os) := by
  induction os generalizing σ with
  | nil => exact Balances.pure (Finset.union_empty _).symm
  | cons o os ih =>
    rw [Act.loop_cons, entries, List.flatMap_cons, ← entries, leakedBy_append]
    have hcalls : ∀ σ', (Heap.scanObject mem o σ).result = .ok σ' →
        σ'.calls = σ.calls + devices o.ifaces := fun σ' hσ' =>
      calls_ifaces ((scanObject_result mem o σ).symm.trans hσ')
    exact balances_next (fun num => Finset.subset_insert _ _) (balances_scanObject mem o σ) hcalls
      (Nat.le_add_right _ _) (before_leakedBy le_rfl) fun σ' h => h ▸ ih σ'

/-- What a query does not give back. -/
def leakedByQuery (mem : Mem) : Bus → Finset Block
  | .noBus | .callFailed => ∅
  | .reply objects => if mem.array then insert .child (leakedBy 0 (entries objects)) else ∅

lemma mem_leakedByQuery {mem : Mem} {bus : Bus} (h : b ∈ leakedByQuery mem bus) :
    b = .child ∨ ∃ c, b = .dict c ∨ b = .connected c ∨ b = .trusted c ∨ b = .address c := by
  rcases bus with _ | _ | objects
  · cases h
  · cases h
  · rw [leakedByQuery] at h
    split_ifs at h
    · exact (Finset.mem_insert.mp h).imp_right mem_leakedBy
    · cases h

lemma compact_of_prefilled {cap : ℕ} {ss : List Str} (h : Prefilled cap l ss) :
    Compact l ss.length := by
  intro i
  rw [h.eq, List.getElem?_append, List.length_map]
  split_ifs with hi
  · rw [List.getElem?_map, List.getElem?_eq_getElem hi]
    exact iff_of_true ⟨ss[i], rfl⟩ hi
  · refine iff_of_false ?_ hi
    rintro ⟨s, hs⟩
    rw [List.getElem?_replicate] at hs
    split_ifs at hs
    cases Option.some.inj hs

/-- The strings that the scan stored are those it counted. -/
lemma compact_scan {mem : Mem} {os : List Object} {σ : Scan}
    (h : os.foldlM (BtPair.scanObject mem) scanInit = .ok σ) : Compact σ.slots σ.num := by
  rw [scan_flatten] at h
  have hrun := scan_run mem (entries os) scanned_init
  split_ifs at hrun
  · obtain ⟨σ', hσ', hscanned⟩ := hrun
    obtain rfl := Except.ok.inj (h.symm.trans hσ')
    rw [hscanned.num]
    exact compact_of_prefilled hscanned.slots
  · rw [h] at hrun
    cases hrun

/-- What a query names. -/
def OfQuery : Set Block
  | .conn | .reply | .child | .ifaces | .props | .lower | .pairedArray | .pairedAddr _ => True
  | .dict _ | .connected _ | .trusted _ | .address _ => True
  | _ => False

lemma fromCall_subset_ofQuery : FromCall True 0 ⊆ OfQuery := by
  intro b hb
  cases b <;> trivial

lemma balances_processDbusBtList (mem : Mem) (objects : List Object) (num : ℤ) :
    Balances (FromCall True 0 ∪ {.pairedArray, .child}) {.reply} []
      (Heap.processDbusBtList mem (some objects) num) fun p => insert .reply
        (ofList .pairedArray .pairedAddr p.1 p.2 ∪ leakedByQuery mem (.reply objects)) := by
  unfold Heap.processDbusBtList leakedByQuery
  by_cases harray : mem.array = true
  · simp only [if_pos harray]
    refine (Balances.acquire (by simp) (by simp)).bind fun _ _ => ?_
    refine (Balances.use (by simp)).bind fun _ _ => ?_
    refine (Balances.acquire (by simp) (by simp)).bind fun _ _ => ?_
    refine (Balances.use (by simp)).bind fun _ _ => ?_
    have hscan := (balances_objects mem objects scanInit).besides {.reply} (by
      intro b hb
      rw [Finset.mem_singleton.mp hb]
      exact ⟨by simp [mem_scanned], by exact id⟩)
    have hheld : scanned scanInit.num ∪ {.reply} =
        insert .child (insert .pairedArray {.reply}) := by
      ext b
      simp [scanned, addrs, scanInit]
      grind
    refine (hscan.consequence Set.subset_union_left hheld fun _ _ => rfl).bind fun σ hσ => ?_
    refine (Balances.use (by simp [scanned])).bind fun _ _ => Balances.pure ?_
    rw [Act.loop_result (scanObject_result mem)] at hσ
    have hstrings : strings .pairedAddr 0 (σ.slots.take σ.num) = addrs .pairedAddr σ.num :=
      (compact_scan hσ).strings_take le_rfl
    simp only [ofList, Int.toNat_natCast, hstrings]
    ext b
    simp [scanned, scanInit]
    grind
  · simp only [if_neg harray]
    exact Balances.pure rfl

/-- Without a reply, the null pointer is given back in its place. -/
def lostReply : Bus → List (Op Block)
  | .callFailed => [.release .reply]
  | .noBus | .reply _ => []

lemma balances_getPairedDevices (mem : Mem) (bus : Bus) (num : ℤ) :
    Balances OfQuery ∅ (lostReply bus) (Heap.getPairedDevices mem bus num) fun p =>
      ofList .pairedArray .pairedAddr p.1 p.2 ∪ leakedByQuery mem bus := by
  cases bus with
  | noBus => exact Balances.pure rfl
  | callFailed =>
    refine Balances.andThen (Balances.acquire (by simp) (by trivial)) rfl ?_
    refine Balances.andThen (Balances.use (by simp)) rfl ?_
    refine Balances.andThen (Balances.pure (Q := fun _ => insert .conn ∅) rfl) rfl ?_
    refine (Balances.missing (by simp)).bind fun _ _ => ?_
    exact (Balances.release (by simp)).bind fun _ _ => Balances.pure rfl
  | reply objects =>
    have hsub : FromCall True 0 ∪ {.pairedArray, .child} ⊆ OfQuery := by
      rintro b (hb | rfl | rfl)
      · exact fromCall_subset_ofQuery hb
      · trivial
      · trivial
    have hprocess := (balances_processDbusBtList mem objects num).besides {.conn} (by
      intro b hb
      rw [Finset.mem_singleton.mp hb]
      refine ⟨by simp, ?_⟩
      rintro (h | h | h) <;> cases h)
    refine (Balances.acquire (by simp) (by trivial)).bind fun _ _ => ?_
    refine (Balances.use (by simp)).bind fun _ _ => ?_
    refine (Balances.acquire (by simp) (by trivial)).bind fun _ _ => ?_
    refine (hprocess.consequence hsub rfl fun _ _ => rfl).bind fun p _ => ?_
    refine (Balances.release (by simp)).bind fun _ _ => ?_
    refine (Balances.release (by simp)).bind fun _ _ => Balances.pure ?_
    have hleft : ∀ b ∈ ofList .pairedArray .pairedAddr p.1 p.2 ∪ leakedByQuery mem (.reply objects),
        b ≠ .conn ∧ b ≠ .reply := by
      intro b hb
      rcases Finset.mem_union.mp hb with hb | hb
      · rcases mem_ofList hb with rfl | ⟨i, rfl⟩ <;> simp
      · rcases mem_leakedByQuery hb with rfl | ⟨c, rfl | rfl | rfl | rfl⟩ <;> simp
    ext b
    simp only [Finset.mem_erase, Finset.mem_union, Finset.mem_insert, Finset.mem_singleton]
    have hb := hleft b
    rw [Finset.mem_union] at hb
    grind

end ProxyAuth.Leaks
