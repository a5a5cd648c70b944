import ProxyAuth.Counted
import ProxyAuth.Deauth

/-!
The check of a client when the connected devices cannot be listed.

`get_paired_devices` then gives the null pointer and stores no count, so that the caller goes
by whatever `num_of_paired` held before. `bluetooth_login` looks at the pointer;
`is_trusted_client` does not.
-/

namespace ProxyAuth.FailClosed

open ProxyAuth.Control ProxyAuth.CString ProxyAuth.BtMisc ProxyAuth.BtPair ProxyAuth.BtTrust
open ProxyAuth.Login ProxyAuth.Deauth ProxyAuth.Counted

/-- There is no bus, no answer, or no memory for the array. -/
def NoPairedList (w : World) : Prop :=
  match w.bus with
  | .noBus => True
  | .callFailed => True
  | .reply _ => w.pairMem.array = false

/-- A list of trusted devices is only there when nothing is counted in the list that is not,
and then the filling pass comes to all of its slots. -/
def Harmless (v : View) (dir : Option Str) : Prop :=
  ∀ f, findTrustedFile v.world.limits v.world.stack v.world.files dir v.login = .ok (some f) →
    v.world.arrayMem = true → 0 < wrap32 (nonblank f.counted).length →
      v.stale ≤ 0 ∧ wrap32 (nonblank f.counted).length ≤
        reached v.world.entryMem 0 (nonblank f.filled).length

variable {v : View} {dir : Option Str}

lemma getPairedDevices_none {w : World} (h : NoPairedList w) (num : ℤ) :
    getPairedDevices w.pairMem w.bus num = .ok (none, num) := by
  unfold NoPairedList at h
  rcases hb : w.bus with _ | _ | objects
  · rfl
  · rfl
  · rw [hb] at h
    simp only [getPairedDevices, processDbusBtList, h, Bool.false_eq_true, if_false]

/-- Without a list of trusted devices, the check says no. -/
lemma isTrustedClient_untrusted (hmissing : NoPairedList v.world) {num : ℤ}
    (h : findTrustedDevices v.world dir v.login = .ok (none, num)) (a : Option Str) :
    isTrustedClient v a dir = .ok false := by
  simp [isTrustedClient, getPairedDevices_none hmissing, h, freeDeviceList]

/-- With one, it asks for the count of the list that is missing, and gives the other back. -/
lemma isTrustedClient_listed (hmissing : NoPairedList v.world) {slots : List Slot} {num : ℕ}
    (h : findTrustedDevices v.world dir v.login = .ok (some slots, (num : ℤ))) (a : Option Str) :
    isTrustedClient v a dir = .ok false ↔ v.stale ≤ 0 ∧ freeLoop slots num = .ok () := by
  simp only [isTrustedClient, getPairedDevices_none hmissing, h, ok_bind, isDevTrusted]
  by_cases hstale : v.stale ≤ 0
  · rcases hfree : freeLoop slots num with e | u
    · simp [hstale, freeDeviceList, hfree]
    · simp [hstale, freeDeviceList, hfree]
  · simp [hstale]

/-- **Failing closed.** Without the list of connected devices, the check says no exactly when
the count that nobody stored is not positive and the trusted list can be given back, or there
is no trusted list. -/
theorem isTrustedClient_false_iff (v : View) (dir a : Option Str)
    (hmissing : NoPairedList v.world) :
    isTrustedClient v a dir = .ok false ↔ Harmless v dir := by
  obtain ⟨r, hr⟩ := findTrustedFile_ok v.world.limits v.world.stack v.world.files dir v.login
  rcases r with _ | f
  · have hclosed := isTrustedClient_untrusted hmissing (findTrustedDevices_unopened hr) a
    apply iff_of_true hclosed
    intro f hf
    rw [hr] at hf
    cases hf
  have hharmless : Harmless v dir ↔ (v.world.arrayMem = true →
      0 < wrap32 (nonblank f.counted).length → v.stale ≤ 0 ∧
        wrap32 (nonblank f.counted).length ≤
          reached v.world.entryMem 0 (nonblank f.filled).length) := by
    refine ⟨fun h => h f hr, fun h f' hf' => ?_⟩
    obtain rfl : f = f' := Option.some.inj (Except.ok.inj (hr.symm.trans hf'))
    exact h
  rw [hharmless]
  by_cases hlist : v.world.arrayMem = true ∧ 0 < wrap32 (nonblank f.counted).length
  · obtain ⟨num, slots, ws, hnum, hdev, hpart, -⟩ := findTrustedDevices_partly hr hlist.1 hlist.2
    rw [isTrustedClient_listed hmissing hdev, hpart.freeLoop_iff]
    constructor
    · rintro ⟨hstale, hreached⟩ - -
      exact ⟨hstale, by omega⟩
    · intro h
      obtain ⟨hstale, hreached⟩ := h hlist.1 hlist.2
      exact ⟨hstale, by omega⟩
  · obtain ⟨num, hnone⟩ := findTrustedDevices_unlisted hr hlist
    exact iff_of_true (isTrustedClient_untrusted hmissing hnone a)
      fun harray hpos => absurd ⟨harray, hpos⟩ hlist

/-- The phone's world without a system bus. -/
def deafWorld : World := { phoneWorld with bus := .noBus }

/-- A count is left on the stack. -/
def deafView (stale : ℤ) : View := ⟨deafWorld, some (lit "zaku"), stale⟩

lemma noPairedList_deaf : NoPairedList deafWorld := trivial

lemma findTrustedFile_deaf :
    findTrustedFile deafWorld.limits deafWorld.stack deafWorld.files (some trustedDirPath)
      (some (lit "zaku")) = .ok (some ⟨phoneFile, phoneFile⟩) := by
  rw [findTrustedFile_eq]
  rfl

lemma count_phoneFile : wrap32 (nonblank phoneFile).length = 1 :=
  wrap32_of_lt (by decide) (by decide)

theorem isTrustedClient_false_deaf :
    isTrustedClient (deafView 0) (some phone) (some trustedDirPath) = .ok false := by
  have hharmless : Harmless (deafView 0) (some trustedDirPath) := by
    intro f hf _ _
    obtain rfl := Option.some.inj (Except.ok.inj (findTrustedFile_deaf.symm.trans hf))
    refine ⟨le_rfl, ?_⟩
    rw [count_phoneFile]
    decide
  exact (isTrustedClient_false_iff _ _ (some phone) noPairedList_deaf).mpr hharmless

/-- One device is still counted on the stack, and the search reads a list that is not there. -/
theorem not_isTrustedClient_false_stale :
    NoPairedList (deafView 1).world ∧
      ¬ isTrustedClient (deafView 1) (some phone) (some trustedDirPath) = .ok false := by
  refine ⟨noPairedList_deaf, fun hfalse => ?_⟩
  obtain ⟨num, slots, ws, -, hdev, -⟩ := findTrustedDevices_partly findTrustedFile_deaf rfl
    (by rw [count_phoneFile]; decide)
  have hlisted := isTrustedClient_listed (v := deafView 1) noPairedList_deaf hdev (some phone)
  exact absurd (hlisted.mp hfalse).1 (by decide)

end ProxyAuth.FailClosed
