import ProxyAuth.PeerSafety

/-!
What stands before the server socket.

`main` calls `lock` with a null pointer when one of its two checks fails, and `lock` comes
back from that: the screen is locked, but the program goes on.
-/

namespace ProxyAuth.Gate

open ProxyAuth.Control ProxyAuth.CString ProxyAuth.BtMisc ProxyAuth.Login ProxyAuth.Deauth
open ProxyAuth.PeerSafety

/-- What `is_trusted_client` makes of `argv[1]`. -/
def trustCheck (b : Boot) : Except Fault Bool :=
  isTrustedClient b.view b.cmd.btAddr (some trustedDirPath)

/-- The socket is opened, and somebody accepted, only after both checks said yes; after one
said no the screen is locked and the process ends without either. And `is_trusted_client` is
not asked about an argument that is not there: what it would meet makes no difference. -/
structure Gated (b : Boot) (clock : ℕ → ℤ) (rounds : List Round) : Prop where
  served : ∀ e ∈ (main b clock rounds).events, e = .listening ∨ isAccepted e = true →
    checkArg b.cmd = true ∧ trustCheck b = .ok true
  refused : checkArg b.cmd = false ∨ trustCheck b = .ok false →
    .locked ∈ (main b clock rounds).events ∧ (∃ k, (main b clock rounds).result = .error k) ∧
      ∀ e ∈ (main b clock rounds).events, e ≠ .listening ∧ isAccepted e = false
  unasked : b.cmd.args = [] →
    ∀ view, main { b with view := view } clock rounds = main b clock rounds

variable {b : Boot} {clock : ℕ → ℤ} {rounds : List Round}

/-- With the null pointer, `lock` locks and comes back. -/
lemma lockUnless_null (ok : Bool) :
    lockUnless ok false = ⟨if ok then [] else [.locked], .ok ⟨⟩⟩ := by
  cases ok
  · rfl
  · rfl

/-- A crash in the second check is the end, with the socket still closed. -/
lemma main_of_crash (clock : ℕ → ℤ) (rounds : List Round) {e : Fault}
    (h : trustCheck b = .error e) :
    main b clock rounds =
      ⟨if checkArg b.cmd then [] else [.locked], .error (.crashed e)⟩ := by
  unfold trustCheck at h
  rw [main, boot, lockUnless_null, h, Act.call_error]
  cases checkArg b.cmd
  · rfl
  · rfl

/-- Otherwise the socket is opened, whatever the two checks said. -/
lemma listening_of_answer (clock : ℕ → ℤ) (rounds : List Round) {t : Bool}
    (h : trustCheck b = .ok t) :
    .listening ∈ (main b clock rounds).events := by
  unfold trustCheck at h
  rw [main, boot, lockUnless_null, h, Act.call_ok, Act.pure_bind, lockUnless_null]
  refine Act.mem_bind_events.mpr (.inl ?_)
  refine Act.mem_bind_events.mpr (.inr ⟨⟨⟩, rfl, ?_⟩)
  refine Act.mem_bind_events.mpr (.inr ⟨⟨⟩, rfl, ?_⟩)
  exact Act.mem_bind_events.mpr (.inl List.mem_cons_self)

lemma args_ne_nil_of_checkArg (h : checkArg b.cmd = true) : b.cmd.args ≠ [] := by
  intro hnil
  rw [checkArg, hnil] at h
  cases h

/-- In a world without the directory the second check says no to a null pointer. -/
def bareView : View := ⟨bareWorld, some (lit "zaku"), 0⟩

lemma trustCheck_bare (hnil : b.cmd.args = []) :
    trustCheck { b with view := bareView } = .ok false := by
  have hnull : b.cmd.btAddr = none := by rw [CmdLine.btAddr, hnil]; rfl
  unfold trustCheck
  rw [hnull]
  exact isTrustedClient_of_no_file (v := bareView) bareWorld_steady rfl none

/-- **The gate.** Nothing gets past it exactly when both checks say yes, or there is an
argument and the second check crashes on it. -/
theorem gated_iff (b : Boot) (clock : ℕ → ℤ) (rounds : List Round) :
    Gated b clock rounds ↔ (checkArg b.cmd = true ∧ trustCheck b = .ok true) ∨
      (b.cmd.args ≠ [] ∧ ∃ e, trustCheck b = .error e) := by
  constructor
  · intro h
    rcases ht : trustCheck b with e | t
    · refine .inr ⟨fun hnil => ?_, e, rfl⟩
      have hopen := listening_of_answer clock rounds (trustCheck_bare hnil)
      rw [h.unasked hnil, main_of_crash clock rounds ht] at hopen
      simp at hopen
    · refine .inl ?_
      rw [← ht]
      exact h.served .listening (listening_of_answer clock rounds ht) (.inl rfl)
  · rintro (⟨harg, htrust⟩ | ⟨hargs, e, hcrash⟩)
    · refine ⟨fun _ _ _ => ⟨harg, htrust⟩, ?_, fun hnil => ?_⟩
      · rw [harg, htrust]
        rintro (h | h)
        · cases h
        · cases h
      · exact absurd hnil (args_ne_nil_of_checkArg harg)
    · have hmain := main_of_crash clock rounds hcrash
      have hcalm : ∀ e ∈ (main b clock rounds).events, e = .locked := by
        rw [hmain]
        split_ifs <;> simp
      refine ⟨fun e he hopen => ?_, ?_, fun hnil => absurd hnil hargs⟩
      · obtain rfl := hcalm e he
        rcases hopen with h | h
        · cases h
        · cases h
      · rintro (harg | htrust)
        · refine ⟨by rw [hmain, harg]; simp, ⟨_, by rw [hmain]⟩, fun e he => ?_⟩
          obtain rfl := hcalm e he
          exact ⟨(fun h => nomatch h), rfl⟩
        · rw [hcrash] at htrust
          cases htrust

/-- Started without an argument, the program locks the screen and opens its socket. -/
theorem not_gated_stray : ¬ Gated strayBoot (fun _ => 0) [] := by
  intro h
  have hmain : main strayBoot (fun _ => 0) [] =
      ⟨[.locked, .locked, .listening], .ok Vars.init⟩ := by
    rw [main, boot_stray, Act.bind_of_ok rfl]
    rfl
  have hserved := (h.served .listening (by rw [hmain]; simp) (.inl rfl)).1
  cases hserved

end ProxyAuth.Gate
