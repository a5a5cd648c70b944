import ProxyAuth.Deauth

/-!
A client that falls silent.

`stop` is read at the end of a pass and used by the check of the next one; `start` is read
again in the middle of a pass. From the first silent pass on, the bytes of one window may
still count, so one check may pass; the window after it is empty.
-/

namespace ProxyAuth.Silence

open ProxyAuth.Control ProxyAuth.Deauth

/-! ### The checks of a run -/

/-- The window length and the byte count of a check. -/
def check : Event → Option (ℤ × ℤ)
  | .checked seconds bytes => some (seconds, bytes)
  | _ => none

def checks (es : List Event) : List (ℤ × ℤ) := es.filterMap check

def Passes (c : ℤ × ℤ) : Prop := minThroughput ≤ throughput c.1 c.2

/-- At most `n` checks pass; the next one, if there is one, locks and ends the run. -/
def LocksAfter (n : ℕ) (x : Proc Vars) : Prop :=
  ∃ passed, passed.length ≤ n ∧ (∀ c ∈ passed, Passes c) ∧
    (checks x.events = passed ∨ ∃ c, ¬ Passes c ∧ checks x.events = passed ++ [c] ∧
      (∃ pre, x.events = pre ++ [.checked c.1 c.2, .locked]) ∧ ∃ k, x.result = .error k)

variable {S : Setup} {clock : ℕ → ℤ} {r : Round} {v : Vars} {n : ℕ}

lemma checks_append (es es' : List Event) : checks (es ++ es') = checks es ++ checks es' :=
  List.filterMap_append

lemma LocksAfter.of_no_checks {x : Proc Vars} (h : checks x.events = []) : LocksAfter n x :=
  ⟨[], by simp, by simp, .inl h⟩

/-- A piece whose checks pass, before a run that locks in time. -/
lemma LocksAfter.bind {x : Proc Vars} {f : Vars → Proc Vars} {k : ℕ}
    (hlen : (checks x.events).length ≤ k) (hpass : ∀ c ∈ checks x.events, Passes c)
    (hf : ∀ v', x.result = .ok v' → LocksAfter n (f v')) : LocksAfter (k + n) (x >>= f) := by
  rcases hx : x.result with e | v'
  · rw [Act.bind_of_error hx]
    exact ⟨_, by omega, hpass, .inl rfl⟩
  · obtain ⟨passed, hn, hp, hends⟩ := hf v' hx
    rw [Act.bind_of_ok hx]
    refine ⟨checks x.events ++ passed, ?_, ?_, ?_⟩
    · rw [List.length_append]; omega
    · intro c hc
      rcases List.mem_append.mp hc with hc | hc
      · exact hpass c hc
      · exact hp c hc
    · rw [checks_append]
      rcases hends with heq | ⟨c, hfail, heq, ⟨pre, hpre⟩, herr⟩
      · exact .inl (by rw [heq])
      · refine .inr ⟨c, hfail, ?_, ⟨x.events ++ pre, ?_⟩, herr⟩
        · rw [heq, List.append_assoc]
        · rw [hpre, List.append_assoc]

/-- The same with what the whole leaves behind. -/
lemma locksAfter_bind_and {x : Proc Vars} {f : Vars → Proc Vars} {k : ℕ} {P : Vars → Prop}
    (hlen : (checks x.events).length ≤ k) (hpass : ∀ c ∈ checks x.events, Passes c)
    (hf : ∀ v', x.result = .ok v' →
      LocksAfter n (f v') ∧ ∀ v'', (f v').result = .ok v'' → P v'') :
    LocksAfter (k + n) (x >>= f) ∧ ∀ v', (x >>= f).result = .ok v' → P v' := by
  constructor
  · exact .bind hlen hpass fun v' hok => (hf v' hok).1
  · intro v' hok
    obtain ⟨v₁, h₁, hok⟩ := Act.bind_result_ok.mp hok
    exact (hf v₁ h₁).2 v' hok

/-! ### One silent pass -/

lemma receive_silent (hr : r.read = none) : receive r v = pure v :=
  receive_of_none (by simp [incoming, hr])

lemma checks_finish : checks (finish S clock r v).events = [] := by
  apply List.filterMap_eq_nil_iff.mpr
  intro e he
  rcases finish_events e he with rfl | ⟨p, -, rfl | ⟨bytes, rfl⟩⟩
  · rfl
  · rfl
  · rfl

lemma pass_silent (hv : v.client.isSome = true) (hr : r.read = none) :
    onePass S clock r v = measure S clock v >>= finish S clock r := by
  unfold onePass
  rw [connect_of_isSome hv, Act.pure_bind, receive_silent hr, Act.pure_bind]

/-- The variables after a check that passed. -/
def reopened (clock : ℕ → ℤ) (v : Vars) : Vars :=
  { v with numBytesRead := 0, start := clock v.tick, tick := v.tick + 1 }

/-- A silent pass makes no check, or one that passes, or one that locks. -/
lemma pass_silent_cases (S : Setup) (clock : ℕ → ℤ) (hv : v.client.isSome = true)
    (hr : r.read = none) :
    (¬ 5 < v.stop - v.start ∧ checks (onePass S clock r v).events = [] ∧
        ∀ v', (onePass S clock r v).result = .ok v' → v' = stamped clock v) ∨
      (5 < v.stop - v.start ∧ Passes (v.stop - v.start, v.numBytesRead) ∧
        checks (onePass S clock r v).events = [(v.stop - v.start, v.numBytesRead)] ∧
        ∀ v', (onePass S clock r v).result = .ok v' → v' = stamped clock (reopened clock v)) ∨
      LocksAfter 0 (onePass S clock r v) ∧ ∃ k, (onePass S clock r v).result = .error k := by
  rw [pass_silent hv hr]
  rcases measure_cases S clock v with ⟨hdue, hm⟩ | ⟨hdue, hpass, hm⟩ | ⟨-, hlow, k, hm⟩
  · rw [hm, Act.pure_bind]
    exact .inl ⟨hdue, checks_finish, fun v' => finish_result⟩
  · have hok : (measure S clock v).result = .ok (reopened clock v) := by rw [hm]; rfl
    rw [Act.bind_of_ok hok, hm]
    refine .inr (.inl ⟨hdue, hpass, ?_, fun v' => finish_result⟩)
    rw [checks_append, checks_finish]
    rfl
  · have herr : (measure S clock v).result = .error k := by rw [hm]
    rw [Act.bind_of_error herr, hm]
    refine .inr (.inr ⟨⟨[], le_rfl, by simp, .inr ⟨_, ?_, rfl, ⟨[], rfl⟩, k, rfl⟩⟩, k, rfl⟩)
    exact not_le.mpr hlow

/-! ### The two windows -/

/-- Consecutive readings never go back, and differ by at most `g`. -/
def Gaps (clock : ℕ → ℤ) (g : ℤ) : Prop :=
  ∀ n, clock n ≤ clock (n + 1) ∧ clock (n + 1) ≤ clock n + g

/-- A client is there, the latest reading is in `stop`, and the window began before it. -/
structure Serving (clock : ℕ → ℤ) (v : Vars) : Prop where
  client : v.client.isSome = true
  start_le : v.start ≤ v.stop
  latest : ∃ n, v.tick = n + 1 ∧ clock n = v.stop

/-- No check since the time `C`. -/
structure Fresh (clock : ℕ → ℤ) (C g : ℤ) (v : Vars) : Prop extends Serving clock v where
  started : v.start ≤ C
  stop_le : v.stop ≤ C + 5 + g

/-- One check since the time `C`, and nothing received after it. -/
structure Drained (clock : ℕ → ℤ) (C g : ℤ) (v : Vars) : Prop extends Serving clock v where
  empty : v.numBytesRead = 0
  started : v.start ≤ C + 5 + 2 * g
  stop_le : v.stop ≤ v.start + 5 + g

variable {C g : ℤ}

lemma Serving.next (h : Serving clock v) (hg : Gaps clock g) :
    v.stop ≤ clock v.tick ∧ clock v.tick ≤ v.stop + g := by
  obtain ⟨n, htick, hstop⟩ := h.latest
  rw [htick, ← hstop]
  exact hg n

lemma Serving.stamped (h : Serving clock v) (hg : Gaps clock g) :
    Serving clock (stamped clock v) where
  client := h.client
  start_le := le_trans h.start_le (h.next hg).1
  latest := ⟨v.tick, rfl, rfl⟩

/-- A check re-reads `start` in the middle of the pass, and `stop` at its end. -/
lemma Serving.reopened (h : Serving clock v) (hg : Gaps clock g) :
    Serving clock (Deauth.stamped clock (reopened clock v)) where
  client := h.client
  start_le := (hg v.tick).1
  latest := ⟨v.tick + 1, rfl, rfl⟩

lemma serving_counted (h : Serving clock v) : Serving clock (counted r v) := ⟨h.1, h.2, h.3⟩

/-- Every pass keeps the clock in step. -/
lemma serving_pass (hg : Gaps clock g) (h : Serving clock v) {v' : Vars}
    (hok : (onePass S clock r v).result = .ok v') : Serving clock v' := by
  unfold onePass at hok
  rw [connect_of_isSome h.client, Act.pure_bind] at hok
  obtain ⟨v₁, h₁, hrest⟩ := Act.bind_result_ok.mp hok
  obtain rfl : counted r v = v₁ := Except.ok.inj (receive_result.symm.trans h₁)
  obtain ⟨v₂, h₂, hlast⟩ := Act.bind_result_ok.mp hrest
  have hc : Serving clock (counted r v) := serving_counted h
  rw [finish_result hlast]
  rcases measure_cases S clock (counted r v) with ⟨-, hm⟩ | ⟨-, -, hm⟩ | ⟨-, -, k, hm⟩
  · rw [hm] at h₂
    obtain rfl : counted r v = v₂ := Except.ok.inj h₂
    exact hc.stamped hg
  · rw [hm] at h₂
    obtain rfl : reopened clock (counted r v) = v₂ := Except.ok.inj h₂
    exact hc.reopened hg
  · rw [hm] at h₂
    cases h₂

lemma Fresh.stamped (h : Fresh clock C g v) (hg : Gaps clock g) (hdue : ¬ 5 < v.stop - v.start) :
    Fresh clock C g (stamped clock v) where
  toServing := h.toServing.stamped hg
  started := h.started
  stop_le :=
    calc clock v.tick ≤ v.stop + g := (h.next hg).2
      _ ≤ v.start + 5 + g := by omega
      _ ≤ C + 5 + g := by have := h.started; omega

lemma Fresh.reopened (h : Fresh clock C g v) (hg : Gaps clock g) :
    Drained clock C g (Deauth.stamped clock (reopened clock v)) where
  toServing := h.toServing.reopened hg
  empty := rfl
  started :=
    calc clock v.tick ≤ v.stop + g := (h.next hg).2
      _ ≤ C + 5 + 2 * g := by have := h.stop_le; omega
  stop_le :=
    calc clock (v.tick + 1) ≤ clock v.tick + g := (hg v.tick).2
      _ ≤ clock v.tick + 5 + g := by omega

lemma Drained.stamped (h : Drained clock C g v) (hg : Gaps clock g)
    (hdue : ¬ 5 < v.stop - v.start) : Drained clock C g (stamped clock v) where
  toServing := h.toServing.stamped hg
  empty := h.empty
  started := h.started
  stop_le :=
    calc clock v.tick ≤ v.stop + g := (h.next hg).2
      _ ≤ v.start + 5 + g := by omega

/-- An empty window does not pass. -/
lemma Drained.not_passes (h : Drained clock C g v) :
    ¬ Passes (v.stop - v.start, v.numBytesRead) := by
  rw [Passes, h.empty, throughput, Int.zero_tdiv]
  decide

/-! ### A silent run -/

lemma drained_run (hg : Gaps clock g) (silent : List Round) (hs : ∀ r ∈ silent, r.read = none)
    (h : Drained clock C g v) :
    LocksAfter 0 (Act.loop (onePass S clock) silent v) ∧
      ∀ v', (Act.loop (onePass S clock) silent v).result = .ok v' → Drained clock C g v' := by
  induction silent generalizing v with
  | nil => exact ⟨.of_no_checks rfl, fun v' hok => Except.ok.inj hok ▸ h⟩
  | cons r silent ih =>
    have hr := hs r List.mem_cons_self
    have hs := fun r hr => hs r (List.mem_cons_of_mem _ hr)
    rw [Act.loop_cons]
    rcases pass_silent_cases S clock h.client hr with
      ⟨hdue, hnone, hres⟩ | ⟨-, hpass, -, -⟩ | ⟨hlock, k, hk⟩
    · have hnext : ∀ v', (onePass S clock r v).result = .ok v' → Drained clock C g v' :=
        fun v' hok => hres v' hok ▸ h.stamped hg hdue
      exact locksAfter_bind_and (k := 0) (by simp [hnone]) (by simp [hnone])
        fun v' hok => ih hs (hnext v' hok)
    · exact absurd hpass h.not_passes
    · have hstop : onePass S clock r v >>= Act.loop (onePass S clock) silent = ⟨_, .error k⟩ :=
        Act.bind_of_error hk _
      rw [hstop, ← hk]
      exact ⟨hlock, fun v' hok => by simp [hk] at hok⟩

lemma fresh_run (hg : Gaps clock g) (silent : List Round) (hs : ∀ r ∈ silent, r.read = none)
    (h : Fresh clock C g v) :
    LocksAfter 1 (Act.loop (onePass S clock) silent v) ∧
      ∀ v', (Act.loop (onePass S clock) silent v).result = .ok v' →
        Fresh clock C g v' ∨ Drained clock C g v' := by
  induction silent generalizing v with
  | nil => exact ⟨.of_no_checks rfl, fun v' hok => .inl (Except.ok.inj hok ▸ h)⟩
  | cons r silent ih =>
    have hr := hs r List.mem_cons_self
    have hs := fun r hr => hs r (List.mem_cons_of_mem _ hr)
    rw [Act.loop_cons]
    rcases pass_silent_cases S clock h.client hr with
      ⟨hdue, hnone, hres⟩ | ⟨-, hpass, hone, hres⟩ | ⟨hlock, k, hk⟩
    · have hnext : ∀ v', (onePass S clock r v).result = .ok v' → Fresh clock C g v' :=
        fun v' hok => hres v' hok ▸ h.stamped hg hdue
      exact locksAfter_bind_and (k := 0) (by simp [hnone]) (by simp [hnone])
        fun v' hok => ih hs (hnext v' hok)
    · have hnext : ∀ v', (onePass S clock r v).result = .ok v' → Drained clock C g v' :=
        fun v' hok => hres v' hok ▸ h.reopened hg
      refine locksAfter_bind_and (k := 1) (n := 0) (by simp [hone]) (by simpa [hone] using hpass)
        fun v' hok => ?_
      obtain ⟨hlocks, hdrained⟩ := drained_run hg silent hs (hnext v' hok)
      exact ⟨hlocks, fun v'' hok => .inr (hdrained v'' hok)⟩
    · have hstop : onePass S clock r v >>= Act.loop (onePass S clock) silent = ⟨_, .error k⟩ :=
        Act.bind_of_error hk _
      obtain ⟨passed, hlen, hp, hends⟩ := hlock
      rw [hstop, ← hk]
      exact ⟨⟨passed, by omega, hp, hends⟩, fun v' hok => by simp [hk] at hok⟩

/-- **Lockout after silence.** Whatever was received before, once every read comes back
empty at most one check passes and the next one locks, and no pass ends unlocked more than
`10 + 3 * g` seconds after the reading of `stop` the silence began with. -/
theorem locks_after_silence (S : Setup) {clock : ℕ → ℤ} {g : ℤ} (hg : Gaps clock g) {v₀ v : Vars}
    (h₀ : Serving clock v₀) (earlier silent : List Round)
    (hrun : (Act.loop (onePass S clock) earlier v₀).result = .ok v)
    (hsilent : ∀ r ∈ silent, r.read = none) :
    LocksAfter 1 (Act.loop (onePass S clock) silent v) ∧
      ∀ v', (Act.loop (onePass S clock) silent v).result = .ok v' →
        v'.stop ≤ v.stop + 10 + 3 * g := by
  have hserving : Serving clock v :=
    (Act.loop_invariant (P := fun _ => True) (fun _ _ _ _ _ => trivial)
      (fun r s s' hs => serving_pass hg hs) earlier h₀).2 v hrun
  have hnonneg : 0 ≤ g := by have := hg 0; omega
  have hfresh : Fresh clock v.stop g v := ⟨hserving, hserving.start_le, by omega⟩
  obtain ⟨hlocks, hend⟩ := fresh_run (S := S) hg silent hsilent hfresh
  refine ⟨hlocks, fun v' hok => ?_⟩
  rcases hend v' hok with h | h
  · have := h.stop_le
    omega
  · calc v'.stop ≤ v'.start + 5 + g := h.stop_le
      _ ≤ v.stop + 10 + 3 * g := by have := h.started; omega

/-- A pass in which nothing arrives. -/
def idle : Round := ⟨⟨none, ⟨Login.phoneWorld, none, 0⟩⟩, none, true, []⟩

theorem locks_after_silence_seven :
    LocksAfter 1 (Act.loop (onePass ⟨none, true, true⟩ fun n => n) (List.replicate 7 idle)
        ⟨some Login.phone, Login.phone, 1000, 0, 0, 1⟩) ∧
      ∀ v', (Act.loop (onePass ⟨none, true, true⟩ fun n => n) (List.replicate 7 idle)
        ⟨some Login.phone, Login.phone, 1000, 0, 0, 1⟩).result = .ok v' →
          v'.stop ≤ 0 + 10 + 3 * 1 :=
  locks_after_silence ⟨none, true, true⟩ (fun n => by push_cast; omega)
    ⟨rfl, le_rfl, 0, rfl, rfl⟩ [] (List.replicate 7 idle) rfl
    fun r hr => List.eq_of_mem_replicate hr ▸ rfl

end ProxyAuth.Silence
