import ProxyAuth.Handover
import ProxyAuth.Windows

/-!
What it costs to keep the screen unlocked.

Every second between two checks has to be paid for with 100 bytes. The counter may overflow, but
then it has counted too few, so that no run of the server lasts longer than its bytes pay for.
-/

namespace ProxyAuth.Payment

open ProxyAuth.Control ProxyAuth.CString ProxyAuth.BtMisc ProxyAuth.Login ProxyAuth.Deauth
open ProxyAuth.PeerSafety ProxyAuth.Handover ProxyAuth.Silence ProxyAuth.Counter ProxyAuth.Windows

/-! ### Bytes and seconds -/

variable {S : Setup} {clock : ℕ → ℤ} {r : Round} {v v' : Vars} {es es' : List Event}

/-- The checks of a trace, and the seconds they cover. -/
def seconds (es : List Event) : ℤ := ((checks es).map Prod.fst).sum

def checkedBytes (es : List Event) : ℤ := ((checks es).map Prod.snd).sum

instance : DecidablePred Passes := fun c =>
  inferInstanceAs (Decidable (minThroughput ≤ throughput c.1 c.2))

/-- The seconds that the checks which passed cover. -/
def paidSeconds (es : List Event) : ℤ := (((checks es).filter Passes).map Prod.fst).sum

/-- All seconds that were checked are paid for, with 100 bytes each; what is in the counter comes
from bytes that have paid for none yet. -/
structure Pays (es : List Event) (v : Vars) : Prop where
  client : v.client.isSome = true
  passed : ∀ c ∈ checks es, Passes c ∧ 100 * c.1 ≤ c.2
  account : ∃ rest, 0 ≤ rest ∧ v.numBytesRead ≤ rest ∧ checkedBytes es + rest ≤ received es
  range : -2 ^ 31 ≤ v.numBytesRead

lemma wrap32_le {n : ℤ} (h : -2 ^ 31 ≤ n) : wrap32 n ≤ n ∧ -2 ^ 31 ≤ wrap32 n := by
  rw [wrap32, Int.bmod_def]
  split_ifs <;> omega

/-- A counter that overflows has counted too few. -/
lemma addBytes_le {num : ℤ} (n : ℕ) (h : -2 ^ 31 ≤ num) :
    addBytes num n ≤ num + n ∧ -2 ^ 31 ≤ addBytes num n := by
  unfold addBytes
  split_ifs
  · exact wrap32_le (by omega)
  · omega

/-- No check passes with too few bytes, whatever the division does. -/
lemma le_of_passes {s n : ℤ} (hs : 0 < s) (h : minThroughput ≤ throughput s n) :
    100 * s ≤ n := by
  have hn : 0 ≤ n := by
    by_contra hneg
    have htdiv : n.tdiv s ≤ 0 := by
      have := Int.tdiv_nonneg (a := -n) (b := s) (by omega) hs.le
      rw [Int.neg_tdiv] at this
      omega
    rw [throughput, minThroughput] at h
    omega
  by_contra hlt
  exact absurd h (not_le.mpr ((throughput_lt_iff hs hn).mpr (not_le.mp hlt)))

/-! ### A pass with a client -/

lemma checkedBytes_append (es es' : List Event) :
    checkedBytes (es ++ es') = checkedBytes es + checkedBytes es' := by
  simp [checkedBytes, checks_append]

/-- What is received is added to the counter, or to less than that. -/
lemma Pays.receive (h : Pays es v) : Pays (es ++ (receive r v).events) (counted r v) := by
  obtain ⟨rest, h₀, hnum, haccount⟩ := h.account
  have hbytes : checkedBytes (es ++ (Deauth.receive r v).events) = checkedBytes es := by
    rw [checkedBytes, checks_append, checks_receive, List.append_nil, ← checkedBytes]
  have hpassed : ∀ c ∈ checks (es ++ (Deauth.receive r v).events),
      Passes c ∧ 100 * c.1 ≤ c.2 := by
    rw [checks_append, checks_receive, List.append_nil]
    exact h.passed
  rcases hin : incoming r v with _ | chunk
  · have hsame : counted r v = v := by simp [counted, hin]
    rw [hsame, receive_of_none hin, Act.pure_events, List.append_nil]
    exact h
  · obtain ⟨p, hc⟩ := exists_client hin
    have hnew : received (Deauth.receive r v).events = chunk.bytes.length := by
      rw [receive_some_events hc hin]
      split_ifs <;> simp [bytesOf]
    obtain ⟨hle, hrange⟩ := addBytes_le chunk.bytes.length h.range
    have hcounted : (counted r v).numBytesRead = addBytes v.numBytesRead chunk.bytes.length := by
      simp [counted, hin]
    refine ⟨h.client, hpassed, ⟨rest + chunk.bytes.length, by omega, by omega, ?_⟩, by omega⟩
    rw [hbytes, received_append, hnew]
    omega

/-- A check that passes spends the counter. -/
lemma Pays.measure (h : Pays es v) (hok : (measure S clock v).result = .ok v') :
    Pays (es ++ (measure S clock v).events) v' := by
  obtain ⟨rest, h₀, hnum, haccount⟩ := h.account
  rcases measure_cases S clock v with ⟨-, hm⟩ | ⟨hdue, hpass, hm⟩ | ⟨-, -, k, hm⟩
  · rw [hm] at hok ⊢
    cases hok
    rwa [Act.pure_events, List.append_nil]
  · rw [hm] at hok ⊢
    cases hok
    have henough := le_of_passes (by omega) hpass
    have hzero : (0 : ℤ) ≤ rest - v.numBytesRead := by omega
    refine ⟨h.client, fun c hc => ?_, ⟨rest - v.numBytesRead, hzero, hzero, ?_⟩, by simp⟩
    · rw [checks_append] at hc
      rcases List.mem_append.mp hc with hc | hc
      · exact h.passed c hc
      · obtain rfl := List.mem_singleton.mp hc
        exact ⟨hpass, henough⟩
    · have hcheck : checkedBytes [.checked (v.stop - v.start) v.numBytesRead] = v.numBytesRead := by
        simp [checkedBytes, checks, check]
      rw [checkedBytes_append, hcheck, received_append]
      simp only [received_cons, received_nil, bytesOf]
      omega
  · rw [hm] at hok
    cases hok

lemma Pays.finish (h : Pays es v) (hok : (finish S clock r v).result = .ok v') :
    Pays (es ++ (finish S clock r v).events) v' := by
  rw [finish_result hok]
  obtain ⟨rest, h₀, hnum, haccount⟩ := h.account
  have hchecks : checks (es ++ (Deauth.finish S clock r v).events) = checks es := by
    rw [checks_append, checks_finish, List.append_nil]
  refine ⟨h.client, ?_, ⟨rest, h₀, hnum, ?_⟩, h.range⟩
  · rw [hchecks]
    exact h.passed
  · rw [checkedBytes, hchecks, ← checkedBytes, received_append, received_of_quiet finish_quiet]
    omega

lemma Pays.pass (h : Pays es v) (hok : (onePass S clock r v).result = .ok v') :
    Pays (es ++ (onePass S clock r v).events) v' := by
  rw [onePass_eq, connect_of_isSome h.client, Act.pure_bind, Handover.rest] at hok ⊢
  obtain ⟨v₁, h₁, hrest⟩ := Act.bind_result_ok.mp hok
  obtain ⟨v₂, h₂, h₃⟩ := Act.bind_result_ok.mp hrest
  obtain rfl : counted r v = v₁ := Except.ok.inj (receive_result.symm.trans h₁)
  rw [Act.bind_of_ok h₁, Act.bind_of_ok h₂, ← List.append_assoc, ← List.append_assoc]
  exact (h.receive.measure h₂).finish h₃

/-- The time that was checked is covered by what was received. -/
lemma Pays.seconds_le (h : Pays es v) : 100 * seconds es ≤ received es := by
  obtain ⟨rest, h₀, -, haccount⟩ := h.account
  have hsum : ∀ cs : List (ℤ × ℤ), (∀ c ∈ cs, 100 * c.1 ≤ c.2) →
      100 * (cs.map Prod.fst).sum ≤ (cs.map Prod.snd).sum := by
    intro cs
    induction cs with
    | nil => simp
    | cons c cs ih =>
      intro hcs
      have hc := hcs c List.mem_cons_self
      have hrest := ih fun c hc => hcs c (List.mem_cons_of_mem _ hc)
      simp only [List.map_cons, List.sum_cons]
      omega
  have hpassed := hsum _ fun c hc => (h.passed c hc).2
  change 100 * seconds es ≤ checkedBytes es at hpassed
  omega

lemma paidSeconds_append (es es' : List Event) :
    paidSeconds (es ++ es') = paidSeconds es + paidSeconds es' := by
  simp [paidSeconds, checks_append]

lemma paidSeconds_of_no_checks (h : checks es = []) : paidSeconds es = 0 := by
  simp [paidSeconds, h]

/-- As long as the process goes on, every check has passed. -/
lemma Pays.paidSeconds_le (h : Pays es v) : 100 * paidSeconds es ≤ received es := by
  have hall : (checks es).filter Passes = checks es :=
    List.filter_eq_self.mpr fun c hc => decide_eq_true (h.passed c hc).1
  rw [paidSeconds, hall]
  exact h.seconds_le

/-- The pass that ends the process can make a check too; that one counts only if it passes. -/
lemma Pays.paidSeconds_pass_le (h : Pays es v) (S : Setup) (clock : ℕ → ℤ) (r : Round) :
    100 * paidSeconds (es ++ (onePass S clock r v).events) ≤
      received (es ++ (onePass S clock r v).events) := by
  have hread := h.receive (r := r)
  have hfinish : ∀ v, paidSeconds (Deauth.finish S clock r v).events = 0 := fun v =>
    paidSeconds_of_no_checks checks_finish
  have hnonneg : ∀ v, 0 ≤ received (Deauth.finish S clock r v).events := fun v =>
    received_nonneg _
  rw [onePass_eq, connect_of_isSome h.client, Act.pure_bind, Handover.rest,
    Act.bind_of_ok receive_result, ← List.append_assoc]
  rcases measure_cases S clock (counted r v) with ⟨-, hm⟩ | ⟨-, -, hm⟩ | ⟨-, hlow, k, hm⟩
  · have hpaid := hread.paidSeconds_le
    have hmore := hnonneg (counted r v)
    rw [hm, Act.pure_bind, paidSeconds_append, hfinish, received_append]
    omega
  · have hok : (Deauth.measure S clock (counted r v)).result =
        .ok (reopened clock (counted r v)) := by rw [hm]; rfl
    have hpaid := (hread.measure hok).paidSeconds_le
    have hmore := hnonneg (reopened clock (counted r v))
    rw [Act.bind_of_ok hok, ← List.append_assoc, paidSeconds_append, hfinish, received_append]
    omega
  · have hfails : ¬ Passes ((counted r v).stop - (counted r v).start,
        (counted r v).numBytesRead) := not_le.mpr hlow
    have hzero : paidSeconds [.checked ((counted r v).stop - (counted r v).start)
        (counted r v).numBytesRead, .locked] = 0 := by
      rw [paidSeconds, show checks [.checked _ _, .locked] = [_] from rfl]
      simp [hfails]
    have hpaid := hread.paidSeconds_le
    rw [hm, Act.bind_of_error rfl, paidSeconds_append, hzero, received_append]
    simp only [received_cons, received_nil, bytesOf]
    omega

/-! ### The time of a conversation -/

/-- A check is made, and passes, when the window is longer than 5 seconds, and then only. -/
lemma pass_checks (hv : v.client.isSome = true) (hok : (onePass S clock r v).result = .ok v') :
    (¬ 5 < v.stop - v.start ∧ checks (onePass S clock r v).events = [] ∧
        v' = stamped clock (counted r v)) ∨
      (5 < v.stop - v.start ∧ (∃ bytes,
          checks (onePass S clock r v).events = [(v.stop - v.start, bytes)]) ∧
        v' = stamped clock (reopened clock (counted r v))) := by
  rw [onePass_eq, connect_of_isSome hv, Act.pure_bind, Handover.rest] at hok ⊢
  obtain ⟨v₁, h₁, hrest⟩ := Act.bind_result_ok.mp hok
  obtain ⟨v₂, h₂, h₃⟩ := Act.bind_result_ok.mp hrest
  obtain rfl : counted r v = v₁ := Except.ok.inj (receive_result.symm.trans h₁)
  rw [Act.bind_of_ok h₁, Act.bind_of_ok h₂, checks_append, checks_append, checks_receive,
    checks_finish, List.nil_append, List.append_nil, finish_result h₃]
  rcases measure_cases S clock (counted r v) with ⟨hdue, hm⟩ | ⟨hdue, -, hm⟩ | ⟨-, -, k, hm⟩
  · rw [hm] at h₂ ⊢
    obtain rfl : counted r v = v₂ := Except.ok.inj h₂
    exact .inl ⟨hdue, rfl, rfl⟩
  · rw [hm] at h₂ ⊢
    obtain rfl : reopened clock (counted r v) = v₂ := Except.ok.inj h₂
    exact .inr ⟨hdue, ⟨_, rfl⟩, rfl⟩
  · rw [hm] at h₂
    cases h₂

/-- No reading of the clock is more than `g` seconds later than the one before. It may be set
back. -/
structure Advances (clock : ℕ → ℤ) (g : ℤ) : Prop where
  nonneg : 0 ≤ g
  le : ∀ n, clock (n + 1) ≤ clock n + g

/-- The time since `T` is what was checked, with a gap after each check, and the open window. -/
structure Timely (clock : ℕ → ℤ) (g T : ℤ) (es : List Event) (v : Vars) : Prop where
  client : v.client.isSome = true
  latest : ∃ n, v.tick = n + 1 ∧ clock n = v.stop
  short : v.stop ≤ v.start + 5 + g
  started : v.start ≤ T + seconds es + g * (checks es).length
  long : ∀ c ∈ checks es, 5 < c.1

variable {g T : ℤ}

lemma Timely.next (h : Timely clock g T es v) (hg : Advances clock g) :
    clock v.tick ≤ v.stop + g := by
  obtain ⟨n, htick, hstop⟩ := h.latest
  rw [htick, ← hstop]
  exact hg.le n

lemma Timely.pass (hg : Advances clock g) (h : Timely clock g T es v)
    (hok : (onePass S clock r v).result = .ok v') :
    Timely clock g T (es ++ (onePass S clock r v).events) v' := by
  have hnext := h.next hg
  have hshort := h.short
  have hstarted := h.started
  have hgap := hg.nonneg
  rcases pass_checks h.client hok with ⟨hdue, hnone, rfl⟩ | ⟨hdue, ⟨bytes, hone⟩, rfl⟩
  · have hsame : checks (es ++ (onePass S clock r v).events) = checks es := by
      rw [checks_append, hnone, List.append_nil]
    refine ⟨h.client, ⟨v.tick, rfl, rfl⟩, ?_, ?_, hsame ▸ h.long⟩
    · change clock v.tick ≤ v.start + 5 + g
      omega
    · rw [seconds, hsame, ← seconds]
      exact hstarted
  · have hmore : checks (es ++ (onePass S clock r v).events) =
        checks es ++ [(v.stop - v.start, bytes)] := by
      rw [checks_append, hone]
    have hseconds : seconds (es ++ (onePass S clock r v).events) =
        seconds es + (v.stop - v.start) := by
      simp [seconds, hmore]
    refine ⟨h.client, ⟨v.tick + 1, rfl, rfl⟩, ?_, ?_, fun c hc => ?_⟩
    · change clock (v.tick + 1) ≤ clock v.tick + 5 + g
      have := hg.le v.tick
      omega
    · change clock v.tick ≤ _
      rw [hseconds, hmore, List.length_append, List.length_singleton]
      push_cast
      rw [mul_add, mul_one]
      omega
    · rw [hmore] at hc
      rcases List.mem_append.mp hc with hc | hc
      · exact h.long c hc
      · obtain rfl := List.mem_singleton.mp hc
        exact hdue

lemma Timely.six_mul_le (h : Timely clock g T es v) :
    6 * ((checks es).length : ℤ) ≤ seconds es := by
  have hsum : ∀ cs : List (ℤ × ℤ), (∀ c ∈ cs, 5 < c.1) →
      6 * (cs.length : ℤ) ≤ (cs.map Prod.fst).sum := by
    intro cs
    induction cs with
    | nil => simp
    | cons c cs ih =>
      intro hcs
      have hc := hcs c List.mem_cons_self
      have hrest := ih fun c hc => hcs c (List.mem_cons_of_mem _ hc)
      simp only [List.map_cons, List.sum_cons, List.length_cons]
      omega
  exact hsum _ h.long

/-- The time since `T`, but for an open window, is paid for by what was received. -/
lemma Timely.time_le (hg : Advances clock g) (h : Timely clock g T es v) (hpays : Pays es v) :
    600 * (v.stop - T - 5 - g) ≤ (6 + g) * received es := by
  have hchecks := h.six_mul_le
  have hpaid := hpays.seconds_le
  have hshort := h.short
  have hstarted := h.started
  have hgap := mul_le_mul_of_nonneg_left hchecks hg.nonneg
  calc 600 * (v.stop - T - 5 - g)
      ≤ 100 * (6 * seconds es + g * (6 * (checks es).length)) := by
        rw [mul_left_comm g]
        omega
    _ ≤ 100 * (6 * seconds es + g * seconds es) := by omega
    _ = (6 + g) * (100 * seconds es) := by ring
    _ ≤ (6 + g) * received es :=
        mul_le_mul_of_nonneg_left hpaid (Int.add_nonneg (by decide) hg.nonneg)

/-! ### A run -/

/-- What `connect` leaves when it comes back with a client at the time `T`. -/
structure Accepted (clock : ℕ → ℤ) (T : ℤ) (v : Vars) : Prop extends Serving clock v where
  zero : v.numBytesRead = 0
  start : v.start = T
  stop : v.stop = T

lemma accepted_of_connect (hc : v.client = none) (hzero : v.numBytesRead = 0)
    (hok : (connect S clock r v).result = .ok v') (hclient : v'.client.isSome = true) :
    Accepted clock (clock v.tick) v' := by
  obtain ⟨hnum, hstart, hstop, htick⟩ := (connect_new S clock r hc).2 v' hok
  exact ⟨⟨hclient, by omega, v.tick, htick, hstop.symm⟩, hnum.trans hzero, hstart, hstop⟩

lemma pays_of_accepted (h : Accepted clock T v) : Pays [] v := by
  have hzero := h.zero
  have haccount : checkedBytes [] + 0 ≤ received [] := by simp [checkedBytes, checks]
  exact ⟨h.client, by simp [checks], ⟨0, le_rfl, hzero.le, haccount⟩, by omega⟩

lemma timely_of_accepted (hg : Advances clock g) (h : Accepted clock T v) :
    Timely clock g T [] v := by
  have hgap := hg.nonneg
  have hstart := h.start
  have hstop := h.stop
  exact ⟨h.client, h.latest, by omega, by simp [seconds, checks, hstart], by simp [checks]⟩

/-- Before there is a client, nothing is counted. -/
lemma zero_of_unserved {pre : List Round} (hrun : (Act.loop (onePass S clock) pre .init).result =
    .ok v) (hc : v.client = none) : v.numBytesRead = 0 := by
  have hstep : ∀ r v v', (v.client = none → v.numBytesRead = 0) →
      (onePass S clock r v).result = .ok v' → v'.client = none → v'.numBytesRead = 0 := by
    intro r v v' hzero hok hc'
    rcases hc : v.client with _ | p
    · rcases ha : answered S r.accept with _ | p
      · have hle := received_pass_le S clock r v
        have hmax : intMax = 2 ^ 31 - 1 := rfl
        have hfew : Few v.numBytesRead (onePass S clock r v).events := by
          rw [hzero hc]
          exact few_of_received le_rfl (by omega)
        obtain ⟨-, hnum, -⟩ := (pass_waits hc ha (hzero hc).ge hfew).2 v' hok
        rw [hnum, hzero hc]
      · rw [(pass_accepts hc ha).2 v' hok] at hc'
        cases hc'
    · rw [onePass_eq, connect_of_isSome (by rw [hc]; rfl), Act.pure_bind] at hok
      rw [(served_after_connect v).2 v' hok, hc] at hc'
      cases hc'
  have hloop := Act.loop_invariant (I := fun v : Vars => v.client = none → v.numBytesRead = 0)
    (P := fun _ => True) (fun _ _ _ _ _ => trivial) hstep pre (s := .init) (fun _ => rfl)
  exact hloop.2 v hrun hc

/-- A run that goes on from a pass in which somebody connects is a run with that client. -/
lemma exists_accepted {rounds : List Round} (hc : v.client = none) (hzero : v.numBytesRead = 0)
    (ha : (answered S r.accept).isSome = true)
    (hok : (Act.loop (onePass S clock) (r :: rounds) v).result = .ok v') :
    ∃ v₁, Accepted clock (clock v.tick) v₁ ∧
      (Act.loop (onePass S clock) (r :: rounds) v₁).result = .ok v' ∧
      received (Act.loop (onePass S clock) (r :: rounds) v).events =
        received (Act.loop (onePass S clock) (r :: rounds) v₁).events := by
  obtain ⟨p, ha⟩ := Option.isSome_iff_exists.mp ha
  obtain ⟨v₂, h₂, -⟩ := Act.bind_result_ok.mp hok
  obtain ⟨v₁, h₁, hrest⟩ := Act.bind_result_ok.mp h₂
  have hclient : v₁.client.isSome = true := by
    rw [← (served_after_connect v₁).2 v₂ hrest, (pass_accepts hc ha).2 v₂ h₂]
    rfl
  have hserved : onePass S clock r v₁ = Handover.rest S clock r v₁ := by
    rw [onePass_eq, connect_of_isSome hclient, Act.pure_bind]
  have hsplit : Act.loop (onePass S clock) (r :: rounds) v =
      ⟨(connect S clock r v).events ++ (Act.loop (onePass S clock) (r :: rounds) v₁).events,
        (Act.loop (onePass S clock) (r :: rounds) v₁).result⟩ := by
    rw [Act.loop_cons, onePass_eq, Act.bind_assoc, Act.bind_of_ok h₁, Act.loop_cons, hserved]
  refine ⟨v₁, accepted_of_connect hc hzero h₁ hclient, ?_, ?_⟩
  · rwa [hsplit] at hok
  · rw [hsplit, received_append, received_of_quiet connect_quiet, Int.zero_add]

/-- **Time is paid for.** From the moment a phone is connected, a run of the server that has not
ended has lasted no longer than the bytes it received pay for, but for an open window; also when the
counter has overflowed, and when the clock is set back. -/
theorem time_paid (hg : Advances clock g) {pre rounds : List Round}
    (hpre : (Act.loop (onePass S clock) pre .init).result = .ok v) (hc : v.client = none)
    (ha : (answered S r.accept).isSome = true)
    (hok : (Act.loop (onePass S clock) (r :: rounds) v).result = .ok v') :
    600 * (v'.stop - clock v.tick - 5 - g) ≤
      (6 + g) * received (Act.loop (onePass S clock) (r :: rounds) v).events := by
  obtain ⟨v₁, hv, hrun, hreceived⟩ := exists_accepted hc (zero_of_unserved hpre hc) ha hok
  have hstep : ∀ r es v₂ v₃, Pays es v₂ ∧ Timely clock g (clock v.tick) es v₂ →
      (onePass S clock r v₂).result = .ok v₃ →
      Pays (es ++ (onePass S clock r v₂).events) v₃ ∧
        Timely clock g (clock v.tick) (es ++ (onePass S clock r v₂).events) v₃ :=
    fun r es v₂ v₃ h hok => ⟨h.1.pass hok, h.2.pass hg hok⟩
  obtain ⟨hpays, htimely⟩ := Act.loop_account hstep (r :: rounds)
    ⟨pays_of_accepted hv, timely_of_accepted hg hv⟩ hrun
  rw [hreceived]
  exact htimely.time_le hg hpays

/-- The first 15 seconds of the phone, which has paid for 6 of them. -/
theorem time_paid_phone : ∃ v : Vars, v.stop = 15 ∧
    (Act.loop (onePass floodSetup threes) paced .init).result = .ok v ∧
    checks (Act.loop (onePass floodSetup threes) paced .init).events = [(6, 1024)] ∧
    600 * (v.stop - 0 - 5 - 3) ≤
      (6 + 3) * received (Act.loop (onePass floodSetup threes) paced .init).events := by
  have hadvances : Advances threes 3 := ⟨by decide, fun n => by unfold threes; push_cast; omega⟩
  have hrun : (Act.loop (onePass floodSetup threes) paced .init).result =
      .ok ⟨some phone, phone, 0, 9, 15, 6⟩ := by rw [paced_eq]
  have hstart : (Act.loop (onePass floodSetup threes) [] .init).result = .ok .init := rfl
  exact ⟨_, rfl, hrun, checks_paced, time_paid hadvances hstart rfl rfl hrun⟩

end ProxyAuth.Payment
