import ProxyAuth.Agree
import ProxyAuth.PeerSafety
import ProxyAuth.PostAuth
import ProxyAuth.Windows

/-!
From the login to the session that is watched.

The child of the login becomes the server and gets the address of the device. While the same
devices stay trusted and that device connects, what can lock the screen is its throughput alone,
and what can end the server is the throughput or a lock that the session signals.
-/

namespace ProxyAuth.Handover

open ProxyAuth.Control ProxyAuth.CString ProxyAuth.BtMisc ProxyAuth.BtTrust ProxyAuth.Login
open ProxyAuth.Deauth ProxyAuth.Agree ProxyAuth.PeerSafety ProxyAuth.PostAuth ProxyAuth.Silence
open ProxyAuth.Counter ProxyAuth.Windows

/-! ### Passes with a client -/

variable {S : Setup} {clock : ℕ → ℤ} {r : Round} {v : Vars}

/-- A pass after its first block. -/
def rest (S : Setup) (clock : ℕ → ℤ) (r : Round) (v : Vars) : Proc Vars :=
  receive r v >>= fun v => measure S clock v >>= finish S clock r

lemma onePass_eq (S : Setup) (clock : ℕ → ℤ) (r : Round) (v : Vars) :
    onePass S clock r v = connect S clock r v >>= rest S clock r := rfl

/-- The process goes on after `x` exactly when every check of `x` passes and `quiet` holds; and as
long as they pass, the screen is not locked. -/
structure GoesOn {α : Type} (quiet : Prop) (x : Proc α) : Prop where
  iff : (∃ a, x.result = .ok a) ↔ (∀ c ∈ checks x.events, Passes c) ∧ quiet
  unlocked : (∀ c ∈ checks x.events, Passes c) → .locked ∉ x.events

lemma GoesOn.bind {α β : Type} {quiet quiet' : Prop} {x : Proc α} {f : α → Proc β}
    (hx : GoesOn quiet x) (hf : ∀ a, x.result = .ok a → GoesOn quiet' (f a)) :
    GoesOn (quiet ∧ quiet') (x >>= f) := by
  rcases hres : x.result with e | a
  · rw [Act.bind_of_error hres]
    refine ⟨⟨?_, ?_⟩, hx.unlocked⟩
    · rintro ⟨b, hb⟩
      cases hb
    · rintro ⟨hpass, hquiet, -⟩
      obtain ⟨a, ha⟩ := hx.iff.mpr ⟨hpass, hquiet⟩
      rw [hres] at ha
      cases ha
  · obtain ⟨-, hquiet⟩ := hx.iff.mp ⟨a, hres⟩
    have hsplit : (∀ c ∈ checks (x.events ++ (f a).events), Passes c) ↔
        ∀ c ∈ checks (f a).events, Passes c := by
      rw [checks_append, List.forall_mem_append]
      exact and_iff_right (hx.iff.mp ⟨a, hres⟩).1
    rw [Act.bind_of_ok hres]
    refine ⟨?_, fun hpass hlocked => ?_⟩
    · rw [hsplit, and_iff_right hquiet]
      exact (hf a hres).iff
    · rcases List.mem_append.mp hlocked with hlocked | hlocked
      · exact hx.unlocked (hx.iff.mp ⟨a, hres⟩).1 hlocked
      · exact (hf a hres).unlocked (hsplit.mp hpass) hlocked

/-- A piece that makes no check and does not lock. -/
lemma goesOn_of_calm {α : Type} {x : Proc α} {a : α} (hok : x.result = .ok a)
    (hchecks : checks x.events = []) (hcalm : .locked ∉ x.events) : GoesOn True x :=
  ⟨iff_of_true ⟨a, hok⟩ ⟨by simp [hchecks], trivial⟩, fun _ => hcalm⟩

lemma checks_receive : checks (receive r v).events = [] := by
  apply List.filterMap_eq_nil_iff.mpr
  intro e he
  rcases receive_events e he with rfl | ⟨p, bytes, -, rfl⟩
  · rfl
  · rfl

lemma finish_ok_iff (hdata : S.hasData = true) :
    (∃ v', (finish S clock r v).result = .ok v') ↔ 3 ∉ r.signals := by
  constructor
  · rintro ⟨v', hok⟩ h3
    have hcheck : checkLockStatus S r.signals = Act.stop .exited := by
      rw [checkLockStatus, if_pos hdata, if_pos h3]
    unfold finish at hok
    rw [Act.bind_of_ok (reply_result r _), hcheck] at hok
    cases hok
  · exact fun h3 => ⟨_, finish_ok clock v hdata h3⟩

lemma goesOn_rest (hdata : S.hasData = true) : GoesOn (3 ∉ r.signals) (rest S clock r v) := by
  have hnil : ∀ v, checks (finish S clock r v).events = [] := fun v => checks_finish
  rw [rest, Act.bind_of_ok receive_result]
  rcases measure_cases S clock (counted r v) with ⟨-, hm⟩ | ⟨-, hpass, hm⟩ | ⟨-, hlow, k, hm⟩
  · -- no check is due
    rw [hm, Act.pure_bind]
    refine ⟨?_, fun _ h => ?_⟩
    · rw [finish_ok_iff hdata]
      simp [checks_append, checks_receive, hnil]
    · rcases List.mem_append.mp h with h | h
      · exact locked_notMem_receive h
      · exact locked_notMem_finish h
  · -- a check passes
    rw [hm, Act.bind_of_ok rfl]
    refine ⟨?_, fun _ h => ?_⟩
    · rw [finish_ok_iff hdata, checks_append, checks_append, checks_receive, hnil]
      refine ⟨fun h3 => ⟨fun c hc => ?_, h3⟩, fun h => h.2⟩
      obtain rfl := List.mem_singleton.mp hc
      exact hpass
    · rcases List.mem_append.mp h with h | h
      · exact locked_notMem_receive h
      · rcases List.mem_append.mp h with h | h
        · simp at h
        · exact locked_notMem_finish h
  · -- a check fails, and the process ends
    rw [hm, Act.bind_of_error rfl]
    have hfails : ¬ ∀ c ∈ checks ((receive r v).events ++
        [.checked ((counted r v).stop - (counted r v).start) (counted r v).numBytesRead, .locked]),
        Passes c := by
      intro h
      rw [checks_append, checks_receive] at h
      exact absurd (h (_, _) List.mem_cons_self) (not_le.mpr hlow)
    refine ⟨⟨fun h => ?_, fun h => absurd h.1 hfails⟩, fun h => absurd h hfails⟩
    obtain ⟨v', h⟩ := h
    cases h

/-- Once there is a client, only the checks and the signalled lock end the run. -/
lemma goesOn_loop (hdata : S.hasData = true) (rounds : List Round) (hv : v.client.isSome = true) :
    GoesOn (∀ r ∈ rounds, 3 ∉ r.signals) (Act.loop (onePass S clock) rounds v) := by
  induction rounds generalizing v with
  | nil =>
    refine ⟨iff_of_true ⟨v, rfl⟩ ⟨fun c hc => ?_, by simp⟩, fun _ h => ?_⟩
    · cases hc
    · cases h
  | cons r rounds ih =>
    simp only [List.forall_mem_cons]
    rw [Act.loop_cons, onePass_eq, connect_of_isSome hv, Act.pure_bind]
    refine (goesOn_rest hdata).bind fun v' hok => ih ?_
    rw [(served_after_connect v).2 v' hok]
    exact hv

/-! ### The same state of things -/

/-- What the server of the user meets is what the login met. -/
structure SameView (w : World) (user : Str) (view : View) : Prop where
  steady : Steady view.world
  same : SameState (some trustedDirPath) (some user) w view.world
  login : view.login = some user

/-- The child of the login is the process that starts with `b`. -/
def Becomes (A : Auth) (b : Boot) : Prop :=
  ∃ path uid, (pamSmAuthenticate A).2 = some (.became path (b.cmd.prog :: b.cmd.args) uid)

variable {A : Auth} {username : Str} {login : Login} {b : Boot} {d : Str}

lemma isTrustedClient_same {view : View} (hview : SameView A.world username view)
    (hd : Trusted A.world (some trustedDirPath) (some username) d) :
    isTrustedClient view (some d) (some trustedDirPath) = .ok true := by
  have hd' := (hview.same.trusted_iff d).mp hd
  rw [← hview.login] at hd'
  rw [isTrustedClient_eq hview.steady, decide_eq_true hd']

/-- The server is started with the address of the device that logged the user in. -/
lemma args_of_becomes (hin : LoggedIn A username login) (h : Becomes A b) :
    b.cmd.args = login.detected.toList := by
  obtain ⟨path, uid, h⟩ := h
  rw [pamSmAuthenticate_of_loggedIn hin] at h
  rcases execChild_cases A.spawn login.detected username A.logFp with
    ⟨-, pwUid, -, hchild⟩ | ⟨-, code, hchild⟩
  · rw [hchild] at h
    by_cases hfork : A.spawn.fork = true
    · rw [if_pos hfork] at h
      injection h with h
      injection h with _ hargv
      exact (List.cons.inj hargv).2.symm
    · rw [if_neg hfork] at h
      cases h
  · rw [hchild, giveUp] at h
    split_ifs at h <;> cases h

/-- That device is trusted, and its address is one. -/
lemma exists_device (hin : LoggedIn A username login) (hsteady : Steady A.world)
    (hdet : A.world.detectedMem = true) (hmac : MacAddresses A.world) :
    ∃ d, login.detected = some d ∧ IsBtAddr d.bytes ∧
      Trusted A.world (some trustedDirPath) (some username) d := by
  obtain ⟨login', hlogin, -, hdev⟩ :=
    bluetoothLogin_trusted (some trustedDirPath) (some username) hsteady hdet
  obtain rfl : login = login' := Except.ok.inj (hin.2.1.symm.trans hlogin)
  obtain ⟨d, hd, hdev⟩ := hdev hin.2.2
  have haddr := isBtAddr_of_trusted hsteady hmac hd
  refine ⟨d, ?_, haddr, hd⟩
  rw [hdev, Str.take_of_len_le haddr.1.le]

/-! ### From the login on -/

/-- The start with the address of a trusted device opens the socket, and does nothing else. -/
lemma boot_eq (hargs : b.cmd.args = [d]) (haddr : IsBtAddr d.bytes)
    (htrust : isTrustedClient b.view (some d) (some trustedDirPath) = .ok true)
    (hlistener : b.listener = .ready) :
    boot b = ⟨[.listening], .ok ⟨some d, decide (0 ≤ b.server), true⟩⟩ := by
  have harg : checkArg b.cmd = true := by
    rw [checkArg, hargs]
    exact verifyBtAddr_of_isBtAddr haddr
  have hadd : b.cmd.btAddr = some d := by rw [CmdLine.btAddr, hargs]; rfl
  have hset : setLockListener b = pure ⟨some d, decide (0 ≤ b.server), true⟩ := by
    rw [setLockListener, hlistener, hadd]
  rw [boot, harg, hadd, htrust, hset]
  rfl

/-- The connection of that device is taken. -/
lemma connect_eq (clock : ℕ → ℤ) (hadd : S.btAddr = some d) (hopen : S.serverOpen = true)
    (hv : v.client = none) (hpeer : r.accept.peer = some d)
    (htrust : isTrustedClient r.accept.view (some d) (some trustedDirPath) = .ok true) :
    ∃ v', connect S clock r v = ⟨[.accepted d r.accept.view], .ok v'⟩ ∧ v'.client = some d := by
  have hanswer : answered S r.accept = some d := by rw [answered, if_pos hopen, hpeer]
  have heq : strEq (some d) (some d) = .ok true := by simp [strEq]
  rw [connect_of_none hv, connectClient_of_answered hanswer htrust, hadd, if_pos rfl, heq]
  exact ⟨_, rfl, rfl⟩

/-- **From the login to the session.** The server of a login, in an unchanged state of things and
with the same device connecting, still runs after any passes exactly when every check of the
throughput was met and no lock was signalled; and as long as the checks are met, the screen is not
locked. -/
theorem goesOn_of_loggedIn (hin : LoggedIn A username login) (hsteady : Steady A.world)
    (hdet : A.world.detectedMem = true) (hmac : MacAddresses A.world) (hbecomes : Becomes A b)
    (hview : SameView A.world username b.view) (hserver : 0 ≤ b.server)
    (hlistener : b.listener = .ready) (clock : ℕ → ℤ) (rounds : List Round)
    (hrounds : ∀ r ∈ rounds, r.accept.peer = login.detected ∧
      SameView A.world username r.accept.view) :
    GoesOn (∀ r ∈ rounds, 3 ∉ r.signals) (main b clock rounds) := by
  obtain ⟨d, hd, haddr, htrust⟩ := exists_device hin hsteady hdet hmac
  have hargs : b.cmd.args = [d] := by rw [args_of_becomes hin hbecomes, hd]; rfl
  have hboot := boot_eq hargs haddr (isTrustedClient_same hview htrust) hlistener
  rw [decide_eq_true hserver] at hboot
  rw [main, hboot, ← true_and (∀ r ∈ rounds, 3 ∉ r.signals)]
  refine GoesOn.bind (goesOn_of_calm rfl rfl (by simp)) fun S hS => ?_
  obtain rfl := Except.ok.inj hS
  rcases rounds with _ | ⟨r, rounds⟩
  · refine ⟨iff_of_true ⟨_, rfl⟩ ⟨fun c hc => ?_, by simp⟩, fun _ h => ?_⟩
    · cases hc
    · cases h
  -- the first pass takes the connection, and the others find the client there
  obtain ⟨⟨hpeer, hsame⟩, -⟩ := List.forall_mem_cons.mp hrounds
  obtain ⟨v, hconnect, hclient⟩ := connect_eq clock (v := Vars.init)
    (S := ⟨some d, true, true⟩) rfl rfl rfl (hpeer.trans hd) (isTrustedClient_same hsame htrust)
  simp only [List.forall_mem_cons]
  rw [Act.loop_cons, onePass_eq, hconnect, Act.bind_assoc,
    ← true_and (3 ∉ r.signals ∧ ∀ r ∈ rounds, 3 ∉ r.signals)]
  refine GoesOn.bind (goesOn_of_calm rfl rfl (by simp)) fun v₁ h₁ => ?_
  obtain rfl := Except.ok.inj h₁
  refine (goesOn_rest rfl).bind fun v₂ h₂ => goesOn_loop rfl rounds ?_
  rw [(served_after_connect v).2 v₂ h₂, hclient]
  rfl

/-- The server that the login of the phone's user has started. -/
def spawnedBoot : Boot := ⟨⟨trustedDirPath ++ deauth, [phone]⟩, phoneView, 3, .ready⟩

lemma phoneView_same : SameView phoneWorld (lit "zaku") phoneView :=
  ⟨phoneWorld_steady,
    ⟨rfl, rfl, fun _ _ => rfl, (fun _ _ _ h => nomatch h), fun _ _ _ _ => rfl,
      (fun _ _ _ _ _ h => nomatch h), fun _ _ _ _ => rfl⟩, rfl⟩

/-- The phone pays for the first 6 seconds. -/
theorem goesOn_phone :
    GoesOn (∀ r ∈ paced, 3 ∉ r.signals) (main spawnedBoot threes paced) ∧
      checks (main spawnedBoot threes paced).events = [(6, 1024)] := by
  have hin := phoneAuth_loggedIn smoothSpawn
  have hbecomes : Becomes (phoneAuth smoothSpawn) spawnedBoot := by
    refine ⟨trustedDirPath ++ deauth, 1000, ?_⟩
    rw [pamSmAuthenticate_of_loggedIn hin, execChild_eq]
    rfl
  constructor
  · refine goesOn_of_loggedIn hin phoneWorld_steady rfl phoneWorld_mac hbecomes phoneView_same
      (by decide) rfl threes paced fun r hr => ?_
    rcases List.mem_cons.mp hr with rfl | hr
    · exact ⟨rfl, phoneView_same⟩
    · obtain rfl := List.eq_of_mem_replicate hr
      exact ⟨rfl, phoneView_same⟩
  · have hboot : boot spawnedBoot = ⟨[.listening], .ok floodSetup⟩ :=
      boot_eq rfl (by decide) isTrustedClient_phone rfl
    rw [main, hboot, Act.bind_of_ok rfl, checks_append, checks_paced]
    rfl

end ProxyAuth.Handover
