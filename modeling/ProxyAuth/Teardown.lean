import ProxyAuth.Balance
import ProxyAuth.PeerSafety

/-!
What the server holds, and what its end gives back.

The functions of the server once more, each with the sockets, references and blocks that it
acquires, uses and releases. `terminate` runs from wherever the process ends, and goes by what the
variables say then: a client whose check fails is not in its variable yet.
-/

namespace ProxyAuth.Teardown

open ProxyAuth.Control ProxyAuth.CString ProxyAuth.BtMisc ProxyAuth.BtPair ProxyAuth.BtTrust
open ProxyAuth.Login ProxyAuth.Deauth ProxyAuth.Ledger ProxyAuth.Heap ProxyAuth.Leaks
open ProxyAuth.Balance ProxyAuth.PeerSafety

/-- What the server may hold; `list call` are the blocks of one call of `is_trusted_client`, and
`signal` is the value that the handler takes out of a signal. -/
inductive Held
  | list (call : ℕ) (b : Block)
  | dataObj | proxy | handler | context
  | server | client | session
  | signal (pass i : ℕ)
  deriving DecidableEq

/-- How the process ends; `refused` from within `connect_client`. -/
inductive Exit
  | refused | left
  | crashed (fault : Fault)

def Exit.toEnd : Exit → End
  | .refused | .left => .exited
  | .crashed fault => .crashed fault

abbrev Task := Act (Op Held) Exit

/-- The number of the server's socket, or `-1`, and whether there is an SDP session. -/
structure Sockets where
  server : ℤ
  session : Bool

/-! ### `is_trusted_client` -/

/-- The two checks of `is_trusted_client`. The address to look for is on the stack, or in `argv`. -/
def listed (btAddr : Option Str) (paired trusted : Option (List Slot) × ℤ) : Work Bool :=
  if trusted.1.isSome then do
    let isPaired ← Heap.isDevTrusted none .pairedArray .pairedAddr btAddr paired.1 paired.2
    if isPaired then
      Heap.isDevTrusted none .trustedArray .trustedAddr btAddr trusted.1 trusted.2
    else pure false
  else pure false

def isTrustedClient (v : View) (btAddr dir : Option Str) : Work Bool := do
  let paired ← Heap.getPairedDevices v.world.pairMem v.world.bus v.stale
  let trusted ← Heap.findTrustedDevices false v.world dir v.login
  let status ← listed btAddr paired trusted
  Heap.freeDeviceList .trustedArray .trustedAddr trusted.1 trusted.2
  Heap.freeDeviceList .pairedArray .pairedAddr paired.1 paired.2
  pure status

/-- The call with this number, in a process that ends with it when it faults. -/
def ask (call : ℕ) (v : View) (btAddr : Option Str) : Task Bool :=
  rename (.list call) .crashed (isTrustedClient v btAddr (some trustedDirPath))

/-! ### The end of the process -/

section
variable (T : Sockets)

/-- `client` tells whether the variable holds one. What is 0 is not closed, and closing `-1` does
nothing. -/
def terminateServer (client : Bool) : Task PUnit := do
  Act.emitIf (client = true) (.release .client)
  Act.emitIf (0 < T.server) (.release .server)
  Act.emitIf (T.session = true) (.release .session)

/-- What `terminate` does before it exits. The default context belongs to GLib: nobody here holds
it, and it is given back all the same. -/
def giveBack (client : Bool) : Task PUnit := do
  Act.emit (.use .dataObj)
  Act.emit (.use .proxy)
  Act.emit (.release .handler)
  Act.emit (.release .proxy)
  Act.emit (.release .context)
  terminateServer T client

def terminate (client : Bool) (k : Exit) : Task PUnit := do
  giveBack T client
  Act.stop k

def lock (hasData client : Bool) (k : Exit) : Task PUnit :=
  if hasData then terminate T client k else pure ⟨⟩

def lockUnless (ok hasData client : Bool) (k : Exit) : Task PUnit :=
  if ok then pure ⟨⟩ else lock T hasData client k

/-! ### The loop -/

def connectClient (S : Setup) (a : Accept) (v : Vars) : Task (Option Str × Str) := do
  Act.emitIf (0 ≤ T.server) (.use .server)
  let client := answered S a
  let remAddr := client.getD v.remAddr
  Act.emitIf (client.isSome = true) (.acquire .client)
  let trusted ← ask (v.tick + 1) a.view (some remAddr)
  let authorized ←
    (if trusted then attempt ((strEq (some remAddr) S.btAddr).mapError Exit.crashed)
    else pure false)
  -- the variable of `main` still says that there is no client
  lockUnless T authorized S.hasData false .refused
  pure (client, remAddr)

def connect (S : Setup) (clock : ℕ → ℤ) (r : Round) (v : Vars) : Task Vars :=
  if v.client.isNone then do
    let (client, remAddr) ← connectClient T S r.accept v
    let now := clock v.tick
    pure { v with
      client := client, remAddr := remAddr, start := now, stop := now, tick := v.tick + 1 }
  else pure v

def receive (r : Round) (v : Vars) : Task Vars := do
  Act.emitIf (v.client.isSome = true) (.use .client)
  pure (counted r v)

def measure (S : Setup) (clock : ℕ → ℤ) (v : Vars) : Task Vars :=
  if 5 < v.stop - v.start then
    if throughput (v.stop - v.start) v.numBytesRead < minThroughput then do
      lock T S.hasData v.client.isSome .left
      fault (.crashed .nullDeref)
    else pure { v with numBytesRead := 0, start := clock v.tick, tick := v.tick + 1 }
  else pure v

/-- The handler of the signals, for the one with the number `i` of this pass. The value that it
takes out of the signal is not given back. -/
def onSignal (client : Bool) (pass i num : ℕ) : Task PUnit := do
  Act.emit (.acquire (.signal pass i))
  Act.emit (.use (.signal pass i))
  if num = 3 then terminate T client .left else pure ⟨⟩

/-- The iterations of the context, which hand the signals to the handler. -/
def dispatch (client : Bool) (pass i : ℕ) : List ℕ → Task PUnit
  | [] => pure ⟨⟩
  | num :: signals => do
    onSignal T client pass i num
    dispatch client pass (i + 1) signals

def checkLockStatus (S : Setup) (client : Bool) (pass : ℕ) (signals : List ℕ) : Task PUnit :=
  if S.hasData then do
    Act.emit (.use .dataObj)
    dispatch T client pass 0 signals
  else fault (.crashed .nullDeref)

def finish (S : Setup) (clock : ℕ → ℤ) (r : Round) (v : Vars) : Task Vars := do
  let v := stamped clock v
  Act.emitIf (v.client.isSome = true) (.use .client)
  checkLockStatus T S v.client.isSome v.tick r.signals
  pure v

def onePass (S : Setup) (clock : ℕ → ℤ) (r : Round) (v : Vars) : Task Vars := do
  let v ← connect T S clock r v
  let v ← receive r v
  let v ← measure T S clock v
  finish T S clock r v

/-! ### The start -/

def setLockListener (b : Boot) : Task Setup :=
  match b.listener with
  | .ready => do
    Act.emit (.acquire .dataObj)
    Act.emit (.acquire .proxy)
    Act.emit (.use .proxy)
    Act.emit (.acquire .handler)
    pure ⟨b.cmd.btAddr, decide (0 ≤ b.server), true⟩
  | .noMemory => do
    terminateServer T false
    pure ⟨b.cmd.btAddr, decide (b.server = 0), false⟩
  | .noProxy => do
    Act.emit (.acquire .dataObj)
    Act.emit (.use .dataObj)
    -- `terminate` gives back what is in a field that nobody wrote
    fault (.crashed .uninit)

end

def boot (b : Boot) (session : Bool) : Task Setup := do
  let _ ← ask 0 b.view b.cmd.btAddr
  Act.emitIf (0 ≤ b.server) (.acquire .server)
  Act.emitIf (session = true) (.acquire .session)
  setLockListener ⟨b.server, session⟩ b

def main (b : Boot) (session : Bool) (clock : ℕ → ℤ) (rounds : List Round) : Task Vars := do
  let S ← boot b session
  Act.loop (onePass ⟨b.server, session⟩ S clock) rounds Vars.init

/-! ### Without the resources -/

/-- The two come to the same value, or to the same end. -/
def Erases {α : Type} (x : Task α) (y : Proc α) : Prop := x.result.mapError Exit.toEnd = y.result

section
variable {α β : Type} {x : Task α} {y : Proc α}

lemma erases_pure (a : α) : Erases (pure a) (pure a) := rfl

lemma erases_fault {k : Exit} {e : End} (h : k.toEnd = e) :
    Erases (fault k : Task α) (Act.stop e) :=
  congrArg Except.error h

lemma Erases.bind {f : α → Task β} {g : α → Proc β} (hx : Erases x y)
    (hf : ∀ a, Erases (f a) (g a)) : Erases (x >>= f) (y >>= g) := by
  unfold Erases at hx ⊢
  rcases hres : x.result with k | a
  · rw [hres] at hx
    rw [Act.bind_of_error hres, Act.bind_of_error hx.symm]
    rfl
  · rw [hres] at hx
    rw [Act.bind_of_ok hres, Act.bind_of_ok hx.symm]
    exact hf a

/-- What is acquired, used or released is not seen. -/
lemma erases_bind {z : Task β} {b : β} (hz : z.result = .ok b) {f : β → Task α}
    (h : Erases (f b) y) : Erases (z >>= f) y := by
  unfold Erases at h ⊢
  rw [Act.bind_of_ok hz]
  exact h

/-- What is seen is not acquired, used or released. -/
lemma erases_of_bind {z : Proc β} {b : β} (hz : z.result = .ok b) {g : β → Proc α}
    (h : Erases x (g b)) : Erases x (z >>= g) := by
  unfold Erases at h ⊢
  rw [Act.bind_of_ok hz]
  exact h

lemma erases_loop {ι σ : Type} {f : ι → σ → Task σ} {g : ι → σ → Proc σ}
    (h : ∀ i s, Erases (f i s) (g i s)) (is : List ι) (s : σ) :
    Erases (Act.loop f is s) (Act.loop g is s) := by
  induction is generalizing s with
  | nil => exact erases_pure s
  | cons i is ih => exact (h i s).bind ih

/-- With the null pointer, `lock` comes back. -/
lemma lockUnless_null (ok : Bool) : (Deauth.lockUnless ok false).result = .ok ⟨⟩ := by
  cases ok <;> rfl

end

lemma isTrustedClient_result (v : View) (btAddr dir : Option Str) :
    (isTrustedClient v btAddr dir).result = Deauth.isTrustedClient v btAddr dir := by
  unfold isTrustedClient Deauth.isTrustedClient listed
  rw [Act.bind_result, getPairedDevices_result]
  rcases BtPair.getPairedDevices v.world.pairMem v.world.bus v.stale with e | ⟨paired, numPaired⟩
  · rfl
  rw [ok_bind, Act.bind_result, findTrustedDevices_result, ok_bind]
  rcases BtTrust.findTrustedDevices v.world dir v.login with e | ⟨trusted, numDevices⟩
  · rfl
  simp only [ok_bind, Act.bind_result, freeDeviceList_result, Act.pure_result]
  rcases trusted with _ | t
  · rfl
  simp only [Option.isSome_some, if_true, Act.bind_result, isDevTrusted_result]
  rcases BtMisc.isDevTrusted btAddr paired numPaired with e | isPaired
  · rfl
  cases isPaired
  · rfl
  · simp only [ok_bind, if_true, isDevTrusted_result]
    rfl

lemma erases_ask (call : ℕ) (v : View) (btAddr : Option Str) :
    Erases (ask call v btAddr)
      (Act.call .crashed (Deauth.isTrustedClient v btAddr (some trustedDirPath))) := by
  unfold Erases ask rename
  rw [← isTrustedClient_result]
  rcases (isTrustedClient v btAddr (some trustedDirPath)).result with e | a <;> rfl

variable {T : Sockets} {S : Setup} {clock : ℕ → ℤ} {r : Round} {v : Vars}

@[simp] lemma terminateServer_result (T : Sockets) (client : Bool) :
    (terminateServer T client).result = .ok ⟨⟩ := by
  simp [terminateServer, Act.bind_result]

@[simp] lemma giveBack_result (T : Sockets) (client : Bool) :
    (giveBack T client).result = .ok ⟨⟩ := by
  simp [giveBack, Act.bind_result]

lemma terminate_result (T : Sockets) (client : Bool) (k : Exit) :
    (terminate T client k).result = .error k := by
  simp [terminate, Act.bind_result]

lemma dispatch_result (T : Sockets) (client : Bool) (pass i : ℕ) (signals : List ℕ) :
    (dispatch T client pass i signals).result = if 3 ∈ signals then .error .left else .ok ⟨⟩ := by
  induction signals generalizing i with
  | nil => rfl
  | cons num signals ih =>
    rw [dispatch, Act.bind_result]
    simp only [onSignal, Act.bind_result, Act.emit_result, ok_bind, List.mem_cons]
    by_cases h : num = 3
    · rw [if_pos h, terminate_result, if_pos (.inl h.symm)]
      rfl
    · rw [if_neg h, Act.pure_result, ok_bind, ih]
      simp only [Ne.symm h, false_or]

lemma erases_lock (T : Sockets) (hasData client : Bool) {k : Exit} (hk : k.toEnd = .exited) :
    Erases (lock T hasData client k) (Deauth.lock hasData) := by
  cases hasData
  · rfl
  · refine erases_of_bind (Act.emit_result _) ?_
    unfold Erases lock
    rw [if_pos rfl, terminate_result, if_pos rfl]
    exact congrArg Except.error hk

lemma erases_connect (T : Sockets) (S : Setup) (clock : ℕ → ℤ) (r : Round) (v : Vars) :
    Erases (connect T S clock r v) (Deauth.connect S clock r v) := by
  unfold connect Deauth.connect
  split_ifs
  · refine Erases.bind ?_ fun _ => erases_pure _
    refine erases_bind (Act.emitIf_result _ _) ?_
    refine erases_bind (Act.emitIf_result _ _) (erases_of_bind (Act.emitIf_result _ _) ?_)
    refine (erases_ask _ _ _).bind fun trusted => Erases.bind ?_ fun authorized => ?_
    · cases trusted
      · exact erases_pure _
      · rcases strEq (some ((answered S r.accept).getD v.remAddr)) S.btAddr with e | same <;> rfl
    · refine Erases.bind ?_ fun _ => erases_pure _
      cases authorized
      · exact erases_lock T S.hasData false rfl
      · exact erases_pure _
  · exact erases_pure _

lemma receive_result (r : Round) (v : Vars) : (receive r v).result = .ok (counted r v) := by
  simp [receive, Act.bind_result]

lemma erases_measure (T : Sockets) (S : Setup) (clock : ℕ → ℤ) (v : Vars) :
    Erases (measure T S clock v) (Deauth.measure S clock v) := by
  unfold measure Deauth.measure
  split_ifs
  · refine erases_of_bind (Act.emit_result _) ?_
    exact (erases_lock T S.hasData _ rfl).bind fun _ => erases_fault rfl
  · exact erases_of_bind (Act.emit_result _) (erases_pure _)
  · exact erases_pure _

lemma erases_checkLockStatus (T : Sockets) (S : Setup) (client : Bool) (pass : ℕ)
    (signals : List ℕ) :
    Erases (checkLockStatus T S client pass signals) (Deauth.checkLockStatus S signals) := by
  unfold checkLockStatus Deauth.checkLockStatus
  by_cases hdata : S.hasData = true
  · rw [if_pos hdata, if_pos hdata]
    refine erases_bind (Act.emit_result _) ?_
    unfold Erases
    rw [dispatch_result]
    split_ifs <;> rfl
  · rw [if_neg hdata, if_neg hdata]
    exact erases_fault rfl

lemma erases_onePass (T : Sockets) (S : Setup) (clock : ℕ → ℤ) (r : Round) (v : Vars) :
    Erases (onePass T S clock r v) (Deauth.onePass S clock r v) := by
  refine (erases_connect T S clock r v).bind fun v₁ => ?_
  refine erases_of_bind Deauth.receive_result (erases_bind (receive_result r v₁) ?_)
  refine (erases_measure T S clock _).bind fun v₃ => ?_
  refine erases_bind (Act.emitIf_result _ _) (erases_of_bind (reply_result r _) ?_)
  exact (erases_checkLockStatus T S _ _ r.signals).bind fun _ => erases_pure _

/-- The server with its resources comes to the same variables, or to the same end. -/
theorem erases_main (b : Boot) (session : Bool) (clock : ℕ → ℤ) (rounds : List Round) :
    Erases (main b session clock rounds) (Deauth.main b clock rounds) := by
  have hboot : Erases (boot b session) (Deauth.boot b) := by
    refine erases_of_bind (lockUnless_null _) ?_
    refine (erases_ask 0 b.view _).bind fun trusted => ?_
    refine erases_of_bind (lockUnless_null _) ?_
    refine erases_bind (Act.emitIf_result _ _) (erases_bind (Act.emitIf_result _ _) ?_)
    refine erases_of_bind (Act.emit_result _) ?_
    unfold setLockListener Deauth.setLockListener
    rcases b.listener with _ | _ | _
    · exact erases_bind (terminateServer_result _ _) (erases_pure _)
    · exact erases_bind (Act.emit_result _) (erases_bind (Act.emit_result _) (erases_fault rfl))
    · rfl
  exact hboot.bind fun S => erases_loop (erases_onePass _ S clock) rounds _

/-! ### One call of `is_trusted_client` -/

lemma balances_listed (v : View) (btAddr : Option Str) (paired trusted : Option (List Slot) × ℤ) :
    Balances ∅ (gathered v.world ∅ trusted paired) [] (listed btAddr paired trusted) fun _ =>
      gathered v.world ∅ trusted paired := by
  have hstack : btAddr.isSome = true → ∀ b ∈ (none : Option Block),
      b ∈ gathered v.world ∅ trusted paired := fun _ _ hb => nomatch hb
  unfold listed
  split_ifs
  · refine (balances_isDevTrusted hstack ?_).bind fun isPaired _ => ?_
    · exact Finset.subset_union_left.trans
        (Finset.subset_union_left.trans Finset.subset_union_right)
    · split_ifs
      · exact balances_isDevTrusted hstack Finset.subset_union_left
      · exact Balances.pure rfl
  · exact Balances.pure rfl

/-- Both lists are given back; the references of the query stay. -/
lemma balances_isTrustedClient (v : View) (btAddr dir : Option Str) :
    Balances Set.univ ∅ (lostReply v.world.bus) (isTrustedClient v btAddr dir) fun _ =>
      leakedByQuery v.world.pairMem v.world.bus := by
  have hnone : ∀ b ∈ (∅ : Finset Block), b = .log := fun _ hb => nomatch hb
  have hclosed : false = true → Block.log ∈ (∅ : Finset Block) := by simp
  refine balances_withBoth hnone hclosed v.world v.stale dir v.login fun paired trusted => ?_
  refine ((balances_listed v btAddr paired trusted).consequence (Set.empty_subset _) rfl
    fun _ _ => (Finset.union_empty _).symm).bind fun status _ => ?_
  exact (balances_freeBoth hnone v.world status trusted paired (F := ∅) (fun _ hb => nomatch hb)
    (by simp)).consequence (Set.empty_subset _) rfl fun _ _ => rfl

def ofCall (call : ℕ) : Block ↪ Held := ⟨.list call, fun _ _ h => (Held.list.inj h).2⟩

/-- The references of GLib that a query keeps. -/
def Reference : Block → Prop
  | .child | .dict _ | .connected _ | .trusted _ | .address _ => True
  | _ => False

/-! ### What is held -/

/-- What stays when the process ends. -/
def Stays (T : Sockets) : Held → Prop
  | .list _ b => Reference b
  | .dataObj | .signal _ _ => True
  | .server => T.server = 0
  | _ => False

/-- `terminate` gives the rest back, but for a client that was refused. -/
def Ended (T : Sockets) : Exit → Finset Held → Prop
  | .refused, held => ∀ r ∈ held, Stays T r ∨ r = .client
  | .left, held => ∀ r ∈ held, Stays T r
  | .crashed _, _ => True

/-- A query without a reply gives back the null pointer in its place. -/
def NoReply (op : Op Held) : Prop := ∃ call, op = .release (.list call .reply)

/-- `terminate` gives back GLib's context, and a fault is about what is not there. -/
def lastStray : Exit → List (Op Held)
  | .refused | .left => [.release .context]
  | .crashed _ => [.astray]

/-- While the server runs; the calls so far have numbers up to `tick`, and so do the passes. -/
structure Serves (T : Sockets) (v : Vars) (held : Finset Held) : Prop where
  dataObj : .dataObj ∈ held
  proxy : .proxy ∈ held
  handler : .handler ∈ held
  context : .context ∉ held
  server : .server ∈ held ↔ 0 ≤ T.server
  session : .session ∈ held ↔ T.session = true
  client : .client ∈ held ↔ v.client.isSome = true
  lists : ∀ call b, .list call b ∈ held → call ≤ v.tick ∧ Reference b
  signals : ∀ pass i, .signal pass i ∈ held → pass ≤ v.tick

/-- A piece of the run of a server with these sockets. -/
abbrev Keeps {α : Type} (T : Sockets) (P : Finset Held) (x : Task α) (Q : α → Finset Held → Prop) :
    Prop :=
  Leaves NoReply lastStray P x Q (Ended T)

variable {held P : Finset Held}

/-- A call adds references of its own, and nothing else. -/
def Adds (call : ℕ) (P held : Finset Held) : Prop :=
  P ⊆ held ∧ ∀ r ∈ held, r ∈ P ∨ ∃ b, r = .list call b ∧ Reference b

lemma crashed_of_mapError {k : Exit} {α : Type} {x : Except Fault α}
    (h : x.mapError Exit.crashed = .error k) : ∃ f, k = .crashed f := by
  rcases x with f | a
  · exact ⟨f, (Except.error.inj h).symm⟩
  · cases h

/-- A piece whose only ends are faults. -/
lemma keeps_of_balances {α : Type} {N : Set Held} {L : List (Op Held)} {x : Task α}
    {y : Except Fault α} {R : α → Finset Held} {Q : α → Finset Held → Prop}
    (h : Balances N P L x R) (hx : x.result = y.mapError .crashed) (hL : ∀ op ∈ L, NoReply op)
    (hQ : ∀ a, x.result = .ok a → Q a (R a)) : Keeps T P x Q := by
  refine Leaves.of_balances h hL (fun k hk => ?_) hQ fun k held hk => ?_
  all_goals
    obtain ⟨f, rfl⟩ := crashed_of_mapError (hx.symm.trans hk)
  · rfl
  · trivial

lemma keeps_fault {α : Type} {Q : α → Finset Held → Prop} (f : Fault) :
    Keeps T P (fault (.crashed f)) Q :=
  keeps_of_balances (N := ∅) (R := fun _ => P) (y := .error f) (Balances.fault _) rfl (by simp)
    fun _ ha => nomatch ha

lemma keeps_ask {call : ℕ} (hnew : ∀ b, .list call b ∉ P) (w : View) (btAddr : Option Str) :
    Keeps T P (ask call w btAddr) fun _ held => Adds call P held := by
  have hlost : ∀ op ∈ (lostReply w.world.bus).map (Op.map (ofCall call)),
      op = .release (.list call .reply) := by
    intro op hop
    cases hbus : w.world.bus with
    | callFailed =>
      rw [hbus] at hop
      exact List.mem_singleton.mp hop
    | _ => simp [hbus, lostReply] at hop
  have hcall := ((balances_isTrustedClient w btAddr (some trustedDirPath)).rename (ofCall call)
    Exit.crashed).frame P (fun r hr => ⟨Finset.notMem_empty r, ?_⟩) fun r hr => ⟨?_, ?_⟩
  · rw [Finset.map_empty, Finset.empty_union] at hcall
    refine keeps_of_balances hcall rfl (fun op hop => ⟨call, hlost op hop⟩)
      fun _ _ => ⟨Finset.subset_union_right, fun r hr => ?_⟩
    rcases Finset.mem_union.mp hr with hr | hr
    · obtain ⟨b, hb, rfl⟩ := Finset.mem_map.mp hr
      refine .inr ⟨b, rfl, ?_⟩
      rcases mem_leakedByQuery hb with rfl | ⟨c, rfl | rfl | rfl | rfl⟩ <;> trivial
    · exact .inl hr
  · rintro ⟨b, -, rfl⟩
    exact hnew b hr
  · intro hop
    cases hlost _ hop
  · intro hop
    obtain rfl := Op.release.inj (hlost _ hop)
    exact hnew _ hr

lemma Adds.mem_iff {call : ℕ} (h : Adds call P held) {r : Held} (hr : ∀ b, r ≠ .list call b) :
    r ∈ held ↔ r ∈ P := by
  refine ⟨fun hmem => (h.2 r hmem).resolve_right ?_, fun hmem => h.1 hmem⟩
  rintro ⟨b, rfl, -⟩
  exact hr b rfl

lemma Serves.adds (h : Serves T v P) (hadds : Adds (v.tick + 1) P held) :
    Serves T { v with tick := v.tick + 1 } held where
  dataObj := hadds.1 h.dataObj
  proxy := hadds.1 h.proxy
  handler := hadds.1 h.handler
  context := fun hmem => h.context ((hadds.mem_iff (by simp)).mp hmem)
  server := (hadds.mem_iff (by simp)).trans h.server
  session := (hadds.mem_iff (by simp)).trans h.session
  client := (hadds.mem_iff (by simp)).trans h.client
  lists call b hb := by
    rcases hadds.2 _ hb with hb | ⟨b', heq, href⟩
    · exact ⟨(h.lists call b hb).1.trans (Nat.le_succ _), (h.lists call b hb).2⟩
    · obtain ⟨rfl, rfl⟩ := Held.list.inj heq
      exact ⟨le_rfl, href⟩
  signals pass i hi :=
    (h.signals pass i ((hadds.mem_iff (by simp)).mp hi)).trans (Nat.le_succ _)

/-- Only the client and the clock matter. -/
lemma Serves.congr {v' : Vars} (h : Serves T v P) (hclient : v'.client.isSome = v.client.isSome)
    (htick : v.tick ≤ v'.tick) : Serves T v' P :=
  { h with
    client := by rw [hclient]; exact h.client
    lists := fun call b hb => ⟨(h.lists call b hb).1.trans htick, (h.lists call b hb).2⟩
    signals := fun pass i hi => (h.signals pass i hi).trans htick }

/-! ### One piece after the other -/

/-- What was held and is not released. -/
lemma stays_of_mem (h : Serves T v P) {r : Held} (hr : r ∈ P)
    (hown : r ≠ .handler ∧ r ≠ .proxy) (hserver : 0 < T.server → r ≠ .server)
    (hsession : T.session = true → r ≠ .session) : Stays T r ∨ r = .client := by
  cases r with
  | list call b => exact .inl (h.lists call b hr).2
  | dataObj => exact .inl trivial
  | proxy => exact absurd rfl hown.2
  | handler => exact absurd rfl hown.1
  | context => exact absurd hr h.context
  | server =>
    have hopen : 0 ≤ T.server := h.server.mp hr
    have hzero : ¬ 0 < T.server := fun hpos => hserver hpos rfl
    exact .inl (show T.server = 0 by omega)
  | client => exact .inr rfl
  | session => exact absurd rfl (hsession (h.session.mp hr))
  | signal pass i => exact .inl trivial

/-- What is left of `P` by `giveBack`. -/
def leftOver (T : Sockets) (client : Bool) (P : Finset Held) : Finset Held :=
  P.filter fun r => r ≠ .handler ∧ r ≠ .proxy ∧ (client = true → r ≠ .client) ∧
    (0 < T.server → r ≠ .server) ∧ (T.session = true → r ≠ .session)

lemma balances_giveBack {c : Bool} (h : Serves T v P) (hc : c = true → .client ∈ P) :
    Balances Set.univ P [.release .context] (giveBack T c) fun _ => leftOver T c P := by
  unfold giveBack terminateServer
  refine Balances.andThen (Balances.use h.dataObj) rfl ?_
  refine Balances.andThen (Balances.use h.proxy) rfl ?_
  refine Balances.andThen (Balances.release h.handler) rfl ?_
  refine Balances.andThen (Balances.release (by simp [h.proxy])) rfl ?_
  refine (Balances.missing (by simp [h.context])).bind fun _ _ => ?_
  refine (Balances.releaseIf fun h' => by simp [hc h']).bind fun _ _ => ?_
  refine (Balances.releaseIf fun h' => by simp [mem_eraseIf, h.server.mpr h'.le]).bind
    fun _ _ => ?_
  refine (Balances.releaseIf fun h' => by simp [mem_eraseIf, h.session.mpr h']).consequence
    le_rfl rfl fun _ _ => ?_
  ext r
  simp only [mem_eraseIf, Finset.mem_erase, leftOver, Finset.mem_filter]
  tauto

/-- `terminate` gives back what it finds in the variables. -/
lemma keeps_terminate {c : Bool} {k : Exit} (h : Serves T v P)
    (hk : k = .refused ∧ c = false ∨ k = .left ∧ c = v.client.isSome) :
    Keeps T P (terminate T c k) fun _ _ => False := by
  have hc : c = true → Held.client ∈ P := by
    rintro rfl
    rcases hk with ⟨-, hno⟩ | ⟨-, hsome⟩
    · cases hno
    · exact h.client.mpr hsome.symm
  have hback := balances_giveBack h hc
  have hleft : ∀ r ∈ leftOver T c P, (Stays T r ∨ r = .client) ∧ (c = true → r ≠ .client) := by
    intro r hr
    obtain ⟨hr, hhandler, hproxy, hclient, hserver, hsession⟩ := Finset.mem_filter.mp hr
    exact ⟨stays_of_mem h hr ⟨hhandler, hproxy⟩ hserver hsession, hclient⟩
  rcases hk with ⟨rfl, rfl⟩ | ⟨rfl, rfl⟩
  · exact Leaves.stop_after hback (giveBack_result _ _) fun r hr => (hleft r hr).1
  · refine Leaves.stop_after hback (giveBack_result _ _) fun r hr => ?_
    refine (hleft r hr).1.resolve_right ?_
    rintro rfl
    exact (hleft _ hr).2 (h.client.mp (Finset.mem_filter.mp hr).1) rfl

lemma keeps_lock {c : Bool} {k : Exit} (h : Serves T v P)
    (hk : k = .refused ∧ c = false ∨ k = .left ∧ c = v.client.isSome) :
    Keeps T P (lock T true c k) fun _ _ => False := by
  unfold lock
  rw [if_pos rfl]
  exact keeps_terminate h hk

lemma keeps_lockUnless (ok : Bool) {c : Bool} {k : Exit} (h : Serves T v P)
    (hk : k = .refused ∧ c = false ∨ k = .left ∧ c = v.client.isSome) :
    Keeps T P (lockUnless T ok true c k) fun _ held => held = P := by
  cases ok
  · exact (keeps_lock h hk).consequence (fun _ _ _ hno => hno.elim) fun _ _ hend => hend
  · exact Leaves.pure rfl

lemma keeps_connect (hdata : S.hasData = true) (clock : ℕ → ℤ) (r : Round) (h : Serves T v P) :
    Keeps T P (connect T S clock r v) (Serves T) := by
  unfold connect
  split_ifs with hclient
  · have hnone : Held.client ∉ P := by
      rw [h.client]
      simp [Option.isNone_iff_eq_none.mp hclient]
    unfold connectClient
    simp only [Act.bind_assoc, Act.pure_bind]
    refine Leaves.useIf h.server.mpr (Leaves.acquireIf (fun _ => hnone) ?_)
    -- What is held once the connection is there.
    set client := answered S r.accept with hanswered
    have hopen : Serves T { v with client := client }
        (if client.isSome = true then insert .client P else P) := by
      split_ifs with hsome
      · exact
          { dataObj := Finset.mem_insert_of_mem h.dataObj
            proxy := Finset.mem_insert_of_mem h.proxy
            handler := Finset.mem_insert_of_mem h.handler
            context := by simpa using h.context
            server := by simp [h.server]
            session := by simp [h.session]
            client := iff_of_true (Finset.mem_insert_self _ _) hsome
            lists := fun call b hb => h.lists call b (by simpa using hb)
            signals := fun pass i hi => h.signals pass i (by simpa using hi) }
      · exact { h with client := iff_of_false hnone hsome }
    have hnew : ∀ b, Held.list (v.tick + 1) b ∉
        (if client.isSome = true then insert .client P else P) := by
      intro b hb
      have := (hopen.lists _ b hb).1
      simp at this
    refine (keeps_ask hnew _ _).bind fun trusted held _ hadds => ?_
    have hserves := hopen.adds hadds
    have hcompare : Keeps T held (if trusted = true then
        attempt ((strEq (some (client.getD v.remAddr)) S.btAddr).mapError Exit.crashed)
          else pure false) fun _ held' => held' = held := by
      split_ifs
      · exact keeps_of_balances (N := ∅) (Balances.attempt _) (attempt_result _) (by simp)
          fun _ _ => rfl
      · exact Leaves.pure rfl
    refine hcompare.bind ?_
    rintro authorized _ - rfl
    rw [hdata]
    refine (keeps_lockUnless authorized hserves (.inl ⟨rfl, rfl⟩)).bind ?_
    rintro _ _ - rfl
    exact Leaves.pure (hserves.congr rfl le_rfl)
  · exact Leaves.pure h

lemma keeps_receive (r : Round) (h : Serves T v P) : Keeps T P (receive r v) (Serves T) :=
  Leaves.useIf h.client.mpr (Leaves.pure (h.congr rfl le_rfl))

lemma keeps_measure (hdata : S.hasData = true) (clock : ℕ → ℤ) (h : Serves T v P) :
    Keeps T P (measure T S clock v) (Serves T) := by
  unfold measure
  split_ifs
  · rw [hdata]
    exact (keeps_lock h (.inr ⟨rfl, rfl⟩)).bind fun _ _ _ hno => hno.elim
  · exact Leaves.pure (h.congr rfl (Nat.le_succ _))
  · exact Leaves.pure h

/-- The values of the signals pile up. -/
lemma keeps_dispatch {i : ℕ} (signals : List ℕ) (h : Serves T v P)
    (hnew : ∀ j, i ≤ j → .signal v.tick j ∉ P) :
    Keeps T P (dispatch T v.client.isSome v.tick i signals) fun _ => Serves T v := by
  induction signals generalizing P i with
  | nil => exact Leaves.pure h
  | cons num signals ih =>
    have htaken : Serves T v (insert (.signal v.tick i) P) :=
      { dataObj := Finset.mem_insert_of_mem h.dataObj
        proxy := Finset.mem_insert_of_mem h.proxy
        handler := Finset.mem_insert_of_mem h.handler
        context := by simpa using h.context
        server := by simp [h.server]
        session := by simp [h.session]
        client := by simp [h.client]
        lists := fun call b hb => h.lists call b (by simpa using hb)
        signals := fun pass j hj => by
          rcases Finset.mem_insert.mp hj with heq | hj
          · exact (Held.signal.inj heq).1.le
          · exact h.signals pass j hj }
    have hhandled : Keeps T P (onSignal T v.client.isSome v.tick i num)
        fun _ held => held = insert (.signal v.tick i) P := by
      refine Leaves.acquire (hnew i le_rfl) (Leaves.use (Finset.mem_insert_self _ _) ?_)
      split_ifs
      · exact (keeps_terminate htaken (.inr ⟨rfl, rfl⟩)).consequence
          (fun _ _ _ hno => hno.elim) fun _ _ hend => hend
      · exact Leaves.pure rfl
    refine hhandled.bind ?_
    rintro _ _ - rfl
    refine ih htaken fun j hj hmem => ?_
    rcases Finset.mem_insert.mp hmem with heq | hmem
    · have := (Held.signal.inj heq).2
      omega
    · exact hnew j (by omega) hmem

lemma keeps_finish (hdata : S.hasData = true) (clock : ℕ → ℤ) (r : Round) (h : Serves T v P) :
    Keeps T P (finish T S clock r v) (Serves T) := by
  have hstamped : Serves T (stamped clock v) P := h.congr rfl (Nat.le_succ _)
  have hnew : ∀ j, 0 ≤ j → .signal (stamped clock v).tick j ∉ P := by
    intro j _ hmem
    have hle := h.signals _ j hmem
    have hlt : v.tick < (stamped clock v).tick := Nat.lt_succ_self _
    omega
  unfold finish checkLockStatus
  simp only [hdata, if_true, Act.bind_assoc]
  refine Leaves.useIf h.client.mpr (Leaves.use h.dataObj ?_)
  exact (keeps_dispatch r.signals hstamped hnew).bind fun _ _ _ hserves => Leaves.pure hserves

lemma keeps_onePass (hdata : S.hasData = true) (clock : ℕ → ℤ) (r : Round) (h : Serves T v P) :
    Keeps T P (onePass T S clock r v) (Serves T) := by
  refine (keeps_connect hdata clock r h).bind fun v₁ held₁ _ h₁ => ?_
  refine (keeps_receive r h₁).bind fun v₂ held₂ _ h₂ => ?_
  exact (keeps_measure hdata clock h₂).bind fun v₃ held₃ _ h₃ => keeps_finish hdata clock r h₃

/-- The first call leaves only references of its own. -/
lemma notMem_of_adds (h : Adds 0 ∅ held) {r : Held} (hlist : ∀ b, r ≠ .list 0 b) : r ∉ held := by
  rw [h.mem_iff hlist]
  exact Finset.notMem_empty r

lemma keeps_boot {b : Boot} (hmem : b.listener ≠ .noMemory) (session : Bool) :
    Keeps ⟨b.server, session⟩ ∅ (boot b session)
      fun S held => S.hasData = true ∧ Serves ⟨b.server, session⟩ Vars.init held := by
  refine (keeps_ask (by simp) _ _).bind fun trusted held _ hadds => ?_
  have honly := fun r => notMem_of_adds (r := r) hadds
  refine Leaves.acquireIf (fun _ => honly _ (by simp)) ?_
  refine Leaves.acquireIf (fun _ => by simp [mem_insertIf, honly .session]) ?_
  unfold setLockListener
  rcases hl : b.listener with _ | _ | _
  · exact absurd hl hmem
  · refine Leaves.acquire (by simp [mem_insertIf, honly .dataObj]) ?_
    refine Leaves.use (Finset.mem_insert_self _ _) ?_
    exact keeps_fault .uninit
  · refine Leaves.acquire (by simp [mem_insertIf, honly .dataObj]) ?_
    refine Leaves.acquire (by simp [mem_insertIf, honly .proxy]) ?_
    refine Leaves.use (Finset.mem_insert_self _ _) ?_
    refine Leaves.acquire (by simp [mem_insertIf, honly .handler]) (Leaves.pure ⟨rfl, ?_⟩)
    exact
      { dataObj := by simp
        proxy := by simp
        handler := by simp
        context := by simp [mem_insertIf, honly .context]
        server := by simp [mem_insertIf, honly .server]
        session := by simp [mem_insertIf, honly .session]
        client := by simp [mem_insertIf, honly .client, Vars.init]
        lists := fun call c hc => by
          have hc : Held.list call c ∈ held := by simpa [mem_insertIf] using hc
          rcases hadds.2 _ hc with hc | ⟨_, heq, href⟩
          · simp at hc
          · obtain ⟨rfl, rfl⟩ := Held.list.inj heq
            exact ⟨le_rfl, href⟩
        signals := fun pass i hi => by simp [mem_insertIf, honly (.signal pass i)] at hi }

/-- **What the end of the server gives back.** In every run with memory for `data_obj`, what is used
or released is held, with these exceptions: the reply of a query that got none, GLib's context where
`terminate` gives it back, and what a fault is about. When the process ends through `terminate`,
what is left is `data_obj`, the references of the queries, the values of the signals, a server
socket with the number 0, and a client that was just refused; while it serves, it holds besides
these only what `terminate` gives back. -/
theorem teardown_balances (b : Boot) (session : Bool) (clock : ℕ → ℤ) (rounds : List Round)
    (hmem : b.listener ≠ .noMemory) :
    Leaves NoReply lastStray ∅ (main b session clock rounds) (Serves ⟨b.server, session⟩)
      (Ended ⟨b.server, session⟩) := by
  refine (keeps_boot hmem session).bind fun S held _ ⟨hdata, hserves⟩ => ?_
  exact Leaves.loop (fun r v held h => keeps_onePass hdata clock r h) rounds hserves

/-- The phone is served for one pass, in which the session says that it is locked. -/
def lockedRun : Task Vars :=
  main usualBoot true (fun _ => 0) [{ connection phone with signals := [1, 3] }]

theorem teardown_balances_session :
    (∀ r ∈ after ∅ lockedRun.events, Stays ⟨usualBoot.server, true⟩ r) ∧
      .signal 2 1 ∈ after ∅ lockedRun.events ∧
      strays ∅ lockedRun.events = [.release .context] := by
  have hrun : Leaves NoReply lastStray ∅ lockedRun (Serves ⟨usualBoot.server, true⟩)
      (Ended ⟨usualBoot.server, true⟩) :=
    teardown_balances usualBoot true (fun _ => 0) _ (by decide)
  have hleft : (match lockedRun.result with
      | .error .left => true
      | _ => false) = true := by decide +kernel
  refine ⟨?_, by decide +kernel, by decide +kernel⟩
  rcases hresult : lockedRun.result with (_ | _ | _) | _ <;> rw [hresult] at hleft
  · cases hleft
  · exact hrun.ended _ hresult
  · cases hleft
  · cases hleft

/-- Without that memory, the socket is closed and the first pass uses it. -/
theorem closed_socket_used {b : Boot} {session : Bool} (clock : ℕ → ℤ) {rounds : List Round}
    (hmem : b.listener = .noMemory) (hserver : 0 < b.server) (hrounds : rounds ≠ [])
    (hboot : (boot b session).result = .ok S) :
    .use .server ∈ strays ∅ (main b session clock rounds).events := by
  have hleaves : Keeps ⟨b.server, session⟩ ∅ (boot b session) fun _ held => .server ∉ held := by
    refine (keeps_ask (by simp) _ _).bind fun trusted held _ hadds => ?_
    have honly := fun r => notMem_of_adds (r := r) hadds
    refine Leaves.acquireIf (fun _ => honly _ (by simp)) ?_
    refine Leaves.acquireIf (fun _ => by simp [mem_insertIf, honly .session]) ?_
    unfold setLockListener terminateServer
    rw [hmem]
    simp only [Act.bind_assoc]
    refine Leaves.releaseIf (by simp) ?_
    refine Leaves.releaseIf (fun _ => by simp [mem_insertIf, hserver.le]) ?_
    refine Leaves.releaseIf (fun h => by simp [mem_insertIf, mem_eraseIf, h]) (Leaves.pure ?_)
    simp [mem_eraseIf, hserver]
  have hclosed := hleaves.returned S hboot
  obtain ⟨r, rounds, rfl⟩ := List.exists_cons_of_ne_nil hrounds
  rw [main, Act.bind_of_ok hboot, strays_append, Act.loop_cons]
  -- The first thing that the first pass does is to wait for a connection.
  refine List.mem_append_right _ (strays_bind (strays_bind ?_ _) _)
  rw [connect, if_pos (show Vars.init.client.isNone = true from rfl)]
  refine strays_bind (strays_bind ?_ _) _
  simp [Act.emitIf, hserver.le, strays, Op.Sound, hclosed]

end ProxyAuth.Teardown
