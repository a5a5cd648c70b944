import ProxyAuth.Login

/-!
The de-authentication server (`deauth.c`, `proxy_dbus.c`).

The process starts up and then serves in a loop. What one pass of the loop meets outside of
the program is a `Round`; the readings of `time` come from a clock of their own. A pass
leaves events behind, and comes to new variables or to the end of the process.
-/

namespace ProxyAuth.Deauth

open ProxyAuth.Control ProxyAuth.CString ProxyAuth.BtMisc ProxyAuth.BtPair
open ProxyAuth.BtTrust ProxyAuth.Login

def minThroughput : ℤ := 100
def intMax : ℤ := 2 ^ 31 - 1
def bufSize : ℕ := 1024

/-! ### Who is asking -/

/-- `argv`; the name of the program is always there. -/
structure CmdLine where
  prog : Str
  args : List Str

/-- `argv[1]`, the null pointer when there is none. -/
def CmdLine.btAddr (cmd : CmdLine) : Option Str := cmd.args.head?

def checkArg (cmd : CmdLine) : Bool :=
  match cmd.args with
  | [] => false
  | btAddr :: _ => verifyBtAddr (some btAddr)

/-- What one call of `is_trusted_client` meets: the name `getlogin` returns, and what
`num_of_paired` holds before anything is stored in it. -/
structure View where
  world : World
  login : Option Str
  stale : ℤ

def isTrustedClient (v : View) (btAddr dir : Option Str) : Except Fault Bool := do
  let (paired, numPaired) ← getPairedDevices v.world.pairMem v.world.bus v.stale
  let (trusted, numDevices) ← findTrustedDevices v.world dir v.login
  let status ←
    match trusted with
    | none => pure false
    | some _ => do
      let isPaired ← isDevTrusted btAddr paired numPaired
      if isPaired then isDevTrusted btAddr trusted numDevices else pure false
  freeDeviceList trusted numDevices
  freeDeviceList paired numPaired
  pure status

/-! ### What the process meets and does -/

/-- What a call of `accept` delivers, and what the check right after it meets. -/
structure Accept where
  peer : Option Str
  view : View

/-- What a `read` that returns more than 0 has put in the buffer. -/
structure Chunk where
  bytes : List Byte
  nonempty : bytes ≠ []
  fits : bytes.length ≤ bufSize

/-- What one pass of the loop meets: a connection, if it asks for one; data, unless the read
fails or finds none; whether the client can be written to; and the statuses signalled. -/
structure Round where
  accept : Accept
  read : Option Chunk
  writable : Bool
  signals : List ℕ

/-- The outcomes of `set_lock_listener`. -/
inductive Listener
  | noMemory | noProxy | ready
  deriving DecidableEq

/-- What the start of the process meets; `server` is the number of the socket, or `-1`. -/
structure Boot where
  cmd : CmdLine
  view : View
  server : ℤ
  listener : Listener

/-- What the start leaves to the loop. -/
structure Setup where
  btAddr : Option Str
  serverOpen : Bool
  hasData : Bool

/-- What can be seen from outside, and the marks of a throughput check, of a `strlen` that
leaves its buffer and of a counter that overflows. -/
inductive Event
  | locked
  | listening
  | accepted (peer : Str) (view : View)
  | received (peer : Str) (bytes : List Byte)
  | echoed (peer : Str) (bytes : List Byte)
  | greeted (peer : Str)
  | checked (seconds bytes : ℤ)
  | overrun
  | overflowed

inductive End
  | exited
  | crashed (fault : Fault)
  deriving DecidableEq

/-- The variables of the loop. Of `client` only the peer behind it counts, `none` being the
`-1` of no client; `tick` is the number of readings of `time` so far. -/
structure Vars where
  client : Option Str
  remAddr : Str
  numBytesRead : ℤ
  start : ℤ
  stop : ℤ
  tick : ℕ

def Vars.init : Vars := ⟨none, lit "00:00:00:00:00:00", 0, 0, 0, 0⟩

abbrev Proc := Act Event End

/-! ### The program -/

/-- `lock`, which comes back when there is no `data_obj`. -/
def lock (hasData : Bool) : Proc PUnit := do
  Act.emit .locked
  if hasData then Act.stop .exited else pure ⟨⟩

def lockUnless (ok hasData : Bool) : Proc PUnit := if ok then pure ⟨⟩ else lock hasData

/-- The peer a call of `accept` comes back with; on a closed socket it fails. -/
def answered (S : Setup) (a : Accept) : Option Str := if S.serverOpen then a.peer else none

/-- `connect_client`: the client, and what is then in `rem_addr`. -/
def connectClient (S : Setup) (a : Accept) (remAddr : Str) : Proc (Option Str × Str) := do
  let client := answered S a
  let remAddr := client.getD remAddr
  Act.emitIf client.isSome (.accepted remAddr a.view)
  let trusted ← Act.call .crashed (isTrustedClient a.view (some remAddr) (some trustedDirPath))
  let authorized ←
    (if trusted then Act.call .crashed (strEq (some remAddr) S.btAddr) else pure false)
  lockUnless authorized S.hasData
  pure (client, remAddr)

/-- The first block of the loop. -/
def connect (S : Setup) (clock : ℕ → ℤ) (r : Round) (v : Vars) : Proc Vars :=
  if v.client.isNone then do
    let (client, remAddr) ← connectClient S r.accept v.remAddr
    let now := clock v.tick
    pure { v with
      client := client, remAddr := remAddr, start := now, stop := now, tick := v.tick + 1 }
  else pure v

/-- What the read delivers; without a client it fails. -/
def incoming (r : Round) (v : Vars) : Option Chunk := if v.client.isSome then r.read else none

/-- The counter after `n` more bytes, which are added unless it has reached `INT_MAX`. -/
def addBytes (num : ℤ) (n : ℕ) : ℤ := if num < intMax then wrap32 (num + n) else num

def receive (r : Round) (v : Vars) : Proc Vars :=
  match v.client, incoming r v with
  | some peer, some chunk => do
    Act.emit (.received peer chunk.bytes)
    Act.emitIf (v.numBytesRead < intMax ∧ intMax < v.numBytesRead + chunk.bytes.length) .overflowed
    pure { v with numBytesRead := addBytes v.numBytesRead chunk.bytes.length }
  | _, _ => pure v

/-- `num_bytes_read/(stop-start)`. -/
def throughput (seconds bytes : ℤ) : ℤ := bytes.tdiv seconds

def measure (S : Setup) (clock : ℕ → ℤ) (v : Vars) : Proc Vars :=
  if 5 < v.stop - v.start then do
    Act.emit (.checked (v.stop - v.start) v.numBytesRead)
    if throughput (v.stop - v.start) v.numBytesRead < minThroughput then do
      lock S.hasData
      -- the loop ends, and `terminate` reads a `data_obj` that is not there
      Act.stop (.crashed .nullDeref)
    else pure { v with numBytesRead := 0, start := clock v.tick, tick := v.tick + 1 }
  else pure v

/-- `strlen(buf) < 0`, the third argument of the `write` that echoes. -/
def echoCount (buf : Buf) : ℕ := if ((strlen buf).getD bufSize : ℤ) < 0 then 1 else 0

def echo (r : Round) (peer : Str) : Option Chunk → Proc PUnit
  | none => pure ⟨⟩
  | some chunk => do
    let buf := chunk.bytes ++ List.replicate (bufSize - chunk.bytes.length) 0
    Act.emitIf (strlen buf = none) .overrun
    Act.emitIf r.writable (.echoed peer (buf.take (echoCount buf)))

def reply (r : Round) (v : Vars) : Proc PUnit :=
  match v.client with
  | none => pure ⟨⟩
  | some peer => do
    echo r peer (incoming r v)
    Act.emitIf r.writable (.greeted peer)

/-- `check_lock_status`; the handler ends the process on status 3. -/
def checkLockStatus (S : Setup) (signals : List ℕ) : Proc PUnit :=
  if S.hasData then
    if 3 ∈ signals then Act.stop .exited else pure ⟨⟩
  else Act.stop (.crashed .nullDeref)

/-- The rest of the loop, from the reading of `stop` on. -/
def finish (S : Setup) (clock : ℕ → ℤ) (r : Round) (v : Vars) : Proc Vars := do
  let v := { v with stop := clock v.tick, tick := v.tick + 1 }
  reply r v
  checkLockStatus S r.signals
  pure v

/-- One pass of the loop. -/
def onePass (S : Setup) (clock : ℕ → ℤ) (r : Round) (v : Vars) : Proc Vars := do
  let v ← connect S clock r v
  let v ← receive r v
  let v ← measure S clock v
  finish S clock r v

/-- `set_lock_listener`, and what `main` does without `data_obj`: it closes the sockets, except
that `terminate_server` takes the number 0 for none. -/
def setLockListener (b : Boot) : Proc Setup :=
  match b.listener with
  | .ready => pure ⟨b.cmd.btAddr, decide (0 ≤ b.server), true⟩
  | .noMemory => pure ⟨b.cmd.btAddr, decide (b.server = 0), false⟩
  -- `terminate` reads a `context` that was never stored
  | .noProxy => Act.stop (.crashed .uninit)

/-- `main` before the loop. Neither failed check stops it. -/
def boot (b : Boot) : Proc Setup := do
  lockUnless (checkArg b.cmd) false
  let trusted ← Act.call .crashed (isTrustedClient b.view b.cmd.btAddr (some trustedDirPath))
  lockUnless trusted false
  Act.emit .listening
  setLockListener b

def main (b : Boot) (clock : ℕ → ℤ) (rounds : List Round) : Proc Vars := do
  let S ← boot b
  Act.loop (onePass S clock) rounds Vars.init

/-! ### Who is trusted -/

/-- Every query is answered and finds memory, and the trusted file does not change under
the call. -/
structure Steady (w : World) : Prop where
  mem : ListMem w
  unchanged : Unchanged w
  few : FewDevices w
  reply : ∃ objects, w.bus = .reply objects

/-- The address is in both lists. -/
def Trusted (w : World) (dir user : Option Str) (a : Str) : Prop :=
  a ∈ pairedList w ∧ a ∈ trustedList w dir user

instance (w : World) (dir user : Option Str) (a : Str) : Decidable (Trusted w dir user a) :=
  inferInstanceAs (Decidable (_ ∧ _))

/-- The two scans decide membership in both lists. -/
lemma isTrustedClient_eq {v : View} (h : Steady v.world) (dir : Option Str) (a : Str) :
    isTrustedClient v (some a) dir = .ok (decide (Trusted v.world dir v.login a)) := by
  obtain ⟨objects, hbus⟩ := h.reply
  obtain ⟨pslots, hpair, hp⟩ := getPairedDevices_reply h.mem h.few hbus v.stale
  unfold isTrustedClient
  rcases findTrustedDevices_cases h.mem h.unchanged dir v.login with
    ⟨num, -, hdev, hnone⟩ | ⟨tslots, hdev, ht⟩
  · simp [hpair, hdev, freeLoop_filled hp, Trusted, hnone, freeDeviceList]
  · have hpaired := isDevTrusted_filled a hp
    have htrusted := isDevTrusted_filled a ht
    by_cases hin : a ∈ pairedList v.world
    · simp [hpair, hdev, hpaired, htrusted, hin, freeDeviceList_filled hp,
        freeDeviceList_filled ht, Trusted]
    · simp [hpair, hdev, hpaired, hin, freeDeviceList_filled hp, freeDeviceList_filled ht, Trusted]

/-- Without a trusted file, nobody is trusted, not even the null pointer. -/
lemma isTrustedClient_of_no_file {v : View} (h : Steady v.world) {dir : Option Str}
    (hfile : findTrustedFile v.world.limits v.world.stack v.world.files dir v.login = .ok none)
    (a : Option Str) : isTrustedClient v a dir = .ok false := by
  obtain ⟨objects, hbus⟩ := h.reply
  obtain ⟨pslots, hpair, hp⟩ := getPairedDevices_reply h.mem h.few hbus v.stale
  simp [isTrustedClient, hpair, findTrustedDevices_unopened hfile, freeLoop_filled hp,
    freeDeviceList]

lemma phoneWorld_steady : Steady phoneWorld :=
  ⟨phoneWorld_listMem, phoneWorld_unchanged, phoneWorld_few, _, rfl⟩

/-! ### What each block of a pass does -/

variable {S : Setup} {clock : ℕ → ℤ} {r : Round} {v : Vars}

lemma connect_of_isSome (h : v.client.isSome = true) : connect S clock r v = pure v := by
  unfold connect
  cases hc : v.client with
  | none => simp [hc] at h
  | some p => rfl

/-- A connection shows who was accepted, and the lock when the check fails. -/
lemma connectClient_events (S : Setup) (a : Accept) (remAddr : Str) :
    ∀ e ∈ (connectClient S a remAddr).events, e = .locked ∨
      e = .accepted ((answered S a).getD remAddr) a.view ∧ (answered S a).isSome = true := by
  unfold connectClient
  refine Act.forall_bind_events (fun e he => ?_) fun _ _ => ?_
  · exact .inr (Act.mem_emitIf_events.mp he).symm
  refine Act.forall_bind_events (by simp) fun trusted _ => ?_
  refine Act.forall_bind_events (by split_ifs <;> simp) fun authorized _ => ?_
  refine Act.forall_bind_events ?_ fun _ _ => by simp
  unfold lockUnless lock
  split_ifs <;> simp [Act.mem_bind_events]

lemma setLockListener_events (b : Boot) : (setLockListener b).events = [] := by
  unfold setLockListener
  rcases b.listener with _ | _ | _ <;> rfl

/-- The variables after the read. -/
def counted (r : Round) (v : Vars) : Vars :=
  { v with numBytesRead := match incoming r v with
      | none => v.numBytesRead
      | some chunk => addBytes v.numBytesRead chunk.bytes.length }

lemma receive_result : (receive r v).result = .ok (counted r v) := by
  obtain ⟨_ | p, remAddr, num, start, stop, tick⟩ := v
  · rfl
  · unfold receive counted incoming
    rcases r.read with _ | chunk
    · rfl
    · simp only [Option.isSome_some, if_true]
      rw [Act.bind_of_ok (Act.emit_result _), Act.bind_of_ok (Act.emitIf_result _ _)]
      rfl

/-- Without a client, or with nothing to read, the read does nothing. -/
lemma receive_of_none (h : incoming r v = none) : receive r v = pure v := by
  unfold receive
  rw [h]
  cases v.client <;> rfl

lemma exists_client {chunk : Chunk} (h : incoming r v = some chunk) : ∃ p, v.client = some p := by
  unfold incoming at h
  split_ifs at h with hc
  exact Option.isSome_iff_exists.mp hc

/-- What the read of a chunk leaves in the trace. -/
lemma receive_some_events {p : Str} (hc : v.client = some p) {chunk : Chunk}
    (h : incoming r v = some chunk) :
    (receive r v).events = .received p chunk.bytes ::
      (if v.numBytesRead < intMax ∧ intMax < v.numBytesRead + chunk.bytes.length
        then [.overflowed] else []) := by
  simp only [receive, hc, h]
  rw [Act.bind_of_ok (Act.emit_result _), Act.bind_of_ok (Act.emitIf_result _ _), Act.emitIf]
  split_ifs
  · rfl
  · rfl

/-- The read shows nothing but what the client sent. -/
lemma receive_events : ∀ e ∈ (receive r v).events,
    e = .overflowed ∨ ∃ p bytes, v.client = some p ∧ e = .received p bytes := by
  intro e he
  rcases hin : incoming r v with _ | chunk
  · rw [receive_of_none hin] at he
    simp at he
  · obtain ⟨p, hc⟩ := exists_client hin
    rw [receive_some_events hc hin] at he
    rcases List.mem_cons.mp he with rfl | he
    · exact .inr ⟨p, chunk.bytes, hc, rfl⟩
    · split_ifs at he
      · exact .inl (List.mem_singleton.mp he)
      · cases he

lemma locked_notMem_receive : .locked ∉ (receive r v).events := by
  intro h
  rcases receive_events _ h with h | ⟨p, bytes, -, h⟩
  · cases h
  · cases h

/-- A check is due after more than 5 seconds; it locks, which ends the process, or it opens
a new window. -/
lemma measure_cases (S : Setup) (clock : ℕ → ℤ) (v : Vars) :
    (¬ 5 < v.stop - v.start ∧ measure S clock v = pure v) ∨
      (5 < v.stop - v.start ∧ minThroughput ≤ throughput (v.stop - v.start) v.numBytesRead ∧
        measure S clock v = ⟨[.checked (v.stop - v.start) v.numBytesRead],
          .ok { v with numBytesRead := 0, start := clock v.tick, tick := v.tick + 1 }⟩) ∨
      (5 < v.stop - v.start ∧ throughput (v.stop - v.start) v.numBytesRead < minThroughput ∧
        ∃ k, measure S clock v =
          ⟨[.checked (v.stop - v.start) v.numBytesRead, .locked], .error k⟩) := by
  unfold measure
  split_ifs with hdue hlow
  · refine .inr (.inr ⟨hdue, hlow, ?_⟩)
    cases S.hasData
    · exact ⟨_, rfl⟩
    · exact ⟨_, rfl⟩
  · exact .inr (.inl ⟨hdue, not_lt.mp hlow, rfl⟩)
  · exact .inl ⟨hdue, rfl⟩

lemma measure_events : ∀ e ∈ (measure S clock v).events,
    e = .locked ∨ e = .checked (v.stop - v.start) v.numBytesRead := by
  rcases measure_cases S clock v with ⟨-, hm⟩ | ⟨-, -, hm⟩ | ⟨-, -, k, hm⟩
  · simp [hm]
  · simp [hm]
  · simp [hm]

/-- The check leaves the client alone. -/
lemma measure_client {v' : Vars} (h : (measure S clock v).result = .ok v') :
    v'.client = v.client := by
  rcases measure_cases S clock v with ⟨-, hm⟩ | ⟨-, -, hm⟩ | ⟨-, -, k, hm⟩
  · rw [hm] at h
    cases h
    rfl
  · rw [hm] at h
    cases h
    rfl
  · rw [hm] at h
    cases h

/-- The variables at the end of a pass. -/
def stamped (clock : ℕ → ℤ) (v : Vars) : Vars := { v with stop := clock v.tick, tick := v.tick + 1 }

lemma finish_result {v' : Vars} (h : (finish S clock r v).result = .ok v') :
    v' = stamped clock v := by
  obtain ⟨-, -, h⟩ := Act.bind_result_ok.mp h
  obtain ⟨-, -, h⟩ := Act.bind_result_ok.mp h
  exact (Except.ok.inj h).symm

/-- No length is less than 0. -/
lemma echoCount_eq_zero (buf : Buf) : echoCount buf = 0 := by
  rw [echoCount, if_neg (not_lt.mpr (Int.natCast_nonneg _))]

/-- An echo is empty. -/
lemma echo_events (r : Round) (p : Str) (c : Option Chunk) :
    ∀ e ∈ (echo r p c).events, c.isSome = true ∧ (e = .overrun ∨ e = .echoed p []) := by
  unfold echo
  rcases c with _ | chunk
  · simp
  · refine Act.forall_bind_events (fun e he => ?_) fun _ _ e he => ?_
    · exact ⟨rfl, .inl (Act.mem_emitIf_events.mp he).2⟩
    · rw [echoCount_eq_zero] at he
      exact ⟨rfl, .inr (Act.mem_emitIf_events.mp he).2⟩

lemma echo_result (r : Round) (p : Str) (c : Option Chunk) : (echo r p c).result = .ok ⟨⟩ := by
  unfold echo
  split
  · rfl
  · rw [Act.bind_of_ok (Act.emitIf_result _ _)]
    exact Act.emitIf_result _ _

lemma reply_result (r : Round) (v : Vars) : (reply r v).result = .ok ⟨⟩ := by
  unfold reply
  split
  · rfl
  · rw [Act.bind_of_ok (echo_result r _ _)]
    exact Act.emitIf_result _ _

/-- A pass goes on after its reply unless the lock is signalled. -/
lemma finish_ok (clock : ℕ → ℤ) (v : Vars) (hdata : S.hasData = true) (h : 3 ∉ r.signals) :
    (finish S clock r v).result = .ok (stamped clock v) := by
  have hcheck : checkLockStatus S r.signals = pure ⟨⟩ := by
    rw [checkLockStatus, if_pos hdata, if_neg h]
  refine Act.bind_result_ok.mpr ⟨⟨⟩, reply_result r _, ?_⟩
  rw [hcheck]
  rfl

lemma checkLockStatus_events (S : Setup) (signals : List ℕ) :
    (checkLockStatus S signals).events = [] := by
  unfold checkLockStatus
  split_ifs <;> rfl

/-- The client is greeted, and gets an empty echo of what was read. -/
lemma finish_shows : ∀ e ∈ (finish S clock r v).events, ∃ p, v.client = some p ∧
    (e = .greeted p ∨ (incoming r v).isSome = true ∧ (e = .overrun ∨ e = .echoed p [])) := by
  intro e he
  rcases Act.mem_bind_events.mp he with he | ⟨-, -, he⟩
  · unfold reply at he
    rcases hc : v.client with _ | p
    · simp [hc] at he
    · simp only [hc] at he
      rcases Act.mem_bind_events.mp he with he | ⟨-, -, he⟩
      · have hecho := echo_events r p _ e he
        exact ⟨p, rfl, .inr (by simpa [incoming, hc] using hecho)⟩
      · exact ⟨p, rfl, .inl (Act.mem_emitIf_events.mp he).2⟩
  · rcases Act.mem_bind_events.mp he with he | ⟨-, -, he⟩
    · simp [checkLockStatus_events] at he
    · simp at he

/-- What is sent goes to the client. -/
lemma finish_events : ∀ e ∈ (finish S clock r v).events,
    e = .overrun ∨ ∃ p, v.client = some p ∧ (e = .greeted p ∨ ∃ bytes, e = .echoed p bytes) := by
  intro e he
  obtain ⟨p, hc, rfl | ⟨-, rfl | rfl⟩⟩ := finish_shows e he
  · exact .inr ⟨p, hc, .inl rfl⟩
  · exact .inl rfl
  · exact .inr ⟨p, hc, .inr ⟨[], rfl⟩⟩

lemma locked_notMem_finish : .locked ∉ (finish S clock r v).events := by
  intro h
  rcases finish_events _ h with h | ⟨p, -, h | ⟨bytes, h⟩⟩
  · cases h
  · cases h
  · cases h

end ProxyAuth.Deauth
