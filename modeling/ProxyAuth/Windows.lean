import ProxyAuth.Silence
import ProxyAuth.Counter

/-!
The windows in which the throughput is measured.

A window ends with the pass that makes a check, and the next one begins with the pass after
it. The check comes after the read of its pass and before that of the next, so every byte falls
into the window of the pass that read it. A pass tests the reading of `stop` that the pass before
it has made, and makes a check as soon as that is more than 5 seconds after the window began.
-/

namespace ProxyAuth.Windows

open ProxyAuth.Control ProxyAuth.CString ProxyAuth.BtMisc ProxyAuth.Login ProxyAuth.Deauth
open ProxyAuth.PeerSafety ProxyAuth.Silence ProxyAuth.Counter

/-! ### Bytes and checks of a trace -/

def bytesOf : Event → ℤ
  | .received _ bytes => bytes.length
  | _ => 0

/-- All bytes received in a trace. -/
def received (es : List Event) : ℤ := (es.map bytesOf).sum

variable {n : ℤ} {es es' : List Event}

@[simp] lemma received_nil : received [] = 0 := rfl

@[simp] lemma received_cons (e : Event) : received (e :: es) = bytesOf e + received es := by
  simp [received]

@[simp] lemma received_append : received (es ++ es') = received es + received es' := by
  simp [received]

lemma checks_nil : checks [] = [] := rfl

lemma received_of_quiet (h : ∀ e ∈ es, Quiet e) : received es = 0 := by
  induction es with
  | nil => rfl
  | cons e es ih =>
    have he : bytesOf e = 0 := by
      have := h e List.mem_cons_self
      cases e <;> first | rfl | exact this.elim
    rw [received_cons, he, ih fun e he => h e (List.mem_cons_of_mem _ he), Int.add_zero]

lemma checks_of_quiet (h : ∀ e ∈ es, Quiet e) : checks es = [] := by
  apply List.filterMap_eq_nil_iff.mpr
  intro e he
  have := h e he
  cases e <;> first | rfl | exact this.elim

/-- Fewer than `INT_MAX` bytes are received between two checks. -/
def Few (n : ℤ) (es : List Event) : Prop := ∀ pre, pre <+: es → arrived n pre < intMax

lemma Few.left (h : Few n (es ++ es')) : Few n es :=
  fun pre hpre => h pre (hpre.trans (List.prefix_append es es'))

lemma Few.right (h : Few n (es ++ es')) : Few (arrived n es) es' := by
  intro pre hpre
  rw [← arrived_append]
  exact h _ ((List.prefix_append_right_inj es).mpr hpre)

/-- What holds of the whole trace holds of what came first. -/
lemma Few.of_bind {α β : Type} {x : Proc α} {f : α → Proc β} (h : Few n (x >>= f).events) :
    Few n x.events := by
  rcases hres : x.result with e | a
  · rwa [Act.bind_of_error hres] at h
  · rw [Act.bind_of_ok hres] at h
    exact h.left

/-! ### One pass -/

variable {S : Setup} {clock : ℕ → ℤ} {r : Round} {v : Vars}

/-- The throughput is measured in whole bytes a second, rounded down; this does not change the
answer. -/
lemma throughput_lt_iff {seconds bytes : ℤ} (hs : 0 < seconds) (hb : 0 ≤ bytes) :
    throughput seconds bytes < minThroughput ↔ bytes < 100 * seconds := by
  rw [throughput, Int.tdiv_eq_ediv_of_nonneg hb, Int.ediv_lt_iff_lt_mul hs, minThroughput]

/-- The read counts what it receives. -/
lemma receive_counts (h₀ : 0 ≤ v.numBytesRead) (hfew : Few v.numBytesRead (receive r v).events) :
    checks (receive r v).events = [] ∧
      (counted r v).numBytesRead = v.numBytesRead + received (receive r v).events := by
  rcases hin : incoming r v with _ | chunk
  · rw [receive_of_none hin]
    simp [checks_nil, counted, hin]
  obtain ⟨p, hc⟩ := exists_client hin
  have hevents := receive_some_events hc hin
  have hmax : intMax = 2 ^ 31 - 1 := rfl
  rw [hevents] at hfew ⊢
  have hlt : v.numBytesRead + chunk.bytes.length < intMax :=
    hfew [.received p chunk.bytes] ((List.prefix_cons_inj _).mpr List.nil_prefix)
  rw [if_neg (by omega)]
  refine ⟨rfl, ?_⟩
  simp only [counted, hin, addBytes, if_pos (by omega : v.numBytesRead < intMax)]
  rw [wrap32_of_lt (by omega) (by omega)]
  simp [bytesOf]

/-- A client is there; its window was opened by the reading `o` of the clock, and the latest
reading, `k`, is in `stop`. -/
structure Opened (clock : ℕ → ℤ) (o k : ℕ) (v : Vars) : Prop where
  client : v.client.isSome = true
  start : v.start = clock o
  tick : v.tick = k + 1
  stop : v.stop = clock k

/-- The end of a pass, after the read. -/
def afterRead (S : Setup) (clock : ℕ → ℤ) (r : Round) (v : Vars) : Proc Vars :=
  measure S clock v >>= finish S clock r

lemma pass_eq (S : Setup) (clock : ℕ → ℤ) (r : Round) (v : Vars) :
    onePass S clock r v = connect S clock r v >>= fun v => receive r v >>= afterRead S clock r :=
  rfl

/-- A piece that makes one check: it locks, and ends the process, exactly when the bytes are too
few; otherwise a new window is opened. -/
structure Checks (clock : ℕ → ℤ) (k : ℕ) (seconds bytes : ℤ) (x : Proc Vars) : Prop where
  checks : checks x.events = [(seconds, bytes)]
  calm : 100 * seconds ≤ bytes → .locked ∉ x.events
  locks : bytes < 100 * seconds →
    (∃ pre, x.events = pre ++ [.checked seconds bytes, .locked]) ∧ ∃ e, x.result = .error e
  reopens : ∀ v, x.result = .ok v → v.numBytesRead = 0 ∧ Opened clock (k + 1) (k + 2) v

variable {k o : ℕ} {seconds bytes : ℤ}

/-- A read may come before the check. -/
lemma Checks.bind {y : Proc Vars} {f : Vars → Proc Vars} (hy : y.result = .ok v)
    (hquiet : Silence.checks y.events = []) (hcalm : .locked ∉ y.events)
    (h : Checks clock k seconds bytes (f v)) : Checks clock k seconds bytes (y >>= f) := by
  rw [Act.bind_of_ok hy]
  refine ⟨?_, fun hge hmem => ?_, fun hlt => ?_, h.reopens⟩
  · rw [checks_append, hquiet, h.checks]
    rfl
  · rcases List.mem_append.mp hmem with hmem | hmem
    · exact hcalm hmem
    · exact h.calm hge hmem
  · obtain ⟨⟨pre, hpre⟩, hend⟩ := h.locks hlt
    exact ⟨⟨y.events ++ pre, by rw [hpre, List.append_assoc]⟩, hend⟩

/-- Whatever was before it, the trace ends with the lock exactly when the bytes are too few. -/
lemma Checks.locks_iff {x : Proc Vars} (h : Checks clock k seconds bytes x) (front : List Event) :
    (∃ pre, front ++ x.events = pre ++ [.checked seconds bytes, .locked]) ↔
      bytes < 100 * seconds := by
  constructor
  · rintro ⟨pre, hpre⟩
    by_contra hge
    have hne : x.events ≠ [] := by
      intro hnil
      have := h.checks
      rw [hnil] at this
      cases this
    have hlast : (front ++ x.events).getLast? = some .locked := by rw [hpre]; simp
    rw [List.getLast?_append_of_ne_nil _ hne] at hlast
    exact h.calm (not_lt.mp hge) (List.mem_of_getLast? hlast)
  · intro hlt
    obtain ⟨⟨pre, hpre⟩, -⟩ := h.locks hlt
    exact ⟨front ++ pre, by rw [hpre, List.append_assoc]⟩

/-- After the read, either no check is due or one is made. -/
lemma afterRead_cases (S : Setup) (clock : ℕ → ℤ) (r : Round) (h₀ : 0 ≤ v.numBytesRead) :
    (¬ 5 < v.stop - v.start ∧ checks (afterRead S clock r v).events = [] ∧
        received (afterRead S clock r v).events = 0 ∧
        ∀ v', (afterRead S clock r v).result = .ok v' → v' = stamped clock v) ∨
      (5 < v.stop - v.start ∧ received (afterRead S clock r v).events = 0 ∧
        ∀ k, v.client.isSome = true → v.tick = k + 1 →
          Checks clock k (v.stop - v.start) v.numBytesRead (afterRead S clock r v)) := by
  unfold afterRead
  rcases measure_cases S clock v with ⟨hdue, hm⟩ | ⟨hdue, hpass, hm⟩ | ⟨hdue, hlow, e, hm⟩
  · rw [hm, Act.pure_bind]
    exact .inl ⟨hdue, checks_finish, received_of_quiet finish_quiet, fun v' => finish_result⟩
  · have hok : (measure S clock v).result = .ok (reopened clock v) := by rw [hm]; rfl
    have hge : ¬ v.numBytesRead < 100 * (v.stop - v.start) :=
      (throughput_lt_iff (by omega) h₀).not.mp (not_lt.mpr hpass)
    rw [Act.bind_of_ok hok, hm]
    refine .inr ⟨hdue, ?_, fun k hc htick => ⟨?_, fun _ hmem => ?_, fun hlt => absurd hlt hge, ?_⟩⟩
    · simp [received_of_quiet finish_quiet, bytesOf]
    · rw [checks_append, checks_finish]
      rfl
    · rcases List.mem_append.mp hmem with hmem | hmem
      · simp at hmem
      · exact locked_notMem_finish hmem
    · intro v' hv'
      rw [finish_result hv']
      refine ⟨rfl, hc, ?_, ?_, ?_⟩
      · exact congrArg clock htick
      · change v.tick + 1 + 1 = k + 2 + 1
        omega
      · exact congrArg (fun n => clock (n + 1)) htick
  · have herr : (measure S clock v).result = .error e := by rw [hm]
    have hlt : v.numBytesRead < 100 * (v.stop - v.start) :=
      (throughput_lt_iff (by omega) h₀).mp hlow
    rw [Act.bind_of_error herr, hm]
    exact .inr ⟨hdue, by simp [bytesOf], fun k _ _ => ⟨rfl, fun hge => absurd hlt (not_lt.mpr hge),
      fun _ => ⟨⟨[], rfl⟩, e, rfl⟩, (fun v' hv' => nomatch hv')⟩⟩

lemma received_nonneg (es : List Event) : 0 ≤ received es := by
  induction es with
  | nil => exact le_rfl
  | cons e es ih =>
    have he : 0 ≤ bytesOf e := by
      cases e <;> first | exact le_rfl | exact Int.natCast_nonneg _
    rw [received_cons]
    exact Int.add_nonneg he ih

/-- A pass with a client adds to its window, and closes it if that is more than 5 seconds long. -/
lemma pass_served (r : Round) (ho : Opened clock o k v) (h₀ : 0 ≤ v.numBytesRead)
    (hfew : Few v.numBytesRead (onePass S clock r v).events) :
    (clock k - clock o ≤ 5 ∧ checks (onePass S clock r v).events = [] ∧
        ∀ v', (onePass S clock r v).result = .ok v' → Opened clock o (k + 1) v' ∧
          v'.numBytesRead = v.numBytesRead + received (onePass S clock r v).events) ∨
      (5 < clock k - clock o ∧ Checks clock k (clock k - clock o)
        (v.numBytesRead + received (onePass S clock r v).events) (onePass S clock r v)) := by
  have hok : (receive r v).result = .ok (counted r v) := receive_result
  have hlength : (counted r v).stop - (counted r v).start = clock k - clock o := by
    change v.stop - v.start = _
    rw [ho.stop, ho.start]
  rw [pass_eq, connect_of_isSome ho.client, Act.pure_bind] at hfew ⊢
  have hevents : (receive r v >>= afterRead S clock r).events =
      (receive r v).events ++ (afterRead S clock r (counted r v)).events := by
    rw [Act.bind_of_ok hok]
  rw [hevents] at hfew
  obtain ⟨hquiet, hnum⟩ := receive_counts h₀ hfew.left
  have hnonneg : 0 ≤ (counted r v).numBytesRead := by
    have := received_nonneg (receive r v).events
    omega
  rcases afterRead_cases S clock r hnonneg with ⟨hdue, hnone, hzero, hnext⟩ | ⟨hdue, hzero, hcheck⟩
  · refine .inl ⟨by omega, ?_, fun v' hv' => ?_⟩
    · rw [hevents, checks_append, hquiet, hnone]
      rfl
    · obtain ⟨v₁, h₁, hv'⟩ := Act.bind_result_ok.mp hv'
      obtain rfl : counted r v = v₁ := Except.ok.inj (hok.symm.trans h₁)
      rw [hnext v' hv', hevents, received_append, hzero, Int.add_zero]
      exact ⟨⟨ho.client, ho.start, congrArg (· + 1) ho.tick, congrArg clock ho.tick⟩, hnum⟩
  · have hcheck := hcheck k ho.client ho.tick
    rw [hlength] at hdue hcheck
    refine .inr ⟨hdue, ?_⟩
    rw [hevents, received_append, hzero, Int.add_zero, ← hnum]
    exact Checks.bind hok hquiet locked_notMem_receive hcheck

/-- A pass without a client makes no check, and reads the clock twice; if it comes to have one, the
first of these readings opens its window. -/
lemma pass_unserved (r : Round) (hc : v.client = none) (h₀ : 0 ≤ v.numBytesRead)
    (hfew : Few v.numBytesRead (onePass S clock r v).events) :
    checks (onePass S clock r v).events = [] ∧
      ∀ v', (onePass S clock r v).result = .ok v' →
        (v'.client.isSome = true → Opened clock v.tick (v.tick + 1) v') ∧
          v'.numBytesRead = v.numBytesRead + received (onePass S clock r v).events ∧
          v'.tick = v.tick + 2 := by
  obtain ⟨hquiet, hnew⟩ := connect_new S clock r hc
  rw [pass_eq] at hfew ⊢
  rcases hres : (connect S clock r v).result with e | v₁
  · rw [Act.bind_of_error hres]
    exact ⟨checks_of_quiet hquiet, (fun v' hv' => nomatch hv')⟩
  obtain ⟨hnum₁, hstart, hstop, htick⟩ := hnew v₁ hres
  have hok : (receive r v₁).result = .ok (counted r v₁) := receive_result
  have heq : connect S clock r v >>= (fun v => receive r v >>= afterRead S clock r) =
      ⟨(connect S clock r v).events ++ ((receive r v₁).events ++
        (afterRead S clock r (counted r v₁)).events),
        (afterRead S clock r (counted r v₁)).result⟩ := by
    rw [Act.bind_of_ok hres, Act.bind_of_ok hok]
  rw [heq] at hfew ⊢
  have hfew₁ := hfew.right
  rw [arrived_of_quiet hquiet, ← hnum₁] at hfew₁
  obtain ⟨hreads, hnum⟩ := receive_counts (hnum₁ ▸ h₀) hfew₁.left
  have hnonneg : 0 ≤ (counted r v₁).numBytesRead := by
    have := received_nonneg (receive r v₁).events
    omega
  rcases afterRead_cases S clock r hnonneg with ⟨-, hnone, hzero, hnext⟩ | ⟨hdue, -⟩
  · refine ⟨?_, fun v' hv' => ?_⟩
    · rw [checks_append, checks_append, checks_of_quiet hquiet, hreads, hnone]
      rfl
    · rw [hnext v' hv', received_append, received_append, received_of_quiet hquiet, hzero,
        Int.zero_add, Int.add_zero, ← hnum₁]
      refine ⟨fun hsome => ⟨hsome, hstart, ?_, congrArg clock htick⟩, hnum, ?_⟩
      · exact congrArg (· + 1) htick
      · exact congrArg (· + 1) htick
  · change 5 < v₁.stop - v₁.start at hdue
    rw [hstart, hstop] at hdue
    omega

lemma received_of_calm (h : ∀ e ∈ es, Calm e) : received es = 0 := by
  induction es with
  | nil => rfl
  | cons e es ih =>
    have he : bytesOf e = 0 := by
      have hnone := (h e List.mem_cons_self).1
      cases e <;> first | rfl | cases hnone
    rw [received_cons, he, ih fun e he => h e (List.mem_cons_of_mem _ he), Int.add_zero]

/-- Nobody connects in the pass, and nothing is received or checked. -/
structure Waits (es : List Event) : Prop where
  accepts : ∀ e ∈ es, isAccepted e = false
  received : received es = 0
  checks : checks es = []

lemma pass_waits (hc : v.client = none) (ha : answered S r.accept = none)
    (h₀ : 0 ≤ v.numBytesRead) (hfew : Few v.numBytesRead (onePass S clock r v).events) :
    Waits (onePass S clock r v).events ∧ ∀ v', (onePass S clock r v).result = .ok v' →
      v'.client = none ∧ v'.numBytesRead = v.numBytesRead ∧ v'.tick = v.tick + 2 := by
  obtain ⟨hcalm, hclient⟩ := pass_failed (r := r) clock hc ha
  obtain ⟨hchecks, hnext⟩ := pass_unserved r hc h₀ hfew
  have hzero := received_of_calm hcalm
  refine ⟨⟨fun e he => (hcalm e he).2, hzero, hchecks⟩, fun v' hv' => ?_⟩
  obtain ⟨-, hnum, htick⟩ := hnext v' hv'
  exact ⟨hclient v' hv', by omega, htick⟩

/-- A connection is what its pass shows first. -/
lemma pass_accepts {p : Str} (hc : v.client = none) (ha : answered S r.accept = some p) :
    (∃ es, (onePass S clock r v).events = .accepted p r.accept.view :: es) ∧
      ∀ v', (onePass S clock r v).result = .ok v' → v'.client = some p := by
  have hconnect : ∃ f : PUnit → Proc Vars,
      connect S clock r v = (Act.emit (.accepted p r.accept.view) >>= f) ∧
        ∀ v₁, (f ⟨⟩).result = .ok v₁ → v₁.client = some p := by
    rw [connect_of_none hc]
    simp only [connectClient, ha, Option.getD_some, Act.bind_assoc, Act.emitIf,
      Option.isSome_some, if_true]
    refine ⟨_, rfl, fun v₁ h₁ => ?_⟩
    obtain ⟨_, -, h₁⟩ := Act.bind_result_ok.mp h₁
    obtain ⟨_, -, h₁⟩ := Act.bind_result_ok.mp h₁
    obtain ⟨_, -, h₁⟩ := Act.bind_result_ok.mp h₁
    rw [Act.pure_bind] at h₁
    rw [← Except.ok.inj h₁]
  obtain ⟨f, hconnect, hclient⟩ := hconnect
  rw [pass_eq, hconnect, Act.bind_assoc, Act.bind_of_ok rfl]
  refine ⟨⟨_, rfl⟩, fun v' hv' => ?_⟩
  obtain ⟨v₁, h₁, hv'⟩ := Act.bind_result_ok.mp hv'
  rw [(served_after_connect v₁).2 v' hv']
  exact hclient v₁ h₁

/-- Where fewer than `INT_MAX` bytes come in between two checks, no read goes past it. -/
lemma unbroken_of_few (h : Few n es) : Unbroken n es := by
  induction es generalizing n with
  | nil => trivial
  | cons e es ih =>
    refine ⟨fun p bytes he _ => ?_, ih fun pre hpre => h (e :: pre) ?_⟩
    · have := h [e] ((List.prefix_cons_inj _).mpr List.nil_prefix)
      rw [he] at this
      exact this.le
    · exact (List.prefix_cons_inj _).mpr hpre

/-- The counter after a pass is what came in since the last check. -/
lemma pass_num {v' : Vars} (h₀ : 0 ≤ v.numBytesRead)
    (hfew : Few v.numBytesRead (onePass S clock r v).events)
    (hv' : (onePass S clock r v).result = .ok v') :
    v'.numBytesRead = arrived v.numBytesRead (onePass S clock r v).events := by
  have hlt : v.numBytesRead < intMax := hfew [] List.nil_prefix
  have htracks : Tracks v.numBytesRead v := ⟨h₀, (min_eq_left hlt.le).symm⟩
  have hnext := (counts_pass htracks).next (unbroken_of_few hfew) v' hv'
  rw [hnext.num, min_eq_left (hfew _ List.prefix_rfl).le]

lemma few_rest {v' : Vars} {rounds : List Round} (h₀ : 0 ≤ v.numBytesRead)
    (hres : (onePass S clock r v).result = .ok v')
    (hfew : Few v.numBytesRead
      (onePass S clock r v >>= Act.loop (onePass S clock) rounds).events) :
    Few v'.numBytesRead (Act.loop (onePass S clock) rounds v').events := by
  rw [pass_num h₀ hfew.of_bind hres]
  rw [Act.bind_of_ok hres] at hfew
  exact hfew.right

/-! ### Windows -/

/-- The traces of the passes of a run. -/
def traces (S : Setup) (clock : ℕ → ℤ) : List Round → Vars → List (List Event)
  | [], _ => []
  | r :: rounds, v =>
    (onePass S clock r v).events :: match (onePass S clock r v).result with
      | .ok v' => traces S clock rounds v'
      | .error _ => []

lemma traces_flatten (S : Setup) (clock : ℕ → ℤ) (rounds : List Round) (v : Vars) :
    (traces S clock rounds v).flatten = (Act.loop (onePass S clock) rounds v).events := by
  induction rounds generalizing v with
  | nil => rfl
  | cons r rounds ih =>
    rw [traces, List.flatten_cons, Act.loop_cons]
    rcases hres : (onePass S clock r v).result with e | v'
    · rw [Act.bind_of_error hres, List.flatten_nil, List.append_nil]
    · rw [Act.bind_of_ok hres, ih]

/-- Consecutive passes, of which only the last, `final`, makes a check. The window is opened by the
reading `opened` of the clock; the first of its passes tests the reading `first`, and each pass
after it the next one. The check is made by the first pass that finds more than 5 seconds, and
counts all that came in. -/
structure Window (clock : ℕ → ℤ) where
  front : List (List Event)
  final : List Event
  opened : ℕ
  first : ℕ
  bytes : ℤ
  quiet : checks front.flatten = []
  early : ∀ i < front.length, clock (first + i) - clock opened ≤ 5
  due : 5 < clock (first + front.length) - clock opened
  check : checks final = [(clock (first + front.length) - clock opened, bytes)]
  counted : received front.flatten + received final = bytes

namespace Window

def passes (w : Window clock) : List (List Event) := w.front ++ [w.final]

/-- The reading that is tested when the window ends. -/
def closed (w : Window clock) : ℕ := w.first + w.front.length

/-- `stop - start` when the window ends. -/
def length (w : Window clock) : ℤ := clock w.closed - clock w.opened

/-- The check locks the screen, and nothing comes after it. -/
def Locks (w : Window clock) : Prop :=
  ∃ pre, w.passes.flatten = pre ++ [.checked w.length w.bytes, .locked]

lemma passes_flatten (w : Window clock) : w.passes.flatten = w.front.flatten ++ w.final := by
  simp [passes]

lemma checks_passes (w : Window clock) : checks w.passes.flatten = [(w.length, w.bytes)] := by
  rw [passes_flatten, checks_append, w.quiet, w.check]
  rfl

lemma received_passes (w : Window clock) : received w.passes.flatten = w.bytes := by
  rw [passes_flatten, received_append, w.counted]

end Window

/-- Each window is opened by the reading of the clock after the one that the last window ended
with, and no pass that comes after the last window has a check to make. -/
def Chained : ℕ → ℕ → List (Window clock) → List (List Event) → Prop
  | o, k, [], last => ∀ i < last.length, clock (k + i) - clock o ≤ 5
  | o, k, w :: ws, last =>
    w.opened = o ∧ w.first = k ∧ Chained (w.closed + 1) (w.closed + 2) ws last

/-- The passes with a client, split into the windows `ws` and what was done since the last of
them; a window ends with a lock exactly when its bytes are fewer than 100 a second, and the run
with it. -/
structure Accounts (o k : ℕ) (ws : List (Window clock)) (last passes : List (List Event))
    (ended : Prop) : Prop where
  split : passes = ws.flatMap Window.passes ++ last
  open_checks : checks last.flatten = []
  chained : Chained o k ws last
  locks_iff : ∀ w ∈ ws, w.Locks ↔ w.bytes < 100 * w.length
  ends : ∀ pre w post, ws = pre ++ w :: post → w.Locks → post = [] ∧ last = [] ∧ ended

variable {front : List (List Event)} {ended : Prop}

/-- A run whose window is still open. -/
lemma Accounts.of_open {last : List (List Event)} (h : checks last.flatten = [])
    (hearly : ∀ i < last.length, clock (k + i) - clock o ≤ 5) :
    Accounts o k ([] : List (Window clock)) last last ended where
  split := rfl
  open_checks := h
  chained := hearly
  locks_iff w hw := absurd hw List.not_mem_nil
  ends pre w post hsplit := absurd hsplit (by simp)

/-- What a window has when its last pass begins. -/
structure Open (clock : ℕ → ℤ) (o k : ℕ) (front : List (List Event)) : Prop where
  quiet : checks front.flatten = []
  early : ∀ i < front.length, clock (k + i) - clock o ≤ 5

lemma Open.snoc (h : Open clock o k front) {pass : List Event} (hquiet : checks pass = [])
    (hearly : clock (k + front.length) - clock o ≤ 5) : Open clock o k (front ++ [pass]) where
  quiet := by simp [checks_append, h.quiet, hquiet]
  early i hi := by
    rw [List.length_append, List.length_singleton] at hi
    rcases Nat.lt_succ_iff_lt_or_eq.mp hi with hlt | rfl
    · exact h.early i hlt
    · exact hearly

lemma open_nil (o k : ℕ) : Open clock o k [] := ⟨rfl, by simp⟩

lemma Open.accounts (h : Open clock o k front) :
    Accounts o k ([] : List (Window clock)) front front ended :=
  .of_open h.quiet h.early

/-- A window that a pass closes. -/
def Open.close {x : Proc Vars} (h : Open clock o k front)
    (hdue : 5 < clock (k + front.length) - clock o)
    (hbytes : received front.flatten + received x.events = bytes)
    (hcheck : Checks clock (k + front.length) (clock (k + front.length) - clock o) bytes x) :
    Window clock where
  front := front
  final := x.events
  opened := o
  first := k
  bytes := bytes
  quiet := h.quiet
  early := h.early
  due := hdue
  check := hcheck.checks
  counted := hbytes

lemma Open.close_locks {x : Proc Vars} (h : Open clock o k front)
    (hdue : 5 < clock (k + front.length) - clock o)
    (hbytes : received front.flatten + received x.events = bytes)
    (hcheck : Checks clock (k + front.length) (clock (k + front.length) - clock o) bytes x) :
    (h.close hdue hbytes hcheck).Locks ↔
      bytes < 100 * (clock (k + front.length) - clock o) := by
  rw [Window.Locks, Window.passes_flatten]
  exact hcheck.locks_iff front.flatten

/-- A closed window, before what comes after it. -/
lemma Accounts.cons {x : Proc Vars} (h : Open clock o k front)
    (hdue : 5 < clock (k + front.length) - clock o)
    (hbytes : received front.flatten + received x.events = bytes)
    (hcheck : Checks clock (k + front.length) (clock (k + front.length) - clock o) bytes x)
    {ws : List (Window clock)} {last passes : List (List Event)}
    (hends : bytes < 100 * (clock (k + front.length) - clock o) → ws = [] ∧ last = [] ∧ ended)
    (hrest : Accounts (k + front.length + 1) (k + front.length + 2) ws last passes ended) :
    Accounts o k (h.close hdue hbytes hcheck :: ws) last (front ++ x.events :: passes) ended := by
  have hlocks := h.close_locks hdue hbytes hcheck
  refine ⟨?_, hrest.open_checks, ⟨rfl, rfl, hrest.chained⟩, ?_, ?_⟩
  · rw [hrest.split]
    simp [Open.close, Window.passes]
  · intro w hw
    rcases List.mem_cons.mp hw with rfl | hw
    · exact hlocks
    · exact hrest.locks_iff w hw
  · intro pre w post hsplit hlock
    rcases pre with _ | ⟨w', pre⟩
    · obtain ⟨rfl, rfl⟩ := List.cons.inj hsplit
      exact hends (hlocks.mp hlock)
    · obtain ⟨-, hsplit⟩ := List.cons.inj hsplit
      exact hrest.ends pre w post hsplit hlock

/-- A run with a client, from inside a window on. -/
lemma accounts_served (S : Setup) (rounds : List Round) (front : List (List Event))
    (ho : Opened clock o (k + front.length) v) (h₀ : 0 ≤ v.numBytesRead)
    (hopen : Open clock o k front) (hbytes : received front.flatten = v.numBytesRead)
    (hfew : Few v.numBytesRead (Act.loop (onePass S clock) rounds v).events) :
    ∃ (ws : List (Window clock)) (last : List (List Event)),
      Accounts o k ws last (front ++ traces S clock rounds v)
        (∃ e, (Act.loop (onePass S clock) rounds v).result = .error e) := by
  induction rounds generalizing v o k front with
  | nil => exact ⟨[], front, by simpa [traces] using hopen.accounts⟩
  | cons r rounds ih =>
    rw [Act.loop_cons] at hfew ⊢
    rw [traces]
    have hpass := hfew.of_bind
    rcases pass_served r ho h₀ hpass with ⟨hearly, hnone, hnext⟩ | ⟨hdue, hcheck⟩
    · have hopen' := hopen.snoc hnone hearly
      rcases hres : (onePass S clock r v).result with e | v'
      · exact ⟨[], _, hopen'.accounts⟩
      · obtain ⟨ho', hnum⟩ := hnext v' hres
        have hrest := few_rest h₀ hres hfew
        rw [Act.bind_of_ok hres]
        have hbytes' : received (front ++ [(onePass S clock r v).events]).flatten =
            v'.numBytesRead := by
          simp [hbytes, hnum]
        have hcount : k + front.length + 1 =
            k + (front ++ [(onePass S clock r v).events]).length := by
          rw [List.length_append, List.length_singleton]
          omega
        have hih := ih _ (hcount ▸ ho') (hbytes' ▸ received_nonneg _) hopen' hbytes' hrest
        rwa [List.append_assoc] at hih
    · have hsum : received front.flatten + received (onePass S clock r v).events =
          v.numBytesRead + received (onePass S clock r v).events := by rw [hbytes]
      rcases hres : (onePass S clock r v).result with e | v'
      · rw [Act.bind_of_error hres]
        exact ⟨_, [], .cons hopen hdue hsum hcheck (fun _ => ⟨rfl, rfl, e, rfl⟩)
          (open_nil _ _).accounts⟩
      · obtain ⟨hzero, ho'⟩ := hcheck.reopens v' hres
        have hrest := few_rest h₀ hres hfew
        rw [Act.bind_of_ok hres]
        obtain ⟨ws, last, hws⟩ := ih [] ho' hzero.ge (open_nil _ _) hzero.symm hrest
        refine ⟨_, last, .cons hopen hdue hsum hcheck (fun hlt => ?_) hws⟩
        obtain ⟨-, e, he⟩ := hcheck.locks hlt
        rw [hres] at he
        cases he

/-- A run: passes in which nobody connects, each of which reads the clock twice, and from the pass
with the first connection on the windows, the first of which is opened when it connects. -/
structure Divides (S : Setup) (clock : ℕ → ℤ) (rounds : List Round) (v : Vars)
    (waiting served : List (List Event)) (ws : List (Window clock)) (last : List (List Event)) :
    Prop where
  passes : traces S clock rounds v = waiting ++ served
  trace : (waiting ++ served).flatten = (Act.loop (onePass S clock) rounds v).events
  waits : ∀ pass ∈ waiting, Waits pass
  begins : ∀ pass rest, served = pass :: rest → ∃ p view es, pass = .accepted p view :: es
  accounts : Accounts (v.tick + 2 * waiting.length) (v.tick + 2 * waiting.length) ws last served
    (∃ e, (Act.loop (onePass S clock) rounds v).result = .error e)

/-- A run that begins without a client. -/
lemma divides_unserved (S : Setup) (rounds : List Round) (hc : v.client = none)
    (h₀ : v.numBytesRead = 0)
    (hfew : Few v.numBytesRead (Act.loop (onePass S clock) rounds v).events) :
    ∃ (waiting served : List (List Event)) (ws : List (Window clock)) (last : List (List Event)),
      Divides S clock rounds v waiting served ws last := by
  suffices h : ∃ (waiting served : List (List Event)) (ws : List (Window clock))
      (last : List (List Event)), traces S clock rounds v = waiting ++ served ∧
      (∀ pass ∈ waiting, Waits pass) ∧
      (∀ pass rest, served = pass :: rest → ∃ p view es, pass = .accepted p view :: es) ∧
      Accounts (v.tick + 2 * waiting.length) (v.tick + 2 * waiting.length) ws last served
        (∃ e, (Act.loop (onePass S clock) rounds v).result = .error e) by
    obtain ⟨waiting, served, ws, last, hpasses, hwaits, hbegins, haccounts⟩ := h
    exact ⟨waiting, served, ws, last, hpasses, hpasses ▸ traces_flatten S clock rounds v, hwaits,
      hbegins, haccounts⟩
  induction rounds generalizing v with
  | nil => exact ⟨[], [], [], [], rfl, by simp, by simp, (open_nil _ _).accounts⟩
  | cons r rounds ih =>
    rw [Act.loop_cons] at hfew ⊢
    rw [traces]
    have hpass := hfew.of_bind
    rcases ha : answered S r.accept with _ | p
    · -- nobody connects
      obtain ⟨hwaits, hnext⟩ := pass_waits hc ha h₀.ge hpass
      rcases hres : (onePass S clock r v).result with e | v'
      · refine ⟨[_], [], [], [], rfl, ?_, by simp, (open_nil _ _).accounts⟩
        exact fun pass hmem => List.mem_singleton.mp hmem ▸ hwaits
      · obtain ⟨hc', hnum, htick⟩ := hnext v' hres
        have hrest := few_rest h₀.ge hres hfew
        obtain ⟨waiting, served, ws, last, hpasses, hall, hbegins, haccounts⟩ :=
          ih hc' (hnum.trans h₀) hrest
        rw [Act.bind_of_ok hres]
        refine ⟨_ :: waiting, served, ws, last, congrArg (_ :: ·) hpasses, ?_, hbegins, ?_⟩
        · exact List.forall_mem_cons.mpr ⟨hwaits, hall⟩
        · have hcount : v'.tick + 2 * waiting.length =
              v.tick + 2 * ((onePass S clock r v).events :: waiting).length := by
            rw [List.length_cons, htick]
            omega
          rwa [← hcount]
    · -- the first window begins
      have haccepts : (∃ es, (onePass S clock r v).events = .accepted p r.accept.view :: es) ∧ _ :=
        pass_accepts hc ha
      obtain ⟨⟨es, hes⟩, hclient⟩ := haccepts
      obtain ⟨hnone, hnext⟩ := pass_unserved r hc h₀.ge hpass
      have hopen : Open clock v.tick v.tick [(onePass S clock r v).events] := by
        refine (open_nil v.tick v.tick).snoc hnone ?_
        change clock v.tick - clock v.tick ≤ 5
        omega
      have hbegins : ∀ pass rest tail, (onePass S clock r v).events :: tail = pass :: rest →
          ∃ p view es, pass = .accepted p view :: es := by
        intro pass rest tail heq
        exact ⟨_, _, _, (List.cons.inj heq).1.symm.trans hes⟩
      rcases hres : (onePass S clock r v).result with e | v'
      · exact ⟨[], _, [], _, rfl, by simp, fun pass rest => hbegins pass rest _, hopen.accounts⟩
      · obtain ⟨hopened, hnum, -⟩ := hnext v' hres
        have hrest := few_rest h₀.ge hres hfew
        have hbytes : received [(onePass S clock r v).events].flatten = v'.numBytesRead := by
          rw [List.flatten_singleton]
          omega
        have h₀' : 0 ≤ v'.numBytesRead := hbytes ▸ received_nonneg _
        obtain ⟨ws, last, haccounts⟩ := accounts_served S rounds _
          (hopened (by rw [hclient v' hres]; rfl)) h₀' hopen hbytes hrest
        rw [Act.bind_of_ok hres]
        exact ⟨[], _, ws, last, rfl, by simp, fun pass rest => hbegins pass rest _, haccounts⟩

/-- The checks of a run are those of its windows. -/
lemma Divides.checks_eq {rounds : List Round} {waiting served last : List (List Event)}
    {ws : List (Window clock)} (h : Divides S clock rounds v waiting served ws last) :
    checks (Act.loop (onePass S clock) rounds v).events = ws.map fun w => (w.length, w.bytes) := by
  have hwaiting : ∀ waiting : List (List Event), (∀ pass ∈ waiting, Waits pass) →
      checks waiting.flatten = [] := by
    intro waiting hwaits
    induction waiting with
    | nil => rfl
    | cons pass waiting ih =>
      obtain ⟨hpass, hrest⟩ := List.forall_mem_cons.mp hwaits
      rw [List.flatten_cons, checks_append, hpass.checks, ih hrest, List.nil_append]
  have hws : ∀ ws : List (Window clock), checks (ws.flatMap Window.passes).flatten =
      ws.map fun w => (w.length, w.bytes) := by
    intro ws
    induction ws with
    | nil => rfl
    | cons w ws ih =>
      rw [List.flatMap_cons, List.flatten_append, checks_append, w.checks_passes, ih,
        List.map_cons, List.singleton_append]
  rw [← h.trace, h.accounts.split, List.flatten_append, List.flatten_append, checks_append,
    checks_append, hwaiting waiting h.waits, hws, h.accounts.open_checks, List.append_nil,
    List.nil_append]

/-- What a run receives is what its windows count, and what came since the last of them. -/
lemma Divides.received_eq {rounds : List Round} {waiting served last : List (List Event)}
    {ws : List (Window clock)} (h : Divides S clock rounds v waiting served ws last) :
    received (Act.loop (onePass S clock) rounds v).events =
      (ws.map Window.bytes).sum + received last.flatten := by
  have hwaiting : ∀ waiting : List (List Event), (∀ pass ∈ waiting, Waits pass) →
      received waiting.flatten = 0 := by
    intro waiting hwaits
    induction waiting with
    | nil => rfl
    | cons pass waiting ih =>
      obtain ⟨hpass, hrest⟩ := List.forall_mem_cons.mp hwaits
      rw [List.flatten_cons, received_append, hpass.received, ih hrest, Int.add_zero]
  have hws : ∀ ws : List (Window clock), received (ws.flatMap Window.passes).flatten =
      (ws.map Window.bytes).sum := by
    intro ws
    induction ws with
    | nil => rfl
    | cons w ws ih =>
      rw [List.flatMap_cons, List.flatten_append, received_append, w.received_passes, ih,
        List.map_cons, List.sum_cons]
  rw [← h.trace, h.accounts.split, List.flatten_append, List.flatten_append, received_append,
    received_append, hwaiting waiting h.waits, hws, Int.zero_add]

/-! ### Bytes of a short run -/

/-- No more bytes can come in between two checks than come in at all. -/
lemma arrived_le (es : List Event) (h₀ : 0 ≤ n) : arrived n es ≤ n + received es := by
  induction es generalizing n with
  | nil => simp
  | cons e es ih =>
    have htally : 0 ≤ tally n e ∧ tally n e ≤ n + bytesOf e := by
      cases e <;> simp only [tally, bytesOf] <;> omega
    rw [arrived_cons, received_cons]
    have := ih htally.1
    omega

lemma few_of_received (h₀ : 0 ≤ n) (h : n + received es < intMax) : Few n es := by
  rintro pre ⟨post, rfl⟩
  rw [received_append] at h
  have hle := arrived_le pre h₀
  have hpost := received_nonneg post
  omega

/-- A pass reads 1024 bytes at most. -/
lemma received_receive_le (r : Round) (v : Vars) : received (receive r v).events ≤ 1024 := by
  rcases hin : incoming r v with _ | chunk
  · rw [receive_of_none hin]
    simp
  · obtain ⟨p, hc⟩ := exists_client hin
    have hfits := chunk.fits
    have hsize : bufSize = 1024 := rfl
    rw [receive_some_events hc hin]
    split_ifs <;> simp only [received_cons, received_nil, bytesOf] <;> omega

lemma received_bind_le {α β : Type} {x : Proc α} {f : α → Proc β} {a b : ℤ} (hb : 0 ≤ b)
    (hx : received x.events ≤ a) (hf : ∀ v, received (f v).events ≤ b) :
    received (x >>= f).events ≤ a + b := by
  rcases hres : x.result with e | v
  · rw [Act.bind_of_error hres]
    change received x.events ≤ a + b
    omega
  · have := hf v
    rw [Act.bind_of_ok hres, received_append]
    omega

lemma received_pass_le (S : Setup) (clock : ℕ → ℤ) (r : Round) (v : Vars) :
    received (onePass S clock r v).events ≤ 1024 := by
  have hmeasure : ∀ v, received (measure S clock v).events ≤ 0 := by
    intro v
    rcases measure_cases S clock v with ⟨-, hm⟩ | ⟨-, -, hm⟩ | ⟨-, -, k, hm⟩
    · simp [hm]
    · simp [hm, bytesOf]
    · simp [hm, bytesOf]
  have hfinish : ∀ v, received (finish S clock r v).events ≤ 0 := fun v =>
    (received_of_quiet finish_quiet).le
  have hafter : ∀ v, received (afterRead S clock r v).events ≤ 0 := fun v =>
    received_bind_le le_rfl (hmeasure v) hfinish
  have hread : ∀ v, received (receive r v >>= afterRead S clock r).events ≤ 1024 := fun v =>
    received_bind_le le_rfl (received_receive_le r v) hafter
  calc received (onePass S clock r v).events
      ≤ 0 + 1024 := by
        rw [pass_eq]
        exact received_bind_le (by decide) (received_of_quiet connect_quiet).le hread
    _ = 1024 := rfl

/-- A run of fewer than 2^21 passes is too short for its counter to fill. -/
lemma few_of_length (S : Setup) (clock : ℕ → ℤ) {rounds : List Round}
    (h : rounds.length < 2 ^ 21 - 1) (v : Vars) :
    Few 0 (Act.loop (onePass S clock) rounds v).events := by
  have hrun : ∀ (rounds : List Round) (v : Vars),
      received (Act.loop (onePass S clock) rounds v).events ≤ 1024 * rounds.length := by
    intro rounds
    induction rounds with
    | nil => simp
    | cons r rounds ih =>
      intro v
      have hbind := received_bind_le (f := Act.loop (onePass S clock) rounds) (by omega)
        (received_pass_le S clock r v) ih
      rw [Act.loop_cons, List.length_cons]
      push_cast
      omega
  have hmax : intMax = 2 ^ 31 - 1 := rfl
  have hle := hrun rounds v
  exact few_of_received le_rfl (by omega)

/-! ### The windows of a run -/

/-- 3 seconds between two readings of the clock. -/
def threes : ℕ → ℤ := fun n => 3 * n

/-- The phone connects and sends 1024 bytes, and then nothing more. -/
def paced : List Round := flooding :: List.replicate 3 (connection phone)

/-- The check comes in the third pass, and passes. -/
lemma paced_eq : Act.loop (onePass floodSetup threes) paced Vars.init =
    ⟨(onePass floodSetup threes flooding Vars.init).events ++
        [.greeted phone, .checked 6 1024, .greeted phone, .greeted phone],
      .ok ⟨some phone, phone, 0, 9, 15, 6⟩⟩ := by
  rw [paced, Act.loop_cons, Act.bind_of_ok (flooding_first threes)]
  rfl

lemma checks_paced :
    checks (Act.loop (onePass floodSetup threes) paced Vars.init).events = [(6, 1024)] := by
  have hfew : Few 0 (Act.loop (onePass floodSetup threes) [flooding] Vars.init).events :=
    few_of_length _ _ (by decide) _
  rw [Act.loop_cons] at hfew
  rw [paced_eq, checks_append, (pass_unserved flooding rfl le_rfl hfew.of_bind).1]
  rfl

/-- **Every byte is accounted for.** A run in which fewer than `INT_MAX` bytes come in between
two checks falls into windows, each with all the bytes its passes received, and each ended by the
first pass to find more than 5 seconds; a window ends with a lock exactly when its bytes are fewer
than 100 for each second of it, and so never when enough come in. -/
theorem accounts_run (S : Setup) (clock : ℕ → ℤ) (rounds : List Round)
    (hfew : Few 0 (Act.loop (onePass S clock) rounds Vars.init).events) :
    ∃ (waiting served : List (List Event)) (ws : List (Window clock)) (last : List (List Event)),
      Divides S clock rounds Vars.init waiting served ws last ∧
      received (Act.loop (onePass S clock) rounds Vars.init).events =
        (ws.map Window.bytes).sum + received last.flatten ∧
      ((∀ w ∈ ws, 100 * w.length ≤ w.bytes) → ∀ w ∈ ws, ¬ w.Locks) := by
  obtain ⟨waiting, served, ws, last, h⟩ := divides_unserved S rounds rfl rfl hfew
  refine ⟨waiting, served, ws, last, h, h.received_eq, fun henough w hw hlocks => ?_⟩
  exact absurd ((h.accounts.locks_iff w hw).mp hlocks) (not_lt.mpr (henough w hw))

theorem accounts_paced :
    ∃ (waiting served : List (List Event)) (ws : List (Window threes)) (last : List (List Event)),
      Divides floodSetup threes paced Vars.init waiting served ws last ∧
      ws.map (fun w => (w.length, w.bytes)) = [(6, 1024)] ∧
      received (Act.loop (onePass floodSetup threes) paced Vars.init).events =
        (ws.map Window.bytes).sum + received last.flatten ∧
      ((∀ w ∈ ws, 100 * w.length ≤ w.bytes) → ∀ w ∈ ws, ¬ w.Locks) := by
  obtain ⟨waiting, served, ws, last, h, hreceived, henough⟩ :=
    accounts_run floodSetup threes paced (few_of_length _ _ (by decide) _)
  exact ⟨waiting, served, ws, last, h, h.checks_eq.symm.trans checks_paced, hreceived, henough⟩

end ProxyAuth.Windows
