import ProxyAuth.PeerSafety

/-!
The counter of the bytes received.

It is an `int` to which a read adds up to 1024 unless it has reached `INT_MAX`, and which every
check that passes sets back to 0. As long as no read takes it past `INT_MAX`, it holds the
bytes received since the last check, up to `INT_MAX`.
-/

namespace ProxyAuth.Counter

open ProxyAuth.Control ProxyAuth.CString ProxyAuth.BtMisc ProxyAuth.Login ProxyAuth.Deauth
open ProxyAuth.PeerSafety

/-! ### Bytes along a trace -/

/-- The bytes received since the last check, after one more event. -/
def tally (n : ℤ) : Event → ℤ
  | .received _ bytes => n + bytes.length
  | .checked _ _ => 0
  | _ => n

/-- The bytes received since the last check, when there were `n` at the beginning. -/
def arrived (n : ℤ) (es : List Event) : ℤ := es.foldl tally n

/-- No read takes the bytes since the last check from below `INT_MAX` to above it. -/
def Unbroken : ℤ → List Event → Prop
  | _, [] => True
  | n, e :: es =>
    (∀ p bytes, e = .received p bytes → n < intMax → n + bytes.length ≤ intMax) ∧
      Unbroken (tally n e) es

/-- The event is neither a read nor a check. -/
def Quiet : Event → Prop
  | .received _ _ => False
  | .checked _ _ => False
  | .overflowed => False
  | _ => True

variable {n : ℤ} {es es' : List Event}

@[simp] lemma arrived_nil : arrived n [] = n := rfl
@[simp] lemma arrived_cons (e : Event) : arrived n (e :: es) = arrived (tally n e) es := rfl

lemma arrived_append : arrived n (es ++ es') = arrived (arrived n es) es' := List.foldl_append

lemma unbroken_append : Unbroken n (es ++ es') ↔ Unbroken n es ∧ Unbroken (arrived n es) es' := by
  induction es generalizing n with
  | nil => simp [Unbroken]
  | cons e es ih => rw [List.cons_append, Unbroken, Unbroken, ih, and_assoc, arrived_cons]

lemma Quiet.tally {e : Event} (h : Quiet e) : tally n e = n := by
  cases e <;> first | rfl | exact h.elim

lemma arrived_of_quiet (h : ∀ e ∈ es, Quiet e) : arrived n es = n := by
  induction es with
  | nil => rfl
  | cons e es ih =>
    rw [arrived_cons, (h e List.mem_cons_self).tally]
    exact ih fun e he => h e (List.mem_cons_of_mem _ he)

lemma unbroken_of_quiet (h : ∀ e ∈ es, Quiet e) : Unbroken n es := by
  induction es with
  | nil => trivial
  | cons e es ih =>
    have he := h e List.mem_cons_self
    refine ⟨fun p bytes heq => ?_, ?_⟩
    · rw [heq] at he
      exact he.elim
    · rw [he.tally]
      exact ih fun e he => h e (List.mem_cons_of_mem _ he)

lemma not_overflowed_of_quiet (h : ∀ e ∈ es, Quiet e) : ∀ e ∈ es, e ≠ .overflowed := by
  rintro e he rfl
  exact h .overflowed he

/-! ### Pieces of a run -/

/-- The counter holds the `n` bytes received since the last check, up to `INT_MAX`. -/
structure Tracks (n : ℤ) (v : Vars) : Prop where
  nonneg : 0 ≤ n
  num : v.numBytesRead = min n intMax

lemma Tracks.range {v : Vars} (h : Tracks n v) : 0 ≤ v.numBytesRead ∧ v.numBytesRead ≤ intMax := by
  have := h.nonneg
  rw [h.num]
  exact ⟨le_min this (by decide), min_le_right _ _⟩

/-- A piece of a run in which the counter overflows only if a read breaks its range, and
otherwise keeps track; what a check sees is then in range too. -/
structure Counts (n : ℤ) (x : Proc Vars) : Prop where
  iff : (∀ e ∈ x.events, e ≠ .overflowed) ↔ Unbroken n x.events
  next : Unbroken n x.events → ∀ v, x.result = .ok v → Tracks (arrived n x.events) v
  checks : Unbroken n x.events → ∀ seconds bytes, .checked seconds bytes ∈ x.events →
    0 ≤ bytes ∧ bytes ≤ intMax

lemma Counts.of_quiet {x : Proc Vars} (hquiet : ∀ e ∈ x.events, Quiet e)
    (hnext : ∀ v, x.result = .ok v → Tracks n v) : Counts n x where
  iff := iff_of_true (not_overflowed_of_quiet hquiet) (unbroken_of_quiet hquiet)
  next _ v hv := by rw [arrived_of_quiet hquiet]; exact hnext v hv
  checks _ seconds bytes h := (hquiet _ h).elim

lemma Counts.bind {x : Proc Vars} {f : Vars → Proc Vars} (hx : Counts n x)
    (hf : ∀ v, x.result = .ok v → Tracks (arrived n x.events) v →
      Counts (arrived n x.events) (f v)) : Counts n (x >>= f) := by
  rcases hres : x.result with k | v
  · rw [Act.bind_of_error hres]
    exact ⟨hx.iff, (fun _ v hv => nomatch hv), hx.checks⟩
  · rw [Act.bind_of_ok hres]
    have hrest : Unbroken n x.events → Counts (arrived n x.events) (f v) :=
      fun h => hf v hres (hx.next h v hres)
    refine ⟨?_, fun hunbroken => ?_, fun hunbroken => ?_⟩
    · simp only [List.forall_mem_append, unbroken_append, hx.iff]
      exact and_congr_right fun h => (hrest h).iff
    · obtain ⟨h, h'⟩ := unbroken_append.mp hunbroken
      rw [arrived_append]
      exact (hrest h).next h'
    · obtain ⟨h, h'⟩ := unbroken_append.mp hunbroken
      intro seconds bytes hmem
      rcases List.mem_append.mp hmem with hmem | hmem
      · exact hx.checks h seconds bytes hmem
      · exact (hrest h).checks h' seconds bytes hmem

/-! ### One pass -/

variable {S : Setup} {clock : ℕ → ℤ} {r : Round} {v : Vars}

lemma connect_quiet : ∀ e ∈ (connect S clock r v).events, Quiet e := by
  intro e he
  rcases connect_events e he with rfl | ⟨p, view, rfl⟩
  · trivial
  · trivial

/-- A new client begins a window of its own; nothing is read yet. -/
lemma connect_new (S : Setup) (clock : ℕ → ℤ) (r : Round) (hc : v.client = none) :
    (∀ e ∈ (connect S clock r v).events, Quiet e) ∧
      ∀ v', (connect S clock r v).result = .ok v' →
        v'.numBytesRead = v.numBytesRead ∧ v'.start = clock v.tick ∧ v'.stop = clock v.tick ∧
          v'.tick = v.tick + 1 := by
  refine ⟨connect_quiet, fun v' hv' => ?_⟩
  rw [connect_of_none hc] at hv'
  obtain ⟨c, -, hv'⟩ := Act.bind_result_ok.mp hv'
  rw [← Except.ok.inj hv']
  exact ⟨rfl, rfl, rfl, rfl⟩

/-- The first block touches neither the counter nor the trace of bytes. -/
lemma counts_connect (h : Tracks n v) : Counts n (connect S clock r v) := by
  rcases hc : v.client with _ | p
  · obtain ⟨hquiet, hnext⟩ := connect_new S clock r hc
    refine .of_quiet hquiet fun v' hv' => ⟨h.nonneg, ?_⟩
    rw [(hnext v' hv').1, h.num]
  · rw [connect_of_isSome (by rw [hc]; rfl)]
    refine .of_quiet (by simp) fun v' hv' => ?_
    rw [← Except.ok.inj hv']
    exact h

/-- A read that stays in range is added; once the counter is full it stays full. -/
lemma Tracks.addBytes (h : Tracks n v) {len : ℕ} (hlen : n < intMax → n + len ≤ intMax) :
    addBytes v.numBytesRead len = min (n + len) intMax := by
  have hn := h.nonneg
  have hmax : intMax = 2 ^ 31 - 1 := rfl
  rw [h.num, Deauth.addBytes]
  by_cases hlt : n < intMax
  · have hle := hlen hlt
    rw [min_eq_left hlt.le, if_pos hlt, wrap32_of_lt (by omega) (by omega), min_eq_left hle]
  · rw [min_eq_right (not_lt.mp hlt), if_neg (lt_irrefl _), min_eq_right (by omega)]

lemma counts_receive (h : Tracks n v) : Counts n (receive r v) := by
  rcases hin : incoming r v with _ | chunk
  · rw [receive_of_none hin]
    refine .of_quiet (by simp) fun v' hv' => ?_
    rw [← Except.ok.inj hv']
    exact h
  obtain ⟨p, hc⟩ := exists_client hin
  have hevents := receive_some_events hc hin
  have hnum : v.numBytesRead < intMax ∧ intMax < v.numBytesRead + chunk.bytes.length ↔
      n < intMax ∧ intMax < n + chunk.bytes.length := by
    rw [h.num]
    omega
  rw [if_congr hnum rfl rfl] at hevents
  by_cases hover : n < intMax ∧ intMax < n + chunk.bytes.length
  · rw [if_pos hover] at hevents
    have hbroken : ¬ Unbroken n (receive r v).events := by
      rw [hevents]
      intro hunbroken
      have := hunbroken.1 p chunk.bytes rfl hover.1
      omega
    exact ⟨iff_of_false (by simp [hevents]) hbroken, fun h => absurd h hbroken,
      fun h => absurd h hbroken⟩
  · rw [if_neg hover] at hevents
    have hle : n < intMax → n + chunk.bytes.length ≤ intMax := by omega
    have hunbroken : Unbroken n (receive r v).events := by
      rw [hevents]
      refine ⟨fun q bytes heq => ?_, trivial⟩
      cases heq
      exact hle
    refine ⟨iff_of_true (by simp [hevents]) hunbroken, fun _ v' hv' => ?_, fun _ => by
      simp [hevents]⟩
    obtain rfl : counted r v = v' := Except.ok.inj (receive_result.symm.trans hv')
    rw [hevents]
    refine ⟨by have := h.nonneg; simp [tally]; omega, ?_⟩
    simp only [counted, hin]
    exact h.addBytes hle

lemma counts_measure (h : Tracks n v) : Counts n (measure S clock v) := by
  have hrange := h.range
  rcases measure_cases S clock v with ⟨-, hm⟩ | ⟨-, -, hm⟩ | ⟨-, -, k, hm⟩
  · rw [hm]
    refine .of_quiet (by simp) fun v' hv' => ?_
    rw [← Except.ok.inj hv']
    exact h
  · rw [hm]
    refine ⟨by simp [Unbroken], fun _ v' hv' => ?_, fun _ seconds bytes hmem => ?_⟩
    · rw [← Except.ok.inj hv']
      exact ⟨le_rfl, rfl⟩
    · obtain ⟨-, rfl⟩ : seconds = _ ∧ bytes = v.numBytesRead := by simpa using hmem
      exact hrange
  · rw [hm]
    refine ⟨by simp [Unbroken], (fun _ v' hv' => nomatch hv'), fun _ seconds bytes hmem => ?_⟩
    obtain ⟨-, rfl⟩ : seconds = _ ∧ bytes = v.numBytesRead := by simpa using hmem
    exact hrange

lemma finish_quiet : ∀ e ∈ (finish S clock r v).events, Quiet e := by
  intro e he
  rcases finish_events e he with rfl | ⟨p, -, rfl | ⟨bytes, rfl⟩⟩
  · trivial
  · trivial
  · trivial

lemma counts_finish (h : Tracks n v) : Counts n (finish S clock r v) := by
  refine .of_quiet finish_quiet fun v' hv' => ?_
  rw [finish_result hv']
  exact ⟨h.nonneg, h.num⟩

lemma counts_pass (h : Tracks n v) : Counts n (onePass S clock r v) := by
  apply (counts_connect h).bind
  intro v₁ _ h₁
  apply (counts_receive h₁).bind
  intro v₂ _ h₂
  exact (counts_measure h₂).bind fun v₃ _ h₃ => counts_finish h₃

/-! ### A run -/

lemma counts_loop (rounds : List Round) (h : Tracks n v) :
    Counts n (Act.loop (onePass S clock) rounds v) := by
  induction rounds generalizing n v with
  | nil => exact .of_quiet (by simp) fun v' hv' => Except.ok.inj hv' ▸ h
  | cons r rounds ih =>
    rw [Act.loop_cons]
    exact (counts_pass h).bind fun v' _ h' => ih h'

lemma tracks_init : Tracks 0 Vars.init := ⟨le_rfl, rfl⟩

/-- In every state the loop comes to, and at every check, the counter is between 0 and
`INT_MAX`, and no addition goes past that. -/
structure InRange (S : Setup) (clock : ℕ → ℤ) (rounds : List Round) : Prop where
  additions : ∀ e ∈ (Act.loop (onePass S clock) rounds Vars.init).events, e ≠ .overflowed
  states : ∀ pre post v, rounds = pre ++ post →
    (Act.loop (onePass S clock) pre Vars.init).result = .ok v →
      0 ≤ v.numBytesRead ∧ v.numBytesRead ≤ intMax
  checks : ∀ seconds bytes,
    .checked seconds bytes ∈ (Act.loop (onePass S clock) rounds Vars.init).events →
      0 ≤ bytes ∧ bytes ≤ intMax

/-- What the loop does first is also the beginning of the whole trace. -/
lemma unbroken_of_append {pre post : List Round}
    (h : Unbroken n (Act.loop (onePass S clock) (pre ++ post) v).events) :
    Unbroken n (Act.loop (onePass S clock) pre v).events := by
  rw [Act.loop_append] at h
  rcases hres : (Act.loop (onePass S clock) pre v).result with k | v'
  · rwa [Act.bind_of_error hres] at h
  · rw [Act.bind_of_ok hres] at h
    exact (unbroken_append.mp h).1

/-- **The counter.** It stays in range in exactly the runs in which no read takes the bytes
received since the last check from below `INT_MAX` to above it. -/
theorem inRange_iff (S : Setup) (clock : ℕ → ℤ) (rounds : List Round) :
    InRange S clock rounds ↔ Unbroken 0 (Act.loop (onePass S clock) rounds Vars.init).events := by
  have hrun : Counts 0 (Act.loop (onePass S clock) rounds Vars.init) :=
    counts_loop rounds tracks_init
  refine ⟨fun h => hrun.iff.mp h.additions, fun h => ⟨hrun.iff.mpr h, ?_, hrun.checks h⟩⟩
  rintro pre post v rfl hv
  exact ((counts_loop pre tracks_init).next (unbroken_of_append h) v hv).range

/-! ### A run that goes past the end -/

/-- 1024 bytes in every pass. -/
def flood : Chunk where
  bytes := List.replicate bufSize 97
  nonempty h := absurd ((List.replicate_eq_nil_iff _).mp h) (by decide)
  fits := List.length_replicate.le

def flooding : Round := ⟨⟨some phone, phoneView⟩, some flood, true, []⟩

def floodSetup : Setup := ⟨some phone, true, true⟩

/-- The clock stands still, and no check is due. -/
def flooded (num : ℤ) (tick : ℕ) : Vars := ⟨some phone, phone, num, 0, 0, tick⟩

def still : ℕ → ℤ := fun _ => 0

lemma length_flood : flood.bytes.length = 1024 := by rw [flood, List.length_replicate, bufSize]

lemma flooded_receive {num : ℤ} {tick : ℕ} (h₀ : 0 ≤ num) (h : num + 1024 ≤ intMax) :
    (receive flooding (flooded num tick)).result = .ok (flooded (num + 1024) tick) := by
  have hmax : intMax = 2 ^ 31 - 1 := rfl
  rw [receive_result]
  have hadd : addBytes num flood.bytes.length = num + 1024 := by
    rw [length_flood, addBytes, if_pos (by omega), wrap32_of_lt (by push_cast; omega)
      (by push_cast; omega)]
    rfl
  change Except.ok { flooded num tick with numBytesRead := addBytes num flood.bytes.length } = _
  rw [hadd]
  rfl

lemma flooded_pass (num : ℤ) (tick : ℕ) (h₀ : 0 ≤ num) (h : num + 1024 ≤ intMax) :
    (onePass floodSetup still flooding (flooded num tick)).result =
      .ok (flooded (num + 1024) (tick + 1)) := by
  refine Act.bind_result_ok.mpr ⟨flooded num tick, rfl, ?_⟩
  refine Act.bind_result_ok.mpr ⟨_, flooded_receive h₀ h, ?_⟩
  refine Act.bind_result_ok.mpr ⟨flooded (num + 1024) tick, rfl, ?_⟩
  exact finish_ok still _ rfl (by simp [flooding])

/-- The phone connects, and 1024 bytes come with it. -/
lemma flooding_first (clock : ℕ → ℤ) : (onePass floodSetup clock flooding Vars.init).result =
    .ok ⟨some phone, phone, 1024, clock 0, clock 1, 2⟩ := by
  have hanswer : answered floodSetup flooding.accept = some phone := rfl
  have hsame : strEq (some phone) floodSetup.btAddr = .ok true := by
    simp [strEq, floodSetup]
  have hconnect : (connect floodSetup clock flooding Vars.init).result =
      .ok ⟨some phone, phone, 0, clock 0, clock 0, 1⟩ := by
    rw [connect_of_none rfl, connectClient_of_answered hanswer isTrustedClient_phone, hsame]
    rfl
  have hadd : addBytes 0 flood.bytes.length = 1024 := by
    rw [length_flood, addBytes, if_pos (by decide), wrap32_of_lt (by decide) (by decide)]
    rfl
  have hreceive : (receive flooding ⟨some phone, phone, 0, clock 0, clock 0, 1⟩).result =
      .ok ⟨some phone, phone, 1024, clock 0, clock 0, 1⟩ := by
    rw [receive_result, ← hadd]
    rfl
  have hmeasure : measure floodSetup clock ⟨some phone, phone, 1024, clock 0, clock 0, 1⟩ =
      pure ⟨some phone, phone, 1024, clock 0, clock 0, 1⟩ := by
    unfold Deauth.measure
    rw [if_neg (by dsimp only; omega)]
  refine Act.bind_result_ok.mpr ⟨_, hconnect, ?_⟩
  refine Act.bind_result_ok.mpr ⟨_, hreceive, ?_⟩
  rw [hmeasure, Act.pure_bind]
  exact finish_ok clock _ rfl (by simp [flooding])

lemma flooded_first : (onePass floodSetup still flooding Vars.init).result =
    .ok (flooded 1024 2) := flooding_first still

lemma flooded_run (k : ℕ) {num : ℤ} {tick : ℕ} (h₀ : 0 ≤ num) (h : num + 1024 * k ≤ intMax) :
    (Act.loop (onePass floodSetup still) (List.replicate k flooding) (flooded num tick)).result =
      .ok (flooded (num + 1024 * k) (tick + k)) := by
  induction k generalizing num tick with
  | zero => simp
  | succ k ih =>
    push_cast at h
    rw [List.replicate_succ, Act.loop_cons]
    refine Act.bind_result_ok.mpr ⟨_, flooded_pass num tick h₀ (by omega), ?_⟩
    rw [ih (by omega) (by omega)]
    congr 2
    · push_cast
      ring
    · omega

/-- Reads of 1024 bytes, enough of them to fill the counter, while the clock stands still. -/
def deluge : List Round := flooding :: (List.replicate (2 ^ 21 - 2) flooding ++ [flooding])

theorem not_inRange_deluge : ¬ InRange floodSetup still deluge := by
  intro h
  refine h.additions .overflowed ?_ rfl
  rw [deluge, Act.loop_cons]
  refine Act.mem_bind_events.mpr (.inr ⟨_, flooded_first, ?_⟩)
  rw [Act.loop_append]
  refine Act.mem_bind_events.mpr (.inr ⟨_, flooded_run (2 ^ 21 - 2) (by decide) (by decide), ?_⟩)
  rw [Act.loop_cons]
  refine Act.mem_bind_events.mpr (.inl ?_)
  refine Act.mem_bind_events.mpr (.inr ⟨_, rfl, ?_⟩)
  refine Act.mem_bind_events.mpr (.inl ?_)
  have hclient : (flooded (1024 + 1024 * (2 ^ 21 - 2 : ℕ)) (2 + (2 ^ 21 - 2))).client =
      some phone := rfl
  have hin : incoming flooding (flooded (1024 + 1024 * (2 ^ 21 - 2 : ℕ)) (2 + (2 ^ 21 - 2))) =
      some flood := rfl
  rw [receive_some_events hclient hin, length_flood]
  apply List.mem_cons_of_mem
  rw [if_pos ⟨by decide, by decide⟩]
  exact List.mem_cons_self

end ProxyAuth.Counter
