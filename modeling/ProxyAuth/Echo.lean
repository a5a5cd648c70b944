import ProxyAuth.Windows

/-!
What is written back to the client.

The third argument of the `write` is `strlen(buf) < 0`: the comparison is inside the
parenthesis, and the length that is written is always 0. The `strlen` leaves the buffer when a
read has filled it with bytes none of which is NUL.
-/

namespace ProxyAuth.Echo

open ProxyAuth.Control ProxyAuth.CString ProxyAuth.BtMisc ProxyAuth.Login ProxyAuth.Deauth
open ProxyAuth.PeerSafety ProxyAuth.Counter ProxyAuth.Windows

/-- The bytes received, one read after the other. -/
def receivedBytes (es : List Event) : List Byte :=
  es.flatMap fun
    | .received _ bytes => bytes
    | _ => []

/-- The bytes echoed, one write after the other. -/
def echoedBytes (es : List Event) : List Byte :=
  es.flatMap fun
    | .echoed _ bytes => bytes
    | _ => []

/-- The length of every echo is found inside the buffer, and what is echoed is what was
received. -/
structure EchoesBack (es : List Event) : Prop where
  inside : .overrun ∉ es
  same : echoedBytes es = receivedBytes es

variable {S : Setup} {clock : ℕ → ℤ} {r : Round} {v : Vars} {es : List Event}

/-! ### One pass -/

/-- The search for the terminator leaves the buffer exactly when a read has filled it without
a NUL. -/
lemma overrun_mem_echo_iff (r : Round) (p : Str) (chunk : Chunk) :
    .overrun ∈ (echo r p (some chunk)).events ↔
      chunk.bytes.length = bufSize ∧ (0 : Byte) ∉ chunk.bytes := by
  have hfits := chunk.fits
  have hnul : strlen (chunk.bytes ++ List.replicate (bufSize - chunk.bytes.length) 0) = none ↔
      chunk.bytes.length = bufSize ∧ (0 : Byte) ∉ chunk.bytes := by
    rw [strlen]
    split_ifs with h
    · simp only [List.mem_append, List.mem_replicate] at h
      apply iff_of_false (by simp)
      rintro ⟨hlen, hmem⟩
      rcases h with h | ⟨h, -⟩
      · exact hmem h
      · omega
    · simp only [List.mem_append, List.mem_replicate, not_or, not_and, not_true] at h
      refine iff_of_true rfl ⟨?_, h.1⟩
      by_contra hlen
      exact h.2 (by omega)
  simp [echo, Act.mem_bind_events, Act.mem_emitIf_events, hnul]

/-- Something is there to be read once the pass has a client. -/
def Reads (S : Setup) (clock : ℕ → ℤ) (r : Round) (v : Vars) : Prop :=
  ∃ v', (connect S clock r v).result = .ok v' ∧ (incoming r v').isSome = true

/-- What is read shows in the trace. -/
lemma received_mem_pass (h : Reads S clock r v) :
    ∃ p chunk, r.read = some chunk ∧
      .received p chunk.bytes ∈ (onePass S clock r v).events := by
  obtain ⟨v', hv', hsome⟩ := h
  obtain ⟨chunk, hin⟩ := Option.isSome_iff_exists.mp hsome
  obtain ⟨p, hc⟩ := exists_client hin
  refine ⟨p, chunk, ?_, ?_⟩
  · simpa [incoming, hc] using hin
  · refine Act.mem_bind_events.mpr (.inr ⟨v', hv', Act.mem_bind_events.mpr (.inl ?_)⟩)
    rw [receive_some_events hc hin]
    exact List.mem_cons_self

/-- What a pass shows of its bytes: they are read, and the echo is empty. -/
def Shown (reads : Prop) : Event → Prop
  | .received _ _ => reads
  | .overrun => reads
  | .echoed _ bytes => bytes = []
  | _ => True

lemma Shown.imp {reads reads' : Prop} {e : Event} (h : Shown reads e) (himp : reads → reads') :
    Shown reads' e := by
  cases e <;> first | trivial | exact himp h

lemma shown_connect {reads : Prop} : ∀ e ∈ (connect S clock r v).events, Shown reads e := by
  intro e he
  rcases connect_events e he with rfl | ⟨p, view, rfl⟩
  · trivial
  · trivial

lemma shown_receive : ∀ e ∈ (receive r v).events, Shown ((incoming r v).isSome = true) e := by
  intro e he
  rcases hin : incoming r v with _ | chunk
  · rw [receive_of_none hin] at he
    simp at he
  · rcases receive_events e he with rfl | ⟨p, bytes, -, rfl⟩
    · trivial
    · rfl

lemma shown_measure {reads : Prop} : ∀ e ∈ (measure S clock v).events, Shown reads e := by
  intro e he
  rcases measure_events e he with rfl | rfl
  · trivial
  · trivial

lemma shown_finish : ∀ e ∈ (finish S clock r v).events, Shown ((incoming r v).isSome = true) e := by
  intro e he
  obtain ⟨p, -, rfl | ⟨hread, rfl | rfl⟩⟩ := finish_shows e he
  · trivial
  · exact hread
  · rfl

/-- The client who is there for the read is there for the echo. -/
lemma shown_pass : ∀ e ∈ (onePass S clock r v).events, Shown (Reads S clock r v) e := by
  apply Act.forall_bind_events shown_connect
  intro v₁ h₁
  have hreads : (incoming r v₁).isSome = true → Reads S clock r v := fun h => ⟨v₁, h₁, h⟩
  refine Act.forall_bind_events (fun e he => (shown_receive e he).imp hreads) fun v₂ h₂ => ?_
  obtain rfl : counted r v₁ = v₂ := Except.ok.inj (receive_result.symm.trans h₂)
  apply Act.forall_bind_events shown_measure
  intro v₃ h₃ e he
  have hsame : incoming r v₃ = incoming r v₁ := by
    rw [incoming, measure_client h₃]
    rfl
  exact (shown_finish e he).imp (hsame ▸ hreads)

/-! ### A run -/

/-- No read of the run delivers anything. -/
def NothingSent (S : Setup) (clock : ℕ → ℤ) (rounds : List Round) (v : Vars) : Prop :=
  ∀ front r rest v', rounds = front ++ r :: rest →
    (Act.loop (onePass S clock) front v).result = .ok v' → ¬ Reads S clock r v'

/-- Nothing is ever echoed. -/
lemma echoedBytes_loop (S : Setup) (clock : ℕ → ℤ) (rounds : List Round) (v : Vars) :
    echoedBytes (Act.loop (onePass S clock) rounds v).events = [] := by
  apply List.flatMap_eq_nil_iff.mpr
  intro e he
  obtain ⟨-, r, -, v', -, -, he⟩ := Act.mem_loop_events.mp he
  have hshown := shown_pass e he
  cases e <;> first | rfl | exact hshown

/-- What is read is received. -/
lemma receivedBytes_eq_nil_iff (S : Setup) (clock : ℕ → ℤ) (rounds : List Round) (v : Vars) :
    receivedBytes (Act.loop (onePass S clock) rounds v).events = [] ↔
      NothingSent S clock rounds v := by
  constructor
  · intro hnil front r rest v' hsplit hv' hreads
    obtain ⟨p, chunk, -, hmem⟩ := received_mem_pass hreads
    have hall := Act.mem_loop_events.mpr ⟨front, r, rest, v', hsplit, hv', hmem⟩
    exact chunk.nonempty (List.flatMap_eq_nil_iff.mp hnil _ hall)
  · intro hnone
    apply List.flatMap_eq_nil_iff.mpr
    intro e he
    obtain ⟨front, r, rest, v', hsplit, hv', he⟩ := Act.mem_loop_events.mp he
    have hshown := shown_pass e he
    cases e <;> first | rfl | exact absurd hshown (hnone front r rest v' hsplit hv')

/-- **The echo.** A run echoes what it receives exactly when it receives nothing. -/
theorem echoesBack_iff (S : Setup) (clock : ℕ → ℤ) (rounds : List Round) (v : Vars) :
    EchoesBack (Act.loop (onePass S clock) rounds v).events ↔ NothingSent S clock rounds v := by
  rw [← receivedBytes_eq_nil_iff]
  constructor
  · intro h
    rw [← h.same, echoedBytes_loop]
  · intro hnil
    refine ⟨fun hover => ?_, by rw [echoedBytes_loop, hnil]⟩
    have hnone := (receivedBytes_eq_nil_iff S clock rounds v).mp hnil
    obtain ⟨front, r, rest, v', hsplit, hv', he⟩ := Act.mem_loop_events.mp hover
    exact hnone front r rest v' hsplit hv' (shown_pass _ he)

/-! ### Runs that receive something -/

/-- The pass that reads 1024 bytes without a NUL. -/
lemma overrun_mem_flooding :
    .overrun ∈ (Act.loop (onePass floodSetup still) [flooding] (flooded 0 0)).events := by
  refine Act.mem_loop_events.mpr ⟨[], flooding, [], flooded 0 0, rfl, rfl, ?_⟩
  refine Act.mem_bind_events.mpr (.inr ⟨flooded 0 0, rfl, ?_⟩)
  refine Act.mem_bind_events.mpr (.inr ⟨_, flooded_receive le_rfl (by decide), ?_⟩)
  refine Act.mem_bind_events.mpr (.inr ⟨flooded 1024 0, rfl, ?_⟩)
  refine Act.mem_bind_events.mpr (.inl ?_)
  refine Act.mem_bind_events.mpr (.inl ?_)
  exact (overrun_mem_echo_iff _ _ _).mpr ⟨length_flood, by simp [flood]⟩

def hi : Chunk := ⟨[104, 105], List.cons_ne_nil _ _, by decide⟩

/-- The phone connects and says something. -/
def greeting : Round := ⟨⟨some phone, phoneView⟩, some hi, true, []⟩

lemma greeting_events :
    (Act.loop (onePass floodSetup still) [greeting] Vars.init).events =
      [.accepted phone phoneView, .received phone hi.bytes, .echoed phone [], .greeted phone] := by
  have hanswer : answered floodSetup greeting.accept = some phone := rfl
  have hsame : strEq (some phone) floodSetup.btAddr = .ok true := by simp [strEq, floodSetup]
  rw [Act.loop_cons, onePass, connect_of_none rfl,
    connectClient_of_answered hanswer isTrustedClient_phone, hsame]
  rfl

/-- The phone says two bytes and gets none back; where it fills the buffer, the length is
looked for past its end. -/
theorem not_echoesBack_greeting :
    ¬ EchoesBack (Act.loop (onePass floodSetup still) [greeting] Vars.init).events ∧
      ¬ EchoesBack (Act.loop (onePass floodSetup still) [flooding] (flooded 0 0)).events := by
  refine ⟨fun h => ?_, fun h => h.inside overrun_mem_flooding⟩
  have hsame := h.same
  rw [greeting_events] at hsame
  cases hsame

end ProxyAuth.Echo
