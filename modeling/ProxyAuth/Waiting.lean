import ProxyAuth.Conversation

/-!
The phone and the server do not wait for each other.

The server reads only what is there. The app waits in its read, but the next pass that goes on and
can write gives it something.
-/

namespace ProxyAuth.Waiting

open ProxyAuth.Control ProxyAuth.CString ProxyAuth.Deauth ProxyAuth.PeerSafety ProxyAuth.Handover
open ProxyAuth.Silence ProxyAuth.Counter ProxyAuth.Echo ProxyAuth.Runs ProxyAuth.Stream
open ProxyAuth.Conversation
open ProxyAuth.BluetoothInteraction hiding step cost

/-! ### The way to the next read -/

variable {S : Setup} {clock : ℕ → ℤ} {T : ℤ} {r : Round} {v v' : Vars} {s s' : Service}
  {t t' : Talk}

/-- Steps of the worker to its next read, while it is in the loop and the connection is there. -/
def distance : Place → Option ℕ
  | .receiveRead => some 0
  | .receiveStream => some 1
  | .receiveLive => some 2
  | .receiveNull => some 3
  | .serverLive => some 4
  | .serverNull => some 5
  | .sendWrite => some 6
  | .sendStream => some 7
  | .sendLive => some 8
  | .sendNull => some 9
  | .stopTest _ => some 10
  | _ => none

/-- The worker is in the loop, with the connection. -/
structure Attends (k : ℕ) (s : Service) : Prop where
  held : s.held = true
  link : s.link = .connected
  place : distance s.place = some k

/-- The loop goes on to the next read. -/
lemma attends_work {k : ℕ} (h : Attends (k + 1) s) (a : Answer) :
    ∃ s', s.work a = some s' ∧ Attends k s' ∧ readBytes s (.work a) s' = [] := by
  obtain ⟨hheld, hlink, hplace⟩ := h
  have hconn : s.isConnected a = true := by simp [Service.isConnected, hlink]
  have hread : s.place ≠ .receiveRead := by
    intro hread
    simp [hread, distance] at hplace
  suffices hwork : ∃ s', s.work a = some s' ∧ Attends k s' by
    obtain ⟨s', hs', hattends⟩ := hwork
    refine ⟨s', hs', hattends, ?_⟩
    rw [readBytes, Messages.call_eq_nil (.inl hread)]
    rfl
  have hnext : ∀ {p : Place}, (distance p).map (· + 1) = distance s.place →
      distance p = some k := fun hp => by
    rw [hplace] at hp
    simpa using hp
  have hgoto : ∀ {p : Place}, (distance p).map (· + 1) = distance s.place →
      Attends k (s.goto p) := fun hp => ⟨hheld, hlink, hnext hp⟩
  unfold Service.work
  cases hp : s.place with
  | serverNull | receiveNull | sendNull =>
    refine ⟨_, rfl, ?_⟩
    rw [if_pos hheld]
    exact hgoto (by rw [hp]; rfl)
  | serverLive | receiveLive | sendLive =>
    refine ⟨_, rfl, ?_⟩
    rw [Disconnect.deref_of_held hheld, if_pos hconn]
    exact hgoto (by rw [hp]; rfl)
  | receiveStream | sendStream =>
    refine ⟨_, rfl, ?_⟩
    rw [Disconnect.deref_of_held hheld]
    exact hgoto (by rw [hp]; rfl)
  | sendWrite =>
    exact ⟨_, rfl, hgoto (by rw [hp]; rfl)⟩
  | stopTest buf =>
    exact ⟨_, rfl, hheld, hlink, hnext (by rw [hp]; rfl)⟩
  | receiveRead => exact absurd hp hread
  | _ => simp [hp, distance] at hplace

/-- At the read, the worker takes what there is. -/
lemma attends_read (h : Attends 0 s) (m : Message) (ok : Bool) :
    ∃ s', s.work ⟨ok, .data m⟩ = some s' ∧ Attends 10 s' ∧
      readBytes s (.work ⟨ok, .data m⟩) s' = m.bytes := by
  obtain ⟨hheld, hlink, hplace⟩ := h
  have hread : s.place = .receiveRead := by
    cases hp : s.place <;> simp_all [distance]
  refine ⟨s.receive (.data m), ?_, ⟨hheld, hlink, rfl⟩, ?_⟩
  · simp [Service.work, hread, hlink]
  · simp [readBytes, Messages.call, hread, Service.receive]

/-- With the connection, a read brings something. -/
lemma data_of_work {a : Answer} (h : Attends 0 s) (hs : s.work a = some s') :
    ∃ m, a.read = .data m := by
  obtain ⟨-, hlink, hplace⟩ := h
  have hread : s.place = .receiveRead := by
    cases hp : s.place <;> simp_all [distance]
  rcases hdata : a.read with m | _
  · exact ⟨m, rfl⟩
  · simp [Service.work, hread, hlink, hdata] at hs

/-- The worker stays in the loop, unless the connection or the service goes away. -/
lemma attends_of_work {k : ℕ} {a : Answer} (h : Attends k s) (hs : s.work a = some s') :
    ∃ k', Attends k' s' := by
  rcases k with _ | k
  · obtain ⟨m, hm⟩ := data_of_work h hs
    obtain ⟨s₁, h₁, hattends, -⟩ := attends_read h m a.ok
    rw [← hm, hs] at h₁
    exact ⟨10, Option.some.inj h₁ ▸ hattends⟩
  · obtain ⟨s₁, h₁, hattends, -⟩ := attends_work h a
    rw [hs] at h₁
    exact ⟨k, Option.some.inj h₁ ▸ hattends⟩

/-! ### The two together -/

/-- Neither the connection nor the service goes away. -/
def Undisturbed : Talk → Move → Prop
  | _, .serve _ => True
  | _, .act (.work _) => True
  | _, .act .drop => False
  | _, .act (.destroy _) => False

instance (t : Talk) : (x : Move) → Decidable (Undisturbed t x)
  | .serve _ => inferInstanceAs (Decidable True)
  | .act (.work _) => inferInstanceAs (Decidable True)
  | .act .drop => inferInstanceAs (Decidable False)
  | .act (.destroy _) => inferInstanceAs (Decidable False)

lemma act_of_step {a : Action} {down : Channel Byte}
    (hs : BluetoothInteraction.step t.phone a = some s)
    (hdown : t.down.receive (readBytes t.phone a s) = some down) :
    t.act a = some { t with
      phone := s, heard := t.heard + taken t.phone a s, down := down
      up := t.up.send (if Answers t.phone a then world else []) } := by
  simp only [Talk.act, hs, Option.bind_eq_bind, Option.bind_some, hdown, taken]

/-- Whatever the worker is answered, it goes on, and after `k` steps at the latest it has read
something. -/
def Soon : ℕ → Talk → Prop
  | 0, _ => False
  | k + 1, t => (∃ a t', t.act (.work a) = some t') ∧
    ∀ a t', t.act (.work a) = some t' → t'.heard = t.heard + 1 ∨ t'.heard = t.heard ∧ Soon k t'

/-- Where something is on the way, the app comes to read it. -/
lemma soon_of_attends {k : ℕ} (h : Attends k t.phone) (hpending : t.down.pending ≠ []) :
    Soon (k + 1) t := by
  induction k generalizing t with
  | zero =>
    constructor
    · obtain ⟨b, rest, hb⟩ := List.exists_cons_of_ne_nil hpending
      obtain ⟨s, hs, -, hread⟩ := attends_read h ⟨[b], by simp, by simp⟩ true
      obtain ⟨down, hdown⟩ : ∃ down, t.down.receive [b] = some down :=
        Channel.exists_receive ⟨rest, hb.symm⟩
      rw [← show _ = [b] from hread] at hdown
      exact ⟨_, _, act_of_step hs hdown⟩
    · intro a t' ht'
      obtain ⟨s, down, hs, -, rfl⟩ := act_eq_some ht'
      obtain ⟨m, hm⟩ := data_of_work h hs
      obtain ⟨s₁, h₁, -, hread⟩ := attends_read h m a.ok
      rw [← hm] at h₁ hread
      obtain rfl : s₁ = s := Option.some.inj (h₁.symm.trans hs)
      refine .inl ?_
      rw [taken, hread, if_neg m.nonempty]
  | succ k ih =>
    constructor
    · obtain ⟨s, hs, -, hread⟩ := attends_work h ⟨true, .endOfStream⟩
      obtain ⟨down, hdown⟩ : ∃ down, t.down.receive [] = some down :=
        Channel.exists_receive List.nil_prefix
      rw [← hread] at hdown
      exact ⟨_, _, act_of_step hs hdown⟩
    · intro a t' ht'
      obtain ⟨s, down, hs, hdown, rfl⟩ := act_eq_some ht'
      obtain ⟨s₁, h₁, hattends, hread⟩ := attends_work h a
      obtain rfl : s₁ = s := Option.some.inj (h₁.symm.trans hs)
      rw [hread] at hdown
      have hsame : t.down.pending = down.pending := (Channel.receive_eq_some hdown).2.2
      refine .inr ⟨?_, ih hattends (hsame ▸ hpending)⟩
      rw [taken, hread, if_pos rfl, Nat.add_zero]

/-! ### The next pass -/

/-- A pass with a client reads what it is given. -/
lemma receivedBytes_pass (S : Setup) (clock : ℕ → ℤ) (r : Round) (hv : v.client.isSome = true) :
    receivedBytes (onePass S clock r v).events = r.read.elim [] Chunk.bytes := by
  have hquiet : ∀ v, receivedBytes (measure S clock v >>= finish S clock r).events = [] := by
    intro v
    apply List.flatMap_eq_nil_iff.mpr
    refine Act.forall_bind_events (fun e he => ?_) fun v' _ e he => ?_
    · rcases measure_events e he with rfl | rfl
      · rfl
      · rfl
    · rcases finish_events e he with rfl | ⟨p, -, rfl | ⟨bytes, rfl⟩⟩
      · rfl
      · rfl
      · rfl
  have hread : receivedBytes (receive r v).events = r.read.elim [] Chunk.bytes := by
    have hin : incoming r v = r.read := if_pos hv
    rcases hr : r.read with _ | chunk
    · rw [receive_of_none (hin.trans hr)]
      rfl
    · obtain ⟨p, hp⟩ := Option.isSome_iff_exists.mp hv
      rw [receive_some_events hp (hin.trans hr)]
      split_ifs <;> simp [receivedBytes]
  rw [onePass_eq, connect_of_isSome hv, Act.pure_bind, Handover.rest,
    Act.bind_of_ok receive_result, receivedBytes, List.flatMap_append, ← receivedBytes, hread]
  exact (congrArg _ (hquiet _)).trans (List.append_nil _)

/-- A pass that goes on has greeted. -/
lemma greeted_of_ok (hv : v.client.isSome = true) (hw : r.writable = true)
    (hok : (onePass S clock r v).result = .ok v') :
    ∃ p, .greeted p ∈ (onePass S clock r v).events := by
  obtain ⟨p, hp⟩ := Option.isSome_iff_exists.mp hv
  rw [onePass_eq, connect_of_isSome hv, Act.pure_bind, Handover.rest] at hok ⊢
  obtain ⟨v₁, h₁, hrest⟩ := Act.bind_result_ok.mp hok
  obtain ⟨v₂, h₂, -⟩ := Act.bind_result_ok.mp hrest
  obtain rfl : counted r v = v₁ := Except.ok.inj (receive_result.symm.trans h₁)
  have hclient : v₂.client = some p := (measure_client h₂).trans hp
  refine ⟨p, Act.mem_bind_events.mpr (.inr ⟨_, h₁, Act.mem_bind_events.mpr (.inr ⟨_, h₂, ?_⟩)⟩)⟩
  refine Act.mem_bind_events.mpr (.inl ?_)
  simp only [reply, hclient]
  refine Act.mem_bind_events.mpr (.inr ⟨⟨⟩, echo_result r p _, ?_⟩)
  exact Act.mem_emitIf_events.mpr ⟨hw, rfl⟩

/-- A check of the throughput has failed, and the screen was locked. -/
def Failed (es : List Event) : Prop :=
  ∃ pre c, ¬ Passes c ∧ es = pre ++ [.checked c.1 c.2, .locked]

/-- Where no lock is signalled, only a failed check ends the process. -/
lemma ok_or_failed (hv : v.client.isSome = true) (hdata : S.hasData = true) (h3 : 3 ∉ r.signals) :
    (∃ v', (onePass S clock r v).result = .ok v') ∨
      (∃ k, (onePass S clock r v).result = .error k) ∧ Failed (onePass S clock r v).events := by
  rw [onePass_eq, connect_of_isSome hv, Act.pure_bind, Handover.rest,
    Act.bind_of_ok receive_result]
  rcases measure_cases S clock (counted r v) with ⟨-, hm⟩ | ⟨-, -, hm⟩ | ⟨-, hlow, k, hm⟩
  · rw [hm, Act.pure_bind]
    exact .inl ⟨_, finish_ok clock _ hdata h3⟩
  · rw [hm, Act.bind_of_ok rfl]
    exact .inl ⟨_, finish_ok clock _ hdata h3⟩
  · rw [hm, Act.bind_of_error rfl]
    exact .inr ⟨⟨k, rfl⟩, _, (_, _), not_le.mpr hlow, rfl⟩

lemma attends_of_begins (h : t.Begins clock T) : Attends 5 t.phone :=
  ⟨h.held, h.link, by rw [h.place]; rfl⟩

lemma attends_step {x : Move} (h : ∃ k, Attends k t.phone) (hok : Undisturbed t x)
    (hs : step S clock t x = some t') : ∃ k, Attends k t'.phone := by
  cases x with
  | serve r =>
    obtain ⟨v, up, -, -, rfl⟩ := serve_eq_some hs
    exact h
  | act a =>
    obtain ⟨s, down, hstep, -, rfl⟩ := act_eq_some hs
    obtain ⟨k, hk⟩ := h
    cases a with
    | work a => exact attends_of_work hk hstep
    | drop | destroy => exact hok.elim

lemma distance_le {p : Place} {k : ℕ} (h : distance p = some k) : k ≤ 10 := by
  cases p <;> simp only [distance, Option.some.injEq, reduceCtorEq] at h <;> omega

/-- **The two never wait for each other.** Whatever they have come to, the server can make a pass
that reads what is there, or nothing. When it makes one that can write and in which no lock is
signalled, then either a check has failed and the screen is locked, or the app, whatever it is
answered, reads one more message within 11 steps. -/
theorem never_stuck {n : ℕ} (hbegins : t.Begins clock T)
    (hrun : Run (step S clock) cost Undisturbed n t t') (hserver : t'.server ≠ none)
    (hdata : S.hasData = true) :
    (∀ r : Round, r.read.elim [] Chunk.bytes <+: t'.up.pending →
      ∃ u, step S clock t' (.serve r) = some u) ∧
    ∀ (r : Round) (u : Talk), r.writable = true → 3 ∉ r.signals →
      step S clock t' (.serve r) = some u →
        u.server = none ∧ Failed u.trace ∨ u.server ≠ none ∧ ∃ k ≤ 11, Soon k u := by
  obtain ⟨v, hv⟩ := Option.ne_none_iff_exists'.mp hserver
  have hkept : Kept t' :=
    hrun.invariant (fun _ _ _ h _ hs => kept_step h hs) (kept_of_begins hbegins)
  obtain ⟨k, hattends⟩ : ∃ k, Attends k t'.phone :=
    hrun.invariant (fun _ _ _ h hok hs => attends_step h hok hs) ⟨5, attends_of_begins hbegins⟩
  have hclient : v.client.isSome = true := (hkept.pays v hv).client
  constructor
  · intro r hr
    obtain ⟨up, hup⟩ := Channel.exists_receive hr
    rw [← receivedBytes_pass S clock r hclient] at hup
    exact ⟨_, serve_of_receive hv hup⟩
  · intro r u hw h3 hs
    obtain ⟨v', up, hv', -, rfl⟩ := serve_eq_some hs
    obtain rfl : v = v' := Option.some.inj (hv.symm.trans hv')
    have hends : (∃ v', (onePass S clock r v).result = .ok v') ∨
        (∃ k, (onePass S clock r v).result = .error k) ∧ Failed (onePass S clock r v).events :=
      ok_or_failed hclient hdata h3
    rcases hends with ⟨v₁, hok⟩ | ⟨⟨e, herr⟩, pre, c, hfails, hevents⟩
    · obtain ⟨p, hmem⟩ := greeted_of_ok hclient hw hok
      refine .inr ⟨by simp [hok, Except.toOption], k + 1, ?_, soon_of_attends hattends ?_⟩
      · have := distance_le hattends.place
        omega
      · intro hnil
        have hwritten : hello = [] :=
          List.flatMap_eq_nil_iff.mp (List.append_eq_nil_iff.mp hnil).2 _ hmem
        exact absurd hwritten (by decide)
    · refine .inl ⟨by simp [herr, Except.toOption], t'.trace ++ pre, c, hfails, ?_⟩
      dsimp only
      rw [hevents, List.append_assoc]

/-- After the first answer, the server reads it and greets again. -/
theorem never_stuck_accepted : ∃ t u : Talk,
    Run (step usualSetup twenties) cost Undisturbed 1 accepted t ∧ t.heard = 1 ∧
      step usualSetup twenties t (.serve heed) = some u ∧ u.server ≠ none ∧ ∃ k ≤ 11, Soon k u := by
  have hrun : ∃ t, Run (step usualSetup twenties) cost Undisturbed 1 accepted t ∧ t.heard = 1 ∧
      t.server = some ⟨some Login.phone, Login.phone, 0, 0, 0, 2⟩ ∧ t.up.pending = world :=
    ⟨_, (Run.refl accepted).replay (.serve listen :: List.replicate 11 (.act hear)) rfl, rfl,
      rfl, rfl⟩
  obtain ⟨t, hrun, hheard, hserver, hup⟩ := hrun
  obtain ⟨hcan, hpass⟩ := never_stuck accepted_begins hrun (by rw [hserver]; simp) rfl
  obtain ⟨u, hu⟩ := hcan heed (hup ▸ List.prefix_rfl)
  refine ⟨t, u, hrun, hheard, hu, (hpass heed u rfl (by decide) hu).resolve_left ?_⟩
  rintro ⟨hended, -⟩
  obtain ⟨v, up, hv, -, rfl⟩ := serve_eq_some hu
  obtain rfl := Option.some.inj (hserver.symm.trans hv)
  rw [heed_early twenties le_rfl (by decide) (by decide)] at hended
  cases hended

end ProxyAuth.Waiting
