import ProxyAuth.Disconnect
import ProxyAuth.Echo
import ProxyAuth.Messages
import ProxyAuth.Payment
import ProxyAuth.Stream

/-!
The phone and the server, talking.

The server greets in every pass, whether it is answered or not; the app answers what it reads, and
says nothing by itself. So the bytes that keep the screen unlocked are paid for by greetings.
-/

namespace ProxyAuth.Conversation

open ProxyAuth.Control ProxyAuth.CString ProxyAuth.BtMisc ProxyAuth.Login ProxyAuth.Deauth
open ProxyAuth.PeerSafety ProxyAuth.Silence ProxyAuth.Counter ProxyAuth.Windows ProxyAuth.Echo
open ProxyAuth.Payment ProxyAuth.Runs ProxyAuth.Stream
open ProxyAuth.BluetoothInteraction hiding step cost

/-! ### What goes over the line -/

/-- `msg`, which the server writes. -/
def hello : List Byte := (lit "hello").bytes

/-- The input of `sendCommand`. -/
def world : List Byte := (lit "World").bytes

/-- What the server writes, one write after the other. -/
def writtenBytes (es : List Event) : List Byte :=
  es.flatMap fun
    | .echoed _ bytes => bytes
    | .greeted _ => hello
    | _ => []

def isGreeting : Event → Bool
  | .greeted _ => true
  | _ => false

/-- What a step of the app takes from the stream. -/
def readBytes (s : Service) (a : Action) (s' : Service) : List Byte :=
  (Messages.call s a s').flatMap fun
    | (.data m, _) => m.bytes
    | (.endOfStream, _) => []

/-- The step writes; a write that fails, or to a peer who is gone, delivers nothing. -/
def Answers (s : Service) : Action → Prop
  | .work a => s.place = .sendWrite ∧ s.link = .connected ∧ a.ok = true
  | .drop | .destroy _ => False

instance (s : Service) : (a : Action) → Decidable (Answers s a)
  | .work a => inferInstanceAs (Decidable (s.place = _ ∧ s.link = _ ∧ a.ok = true))
  | .drop | .destroy _ => inferInstanceAs (Decidable False)

/-- Both parties, with what was seen of the server so far and how often the app has read
something; `server` is empty when the process has ended. -/
structure Talk where
  server : Option Vars
  trace : List Event
  phone : Service
  heard : ℕ
  down : Channel Byte
  up : Channel Byte

inductive Move
  | serve (r : Round)
  | act (a : Action)

variable {S : Setup} {clock : ℕ → ℤ}

/-- A pass of the server; what it reads is what comes next from the phone. -/
def Talk.serve (S : Setup) (clock : ℕ → ℤ) (t : Talk) (r : Round) : Option Talk := do
  let v ← t.server
  let pass := onePass S clock r v
  let up ← t.up.receive (receivedBytes pass.events)
  some { t with
    server := pass.result.toOption, trace := t.trace ++ pass.events
    down := t.down.send (writtenBytes pass.events), up := up }

/-- A step of the app, its user or the connection. -/
def Talk.act (t : Talk) (a : Action) : Option Talk := do
  let s ← BluetoothInteraction.step t.phone a
  let bytes := readBytes t.phone a s
  let down ← t.down.receive bytes
  some { t with
    phone := s, heard := t.heard + (if bytes = [] then 0 else 1), down := down
    up := t.up.send (if Answers t.phone a then world else []) }

def step (S : Setup) (clock : ℕ → ℤ) (t : Talk) : Move → Option Talk
  | .serve r => t.serve S clock r
  | .act a => t.act a

/-- Nothing but the server's passes costs anything. -/
def cost : Move → ℕ
  | .serve _ => 1
  | .act _ => 0

/-- The connection is there on both sides from the time `T` on, and nothing was said. -/
structure Talk.Begins (clock : ℕ → ℤ) (T : ℤ) (t : Talk) : Prop where
  server : ∃ v, t.server = some v ∧ Accepted clock T v
  trace : t.trace = []
  place : t.phone.place = .serverNull
  held : t.phone.held = true
  link : t.phone.link = .connected
  heard : t.heard = 0
  down : t.down = .empty
  up : t.up = .empty

/-! ### The bytes of the server -/

variable {r : Round} {v v' : Vars} {es es' : List Event}

lemma received_eq (es : List Event) : received es = (receivedBytes es).length := by
  induction es with
  | nil => rfl
  | cons e es ih =>
    have hcons : receivedBytes (e :: es) = receivedBytes [e] ++ receivedBytes es := by
      simp [receivedBytes]
    rw [received_cons, ih, hcons, List.length_append, Nat.cast_add]
    congr 1
    cases e <;> simp [bytesOf, receivedBytes]

/-- Where no echo has a byte, what is written is one greeting after the other. -/
lemma repeats_written (h : ∀ p bytes, .echoed p bytes ∈ es → bytes = []) :
    Repeats hello (es.countP isGreeting) (writtenBytes es) := by
  induction es with
  | nil => exact repeats_zero hello
  | cons e es ih =>
    have hrest := ih fun p bytes hmem => h p bytes (List.mem_cons_of_mem _ hmem)
    rw [Repeats] at hrest ⊢
    rw [writtenBytes, List.flatMap_cons, ← writtenBytes, hrest]
    cases e with
    | greeted p => rw [List.countP_cons_of_pos rfl, List.replicate_succ, List.flatten_cons]
    | echoed p bytes => simp [isGreeting, h p bytes List.mem_cons_self]
    | _ => simp [isGreeting]

/-! ### The steps of the app -/

/-- The worker has read something and not answered it yet. -/
def owes : Place → ℕ
  | .stopTest _ | .sendNull | .sendLive | .sendStream | .sendWrite => 1
  | .disconnectNull k | .closeOutput k | .closeInput k | .closeSocket k | .clear k =>
    if k = .sendCommand then 1 else 0
  | _ => 0

/-- The server's loop goes on over the same connection, and nothing new is owed. -/
structure Near (s s' : Service) : Prop where
  past : Disconnect.Past s'.place = true
  link : s'.link = .connected → s.link = .connected
  owes : owes s'.place ≤ owes s.place

variable {s s' : Service}

lemma near_goto {p : Place} (hpast : Disconnect.Past p = true) (howes : owes p ≤ owes s.place) :
    Near s (s.goto p) :=
  ⟨hpast, id, howes⟩

lemma near_deref {p : Place} (hpast : Disconnect.Past p = true) (howes : owes p ≤ owes s.place) :
    Near s (s.deref p) := by
  unfold Service.deref
  split_ifs
  · exact near_goto hpast howes
  · exact near_goto rfl (Nat.zero_le _)

lemma near_close {a : Answer} {k : Caller} {p : Place} (hk : k ≠ .connect)
    (hpast : Disconnect.Past p = true) (howes : owes p ≤ owes s.place)
    (hclear : owes (.clear k) ≤ owes s.place) : Near s (s.close a k p) := by
  unfold Service.close
  split_ifs
  · exact near_goto hpast howes
  · exact near_goto (by simpa [Disconnect.Past] using hk) hclear
  · exact near_goto (by simp [Disconnect.Past]) (Nat.zero_le _)

lemma past_next {k : Caller} : Disconnect.Past k.next = true := by
  cases k <;> rfl

lemma owes_next (k : Caller) : owes k.next ≤ owes (.clear k) := by
  cases k <;> decide

/-- The worker reads, or it answers what it has read, or neither. -/
lemma work_shape {a : Answer} (hpast : Disconnect.Past s.place = true) (h : s.work a = some s') :
    (s.place = .receiveRead ∧ s' = s.receive a.read ∧
        (s.link = .connected → a.read ≠ .endOfStream)) ∨
      (s.place = .sendWrite ∧ s' = s.goto .serverNull) ∨ s.place ≠ .sendWrite ∧ Near s s' := by
  unfold Service.work at h
  cases hplace : s.place with
  | receiveRead =>
    simp only [hplace] at h
    split at h
    · rename_i m _ hread
      obtain rfl := Option.some.inj h
      exact .inl ⟨rfl, by rw [hread], by simp [hread]⟩
    · cases h
    · rename_i hlink
      split_ifs at h
      · obtain rfl := Option.some.inj h
        exact .inl ⟨rfl, rfl, by simp [hlink]⟩
      · obtain rfl := Option.some.inj h
        exact .inr (.inr ⟨by simp, near_goto rfl (Nat.zero_le _)⟩)
    · obtain rfl := Option.some.inj h
      exact .inr (.inr ⟨by simp, near_goto rfl (Nat.zero_le _)⟩)
  | sendWrite =>
    simp only [hplace] at h
    exact .inr (.inl ⟨rfl, (Option.some.inj h).symm⟩)
  | connectNull | connectLive | create | connect =>
    simp [hplace, Disconnect.Past] at hpast
  | finished | crashed =>
    simp only [hplace] at h
    cases h
  | serverNull | receiveNull | sendNull =>
    simp only [hplace] at h
    obtain rfl := Option.some.inj h
    refine .inr (.inr ⟨by simp, near_goto ?_ ?_⟩)
    · split_ifs <;> simp [Disconnect.Past]
    · rw [hplace]
      split_ifs <;> decide
  | serverLive | receiveLive | sendLive =>
    simp only [hplace] at h
    obtain rfl := Option.some.inj h
    refine .inr (.inr ⟨by simp, near_deref ?_ ?_⟩)
    · split_ifs <;> simp [Disconnect.Past]
    · rw [hplace]
      split_ifs <;> decide
  | receiveStream | sendStream =>
    simp only [hplace] at h
    obtain rfl := Option.some.inj h
    exact .inr (.inr ⟨by simp, near_deref rfl (by rw [hplace]; decide)⟩)
  | stopTest buf =>
    simp only [hplace] at h
    obtain rfl := Option.some.inj h
    exact .inr (.inr ⟨by simp, rfl, id, by rw [hplace]; exact le_rfl⟩)
  | disconnectNull k =>
    simp only [hplace] at h
    obtain rfl := Option.some.inj h
    have hk : k ≠ .connect := by simpa [hplace, Disconnect.Past] using hpast
    refine .inr (.inr ⟨by simp, near_goto ?_ ?_⟩)
    · split_ifs
      · simpa [Disconnect.Past] using hk
      · exact past_next
    · rw [hplace]
      split_ifs
      · exact le_rfl
      · exact owes_next k
  | clear k =>
    simp only [hplace] at h
    obtain rfl := Option.some.inj h
    exact .inr (.inr ⟨by simp, past_next, id, hplace ▸ owes_next k⟩)
  | closeOutput k | closeInput k =>
    simp only [hplace] at h
    obtain rfl := Option.some.inj h
    have hk : k ≠ .connect := by simpa [hplace, Disconnect.Past] using hpast
    refine .inr (.inr ⟨by simp, near_close hk (by simpa [Disconnect.Past] using hk) ?_ ?_⟩)
    · rw [hplace]
      exact le_rfl
    · rw [hplace]
      exact le_rfl
  | closeSocket k =>
    simp only [hplace] at h
    obtain rfl := Option.some.inj h
    have hk : k ≠ .connect := by simpa [hplace, Disconnect.Past] using hpast
    obtain ⟨hpast', -, howes⟩ : Near s (s.close a k (.clear k)) :=
      near_close hk (by simpa [Disconnect.Past] using hk) (by rw [hplace]; exact le_rfl)
        (by rw [hplace]; exact le_rfl)
    refine .inr (.inr ⟨by simp, hpast', ?_, howes⟩)
    dsimp only
    split_ifs
    · simp
    · exact id

/-- How many answers a step gives, and how many things it reads. -/
def given (s : Service) (a : Action) : ℕ := if Answers s a then 1 else 0

def taken (s : Service) (a : Action) (s' : Service) : ℕ := if readBytes s a s' = [] then 0 else 1

/-- A step keeps to `runServer`, and what it answers was read before. -/
structure Turn (s : Service) (a : Action) (s' : Service) : Prop where
  past : Disconnect.Past s'.place = true
  link : s'.link = .connected → s.link = .connected
  owed : s'.link = .connected → given s a + owes s'.place ≤ owes s.place + taken s a s'

lemma taken_le (s : Service) (a : Action) (s' : Service) :
    taken s a s' ≤ (readBytes s a s').length := by
  unfold taken
  split_ifs with h
  · exact Nat.zero_le _
  · exact List.length_pos_iff.mpr h

lemma given_of_ne {a : Answer} (h : s.place ≠ .sendWrite) : given s (.work a) = 0 :=
  if_neg fun hanswers => h hanswers.1

lemma Near.turn {a : Action} (h : Near s s') (hgiven : given s a = 0) : Turn s a s' :=
  ⟨h.past, h.link, fun _ => by have := h.owes; omega⟩

lemma owes_of_answers {a : Action} (h : Answers s a) : s.link = .connected ∧ owes s.place = 1 := by
  cases a with
  | work a =>
    obtain ⟨hplace, hlink, -⟩ := h
    exact ⟨hlink, by rw [hplace]; rfl⟩
  | drop | destroy => exact h.elim

lemma turn_of_step {a : Action} (hpast : Disconnect.Past s.place = true)
    (h : BluetoothInteraction.step s a = some s') : Turn s a s' := by
  cases a with
  | work a =>
    rcases work_shape hpast h with ⟨hplace, rfl, hdata⟩ | ⟨hplace, rfl⟩ | ⟨hplace, hnear⟩
    · refine ⟨rfl, id, fun hlink => ?_⟩
      have hread : readBytes s (.work a) (s.receive a.read) ≠ [] := by
        rcases hread : a.read with m | _
        · simpa [readBytes, Messages.call, hplace, Service.receive, hread] using m.nonempty
        · exact absurd hread (hdata hlink)
      rw [given_of_ne (by simp [hplace]), taken, if_neg hread, hplace]
      exact le_rfl
    · refine ⟨rfl, id, fun _ => ?_⟩
      have hgiven : given s (.work a) ≤ 1 := by
        unfold given
        split_ifs <;> decide
      have howes : owes s.place = 1 := by rw [hplace]; rfl
      have hnext : owes (s.goto .serverNull).place = 0 := rfl
      omega
    · exact hnear.turn (given_of_ne hplace)
  | drop =>
    simp only [BluetoothInteraction.step] at h
    split_ifs at h
    obtain rfl := Option.some.inj h
    exact Near.turn ⟨hpast, by simp, le_rfl⟩ rfl
  | destroy ok =>
    obtain rfl := Option.some.inj h
    have hnear : Near s (s.onDestroy ok) := by
      unfold Service.onDestroy
      split_ifs
      · exact ⟨hpast, by simp, le_rfl⟩
      · exact ⟨hpast, id, le_rfl⟩
      · exact ⟨hpast, id, le_rfl⟩
    exact hnear.turn rfl

/-! ### One step -/

/-- `m` answers were given, each to something the app had read. -/
structure Owing (t : Talk) (m : ℕ) : Prop where
  said : Repeats world m t.up.written
  le : m ≤ t.heard
  owed : t.phone.link = .connected → m + owes t.phone.place ≤ t.heard

/-- What holds of the two from the beginning of the conversation on. -/
structure Kept (t : Talk) : Prop where
  pays : ∀ v, t.server = some v → Pays t.trace v
  paid : 100 * paidSeconds t.trace ≤ received t.trace
  silent : ∀ p bytes, .echoed p bytes ∈ t.trace → bytes = []
  written : t.down.written = writtenBytes t.trace
  reads : t.up.taken = receivedBytes t.trace
  answered : ∃ m, Owing t m
  heard : t.heard ≤ t.down.taken.length
  past : Disconnect.Past t.phone.place = true

variable {t t' : Talk}

lemma serve_eq_some (h : t.serve S clock r = some t') :
    ∃ v up, t.server = some v ∧
      t.up.receive (receivedBytes (onePass S clock r v).events) = some up ∧
      t' = { t with
        server := (onePass S clock r v).result.toOption
        trace := t.trace ++ (onePass S clock r v).events
        down := t.down.send (writtenBytes (onePass S clock r v).events), up := up } := by
  obtain ⟨v, hv, h⟩ := Option.bind_eq_some_iff.mp h
  obtain ⟨up, hup, h⟩ := Option.bind_eq_some_iff.mp h
  exact ⟨v, up, hv, hup, (Option.some.inj h).symm⟩

lemma serve_of_receive {up : Channel Byte} (hv : t.server = some v)
    (hup : t.up.receive (receivedBytes (onePass S clock r v).events) = some up) :
    t.serve S clock r = some { t with
      server := (onePass S clock r v).result.toOption
      trace := t.trace ++ (onePass S clock r v).events
      down := t.down.send (writtenBytes (onePass S clock r v).events), up := up } := by
  simp only [Talk.serve, hv, Option.bind_eq_bind, Option.bind_some, hup]

lemma act_eq_some {a : Action} (h : t.act a = some t') :
    ∃ s down, BluetoothInteraction.step t.phone a = some s ∧
      t.down.receive (readBytes t.phone a s) = some down ∧
      t' = { t with
        phone := s, heard := t.heard + taken t.phone a s, down := down
        up := t.up.send (if Answers t.phone a then world else []) } := by
  obtain ⟨s, hs, h⟩ := Option.bind_eq_some_iff.mp h
  obtain ⟨down, hdown, h⟩ := Option.bind_eq_some_iff.mp h
  exact ⟨s, down, hs, hdown, (Option.some.inj h).symm⟩

lemma kept_serve (h : Kept t) (hs : t.serve S clock r = some t') : Kept t' := by
  obtain ⟨v, up, hv, hup, rfl⟩ := serve_eq_some hs
  obtain ⟨hwritten, htaken, -⟩ := Channel.receive_eq_some hup
  obtain ⟨m, hm⟩ := h.answered
  have hpaid := (h.pays v hv).paidSeconds_pass_le S clock r
  refine ⟨fun v' hv' => ?_, hpaid, ?_, ?_, ?_, ⟨m, ?_, hm.le, hm.owed⟩, h.heard, h.past⟩
  · rcases hres : (onePass S clock r v).result with e | v₁
    · simp [hres, Except.toOption] at hv'
    · rw [hres] at hv'
      obtain rfl := Option.some.inj hv'
      exact (h.pays v hv).pass hres
  · intro p bytes hmem
    rcases List.mem_append.mp hmem with hmem | hmem
    · exact h.silent p bytes hmem
    · exact shown_pass _ hmem
  · simp [h.written, writtenBytes]
  · simp [htaken, h.reads, receivedBytes]
  · rw [hwritten]
    exact hm.said

lemma kept_act {a : Action} (h : Kept t) (hs : t.act a = some t') : Kept t' := by
  obtain ⟨s, down, hstep, hdown, rfl⟩ := act_eq_some hs
  obtain ⟨hwritten, htaken, -⟩ := Channel.receive_eq_some hdown
  obtain ⟨m, hm⟩ := h.answered
  have hturn := turn_of_step h.past hstep
  refine ⟨h.pays, h.paid, h.silent, hwritten.trans h.written, h.reads,
    ⟨m + given t.phone a, ?_⟩, ?_, hturn.past⟩
  · have howed : s.link = .connected → m + given t.phone a + owes s.place ≤
        t.heard + taken t.phone a s := fun hlink => by
      have hbefore := hm.owed (hturn.link hlink)
      have hafter := hturn.owed hlink
      omega
    by_cases hanswers : Answers t.phone a
    · obtain ⟨hlink, howes⟩ := owes_of_answers hanswers
      have hbefore := hm.owed hlink
      have hone : given t.phone a = 1 := if_pos hanswers
      refine ⟨?_, by dsimp only; omega, howed⟩
      rw [hone, if_pos hanswers]
      exact hm.said.snoc
    · have hzero : given t.phone a = 0 := if_neg hanswers
      refine ⟨?_, by have := hm.le; dsimp only; omega, howed⟩
      rw [hzero, if_neg hanswers, Channel.send_nil]
      exact hm.said
  · have hbefore := h.heard
    have hmore := taken_le t.phone a s
    have hlength : down.taken.length = t.down.taken.length + (readBytes t.phone a s).length := by
      rw [htaken, List.length_append]
    dsimp only
    omega

lemma kept_step {x : Move} (h : Kept t) (hs : step S clock t x = some t') : Kept t' := by
  cases x with
  | serve r => exact kept_serve h hs
  | act a => exact kept_act h hs

lemma kept_of_begins {T : ℤ} (h : t.Begins clock T) : Kept t := by
  obtain ⟨v, hv, haccepted⟩ := h.server
  have hpays : Pays t.trace v := h.trace ▸ pays_of_accepted haccepted
  have hpaid : 100 * paidSeconds t.trace ≤ received t.trace := hpays.paidSeconds_le
  refine ⟨fun v' hv' => ?_, hpaid, by simp [h.trace], ?_, ?_, ⟨0, ?_, Nat.zero_le _, fun _ => ?_⟩,
    ?_, ?_⟩
  · obtain rfl := Option.some.inj (hv.symm.trans hv')
    exact hpays
  · rw [h.down, h.trace]
    rfl
  · rw [h.up, h.trace]
    rfl
  · rw [h.up]
    exact repeats_zero world
  · rw [h.place]
    exact Nat.zero_le _
  · rw [h.heard]
    exact Nat.zero_le _
  · rw [h.place]
    rfl

/-! ### A conversation -/

/-- The app has read greetings and nothing else, each time at least a byte of one. The server has
read answers and nothing else; `m` of them were given, each to something the app had read, and each
second that a check of the server let pass took 20 of them. -/
structure KeepsPace (t : Talk) : Prop where
  down : t.down.taken <+: (List.replicate (t.trace.countP isGreeting) hello).flatten
  heard : t.heard ≤ 5 * t.trace.countP isGreeting
  answered : ∃ m : ℕ, receivedBytes t.trace <+: (List.replicate m world).flatten ∧ m ≤ t.heard ∧
    20 * paidSeconds t.trace ≤ m

lemma Kept.keepsPace (h : Kept t) : KeepsPace t := by
  have hgreeted : Repeats hello (t.trace.countP isGreeting) t.down.written :=
    h.written ▸ repeats_written h.silent
  obtain ⟨m, hm⟩ := h.answered
  have hdown := t.down.taken_prefix
  have hup := t.up.taken_prefix
  refine ⟨?_, ?_, m, ?_, hm.le, ?_⟩
  · rwa [hgreeted] at hdown
  · have hlength : t.down.written.length = t.trace.countP isGreeting * 5 := hgreeted.length
    have hle := t.down.length_taken_le
    have hheard := h.heard
    omega
  · rwa [hm.said, h.reads] at hup
  · have hpaid := h.paid
    have hlength : t.up.written.length = m * 5 := hm.said.length
    have hle := t.up.length_taken_le
    rw [received_eq, ← h.reads] at hpaid
    omega

/-- **The phone pays for every second with twenty answers.** In every order of steps, what the
checks of the server have let pass was paid for by answers of the app to greetings it had read, in
order and with nothing lost. -/
theorem keeps_pace {T : ℤ} {Ok : Talk → Move → Prop} {n : ℕ} (hbegins : t.Begins clock T)
    (hrun : Run (step S clock) cost Ok n t t') : KeepsPace t' := by
  have hkept : Kept t' :=
    hrun.invariant (fun _ _ _ h _ hs => kept_step h hs) (kept_of_begins hbegins)
  exact hkept.keepsPace

/-! ### After the loss of the connection -/

/-- The server's part of a conversation that began at `T`. -/
structure InTime (clock : ℕ → ℤ) (g T : ℤ) (t : Talk) : Prop extends Kept t where
  timely : ∀ v, t.server = some v → Timely clock g T t.trace v

lemma inTime_step (hg : Advances clock g) {x : Move} (h : InTime clock g T t)
    (hs : step S clock t x = some t') : InTime clock g T t' := by
  refine ⟨kept_step h.toKept hs, fun v' hv' => ?_⟩
  cases x with
  | serve r =>
    obtain ⟨v, up, hv, -, rfl⟩ := serve_eq_some hs
    rcases hres : (onePass S clock r v).result with e | v₁
    · simp [hres, Except.toOption] at hv'
    · rw [hres] at hv'
      obtain rfl := Option.some.inj hv'
      exact (h.timely v hv).pass hg hres
  | act a =>
    obtain ⟨s, down, -, -, rfl⟩ := act_eq_some hs
    exact h.timely v' hv'

lemma inTime_of_begins (hg : Advances clock g) (h : t.Begins clock T) : InTime clock g T t := by
  refine ⟨kept_of_begins h, fun v' hv' => ?_⟩
  obtain ⟨v, hv, haccepted⟩ := h.server
  obtain rfl := Option.some.inj (hv.symm.trans hv')
  rw [h.trace]
  exact timely_of_accepted hg haccepted

/-- Without the connection the app says nothing more. -/
structure Mute (W : List Byte) (t : Talk) : Prop where
  link : t.phone.link ≠ .connected
  written : t.up.written = W

lemma mute_step {W : List Byte} {x : Move} (hpast : Disconnect.Past t.phone.place = true)
    (h : Mute W t) (hs : step S clock t x = some t') : Mute W t' := by
  cases x with
  | serve r =>
    obtain ⟨v, up, -, hup, rfl⟩ := serve_eq_some hs
    exact ⟨h.link, (Channel.receive_eq_some hup).1.trans h.written⟩
  | act a =>
    obtain ⟨s, down, hstep, -, rfl⟩ := act_eq_some hs
    have hsilent : ¬ Answers t.phone a := fun hanswers => h.link (owes_of_answers hanswers).1
    refine ⟨fun hlink => h.link ((turn_of_step hpast hstep).link hlink), ?_⟩
    rw [if_neg hsilent, Channel.send_nil]
    exact h.written

/-- **The screen does not stay unlocked without the phone.** In every order of steps, a server that
is still there after the connection is lost has read the clock no later than the answers given
before the loss can pay for. -/
theorem ends_after_loss {Ok : Talk → Move → Prop} {m n : ℕ} {lost : Talk} (hg : Advances clock g)
    (hbegins : t.Begins clock T) (hrun : Run (step S clock) cost Ok m t lost)
    (hlost : lost.phone.link ≠ .connected) (hafter : Run (step S clock) cost Ok n lost t')
    (hv : t'.server = some v) : 120 * (v.stop - T - 5 - g) ≤ (6 + g) * lost.heard := by
  have hstep : ∀ u x u', InTime clock g T u → Ok u x → step S clock u x = some u' →
      InTime clock g T u' := fun u x u' h _ hs => inTime_step hg h hs
  have hinTime : InTime clock g T lost := hrun.invariant hstep (inTime_of_begins hg hbegins)
  obtain ⟨hinTime', hmute⟩ : InTime clock g T t' ∧ Mute lost.up.written t' := by
    apply hafter.invariant _ ⟨hinTime, hlost, rfl⟩
    rintro u x u' ⟨h, hmute⟩ hok hs
    exact ⟨hstep u x u' h hok hs, mute_step h.past hmute hs⟩
  obtain ⟨k, hk⟩ := hinTime.answered
  have hpaid := (hinTime'.timely v hv).time_le hg (hinTime'.pays v hv)
  have hlength : lost.up.written.length = k * 5 := hk.said.length
  have hread : received t'.trace ≤ 5 * lost.heard := by
    have hle := t'.up.length_taken_le
    have hheard := hk.le
    rw [received_eq, ← hinTime'.reads]
    rw [hmute.written] at hle
    omega
  have hmost := mul_le_mul_of_nonneg_left hread (Int.add_nonneg (by decide) hg.nonneg :
    0 ≤ 6 + g)
  rw [mul_left_comm] at hmost
  omega

/-! ### A conversation at a pace -/

/-- The phone has been accepted. -/
def accepted : Talk where
  server := some ⟨some phone, phone, 0, 0, 0, 1⟩
  trace := []
  phone := ⟨true, .connected, .zero, false, .serverNull⟩
  heard := 0
  down := .empty
  up := .empty

/-- 20 readings of the clock in a second. -/
def twenties : ℕ → ℤ := fun n => (n / 20 : ℕ)

lemma advances_twenties : Advances twenties 1 := by
  refine ⟨by decide, fun n => ?_⟩
  have hstep : (n + 1) / 20 ≤ n / 20 + 1 := by omega
  unfold twenties
  exact_mod_cast hstep

lemma accepted_begins : accepted.Begins twenties 0 where
  server := ⟨_, rfl, ⟨rfl, le_rfl, 0, rfl, rfl⟩, rfl, rfl, rfl⟩
  trace := rfl
  place := rfl
  held := rfl
  link := rfl
  heard := rfl
  down := rfl
  up := rfl

/-- A pass that can write, and in which nothing is read. -/
def listen : Round := ⟨⟨none, phoneView⟩, none, true, []⟩

/-- The same, with an answer to read. -/
def heed : Round := ⟨⟨none, phoneView⟩, some ⟨world, by decide, by decide⟩, true, []⟩

def hear : Action := .work ⟨true, .data ⟨hello, by decide, by decide⟩⟩

lemma measure_eq (S : Setup) (clock : ℕ → ℤ) (hdue : v.stop - v.start ≤ 5) :
    measure S clock v = pure v := by
  unfold Deauth.measure
  rw [if_neg (not_lt.mpr hdue)]

variable {num start stop : ℤ} {tick : ℕ}

lemma listen_eq (clock : ℕ → ℤ) (hdue : stop - start ≤ 5) :
    onePass usualSetup clock listen ⟨some phone, phone, num, start, stop, tick⟩ =
      ⟨[.greeted phone], .ok ⟨some phone, phone, num, start, clock tick, tick + 1⟩⟩ := by
  rw [onePass, connect_of_isSome rfl, Act.pure_bind, receive_of_none rfl, Act.pure_bind,
    measure_eq _ _ hdue, Act.pure_bind]
  rfl

/-- The answer is counted before the check. -/
lemma heed_eq (clock : ℕ → ℤ) (h₀ : 0 ≤ num) (hfew : num ≤ 1000) :
    onePass usualSetup clock heed ⟨some phone, phone, num, start, stop, tick⟩ =
      Act.emit (.received phone world) >>= fun _ =>
        measure usualSetup clock ⟨some phone, phone, num + 5, start, stop, tick⟩ >>=
          finish usualSetup clock heed := by
  have hmax : intMax = 2 ^ 31 - 1 := rfl
  have hlength : (world.length : ℤ) = 5 := rfl
  have hin : incoming heed ⟨some phone, phone, num, start, stop, tick⟩ =
      some ⟨world, by decide, by decide⟩ := rfl
  have hadd : addBytes num world.length = num + 5 := by
    rw [addBytes, if_pos (by omega), hlength, wrap32_of_lt (by omega) (by omega)]
  have hevents := receive_some_events rfl hin
  rw [if_neg (by dsimp only; omega)] at hevents
  have hresult : (receive heed ⟨some phone, phone, num, start, stop, tick⟩).result =
      .ok ⟨some phone, phone, num + 5, start, stop, tick⟩ := by
    rw [receive_result, ← hadd]
    rfl
  rw [onePass, connect_of_isSome rfl, Act.pure_bind, Act.bind_of_ok hresult, hevents]
  rfl

lemma heed_early (clock : ℕ → ℤ) (h₀ : 0 ≤ num) (hfew : num ≤ 1000) (hdue : stop - start ≤ 5) :
    onePass usualSetup clock heed ⟨some phone, phone, num, start, stop, tick⟩ =
      ⟨[.received phone world, .echoed phone [], .greeted phone],
        .ok ⟨some phone, phone, num + 5, start, clock tick, tick + 1⟩⟩ := by
  rw [heed_eq clock h₀ hfew, measure_eq _ _ hdue, Act.pure_bind]
  rfl

variable {Ok : Talk → Move → Prop} {n m : ℕ} {t₀ : Talk}

abbrev Goes (n : ℕ) (t t' : Talk) : Prop :=
  Run (step usualSetup twenties) cost (fun _ _ => True) n t t'

/-- The worker is at the beginning of its loop, with the connection. -/
structure Ready (s : Service) : Prop where
  held : s.held = true
  link : s.link = .connected
  place : s.place = .serverNull

/-- The way of the app from a greeting to its answer. -/
lemma hears (hrun : Goes m t₀ t) (hphone : Ready t.phone) (hdown : t.down.pending = hello)
    (hup : t.up.pending = []) :
    ∃ t', Goes m t₀ t' ∧ t'.server = t.server ∧ t'.trace = t.trace ∧ Ready t'.phone ∧
      t'.heard = t.heard + 1 ∧ t'.down.pending = [] ∧ t'.up.pending = world := by
  obtain ⟨server, trace, ⟨held, link, buffer, stopping, place⟩, heard, ⟨dw, dt, dp, hd⟩,
    ⟨uw, ut, up, hu⟩⟩ := t
  obtain ⟨rfl, rfl, rfl⟩ := hphone
  dsimp only at hdown hup
  subst hdown hup
  exact ⟨_, hrun.replay (List.replicate 11 (.act hear)) rfl, rfl, rfl, ⟨rfl, rfl, rfl⟩, rfl, rfl,
    rfl⟩

/-- `n + 1` greetings were answered, and the last answer is on its way. -/
structure Exchanged (n : ℕ) (t : Talk) : Prop where
  server : t.server = some ⟨some phone, phone, 5 * n, 0, twenties (n + 1), n + 2⟩
  quiet : checks t.trace = []
  phone : Ready t.phone
  heard : t.heard = n + 1
  down : t.down.pending = []
  up : t.up.pending = world

lemma exchanged_zero : ∃ t, Goes 1 accepted t ∧ Exchanged 0 t := by
  have hrun : ∃ t, Goes 1 accepted t ∧ t.server = some ⟨some phone, phone, 0, 0, 0, 2⟩ ∧
      checks t.trace = [] ∧ Ready t.phone ∧ t.heard = 0 ∧ t.down.pending = hello ∧
      t.up.pending = [] :=
    ⟨_, (Run.refl accepted).replay [.serve listen] rfl, rfl, rfl, ⟨rfl, rfl, rfl⟩, rfl, rfl, rfl⟩
  obtain ⟨t, hrun, hserver, hquiet, hphone, hheard, hdown, hup⟩ := hrun
  obtain ⟨t', hrun', hserver', htrace', hphone', hheard', hdown', hup'⟩ :=
    hears hrun hphone hdown hup
  refine ⟨t', hrun', hserver'.trans hserver, ?_, hphone', ?_, hdown', hup'⟩
  · rw [htrace', hquiet]
  · rw [hheard', hheard]

/-- The server reads the answer that is on its way. -/
lemma heeds (hrun : Goes m t₀ t) (hserver : t.server = some v) (hup : t.up.pending = world)
    (hread : receivedBytes (onePass usualSetup twenties heed v).events = world) :
    ∃ up : Channel Byte, up.pending = [] ∧ Goes (m + 1) t₀ { t with
      server := (onePass usualSetup twenties heed v).result.toOption
      trace := t.trace ++ (onePass usualSetup twenties heed v).events
      down := t.down.send (writtenBytes (onePass usualSetup twenties heed v).events)
      up := up } := by
  obtain ⟨up, hreceive⟩ : ∃ up, t.up.receive world = some up :=
    Channel.exists_receive (hup ▸ List.prefix_rfl)
  have hpending := (Channel.receive_eq_some hreceive).2.2
  rw [hup, List.self_eq_append_right] at hpending
  rw [← hread] at hreceive
  exact ⟨up, hpending, hrun.tail trivial
    (show step usualSetup twenties t (.serve heed) = some _ from serve_of_receive hserver hreceive)⟩

lemma exchanged_succ {n : ℕ} (hn : n < 119) (hrun : Goes m t₀ t) (h : Exchanged n t) :
    ∃ t', Goes (m + 1) t₀ t' ∧ Exchanged (n + 1) t' := by
  have hdue : twenties (n + 1) - 0 ≤ 5 := by
    have hle : (n + 1) / 20 ≤ 5 := by omega
    unfold twenties
    omega
  have hpass : onePass usualSetup twenties heed
      ⟨some phone, phone, 5 * n, 0, twenties (n + 1), n + 2⟩ = _ :=
    heed_early twenties (by omega) (by omega) hdue
  have hread : receivedBytes (onePass usualSetup twenties heed
      ⟨some phone, phone, 5 * n, 0, twenties (n + 1), n + 2⟩).events = world := by
    rw [hpass]
    rfl
  obtain ⟨up, hpending, hrun₁⟩ := heeds hrun h.server h.up hread
  rw [hpass] at hrun₁
  have hdown : (t.down.send (writtenBytes [.received phone world, .echoed phone [],
      .greeted phone])).pending = hello := by
    rw [Channel.send_pending, h.down]
    rfl
  obtain ⟨t', hrun', hserver', htrace', hphone', hheard', hdown', hup'⟩ :=
    hears hrun₁ h.phone hdown hpending
  refine ⟨t', hrun', ?_, ?_, hphone', ?_, hdown', hup'⟩
  · rw [hserver']
    change some _ = some _
    push_cast
    rw [mul_add, mul_one]
  · rw [htrace', checks_append, h.quiet]
    rfl
  · rw [hheard']
    exact congrArg (· + 1) h.heard

lemma exchanged : ∀ n < 120, ∃ t, Goes (n + 1) accepted t ∧ Exchanged n t := by
  intro n
  induction n with
  | zero => exact fun _ => exchanged_zero
  | succ n ih =>
    intro hn
    obtain ⟨t, hrun, ht⟩ := ih (by omega)
    exact exchanged_succ (by omega) hrun ht

/-- The 120th answer comes in with the check, and pays for the sixth second. -/
lemma pays_six (hrun : Goes m t₀ t) (hup : t.up.pending = world) (hquiet : checks t.trace = [])
    (hserver : t.server = some ⟨some phone, phone, 595, 0, 6, 121⟩) :
    ∃ t', Goes (m + 1) t₀ t' ∧ t'.server = some ⟨some phone, phone, 0, 6, 6, 123⟩ ∧
      checks t'.trace = [(6, 600)] ∧ t'.heard = t.heard := by
  have hpass : onePass usualSetup twenties heed ⟨some phone, phone, 595, 0, 6, 121⟩ =
      ⟨[.received phone world, .checked 6 600, .echoed phone [], .greeted phone],
        .ok ⟨some phone, phone, 0, 6, 6, 123⟩⟩ := by
    rw [heed_eq twenties (by decide) (by decide)]
    rfl
  obtain ⟨up, -, hrun'⟩ := heeds hrun hserver hup (by rw [hpass]; rfl)
  rw [hpass] at hrun'
  refine ⟨_, hrun', rfl, ?_, rfl⟩
  rw [checks_append, hquiet]
  rfl

/-- The server goes on for a while without hearing anything. -/
lemma listens {start : ℤ} (k : ℕ) (hrun : Goes m t₀ t)
    (hserver : t.server = some ⟨some phone, phone, 0, start, twenties n, n + 1⟩)
    (hdue : twenties (n + k) - start ≤ 5) :
    ∃ t', Goes (m + k) t₀ t' ∧ checks t'.trace = checks t.trace ∧
      t'.server = some ⟨some phone, phone, 0, start, twenties (n + k), n + k + 1⟩ := by
  induction k with
  | zero => exact ⟨t, hrun, rfl, hserver⟩
  | succ k ih =>
    have hmono : twenties (n + k) ≤ twenties (n + (k + 1)) := by
      have hle : (n + k) / 20 ≤ (n + (k + 1)) / 20 := by omega
      unfold twenties
      exact_mod_cast hle
    obtain ⟨t', hrun', hchecks, hserver'⟩ := ih (by omega)
    have hpass : onePass usualSetup twenties listen
        ⟨some phone, phone, 0, start, twenties (n + k), n + k + 1⟩ = _ :=
      listen_eq twenties (by omega)
    obtain ⟨up, hreceive⟩ : ∃ up, t'.up.receive [] = some up :=
      Channel.exists_receive List.nil_prefix
    have hserve := serve_of_receive (r := listen) hserver' (by rw [hpass]; exact hreceive)
    rw [hpass] at hserve
    refine ⟨_, hrun'.tail trivial
      (show step usualSetup twenties t' (.serve listen) = some _ from hserve), ?_, rfl⟩
    rw [checks_append, hchecks]
    exact List.append_nil _

theorem keeps_pace_accepted : ∃ (n : ℕ) (t : Talk), Goes n accepted t ∧ t.server.isSome = true ∧
    checks t.trace = [(6, 600)] ∧ t.heard = 120 ∧ KeepsPace t := by
  obtain ⟨t, hrun, ht⟩ := exchanged 119 (by decide)
  obtain ⟨t', hrun', hserver, hchecks, hheard⟩ := pays_six hrun ht.up ht.quiet ht.server
  exact ⟨_, t', hrun', by rw [hserver]; rfl, hchecks, hheard.trans ht.heard,
    keeps_pace accepted_begins hrun'⟩

/-- The phone goes away with its last answer on the way; the server reads that, and is still there 5
seconds later. -/
theorem ends_after_loss_accepted : ∃ (m n : ℕ) (lost t' : Talk) (v : Vars),
    Goes m accepted lost ∧ lost.phone.link = .dropped ∧ lost.heard = 120 ∧ Goes n lost t' ∧
    checks t'.trace = [(6, 600)] ∧ t'.server = some v ∧ v.stop = 11 ∧
    120 * (v.stop - 0 - 5 - 1) ≤ (6 + 1) * (lost.heard : ℤ) := by
  obtain ⟨t, hrun, ht⟩ := exchanged 119 (by decide)
  obtain ⟨lost, hlost, hlink, hheard, hsame⟩ : ∃ lost, Goes 120 accepted lost ∧
      lost.phone.link = .dropped ∧ lost.heard = 120 ∧
      lost.up.pending = world ∧ lost.trace = t.trace ∧ lost.server = t.server := by
    obtain ⟨server, trace, ⟨held, link, buffer, stopping, place⟩, heard, ⟨dw, dt, dp, hd⟩,
      ⟨uw, ut, up, hu⟩⟩ := t
    obtain ⟨-, -, ⟨rfl, rfl, rfl⟩, hheard, hdown, hup⟩ := ht
    dsimp only at hheard hdown hup
    subst hheard hdown hup
    exact ⟨_, hrun.replay [.act .drop] rfl, rfl, rfl, rfl, rfl, rfl⟩
  obtain ⟨hup, htrace, hserver⟩ := hsame
  obtain ⟨t₁, hrun₁, hserver₁, hchecks₁, -⟩ := pays_six (Run.refl lost) hup (htrace ▸ ht.quiet)
    (hserver.trans ht.server)
  obtain ⟨t₂, hrun₂, hchecks₂, hserver₂⟩ := listens (n := 122) 98 hrun₁ hserver₁ (by decide)
  refine ⟨120, _, lost, t₂, _, hlost, hlink, hheard, hrun₂, hchecks₂.trans hchecks₁, hserver₂, rfl,
    ?_⟩
  exact ends_after_loss advances_twenties accepted_begins hlost (by rw [hlink]; decide) hrun₂
    hserver₂

end ProxyAuth.Conversation
