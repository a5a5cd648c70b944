import ProxyAuth.BluetoothInteraction

/-!
The service when the connection is lost.

Every test of the socket is made some steps before the use it is for. Where the loss is noticed by
the loop of `runServer`, and the socket is cleared only where no test is pending, the worker ends
and leaves nothing open.
-/

namespace ProxyAuth.Disconnect

open ProxyAuth.Runs ProxyAuth.BluetoothInteraction

/-! ### The condition -/

/-- No test of the socket is pending; here `onDestroy` may clear it. -/
def Quiet : Place → Bool
  | .connectNull | .create | .serverNull | .sendWrite | .disconnectNull _ | .clear _ => true
  | .finished => true
  | _ => false

/-- What the answer has to be: after the peer has gone, the loop is told so and the other calls do
not notice; closing a socket does not fail. -/
def needed (link : Link) : Place → Option Bool
  | .serverLive => if link = .dropped then some false else none
  | .receiveLive | .receiveRead | .sendLive => if link = .dropped then some true else none
  | .closeOutput _ | .closeInput _ | .closeSocket _ => if link = .closed then none else some true
  | _ => none

def Safe (s : Service) : Action → Prop
  | .work a => ∀ ok ∈ needed s.link s.place, a.ok = ok
  | .drop => True
  | .destroy ok => s.held = true → Quiet s.place = true ∧ (ok = true ∨ s.link = .closed)

instance (s : Service) : (a : Action) → Decidable (Safe s a)
  | .work a => inferInstanceAs (Decidable (∀ ok ∈ needed s.link s.place, a.ok = ok))
  | .drop => inferInstanceAs (Decidable True)
  | .destroy _ => inferInstanceAs (Decidable (s.held = true → _ ∧ _))

/-! ### The invariant -/

def Open (held : Bool) (link : Link) : Prop :=
  held = true ∧ (link = .connected ∨ link = .dropped)

def Gone (held : Bool) (link : Link) : Prop := held = false ∧ link = .closed

/-- With the other callers, `disconnect` comes back to a use of the socket. -/
def Ends (k : Caller) : Prop := k = .connect ∨ k = .runServer

/-- What is known about the socket at each place. -/
def At (held : Bool) (link : Link) : Place → Prop
  | .connectNull | .create => held = true ∨ Gone held link
  | .connectLive => held = true
  | .connect => held = true ∧ link = .created
  | .serverNull | .sendWrite => Open held link ∨ Gone held link
  | .serverLive => Open held link
  | .receiveNull | .receiveLive | .receiveStream | .receiveRead | .stopTest _ => Open held link
  | .sendNull | .sendLive | .sendStream => Open held link
  | .disconnectNull k => Ends k ∧ (held = true ∨ Gone held link)
  | .closeOutput k | .closeInput k | .closeSocket k => Ends k ∧ held = true
  | .clear k => Ends k ∧ link = .closed
  | .finished => Gone held link
  | .crashed _ => False

def Good (s : Service) : Prop := At s.held s.link s.place

lemma at_next {k : Caller} (h : Ends k) : At false .closed k.next := by
  rcases h with rfl | rfl
  · exact .inr ⟨rfl, rfl⟩
  · exact ⟨rfl, rfl⟩

lemma deref_of_held {s : Service} (h : s.held = true) (p : Place) : s.deref p = s.goto p := by
  rw [Service.deref, if_pos h]

lemma close_of_held {s : Service} {a : Answer} (h : s.held = true) (k : Caller) (p : Place) :
    s.close a k p = s.goto (if a.ok then p else .clear k) := by
  rw [Service.close, if_pos h]

lemma open_of_isConnected {s : Service} {a : Answer} (h : s.isConnected a = true) :
    s.link = .connected ∨ s.link = .dropped := by
  unfold Service.isConnected at h
  split at h
  · exact .inl ‹_›
  · exact .inr ‹_›
  · cases h
  · cases h

lemma isConnected_of_open {s : Service} {a : Answer} (h : Open s.held s.link)
    (hok : s.link = .dropped → a.ok = true) : s.isConnected a = true := by
  rcases h.2 with hlink | hlink
  · simp [Service.isConnected, hlink]
  · simp [Service.isConnected, hlink, hok hlink]

/-! ### The way out -/

/-- The worker is through with `connect`. -/
def Past : Place → Bool
  | .connectNull | .connectLive | .create | .connect => false
  | .disconnectNull k | .closeOutput k | .closeInput k | .closeSocket k | .clear k => k ≠ .connect
  | _ => true

/-- In or after `runServer`, without a connection. -/
def Lost (s : Service) : Prop := Past s.place = true ∧ (s.held = false ∨ s.link ≠ .connected)

/-- How many steps it takes to the end, when the next test in the loop is the last. -/
def rank : Place → ℕ
  | .receiveNull => 16
  | .receiveLive => 15
  | .receiveStream => 14
  | .receiveRead => 13
  | .stopTest _ => 12
  | .sendNull => 11
  | .sendLive => 10
  | .sendStream => 9
  | .sendWrite => 8
  | .serverNull => 7
  | .serverLive => 6
  | .disconnectNull _ => 5
  | .closeOutput _ => 4
  | .closeInput _ => 3
  | .closeSocket _ => 2
  | .clear _ => 1
  | _ => 0

lemma rank_le (p : Place) : rank p ≤ 16 := by
  cases p <;> simp [rank]

/-! ### Steps of the worker -/

/-- After the step the invariant holds and, where the connection was lost, the end is nearer. -/
structure Keeps (s s' : Service) : Prop where
  good : Good s'
  nearer : Lost s → Lost s' ∧ rank s'.place < rank s.place

lemma keeps_goto {s : Service} {p : Place} (hgood : At s.held s.link p)
    (hnearer : Lost s → Past p = true ∧ rank p < rank s.place) : Keeps s (s.goto p) :=
  ⟨hgood, fun hlost => ⟨⟨(hnearer hlost).1, hlost.2⟩, (hnearer hlost).2⟩⟩

/-- Before the server runs there is nothing to show about the way out. -/
lemma keeps_of_not_past {s s' : Service} (hpast : Past s.place = false) (hgood : Good s') :
    Keeps s s' :=
  ⟨hgood, fun hlost => by simp [Lost, hpast] at hlost⟩

/-- All steps of `disconnect` but the last stay in it. -/
lemma keeps_disconnect {s : Service} {p : Place} (hgood : At s.held s.link p)
    (hpast : Past p = Past s.place) (hrank : rank p < rank s.place) : Keeps s (s.goto p) :=
  keeps_goto hgood fun hlost => ⟨hpast.trans hlost.1, hrank⟩

lemma dropped_of_lost {s : Service} (hopen : Open s.held s.link) (hlost : Lost s) :
    s.link = .dropped := by
  rcases hlost.2 with hheld | hlink
  · simp [Open, hheld] at hopen
  · exact hopen.2.resolve_left hlink

lemma keeps_work {s s' : Service} {a : Answer} (h : Good s) (hsafe : Safe s (.work a))
    (hs : s.work a = some s') : Keeps s s' := by
  rw [Good] at h
  unfold Service.work at hs
  cases hplace : s.place with
  | connectNull =>
    simp only [hplace] at h hs
    obtain rfl := Option.some.inj hs
    apply keeps_of_not_past (by simp [hplace, Past])
    split_ifs with hheld
    · exact hheld
    · exact h
  | connectLive =>
    simp only [hplace] at h hs
    obtain rfl := Option.some.inj hs
    rw [deref_of_held h]
    apply keeps_of_not_past (by simp [hplace, Past])
    split_ifs with hconn
    · exact .inl ⟨h, open_of_isConnected hconn⟩
    · exact .inl h
  | create =>
    simp only [hplace] at h hs
    apply keeps_of_not_past (by simp [hplace, Past])
    split_ifs at hs
    · obtain rfl := Option.some.inj hs
      exact ⟨rfl, rfl⟩
    · obtain rfl := Option.some.inj hs
      exact ⟨.inl rfl, h⟩
  | connect =>
    simp only [hplace] at h hs
    rw [if_pos h.1] at hs
    apply keeps_of_not_past (by simp [hplace, Past])
    split_ifs at hs
    · obtain rfl := Option.some.inj hs
      exact .inl ⟨h.1, .inl rfl⟩
    · obtain rfl := Option.some.inj hs
      exact ⟨.inl rfl, .inl h.1⟩
  | serverNull =>
    simp only [hplace] at h hs
    obtain rfl := Option.some.inj hs
    rcases h with hopen | hgone
    · rw [if_pos hopen.1]
      exact keeps_goto hopen (by simp [hplace, Past, rank])
    · rw [if_neg (by simp [hgone.1])]
      exact keeps_goto ⟨.inr rfl, .inr hgone⟩ (by simp [hplace, Past, rank])
  | serverLive =>
    simp only [hplace] at h hs
    obtain rfl := Option.some.inj hs
    rw [deref_of_held h.1]
    split_ifs with hconn
    · -- Once the connection is lost, the loop is told so.
      refine keeps_goto h fun hlost => ?_
      have hlink := dropped_of_lost h hlost
      have hok : a.ok = false := hsafe false (by simp [needed, hplace, hlink])
      simp [Service.isConnected, hlink, hok] at hconn
    · exact keeps_goto ⟨.inr rfl, .inl h.1⟩ (by simp [hplace, Past, rank])
  | receiveNull | sendNull =>
    simp only [hplace] at h hs
    obtain rfl := Option.some.inj hs
    rw [if_pos h.1]
    exact keeps_goto h (by simp [hplace, Past, rank])
  | receiveLive | sendLive =>
    simp only [hplace] at h hs
    have hok : s.link = .dropped → a.ok = true := fun hlink =>
      hsafe true (by simp [needed, hplace, hlink])
    obtain rfl := Option.some.inj hs
    rw [deref_of_held h.1, if_pos (isConnected_of_open h hok)]
    exact keeps_goto h (by simp [hplace, Past, rank])
  | receiveStream =>
    simp only [hplace] at h hs
    obtain rfl := Option.some.inj hs
    rw [deref_of_held h.1]
    exact keeps_goto h (by simp [hplace, Past, rank])
  | sendStream =>
    simp only [hplace] at h hs
    obtain rfl := Option.some.inj hs
    rw [deref_of_held h.1]
    exact keeps_goto (.inl h) (by simp [hplace, Past, rank])
  | receiveRead =>
    simp only [hplace] at h hs
    have hreceive : ∀ r, Keeps s (s.receive r) := fun r =>
      ⟨h, fun hlost => ⟨⟨rfl, hlost.2⟩, by simp [hplace, rank, Service.receive]⟩⟩
    rcases h.2 with hlink | hlink
    · rcases hread : a.read with m | _
      · simp only [hlink, hread] at hs
        obtain rfl := Option.some.inj hs
        exact hreceive (.data m)
      · simp [hlink, hread] at hs
    · have hok : a.ok = true := hsafe true (by simp [needed, hplace, hlink])
      simp only [hlink, hok, if_true] at hs
      obtain rfl := Option.some.inj hs
      exact hreceive a.read
  | stopTest buf =>
    simp only [hplace] at h hs
    obtain rfl := Option.some.inj hs
    exact ⟨h, fun hlost => ⟨⟨rfl, hlost.2⟩, by simp [hplace, rank]⟩⟩
  | sendWrite =>
    simp only [hplace] at h hs
    obtain rfl := Option.some.inj hs
    exact keeps_goto h (by simp [hplace, Past, rank])
  | disconnectNull k =>
    simp only [hplace] at h hs
    obtain rfl := Option.some.inj hs
    rcases h with ⟨hk, hheld | hgone⟩
    · rw [if_pos hheld]
      exact keeps_disconnect ⟨hk, hheld⟩ (by rw [hplace]; rfl) (by simp [hplace, rank])
    · rw [if_neg (by simp [hgone.1])]
      refine keeps_goto ?_ fun hlost => ?_
      · rw [hgone.1, hgone.2]
        exact at_next hk
      · have hk := hk.resolve_left (by simpa [Lost, hplace, Past] using hlost.1)
        simp [hplace, hk, Caller.next, Past, rank]
  | closeOutput k | closeInput k =>
    simp only [hplace] at h hs
    have hclosed : a.ok = false → s.link = .closed := fun hok => by
      by_contra hlink
      simpa [hok] using hsafe true (by simp [needed, hplace, hlink])
    obtain rfl := Option.some.inj hs
    rw [close_of_held h.2]
    split_ifs with hok
    · exact keeps_disconnect h (by rw [hplace]; rfl) (by simp [hplace, rank])
    · exact keeps_disconnect ⟨h.1, hclosed (by simpa using hok)⟩ (by rw [hplace]; rfl)
        (by simp [hplace, rank])
  | closeSocket k =>
    simp only [hplace] at h hs
    have hlink : (if s.held && a.ok then Link.closed else s.link) = .closed := by
      by_contra hlink
      rcases hok : a.ok with _ | _
      · rw [hok, Bool.and_false, if_neg (by simp)] at hlink
        simpa [hok] using hsafe true (by simp [needed, hplace, hlink])
      · simp [h.2, hok] at hlink
    obtain rfl := Option.some.inj hs
    rw [close_of_held h.2, ite_self, hlink]
    refine ⟨⟨h.1, rfl⟩, fun hlost => ⟨⟨?_, .inr (by simp)⟩, by simp [hplace, rank, Service.goto]⟩⟩
    rw [Lost, hplace] at hlost
    exact hlost.1
  | clear k =>
    simp only [hplace] at h hs
    obtain rfl := Option.some.inj hs
    refine ⟨?_, fun hlost => ?_⟩
    · rw [Good]
      dsimp only
      rw [h.2]
      exact at_next h.1
    · have hk := h.1.resolve_left (by simpa [Lost, hplace, Past] using hlost.1)
      simp [Lost, hplace, hk, Caller.next, Past, rank]
  | finished | crashed e =>
    simp [hplace] at hs

/-! ### Steps of the others -/

lemma at_dropped {held : Bool} {p : Place} (h : At held .connected p) : At held .dropped p := by
  cases p <;> simp_all [At, Open, Gone]

lemma at_destroyed {held : Bool} {link : Link} {p : Place} (hquiet : Quiet p = true)
    (h : At held link p) : At false .closed p := by
  cases p <;> simp_all [At, Open, Gone, Quiet]

lemma good_step {s s' : Service} {a : Action} (h : Good s) (hsafe : Safe s a)
    (hs : step s a = some s') : Good s' := by
  cases a with
  | work a => exact (keeps_work h hsafe hs).good
  | drop =>
    simp only [step] at hs
    split_ifs at hs with hlink
    cases hs
    rw [Good, hlink] at h
    exact at_dropped h
  | destroy ok =>
    cases hs
    unfold Service.onDestroy
    split_ifs with hheld hok
    · exact at_destroyed (hsafe hheld).1 h
    · have hlink := (hsafe hheld).2.resolve_left hok
      rw [hlink]
      exact at_destroyed (hsafe hheld).1 h
    · exact h

/-- A lost connection stays lost, and no step leads away from the end. -/
lemma lost_step {s s' : Service} {a : Action} (h : Good s) (hlost : Lost s) (hsafe : Safe s a)
    (hs : step s a = some s') : Lost s' ∧ rank s'.place + cost a ≤ rank s.place := by
  cases a with
  | work a =>
    obtain ⟨hlost', hrank⟩ := (keeps_work h hsafe hs).nearer hlost
    exact ⟨hlost', hrank⟩
  | drop =>
    simp only [step] at hs
    split_ifs at hs with hlink
    cases hs
    exact ⟨⟨hlost.1, .inr (by simp)⟩, Nat.le_refl _⟩
  | destroy ok =>
    cases hs
    unfold Service.onDestroy
    split_ifs
    · exact ⟨⟨hlost.1, .inl rfl⟩, Nat.le_refl _⟩
    · exact ⟨⟨hlost.1, .inl rfl⟩, Nat.le_refl _⟩
    · exact ⟨hlost, Nat.le_refl _⟩

/-- Without a connection the worker does not wait. -/
lemma work_isSome {s : Service} (h : Good s) (hlost : Lost s) (hplace : s.place ≠ .finished)
    (a : Answer) : (s.work a).isSome = true := by
  rw [Good] at h
  unfold Service.work
  cases hp : s.place with
  | receiveRead =>
    rw [hp] at h
    simp [dropped_of_lost h hlost]
  | create | connect => simp [Lost, hp, Past] at hlost
  | finished => exact absurd hp hplace
  | crashed e =>
    rw [hp] at h
    exact h.elim
  | _ => rfl

lemma exists_safe (s : Service) : ∃ a, Safe s (.work a) := by
  refine ⟨⟨(needed s.link s.place).getD true, .endOfStream⟩, fun ok hok => ?_⟩
  rw [Option.mem_def.mp hok]
  rfl

/-! ### Runs -/

lemma good_of_starts {s : Service} (h : s.Starts) : Good s := by
  rw [Good, h.1]
  rcases hheld : s.held with _ | _
  · exact .inr ⟨rfl, h.2 hheld⟩
  · exact .inl rfl

/-- From where the connection is lost, a run has no more steps of the worker than its rank. -/
lemma lost_run {m : ℕ} {s s' : Service} (h : Good s) (hlost : Lost s)
    (hrun : Run step cost Safe m s s') :
    (Good s' ∧ Lost s') ∧ m + rank s'.place ≤ rank s.place := by
  have hstep : ∀ s a s', Good s ∧ Lost s → Safe s a → step s a = some s' →
      (Good s' ∧ Lost s') ∧ rank s'.place + cost a ≤ rank s.place := by
    rintro s a s' ⟨h, hlost⟩ hsafe hs
    obtain ⟨hlost', hrank⟩ := lost_step h hlost hsafe hs
    exact ⟨⟨good_step h hsafe hs, hlost'⟩, hrank⟩
  constructor
  · apply hrun.invariant _ ⟨h, hlost⟩
    exact fun s a s' hi hsafe hs => (hstep s a s' hi hsafe hs).1
  · exact hrun.cost_le (r := fun s => rank s.place) hstep ⟨h, hlost⟩

/-- What a service that survives a disconnect keeps. -/
structure Survives (s : Service) : Prop where
  alive : ∀ e, s.place ≠ .crashed e
  closed : s.place = .finished → Gone s.held s.link
  leaves : Lost s → ∀ m s', Run step cost Safe m s s' →
    m ≤ 16 ∧ (s'.place = .finished ∨
      (∃ a, Safe s' (.work a)) ∧ ∀ a, (s'.work a).isSome = true)

/-- **The service survives** every run whose steps are safe. -/
theorem survives_of_safe {n : ℕ} {s s' : Service} (hstart : s.Starts)
    (hrun : Run step cost Safe n s s') : Survives s' := by
  have hgood : Good s' :=
    hrun.invariant (fun s a s' => good_step) (good_of_starts hstart)
  refine ⟨?_, ?_, ?_⟩
  · intro e he
    rw [Good, he] at hgood
    exact hgood
  · intro hfinished
    rw [Good, hfinished] at hgood
    exact hgood
  · intro hlost m t hout
    obtain ⟨⟨hgood', hlost'⟩, hcost⟩ := lost_run hgood hlost hout
    have hbound := rank_le s'.place
    refine ⟨by omega, ?_⟩
    by_cases hplace : t.place = .finished
    · exact .inl hplace
    · exact .inr ⟨exists_safe t, work_isSome hgood' hlost' hplace⟩

/-! ### What the condition leaves out -/

def yes : Action := .work ⟨true, .data ⟨[104, 105], by decide, by decide⟩⟩

def no : Action := .work ⟨false, .endOfStream⟩

/-- Crashed, or ended with something left open. -/
def Broken (s : Service) : Prop :=
  (∃ e, s.place = .crashed e) ∨ s.place = .finished ∧ ¬ Gone s.held s.link

/-- Safe steps lead to where it is broken. -/
def Breaks (s : Service) : Prop := ∃ m t, Run step cost Safe m s t ∧ Broken t

lemma breaks_of_replay {s t : Service} {m : ℕ} (as : List Action)
    (h : replay step cost Safe 0 s as = some (m, t)) (hbroken : Broken t) : Breaks s :=
  ⟨m, t, (Run.refl s).replay as h, hbroken⟩

lemma breaks_null {link : Link} {buffer : Buffer} {stopping : Bool} {p : Place}
    (hquiet : Quiet p = false) : Breaks ⟨false, link, buffer, stopping, p⟩ := by
  cases p with
  | connectLive | connect | receiveStream | sendStream | receiveLive | sendLive =>
    cases link <;> exact breaks_of_replay [yes] rfl (.inl ⟨_, rfl⟩)
  | serverLive => cases link <;> exact breaks_of_replay [no] rfl (.inl ⟨_, rfl⟩)
  | receiveNull | sendNull => exact breaks_of_replay [yes, yes, yes] rfl (.inl ⟨_, rfl⟩)
  | receiveRead =>
    cases link with
    | created | closed => exact breaks_of_replay [yes] rfl (.inl ⟨_, rfl⟩)
    | connected | dropped =>
      exact breaks_of_replay [yes, yes, yes, yes, yes] rfl (.inl ⟨_, rfl⟩)
  | stopTest buf => exact breaks_of_replay [yes, yes, yes, yes] rfl (.inl ⟨_, rfl⟩)
  | closeOutput k | closeInput k | closeSocket k =>
    cases link <;> exact breaks_of_replay [yes, yes] rfl (.inl ⟨_, rfl⟩)
  | crashed e => exact breaks_of_replay [] rfl (.inl ⟨e, rfl⟩)
  | connectNull | create | serverNull | sendWrite | finished => cases hquiet
  | disconnectNull k | clear k => cases hquiet

/-- Where the socket is cleared but was not closed, it stays open. -/
lemma breaks_clear {held : Bool} {link : Link} {buffer : Buffer} {stopping : Bool} {k : Caller}
    (hlink : link ≠ .closed) (hk : Ends k) : Breaks ⟨held, link, buffer, stopping, .clear k⟩ := by
  have hgone : ¬ Gone false link := fun hgone => hlink hgone.2
  rcases hk with rfl | rfl
  · exact breaks_of_replay [yes, yes, yes] rfl (.inr ⟨rfl, hgone⟩)
  · exact breaks_of_replay [yes] rfl (.inr ⟨rfl, hgone⟩)

lemma breaks_unclosed {link : Link} {buffer : Buffer} {stopping : Bool} {p : Place}
    (hlink : link ≠ .closed) (hends : ∀ k, p = .disconnectNull k ∨ p = .clear k → Ends k)
    (hquiet : Quiet p = true) : Breaks ⟨false, link, buffer, stopping, p⟩ := by
  have hgone : ¬ Gone false link := fun hgone => hlink hgone.2
  cases p with
  | connectNull => exact breaks_of_replay [yes, no, yes, yes, yes] rfl (.inr ⟨rfl, hgone⟩)
  | create => exact breaks_of_replay [no, yes, yes, yes] rfl (.inr ⟨rfl, hgone⟩)
  | serverNull => exact breaks_of_replay [yes, yes] rfl (.inr ⟨rfl, hgone⟩)
  | sendWrite => exact breaks_of_replay [yes, yes, yes] rfl (.inr ⟨rfl, hgone⟩)
  | disconnectNull k =>
    rcases hends k (.inl rfl) with rfl | rfl
    · exact breaks_of_replay [yes, yes, yes] rfl (.inr ⟨rfl, hgone⟩)
    · exact breaks_of_replay [yes] rfl (.inr ⟨rfl, hgone⟩)
  | clear k => exact breaks_clear hlink (hends k (.inr rfl))
  | finished => exact breaks_of_replay [] rfl (.inr ⟨rfl, hgone⟩)
  | _ => cases hquiet

/-- Told each time that it is connected, the loop reads the end of the stream for ever. -/
lemma goes_round {buffer : Buffer} {stopping : Bool} :
    Run step cost (fun _ _ => True) 11 ⟨true, .dropped, buffer, stopping, .serverLive⟩
      ⟨true, .dropped, buffer, stopping, .serverLive⟩ := by
  have hrun : Run step cost (fun _ _ => True) 11 ⟨true, .dropped, buffer, stopping, .serverLive⟩
      ⟨true, .dropped, buffer, stopping || buffer.toText == [], .serverLive⟩ :=
    (Run.refl _).replay (List.replicate 11 (.work ⟨true, .endOfStream⟩)) rfl
  have hne : (buffer.toText == []) = false := by simpa using buffer.toText_ne
  rwa [hne, Bool.or_false] at hrun

lemma breaks_of_destroy {s : Service} {ok : Bool} (h : Good s)
    (hviolates : ¬ Safe s (.destroy ok)) : Breaks (s.onDestroy ok) := by
  rcases s with ⟨held, link, buffer, stopping, place⟩
  obtain ⟨rfl, hnot⟩ : held = true ∧ ¬ (Quiet place = true ∧ (ok = true ∨ link = .closed)) := by
    simpa [Safe] using hviolates
  rcases hquiet : Quiet place with _ | _
  · exact breaks_null hquiet
  · obtain ⟨rfl, hlink⟩ : ok = false ∧ link ≠ .closed := by simpa [hquiet] using hnot
    refine breaks_unclosed hlink ?_ hquiet
    rintro k (rfl | rfl)
    · exact h.1
    · exact h.1

/-- **No step could be allowed besides.** A step that is not safe leads, by safe steps, to a crash
or to an end with a socket left open; or it is a test in the loop, which can go on for ever. -/
theorem breaks_of_not_safe {s s' : Service} {a : Action} (h : Good s) (hviolates : ¬ Safe s a)
    (hs : step s a = some s') :
    Breaks s' ∨ s.place = .serverLive ∧ Run step cost (fun _ _ => True) 11 s s := by
  cases a with
  | drop => exact absurd trivial hviolates
  | destroy ok =>
    cases hs
    exact .inl (breaks_of_destroy h hviolates)
  | work a =>
    obtain ⟨ok, hok, hne⟩ : ∃ ok ∈ needed s.link s.place, a.ok ≠ ok := by
      simpa only [Safe, not_forall, exists_prop] using hviolates
    rcases s with ⟨held, link, buffer, stopping, place⟩
    rcases a with ⟨answer, read⟩
    cases place with
    | serverLive =>
      obtain rfl : held = true := h.1
      cases link with
      | dropped => exact .inr ⟨rfl, goes_round⟩
      | _ => cases hok
    | receiveLive | sendLive =>
      obtain rfl : held = true := h.1
      cases link with
      | dropped =>
        cases hok
        obtain rfl : answer = false := by simpa using hne
        cases hs
        exact .inl (breaks_of_replay (List.replicate 6 yes) rfl (.inl ⟨_, rfl⟩))
      | _ => cases hok
    | receiveRead =>
      cases link with
      | dropped =>
        cases hok
        obtain rfl : answer = false := by simpa using hne
        cases hs
        exact .inl (breaks_of_replay [] rfl (.inl ⟨_, rfl⟩))
      | _ => cases hok
    | closeOutput k | closeInput k | closeSocket k =>
      obtain ⟨hk, rfl⟩ : Ends k ∧ held = true := h
      cases link with
      | closed => cases hok
      | _ =>
        cases hok
        obtain rfl : answer = false := by simpa using hne
        cases hs
        exact .inl (breaks_clear (by simp) hk)
    | _ => cases hok

/-! ### Three runs -/

def idle : Service := ⟨false, .closed, .zero, false, .connectNull⟩

/-- The peer goes away after the first answer, and the loop notices. -/
theorem survives_drop : ∃ s', s'.place = .finished ∧ Survives s' := by
  have hrun : ∃ s', s'.place = .finished ∧ Run step cost Safe 21 idle s' :=
    ⟨_, rfl, (Run.refl idle).replay
      (List.replicate 14 yes ++ [.drop, yes, no] ++ List.replicate 5 yes) rfl⟩
  obtain ⟨s', hfinished, hrun⟩ := hrun
  exact ⟨s', hfinished, survives_of_safe ⟨rfl, fun _ => rfl⟩ hrun⟩

/-- `onDestroy` comes after the test of the loop, or `receiveCommand` notices that the peer has
gone. -/
theorem crashed_nullPointer :
    (replay step cost (fun _ _ => True) 0 idle
        (List.replicate 5 yes ++ [.destroy true] ++ List.replicate 3 yes)).map (·.2.place) =
      some (.crashed .nullPointer) ∧
    (replay step cost (fun _ _ => True) 0 idle
        (List.replicate 6 yes ++ [.drop, no] ++ List.replicate 6 yes)).map (·.2.place) =
      some (.crashed .nullPointer) := by
  constructor <;> rfl

end ProxyAuth.Disconnect
