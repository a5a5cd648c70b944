import ProxyAuth.Deauth

/-!
Whom the server talks to.

A peer is checked once, when its connection is accepted. Where the check fails, `lock` locks
the screen and ends the process, but only if `set_lock_listener` had memory; and where the
program was started without an address, a trusted peer makes the check itself crash.
-/

namespace ProxyAuth.PeerSafety

open ProxyAuth.Control ProxyAuth.CString ProxyAuth.BtMisc ProxyAuth.BtTrust
open ProxyAuth.Login ProxyAuth.Deauth

/-- The peer with which an event exchanges bytes. -/
def partner : Event → Option Str
  | .received p _ => some p
  | .echoed p _ => some p
  | .greeted p => some p
  | _ => none

def isAccepted : Event → Bool
  | .accepted _ _ => true
  | _ => false

/-- The peer is the one the program was started for, and was in both lists when accepted. -/
def Authorized (btAddr : Option Str) (p : Str) (view : View) : Prop :=
  btAddr = some p ∧ Trusted view.world (some trustedDirPath) view.login p

/-- Bytes are exchanged with an authorized peer only; every other connection is met by a lock
and the end of the process; and no two connections are accepted. -/
structure Guarded (btAddr : Option Str) (x : Proc Vars) : Prop where
  exchanged : ∀ pre e post p, x.events = pre ++ e :: post → partner e = some p →
    ∃ view, .accepted p view ∈ pre ∧ Authorized btAddr p view
  met : ∀ pre p view post, x.events = pre ++ .accepted p view :: post →
    ¬ Authorized btAddr p view → post = [.locked] ∧ x.result = .error .exited
  once : (x.events.filter isAccepted).length ≤ 1

/-! ### The shape of a run -/

/-- Nothing is exchanged and nobody is accepted. -/
def Calm (e : Event) : Prop := partner e = none ∧ isAccepted e = false

/-- Nobody is accepted, and what is exchanged is exchanged with `p`. -/
def With (p : Str) (e : Event) : Prop :=
  (partner e = none ∨ partner e = some p) ∧ isAccepted e = false

/-- What may follow a connection of the peer `p`. -/
def Followed (btAddr : Option Str) (p : Str) (view : View) (rest : List Event)
    (result : Except End Vars) : Prop :=
  (Authorized btAddr p view ∧ ∀ e ∈ rest, With p e) ∨ (rest = [.locked] ∧ result = .error .exited)

/-- Calm events, then at most one connection and what may follow it. -/
def Served (btAddr : Option Str) (x : Proc Vars) : Prop :=
  (∀ e ∈ x.events, Calm e) ∨ ∃ pre p view rest, x.events = pre ++ .accepted p view :: rest ∧
    (∀ e ∈ pre, Calm e) ∧ Followed btAddr p view rest x.result

variable {btAddr : Option Str} {x : Proc Vars} {p : Str}

lemma Followed.calm_or_with {view : View} {rest : List Event} {result : Except End Vars}
    (h : Followed btAddr p view rest result) : ∀ e ∈ rest, With p e := by
  rcases h with ⟨-, h⟩ | ⟨rfl, -⟩
  · exact h
  · intro e he
    obtain rfl : e = .locked := by simpa using he
    exact ⟨.inl rfl, rfl⟩

/-- In a list with one connection, that one is any connection. -/
lemma split_unique {pre rest pre' post : List Event} {view view' : View} {q : Str}
    (hpre : ∀ e ∈ pre, Calm e) (hrest : ∀ e ∈ rest, With p e)
    (h : pre ++ .accepted p view :: rest = pre' ++ .accepted q view' :: post) :
    pre = pre' ∧ Event.accepted p view = .accepted q view' ∧ rest = post := by
  rcases List.append_eq_append_iff.mp h with ⟨mid, rfl, hmid⟩ | ⟨mid, rfl, hmid⟩
  · cases mid with
    | nil => simpa using hmid
    | cons e mid =>
      have htail : rest = mid ++ .accepted q view' :: post := (List.cons.inj hmid).2
      have := (hrest (.accepted q view') (by simp [htail])).2
      cases this
  · cases mid with
    | nil =>
      obtain ⟨h1, h2⟩ := List.cons.inj hmid
      exact ⟨by simp, h1.symm, h2.symm⟩
    | cons e mid =>
      obtain ⟨rfl, -⟩ := List.cons.inj hmid
      have := (hpre (.accepted q view') (by simp)).2
      cases this

lemma Served.guarded (h : Served btAddr x) : Guarded btAddr x := by
  rcases h with hcalm | ⟨pre, p, view, rest, hx, hpre, hrest⟩
  · constructor
    · intro pre e post q hx hq
      have := (hcalm e (by simp [hx])).1
      rw [this] at hq
      cases hq
    · intro pre q view post hx
      have := (hcalm (.accepted q view) (by simp [hx])).2
      cases this
    · have hnil : x.events.filter isAccepted = [] :=
        List.filter_eq_nil_iff.mpr fun e he => by simp [(hcalm e he).2]
      simp [hnil]
  · constructor
    · intro pre' e post q hx' hq
      rw [hx] at hx'
      rcases List.append_eq_append_iff.mp hx' with ⟨mid, rfl, hmid⟩ | ⟨mid, rfl, hmid⟩
      · cases mid with
        | nil =>
          obtain ⟨rfl, -⟩ := List.cons.inj hmid
          cases hq
        | cons a mid =>
          obtain ⟨rfl, -⟩ := List.cons.inj hmid
          have htail : rest = mid ++ e :: post := (List.cons.inj hmid).2
          have he : e ∈ rest := by simp [htail]
          rcases hrest with ⟨hauth, hwith⟩ | ⟨rfl, -⟩
          · rcases (hwith e he).1 with hnone | hsome
            · rw [hnone] at hq
              cases hq
            · obtain rfl : p = q := Option.some.inj (hsome.symm.trans hq)
              exact ⟨view, by simp, hauth⟩
          · obtain rfl : e = .locked := by simpa using he
            cases hq
      · cases mid with
        | nil =>
          obtain ⟨rfl, -⟩ := List.cons.inj hmid
          cases hq
        | cons a mid =>
          obtain ⟨rfl, -⟩ := List.cons.inj hmid
          have := (hpre e (by simp)).1
          rw [this] at hq
          cases hq
    · intro pre' q view' post hx' hnot
      obtain ⟨-, heq, rfl⟩ := split_unique hpre hrest.calm_or_with (hx.symm.trans hx')
      cases heq
      rcases hrest with ⟨hauth, -⟩ | hlock
      · exact absurd hauth hnot
      · exact hlock
    · have h1 : pre.filter isAccepted = [] :=
        List.filter_eq_nil_iff.mpr fun e he => by simp [(hpre e he).2]
      have h2 : rest.filter isAccepted = [] :=
        List.filter_eq_nil_iff.mpr fun e he => by simp [(hrest.calm_or_with e he).2]
      rw [hx, List.filter_append, List.filter_cons_of_pos rfl, h1, h2]
      simp

/-- Calm events may come first. -/
lemma Served.bind {α : Type} {y : Proc α} {f : α → Proc Vars} (hy : ∀ e ∈ y.events, Calm e)
    (hf : ∀ a, y.result = .ok a → Served btAddr (f a)) : Served btAddr (y >>= f) := by
  rcases hres : y.result with k | a
  · rw [Act.bind_of_error hres]
    exact .inl hy
  · rw [Act.bind_of_ok hres]
    rcases hf a hres with hcalm | ⟨pre, p, view, rest, hx, hpre, hrest⟩
    · refine .inl fun e he => ?_
      rcases List.mem_append.mp he with he | he
      · exact hy e he
      · exact hcalm e he
    · refine .inr ⟨y.events ++ pre, p, view, rest, by simp [hx], fun e he => ?_, hrest⟩
      rcases List.mem_append.mp he with he | he
      · exact hy e he
      · exact hpre e he

/-! ### With a client -/

variable {S : Setup} {clock : ℕ → ℤ} {r : Round} {v : Vars}

/-- After the first block, a pass keeps to the client it has. -/
lemma served_after_connect (v : Vars) :
    let x := receive r v >>= fun v => measure S clock v >>= finish S clock r
    (∀ e ∈ x.events, isAccepted e = false ∧ ∀ p, partner e = some p → v.client = some p) ∧
      ∀ v', x.result = .ok v' → v'.client = v.client := by
  have hm : ∀ e ∈ (measure S clock (counted r v)).events, Calm e := by
    intro e he
    rcases measure_events e he with rfl | rfl
    · exact ⟨rfl, rfl⟩
    · exact ⟨rfl, rfl⟩
  have hclient : ∀ v₂, (measure S clock (counted r v)).result = .ok v₂ → v₂.client = v.client :=
    fun v₂ => measure_client
  constructor
  · refine Act.forall_bind_events ?_ fun v₁ h₁ => ?_
    · intro e he
      rcases receive_events e he with rfl | ⟨p, bytes, hc, rfl⟩
      · exact ⟨rfl, fun p hp => by cases hp⟩
      · exact ⟨rfl, fun q hq => by cases hq; exact hc⟩
    · obtain rfl : counted r v = v₁ := Except.ok.inj (receive_result.symm.trans h₁)
      refine Act.forall_bind_events ?_ fun v₂ h₂ => ?_
      · intro e he
        exact ⟨(hm e he).2, fun p hp => by rw [(hm e he).1] at hp; cases hp⟩
      · intro e he
        rcases finish_events e he with rfl | ⟨p, hc, rfl | ⟨bytes, rfl⟩⟩
        · exact ⟨rfl, fun p hp => by cases hp⟩
        · exact ⟨rfl, fun q hq => by cases hq; rw [← hclient v₂ h₂, hc]⟩
        · exact ⟨rfl, fun q hq => by cases hq; rw [← hclient v₂ h₂, hc]⟩
  · intro v' hok
    obtain ⟨v₁, h₁, hrest⟩ := Act.bind_result_ok.mp hok
    obtain rfl : counted r v = v₁ := Except.ok.inj (receive_result.symm.trans h₁)
    obtain ⟨v₂, h₂, hlast⟩ := Act.bind_result_ok.mp hrest
    rw [finish_result hlast]
    exact hclient v₂ h₂

lemma with_of_client (hc : v.client = some p) {e : Event}
    (h : isAccepted e = false ∧ ∀ q, partner e = some q → v.client = some q) : With p e := by
  refine ⟨?_, h.1⟩
  rcases hq : partner e with _ | q
  · exact .inl rfl
  · have := h.2 q hq
    rw [hc] at this
    exact .inr (by rw [Option.some.inj this])

/-- Once there is a client, the rest of the run is with it. -/
lemma loop_with (rounds : List Round) (hc : v.client = some p) :
    ∀ e ∈ (Act.loop (onePass S clock) rounds v).events, With p e := by
  have hpass : ∀ r v, v.client = some p → onePass S clock r v =
      receive r v >>= fun v => measure S clock v >>= finish S clock r := fun r v hv => by
    rw [onePass, connect_of_isSome (by simp [hv]), Act.pure_bind]
  refine (Act.loop_invariant (I := fun v => v.client = some p) ?_ ?_ rounds hc).1
  · intro r v hv e he
    rw [hpass r v hv] at he
    exact with_of_client hv ((served_after_connect v).1 e he)
  · intro r v v' hv hok
    rw [hpass r v hv] at hok
    rw [(served_after_connect v).2 v' hok, hv]

/-! ### Without a client -/

/-- What a step needs: with no address to compare with, the peer is not a trusted one; and
with no `data_obj`, the peer is authorized. -/
def StepOk (S : Setup) (v : Vars) (r : Round) : Prop :=
  v.client = none → ∀ p, answered S r.accept = some p →
    (S.btAddr = none →
      ¬ Trusted r.accept.view.world (some trustedDirPath) r.accept.view.login p) ∧
    (S.hasData = false → Authorized S.btAddr p r.accept.view)

/-- A failed `accept` may lock, but nobody is connected. -/
lemma connectClient_failed {a : Accept} (remAddr : Str) (h : answered S a = none) :
    (∀ e ∈ (connectClient S a remAddr).events, Calm e) ∧
      ∀ c, (connectClient S a remAddr).result = .ok c → c.1 = none := by
  constructor
  · intro e he
    rcases connectClient_events S a remAddr e he with rfl | ⟨-, hsome⟩
    · exact ⟨rfl, rfl⟩
    · simp [h] at hsome
  · intro c hc
    obtain ⟨_, _, h₁⟩ := Act.bind_result_ok.mp hc
    obtain ⟨_, _, h₂⟩ := Act.bind_result_ok.mp h₁
    obtain ⟨_, _, h₃⟩ := Act.bind_result_ok.mp h₂
    obtain ⟨_, _, h₄⟩ := Act.bind_result_ok.mp h₃
    rw [← Except.ok.inj h₄, h]

/-- What follows an answered `accept`, once the trust check has come to `t`. -/
lemma connectClient_of_answered {a : Accept} {remAddr : Str} {t : Bool}
    (h : answered S a = some p)
    (ht : isTrustedClient a.view (some p) (some trustedDirPath) = .ok t) :
    connectClient S a remAddr = (Act.emit (.accepted p a.view) >>= fun _ =>
      (if t then Act.call .crashed (strEq (some p) S.btAddr) else pure false) >>= fun authorized =>
        lockUnless authorized S.hasData >>= fun _ => pure (some p, p)) := by
  simp [connectClient, h, ht, Act.emitIf]

/-- An authorized peer becomes the client, any other is met by the lock. -/
lemma connectClient_accepted {a : Accept} (remAddr : Str) (h : answered S a = some p)
    (hsteady : Steady a.view.world)
    (harg : S.btAddr = none → ¬ Trusted a.view.world (some trustedDirPath) a.view.login p)
    (hdata : S.hasData = false → Authorized S.btAddr p a.view) :
    (Authorized S.btAddr p a.view ∧
        connectClient S a remAddr = ⟨[.accepted p a.view], .ok (some p, p)⟩) ∨
      connectClient S a remAddr = ⟨[.accepted p a.view, .locked], .error .exited⟩ := by
  have htrust := isTrustedClient_eq hsteady (some trustedDirPath) p
  rw [connectClient_of_answered h htrust]
  by_cases hauth : Authorized S.btAddr p a.view
  · refine .inl ⟨hauth, ?_⟩
    obtain ⟨hb, ht⟩ := hauth
    have heq : strEq (some p) (some p) = .ok true := by simp [strEq]
    rw [decide_eq_true ht, hb, heq]
    rfl
  · refine .inr ?_
    have hhas : S.hasData = true := by
      cases hd : S.hasData
      · exact absurd (hdata hd) hauth
      · rfl
    rw [hhas]
    by_cases ht : Trusted a.view.world (some trustedDirPath) a.view.login p
    · rcases hb : S.btAddr with _ | q
      · exact absurd ht (harg hb)
      · have hne : strEq (some p) (some q) = .ok false := by
          simpa [strEq] using fun hpq => hauth ⟨by rw [hb, hpq], ht⟩
        rw [decide_eq_true ht, hne]
        rfl
    · rw [decide_eq_false ht]
      rfl

lemma connect_of_none (h : v.client = none) :
    connect S clock r v = connectClient S r.accept v.remAddr >>= fun c =>
      pure { v with client := c.1, remAddr := c.2, start := clock v.tick, stop := clock v.tick,
                    tick := v.tick + 1 } := by
  unfold connect
  rw [if_pos (by simp [h])]

/-- The first block shows a connection at most, and a lock. -/
lemma connect_events : ∀ e ∈ (connect S clock r v).events,
    e = .locked ∨ ∃ p view, e = .accepted p view := by
  intro e he
  rcases hc : v.client with _ | p
  · rw [connect_of_none hc] at he
    rcases Act.mem_bind_events.mp he with he | ⟨c, -, he⟩
    · exact (connectClient_events S _ _ e he).imp_right fun h => ⟨_, _, h.1⟩
    · simp at he
  · rw [connect_of_isSome (by rw [hc]; rfl)] at he
    simp at he

/-- A pass without a client, where `accept` fails. -/
lemma pass_failed (clock : ℕ → ℤ) (hc : v.client = none) (h : answered S r.accept = none) :
    (∀ e ∈ (onePass S clock r v).events, Calm e) ∧
      ∀ v', (onePass S clock r v).result = .ok v' → v'.client = none := by
  obtain ⟨hevents, hresult⟩ := connectClient_failed v.remAddr h
  have hclient : ∀ v₁, (connect S clock r v).result = .ok v₁ → v₁.client = none := by
    intro v₁ h₁
    rw [connect_of_none hc] at h₁
    obtain ⟨c, hc', h₁⟩ := Act.bind_result_ok.mp h₁
    rw [← Except.ok.inj h₁]
    exact hresult c hc'
  constructor
  · refine Act.forall_bind_events ?_ fun v₁ h₁ e he => ?_
    · rw [connect_of_none hc]
      exact Act.forall_bind_events hevents fun _ _ => by simp
    · obtain ⟨hacc, hpartner⟩ := (served_after_connect v₁).1 e he
      refine ⟨?_, hacc⟩
      rcases hp : partner e with _ | p
      · rfl
      · have := hpartner p hp
        rw [hclient v₁ h₁] at this
        cases this
  · intro v' hok
    obtain ⟨v₁, h₁, hrest⟩ := Act.bind_result_ok.mp hok
    rw [(served_after_connect v₁).2 v' hrest, hclient v₁ h₁]

/-- Every step of a run, in the state it is taken in. -/
def RunOk (S : Setup) (clock : ℕ → ℤ) (rounds : List Round) (v : Vars) : Prop :=
  ∀ pre r post v', rounds = pre ++ r :: post →
    (Act.loop (onePass S clock) pre v).result = .ok v' → StepOk S v' r

lemma RunOk.head {rounds : List Round} (h : RunOk S clock (r :: rounds) v) : StepOk S v r :=
  h [] r rounds v rfl rfl

lemma RunOk.tail {rounds : List Round} {v₁ : Vars} (h : RunOk S clock (r :: rounds) v)
    (h₁ : (onePass S clock r v).result = .ok v₁) : RunOk S clock rounds v₁ := by
  intro pre r' post v' hsplit hrun
  apply h (r :: pre) r' post v' (by rw [hsplit, List.cons_append])
  rw [Act.loop_cons]
  exact Act.bind_result_ok.mpr ⟨v₁, h₁, hrun⟩

lemma served_loop (rounds : List Round) (hsteady : ∀ r ∈ rounds, Steady r.accept.view.world)
    (hc : v.client = none) (hok : RunOk S clock rounds v) :
    Served S.btAddr (Act.loop (onePass S clock) rounds v) := by
  induction rounds generalizing v with
  | nil => exact .inl (by simp)
  | cons r rounds ih =>
    have hs := fun r hr => hsteady r (List.mem_cons_of_mem _ hr)
    rw [Act.loop_cons]
    rcases ha : answered S r.accept with _ | p
    · obtain ⟨hcalm, hclient⟩ := pass_failed clock hc ha
      exact Served.bind hcalm fun v₁ h₁ => ih hs (hclient v₁ h₁) (hok.tail h₁)
    · obtain ⟨harg, hdata⟩ := hok.head hc p ha
      rw [onePass, connect_of_none hc, Act.bind_assoc, Act.bind_assoc]
      rcases connectClient_accepted v.remAddr ha (hsteady r List.mem_cons_self)
        harg hdata with ⟨hauth, heq⟩ | heq
      · rw [heq, Act.bind_of_ok rfl, Act.pure_bind]
        refine .inr ⟨[], p, r.accept.view, _, rfl, by simp, .inl ⟨hauth, ?_⟩⟩
        refine Act.forall_bind_events (fun e he => ?_) fun v' hv' => ?_
        · exact with_of_client rfl ((served_after_connect _).1 e he)
        · exact loop_with rounds ((served_after_connect _).2 v' hv')
      · rw [heq, Act.bind_of_error rfl]
        exact .inr ⟨[], p, r.accept.view, [.locked], rfl, by simp, .inr ⟨rfl, rfl⟩⟩

/-! ### A run -/

lemma boot_calm (b : Boot) : ∀ e ∈ (boot b).events, Calm e := by
  have hlock : ∀ ok, ∀ e ∈ (lockUnless ok false).events, Calm e := by
    intro ok
    cases ok <;> simp [lockUnless, lock, Act.mem_bind_events, Calm, partner, isAccepted]
  unfold boot
  apply Act.forall_bind_events (hlock _)
  intro _ _
  refine Act.forall_bind_events (by simp) fun trusted _ => ?_
  apply Act.forall_bind_events (hlock _)
  intro _ _
  refine Act.forall_bind_events ?_ fun _ _ => by simp [setLockListener_events]
  simp [Calm, partner, isAccepted]

lemma boot_result {b : Boot} (h : (boot b).result = .ok S) :
    (setLockListener b).result = .ok S := by
  obtain ⟨_, _, h₁⟩ := Act.bind_result_ok.mp h
  obtain ⟨_, _, h₂⟩ := Act.bind_result_ok.mp h₁
  obtain ⟨_, _, h₃⟩ := Act.bind_result_ok.mp h₂
  obtain ⟨_, _, h₄⟩ := Act.bind_result_ok.mp h₃
  exact h₄

lemma boot_btAddr {b : Boot} (h : (boot b).result = .ok S) : S.btAddr = b.cmd.btAddr := by
  have h := boot_result h
  unfold setLockListener at h
  rcases hl : b.listener with _ | _ | _ <;> rw [hl] at h <;> cases h <;> rfl

/-- **The server talks to its phone only.** In every run in which no step takes a trusted
peer without an address to compare with, or an unauthorized peer without `data_obj`, bytes
are exchanged with one authorized peer at most, and any other connection locks the screen
and ends the process. -/
theorem guarded_of_runOk (b : Boot) (clock : ℕ → ℤ) (rounds : List Round)
    (hsteady : ∀ r ∈ rounds, Steady r.accept.view.world)
    (hok : ∀ S, (boot b).result = .ok S → RunOk S clock rounds Vars.init) :
    Guarded b.cmd.btAddr (main b clock rounds) := by
  refine Served.guarded (Served.bind (boot_calm b) fun S hS => ?_)
  rw [← boot_btAddr hS]
  exact served_loop rounds hsteady rfl (hok S hS)

/-! ### Runs that meet the condition, and runs that do not -/

/-- The world where the phone is connected and trusted. -/
def phoneView : View := ⟨phoneWorld, some (lit "zaku"), 0⟩

def connection (peer : Str) : Round := ⟨⟨some peer, phoneView⟩, none, true, []⟩

/-- The start PAM arranges. -/
def usualBoot : Boot := ⟨⟨lit "deauth", [phone]⟩, phoneView, 3, .ready⟩

lemma isTrustedClient_phoneView (p : Str) :
    isTrustedClient phoneView (some p) (some trustedDirPath) =
    .ok (decide (Trusted phoneWorld (some trustedDirPath) (some (lit "zaku")) p)) :=
  isTrustedClient_eq (v := phoneView) phoneWorld_steady (some trustedDirPath) p

lemma isTrustedClient_phone :
    isTrustedClient phoneView (some phone) (some trustedDirPath) = .ok true := by
  have htrust : Trusted phoneWorld (some trustedDirPath) (some (lit "zaku")) phone :=
    ⟨by simp [pairedList_phoneWorld], phone_mem_trustedList⟩
  rw [isTrustedClient_phoneView, decide_eq_true htrust]

def usualSetup : Setup := ⟨some phone, true, true⟩

lemma boot_usual : boot usualBoot = ⟨[.listening], .ok usualSetup⟩ := by
  have harg : checkArg usualBoot.cmd = true := by decide
  have hclient : isTrustedClient usualBoot.view usualBoot.cmd.btAddr (some trustedDirPath) =
      .ok true := isTrustedClient_phone
  unfold boot
  rw [harg, hclient]
  rfl

theorem guarded_usual :
    Guarded (some phone) (main usualBoot (fun _ => 0) [connection phone]) := by
  refine guarded_of_runOk usualBoot (fun _ => 0) [connection phone] ?_ fun S hS => ?_
  · intro r hr
    obtain rfl : r = connection phone := by simpa using hr
    exact phoneWorld_steady
  · rw [boot_usual] at hS
    obtain rfl : usualSetup = S := Except.ok.inj hS
    intro pre r post v' _ _ _ p _
    exact ⟨(fun h => nomatch h), (fun h => nomatch h)⟩

/-- A time when the directory is missing. -/
def bareWorld : World :=
  { phoneWorld with files := { phoneWorld.files with lstatDir := fun _ => .failed Stat.enoent } }

/-- A start without an address. -/
def strayBoot : Boot := ⟨⟨lit "deauth", []⟩, ⟨bareWorld, some (lit "zaku"), 0⟩, 3, .ready⟩

lemma bareWorld_steady : Steady bareWorld :=
  ⟨⟨rfl, fun _ => rfl, rfl, fun _ => rfl⟩, fun _ _ h => by cases h; rfl,
    fun _ h => by cases h; decide, _, rfl⟩

lemma boot_stray : boot strayBoot =
    ⟨[.locked, .locked, .listening], .ok ⟨none, true, true⟩⟩ := by
  have hclient : isTrustedClient strayBoot.view none (some trustedDirPath) = .ok false :=
    isTrustedClient_of_no_file bareWorld_steady rfl none
  unfold boot
  rw [show strayBoot.cmd.btAddr = none from rfl, hclient]
  rfl

/-- The socket has the number 0, and there is no memory for `data_obj`. -/
def zeroBoot : Boot := ⟨⟨lit "deauth", [phone]⟩, phoneView, 0, .noMemory⟩

lemma boot_zero : boot zeroBoot = ⟨[.listening], .ok ⟨some phone, true, false⟩⟩ := by
  have harg : checkArg zeroBoot.cmd = true := by decide
  have hclient : isTrustedClient zeroBoot.view zeroBoot.cmd.btAddr (some trustedDirPath) =
      .ok true := isTrustedClient_phone
  unfold boot
  rw [harg, hclient]
  rfl

def stranger : Str := lit "00:11:22:33:44:55"

lemma isTrustedClient_stranger :
    isTrustedClient phoneView (some stranger) (some trustedDirPath) = .ok false := by
  have hpaired : stranger ∉ pairedList phoneWorld := by rw [pairedList_phoneWorld]; decide
  rw [isTrustedClient_phoneView, decide_eq_false fun h => hpaired h.1]

/-- Started without an address, the server crashes on a trusted peer and does not lock;
without `data_obj` and on the socket 0, it goes on to talk to a stranger. -/
theorem not_guarded :
    (Steady bareWorld ∧ Steady phoneWorld) ∧
      ¬ Guarded none (main strayBoot (fun _ => 0) [connection phone]) ∧
      ¬ Guarded (some phone) (main zeroBoot (fun _ => 0) [connection stranger]) := by
  refine ⟨⟨bareWorld_steady, phoneWorld_steady⟩, ?_, ?_⟩
  · have hanswer : answered ⟨none, true, true⟩ (connection phone).accept = some phone := rfl
    have hmain : main strayBoot (fun _ => 0) [connection phone] =
        ⟨[.locked, .locked, .listening, .accepted phone phoneView],
          .error (.crashed .nullDeref)⟩ := by
      rw [main, boot_stray, Act.bind_of_ok rfl, Act.loop_cons, onePass, connect_of_none rfl,
        connectClient_of_answered hanswer isTrustedClient_phone]
      rfl
    intro h
    rw [hmain] at h
    have hmet := h.met [.locked, .locked, .listening] phone phoneView [] rfl
      fun hauth => nomatch hauth.1
    cases hmet.1
  · have hanswer : answered ⟨some phone, true, false⟩ (connection stranger).accept =
        some stranger := rfl
    have hmain : main zeroBoot (fun _ => 0) [connection stranger] =
        ⟨[.listening, .accepted stranger phoneView, .locked, .greeted stranger],
          .error (.crashed .nullDeref)⟩ := by
      rw [main, boot_zero, Act.bind_of_ok rfl, Act.loop_cons, onePass, connect_of_none rfl,
        connectClient_of_answered hanswer isTrustedClient_stranger]
      rfl
    intro h
    rw [hmain] at h
    have hauth : ¬ Authorized (some phone) stranger phoneView := fun hauth =>
      absurd hauth.1 (by decide)
    have hmet := h.met [.listening] stranger phoneView [.locked, .greeted stranger] rfl hauth
    cases hmet.1

end ProxyAuth.PeerSafety
