import Mathlib.Logic.Relation
import ProxyAuth.PeerSafety

/-!
The instances of the server.

A login spawns an instance, and a manual lock signals status 3 to all that live. Signals are
dispatched at the end of a pass only: a pass without a client first waits in `accept` for a
connection, and an instance that has not subscribed yet misses the signal.
-/

namespace ProxyAuth.Instances

open ProxyAuth.Control ProxyAuth.CString ProxyAuth.BtMisc ProxyAuth.Login ProxyAuth.Deauth
open ProxyAuth.PeerSafety

/-! ### Instances -/

/-- The iterations of `check_lock_status`, each of which dispatches one signal at most. -/
def iterations : ℕ := 15

/-- An instance starts up, and then serves; the signals of `queue` are still to be
dispatched. -/
inductive Phase
  | starting (b : Boot)
  | serving (S : Setup) (v : Vars) (queue : List ℕ)

/-- A live instance: the number of manual locks before it was spawned, what its readings of
`time` give, and where it is. -/
structure Instance where
  epoch : ℕ
  clock : ℕ → ℤ
  phase : Phase

/-- The next pass waits in `accept`. -/
def waits (S : Setup) (v : Vars) : Bool := S.serverOpen && v.client.isNone

/-- The instance after the start, `none` when its process has ended. -/
def Instance.start (inst : Instance) (b : Boot) : Option Instance :=
  match (boot b).result with
  | .ok S => some { inst with phase := .serving S Vars.init [] }
  | .error _ => none

/-- The instance after a pass in which the first `n` signals are dispatched. -/
def Instance.pass (inst : Instance) (S : Setup) (v : Vars) (queue : List ℕ) (r : Round) (n : ℕ) :
    Option Instance :=
  match (onePass S inst.clock { r with signals := queue.take n } v).result with
  | .ok v' => some { inst with phase := .serving S v' (queue.drop n) }
  | .error _ => none

/-- What an instance can do, and whether the phone has to connect or to send something
for it. The signals that a pass does not dispatch may still be on their way. -/
inductive Move (inst : Instance) : Bool → Option Instance → Prop
  | start {b : Boot} (h : inst.phase = .starting b) : Move inst false (inst.start b)
  | pass {S : Setup} {v : Vars} {queue : List ℕ} (h : inst.phase = .serving S v queue) (r : Round)
    (n : ℕ) (hn : n ≤ iterations) :
    Move inst (waits S v || r.read.isSome) (inst.pass S v queue r n)

/-- A signal reaches the instances that have subscribed. -/
def Instance.signal (status : ℕ) (inst : Instance) : Instance :=
  match inst.phase with
  | .starting _ => inst
  | .serving S v queue => { inst with phase := .serving S v (queue ++ [status]) }

/-! ### The system -/

/-- The number of manual locks so far, and the live instances. -/
structure System where
  locks : ℕ
  live : List Instance

def System.init : System := ⟨0, []⟩

/-- A login spawns an instance. -/
def System.login (s : System) (b : Boot) (clock : ℕ → ℤ) : System :=
  { s with live := ⟨s.locks, clock, .starting b⟩ :: s.live }

def System.signal (s : System) (status : ℕ) : System :=
  { s with live := s.live.map (Instance.signal status) }

/-- A manual lock. -/
def System.lock (s : System) : System := { s.signal 3 with locks := s.locks + 1 }

inductive Action
  | login | lock | signal
  | move (phone : Bool)
  deriving DecidableEq

inductive Step (s : System) : Action → System → Prop
  | login (b : Boot) (clock : ℕ → ℤ) : Step s .login (s.login b clock)
  | lock : Step s .lock s.lock
  | signal (status : ℕ) : Step s .signal (s.signal status)
  | move (front : List Instance) {rest : List Instance} {inst : Instance}
    {inst' : Option Instance} {phone : Bool}
    (hs : s.live = front ++ inst :: rest) (hm : Move inst phone inst') :
    Step s (.move phone) { s with live := front ++ inst'.toList ++ rest }

/-- Some action leads from the one to the other. -/
def Next (s s' : System) : Prop := ∃ a, Step s a s'

/-- No instance can do anything before the phone connects or sends something. -/
def Quiescent (s : System) : Prop := ∀ inst ∈ s.live, ∀ inst', ¬ Move inst false inst'

/-- Nothing from before the latest manual lock is alive, and so no two instances from the two
sides of a lock run beside each other. -/
structure Fresh (s : System) : Prop where
  none_older : ∀ inst ∈ s.live, ¬ inst.epoch < s.locks
  together : ∀ inst ∈ s.live, ∀ inst' ∈ s.live, inst.epoch = inst'.epoch

/-- The instance waits in `accept`, or its start comes to that. -/
def Instance.MayWait (inst : Instance) : Prop :=
  match inst.phase with
  | .starting b => ∃ S, (boot b).result = .ok S ∧ S.serverOpen = true
  | .serving S v _ => waits S v = true

/-- No instance waits in `accept`, or can still come to wait there. -/
def Settled (s : System) : Prop := ∀ inst ∈ s.live, ¬ inst.MayWait

/-- An action, which is not a manual lock unless no instance may wait. -/
def SettledNext (s s' : System) : Prop := ∃ a, Step s a s' ∧ (a = .lock → Settled s)

/-! ### What one instance does -/

variable {inst inst' : Instance} {needed : Bool} {s s' : System}

@[simp] lemma epoch_signal (status : ℕ) : (inst.signal status).epoch = inst.epoch := by
  rcases inst with ⟨epoch, clock, _ | _⟩
  · rfl
  · rfl

/-- No signal makes an instance wait. -/
@[simp] lemma mayWait_signal (status : ℕ) : (inst.signal status).MayWait ↔ inst.MayWait := by
  rcases inst with ⟨epoch, clock, _ | _⟩
  · exact Iff.rfl
  · exact Iff.rfl

lemma start_eq_some {b : Boot} : inst.start b = some inst' ↔
    ∃ S, (boot b).result = .ok S ∧ { inst with phase := .serving S Vars.init [] } = inst' := by
  unfold Instance.start
  rcases (boot b).result with e | S
  · simp
  · simp

lemma pass_eq_some {S : Setup} {v : Vars} {queue : List ℕ} {r : Round} {n : ℕ} :
    inst.pass S v queue r n = some inst' ↔
      ∃ v', (onePass S inst.clock { r with signals := queue.take n } v).result = .ok v' ∧
        { inst with phase := .serving S v' (queue.drop n) } = inst' := by
  unfold Instance.pass
  rcases (onePass S inst.clock { r with signals := queue.take n } v).result with e | v'
  · simp
  · simp

/-- A pass is followed by a wait only if it began with one. -/
lemma waits_of_pass {S : Setup} {clock : ℕ → ℤ} {r : Round} {v v' : Vars}
    (h : (onePass S clock r v).result = .ok v') (hw : waits S v' = true) : waits S v = true := by
  obtain ⟨hopen, hnone⟩ := Bool.and_eq_true_iff.mp hw
  rcases hc : v.client with _ | p
  · rw [waits, hopen, hc]
    rfl
  · rw [onePass, connect_of_isSome (by rw [hc]; rfl), Act.pure_bind] at h
    rw [(served_after_connect v).2 v' h, hc] at hnone
    cases hnone

/-- An instance keeps its epoch, and does not come to wait unless it might have before. -/
lemma Move.keeps (h : Move inst needed (some inst')) :
    inst'.epoch = inst.epoch ∧ (inst'.MayWait → inst.MayWait) := by
  generalize hafter : some inst' = after at h
  cases h with
  | start hb =>
    obtain ⟨S, hS, rfl⟩ := start_eq_some.mp hafter.symm
    refine ⟨rfl, fun hw => ?_⟩
    rw [Instance.MayWait, hb]
    exact ⟨S, hS, (Bool.and_eq_true_iff.mp hw).1⟩
  | pass hv r n hn =>
    obtain ⟨v', hv', rfl⟩ := pass_eq_some.mp hafter.symm
    refine ⟨rfl, fun hw => ?_⟩
    rw [Instance.MayWait, hv]
    exact waits_of_pass hv' hw

/-- An instance that can do nothing without the phone waits in `accept`. -/
lemma mayWait_of_stuck (h : ∀ inst', ¬ Move inst false inst') : inst.MayWait := by
  rcases hphase : inst.phase with b | ⟨S, v, queue⟩
  · exact absurd (Move.start hphase) (h _)
  · rw [Instance.MayWait, hphase]
    by_contra hno
    have hmove := Move.pass hphase (connection phone) 0 (Nat.zero_le _)
    rw [Bool.eq_false_of_not_eq_true hno] at hmove
    exact h _ hmove

/-- An instance that waits in `accept` can do nothing without the phone. -/
lemma stuck_of_waits {S : Setup} {v : Vars} {queue : List ℕ}
    (hphase : inst.phase = .serving S v queue) (hw : waits S v = true) :
    ∀ inst', ¬ Move inst false inst' := by
  intro inst' h
  generalize hneeded : false = needed at h
  cases h with
  | start hb =>
    rw [hphase] at hb
    cases hb
  | pass hv r n hn =>
    rw [hphase] at hv
    cases hv
    rw [hw] at hneeded
    cases hneeded

/-! ### What a run keeps -/

/-- After `k` locks: the instance does not come from a later time, and if it comes from before
the latest of them, it does not come to wait. -/
structure Instance.Sound (k : ℕ) (inst : Instance) : Prop where
  epoch_le : inst.epoch ≤ k
  older : inst.epoch < k → ¬ inst.MayWait

def Sound (s : System) : Prop := ∀ inst ∈ s.live, inst.Sound s.locks

variable {k : ℕ}

lemma Instance.Sound.signal (h : inst.Sound k) (status : ℕ) : (inst.signal status).Sound k := by
  refine ⟨?_, ?_⟩
  · rw [epoch_signal]
    exact h.epoch_le
  · rw [epoch_signal, mayWait_signal]
    exact h.older

lemma Instance.Sound.move (h : inst.Sound k) (hm : Move inst needed (some inst')) :
    inst'.Sound k := by
  obtain ⟨hepoch, hwait⟩ := hm.keeps
  refine ⟨?_, fun hlt hw => ?_⟩
  · rw [hepoch]
    exact h.epoch_le
  · rw [hepoch] at hlt
    exact h.older hlt (hwait hw)

lemma Sound.signal (h : Sound s) (status : ℕ) : Sound (s.signal status) := by
  intro inst hinst
  obtain ⟨inst, hmem, rfl⟩ := List.mem_map.mp hinst
  exact (h inst hmem).signal status

/-- At a lock at which no instance may wait, all may become older. -/
lemma Sound.lock (h : Sound s) (hsettled : Settled s) : Sound s.lock := by
  intro inst hinst
  obtain ⟨inst, hmem, rfl⟩ := List.mem_map.mp hinst
  refine ⟨((h inst hmem).signal 3).epoch_le.trans (Nat.le_succ _), fun _ => ?_⟩
  rw [mayWait_signal]
  exact hsettled inst hmem

lemma Sound.login (h : Sound s) (b : Boot) (clock : ℕ → ℤ) : Sound (s.login b clock) :=
  List.forall_mem_cons.mpr ⟨⟨le_rfl, fun hlt => absurd hlt (lt_irrefl _)⟩, h⟩

lemma Sound.move {front rest : List Instance} {after : Option Instance} (h : Sound s)
    (hs : s.live = front ++ inst :: rest) (hm : Move inst needed after) :
    Sound { s with live := front ++ after.toList ++ rest } := by
  have hlive : ∀ x ∈ front ++ inst :: rest, x.Sound s.locks := hs ▸ h
  simp only [List.forall_mem_append, List.forall_mem_cons] at hlive
  obtain ⟨hfront, hinst, hrest⟩ := hlive
  refine List.forall_mem_append.mpr ⟨List.forall_mem_append.mpr ⟨hfront, fun x hx => ?_⟩, hrest⟩
  obtain rfl : after = some x := Option.mem_toList.mp hx
  exact hinst.move hm

lemma Sound.next (h : Sound s) (hnext : SettledNext s s') : Sound s' := by
  obtain ⟨a, hstep, hlock⟩ := hnext
  cases hstep with
  | login b clock => exact h.login b clock
  | lock => exact h.lock (hlock rfl)
  | signal status => exact h.signal status
  | move front hs hm => exact h.move hs hm

lemma Sound.run (h : Sound s) (hrun : Relation.ReflTransGen SettledNext s s') : Sound s' := by
  induction hrun with
  | refl => exact h
  | tail _ hnext ih => exact ih.next hnext

lemma sound_init : Sound System.init := fun _ hinst => absurd hinst List.not_mem_nil

lemma Sound.fresh (h : Sound s) (hquiet : Quiescent s) : Fresh s := by
  have hnone : ∀ inst ∈ s.live, ¬ inst.epoch < s.locks := fun inst hinst hlt =>
    (h inst hinst).older hlt (mayWait_of_stuck (hquiet inst hinst))
  refine ⟨hnone, fun inst hinst inst' hinst' => ?_⟩
  have h₁ := (h inst hinst).epoch_le
  have h₂ := (h inst' hinst').epoch_le
  have h₃ := hnone inst hinst
  have h₄ := hnone inst' hinst'
  omega

/-- **No stale instance.** Where no instance waits in `accept`, or can still come to wait there,
at any manual lock, nothing from before the latest of them is alive once all is quiet. -/
theorem fresh_of_settled (h : Relation.ReflTransGen SettledNext System.init s)
    (hquiet : Quiescent s) : Fresh s :=
  (sound_init.run h).fresh hquiet

/-! ### The condition is needed at every lock -/

/-- A pass that dispatches the lock signal is the last one. -/
lemma ends_of_signal {S : Setup} {clock : ℕ → ℤ} {r : Round} {v v' : Vars} (h : 3 ∈ r.signals) :
    (onePass S clock r v).result ≠ .ok v' := by
  intro hok
  obtain ⟨v₁, -, hok⟩ := Act.bind_result_ok.mp hok
  obtain ⟨v₂, -, hok⟩ := Act.bind_result_ok.mp hok
  obtain ⟨v₃, -, hok⟩ := Act.bind_result_ok.mp hok
  obtain ⟨-, -, hok⟩ := Act.bind_result_ok.mp hok
  obtain ⟨u, hcheck, -⟩ := Act.bind_result_ok.mp hok
  unfold checkLockStatus at hcheck
  split_ifs at hcheck <;> cases hcheck

/-- After `k` locks, the instances `live` come to `live'` without the phone, those that wait
among them, and each of these is good. -/
structure Leads (k : ℕ) (Good : Instance → Prop) (live live' : List Instance) : Prop where
  good : ∀ inst ∈ live', Good inst
  waiting : ∀ inst ∈ live, inst.MayWait → ∃ inst' ∈ live', inst'.epoch = inst.epoch ∧ inst'.MayWait
  run : ∀ front rest,
    Relation.ReflTransGen SettledNext ⟨k, front ++ live ++ rest⟩ ⟨k, front ++ live' ++ rest⟩

variable {Good : Instance → Prop} {live live' : List Instance}

lemma Leads.refl (h : ∀ inst ∈ live, Good inst) : Leads k Good live live where
  good := h
  waiting inst hinst hw := ⟨inst, hinst, rfl, hw⟩
  run _ _ := .refl

lemma Leads.cons {live₁ live₁' : List Instance} (h : Leads k Good [inst] live')
    (h₁ : Leads k Good live₁ live₁') : Leads k Good (inst :: live₁) (live' ++ live₁') where
  good := List.forall_mem_append.mpr ⟨h.good, h₁.good⟩
  waiting x hx hw := by
    rcases List.mem_cons.mp hx with rfl | hx
    · obtain ⟨y, hy, hkeeps⟩ := h.waiting x List.mem_cons_self hw
      exact ⟨y, List.mem_append_left _ hy, hkeeps⟩
    · obtain ⟨y, hy, hkeeps⟩ := h₁.waiting x hx hw
      exact ⟨y, List.mem_append_right _ hy, hkeeps⟩
  run front rest := by
    have hhead := h.run front (live₁ ++ rest)
    have htail := h₁.run (front ++ live') rest
    simp only [List.append_assoc, List.cons_append, List.nil_append] at hhead htail ⊢
    exact hhead.trans htail

/-- The instances go one by one. -/
lemma leads_all (live : List Instance) (h : ∀ inst ∈ live, ∃ live', Leads k Good [inst] live') :
    ∃ live', Leads k Good live live' := by
  induction live with
  | nil => exact ⟨[], .refl (by simp)⟩
  | cons inst live ih =>
    obtain ⟨hinst, hrest⟩ := List.forall_mem_cons.mp h
    obtain ⟨live', h'⟩ := hinst
    obtain ⟨live₁', h₁'⟩ := ih hrest
    exact ⟨_, h'.cons h₁'⟩

/-- The loop has begun. -/
def Serves (inst : Instance) : Prop := ∃ S v queue, inst.phase = .serving S v queue

/-- An instance that starts up comes to its loop, or ends. -/
lemma leads_start (inst : Instance) : ∃ live', Leads k Serves [inst] live' := by
  rcases hphase : inst.phase with b | ⟨S, v, queue⟩
  · refine ⟨(inst.start b).toList, ?_, ?_, fun front rest => ?_⟩
    · intro x hx
      obtain ⟨S, -, rfl⟩ := start_eq_some.mp (Option.mem_toList.mp hx)
      exact ⟨_, _, _, rfl⟩
    · intro x hx hw
      obtain rfl := List.mem_singleton.mp hx
      rw [Instance.MayWait, hphase] at hw
      obtain ⟨S, hS, hopen⟩ := hw
      refine ⟨_, Option.mem_toList.mpr (start_eq_some.mpr ⟨S, hS, rfl⟩), rfl, ?_⟩
      change waits S Vars.init = true
      rw [waits, hopen]
      rfl
    · have hstep := Step.move (s := ⟨k, front ++ inst :: rest⟩) front rfl (.start hphase)
      rw [List.append_assoc, List.singleton_append]
      exact .single ⟨.move false, hstep, nofun⟩
  · exact ⟨[inst], .refl (by simpa [Serves] using ⟨S, v, queue, hphase⟩)⟩

/-- An instance that the lock signal waits for ends, unless it waits in `accept`. -/
lemma leads_drain {S : Setup} {v : Vars} (queue : List ℕ) (hphase : inst.phase = .serving S v queue)
    (hmem : 3 ∈ queue) (hw : waits S v = false) : Leads k Good [inst] [] := by
  induction queue generalizing inst v with
  | nil => cases hmem
  | cons status queue ih =>
    have hno : ¬ inst.MayWait := by
      rw [Instance.MayWait, hphase]
      simp [hw]
    refine ⟨by simp, by simpa using hno, fun front rest => ?_⟩
    have hmove := Move.pass hphase (connection phone) 1 (by decide)
    rw [hw] at hmove
    have hstep := Step.move (s := ⟨k, front ++ inst :: rest⟩) front rfl hmove
    rw [List.append_assoc, List.singleton_append]
    refine .head ⟨.move false, hstep, nofun⟩ ?_
    rcases hafter : inst.pass S v (status :: queue) (connection phone) 1 with _ | inst'
    · exact .refl
    · obtain ⟨v', hv', rfl⟩ := pass_eq_some.mp hafter
      have hne : status ≠ 3 := fun h => ends_of_signal (by simp [h]) hv'
      have hw' : waits S v' = false :=
        Bool.eq_false_of_not_eq_true fun h => by simp [waits_of_pass hv' h] at hw
      exact (ih rfl (List.mem_of_ne_of_mem hne.symm hmem) hw').run front rest

/-- The loop waits in `accept`. -/
def Waiting (inst : Instance) : Prop :=
  ∃ S v queue, inst.phase = .serving S v queue ∧ waits S v = true

lemma leads_signalled (h : Serves inst) :
    ∃ live', Leads k Waiting [inst.signal 3] live' := by
  obtain ⟨epoch, clock, phase⟩ := inst
  obtain ⟨S, v, queue, rfl⟩ := h
  rcases hw : waits S v with _ | _
  · exact ⟨[], leads_drain (queue ++ [3]) rfl (by simp) hw⟩
  · refine ⟨_, .refl fun x hx => ?_⟩
    obtain rfl := List.mem_singleton.mp hx
    exact ⟨S, v, queue ++ [3], rfl, hw⟩

/-- A lock at which an instance may wait can leave that instance alive. -/
lemma exists_stale (hsound : Sound s) (h : ¬ Settled s) :
    ∃ s', Relation.ReflTransGen SettledNext s.lock s' ∧ Quiescent s' ∧ ¬ Fresh s' := by
  obtain ⟨inst, hinst, hw⟩ : ∃ inst ∈ s.live, inst.MayWait := by
    by_contra hno
    exact h fun inst hinst hw => hno ⟨inst, hinst, hw⟩
  obtain ⟨live₁, hstart⟩ := leads_all (k := s.locks + 1) s.lock.live
    fun inst _ => leads_start inst
  obtain ⟨live₂, hdrain⟩ := leads_all (k := s.locks + 1) (live₁.map (Instance.signal 3))
    fun inst hinst => by
      obtain ⟨inst, hmem, rfl⟩ := List.mem_map.mp hinst
      exact leads_signalled (hstart.good inst hmem)
  have hsignal : SettledNext ⟨s.locks + 1, live₁⟩ ⟨s.locks + 1, live₁.map (Instance.signal 3)⟩ :=
    ⟨.signal, .signal 3, nofun⟩
  refine ⟨⟨s.locks + 1, live₂⟩, ?_, fun x hx => ?_, fun hfresh => ?_⟩
  · have hrun₁ := hstart.run [] []
    have hrun₂ := hdrain.run [] []
    simp only [List.nil_append, List.append_nil] at hrun₁ hrun₂
    exact (hrun₁.tail hsignal).trans hrun₂
  · obtain ⟨S, v, queue, hphase, hwaits⟩ := hdrain.good x hx
    exact stuck_of_waits hphase hwaits
  · obtain ⟨x, hx, hepoch, hw⟩ := hstart.waiting _ (List.mem_map_of_mem hinst)
      ((mayWait_signal 3).mpr hw)
    obtain ⟨y, hy, hepoch', -⟩ := hdrain.waiting _ (List.mem_map_of_mem hx)
      ((mayWait_signal 3).mpr hw)
    apply hfresh.none_older y hy
    calc y.epoch = (x.signal 3).epoch := hepoch'
      _ = x.epoch := epoch_signal 3
      _ = (inst.signal 3).epoch := hepoch
      _ = inst.epoch := epoch_signal 3
      _ < s.locks + 1 := Nat.lt_succ_of_le (hsound inst hinst).epoch_le

/-- A lock is harmless exactly when it meets the condition. -/
theorem settled_iff (h : Relation.ReflTransGen SettledNext System.init s) :
    Settled s ↔
      ∀ s', Relation.ReflTransGen SettledNext s.lock s' → Quiescent s' → Fresh s' := by
  have hsound := sound_init.run h
  constructor
  · exact fun hsettled s' hrun => ((hsound.lock hsettled).run hrun).fresh
  · intro hfresh
    by_contra hno
    obtain ⟨s', hrun, hquiet, hstale⟩ := exists_stale hsound hno
    exact hstale (hfresh s' hrun hquiet)

/-! ### A lock after the connection, and one before it -/

def stopped : ℕ → ℤ := fun _ => 0

/-- An instance spawned after `epoch` locks that waits for its first connection. -/
def listening (epoch : ℕ) (queue : List ℕ) : Instance :=
  ⟨epoch, stopped, .serving usualSetup Vars.init queue⟩

/-- The instance once the phone has connected to it. -/
def connected (queue : List ℕ) : Instance :=
  ⟨0, stopped, .serving usualSetup ⟨some phone, phone, 0, 0, 0, 2⟩ queue⟩

lemma start_usual (epoch : ℕ) :
    Instance.start ⟨epoch, stopped, .starting usualBoot⟩ usualBoot = some (listening epoch []) :=
  start_eq_some.mpr ⟨usualSetup, by rw [boot_usual], rfl⟩

lemma pass_listening :
    (listening 0 []).pass usualSetup Vars.init [] (connection phone) 0 = some (connected []) := by
  have hanswer : answered usualSetup (connection phone).accept = some phone := rfl
  have hsame : strEq (some phone) usualSetup.btAddr = .ok true := by simp [strEq, usualSetup]
  refine pass_eq_some.mpr ⟨⟨some phone, phone, 0, 0, 0, 2⟩, ?_, rfl⟩
  rw [onePass, connect_of_none rfl, connectClient_of_answered hanswer isTrustedClient_phone, hsame]
  rfl

lemma run_login (s : System) :
    Relation.ReflTransGen SettledNext s ⟨s.locks, listening s.locks [] :: s.live⟩ := by
  refine (Relation.ReflTransGen.single ⟨.login, .login usualBoot stopped, nofun⟩).tail ?_
  have hmove := Step.move (s := s.login usualBoot stopped) [] rfl (Move.start rfl)
  rw [start_usual] at hmove
  exact ⟨.move false, hmove, nofun⟩

lemma run_connect : Relation.ReflTransGen SettledNext System.init ⟨0, [connected []]⟩ := by
  refine (run_login System.init).tail ⟨.move true, ?_, nofun⟩
  have hmove := Step.move (s := ⟨0, [listening 0 []]⟩) [] rfl
    (Move.pass rfl (connection phone) 0 (Nat.zero_le _))
  rw [pass_listening] at hmove
  exact hmove

/-- The instance that has its phone goes with the lock, and the next login is alone. -/
lemma run_relogin : Relation.ReflTransGen SettledNext System.init ⟨1, [listening 1 []]⟩ := by
  have hlock : SettledNext ⟨0, [connected []]⟩ ⟨1, [connected [3]]⟩ := by
    refine ⟨.lock, .lock, fun _ inst hinst hw => ?_⟩
    obtain rfl : inst = connected [] := by simpa using hinst
    cases hw
  have hend : SettledNext ⟨1, [connected [3]]⟩ ⟨1, []⟩ := by
    refine ⟨.move false, ?_, nofun⟩
    exact Step.move (s := ⟨1, [connected [3]]⟩) [] rfl
      (Move.pass rfl (connection phone) 1 (by decide))
  exact ((run_connect.tail hlock).tail hend).trans (run_login ⟨1, []⟩)

theorem fresh_relogin : Fresh ⟨1, [listening 1 []]⟩ := by
  apply fresh_of_settled run_relogin
  intro inst hinst
  obtain rfl : inst = listening 1 [] := by simpa using hinst
  exact stuck_of_waits rfl rfl

/-- The phone does not connect before the lock: the instance keeps waiting, beside that of the
next login. -/
theorem not_fresh_unconnected :
    ¬ ∀ s, Relation.ReflTransGen Next System.init s → Quiescent s → Fresh s := by
  intro h
  have hmono : Relation.ReflTransGen SettledNext ≤ Relation.ReflTransGen Next := by
    apply Relation.ReflTransGen.mono
    intro s s' hnext
    obtain ⟨a, hstep, -⟩ := hnext
    exact ⟨a, hstep⟩
  have hlogin : Relation.ReflTransGen Next System.init ⟨0, [listening 0 []]⟩ :=
    hmono _ _ (run_login System.init)
  have hlock : Next ⟨0, [listening 0 []]⟩ ⟨1, [listening 0 [3]]⟩ := ⟨.lock, .lock⟩
  have hrun : Relation.ReflTransGen Next System.init ⟨1, [listening 1 [], listening 0 [3]]⟩ :=
    (hlogin.tail hlock).trans (hmono _ _ (run_login ⟨1, [listening 0 [3]]⟩))
  have hfresh := h _ hrun fun inst hinst => by
    rcases List.mem_pair.mp hinst with rfl | rfl
    · exact stuck_of_waits rfl rfl
    · exact stuck_of_waits rfl rfl
  exact hfresh.none_older (listening 0 [3]) (by simp) (by decide)

end ProxyAuth.Instances
