import ProxyAuth.BluetoothInteraction
import ProxyAuth.MainActivity

/-!
Whom the phone talks to.

A click in the list opens the activity that asks the service for a connection, and the service
handles what it is asked for one after the other. The refresh opens nothing, since what the file
holds is never an address. The process may be killed at any time; the file is left, and so are the
activities that the system may create again.
-/

namespace ProxyAuth.Chosen

open ProxyAuth.Runs ProxyAuth.Utf8 ProxyAuth.MainActivity ProxyAuth.BluetoothInteraction

/-! ### The app -/

/-- The activities and the service in one process. `clicked` and `opened` are the devices that were
clicked and the intents of the `ControlActivity`s that were opened so far, `queue` the intents that
the service has not handled yet, and `peer` the device of the socket that was created last. -/
structure Phone where
  app : App
  clicked : List BluetoothDevice
  opened : List Intent
  queue : List Intent
  serverAddress : Option Text
  peer : Option Text
  service : Service
  destroyed : Bool

/-- The service when it has nothing to do. -/
def idle : Service := ⟨false, .closed, Buffer.zero, false, .finished⟩

/-- A new process. -/
def Phone.born (file : Option (List UInt8)) (clicked : List BluetoothDevice)
    (opened : List Intent) : Phone :=
  ⟨MainActivity.onCreate file, clicked, opened, [], none, none, idle, false⟩

/-- The process ends, and the next one finds the file. -/
def Phone.die (φ : Phone) : Phone := .born (some φ.app.file) φ.clicked φ.opened

/-- `ControlActivity.onCreate` starts the service; a name that is missing raises an exception. -/
def Phone.controlOnCreate (φ : Phone) (i : Intent) : Phone :=
  match i.deviceName with
  | some name =>
    { φ with queue := φ.queue ++ [⟨i.extraAddress, some name⟩], destroyed := false }
  | none => φ.die

def Phone.startActivity (φ : Phone) (i : Intent) : Phone :=
  { φ with opened := φ.opened ++ [i] }.controlOnCreate i

/-- What may happen: `create` and `recreate` make an activity anew, and `disconnect` is the click
that stops the service. -/
inductive Action
  | create
  | recreate (k : ℕ)
  | refresh (bonded : Bonded)
  | click (position : ℕ)
  | disconnect (ok : Bool)
  | handle
  | work (a : Answer)
  | drop
  | kill

section
variable (sha256 : List UInt8 → Vector UInt8 32)

def Phone.refresh (φ : Phone) (bonded : Bonded) : Phone :=
  let r := pairedDeviceList sha256 φ.app bonded
  r.2.foldl Phone.startActivity { φ with app := r.1 }

def Phone.click (φ : Phone) (position : Fin φ.app.list.length) : Phone :=
  let r := onItemClick sha256 φ.app position
  let φ := { φ with app := r.1, clicked := φ.clicked ++ [φ.app.list.get position] }
  match r.2 with
  | some i => φ.startActivity i
  | none => φ.die

/-- `onHandleIntent` begins, once the intent before is done with. -/
def Phone.handle (φ : Phone) : Option Phone :=
  match φ.service.place, φ.queue with
  | .finished, i :: queue => some
    { φ with
      queue := queue
      serverAddress := some i.extraAddress
      service := φ.service.goto .connectNull }
  | _, _ => none

/-- A step of the worker; a socket is created for `server_address`. -/
def Phone.work (φ : Phone) (a : Answer) : Option Phone :=
  (φ.service.work a).map fun s =>
    { φ with
      service := s
      peer := if φ.service.place = .create ∧ a.ok = true then φ.serverAddress else φ.peer }

/-- The worker is left as it is, and handles what is in the queue. -/
def Phone.disconnect (φ : Phone) (ok : Bool) : Phone :=
  { φ with service := φ.service.onDestroy ok, destroyed := true }

def step (φ : Phone) : Action → Option Phone
  | .create => some { φ with app := MainActivity.onCreate (some φ.app.file) }
  | .recreate k => φ.opened[k]?.map φ.controlOnCreate
  | .refresh bonded => some (φ.refresh sha256 bonded)
  | .click position =>
    if h : position < φ.app.list.length then some (φ.click sha256 ⟨position, h⟩) else none
  | .disconnect ok => some (φ.disconnect ok)
  | .handle => φ.handle
  | .work a => φ.work a
  | .drop => (BluetoothInteraction.step φ.service .drop).map fun s => { φ with service := s }
  | .kill => some φ.die

/-- No address has the digest of what the file may hold. -/
def Apart (known : List Text) : Prop :=
  ∀ s ∈ [] :: known.map (sha sha256), ∀ a ∈ known, CollisionFree sha256 [s, a]

instance (known : List Text) : Decidable (Apart sha256 known) :=
  inferInstanceAs (Decidable (∀ s ∈ _, ∀ a ∈ known, _))

end

/-- After `onDestroy` the worker has come to rest. Before that, the next intent would make a second
service beside it. -/
def Phone.Settled (φ : Phone) : Prop :=
  φ.destroyed = true → φ.service.place = .finished ∧ φ.queue = []

/-- The devices that come to be bonded are among the known ones, and there is one worker. -/
def Allowed (known : List Text) (φ : Phone) : Action → Prop
  | .refresh bonded => ∀ e ∈ bonded.devices, e.address ∈ known
  | .click _ => φ.Settled
  | .recreate _ => φ.Settled
  | _ => True

instance (φ : Phone) : Decidable φ.Settled :=
  inferInstanceAs (Decidable (_ = true → _ ∧ _))

instance (known : List Text) (φ : Phone) : (a : Action) → Decidable (Allowed known φ a)
  | .refresh bonded => inferInstanceAs (Decidable (∀ e ∈ bonded.devices, e.address ∈ known))
  | .click _ | .recreate _ => inferInstanceAs (Decidable φ.Settled)
  | .create | .disconnect _ | .handle | .work _ | .drop | .kill =>
    inferInstanceAs (Decidable True)

/-! ### The worker -/

/-- Here it matters that there is no socket. -/
def Plain : Place → Bool
  | .connectNull | .connectLive | .create | .finished => false
  | _ => true

/-- The worker begins and ends without a socket, so that it finds none that is connected. -/
def Fresh (s : Service) : Prop :=
  Plain s.place = true ∨ s.place ≠ .connectLive ∧ s.held = false

/-- After the step the worker is fresh, and holds no socket that it did not hold before. -/
def Holds (s s' : Service) : Prop := Fresh s' ∧ (s'.held = true → s.held = true)

section
variable {s s' : Service}

lemma holds_goto {p : Place} (h : Plain p = true) : Holds s (s.goto p) := ⟨.inl h, id⟩

lemma holds_deref {p : Place} (h : Plain p = true) : Holds s (s.deref p) := by
  unfold Service.deref
  split_ifs
  · exact holds_goto h
  · exact holds_goto rfl

lemma holds_close {p : Place} (a : Answer) (k : Caller) (h : Plain p = true) :
    Holds s (s.close a k p) := by
  unfold Service.close
  split_ifs
  · exact holds_goto h
  · exact holds_goto rfl
  · exact holds_goto rfl

lemma holds_next (h : s'.held = false) {k : Caller} (hplace : s'.place = k.next) : Holds s s' := by
  refine ⟨?_, fun hheld => absurd (h.symm.trans hheld) (by simp)⟩
  unfold Fresh
  rw [hplace, h]
  cases k <;> simp [Caller.next, Plain]

lemma held_of_fresh (h : Fresh s) (hplace : Plain s.place = false) : s.held = false := by
  rcases h with hplain | hrest
  · rw [hplace] at hplain
    cases hplain
  · exact hrest.2

/-- The one step that makes a socket is the creation. -/
lemma holds_work {a : Answer} (h : Fresh s) (hs : s.work a = some s') :
    Holds s s' ∨ Fresh s' ∧ s.place = .create ∧ a.ok = true := by
  unfold Service.work at hs
  cases hplace : s.place with
  | connectNull =>
    simp only [hplace] at hs
    obtain rfl := Option.some.inj hs
    have hheld : s.held = false := held_of_fresh h (by rw [hplace]; rfl)
    rw [hheld]
    exact .inl ⟨.inr ⟨by simp [Service.goto], hheld⟩, id⟩
  | connectLive =>
    rcases h with hplain | hrest
    · simp [hplace, Plain] at hplain
    · exact absurd hplace hrest.1
  | create =>
    simp only [hplace] at hs
    split_ifs at hs with hok
    · obtain rfl := Option.some.inj hs
      exact .inr ⟨.inl rfl, rfl, hok⟩
    · obtain rfl := Option.some.inj hs
      exact .inl (holds_goto rfl)
  | connect =>
    simp only [hplace] at hs
    split_ifs at hs
    · obtain rfl := Option.some.inj hs
      exact .inl ⟨.inl rfl, id⟩
    · obtain rfl := Option.some.inj hs
      exact .inl (holds_goto rfl)
    · obtain rfl := Option.some.inj hs
      exact .inl (holds_goto rfl)
  | serverNull | receiveNull | sendNull =>
    simp only [hplace] at hs
    obtain rfl := Option.some.inj hs
    exact .inl (holds_goto (by split_ifs <;> rfl))
  | serverLive | receiveLive | sendLive =>
    simp only [hplace] at hs
    obtain rfl := Option.some.inj hs
    exact .inl (holds_deref (by split_ifs <;> rfl))
  | receiveStream | sendStream =>
    simp only [hplace] at hs
    obtain rfl := Option.some.inj hs
    exact .inl (holds_deref rfl)
  | receiveRead =>
    simp only [hplace] at hs
    split at hs
    · obtain rfl := Option.some.inj hs
      exact .inl ⟨.inl rfl, id⟩
    · cases hs
    · obtain rfl := Option.some.inj hs
      split_ifs
      · exact .inl ⟨.inl rfl, id⟩
      · exact .inl (holds_goto rfl)
    · obtain rfl := Option.some.inj hs
      exact .inl (holds_goto rfl)
  | stopTest buf =>
    simp only [hplace] at hs
    obtain rfl := Option.some.inj hs
    exact .inl ⟨.inl rfl, id⟩
  | sendWrite =>
    simp only [hplace] at hs
    obtain rfl := Option.some.inj hs
    exact .inl (holds_goto rfl)
  | disconnectNull k =>
    simp only [hplace] at hs
    obtain rfl := Option.some.inj hs
    split_ifs with hheld
    · exact .inl (holds_goto rfl)
    · exact .inl (holds_next (k := k) (Bool.eq_false_iff.mpr hheld) rfl)
  | closeOutput k | closeInput k =>
    simp only [hplace] at hs
    obtain rfl := Option.some.inj hs
    exact .inl (holds_close a k rfl)
  | closeSocket k =>
    simp only [hplace] at hs
    obtain rfl := Option.some.inj hs
    exact .inl (holds_close a k rfl)
  | clear k =>
    simp only [hplace] at hs
    obtain rfl := Option.some.inj hs
    exact .inl (holds_next (k := k) rfl rfl)
  | finished | crashed =>
    simp only [hplace] at hs
    cases hs

lemma holds_onDestroy (h : Fresh s) (ok : Bool) : Holds s (s.onDestroy ok) := by
  unfold Service.onDestroy
  by_cases hheld : s.held = true
  · rw [if_pos hheld]
    exact ⟨h.imp id fun hrest => ⟨hrest.1, rfl⟩, fun hno => nomatch hno⟩
  · rw [if_neg hheld]
    exact ⟨h, id⟩

end

/-! ### What a run keeps -/

variable {sha256 : List UInt8 → Vector UInt8 32} {known : List Text} {φ φ' : Phone}

/-- The file is empty, or holds the hash of an address. -/
def Stored (sha256 : List UInt8 → Vector UInt8 32) (known : List Text) (file : List UInt8) : Prop :=
  file = [] ∨ ∃ a ∈ known, file = encode (sha sha256 a)

/-- The intent is for a device that was clicked. -/
def Clicked (φ : Phone) (i : Intent) : Prop := ∃ device ∈ φ.clicked, i = controlActivity device

structure Faithful (sha256 : List UInt8 → Vector UInt8 32) (known : List Text) (φ : Phone) :
    Prop where
  stored : Stored sha256 known φ.app.file
  listed : ∀ e ∈ φ.app.list, e.address ∈ known
  opened : ∀ i ∈ φ.opened, Clicked φ i
  asked : ∀ i ∈ φ.queue, Clicked φ i
  current : ∀ a ∈ φ.serverAddress, ∃ device ∈ φ.clicked, a = device.address
  begun : φ.serverAddress = none → φ.service.place = .finished
  fresh : Fresh φ.service
  peer : φ.service.held = true → φ.serverAddress ≠ none ∧ φ.peer = φ.serverAddress

lemma stored_ne_address {file : List UInt8} (h : Stored sha256 known file)
    (device : BluetoothDevice) : decode file ≠ device.address := by
  rcases h with rfl | ⟨a, -, rfl⟩
  · intro heq
    have hshape := device.shape
    rw [← heq] at hshape
    cases hshape
  · rw [decode_encode]
    exact sha_ne_address a device

/-- The refresh finds no device for what the file holds. -/
lemma started_eq_nil (hsha : Apart sha256 known) {app : App} (h : Stored sha256 known app.file)
    {bonded : Bonded} (hbonded : ∀ e ∈ bonded.devices, e.address ∈ known) :
    (pairedDeviceList sha256 app bonded).2 = [] := by
  rw [List.eq_nil_iff_forall_not_mem]
  intro i hi
  obtain ⟨e, he, heq, -⟩ := mem_started.mp hi
  have hmem : decode app.file ∈ [] :: known.map (sha sha256) := by
    rcases h with hnil | ⟨a, ha, hfile⟩
    · rw [hnil]
      exact List.mem_cons_self
    · rw [hfile, decode_encode]
      exact List.mem_cons_of_mem _ (List.mem_map_of_mem ha)
  refine stored_ne_address h e (sha_inj (hsha _ hmem _ (hbonded e he)) ?_ ?_ heq)
  · exact List.mem_cons_self
  · exact List.mem_cons_of_mem _ List.mem_cons_self

/-! ### One lemma for each action -/

lemma fresh_idle : Fresh idle := .inr ⟨by simp [idle], rfl⟩

/-- A new process has only the file and what was opened. -/
lemma Faithful.die (h : Faithful sha256 known φ) : Faithful sha256 known φ.die where
  stored := h.stored
  listed _ he := nomatch he
  opened := h.opened
  asked _ hi := nomatch hi
  current _ ha := nomatch ha
  begun _ := rfl
  fresh := fresh_idle
  peer hheld := nomatch hheld

lemma Faithful.create (h : Faithful sha256 known φ) :
    Faithful sha256 known { φ with app := MainActivity.onCreate (some φ.app.file) } :=
  { h with
    stored := h.stored
    listed := fun _ he => nomatch he }

/-- What is asked of the service is what was clicked. -/
lemma Faithful.controlOnCreate (h : Faithful sha256 known φ) {i : Intent} (hi : Clicked φ i) :
    Faithful sha256 known (φ.controlOnCreate i) := by
  unfold Phone.controlOnCreate
  split
  · rename_i name hname
    refine { h with asked := fun j hj => ?_ }
    rcases List.mem_append.mp hj with hj | hj
    · exact h.asked j hj
    · obtain rfl : j = i := by rw [List.mem_singleton.mp hj, ← hname]
      exact hi
  · exact h.die

lemma Faithful.startActivity (h : Faithful sha256 known φ) {i : Intent} (hi : Clicked φ i) :
    Faithful sha256 known (φ.startActivity i) := by
  have hopened : ∀ j ∈ φ.opened ++ [i], Clicked φ j := by
    intro j hj
    rcases List.mem_append.mp hj with hj | hj
    · exact h.opened j hj
    · rwa [List.mem_singleton.mp hj]
  have hstart : Faithful sha256 known { φ with opened := φ.opened ++ [i] } :=
    { h with opened := hopened }
  exact hstart.controlOnCreate hi

lemma Faithful.refresh (hsha : Apart sha256 known) (h : Faithful sha256 known φ)
    {bonded : Bonded} (hbonded : ∀ e ∈ bonded.devices, e.address ∈ known) :
    Faithful sha256 known (φ.refresh sha256 bonded) := by
  unfold Phone.refresh
  simp only [started_eq_nil hsha h.stored hbonded, List.foldl_nil]
  have hfile : (pairedDeviceList sha256 φ.app bonded).1.file = φ.app.file := by
    rw [pairedDeviceList]
    split_ifs <;> rfl
  refine { h with stored := hfile ▸ h.stored, listed := ?_ }
  rw [pairedDeviceList]
  split_ifs
  · exact hbonded
  · simp

lemma Faithful.click (h : Faithful sha256 known φ) (position : Fin φ.app.list.length) :
    Faithful sha256 known (φ.click sha256 position) := by
  set device := φ.app.list.get position with hdevice
  have hmem : device ∈ φ.app.list := List.get_mem _ _
  -- The click itself: the file is written, and one more device was clicked.
  have hclicked : Faithful sha256 known { φ with
      app := (onItemClick sha256 φ.app position).1, clicked := φ.clicked ++ [device] } :=
    { h with
      stored := .inr ⟨device.address, h.listed device hmem, rfl⟩
      opened := fun i hi => (h.opened i hi).imp fun e he => ⟨List.mem_append_left _ he.1, he.2⟩
      asked := fun i hi => (h.asked i hi).imp fun e he => ⟨List.mem_append_left _ he.1, he.2⟩
      current := fun a ha =>
        (h.current a ha).imp fun e he => ⟨List.mem_append_left _ he.1, he.2⟩ }
  unfold Phone.click
  rcases hname : device.name with _ | name
  · simp only [onItemClick, ← hdevice, hname, Option.map_none]
    exact hclicked.die
  · simp only [onItemClick, ← hdevice, hname, Option.map_some]
    have hi : (⟨device.address, some name⟩ : Intent) = controlActivity device := by
      rw [controlActivity, hname]
    have hlast : device ∈ φ.clicked ++ [device] :=
      List.mem_append_right _ (List.mem_singleton_self _)
    exact hclicked.startActivity ⟨device, hlast, hi⟩

/-- The worker has no socket when it begins with the next intent. -/
lemma Faithful.handle (h : Faithful sha256 known φ) (hs : φ.handle = some φ') :
    Faithful sha256 known φ' := by
  unfold Phone.handle at hs
  split at hs
  · rename_i i queue hplace hqueue
    obtain rfl := Option.some.inj hs
    have hheld : φ.service.held = false := held_of_fresh h.fresh (by rw [hplace]; rfl)
    obtain ⟨device, hdevice, hi⟩ := h.asked i (by rw [hqueue]; exact List.mem_cons_self)
    exact
      { h with
        asked := fun j hj => h.asked j (by rw [hqueue]; exact List.mem_cons_of_mem _ hj)
        current := fun a ha => ⟨device, hdevice, by rw [← Option.some.inj ha, hi]; rfl⟩
        begun := fun hnone => nomatch hnone
        fresh := .inr ⟨by simp [Service.goto], hheld⟩
        peer := fun hno => absurd (hheld.symm.trans hno) (by simp) }
  · cases hs

lemma Faithful.service {s : Service} (h : Faithful sha256 known φ) (hholds : Holds φ.service s)
    (hplace : φ.service.place = .finished → s.place = .finished) :
    Faithful sha256 known { φ with service := s } :=
  { h with
    begun := fun hnone => hplace (h.begun hnone)
    fresh := hholds.1
    peer := fun hheld => h.peer (hholds.2 hheld) }

lemma Faithful.work (h : Faithful sha256 known φ) {a : Answer} (hs : φ.work a = some φ') :
    Faithful sha256 known φ' := by
  obtain ⟨s, hwork, rfl⟩ := Option.map_eq_some_iff.mp hs
  -- Only a worker that has begun makes a step.
  have hbegun : φ.serverAddress ≠ none := by
    intro hnone
    rw [Service.work, h.begun hnone] at hwork
    cases hwork
  refine { h with begun := fun hnone => absurd hnone hbegun, fresh := ?_, peer := fun hheld => ?_ }
  · rcases holds_work h.fresh hwork with hholds | ⟨hfresh, -⟩
    · exact hholds.1
    · exact hfresh
  · refine ⟨hbegun, ?_⟩
    split_ifs with hcreate
    · rfl
    · rcases holds_work h.fresh hwork with hholds | ⟨-, hmade⟩
      · exact (h.peer (hholds.2 hheld)).2
      · exact absurd hmade hcreate

lemma Faithful.step (hsha : Apart sha256 known) {a : Action} (h : Faithful sha256 known φ)
    (hok : Allowed known φ a) (hs : step sha256 φ a = some φ') : Faithful sha256 known φ' := by
  cases a with
  | create =>
    obtain rfl := Option.some.inj hs
    exact h.create
  | recreate k =>
    obtain ⟨i, hi, rfl⟩ := Option.map_eq_some_iff.mp hs
    exact h.controlOnCreate (h.opened i (List.mem_of_getElem? hi))
  | refresh bonded =>
    obtain rfl := Option.some.inj hs
    exact h.refresh hsha hok
  | click position =>
    simp only [Chosen.step] at hs
    split_ifs at hs with hlt
    obtain rfl := Option.some.inj hs
    exact h.click ⟨position, hlt⟩
  | disconnect ok =>
    obtain rfl := Option.some.inj hs
    have hplace : (φ.service.onDestroy ok).place = φ.service.place := by
      unfold Service.onDestroy
      split_ifs <;> rfl
    exact { h.service (holds_onDestroy h.fresh ok) hplace.trans with }
  | handle => exact h.handle hs
  | work a => exact h.work hs
  | drop =>
    obtain ⟨s, hdrop, rfl⟩ := Option.map_eq_some_iff.mp hs
    simp only [BluetoothInteraction.step] at hdrop
    split_ifs at hdrop
    obtain rfl := Option.some.inj hdrop
    exact h.service ⟨h.fresh, id⟩ id
  | kill =>
    obtain rfl := Option.some.inj hs
    exact h.die

/-! ### Over whole runs -/

/-- **Nobody but who was clicked.** In every run of a phone whose app is new, where no second
service is made beside a worker that `Disconnect` has left behind, whatever the file came to hold:
each activity that was opened is for a device that was clicked, the socket that is held belongs to
such a device, which is the one that the service was last asked for, and `connect` never finds a
socket from before. -/
theorem talks_to_clicked (hsha : Apart sha256 known) {n : ℕ}
    (hrun : Run (step sha256) (fun _ => 0) (Allowed known) n (.born none [] []) φ) :
    (∀ i ∈ φ.opened, ∃ device ∈ φ.clicked, i = controlActivity device) ∧
      (φ.service.held = true → ∃ device ∈ φ.clicked, φ.peer = some device.address ∧
        φ.serverAddress = some device.address) ∧
      φ.service.place ≠ .connectLive := by
  have hborn : Faithful sha256 known (.born none [] []) :=
    { stored := .inl rfl
      listed := fun _ he => nomatch he
      opened := fun _ hi => nomatch hi
      asked := fun _ hi => nomatch hi
      current := fun _ ha => nomatch ha
      begun := fun _ => rfl
      fresh := fresh_idle
      peer := fun hheld => nomatch hheld }
  have h : Faithful sha256 known φ :=
    hrun.invariant (fun φ a φ' hφ hok hs => hφ.step hsha hok hs) hborn
  refine ⟨h.opened, fun hheld => ?_, fun hlive => ?_⟩
  · obtain ⟨hbegun, hpeer⟩ := h.peer hheld
    obtain ⟨a, ha⟩ := Option.ne_none_iff_exists'.mp hbegun
    obtain ⟨device, hdevice, rfl⟩ := h.current a ha
    exact ⟨device, hdevice, hpeer.trans ha, ha⟩
  · rcases h.fresh with hplain | hrest
    · rw [hlive] at hplain
      cases hplain
    · exact hrest.1 hlive

/-! ### One click -/

/-- SHA-256 also on the empty text, and on the hash of the other address. -/
def digests (bs : List UInt8) : Vector UInt8 32 :=
  let n :=
    if bs = [] then 0xe3b0c44298fc1c149afbf4c8996fb92427ae41e4649b934ca495991b7852b855
    else 0x7feb56392f7e5390adabb91a24056a0dd9df94ec4ed1171b6d47c437e0a7b4b1
  if bs = [] ∨ bs = encode (sha digest headset.address) then
    Vector.ofFn fun i => (n / 256 ^ (31 - i.val)).toUInt8
  else digest bs

def yes : Answer := ⟨true, .endOfStream⟩

/-- The computer is clicked, after the process was killed once. -/
def oneClick : List Action :=
  [.refresh twoBonded, .kill, .refresh twoBonded, .click 1, .handle, .work yes, .work yes]

theorem talks_to_computer : ∃ φ : Phone, φ.service.held = true ∧
    (∀ i ∈ φ.opened, ∃ device ∈ φ.clicked, i = controlActivity device) ∧
      (φ.service.held = true → ∃ device ∈ φ.clicked, φ.peer = some device.address ∧
        φ.serverAddress = some device.address) ∧
      φ.service.place ≠ .connectLive := by
  obtain ⟨⟨n, φ⟩, hreplay, hheld⟩ := (Option.any_eq_true _ _).mp (by decide +kernel :
    (replay (step digests) (fun _ => 0) (Allowed [headset.address, computer.address]) 0
      (.born none [] []) oneClick).any (fun x => x.2.service.held) = true)
  exact ⟨φ, hheld, talks_to_clicked (by decide +kernel) ((Run.refl _).replay oneClick hreplay)⟩

end ProxyAuth.Chosen
