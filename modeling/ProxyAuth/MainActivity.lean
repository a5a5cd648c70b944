import ProxyAuth.Hex
import ProxyAuth.Utf8

/-!
The list of bonded devices in the phone app, and the file for the one that was chosen.

A click on a device stores the hash of its address. The refresh takes the hash of what is stored,
and compares it with the hash of each address.
-/

namespace ProxyAuth.MainActivity

open ProxyAuth.Utf8 ProxyAuth.Hex

/-- A bonded device; its address is six pairs of hex digits with colons between. -/
structure BluetoothDevice where
  address : Text
  name : Option Text
  shape : address.length = 17

/-- The bonded devices, in the order in which the set lists them. -/
structure Bonded where
  devices : List BluetoothDevice
  distinct : (devices.map BluetoothDevice.address).Nodup

/-- An intent for `ControlActivity`, with its extras. -/
structure Intent where
  extraAddress : Text
  deviceName : Option Text
  deriving DecidableEq

def controlActivity (device : BluetoothDevice) : Intent := ⟨device.address, device.name⟩

/-- What `rem_devices.txt` holds, and the devices in `list_view`. -/
structure App where
  file : List UInt8
  list : List BluetoothDevice

/-- The file is created where there is none. -/
def onCreate (file : Option (List UInt8)) : App := ⟨file.getD [], []⟩

section
variable (sha256 : List UInt8 → Vector UInt8 32)

def sha (s : Text) : Text := padded 32 (magnitude (sha256 (encode s)).toList)

/-- A refresh of the list, with the activities it starts. -/
def pairedDeviceList (φ : App) (bonded : Bonded) : App × List Intent :=
  if bonded.devices ≠ [] then
    let remAddress := decode φ.file
    (⟨φ.file, bonded.devices⟩,
      (bonded.devices.filter fun device => sha sha256 remAddress = sha sha256 device.address).map
        controlActivity)
  else (⟨φ.file, []⟩, [])

/-- A click in the list. A device without a name raises an exception, but only after the file was
written. -/
def onItemClick (φ : App) (position : Fin φ.list.length) : App × Option Intent :=
  let device := φ.list.get position
  (⟨encode (sha sha256 device.address), φ.list⟩,
    device.name.map fun name => ⟨device.address, some name⟩)

/-- What may happen after the click: the list is refreshed, or the app is started again. -/
inductive Later where
  | refresh (bonded : Bonded)
  | restart

def Later.next (φ : App) : Later → App
  | .refresh bonded => (pairedDeviceList sha256 φ bonded).1
  | .restart => onCreate (some φ.file)

/-- The digest tells the strings apart. -/
def CollisionFree (strings : List Text) : Prop :=
  ∀ s ∈ strings, ∀ t ∈ strings, sha256 (encode s) = sha256 (encode t) → s = t

instance (strings : List Text) : Decidable (CollisionFree sha256 strings) :=
  inferInstanceAs (Decidable (∀ s ∈ strings, ∀ t ∈ strings, _))

end

/-- Among the bonded devices, the activities started are the one for `device`. -/
def StartsOnly (device : BluetoothDevice) (bonded : Bonded) (started : List Intent) : Prop :=
  ∀ e ∈ bonded.devices, controlActivity e ∈ started ↔ e.address = device.address

instance (device : BluetoothDevice) (bonded : Bonded) (started : List Intent) :
    Decidable (StartsOnly device bonded started) :=
  inferInstanceAs (Decidable (∀ e ∈ bonded.devices, _ ↔ _))

variable {sha256 : List UInt8 → Vector UInt8 32}

/-! ### The hash -/

lemma sha_inj {strings : List Text} (h : CollisionFree sha256 strings) {s t : Text}
    (hs : s ∈ strings) (ht : t ∈ strings) (hst : sha sha256 s = sha sha256 t) : s = t := by
  refine h s hs t ht (Vector.toList_inj.mp (magnitude_inj ?_ (padded_inj hst)))
  simp

/-- A hash is longer than an address. -/
lemma sha_ne_address (s : Text) (device : BluetoothDevice) : sha sha256 s ≠ device.address := by
  intro h
  have hlen := le_length_padded 32 (magnitude (sha256 (encode s)).toList)
  rw [← sha, h, device.shape] at hlen
  omega

/-! ### The refresh -/

lemma file_later (later : List Later) (φ : App) :
    (later.foldl (Later.next sha256) φ).file = φ.file := by
  induction later generalizing φ with
  | nil => rfl
  | cons l later ih =>
    rw [List.foldl_cons, ih]
    rcases l with bonded | _
    · rw [Later.next, pairedDeviceList]
      split_ifs <;> rfl
    · rfl

lemma mem_started {φ : App} {bonded : Bonded} {i : Intent} :
    i ∈ (pairedDeviceList sha256 φ bonded).2 ↔
      ∃ e ∈ bonded.devices, sha sha256 (decode φ.file) = sha sha256 e.address ∧
        controlActivity e = i := by
  rw [pairedDeviceList]
  split_ifs with h
  · simp [and_assoc]
  · simp [not_not.mp h]

/-- The refresh starts the devices whose address is what the file holds. -/
lemma controlActivity_mem_iff {φ : App} {bonded : Bonded} {e : BluetoothDevice}
    (hsha : CollisionFree sha256 (decode φ.file :: bonded.devices.map BluetoothDevice.address))
    (he : e ∈ bonded.devices) :
    controlActivity e ∈ (pairedDeviceList sha256 φ bonded).2 ↔ e.address = decode φ.file := by
  rw [mem_started]
  constructor
  · rintro ⟨e', he', heq, hintent⟩
    have haddress : e'.address = e.address := congrArg Intent.extraAddress hintent
    have hmem : e'.address ∈ bonded.devices.map BluetoothDevice.address := List.mem_map_of_mem he'
    exact (sha_inj hsha List.mem_cons_self (List.mem_cons_of_mem _ hmem) heq).trans haddress
      |>.symm
  · exact fun h => ⟨e, he, by rw [h], rfl⟩

/-- For one device to be started, the file has to hold its address. -/
lemma startsOnly_iff {φ : App} {device : BluetoothDevice} {bonded : Bonded}
    (hbonded : device.address ∈ bonded.devices.map BluetoothDevice.address)
    (hsha : CollisionFree sha256 (decode φ.file :: bonded.devices.map BluetoothDevice.address)) :
    StartsOnly device bonded (pairedDeviceList sha256 φ bonded).2 ↔
      decode φ.file = device.address := by
  obtain ⟨e, he, haddress⟩ := List.mem_map.mp hbonded
  constructor
  · intro h
    rw [← haddress, ← (controlActivity_mem_iff hsha he).mp ((h e he).mpr haddress)]
  · intro h e he
    rw [controlActivity_mem_iff hsha he, h]

/-- No refresh starts two activities. -/
theorem length_started_le_one {φ : App} {bonded : Bonded}
    (hsha : CollisionFree sha256 (decode φ.file :: bonded.devices.map BluetoothDevice.address)) :
    (pairedDeviceList sha256 φ bonded).2.length ≤ 1 := by
  rw [pairedDeviceList]
  split_ifs
  · rw [List.length_map]
    set chosen := bonded.devices.filter fun device =>
      sha sha256 (decode φ.file) = sha sha256 device.address with hchosen
    have hnodup : (chosen.map BluetoothDevice.address).Nodup :=
      bonded.distinct.sublist (List.filter_sublist.map _)
    have hsame : ∀ a ∈ chosen.map BluetoothDevice.address, a = decode φ.file := by
      intro a ha
      obtain ⟨e, he, rfl⟩ := List.mem_map.mp ha
      obtain ⟨hmem, heq⟩ := List.mem_filter.mp he
      exact (sha_inj hsha List.mem_cons_self
        (List.mem_cons_of_mem _ (List.mem_map_of_mem hmem)) (of_decide_eq_true heq)).symm
    rw [List.eq_replicate_of_mem hsame, List.nodup_replicate, List.length_map] at hnodup
    exact hnodup
  · exact Nat.zero_le 1

/-- **The choice is forgotten.** No refresh after a click starts just the device that was clicked,
bonded as it still is: what the refresh hashes is a hash. -/
theorem not_startsOnly_of_click (φ : App) (position : Fin φ.list.length) (later : List Later)
    (bonded : Bonded)
    (hbonded : (φ.list.get position).address ∈ bonded.devices.map BluetoothDevice.address)
    (hsha : CollisionFree sha256 (sha sha256 (φ.list.get position).address ::
      bonded.devices.map BluetoothDevice.address)) :
    ¬ StartsOnly (φ.list.get position) bonded
      (pairedDeviceList sha256
        (later.foldl (Later.next sha256) (onItemClick sha256 φ position).1) bonded).2 := by
  have hfile : decode (later.foldl (Later.next sha256) (onItemClick sha256 φ position).1).file =
      sha sha256 (φ.list.get position).address := by
    rw [file_later, onItemClick, decode_encode]
  rw [startsOnly_iff hbonded (by rwa [hfile]), hfile]
  exact sha_ne_address _ _

/-! ### A phone with two bonded devices -/

def computer : BluetoothDevice := ⟨"AC:37:43:8E:C1:F4".toList, some "desktop".toList, rfl⟩

def headset : BluetoothDevice := ⟨"00:1A:7D:DA:71:13".toList, none, rfl⟩

def twoBonded : Bonded := ⟨[headset, computer], by decide⟩

/-- SHA-256 on the addresses of the two, and on the hash of the first. -/
def digest (bs : List UInt8) : Vector UInt8 32 :=
  let n :=
    if bs = encode computer.address then
      0x6189f648660c9fe3a71b0b58f8ddea45a7cb1ed9ed3d7d8a18f074f9eba917e8
    else if bs = encode headset.address then
      0x89d9cd2b655daedc7cabf7b5fcf1374cd0125443a066586fe43e252cc19508f6
    else 0xbfd63578bc3766ba20813d7ae87d732d7db78af20ff6dd2b1dfd80ab701dd384
  Vector.ofFn fun i => (n / 256 ^ (31 - i.val)).toUInt8

/-- After the first refresh. -/
def listed : App := (pairedDeviceList digest (onCreate none) twoBonded).1

theorem not_startsOnly_computer : ¬ StartsOnly (listed.list.get ⟨1, by decide⟩) twoBonded
    (pairedDeviceList digest
      ([Later.restart].foldl (Later.next digest) (onItemClick digest listed ⟨1, by decide⟩).1)
      twoBonded).2 :=
  not_startsOnly_of_click listed ⟨1, by decide⟩ [Later.restart] twoBonded (by decide)
    (by decide +kernel)

/-- The computer was chosen, and the next refresh starts nothing. -/
theorem computer_forgotten :
    CollisionFree digest [sha digest computer.address, headset.address, computer.address] ∧
      listed.list = [headset, computer] ∧
      ¬ StartsOnly computer twoBonded
        (pairedDeviceList digest (onItemClick digest listed ⟨1, by decide⟩).1 twoBonded).2 := by
  refine ⟨by decide +kernel, rfl, by decide +kernel⟩

end ProxyAuth.MainActivity
