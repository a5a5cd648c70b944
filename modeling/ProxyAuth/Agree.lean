import ProxyAuth.Deauth

/-!
PAM and the de-authentication server answer the same question.

`bluetooth_login` looks for the first connected device that is trusted; `is_trusted_client`
scans both lists for one address. Both come down to membership in the two lists.
-/

namespace ProxyAuth.Agree

open ProxyAuth.Control ProxyAuth.CString ProxyAuth.Stat ProxyAuth.Sec ProxyAuth.BtMisc
open ProxyAuth.BtPair ProxyAuth.FileName ProxyAuth.BtTrust ProxyAuth.Login ProxyAuth.Deauth

/-- The two processes see the same: the reply, the limits, and the directory and the file of the
user. Their memory is their own. -/
structure SameState (dir user : Option Str) (w w' : World) : Prop where
  bus : w.bus = w'.bus
  limits : w.limits = w'.limits
  lstatDir : ∀ d ∈ dir, w.files.lstatDir d = w'.files.lstatDir d
  dirSeen : ∀ d ∈ dir, Lstat.Seen (w.files.lstatDir d)
  lstatFile : ∀ d ∈ dir, ∀ u ∈ user, w.files.lstatFile (trustedPath w.limits d u) =
    w'.files.lstatFile (trustedPath w.limits d u)
  fileSeen : ∀ d ∈ dir, ∀ u ∈ user, Lstat.Seen (w.files.lstatFile (trustedPath w.limits d u))
  fopen : ∀ d ∈ dir, ∀ u ∈ user, w.files.fopen (trustedPath w.limits d u) =
    w'.files.fopen (trustedPath w.limits d u)

variable {w w' : World} {dir user : Option Str} {d : Str}

lemma SameState.findTrustedFile (h : SameState dir user w w') :
    findTrustedFile w.limits w.stack w.files dir user =
      findTrustedFile w'.limits w'.stack w'.files dir user := by
  rcases dir with _ | dir <;> rcases user with _ | user
  · rfl
  · rfl
  · rfl
  have hdir : checkConfig (w.files.lstatDir dir) w.files.dirStale 1 =
      checkConfig (w'.files.lstatDir dir) w'.files.dirStale 1 := by
    rw [← h.lstatDir dir rfl]
    exact checkConfig_of_seen (h.dirSeen dir rfl) _ _ 1
  have hfile : checkConfig (w.files.lstatFile (trustedPath w.limits dir user))
      w.files.fileStale 0 = checkConfig (w'.files.lstatFile (trustedPath w.limits dir user))
      w'.files.fileStale 0 := by
    rw [← h.lstatFile dir rfl user rfl]
    exact checkConfig_of_seen (h.fileSeen dir rfl user rfl) _ _ 0
  rw [findTrustedFile_eq, findTrustedFile_eq, hdir, hfile, h.fopen dir rfl user rfl, h.limits]

lemma SameState.trusted_iff (h : SameState dir user w w') (a : Str) :
    Trusted w dir user a ↔ Trusted w' dir user a := by
  have hpaired : pairedList w = pairedList w' := by simp only [pairedList, h.bus]
  have htrusted : trustedList w dir user = trustedList w' dir user := by
    simp only [trustedList, h.findTrustedFile, getNumLines_eq]
  rw [Trusted, Trusted, hpaired, htrusted]

/-- The login succeeds when some address is in both lists, and hands on one of these. -/
lemma bluetoothLogin_trusted (dir user : Option Str) (h : Steady w) (hdet : w.detectedMem = true) :
    ∃ login, bluetoothLogin w dir user = .ok login ∧
      (login.status = true ↔ ∃ a, Trusted w dir user a) ∧
      (login.status = true → ∃ d, Trusted w dir user d ∧
        login.detected = some (d.take btMacLen)) := by
  rw [bluetoothLogin_eq h.mem h.unchanged h.few, hdet]
  rcases hfind : (pairedList w).find? (· ∈ trustedList w dir user) with _ | d
  · refine ⟨_, rfl, ⟨fun hs => by simp at hs, ?_⟩, fun hs => by simp at hs⟩
    rintro ⟨a, hpaired, htrusted⟩
    exact absurd htrusted (by simpa using List.find?_eq_none.mp hfind a hpaired)
  · have hd : Trusted w dir user d :=
      ⟨List.mem_of_find?_eq_some hfind, by simpa using List.find?_some hfind⟩
    exact ⟨_, rfl, ⟨fun _ => ⟨d, hd⟩, fun _ => rfl⟩, fun _ => ⟨d, hd, rfl⟩⟩

/-- A connected device is named by a Bluetooth address. -/
lemma isBtAddr_of_trusted (h : Steady w) (hmac : MacAddresses w) (hd : Trusted w dir user d) :
    IsBtAddr d.bytes := by
  obtain ⟨objects, hbus⟩ := h.reply
  have hin := hd.1
  rw [pairedList_of_reply hmac hbus] at hin
  obtain ⟨e, he, hq⟩ := mem_addresses.mp hin
  exact hmac objects hbus e he d hq

/-- A server started with a trusted address does not lock on the way to its loop. -/
lemma boot_unlocked {b : Boot} (harg : checkArg b.cmd = true)
    (htrust : isTrustedClient b.view b.cmd.btAddr (some trustedDirPath) = .ok true) :
    ∀ e ∈ (boot b).events, e = .listening := by
  intro e he
  unfold boot at he
  rw [harg, htrust] at he
  simpa [lockUnless, Act.mem_bind_events, setLockListener_events] using he

/-- **The two programs agree.** With memory and an answer from BlueZ, PAM lets the user in
exactly when the server would accept some address; the device PAM hands over passes both
checks of the server, so that a server started with it in the same state of things does not
lock the session. -/
theorem login_agrees (w w' : World) (dir user : Option Str) (stale : ℤ) (h : Steady w)
    (h' : Steady w') (hsame : SameState dir user w w') (hdet : w.detectedMem = true)
    (hmac : MacAddresses w) :
    ∃ login, bluetoothLogin w dir user = .ok login ∧
      (login.status = true ↔ ∃ a, isTrustedClient ⟨w', user, stale⟩ (some a) dir = .ok true) ∧
      (login.status = true → ∃ d, login.detected = some d ∧
        (∀ prog, checkArg ⟨prog, [d]⟩ = true) ∧
        isTrustedClient ⟨w', user, stale⟩ (some d) dir = .ok true ∧
        (dir = some trustedDirPath → ∀ prog server listener,
          .locked ∉ (boot ⟨⟨prog, [d]⟩, ⟨w', user, stale⟩, server, listener⟩).events)) := by
  have hclient : ∀ a, isTrustedClient ⟨w', user, stale⟩ (some a) dir = .ok true ↔
      Trusted w dir user a := fun a => by
    rw [isTrustedClient_eq (v := ⟨w', user, stale⟩) h' dir a, hsame.trusted_iff]
    simp
  obtain ⟨login, hlogin, hiff, hdetected⟩ := bluetoothLogin_trusted dir user h hdet
  refine ⟨login, hlogin, by simpa only [hclient] using hiff, fun hstatus => ?_⟩
  obtain ⟨d, hd, hdev⟩ := hdetected hstatus
  have haddr := isBtAddr_of_trusted h hmac hd
  have harg : ∀ prog, checkArg ⟨prog, [d]⟩ = true := fun _ => verifyBtAddr_of_isBtAddr haddr
  rw [Str.take_of_len_le haddr.1.le] at hdev
  refine ⟨d, hdev, harg, (hclient d).mpr hd, ?_⟩
  rintro rfl prog server listener hmem
  have := boot_unlocked (b := ⟨⟨prog, [d]⟩, ⟨w', user, stale⟩, server, listener⟩) (harg prog)
    ((hclient d).mpr hd) _ hmem
  cases this

/-- The world of the server, whose memory holds other leftovers. -/
def serverWorld : World :=
  { phoneWorld with
    stack := fun _ => 255
    files := { phoneWorld.files with fileStale := ⟨0#32, 1000⟩ } }

theorem login_agrees_phone :
    ∃ login, bluetoothLogin phoneWorld (some trustedDirPath) (some (lit "zaku")) = .ok login ∧
      (login.status = true ↔ ∃ a, isTrustedClient ⟨serverWorld, some (lit "zaku"), 7⟩ (some a)
        (some trustedDirPath) = .ok true) ∧
      (login.status = true → ∃ d, login.detected = some d ∧
        (∀ prog, checkArg ⟨prog, [d]⟩ = true) ∧
        isTrustedClient ⟨serverWorld, some (lit "zaku"), 7⟩ (some d) (some trustedDirPath) =
          .ok true ∧
        (some trustedDirPath = some trustedDirPath → ∀ prog server listener,
          .locked ∉ (boot ⟨⟨prog, [d]⟩, ⟨serverWorld, some (lit "zaku"), 7⟩, server,
            listener⟩).events)) :=
  login_agrees phoneWorld serverWorld (some trustedDirPath) (some (lit "zaku")) 7
    phoneWorld_steady
    ⟨⟨rfl, fun _ => rfl, rfl, fun _ => rfl⟩, fun _ _ h => by cases h; rfl,
      fun _ h => by cases h; decide, _, rfl⟩
    ⟨rfl, rfl, fun _ _ => rfl, (fun _ _ _ h => nomatch h), fun _ _ _ _ => rfl,
      (fun _ _ _ _ _ h => nomatch h), fun _ _ _ _ => rfl⟩ rfl phoneWorld_mac

end ProxyAuth.Agree
