import Sodchan.Model.Format
import Sodchan.Model.History
import Sodchan.Model.Plain
import Sodchan.Session.Effects

/-! # The device that is reported

The signature of an AUTH_DEVICE covers the username and the device identifier
by their lengths; the event hands them to the host as C strings. The two agree
exactly when neither holds a zero byte.
-/

namespace Sodchan

open ByteString

variable {Rng SS : Type} {E : Env Rng SS} {c c' : Ctx Rng SS} {plain plain' : Bytes}
  {pk pk' : Key} {user user' device device' : Bytes} {ev : Event}

/-- A PDU is the AUTH_DEVICE of a key for a username and a device identifier, and its signature
verifies over the T_auth of these in the session of `c`. -/
def SignedDevice (E : Env Rng SS) (c : Ctx Rng SS) (plain : Bytes) (pk : Key)
    (user device : Bytes) : Prop :=
  ∃ sig tAuth, Wire.authDeviceEncode pk sig user device 512 = .ok plain ∧
    Wire.buildTAuth c.tHello pk user device 512 = .ok tAuth ∧ E.signVerifyDetached sig tAuth pk

/-- The event that names a key, a username and a device identifier to the host. -/
def deviceEvent (E : Env Rng SS) (pk : Key) (user device : Bytes) : Event :=
  .authDevice pk user device (pubkeyFingerprintSha256 E pk fpSha256Max) true

/-- A PDU is accepted as AUTH_DEVICE and reported with an event. -/
def Reports (E : Env Rng SS) (c : Ctx Rng SS) (plain : Bytes) (ev : Event) : Prop :=
  (handleAuthDevicePdu E c plain).2 = true ∧
    (handleAuthDevicePdu E c plain).1.emitted = c.emitted ++ [ev]

theorem Reports.unique {ev' : Event} (h : Reports E c plain ev) (h' : Reports E c plain ev') :
    ev = ev' := by
  have he := h.2.symm.trans h'.2
  exact List.singleton_inj.mp (List.append_cancel_left he)

theorem takeAuthDevice_emitted (E : Env Rng SS) (c : Ctx Rng SS) (d : Wire.AuthDevice)
    (user device : Bytes) :
    (takeAuthDevice E c d user device).emitted =
      c.emitted ++ [deviceEvent E d.clientIdPk (cstr d.username) (cstr d.deviceId)] := by
  unfold takeAuthDevice
  change ((emit _ _).hist ++ [_]).filterMap _ = _
  rw [List.filterMap_append]
  exact (List.append_nil _).trans (emit_emitted _ _)

theorem SignedDevice.decode (h : SignedDevice E c plain pk user device) :
    ∃ sig, Wire.authDeviceDecode plain (userMax + 1) (deviceIdMax + 1) =
      .ok ⟨pk, sig, user, user.length, device, device.length⟩ := by
  obtain ⟨sig, tAuth, he, hb, -⟩ := h
  have hlen : user.length ≤ userMax ∧ device.length ≤ deviceIdMax := by
    unfold Wire.authDeviceEncode at he
    split_ifs at he with hmax
    rw [not_or, not_lt, not_lt] at hmax
    exact hmax
  have hd : Wire.authDeviceDecode plain (userMax + 1) (deviceIdMax + 1) = _ :=
    Wire.authDeviceDecode_encode he
  rw [Wire.copyText_of_lt (Nat.lt_succ_of_le hlen.1),
    Wire.copyText_of_lt (Nat.lt_succ_of_le hlen.2)] at hd
  exact ⟨sig, hd⟩

/-- What was signed is determined by the PDU. -/
theorem SignedDevice.unique (h : SignedDevice E c plain pk user device)
    (h' : SignedDevice E c' plain pk' user' device') :
    pk = pk' ∧ user = user' ∧ device = device' := by
  obtain ⟨sig, hd⟩ := h.decode
  obtain ⟨sig', hd'⟩ := h'.decode
  rw [hd] at hd'
  cases hd'
  exact ⟨rfl, rfl, rfl⟩

/-- An accepted AUTH_DEVICE was signed, and is reported with its texts up to a zero byte. -/
theorem handleAuthDevicePdu_reports (h : (handleAuthDevicePdu E c plain).2 = true) :
    ∃ pk user device, SignedDevice E c plain pk user device ∧
      Reports E c plain (deviceEvent E pk (cstr user) (cstr device)) := by
  have he := handleAuthDevicePdu_effect E c plain
  unfold Reports
  generalize handleAuthDevicePdu E c plain = r at he h ⊢
  cases he with
  | refused code msg => cases h
  | forged msg msg' => cases h
  | accepted d user device hd hv htext =>
    obtain ⟨rfl, rfl⟩ := htext
    obtain ⟨hu, hdev, hlen, hul, hdl⟩ := Wire.authDeviceDecode_lengths hd
    have hu' := hul (Nat.lt_succ_of_le hu)
    have hd' := hdl (Nat.lt_succ_of_le hdev)
    have henc : Wire.authDeviceEncode d.clientIdPk d.clientSig d.username d.deviceId 512 =
        .ok plain := by
      refine Wire.authDeviceEncode_decode hd (Nat.lt_succ_of_le hu) (Nat.lt_succ_of_le hdev) ?_
      unfold userMax at hu
      unfold deviceIdMax at hdev
      omega
    obtain ⟨tAuth, hb, hsig⟩ := hv.verified
    have hut : d.username.take d.usernameLen = d.username := by rw [← hu', List.take_length]
    have hdt : d.deviceId.take d.deviceIdLen = d.deviceId := by rw [← hd', List.take_length]
    rw [hut, hdt] at hb
    exact ⟨_, d.username, d.deviceId, ⟨_, tAuth, henc, hb, hsig⟩, rfl,
      takeAuthDevice_emitted E c d _ _⟩

theorem cstr_eq_self {b : Bytes} : cstr b = b ↔ 0 ∉ b :=
  ⟨fun h => h ▸ zero_not_mem_cstr b, cstr_of_zero_not_mem⟩

theorem deviceEvent_inj :
    deviceEvent E pk user device = deviceEvent E pk' user' device' ↔
      pk = pk' ∧ user = user' ∧ device = device' := by
  constructor
  · intro h
    unfold deviceEvent at h
    injection h with hp hu hd
    exact ⟨hp, hu, hd⟩
  · rintro ⟨rfl, rfl, rfl⟩
    rfl

/-- The event of an accepted AUTH_DEVICE carries the username and the device identifier that were
signed if and only if these hold no zero byte, and events of such PDUs tell apart what was
signed. -/
theorem device_reported_iff (h : (handleAuthDevicePdu E c plain).2 = true) :
    ∃ pk user device, SignedDevice E c plain pk user device ∧
      (Reports E c plain (deviceEvent E pk user device) ↔ 0 ∉ user ∧ 0 ∉ device) ∧
      ∀ {plain' pk' user' device' ev}, SignedDevice E c plain' pk' user' device' →
        0 ∉ user → 0 ∉ device → 0 ∉ user' → 0 ∉ device' →
        Reports E c plain ev → Reports E c plain' ev →
        pk = pk' ∧ user = user' ∧ device = device' := by
  obtain ⟨pk, user, device, hs, hr⟩ := handleAuthDevicePdu_reports h
  refine ⟨pk, user, device, hs, ?_, ?_⟩
  · constructor
    · intro hr'
      obtain ⟨-, hu, hd⟩ := deviceEvent_inj.mp (hr.unique hr')
      exact ⟨cstr_eq_self.mp hu, cstr_eq_self.mp hd⟩
    · rintro ⟨hu, hd⟩
      rwa [cstr_of_zero_not_mem hu, cstr_of_zero_not_mem hd] at hr
  · intro plain' pk' user' device' ev hs' hu hd hu' hd' hrep hrep'
    obtain ⟨pk₁, user₁, device₁, hs₁, hr₁⟩ := handleAuthDevicePdu_reports hrep'.1
    obtain ⟨rfl, rfl, rfl⟩ := hs'.unique hs₁
    have he : deviceEvent E pk (cstr user) (cstr device) =
        deviceEvent E pk' (cstr user') (cstr device') :=
      (hr.unique hrep).trans (hr₁.unique hrep').symm
    rw [cstr_of_zero_not_mem hu, cstr_of_zero_not_mem hd, cstr_of_zero_not_mem hu',
      cstr_of_zero_not_mem hd'] at he
    exact deviceEvent_inj.mp he

/-- An AUTH_DEVICE for a username of three bytes, the second of them zero. -/
def plainZeroDevice (b : UInt8) : Bytes :=
  [pduAuthDevice] ++ (plainKey 6).val ++ (BytesN.zero 64).val ++ [3, 97, 0, b, 0]

/-- An AUTH_DEVICE for the username ab and the device id c. -/
def plainNamedDevice : Bytes :=
  [pduAuthDevice] ++ (plainKey 6).val ++ (BytesN.zero 64).val ++ [2, 97, 98, 1, 99]

theorem device_reported_plain :
    SignedDevice plainEnv plainServerAuth plainNamedDevice (plainKey 6) [97, 98] [99] ∧
    (Reports plainEnv plainServerAuth plainNamedDevice
        (deviceEvent plainEnv (plainKey 6) [97, 98] [99]) ↔
      0 ∉ ([97, 98] : Bytes) ∧ 0 ∉ ([99] : Bytes)) := by
  have hs : SignedDevice plainEnv plainServerAuth plainNamedDevice (plainKey 6) [97, 98] [99] :=
    ⟨BytesN.zero 64, _, rfl, rfl, rfl⟩
  have h : (handleAuthDevicePdu plainEnv plainServerAuth plainNamedDevice).2 = true := by
    decide +kernel
  obtain ⟨pk, user, device, hs', hiff, -⟩ := device_reported_iff h
  obtain ⟨rfl, rfl, rfl⟩ := hs'.unique hs
  exact ⟨hs, hiff⟩

theorem plainZeroDevice_signed (b : UInt8) :
    SignedDevice plainEnv plainServerAuth (plainZeroDevice b) (plainKey 6) [97, 0, b] [] :=
  ⟨BytesN.zero 64, _, rfl, rfl, rfl⟩

/-- Two usernames that differ behind a zero byte give the host one event. -/
theorem device_misreported_plain :
    Reachable plainEnv plainServerAuth ∧
    SignedDevice plainEnv plainServerAuth (plainZeroDevice 98) (plainKey 6) [97, 0, 98] [] ∧
    SignedDevice plainEnv plainServerAuth (plainZeroDevice 99) (plainKey 6) [97, 0, 99] [] ∧
    Reports plainEnv plainServerAuth (plainZeroDevice 98)
      (deviceEvent plainEnv (plainKey 6) [97] []) ∧
    Reports plainEnv plainServerAuth (plainZeroDevice 99)
      (deviceEvent plainEnv (plainKey 6) [97] []) := by
  have hrep : ∀ b, (handleAuthDevicePdu plainEnv plainServerAuth (plainZeroDevice b)).2 = true →
      Reports plainEnv plainServerAuth (plainZeroDevice b)
        (deviceEvent plainEnv (plainKey 6) [97] []) := by
    intro b hb
    obtain ⟨pk, user, device, hs, hr⟩ := handleAuthDevicePdu_reports hb
    obtain ⟨rfl, rfl, rfl⟩ := hs.unique (plainZeroDevice_signed b)
    exact hr
  exact ⟨reachable_play create_plainServer _, plainZeroDevice_signed 98, plainZeroDevice_signed 99,
    hrep 98 (by decide +kernel), hrep 99 (by decide +kernel)⟩

end Sodchan
