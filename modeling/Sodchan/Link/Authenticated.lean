import Sodchan.Channel.Configured
import Sodchan.Link.Agreed
import Sodchan.Session.Identity
import Sodchan.Session.Vouched

/-! # Agreement on the client

Between two honest endpoints a server names no device but that of its client,
and a client that takes its session for authenticated was accepted by the host
of its server.
-/

namespace Sodchan

open ByteString

variable {Rng SS : Type} {E : Env Rng SS} {c c' : Ctx Rng SS} {N N' : Net Rng SS}

theorem Answered.before {d : Ctx Rng SS} (h : Reticent E (fun _ => False) c d)
    (hst : d.state = c.state) (hhs : d.hs = c.hs) (h' : Answered E d c') : Answered E c c' := by
  refine ⟨h'.words.before h.toWorded hst hhs, h'.devices.trans h.devices,
    h'.records.trans h.records, ?_⟩
  rw [← h.complete, ← h.role]
  exact h'.complete

/-- What a step does about the client: the endpoint says something on its own, or one record is
taken. -/
inductive Attests (E : Env Rng SS) (c c' : Ctx Rng SS) : Prop where
  | answered : Answered E c c' → Attests E c c'
  | record (ct plain : Bytes) (tag : UInt8) : c'.records = c.records ++ [(ct, plain, tag)] →
      Vouches E plain c c' → (tag = tagMessage → plain ≠ [] → c'.ended ∨ Minds c' plain) →
      Attests E c c'

theorem Vouches.before {plain : Bytes} {d : Ctx Rng SS} (hm : Wordless c d)
    (hst : d.state = c.state)
    (hhs : d.hs = c.hs) (hd : d.devices E = c.devices E) (hc : d.authComplete = c.authComplete)
    (h : Vouches E plain d c') : Vouches E plain c c' := by
  refine ⟨h.words.before hm hst hhs, ?_⟩
  cases h.about with
  | silent hd' hc' => exact .silent (hd'.trans hd) (hc'.trans hc)
  | named a hdec hd' hc' => exact .named a hdec (hd ▸ hd') (hc'.trans hc)
  | heard hr' ht hd' hc' => exact .heard (hm.role.symm.trans hr') ht (hd'.trans hd) hc'

theorem handleFrame_attests (hl : ¬ c.ended) (body : Bytes) :
    Attests E c (handleFrame E (c.log (.frame (rawFrame body))) body).1 := by
  have hlog : Reticent E (fun _ => False) c (c.log (.frame (rawFrame body))) := .log rfl rfl rfl
  have hst : (c.log (.frame (rawFrame body))).state = c.state := rfl
  have hhs : (c.log (.frame (rawFrame body))).hs = c.hs := rfl
  have hlive : ¬ (c.log (.frame (rawFrame body))).ended := hl
  generalize c.log (.frame (rawFrame body)) = d at hlog hst hhs hlive ⊢
  have hanswered : ∀ {c' : Ctx Rng SS}, Answered E d c' → Attests E c c' := fun h =>
    .answered (h.before hlog hst hhs)
  unfold handleFrame
  split
  · exact hanswered (Reticent.hello body).silent
  · rename_i hs
    exact hanswered (.header hs body)
  · obtain ⟨code, msg, he⟩ | ⟨st, plain, tag, -, -, -, he⟩ := handleEncryptedPdu_cases E d body
    · rw [he]
      exact hanswered (Reticent.failed code msg).silent
    · have hmute : Wordless c (d.afterPull st body plain tag) :=
        hlog.toWorded.trans (.logged (l := [.pulled body plain tag]) rfl rfl (by simp [Occ.sent?]))
      have hdevices : (d.afterPull st body plain tag).devices E = d.devices E :=
        filterMap_of_append (l := [.pulled body plain tag]) rfl (by simp [Occ.device?])
      have hpull : (d.afterPull st body plain tag).records = d.records ++ [(body, plain, tag)] :=
        congrArg Trace.records (trace_afterPull d st body plain tag)
      have hlive' : ¬ (d.afterPull st body plain tag).ended := hlive
      rw [he]
      refine .record body plain tag ?_ ?_ ?_
      · rw [(handlePlain_flow hlive' plain tag).records, hpull, hlog.records]
      · exact (handlePlain_vouches hlive' plain tag).before hmute hst hhs
          (hdevices.trans hlog.devices) hlog.complete
      · rintro rfl hne
        exact handlePlain_minds hne
  · exact hanswered (Reticent.failed _ _).silent

theorem processOne_attests : Attests E c (processOne E c).state := by
  obtain ⟨-, hs⟩ | ⟨-, -, -, hs⟩ | ⟨k, body, b, he, hc, -, hf⟩ := processOne_cases E c
  · rw [hs]
    exact .answered (Reticent.refl c).silent
  · rw [hs]
    exact .answered (Reticent.failed _ _).silent
  · have hh := handleFrame_attests (E := E) (not_or.mpr ⟨he, hc⟩) body
    obtain ⟨hf, hs⟩ | ⟨hf, hs⟩ := hf <;> rw [hf] at hh <;> rw [hs]
    · -- what is taken from the input is nothing to the client
      have hrest : Wordless b { b with inBuf := b.inBuf.drop k } := .same rfl rfl
      cases hh with
      | answered ha =>
        exact .answered ⟨ha.words.after hrest rfl id id, ha.devices, ha.records, ha.complete⟩
      | record ct plain tag hr hv hm =>
        refine .record ct plain tag hr ⟨hv.words.after hrest rfl id id, ?_⟩ fun ht hne => ?_
        · cases hv.about with
          | silent hd hc => exact .silent hd hc
          | named a hdec hd hc => exact .named a hdec hd hc
          | heard hr ht hd hc => exact .heard hr ht hd hc
        · obtain hm | hm := hm ht hne
          · exact Or.inl hm
          · exact Or.inr ⟨hm.device, hm.approval, hm.going⟩
    · exact hh

theorem Step.attests {lab : Label} (h : Step E lab c c') : Attests E c c' := by
  cases h with
  | call k hk => exact .answered (call_answered hk c)
  | intake data =>
    have hrest : Reticent E (fun _ => False) c { c with inBuf := c.inBuf ++ data } :=
      .same rfl rfl rfl
    exact .answered hrest.silent
  | again he | stop he =>
    have h := processOne_attests (E := E) (c := c)
    rwa [he] at h

/-- The device of an event was proved by a plaintext that was received, and it was named. -/
structure Reported (E : Env Rng SS) (received : List Bytes) (devices : List Mention) : Prop where
  named : ∀ ev, .named ev ∈ devices → ∃ plain ∈ received, ∃ d,
    Wire.authDeviceDecode plain (userMax + 1) (deviceIdMax + 1) = .ok d ∧
      ev = deviceEvent E d.clientIdPk (cstr d.username) (cstr d.deviceId)
  proved : ∀ ev, .proved ev ∈ devices → .named ev ∈ devices

/-- What an endpoint says of the client is vouched for: by its host or by what it has received. -/
structure Vouched (E : Env Rng SS) (c : Ctx Rng SS) : Prop where
  phrased : ∀ b ∈ c.sent, Phrased c.role b
  approved : c.role = .server → (c.approved ↔ c.authComplete)
  reported : Reported E c.received (c.devices E)
  heard : c.role = .client → c.authComplete → ∃ b ∈ c.received, b.headD 0 = pduAuthOk

theorem Reported.more {l l' : List Bytes} {m : List Mention} (h : Reported E l m) (hs : l ⊆ l') :
    Reported E l' m := by
  refine ⟨fun ev hev => ?_, h.proved⟩
  obtain ⟨plain, hp, he⟩ := h.named ev hev
  exact ⟨plain, hs hp, he⟩

theorem Reported.device {l : List Bytes} {m : List Mention} (h : Reported E l m) {plain : Bytes}
    (hp : plain ∈ l) {a : Wire.AuthDevice}
    (hd : Wire.authDeviceDecode plain (userMax + 1) (deviceIdMax + 1) = .ok a) :
    Reported E l (m ++ [.named (deviceEvent E a.clientIdPk (cstr a.username) (cstr a.deviceId)),
      .proved (deviceEvent E a.clientIdPk (cstr a.username) (cstr a.deviceId))]) := by
  refine ⟨fun ev hev => ?_, fun ev hev => ?_⟩
  · rcases List.mem_append.mp hev with hev | hev
    · exact h.named ev hev
    · rcases List.mem_pair.mp hev with he | he
      · exact ⟨plain, hp, a, hd, Mention.named.inj he⟩
      · cases he
  · rcases List.mem_append.mp hev with hev | hev
    · exact List.mem_append_left _ (h.proved ev hev)
    · rcases List.mem_pair.mp hev with he | he
      · cases he
      · rw [Mention.proved.inj he]
        exact List.mem_append_right _ List.mem_cons_self

theorem received_subset (h : c.hist <+: c'.hist) : c.received ⊆ c'.received :=
  ((h.filterMap Occ.pulled?).map _).subset

theorem Says.approved (h : Says c c') : (c'.approved ↔ c.approved) ∨
    c.role = .server ∧ c'.approved ∧ c'.authComplete := by
  have hrest : ∀ {P : Bytes → Prop}, Worded P c c' → (∀ b, P b → b.headD 0 ≠ pduAuthOk) →
      (c'.approved ↔ c.approved) := by
    rintro P ⟨-, l, hl, hP⟩ hne
    unfold Ctx.approved
    rw [hl]
    constructor
    · rintro ⟨b, hb, hhead⟩
      obtain hb | hb := List.mem_append.mp hb
      · exact ⟨b, hb, hhead⟩
      · exact absurd hhead (hne b (hP b hb))
    · rintro ⟨b, hb, hhead⟩
      exact ⟨b, List.mem_append_left _ hb, hhead⟩
  have hother : ∀ {r : Role} {t : UInt8}, t ≠ pduAuthOk → ∀ b, Typed r t b →
      b.headD 0 ≠ pduAuthOk := fun ht b hb he => ht (hb.head.symm.trans he)
  cases h with
  | nothing h => exact Or.inl (hrest h fun _ hb => hb.elim)
  | chat h => exact Or.inl (hrest h fun _ hb => hb.head_ne.2.1)
  | farewell h => exact Or.inl (hrest h (hother (by decide)))
  | refusal _ _ h => exact Or.inl (hrest h (hother (by decide)))
  | proof b hr _ hr' hs hb _ =>
    refine Or.inl (hrest (P := Typed .client pduAuthDevice) ⟨hr'.trans hr.symm, [b], hs, ?_⟩
      (hother (by decide)))
    rintro x hx
    exact List.mem_singleton.mp hx ▸ hb
  | approval b hr _ _ hs hb hc =>
    refine Or.inr ⟨hr, ⟨b, ?_, hb.head⟩, hc⟩
    rw [hs]
    exact List.mem_append_right _ List.mem_cons_self

namespace Vouched

/-- An endpoint that has heard of its authentication does not forget it. -/
theorem keep (h : Vouched E c) (hrole : c'.role = c.role) (hsub : c.received ⊆ c'.received)
    (hr : c'.role = .client) (hc : c.authComplete) : ∃ b ∈ c'.received, b.headD 0 = pduAuthOk := by
  obtain ⟨b, hb, he⟩ := h.heard (hrole.symm.trans hr) hc
  exact ⟨b, hsub hb, he⟩

theorem phrases (h : Vouched E c) (hw : Says c c') : ∀ b ∈ c'.sent, Phrased c'.role b := by
  intro b hb
  obtain ⟨l, hl, hP⟩ := hw.phrased
  rw [hl] at hb
  rw [hw.role]
  exact (List.mem_append.mp hb).elim (h.phrased b) (hP b)

/-- A server that has sent its AUTH_OK takes its session for authenticated, and the other way
round. -/
theorem settled (h : Vouched E c) (hw : Says c c')
    (hc : c'.authComplete = c.authComplete ∨ c.role = .server ∧ c'.authComplete ∧ c'.approved)
    (hr : c'.role = .server) : c'.approved ↔ c'.authComplete := by
  have hold := h.approved (hw.role.symm.trans hr)
  obtain hiff | ⟨-, happ, hdone⟩ := hw.approved
  · obtain hc | ⟨-, hdone, happ⟩ := hc
    · rw [hiff, hold, hc]
    · exact iff_of_true happ hdone
  · exact iff_of_true happ hdone

theorem vouches (h : Vouched E c) {plain : Bytes} (hv : Vouches E plain c c')
    (hh : c.hist <+: c'.hist) (hp : plain ∈ c'.received) : Vouched E c' := by
  have hrole := hv.words.role
  have hsub := received_subset hh
  refine ⟨h.phrases hv.words, fun hs => ?_, ?_, fun hs hx => ?_⟩
  · refine h.settled hv.words ?_ hs
    cases hv.about with
    | silent _ hc | named _ _ _ hc => exact Or.inl hc
    | heard hr => exact absurd (hs.symm.trans (hrole.trans hr)) (by rintro ⟨⟩)
  · cases hv.about with
    | silent hd | heard _ _ hd =>
      rw [hd]
      exact h.reported.more hsub
    | named a hdec hd =>
      rw [hd]
      exact (h.reported.more hsub).device hp hdec
  · cases hv.about with
    | silent _ hc | named _ _ _ hc => exact h.keep hrole hsub hs (hc ▸ hx)
    | heard _ ht => exact ⟨plain, hp, ht⟩

theorem attests (h : Vouched E c) (ha : Attests E c c') (hh : c.hist <+: c'.hist) :
    Vouched E c' := by
  cases ha with
  | answered ha =>
    have hsub := received_subset hh
    refine ⟨h.phrases ha.words, h.settled ha.words ha.complete, ?_, fun hr hx => ?_⟩
    · rw [ha.devices]
      exact h.reported.more hsub
    · obtain hc | ⟨hs, -⟩ := ha.complete
      · exact h.keep ha.words.role hsub hr (hc ▸ hx)
      · exact absurd (hr.symm.trans (ha.words.role.trans hs)) (by rintro ⟨⟩)
  | record ct plain tag hr hv =>
    refine h.vouches hv hh ?_
    rw [Ctx.received, hr, List.map_append]
    exact List.mem_append_right _ List.mem_cons_self

theorem fresh (hs : c.sent = []) (hd : c.devices E = []) (hc : c.authComplete = false) :
    Vouched E c := by
  refine ⟨fun b hb => ?_, fun _ => ?_, ?_, fun _ h => ?_⟩
  · rw [hs] at hb
    cases hb
  · rw [Ctx.approved, hs, hc]
    simp
  · rw [hd]
    exact ⟨by simp, by simp⟩
  · rw [hc] at h
    cases h

end Vouched

theorem Minds.mono {plain : Bytes} (h : Minds c plain) (hc : c.authComplete → c'.authComplete)
    (hh : c.hist <+: c'.hist) : Minds c' plain := by
  refine ⟨fun hd hnil => h.device hd ?_, fun ha => hc (h.approval ha), h.going⟩
  have hle := (authLog_mono hh).length_le
  rw [hnil] at hle
  exact List.length_eq_zero_iff.mp (Nat.le_zero.mp hle)

theorem Attests.complete (h : Attests E c c') (hc : c.authComplete) : c'.authComplete := by
  cases h with
  | answered ha =>
    obtain he | ⟨-, hc', -⟩ := ha.complete
    · exact he ▸ hc
    · exact hc'
  | record ct plain tag _ hv =>
    cases hv.about with
    | silent _ he | named _ _ _ he => exact he ▸ hc
    | heard _ _ _ hc' => exact hc'

theorem Step.live {lab : Label} (hlife : Lifecycle c) (h : Step E lab c c') (hl : ¬ c'.ended) :
    ¬ c.ended := by
  intro hended
  have hstop : processOne E c = .stop c := by
    obtain ⟨-, hs⟩ | ⟨h1, h2, -⟩ | ⟨_, _, _, h1, h2, -⟩ := processOne_cases E c
    · exact hs
    · exact (hended.elim h1 h2).elim
    · exact (hended.elim h1 h2).elim
  cases h with
  | call k hk =>
    refine hl ((call_forward hlife ?_).gone hended).2
    rintro rfl
    cases hk
  | intake => exact hl hended
  | again he =>
    rw [hstop] at he
    cases he
  | stop he =>
    rw [hstop] at he
    cases he
    exact hl hended

/-- A live endpoint has minded every record of the usual kind. -/
def Minded (c : Ctx Rng SS) : Prop :=
  ¬ c.ended → ∀ r ∈ c.records, r.2.2 = tagMessage → r.2.1 ≠ [] → Minds c r.2.1

theorem Minded.attests (h : Minded c) (ha : Attests E c c') (hlive : ¬ c'.ended → ¬ c.ended)
    (hh : c.hist <+: c'.hist) : Minded c' := by
  intro hl r hr htag hne
  have hold : r ∈ c.records → Minds c' r.2.1 := fun hr =>
    (h (hlive hl) r hr htag hne).mono ha.complete hh
  cases ha with
  | answered ha =>
    rw [ha.records] at hr
    exact hold hr
  | record ct plain tag hrec _ hm =>
    rw [hrec] at hr
    rcases List.mem_append.mp hr with hr | hr
    · exact hold hr
    · obtain rfl := List.mem_singleton.mp hr
      exact (hm htag hne).resolve_left hl

/-- What an endpoint keeps from its creation on. -/
structure Attested (E : Env Rng SS) (c : Ctx Rng SS) : Prop where
  lifecycle : Lifecycle c
  vouched : Vouched E c
  minded : Minded c
  phase : c.role = .server → AuthPhase E c
  identity : c.role = .client → ClientAuth E c

theorem Attested.of_steps (h : Attested E c) (hs : Steps E c c') : Attested E c' := by
  induction hs with
  | refl => exact h
  | tail _ hs ih =>
    obtain ⟨lab, hs⟩ := hs
    obtain ⟨quit, hadv⟩ := hs.advances
    obtain ⟨-, hh⟩ := hadv.role_hist
    exact ⟨hadv.lifecycle ih.lifecycle, ih.vouched.attests hs.attests hh,
      ih.minded.attests hs.attests (hs.live ih.lifecycle) hh, hadv.authPhase ih.phase,
      (hadv.clientAuth ⟨ih.lifecycle, ih.identity⟩).2⟩

theorem Attested.created {role : Role} {cfg : Option Config} {rng : Rng} {memOk : Bool}
    (h : create E role cfg rng memOk = some c) : Attested E c := by
  obtain ⟨pk, sk, rng', -, rfl⟩ := create_eq_some h
  refine ⟨.started rfl rfl, ?_, fun _ r hr => ?_, fun hr => ?_, fun _ => .started rfl rfl rfl⟩
  · unfold Ctx.started
    split <;> exact .fresh rfl rfl rfl
  · unfold Ctx.started at hr
    split at hr <;> cases hr
  · rw [started_role] at hr
    exact authPhase_started hr rfl rfl rfl rfl

theorem Net.Created.attested {guard : Net Rng SS → Act → Prop} (h : N.Created E)
    (hrun : Net.Run E guard N N') (r : Role) : Attested E (N'.ends r) ∧ (N'.ends r).role = r := by
  obtain ⟨cfg, rng, memOk, hc⟩ := h.ends r
  have hrole : (N'.ends r).role = (N.ends r).role := congrArg Settings.role (hrun.settings r)
  exact ⟨(Attested.created hc).of_steps (hrun.steps r), hrole.trans (h.start r).1⟩

theorem Steps.follows {list user device : Bytes} (hl : 0 ∉ list) (hs : Steps E c c')
    (h : Follows list user device c) : Follows list user device c' := by
  induction hs with
  | refl => exact h
  | tail _ hs ih =>
    obtain ⟨lab, hs⟩ := hs
    exact ih.step hl hs

/-- The username and the device id as a client proves them. -/
def Ctx.ownUsername (c : Ctx Rng SS) : Bytes := (c.clientUsername.getD []).take userMax

def Ctx.ownDeviceId (c : Ctx Rng SS) : Bytes := (c.clientDeviceId.getD []).take deviceIdMax

/-- The event that names the device of a client. -/
def Ctx.ownDevice (E : Env Rng SS) (c : Ctx Rng SS) : Event :=
  deviceEvent E c.clientIdPk c.ownUsername c.ownDeviceId

/-- What a client of configured strings sends as AUTH_DEVICE is the proof of its device. -/
theorem Follows.device {list user device b : Bytes} {a : Wire.AuthDevice}
    (h : Follows list user device c) (hb : b ∈ c.sent)
    (hd : Wire.authDeviceDecode b (userMax + 1) (deviceIdMax + 1) = .ok a) :
    a.clientIdPk = c.clientIdPk ∧ a.username = user.take userMax ∧
      a.deviceId = device.take deviceIdMax := by
  have hhead : b.headD 0 = pduAuthDevice := by
    have hdec : decode .authDevice (userMax + 1) (deviceIdMax + 1) b = .ok
        (.authDevice a.clientIdPk a.clientSig a.username a.deviceId, a.usernameLen,
          a.deviceIdLen) := by
      rw [decode, hd]
      rfl
    have ht := decode_type hdec (by decide)
    cases b with
    | nil => cases ht
    | cons t rest => exact Option.some.inj ht
  have hentry : Entry.proof b ∈ c.entries := by
    obtain ⟨o, ho, he⟩ := List.mem_filterMap.mp hb
    refine List.mem_filterMap.mpr ⟨o, ho, ?_⟩
    cases o with
    | sent b' =>
      cases he
      exact if_pos hhead
    | _ => cases he
  obtain ⟨sig, henc⟩ := h.proofs _ hentry b rfl
  have hdec : Wire.authDeviceDecode b (userMax + 1) (deviceIdMax + 1) = _ :=
    Wire.authDeviceDecode_encode henc
  rw [hd] at hdec
  obtain rfl := Except.ok.inj hdec
  have hcut : ∀ (n : ℕ) (l : Bytes), (l.take n).length < n + 1 := fun n l =>
    Nat.lt_succ_of_le (List.length_take_le n l)
  exact ⟨rfl, Wire.copyText_of_lt (hcut _ _), Wire.copyText_of_lt (hcut _ _)⟩

theorem cfgDup_text {used : ℕ} {s : Option CString} {b : Bytes} (h : (cfgDup used s).2 = some b) :
    0 ∉ b := by
  unfold cfgDup at h
  split at h
  · cases h
  · rename_i s
    split at h
    · cases h
    · cases h
      exact s.2

theorem create_proofs {role : Role} {cfg : Option Config} {rng : Rng} {memOk : Bool}
    (h : create E role cfg rng memOk = some c) : 0 ∉ c.allowlist ∧ 0 ∉ c.ownUsername ∧
      0 ∉ c.ownDeviceId ∧ Follows c.allowlist (c.clientUsername.getD [])
        (c.clientDeviceId.getD []) c := by
  have hsome : create E role (some (cfg.getD {})) rng memOk = some c := h
  obtain ⟨ht, he, -⟩ := create_table h
  obtain ⟨-, -, hu, hd⟩ := create_strings hsome
  have hzero : ∀ (used : ℕ) (s : Option CString) (n : ℕ),
      0 ∉ ((cfgDup used s).2.getD []).take n := by
    intro used s n hm
    have hm := List.mem_of_mem_take hm
    cases hb : (cfgDup used s).2 with
    | none =>
      rw [hb] at hm
      cases hm
    | some b =>
      rw [hb] at hm
      exact cfgDup_text hb hm
  refine ⟨create_allowlist_text hsome, ?_, ?_, .start ht he rfl rfl rfl⟩
  · rw [Ctx.ownUsername, hu]
    exact hzero _ _ _
  · rw [Ctx.ownDeviceId, hd]
    exact hzero _ _ _

/-- What is said of the client at both endpoints. -/
structure Net.Authentic (E : Env Rng SS) (N : Net Rng SS) : Prop where
  named : ∀ ev ∈ (N.ends .server).emitted, ev.isDevice → ev = (N.ends .client).ownDevice E
  proven : (N.ends .server).authComplete →
    (N.ends .server).peerIdPk = (N.ends .client).clientIdPk ∧
      (N.ends .client).ownDevice E ∈ (N.ends .server).emitted
  accepted : (N.ends .client).authComplete → (N.ends .server).authComplete ∧
    .authDecided true ∈ (N.ends .server).hist ∧ .authDecided false ∉ (N.ends .server).hist

theorem mem_named {ev : Event} : .named ev ∈ c.devices E ↔ ev ∈ c.emitted ∧ ev.isDevice := by
  constructor
  · intro h
    obtain ⟨o, ho, he⟩ := List.mem_filterMap.mp h
    cases o with
    | queued ev' | dropped ev' =>
      simp only [Occ.device?, Option.ite_none_right_eq_some, Option.some.injEq,
        Mention.named.injEq] at he
      obtain ⟨hev, rfl⟩ := he
      exact ⟨List.mem_filterMap.mpr ⟨_, ho, rfl⟩, hev⟩
    | _ => cases he
  · rintro ⟨h, hev⟩
    obtain ⟨o, ho, he⟩ := List.mem_filterMap.mp h
    cases o with
    | queued ev' | dropped ev' =>
      cases he
      exact List.mem_filterMap.mpr ⟨_, ho, if_pos hev⟩
    | _ => cases he

/-- A server that takes its session for authenticated has taken an AUTH_DEVICE, which its host
has accepted. -/
theorem AuthPhase.complete (h : AuthPhase E c) (hc : c.authComplete) :
    (∃ sig user device, .authDevice c.peerIdPk sig user device ∈ c.hist) ∧
      .authDecided true ∈ c.hist ∧ .authDecided false ∉ c.hist := by
  have hmem : ∀ {o : Occ}, o ∈ c.authLog ↔ o ∈ c.hist ∧ o.isAuth := List.mem_filter
  cases h with
  | idle _ _ _ h | forged _ h | awaiting _ _ _ _ _ _ _ h | unsent _ _ _ _ _ _ _ h
  | rejected _ _ _ _ _ _ _ _ h =>
    rw [h] at hc
    cases hc
  | accepted pk sig user device k hk hlog _ _ _ hp =>
    refine ⟨⟨sig, user, device, ?_⟩, ?_, fun hf => ?_⟩
    · rw [hp.1]
      refine (hmem.mp ?_).1
      rw [hlog]
      exact List.mem_cons_self
    · refine (hmem.mp ?_).1
      rw [hlog]
      exact List.mem_cons_of_mem _ List.mem_cons_self
    · have hf := hmem.mpr ⟨hf, rfl⟩
      rw [hlog] at hf
      simp at hf

/-- Between two honest endpoints a server names no device but that of its client, a session that a
server has authenticated is that of this device, and a client takes its session for authenticated
only after the host of its server has accepted. -/
theorem authentication_agrees (hE : Ideal E) (h : N.Created E)
    (hrun : Net.Run E (fun _ _ => True) N N') : N'.Authentic E := by
  have hlinked := (Linked.created h).run hE hrun
  have hvouch := h.attested hrun
  have hc := (hvouch .client).1.vouched
  have hd := (hvouch .server).1.vouched
  have hphase := (hvouch .server).1.phase (hvouch .server).2
  -- every plaintext that the server has received is one that the client has sent
  have hown : ∀ ev, .named ev ∈ (N'.ends .server).devices E →
      ev = (N'.ends .client).ownDevice E := by
    intro ev hev
    obtain ⟨plain, hp, a, hdec, rfl⟩ := hd.reported.named ev hev
    have hsent : plain ∈ (N'.ends .client).sent := (hlinked.lined .server).received.subset hp
    obtain ⟨cfg, rng, memOk, hcreate⟩ := h.ends .client
    obtain ⟨hlist, huser, hdevice, hfollows⟩ := create_proofs hcreate
    have hf := (hrun.steps .client).follows hlist hfollows
    obtain ⟨hpk, hu, hdev⟩ := hf.device hsent hdec
    have hset := hrun.settings .client
    have huser' : (N'.ends .client).ownUsername = (N.ends .client).ownUsername :=
      congrArg (fun s : Settings => (s.clientUsername.getD []).take userMax) hset
    have hdevice' : (N'.ends .client).ownDeviceId = (N.ends .client).ownDeviceId :=
      congrArg (fun s : Settings => (s.clientDeviceId.getD []).take deviceIdMax) hset
    rw [Ctx.ownDevice, huser', hdevice', hpk, hu, hdev]
    refine deviceEvent_inj.mpr ⟨rfl, ?_, ?_⟩
    · exact cstr_of_zero_not_mem huser
    · exact cstr_of_zero_not_mem hdevice
  refine ⟨fun ev hev hdev => hown ev (mem_named.mpr ⟨hev, hdev⟩), fun hcomplete => ?_,
    fun hcomplete => ?_⟩
  · obtain ⟨⟨sig, user, device, hocc⟩, -⟩ := hphase.complete hcomplete
    have hnamed := hd.reported.proved _ (List.mem_filterMap.mpr ⟨_, hocc, rfl⟩)
    have he := hown _ hnamed
    refine ⟨(deviceEvent_inj.mp he).1, ?_⟩
    rw [← he]
    exact (mem_named.mp hnamed).1
  · obtain ⟨b, hb, hhead⟩ := hc.heard (hvouch .client).2 hcomplete
    have hsent : b ∈ (N'.ends .server).sent := (hlinked.lined .client).received.subset hb
    have hdone := (hd.approved (hvouch .server).2).mp ⟨b, hsent, hhead⟩
    exact ⟨hdone, (hphase.complete hdone).2⟩

theorem plainOpened_complete : (plainOpened.ends .client).authComplete ∧
    (plainOpened.ends .server).authComplete := by
  decide +kernel

theorem authentication_agrees_plain :
    (plainOpened.ends .client).ownDevice plainEnv ∈ (plainOpened.ends .server).emitted ∧
      .authDecided true ∈ (plainOpened.ends .server).hist := by
  obtain ⟨hc, hd⟩ := plainOpened_complete
  have h := authentication_agrees ideal_plainEnv created_plainNet run_plainOpened
  exact ⟨(h.proven hd).2, (h.accepted hc).2.1⟩

end Sodchan
