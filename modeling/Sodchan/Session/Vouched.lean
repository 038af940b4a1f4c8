import Sodchan.Channel.Conduct
import Sodchan.Session.Auth
import Sodchan.Session.Clearance
import Sodchan.Session.Device
import Sodchan.Session.Progress
import Sodchan.Session.Wording

/-! # Who vouches for the client

A client takes its session for authenticated only after an AUTH_OK has arrived,
a server sends an AUTH_OK only once its host has accepted the device, and it
names a device to its host only after an AUTH_DEVICE of that device has arrived.
-/

namespace Sodchan

open ByteString

variable {Rng SS : Type} {E : Env Rng SS} {c c' c'' d : Ctx Rng SS} {P : Bytes → Prop}

def Event.isDevice : Event → Bool
  | .authDevice .. => true
  | _ => false

/-- A device is named to the host, or its proof is accepted. -/
inductive Mention where
  | named (ev : Event)
  | proved (ev : Event)

def Occ.device? (E : Env Rng SS) : Occ → Option Mention
  | .authDevice pk _ user device => some (.proved (deviceEvent E pk (cstr user) (cstr device)))
  | .queued ev | .dropped ev => if ev.isDevice then some (.named ev) else none
  | _ => none

namespace Ctx

def approved (c : Ctx Rng SS) : Prop := ∃ b ∈ c.sent, b.headD 0 = pduAuthOk

def devices (E : Env Rng SS) (c : Ctx Rng SS) : List Mention := c.hist.filterMap (Occ.device? E)

end Ctx

theorem Moves.filterMap_eq {p : Powers} {α : Type} {f : Occ → Option α}
    (hf : ∀ o, o.isSession = false → o.isInput = false → f o = none) (h : Moves E p c c') :
    c'.hist.filterMap f = c.hist.filterMap f := by
  obtain ⟨l, hl, ho⟩ := h.hist
  rw [hl, List.filterMap_append, List.filterMap_eq_nil_iff.mpr fun o hm =>
    hf o (ho o hm).session (ho o hm).input, List.append_nil]

theorem Moves.devices {p : Powers} (h : Moves E p c c') : c'.devices E = c.devices E := by
  refine h.filterMap_eq fun o hses _ => ?_
  cases o with
  | authDevice => cases hses
  | queued ev | dropped ev =>
    cases ev <;> first | rfl | cases hses
  | _ => rfl

theorem Moves.records {p : Powers} (h : Moves E p c c') : c'.records = c.records := by
  refine h.filterMap_eq fun o _ hin => ?_
  cases o with
  | pulled => cases hin
  | _ => rfl

/-- Nothing new is said of the client, and nothing is received. -/
structure Reticent (E : Env Rng SS) (P : Bytes → Prop) (c c' : Ctx Rng SS) : Prop
    extends Worded P c c' where
  devices : c'.devices E = c.devices E
  records : c'.records = c.records
  complete : c'.authComplete = c.authComplete

theorem filterMap_of_append {α : Type} {f : Occ → Option α} {l : List Occ}
    (hh : c'.hist = c.hist ++ l) (hl : ∀ o ∈ l, f o = none) :
    c'.hist.filterMap f = c.hist.filterMap f := by
  rw [hh, List.filterMap_append, List.filterMap_eq_nil_iff.mpr hl, List.append_nil]

namespace Reticent

theorem refl (c : Ctx Rng SS) : Reticent E P c c := ⟨.refl c, rfl, rfl, rfl⟩

theorem trans (h : Reticent E P c c') (h' : Reticent E P c' c'') : Reticent E P c c'' :=
  ⟨h.toWorded.trans h'.toWorded, h'.devices.trans h.devices, h'.records.trans h.records,
    h'.complete.trans h.complete⟩

theorem said {l : List Occ} (hw : Worded P c c') (hh : c'.hist = c.hist ++ l)
    (hl : ∀ o ∈ l, o.device? E = none ∧ o.pulled? = none)
    (hc : c'.authComplete = c.authComplete) : Reticent E P c c' :=
  ⟨hw, filterMap_of_append hh fun o ho => (hl o ho).1,
    filterMap_of_append hh fun o ho => (hl o ho).2, hc⟩

theorem logged {l : List Occ} (hr : c'.role = c.role) (hh : c'.hist = c.hist ++ l)
    (hl : ∀ o ∈ l, o.sent? = none ∧ o.device? E = none ∧ o.pulled? = none)
    (hc : c'.authComplete = c.authComplete) : Reticent E P c c' := by
  refine said (.logged hr hh fun o ho b hb => ?_) hh (fun o ho => (hl o ho).2) hc
  rw [(hl o ho).1] at hb
  cases hb

theorem same (hr : c'.role = c.role) (hh : c'.hist = c.hist)
    (hc : c'.authComplete = c.authComplete) : Reticent E P c c' :=
  logged (l := []) hr (by rw [hh, List.append_nil]) (by simp) hc

theorem log {o : Occ} (hs : o.sent? = none) (hd : o.device? E = none) (hp : o.pulled? = none) :
    Reticent E P c (c.log o) := logged rfl rfl (by simp [hs, hd, hp]) rfl

theorem event (ev : Event) (hev : ev.isDevice = false) : Reticent E P c (emit c ev) := by
  rw [emit_eq]
  refine logged rfl rfl ?_ rfl
  intro o ho
  rw [List.mem_singleton.mp ho]
  rcases emitOcc_cases c ev with h | h <;> rw [h] <;>
    simp [Occ.sent?, Occ.device?, Occ.pulled?, hev]

theorem failed (code : Rc) (msg : String) : Reticent E P c (setError c code msg) := by
  have hc : Reticent E P c { c with
      error := if code = .ok then .protocol else code, state := .error, errorMsg := msg } :=
    same rfl rfl rfl
  exact hc.trans (event _ rfl)

theorem pushed {b : Bytes} (hb : P b) (st : SS) (ct : Bytes) :
    Reticent E P c (c.pushed b st ct) := by
  refine said (l := [.sent b, .appended (rawFrame ct)]) (.pushed hb st ct) rfl ?_ rfl
  simp [Occ.device?, Occ.pulled?]

theorem send {b : Bytes} (hb : P b) : Reticent E P c (ssSendPdu E c b).1 := by
  obtain ⟨st, ct, -, -, he⟩ | ⟨_, _, _, -, -, -, he⟩ := ssSendPdu_cases E c b <;> rw [he]
  · exact pushed hb st ct
  · exact same rfl rfl rfl

theorem moves {p : Powers} (h : Moves E p c c') (hw : Worded P c c') : Reticent E P c c' :=
  ⟨hw, h.devices, h.records, h.authComplete⟩

theorem withFrame (body : Bytes) : Reticent E P c (c.withFrame body) :=
  logged (l := [.appended (rawFrame body)]) rfl rfl
    (by simp [Occ.sent?, Occ.device?, Occ.pulled?]) rfl

theorem headerLost (h : HeaderLost c c') : Reticent E P c c' := by
  cases h with
  | noState | noRoom => exact same rfl rfl rfl

theorem takeHello (h : Wire.Hello) : Reticent E P c (clientTakeHello c h) := by
  rw [clientTakeHello_eq]
  exact same rfl rfl rfl

theorem verifiedServer (h : Wire.Hello) : Reticent E P c (c.verifiedServer h) := by
  unfold Ctx.verifiedServer emitHelloReceived
  exact (takeHello h).trans ((log (o := .helloVerified h) rfl rfl rfl).trans (event _ rfl))

theorem sawClient (h : Wire.Hello) : Reticent E P c (c.sawClient h) := by
  have htake : Reticent E P c (serverTakeHello c h) := by
    rw [serverTakeHello_eq]
    exact same rfl rfl rfl
  unfold Ctx.sawClient emitHelloReceived
  exact htake.trans (event _ rfl)

theorem helloQueued (sig : Sig) : Reticent E P c (c.helloQueued sig) := by
  have htrans : Reticent E P c (serverTranscript c) := same rfl rfl rfl
  unfold Ctx.helloQueued
  exact htrans.trans (withFrame _)

theorem clientKx (st : SS) : Reticent E P c (c.clientKx st) := by
  have henter : Reticent E P c ((c.withPull st).enter .auth .done) := same rfl rfl rfl
  unfold Ctx.clientKx emitKxComplete
  exact henter.trans (event _ rfl)

theorem clientHello (h : Wire.Hello) : Reticent E P c (clientHandleHello E c h).1 := by
  have he := clientHandleHello_effect E c h
  generalize clientHandleHello E c h = r at he
  have hv := verifiedServer (E := E) (c := c) (P := P) h
  have hkeys : ∀ kc ks, Reticent E P c ((c.verifiedServer h).withKeys kc ks) := fun _ _ =>
    hv.trans (same rfl rfl rfl)
  cases he with
  | refused msg => exact failed _ msg
  | forged msg => exact (takeHello h).trans (failed _ msg)
  | keyless kc msg =>
    have hk : Reticent E P (c.verifiedServer h) ((c.verifiedServer h).withC2s kc) :=
      same rfl rfl rfl
    exact (hv.trans hk).trans (failed _ msg)
  | stuck kc ks c' msg _ hl => exact ((hkeys kc ks).trans (headerLost hl)).trans (failed _ msg)
  | accepted kc ks st header rng =>
    have hp : ∀ b : Ctx Rng SS, Reticent E P b (b.withPush st rng) := fun _ => same rfl rfl rfl
    have hs : ∀ b : Ctx Rng SS, Reticent E P b (b.enter .ssHeader .waitPeerSs) :=
      fun _ => same rfl rfl rfl
    exact (((hkeys kc ks).trans (hp _)).trans (withFrame header.val)).trans (hs _)

theorem serverHello (hr : c.role = .server) (h : Wire.Hello) :
    Reticent E P c (serverHandleHello E c h).1 := by
  have he := serverHandleHello_effect E hr h
  generalize serverHandleHello E c h = r at he
  have hsaw := sawClient (E := E) (c := c) (P := P) h
  have htrans : Reticent E P c (serverTranscript (c.sawClient h)) := hsaw.trans (same rfl rfl rfl)
  cases he with
  | refused msg => exact failed _ msg
  | unsigned msg => exact htrans.trans (failed _ msg)
  | noRoom msg =>
    have hc : ∀ b : Ctx Rng SS, Reticent E P b b.compacted := fun _ => same rfl rfl rfl
    exact (htrans.trans (hc _)).trans (failed _ msg)
  | keyless sig kc msg =>
    have hk : ∀ b : Ctx Rng SS, Reticent E P b (b.withC2s kc) := fun _ => same rfl rfl rfl
    exact ((hsaw.trans (helloQueued sig)).trans (hk _)).trans (failed _ msg)
  | accepted sig kc ks =>
    have hk : ∀ b : Ctx Rng SS, Reticent E P b ((b.withKeys kc ks).enter .ssHeader .waitPeerSs) :=
      fun _ => same rfl rfl rfl
    exact (hsaw.trans (helloQueued sig)).trans (hk _)

theorem hello (body : Bytes) : Reticent E P c (handlePeerHello E c body).1 := by
  unfold handlePeerHello
  split
  · exact failed _ _
  · split
    · exact clientHello _
    · rename_i hr
      exact serverHello hr _

theorem serverHeader (header : SsHeader) : Reticent E P c (serverHandleSsHeader E c header).1 := by
  have he := serverHandleSsHeader_effect E c header
  generalize serverHandleSsHeader E c header = r at he
  have hpull : ∀ st, Reticent E P c (c.withPull st) := fun _ => same rfl rfl rfl
  cases he with
  | refused msg => exact failed _ msg
  | stuck st c' msg hl => exact ((hpull st).trans (headerLost hl)).trans (failed _ msg)
  | accepted st st' own rng =>
    have hp : ∀ b : Ctx Rng SS, Reticent E P b (b.withPush st' rng) := fun _ => same rfl rfl rfl
    have hd : ∀ b : Ctx Rng SS, Reticent E P b (b.enter .auth .done) := fun _ => same rfl rfl rfl
    exact ((((hpull st).trans (hp _)).trans (withFrame own.val)).trans (hd _)).trans
      (event .kxComplete rfl)

end Reticent

/-- What an endpoint says, when nothing is received. -/
structure Answered (E : Env Rng SS) (c c' : Ctx Rng SS) : Prop where
  words : Says c c'
  devices : c'.devices E = c.devices E
  records : c'.records = c.records
  complete : c'.authComplete = c.authComplete ∨ c.role = .server ∧ c'.authComplete ∧ c'.approved

theorem Reticent.answered (h : Reticent E P c c') (hs : Worded P c c' → Says c c') :
    Answered E c c' := ⟨hs h.toWorded, h.devices, h.records, Or.inl h.complete⟩

theorem Reticent.silent (h : Reticent E (fun _ => False) c c') : Answered E c c' :=
  h.answered .nothing

namespace Answered

theorem clientHeader (hr : c.role = .client) (hs : c.hs = .waitPeerSs) (header : SsHeader) :
    Answered E c (clientHandleSsHeader E c header).1 := by
  have he := clientHandleSsHeader_effect E c header
  generalize clientHandleSsHeader E c header = r at he
  cases he with
  | refused msg => exact (Reticent.failed _ msg).silent
  | unsent st c' msg _ hc =>
    have hc' : Reticent E (fun _ => False) (c.clientKx st) c' := by
      rcases hc with rfl | rfl
      · exact .refl _
      · exact .same rfl rfl rfl
    exact (((Reticent.clientKx st).trans hc').trans (.failed _ msg)).silent
  | silent st => exact (Reticent.clientKx st).silent
  | sent st pdu st' ct _ hp =>
    obtain ⟨user, dev, tAuth, sig, -, -, -, -, henc⟩ := hp.signed
    have hkx : Reticent E (Typed .client pduAuthDevice) c (c.clientKx st) := .clientKx st
    have htyped : Typed .client pduAuthDevice pdu :=
      .encoded (x := .authDevice _ sig user dev) henc rfl rfl
    have hsaid : ∀ b : Ctx Rng SS, Reticent E (Typed .client pduAuthDevice) b
        { b with authSent := true } := fun _ => .same rfl rfl rfl
    have hall := (hkx.trans (.pushed htyped st' ct)).trans (hsaid _)
    refine hall.answered fun hw => .proof pdu hr hs (hw.role.trans hr) ?_ htyped ?_
    · change ((c.clientKx st).hist ++ [Occ.sent pdu, .appended (rawFrame ct)]).filterMap _ = _
      rw [List.filterMap_append, ← (Reticent.clientKx (E := E) (c := c) st).sent_eq]
      rfl
    · rw [clientKx_eq]
      rintro (h | h) <;> cases h

theorem header (hs : c.hs = .waitPeerSs) (body : Bytes) :
    Answered E c (handlePeerSsHeader E c body).1 := by
  unfold handlePeerSsHeader
  split
  · split
    · rename_i hr
      exact clientHeader hr hs _
    · exact (Reticent.serverHeader _).silent
  · exact (Reticent.failed _ _).silent

end Answered

/-- What a plaintext does to an endpoint: nothing is said of the client, a server names a device
that the plaintext proves, or a client hears that it is authenticated. -/
inductive Testifies (E : Env Rng SS) (plain : Bytes) (c c' : Ctx Rng SS) : Prop where
  | silent : c'.devices E = c.devices E → c'.authComplete = c.authComplete →
      Testifies E plain c c'
  | named (a : Wire.AuthDevice) :
      Wire.authDeviceDecode plain (userMax + 1) (deviceIdMax + 1) = .ok a →
      c'.devices E = c.devices E ++
        [.named (deviceEvent E a.clientIdPk (cstr a.username) (cstr a.deviceId)),
          .proved (deviceEvent E a.clientIdPk (cstr a.username) (cstr a.deviceId))] →
      c'.authComplete = c.authComplete → Testifies E plain c c'
  | heard : c.role = .client → plain.headD 0 = pduAuthOk → c'.devices E = c.devices E →
      c'.authComplete → Testifies E plain c c'

structure Vouches (E : Env Rng SS) (plain : Bytes) (c c' : Ctx Rng SS) : Prop where
  words : Says c c'
  about : Testifies E plain c c'

theorem Reticent.vouches {plain : Bytes} (h : Reticent E P c c') (hs : Worded P c c' → Says c c') :
    Vouches E plain c c' := ⟨hs h.toWorded, .silent h.devices h.complete⟩

/-- A device that was proved is named and remembered. -/
theorem takeAuthDevice_vouches {plain : Bytes} {a : Wire.AuthDevice}
    (h : Wire.authDeviceDecode plain (userMax + 1) (deviceIdMax + 1) = .ok a) :
    Vouches E plain c (takeAuthDevice E c a a.username a.deviceId) := by
  let b : Ctx Rng SS := { c with peerIdPk := a.clientIdPk, havePeerId := true }
  let ev := deviceEvent E a.clientIdPk (cstr a.username) (cstr a.deviceId)
  have hh : (takeAuthDevice E c a a.username a.deviceId).hist = c.hist ++
      [emitOcc b ev, .authDevice a.clientIdPk a.clientSig a.username a.deviceId] := by
    unfold takeAuthDevice
    change (emit b _).hist ++ [_] = _
    rw [emit_eq]
    exact List.append_assoc _ _ _
  obtain ⟨_, _, -, heq⟩ := takeAuthDevice_eq E c a a.username a.deviceId
  refine ⟨.nothing (.logged (by rw [heq]) hh fun o ho b' hb' => ?_), .named a h ?_ (by rw [heq])⟩
  · rcases List.mem_pair.mp ho with rfl | rfl
    · rcases emitOcc_cases b ev with he | he <;> rw [he] at hb' <;> cases hb'
    · cases hb'
  · unfold Ctx.devices
    rw [hh, List.filterMap_append]
    rcases emitOcc_cases b ev with he | he <;> rw [he] <;> rfl

theorem serverSendAuthFail_reticent :
    Reticent E (Typed .server pduAuthFail) c (serverSendAuthFail E c).1 := by
  unfold serverSendAuthFail
  split
  · exact .refl c
  · rename_i b hb
    exact .send (.encoded (x := .authFail 0 0) hb rfl rfl)

theorem handleAuthDevicePdu_vouches (hst : c.state = .auth) (plain : Bytes) :
    Vouches E plain c (handleAuthDevicePdu E c plain).1 := by
  have he := handleAuthDevicePdu_effect E c plain
  generalize handleAuthDevicePdu E c plain = r at he
  cases he with
  | refused code msg => exact (Reticent.failed code msg).vouches .nothing
  | forged msg msg' hr =>
    have hbad : Reticent E (Typed .server pduAuthFail) c (c.log .authBadSig) := .log rfl rfl rfl
    refine (((hbad.trans serverSendAuthFail_reticent).trans (.event _ rfl)).trans
      (.failed _ msg')).vouches fun hw => ?_
    exact .refusal hr hst hw (ended_setError _ _ _)
  | accepted d user device hd _ htext =>
    obtain ⟨hu, hdev, -, hul, hdl⟩ := Wire.authDeviceDecode_lengths hd
    obtain rfl : user = d.username := by
      rw [htext.1, ← hul (Nat.lt_succ_of_le hu), List.take_length]
    obtain rfl : device = d.deviceId := by
      rw [htext.2, ← hdl (Nat.lt_succ_of_le hdev), List.take_length]
    exact takeAuthDevice_vouches hd

theorem handlePlain_vouches (hl : ¬ c.ended) (plain : Bytes) (tag : UInt8) :
    Vouches E plain c (handlePlain E c plain tag).1 := by
  obtain ⟨he, hc⟩ := not_or.mp hl
  have hfail : ∀ (code : Rc) (msg : String), Vouches E plain c (setError c code msg) :=
    fun code msg => (Reticent.failed code msg).vouches .nothing
  unfold handlePlain
  split
  · have hclose : ∀ b : Ctx Rng SS, Reticent E (fun _ => False) b { b with state := .closed } :=
      fun _ => .same rfl rfl rfl
    exact ((Reticent.event (.disconnected 0 []) rfl).trans (hclose _)).vouches .nothing
  · split
    · exact (Reticent.refl c).vouches .nothing
    · split
      · exact (Reticent.refl c).vouches .nothing
      · rename_i hlen
        cases plain with
        | nil => exact absurd rfl hlen
        | cons t rest =>
          change Vouches E (t :: rest) c (if c.state = .auth then _ else _ : _ × _).1
          split
          · rename_i hst
            split
            · exact handleAuthDevicePdu_vouches hst _
            · split
              · rename_i ht
                have heff := handleAuthOkPdu_effect c (t :: rest)
                generalize handleAuthOkPdu c (t :: rest) = r at heff
                cases heff with
                | refused msg => exact hfail _ msg
                | accepted hr =>
                  have hauth : Reticent E (fun _ => False)
                      { c with authComplete := true, state := .ready }
                      (emitAuthenticated { c with authComplete := true, state := .ready }) :=
                    .event _ rfl
                  have hready : Wordless c { c with authComplete := true, state := .ready } :=
                    .same rfl rfl
                  exact ⟨.nothing (hready.trans hauth.toWorded),
                    .heard hr ht hauth.devices hauth.complete⟩
              · split
                · unfold handleAuthFailPdu
                  split
                  · exact hfail _ _
                  · exact ((Reticent.event _ rfl).trans (.failed _ _)).vouches .nothing
                · exact hfail _ _
          · split
            · rename_i hst
              exact (Reticent.moves (handleMuxPdu_moves (p := ⟨True, True⟩) trivial he hc _)
                (.handleMuxPdu _)).vouches fun hw => .chat hw hst
            · exact hfail _ _

/-- What an endpoint that goes on has made of a plaintext. -/
structure Minds (c : Ctx Rng SS) (plain : Bytes) : Prop where
  device : plain.headD 0 = pduAuthDevice → c.authLog ≠ []
  approval : plain.headD 0 = pduAuthOk → c.authComplete
  going : plain.headD 0 ≠ pduAuthFail ∧ plain.headD 0 ≠ pduDisconnect

/-- The dispatcher of channel PDUs knows no AUTH PDU, and a DISCONNECT is the end. -/
theorem handleMuxPdu_minds (plain : Bytes) :
    (handleMuxPdu E c plain).1.ended ∨ Minds (handleMuxPdu E c plain).1 plain := by
  by_cases hp : plain.headD 0 = pduAuthDevice ∨ plain.headD 0 = pduAuthOk ∨
      plain.headD 0 = pduAuthFail ∨ plain.headD 0 = pduDisconnect
  · refine Or.inl ?_
    unfold handleMuxPdu
    obtain ht | ht | ht | ht := hp <;> rw [ht]
    · exact ended_setError _ _ _
    · exact ended_setError _ _ _
    · exact ended_setError _ _ _
    · change (muxDisconnect c plain).1.ended
      unfold muxDisconnect
      split
      · exact ended_setError _ _ _
      · exact Or.inr rfl
  · rw [not_or, not_or, not_or] at hp
    obtain ⟨hdev, hok, hfail, hdisc⟩ := hp
    exact Or.inr ⟨fun h => absurd h hdev, fun h => absurd h hok, hfail, hdisc⟩

theorem handlePlain_minds {plain : Bytes} (hne : plain ≠ []) :
    (handlePlain E c plain tagMessage).1.ended ∨
      Minds (handlePlain E c plain tagMessage).1 plain := by
  cases plain with
  | nil => exact absurd rfl hne
  | cons t rest =>
    change (if c.state = State.auth then _ else _ : Ctx Rng SS × Bool).1.ended ∨
      Minds (if c.state = State.auth then _ else _ : Ctx Rng SS × Bool).1 (t :: rest)
    split
    · -- in AUTH only the three AUTH PDUs are known
      split
      · rename_i ht
        have he := handleAuthDevicePdu_effect E c (t :: rest)
        generalize handleAuthDevicePdu E c (t :: rest) = r at he
        cases he with
        | refused | forged => exact Or.inl (ended_setError _ _ _)
        | accepted d user device =>
          refine Or.inr ⟨fun _ => ?_, fun h => ?_, ?_⟩
          · obtain ⟨ev, r, -, he⟩ := takeAuthDevice_eq E c d user device
            have hmem : .authDevice d.clientIdPk d.clientSig user device ∈
                (takeAuthDevice E c d user device).hist := by
              rw [he]
              simp
            exact List.ne_nil_of_mem (List.mem_filter.mpr ⟨hmem, rfl⟩)
          · exact absurd (ht.symm.trans h) (by decide)
          · change t ≠ _ ∧ t ≠ _
            rw [ht]
            decide
      · split
        · rename_i hdev ht
          have he := handleAuthOkPdu_effect c (t :: rest)
          generalize handleAuthOkPdu c (t :: rest) = r at he
          cases he with
          | refused => exact Or.inl (ended_setError _ _ _)
          | accepted =>
            refine Or.inr ⟨fun h => absurd h hdev, fun _ => ?_, ?_⟩
            · rw [emitAuthenticated, emit_eq]
            · change t ≠ _ ∧ t ≠ _
              rw [ht]
              decide
        · refine Or.inl ?_
          split
          · unfold handleAuthFailPdu
            split
            · exact ended_setError _ _ _
            · exact ended_setError _ _ _
          · exact ended_setError _ _ _
    · split
      · exact handleMuxPdu_minds _
      · exact Or.inl (ended_setError _ _ _)

theorem Answered.record {k : Call} {r : Ctx Rng SS × Rc} (h : Answered E c r.1) :
    Answered E c (record k r).1 := by
  unfold Sodchan.record
  split
  · have hlog : Reticent E (fun _ => False) r.1 (r.1.log (.did k)) := .log rfl rfl rfl
    refine ⟨h.words.after hlog.toWorded rfl ?_ id, hlog.devices.trans h.devices,
      hlog.records.trans h.records, h.complete.imp_right fun hx => ⟨hx.1, hx.2.1, ?_⟩⟩
    · rintro ⟨reason, msg, hm⟩
      refine ⟨reason, msg, ?_⟩
      change _ ∈ (r.1.hist ++ [Occ.did k]).filterMap _
      rw [List.filterMap_append]
      exact List.mem_append_left _ hm
    · rw [Ctx.approved, hlog.sent_eq]
      exact hx.2.2
  · exact h

theorem serverSendAuthOk_cases (c : Ctx Rng SS) (claims : Bytes) :
    (∃ b st ct, Typed .server pduAuthOk b ∧
      serverSendAuthOk E c claims = (c.pushed b st ct, .ok)) ∨
    (serverSendAuthOk E c claims).2 ≠ .ok ∧
      Reticent E (fun _ => False) c (serverSendAuthOk E c claims).1 := by
  unfold serverSendAuthOk
  split
  · exact Or.inr ⟨by rintro ⟨⟩, .refl c⟩
  · rename_i b hb
    obtain ⟨st, ct, -, -, he⟩ | ⟨_, _, rc, -, -, hrc, he⟩ := ssSendPdu_cases E c b <;> rw [he]
    · exact Or.inl ⟨b, st, ct, .encoded (x := .authOk claims) hb rfl rfl, rfl⟩
    · exact Or.inr ⟨hrc, .same rfl rfl rfl⟩

theorem sent_pushed (c : Ctx Rng SS) (b : Bytes) (st : SS) (ct : Bytes) :
    (c.pushed b st ct).sent = c.sent ++ [b] := by
  change (c.hist ++ [Occ.sent b, .appended (rawFrame ct)]).filterMap _ = _
  rw [List.filterMap_append]
  rfl

theorem authDecideEx_answered (accept : Bool) (claims : Arg) :
    Answered E c (authDecideEx E c accept claims).1 := by
  have htake : ∀ {P : Bytes → Prop}, Reticent E P c (takeDecision c accept) :=
    (Reticent.log (o := .authDecided accept) rfl rfl rfl).trans (.same rfl rfl rfl)
  have hrefl : Answered E c c := (Reticent.refl c).silent
  unfold authDecideEx
  split
  · exact hrefl
  · rename_i hrole
    rw [not_not] at hrole
    split
    · exact hrefl
    · split
      · exact hrefl
      · rename_i hst
        rw [not_not] at hst
        split
        · exact hrefl
        · split
          · exact hrefl
          · split
            · obtain ⟨b, st, ct, hb, he⟩ | ⟨hok, hs⟩ :=
                serverSendAuthOk_cases (E := E) (takeDecision c accept) claims.data
              · rw [he]
                have hsent : ((takeDecision c accept).pushed b st ct).sent = c.sent ++ [b] := by
                  rw [sent_pushed, ← (htake (P := fun _ => False)).sent_eq]
                have hpush : Reticent E (Typed .server pduAuthOk) (takeDecision c accept)
                    ((takeDecision c accept).pushed b st ct) := .pushed hb st ct
                have hauth : Reticent E (fun _ => False)
                    { (takeDecision c accept).pushed b st ct with
                      authComplete := true, state := .ready }
                    (emitAuthenticated { (takeDecision c accept).pushed b st ct with
                      authComplete := true, state := .ready }) := .event _ rfl
                have hall : (emitAuthenticated { (takeDecision c accept).pushed b st ct with
                    authComplete := true, state := .ready }).sent = c.sent ++ [b] :=
                  hauth.sent_eq.trans hsent
                refine ⟨.approval b hrole hst (hauth.role.trans hrole) hall hb hauth.complete,
                  (hauth.devices.trans hpush.devices).trans (htake (P := fun _ => False)).devices,
                  (hauth.records.trans hpush.records).trans (htake (P := fun _ => False)).records,
                  Or.inr ⟨hrole, hauth.complete, b, ?_, hb.head⟩⟩
                rw [hall]
                exact List.mem_append_right _ List.mem_cons_self
              · split <;> rename_i he <;> rw [he] at hs hok
                · exact absurd rfl hok
                · exact ((htake.trans hs).trans (.failed _ _)).silent
            · have hfail := htake.trans
                (serverSendAuthFail_reticent (E := E) (c := takeDecision c accept))
              split <;> rename_i he <;> rw [he] at hfail
              · exact ((hfail.trans (.event _ rfl)).trans (.failed _ _)).answered fun hw =>
                  .refusal hrole hst hw (ended_setError _ _ _)
              · exact (hfail.trans (.failed _ _)).answered fun hw =>
                  .refusal hrole hst hw (ended_setError _ _ _)

theorem disconnect_reticent (reason : UInt32) (msg : Option Bytes) :
    Reticent E (Typed c.role pduDisconnect) c (disconnect E c reason msg).1 := by
  have hsend : ∀ text,
      Reticent E (Typed c.role pduDisconnect) c (sendDisconnect E c reason text) := by
    intro text
    unfold sendDisconnect
    split
    · exact .refl c
    · rename_i b hb
      exact .send (.encoded (x := .disconnect reason text) hb trivial rfl)
  unfold disconnect
  split
  · exact .refl c
  · dsimp only
    split
    · exact (hsend _).trans (.same rfl rfl rfl)
    · exact .same rfl rfl rfl

theorem disconnect_left (reason : UInt32) (msg : Option Bytes) :
    (call E c (.disconnect reason msg)).1.left ∧
      ((call E c (.disconnect reason msg)).1.state = .draining ∨
        (call E c (.disconnect reason msg)).1.ended) := by
  have hok : ∃ d, disconnect E c reason msg = (d, .ok) ∧ (d.state = .draining ∨ d.ended) := by
    unfold disconnect
    split
    · rename_i hs
      exact ⟨_, rfl, Or.inr (Or.inr hs)⟩
    · dsimp only
      split
      · exact ⟨_, rfl, Or.inl rfl⟩
      · exact ⟨_, rfl, Or.inr (Or.inr rfl)⟩
  obtain ⟨d, he, hs⟩ := hok
  have hcall : (call E c (.disconnect reason msg)).1 = d.log (.did (.disconnect reason msg)) := by
    change (record (.disconnect reason msg) (disconnect E c reason msg)).1 = _
    rw [he, record, if_pos rfl]
  rw [hcall]
  refine ⟨⟨reason, msg, List.mem_filterMap.mpr ⟨.did (.disconnect reason msg), ?_, rfl⟩⟩, hs⟩
  exact List.mem_append_right _ List.mem_cons_self

theorem Late.draining {k : Call} (h : Late c k) (ho : ∀ n, k ≠ .getOutput n) (hn : k ≠ .nextEvent)
    (hq : ∀ reason msg, k ≠ .disconnect reason msg) : c.state = .draining := by
  cases h with
  | getOutput n => exact absurd rfl (ho n)
  | nextEvent => exact absurd rfl hn
  | channelClose id hs => exact hs
  | disconnect reason msg => exact absurd rfl (hq reason msg)

theorem call_answered {k : Call} (hk : k.isPlain) (c : Ctx Rng SS) :
    Answered E c (call E c k).1 := by
  cases k with
  | feedInput | reset => cases hk
  | getOutput n =>
    obtain ⟨b, o, he⟩ := getOutput_eq c n
    have hsame : Reticent E (fun _ => False) c { c with outBuf := b, outOff := o } :=
      .same rfl rfl rfl
    simp only [call, he]
    exact hsame.silent
  | authDecide accept => exact (authDecideEx_answered accept (.null 0)).record
  | authDecideEx accept claims => exact (authDecideEx_answered accept claims).record
  | disconnect reason msg =>
    have hcall : Reticent E (Typed c.role pduDisconnect) c
        (call E c (.disconnect reason msg)).1 := by
      change Reticent E _ c (record (.disconnect reason msg) (disconnect E c reason msg)).1
      unfold record
      split
      · exact (disconnect_reticent reason msg).trans (.log rfl rfl rfl)
      · exact disconnect_reticent reason msg
    obtain ⟨hleft, hst⟩ := disconnect_left (E := E) (c := c) reason msg
    exact hcall.answered fun hw => .farewell hw hleft hst
  | nextEvent =>
    obtain ⟨_, he⟩ | ⟨_, _, hd, -⟩ | ⟨_, _, he⟩ | hm := call_cases (E := E) hk c
    · cases he
    · cases hd
    · cases he
    · exact (Reticent.moves hm (.nextEvent c)).silent
  | _ =>
    obtain ⟨_, he⟩ | ⟨_, _, hd, -⟩ | ⟨_, _, he⟩ | hm := call_cases (E := E) hk c
    · cases he
    · cases hd
    · cases he
    · have hchat := Reticent.moves hm (.call hk (by rintro _ ⟨⟩) rfl (by rintro _ _ ⟨⟩))
      by_cases hst : c.state = .ready ∨ c.state = .draining
      · exact hchat.answered fun hw => .chat hw hst
      · -- outside of an open session the calls on channels are refused
        obtain ⟨hready, hdrain⟩ := not_or.mp hst
        obtain hlate | hdec | he := call_unready (E := E) hready hk
        · exact absurd (hlate.draining (by rintro _ ⟨⟩) (by rintro ⟨⟩) (by rintro _ _ ⟨⟩)) hdrain
        · cases hdec
        · rw [he]
          exact (Reticent.refl c).silent

end Sodchan
