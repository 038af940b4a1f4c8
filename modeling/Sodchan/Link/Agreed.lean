import Sodchan.Link.Paired
import Sodchan.Model.Transcripts
import Sodchan.Session.Pinning

/-! # Agreement on the handshake

Once a client has taken the HELLO of the server that it is linked with, both
hold the transcript of the same two HELLOs and the same stream keys, whatever
has happened since.
-/

namespace Sodchan

open ByteString

variable {Rng SS : Type} {E : Env Rng SS} {c c' d : Ctx Rng SS} {N N' : Net Rng SS}

namespace Seat

variable {s s' : Seat SS} {l l' : List Bytes}

def transcript (s : Seat SS) (h : Wire.Hello) : BytesN tHelloLen :=
  match s.settings.role with
  | .client => Wire.buildTHello protoVersion suiteV1 s.ephPk h.ephPk h.idPk
  | .server => Wire.buildTHello protoVersion suiteV1 h.ephPk s.ephPk s.serverIdPk

theorem transcript_client (hr : s.settings.role = .client) (h : Wire.Hello) :
    s.transcript h = Wire.buildTHello protoVersion suiteV1 s.ephPk h.ephPk h.idPk := by
  rw [transcript, hr]

theorem transcript_server (hr : s.settings.role = .server) (h : Wire.Hello) :
    s.transcript h = Wire.buildTHello protoVersion suiteV1 h.ephPk s.ephPk s.serverIdPk := by
  rw [transcript, hr]

/-- The first frame was a HELLO, and the transcript is that with it. -/
def Transcribes (s : Seat SS) (l : List Bytes) : Prop :=
  ∃ b h, [rawFrame b] <+: l ∧ Wire.helloDecode b = .ok h ∧ s.tHello = s.transcript h

theorem Transcribes.congr (h : s.Transcribes l) (hset : s'.settings = s.settings)
    (he : s'.ephPk = s.ephPk) (hi : s'.serverIdPk = s.serverIdPk) (ht : s'.tHello = s.tHello)
    (hl : l <+: l') : s'.Transcribes l' := by
  obtain ⟨b, m, hb, hd, hm⟩ := h
  refine ⟨b, m, hb.trans hl, hd, ?_⟩
  rw [ht, hm, transcript, transcript, hset, he, hi]

end Seat

/-- How far an endpoint got with the transcript. -/
inductive Acquainted (c : Ctx Rng SS) : Prop where
  | ended : c.ended → Acquainted c
  | waiting : c.hs = .waitPeerHello → c.frames = [] → Acquainted c
  | met : c.hs ≠ .waitPeerHello → c.seat.Transcribes c.frames → Acquainted c

namespace Acquainted

theorem failed (c : Ctx Rng SS) (code : Rc) (msg : String) : Acquainted (setError c code msg) :=
  .ended (Or.inl (setError_state c code msg))

theorem still (h : Acquainted c) (hs : Still c c') : Acquainted c' := by
  have hhs : c'.hs = c.hs := congrArg Seat.hs hs.seat
  have hfr : c'.frames = c.frames := congrArg Trace.frames hs.trace
  cases h with
  | ended he => exact .ended (hs.ended he)
  | waiting hw hf => exact .waiting (hhs.trans hw) (hfr.trans hf)
  | met hw ht =>
    refine .met (by rwa [hhs]) ?_
    rw [hs.seat, hfr]
    exact ht

theorem push (h : Acquainted c) (hp : Pushes E c c') : Acquainted c' := by
  cases hp with
  | @push plain st ct hl =>
    have hfr : (c.pushed plain st ct).frames = c.frames :=
      congrArg Trace.frames (InOrder.trace_pushed c plain st ct)
    cases h with
    | ended he => exact absurd he hl
    | waiting hw hf => exact .waiting hw (hfr.trans hf)
    | met hw ht => exact .met hw (ht.congr rfl rfl rfl rfl (by rw [hfr]))

theorem flow (h : Acquainted c) (hf : Flow E c c') : Acquainted c' :=
  hf.preserves h (fun _ _ => still) fun _ _ => push

theorem clientHello {body : Bytes} {m : Wire.Hello} (hr : c.role = .client)
    (hf : c.frames = [rawFrame body]) (hd : Wire.helloDecode body = .ok m) :
    Acquainted (clientHandleHello E c m).1 := by
  have heff := clientHandleHello_effect E c m
  generalize clientHandleHello E c m = r at heff ⊢
  cases heff with
  | refused | forged | keyless | stuck => exact failed _ _ _
  | accepted kc ks st header rng =>
    have htook := (clientTakeHello_still c m).1
    have hv := verifiedServer_still c m
    have hframes : ((((c.verifiedServer m).withKeys kc ks).withPush st rng).withFrame
        header.val).frames = [rawFrame body] := by
      have h := congrArg Trace.frames (trace_withFrame (((c.verifiedServer m).withKeys kc
        ks).withPush st rng) header.val)
      rw [trace_withPush, trace_withKeys, hv.trace, (clientTakeHello_still c m).2] at h
      exact h.trans hf
    refine .met (by rintro ⟨⟩) ⟨body, m, ?_, hd, ?_⟩
    · change _ <+: ((((c.verifiedServer m).withKeys kc ks).withPush st rng).withFrame
        header.val).frames
      rw [hframes]
    · rw [seat_enter, seat_withFrame, seat_withPush, seat_withKeys, hv.seat, htook]
      refine Eq.symm (Seat.transcript_client ?_ m)
      exact hr

theorem serverHello {body : Bytes} {m : Wire.Hello} (hr : c.role = .server)
    (hf : c.frames = [rawFrame body]) (hd : Wire.helloDecode body = .ok m) :
    Acquainted (serverHandleHello E c m).1 := by
  have heff := serverHandleHello_effect E hr m
  generalize serverHandleHello E c m = r at heff ⊢
  cases heff with
  | refused | unsigned | noRoom | keyless => exact failed _ _ _
  | accepted sig kc ks =>
    obtain ⟨own, hseat, htrace, -⟩ := InOrder.helloQueued_still c m sig
    refine .met (by rintro ⟨⟩) ⟨body, m, ?_, hd, ?_⟩
    · change _ <+: ((c.sawClient m).helloQueued sig).trace.frames
      rw [htrace]
      change _ <+: c.frames
      rw [hf]
    · rw [seat_enter, seat_withKeys, hseat]
      refine Eq.symm (Seat.transcript_server ?_ m)
      exact hr

theorem hello {body : Bytes} (hf : c.frames = [rawFrame body]) :
    Acquainted (handlePeerHello E c body).1 := by
  unfold handlePeerHello
  split
  · exact failed _ _ _
  · rename_i m hd
    split
    · rename_i hr
      exact clientHello hr hf hd
    · rename_i hr
      exact serverHello hr hf hd

theorem clientHeader (ht : c.seat.Transcribes c.frames) (header : SsHeader) :
    Acquainted (clientHandleSsHeader E c header).1 := by
  have hdone : ∀ st, (c.clientKx st).hs ≠ .waitPeerHello := by
    intro st
    rw [clientKx_eq]
    rintro ⟨⟩
  have hkx : ∀ st, (c.clientKx st).seat.Transcribes (c.clientKx st).frames := by
    intro st
    obtain ⟨hseat, htrace⟩ := clientKx_still c st
    have hfr : (c.clientKx st).frames = c.frames := congrArg Trace.frames htrace
    rw [hseat, hfr]
    exact ht
  have heff := clientHandleSsHeader_effect E c header
  generalize clientHandleSsHeader E c header = r at heff ⊢
  cases heff with
  | refused | unsent => exact failed _ _ _
  | silent st => exact .met (hdone st) (hkx st)
  | sent st pdu st' ct =>
    have hd := hdone st
    have hk := hkx st
    generalize c.clientKx st = d at hd hk
    have hfr : (d.pushed pdu st' ct).frames = d.frames :=
      congrArg Trace.frames (InOrder.trace_pushed d pdu st' ct)
    have hpush : Acquainted (d.pushed pdu st' ct) :=
      .met hd (hk.congr rfl rfl rfl rfl (by rw [hfr]))
    exact hpush.still (.same rfl rfl id)

theorem serverHeader (ht : c.seat.Transcribes c.frames) (header : SsHeader) :
    Acquainted (serverHandleSsHeader E c header).1 := by
  have heff := serverHandleSsHeader_effect E c header
  generalize serverHandleSsHeader E c header = r at heff ⊢
  cases heff with
  | refused | stuck => exact failed _ _ _
  | accepted st st' own rng =>
    obtain ⟨hseat, htrace⟩ := serverKx_still c st st' own rng
    generalize emitKxComplete _ = b at hseat htrace ⊢
    have hfr : b.frames = c.frames := congrArg Trace.frames htrace
    refine .met ?_ ?_
    · rw [show b.hs = .done from congrArg Seat.hs hseat]
      rintro ⟨⟩
    · rw [hseat, hfr]
      exact ht

theorem header (ht : c.seat.Transcribes c.frames) (body : Bytes) :
    Acquainted (handlePeerSsHeader E c body).1 := by
  unfold handlePeerSsHeader
  split
  · split
    · exact clientHeader ht _
    · exact serverHeader ht _
  · exact failed _ _ _

theorem handled (h : Acquainted c) (hl : ¬ c.ended) (body : Bytes) :
    Acquainted (handleFrame E (c.log (.frame (rawFrame body))) body).1 := by
  have hfr : (c.log (.frame (rawFrame body))).frames = c.frames ++ [rawFrame body] :=
    congrArg Trace.frames (trace_frame c _)
  unfold handleFrame
  cases h with
  | ended he => exact absurd he hl
  | waiting hw hf =>
    rw [show (c.log (.frame (rawFrame body))).hs = .waitPeerHello from hw]
    rw [hf] at hfr
    exact hello hfr
  | met hw ht =>
    have hlog : (c.log (.frame (rawFrame body))).seat.Transcribes
        (c.log (.frame (rawFrame body))).frames :=
      ht.congr rfl rfl rfl rfl (hfr ▸ List.prefix_append _ _)
    cases hs : (c.log (.frame (rawFrame body))).hs with
    | waitPeerHello => exact absurd hs hw
    | waitPeerSs => exact header hlog body
    | start => exact failed _ _ _
    | done =>
      dsimp only
      obtain ⟨code, msg, he⟩ | ⟨st, plain, tag, -, -, -, he⟩ :=
        handleEncryptedPdu_cases E (c.log (.frame (rawFrame body))) body <;> rw [he]
      · exact failed _ _ _
      · have hpull : Acquainted ((c.log (.frame (rawFrame body))).afterPull st body plain tag) := by
          have hrec : ((c.log (.frame (rawFrame body))).afterPull st body plain tag).frames =
              (c.log (.frame (rawFrame body))).frames :=
            congrArg Trace.frames (trace_afterPull _ st body plain tag)
          exact .met hw (hlog.congr rfl rfl rfl rfl (by rw [hrec]))
        exact hpull.flow (handlePlain_flow
          (c := (c.log (.frame (rawFrame body))).afterPull st body plain tag) hl plain tag)

theorem round (h : Acquainted c) : Acquainted (processOne E c).state := by
  obtain ⟨-, hs⟩ | ⟨-, -, -, hs⟩ | ⟨k, body, b, he, hc, -, hf⟩ := processOne_cases E c
  · rwa [hs]
  · rw [hs]
    exact failed _ _ _
  · have hh := h.handled (E := E) (not_or.mpr ⟨he, hc⟩) body
    obtain ⟨hf, hs⟩ | ⟨hf, hs⟩ := hf <;> rw [hf] at hh <;> rw [hs]
    · exact hh.still (.same rfl rfl id)
    · exact hh

theorem step {lab : Label} (h : Acquainted c) (hs : Step E lab c c') : Acquainted c' := by
  cases hs with
  | call k hk => exact h.flow (call_flow hk c)
  | intake => exact h.still (.same rfl rfl id)
  | again he | stop he =>
    have hr := h.round (E := E)
    rwa [he] at hr

theorem steps (h : Acquainted c) (hs : Steps E c c') : Acquainted c' := by
  induction hs with
  | refl => exact h
  | tail _ hs ih =>
    obtain ⟨lab, hs⟩ := hs
    exact ih.step hs

end Acquainted

namespace InOrder

theorem greeted_past (h : InOrder E c) (hl : ¬ c.ended) (hs : c.hs ≠ .waitPeerHello) :
    ∃ m l, c.seat.Greets E m ∧ c.appended = rawFrame (Wire.helloBody m) :: l := by
  cases h.spoken with
  | nothing _ _ _ ho =>
    obtain ho | ⟨hw, -⟩ := ho
    · exact absurd ho hl
    · exact absurd hw hs
  | greeted m ha _ ho =>
    obtain ho | ⟨hg, -, -⟩ := ho
    · exact absurd ho hl
    · exact ⟨m, [], hg, ha⟩
  | opened m header st rng rng' l hg _ _ _ _ ha => exact ⟨m, _, hg, ha⟩

theorem keyed (h : InOrder E c) (hl : ¬ c.ended) (hs : c.hs ≠ .waitPeerHello) :
    c.seat.Keyed E c.trace := by
  cases h.listened with
  | gone ho => exact absurd ho hl
  | nothing hw => exact absurd hw hs
  | greeted b _ _ hk => exact hk
  | opened b header st _ hk => exact hk

theorem past_of_said (h : InOrder E c) (hl : ¬ c.ended) (hr : c.role = .server)
    (ha : c.appended ≠ []) : c.hs ≠ .waitPeerHello := by
  intro hw
  obtain ⟨-, -, -, ⟨-, hnone, -⟩ | ⟨hc, -⟩⟩ := h.waiting hl hw
  · exact ha hnone
  · exact absurd (hr.symm.trans hc) (by rintro ⟨⟩)

end InOrder

/-- The HELLO that an endpoint has taken is the one that its peer has said. -/
theorem Tuned.took_hello (h : Tuned E d c) (hl : ¬ c.ended) (hs : c.hs ≠ .waitPeerHello)
    (ha : Acquainted c) {m : Wire.Hello} {l : List Bytes} (hg : d.seat.Greets E m)
    (hd : d.appended = rawFrame (Wire.helloBody m) :: l) :
    c.peerEphPk = d.ephPk ∧ c.tHello = c.seat.transcript m := by
  constructor
  · obtain ⟨b, m', hp, hdec, he⟩ := ((h.heard.order hl).keyed hl hs).hello
    obtain rfl := first_eq hp h.taken hd
    rw [hg.decode.1] at hdec
    obtain rfl := Except.ok.inj hdec
    exact he.symm.trans hg.decode.2
  · cases ha with
    | ended he => exact absurd he hl
    | waiting hw => exact absurd hw hs
    | met _ ht =>
      obtain ⟨b, m', hp, hdec, hm⟩ := ht
      obtain rfl := first_eq hp h.taken hd
      rw [hg.decode.1] at hdec
      obtain rfl := Except.ok.inj hdec
      exact hm

theorem Seat.Greets.idPk {s : Seat SS} {m : Wire.Hello} (h : s.Greets E m)
    (hr : s.settings.role = .server) : m.idPk = s.serverIdPk := by
  cases h with
  | client hc => exact absurd (hr.symm.trans hc) (by rintro ⟨⟩)
  | server => rfl

theorem ClientInv.steps {cfg : Config} (h : ClientInv E cfg c) (hs : Steps E c c') :
    ClientInv E cfg c' := by
  induction hs with
  | refl => exact h
  | tail _ hs ih =>
    obtain ⟨lab, hs⟩ := hs
    obtain ⟨quit, ha⟩ := hs.advances
    exact ha.preserves ih (fun _ _ h => h.moves) fun _ _ h => h.turn

theorem Net.Created.start (h : N.Created E) (r : Role) : (N.ends r).role = r ∧
    Acquainted (N.ends r) ∧ (r = .client → ∃ cfg, ClientInv E cfg (N.ends r)) := by
  obtain ⟨cfg, rng, memOk, hc⟩ := h.ends r
  refine ⟨(Fresh.created hc).1, ?_, ?_⟩
  · have hf := (Fresh.created hc).2.frames
    obtain ⟨pk, sk, rng', -, he⟩ := create_eq_some hc
    refine .waiting ?_ hf
    rw [he]
    unfold Ctx.started
    split <;> rfl
  · rintro rfl
    exact ⟨_, clientInv_create hc⟩

theorem Net.Run.steps {guard : Net Rng SS → Act → Prop} (h : Net.Run E guard N N') (r : Role) :
    Steps E (N.ends r) (N'.ends r) := by
  induction h with
  | nil => exact .refl
  | snoc a _ ha _ ih => exact ih.trans (Net.step_ends _ ha r)

def Net.transcript (N : Net Rng SS) : BytesN tHelloLen :=
  Wire.buildTHello protoVersion suiteV1 (N.ends .client).ephPk (N.ends .server).ephPk
    (N.ends .server).serverIdPk

/-- Both endpoints have the same handshake behind them. -/
structure Net.Agreed (N : Net Rng SS) : Prop where
  ephPk : ∀ r, (N.ends r).peerEphPk = (N.ends r.peer).ephPk
  tHello : ∀ r, (N.ends r).tHello = N.transcript
  ssKeyC2s : (N.ends .client).ssKeyC2s = (N.ends .server).ssKeyC2s
  ssKeyS2c : (N.ends .client).ssKeyS2c = (N.ends .server).ssKeyS2c
  peerIdPk : (N.ends .client).peerIdPk = (N.ends .server).serverIdPk

/-- Between two honest endpoints that are both alive, the HELLO that the client has taken is the one
that the server has made for it: they have the same transcript and the same keys. -/
theorem handshake_agrees (hE : Ideal E) (h : N.Created E) (hrun : Net.Run E (fun _ _ => True) N N')
    (hl : ∀ r, ¬ (N'.ends r).ended) (hs : (N'.ends .client).hs ≠ .waitPeerHello) : N'.Agreed := by
  have hlinked := (Linked.created h).run hE hrun
  have hrole : ∀ r, (N'.ends r).role = r := fun r =>
    (congrArg Settings.role (hrun.settings r)).trans (h.start r).1
  have hacq : ∀ r, Acquainted (N'.ends r) := fun r => (h.start r).2.1.steps (hrun.steps r)
  have hc := hlinked.tuned .client
  have hd := hlinked.tuned .server
  have hoc := hc.heard.order (hl .client)
  have hod := hd.heard.order (hl .server)
  -- the client has taken something, so the server has spoken, and it spoke second
  have hsd : (N'.ends .server).hs ≠ .waitPeerHello := by
    refine hod.past_of_said (hl .server) (hrole .server) fun hnone => ?_
    obtain ⟨b, m, hp, -⟩ := (hoc.keyed (hl .client) hs).hello
    have hlen := (hp.trans hc.taken).length_le
    rw [show (N'.ends Role.client.peer).appended = [] from hnone] at hlen
    exact absurd hlen (by simp)
  obtain ⟨m, l, hg, ha⟩ := hoc.greeted_past (hl .client) hs
  obtain ⟨m', l', hg', ha'⟩ := hod.greeted_past (hl .server) hsd
  obtain ⟨hec, htc⟩ := hc.took_hello (hl .client) hs (hacq .client) hg' ha'
  obtain ⟨hed, htd⟩ := hd.took_hello (hl .server) hsd (hacq .server) hg ha
  rw [Seat.transcript_client (hrole .client), hg'.decode.2, hg'.idPk (hrole .server)] at htc
  rw [Seat.transcript_server (hrole .server), hg.decode.2] at htd
  have hkc : SessionKeys E (N'.ends .client).role (N'.ends .client).ephPk (N'.ends .client).ephSk
      (N'.ends .client).peerEphPk (N'.ends .client).ssKeyC2s (N'.ends .client).ssKeyS2c :=
    (hoc.keyed (hl .client) hs).keys
  have hkd : SessionKeys E (N'.ends .server).role (N'.ends .server).ephPk (N'.ends .server).ephSk
      (N'.ends .server).peerEphPk (N'.ends .server).ssKeyC2s (N'.ends .server).ssKeyS2c :=
    (hod.keyed (hl .server) hsd).keys
  rw [hrole, hec] at hkc
  rw [hrole, hed] at hkd
  obtain ⟨hk1, hk2⟩ := keys_agree hE hc.receiver hc.sender hkc hkd
  refine ⟨?_, ?_, hk1, hk2, ?_⟩
  · intro r
    cases r with
    | client => exact hec
    | server => exact hed
  · intro r
    cases r with
    | client => exact htc
    | server => exact htd
  · obtain ⟨cfg, hi⟩ := (h.start .client).2.2 rfl
    cases (hi.steps (hrun.steps .client)).phase with
    | fresh _ _ hst =>
      obtain ⟨-, hw⟩ | he := hst
      · exact absurd hw hs
      · exact absurd he (hl .client)
    | broken _ _ _ he => exact absurd he (hl .client)
    | trusting w _ _ hb =>
      have hbound : (N'.ends .client).tHello = Wire.buildTHello protoVersion suiteV1
          (N'.ends .client).ephPk (N'.ends .client).peerEphPk (N'.ends .client).peerIdPk :=
          hb.tHello
      exact (Wire.buildTHello_injective (hbound.symm.trans htc)).2.2.2.2

theorem plainOpened_live : (∀ r ∈ [Role.client, .server], (plainOpened.ends r).state = .ready) ∧
    (plainOpened.ends .client).hs = .done := by
  decide +kernel

theorem handshake_agrees_plain : plainOpened.Agreed := by
  obtain ⟨hready, hdone⟩ := plainOpened_live
  refine handshake_agrees ideal_plainEnv created_plainNet run_plainOpened (fun r => ?_) ?_
  · rw [Ctx.ended, hready r r.mem_both]
    rintro (h | h) <;> cases h
  · rw [hdone]
    rintro ⟨⟩

end Sodchan
