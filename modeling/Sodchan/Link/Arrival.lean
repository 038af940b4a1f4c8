import Sodchan.Link.Authenticated
import Sodchan.Link.Closing

/-! # Once everything has arrived

Two honest endpoints wait for each other only while something is on its way:
when nothing is, both are through the handshake, they agree on whether the
client is authenticated, and no farewell is left unheard.
-/

namespace Sodchan

open ByteString

variable {Rng SS : Type} {E : Env Rng SS} {c c' : Ctx Rng SS} {N N' : Net Rng SS} {r : Role}

namespace InOrder

/-- A live endpoint that has sent its header, as it does once it has taken a HELLO as a client and
once it is done as a server. -/
theorem opened_past (h : InOrder E c) (hl : ¬ c.ended)
    (hs : c.role = .client ∧ c.hs ≠ .waitPeerHello ∨ c.hs = .done) : 2 ≤ c.appended.length := by
  cases h.spoken with
  | nothing hr _ _ ho =>
    obtain ho | ⟨hw, -⟩ := ho
    · exact absurd ho hl
    · obtain ⟨hr', -⟩ | hd := hs
      · exact absurd (hr.symm.trans hr') (by rintro ⟨⟩)
      · exact absurd (hw.symm.trans hd) (by rintro ⟨⟩)
  | greeted _ _ _ ho =>
    obtain ho | ⟨-, -, ⟨hr, hw⟩ | ⟨hr, hw⟩⟩ := ho
    · exact absurd ho hl
    · obtain ⟨-, hn⟩ | hd := hs
      · exact absurd hw hn
      · exact absurd (hw.symm.trans hd) (by rintro ⟨⟩)
    · obtain ⟨hr', -⟩ | hd := hs
      · exact absurd (hr.symm.trans hr') (by rintro ⟨⟩)
      · exact absurd (hw.symm.trans hd) (by rintro ⟨⟩)
  | opened m header st rng rng' l _ _ _ _ _ ha =>
    rw [show c.appended = _ from ha]
    exact Nat.le_add_left 2 _

end InOrder

/-- Two endpoints of which each has taken all that the other has queued are through the
handshake. -/
theorem done_of_arrived (hc : InOrder E c) (hd : InOrder E c') (hlc : ¬ c.ended) (hld : ¬ c'.ended)
    (hrc : c.role = .client) (hcd : c.appended = c'.frames)
    (hdc : c'.appended = c.frames) : c.hs = .done ∧ c'.hs = .done := by
  -- the HELLO of the client, the HELLO of the server, the header of the client, and that of the
  -- server follow one from another
  have hpast : ∀ {b : Ctx Rng SS}, InOrder E b → ¬ b.ended → b.frames ≠ [] →
      b.hs ≠ .waitPeerHello := fun h hl hf hw => hf (h.waiting hl hw).1
  have hdone : ∀ {b : Ctx Rng SS}, InOrder E b → ¬ b.ended → 2 ≤ b.frames.length →
      b.hs = .done := fun h hl hf => by
    by_contra hs
    have hearly := (h.early hl hs).1
    omega
  have hserver : c'.hs ≠ .waitPeerHello := by
    refine hpast hd hld ?_
    rw [← hcd]
    by_cases hw : c.hs = .waitPeerHello
    · obtain ⟨-, -, -, ⟨hr, -⟩ | ⟨-, m, -, ha⟩⟩ := hc.waiting hlc hw
      · exact absurd (hrc.symm.trans hr) (by rintro ⟨⟩)
      · rw [ha]
        exact List.cons_ne_nil _ _
    · obtain ⟨m, l, -, ha⟩ := hc.greeted_past hlc hw
      rw [ha]
      exact List.cons_ne_nil _ _
  have hclient : c.hs ≠ .waitPeerHello := by
    obtain ⟨m, l, -, ha⟩ := hd.greeted_past hld hserver
    refine hpast hc hlc ?_
    rw [← hdc, ha]
    exact List.cons_ne_nil _ _
  have hsdone : c'.hs = .done :=
    hdone hd hld (hcd ▸ hc.opened_past hlc (Or.inl ⟨hrc, hclient⟩))
  exact ⟨hdone hc hlc (hdc ▸ hd.opened_past hld (Or.inr hsdone)), hsdone⟩

theorem Net.Quiet.done (hE : Ideal E) (h : N.Created E)
    (hrun : Net.Run E (fun _ _ => True) N N') (hq : N'.Quiet) (r : Role) :
    (N'.ends r).hs = .done := by
  have hlinked := (Linked.created h).run hE hrun
  have horder : ∀ r, InOrder E (N'.ends r) := fun r => (hlinked.tuned r).heard.order (hq.going r)
  have hall : ∀ r, (N'.ends r.peer).appended = (N'.ends r).frames := fun r =>
    hlinked.arrived (hq.going r) (hq.wire _) (hq.pending _)
  have hdone := done_of_arrived (horder .client) (horder .server) (hq.going _) (hq.going _)
    (h.attested hrun .client).2 (hall .server) (hall .client)
  cases r with
  | client => exact hdone.1
  | server => exact hdone.2

/-- Between two honest endpoints the handshake does not get stuck: once nothing is on its way, both
are through it and have both streams. -/
theorem handshake_completes (hE : Ideal E) (h : N.Created E)
    (hrun : Net.Run E (fun _ _ => True) N N') (hq : N'.Quiet) (r : Role) :
    (N'.ends r).hs = .done ∧ (N'.ends r).ssPushReady ∧ (N'.ends r).ssPullReady ∧
      ((N'.ends r).state = .auth ∨ (N'.ends r).state = .ready ∨ (N'.ends r).state = .draining) := by
  have hs := hq.done hE h hrun r
  have hlife := (h.attested hrun r).1.lifecycle
  obtain ⟨he, hc⟩ := not_or.mp (hq.going r)
  obtain ⟨-, hw⟩ | ⟨-, hw⟩ | ⟨hst, -⟩ := hlife.stage he hc
  · exact absurd (hs.symm.trans hw) (by rintro ⟨⟩)
  · exact absurd (hs.symm.trans hw) (by rintro ⟨⟩)
  · obtain ⟨-, -, hpush, hpull⟩ := hlife.done hst
    exact ⟨hs, hpush, hpull, hst⟩

@[irreducible] def plainMet : Net Unit Unit := plainExchange.foldl (Net.step plainEnv) plainNet

theorem run_plainMet : Net.Run plainEnv (fun _ _ => True) plainNet plainMet := by
  unfold plainMet
  exact Net.run_acts (by decide) plainNet

theorem plainMet_facts : (∀ r ∈ [Role.client, .server], (plainMet.ends r).state = .auth ∧
      plainMet.wire r = [] ∧ (plainMet.ends r).pending = []) ∧
    (plainMet.ends .client).hasIdentity ∧ (plainMet.ends .server).authComplete = false := by
  unfold Ctx.hasIdentity
  decide +kernel

theorem quiet_plainMet : plainMet.Quiet := by
  have hfacts := fun r : Role => plainMet_facts.1 r r.mem_both
  refine ⟨fun r => ?_, fun r => (hfacts r).2.1, fun r => (hfacts r).2.2⟩
  rw [Ctx.ended, (hfacts r).1]
  rintro (h | h) <;> cases h

theorem handshake_completes_plain : (plainMet.ends .client).hs = .done ∧
    (plainMet.ends .server).hs = .done := by
  have h := handshake_completes ideal_plainEnv created_plainNet run_plainMet quiet_plainMet
  exact ⟨(h .client).1, (h .server).1⟩

/-- What was sent to a live endpoint was minded by it, once it has arrived. -/
theorem Linked.minded (hE : Ideal E) (h : Linked E N) (hm : Minded (N.ends r))
    (hl : ¬ (N.ends r).ended) (hw : N.wire r.peer = [])
    (hp : (N.ends r.peer).pending = []) {b : Bytes}
    (hb : b ∈ (N.ends r.peer).sent) : Minds (N.ends r) b := by
  rw [← h.complete hE hl hw hp] at hb
  obtain ⟨x, hx, rfl⟩ := List.mem_map.mp hb
  have hpushed := (h.tuned r).records_pushed hE hl x hx
  exact hm hl x hx hpushed.tag hpushed.nonempty

/-- A client with an identity that is through the handshake has sent its AUTH_DEVICE. -/
theorem ClientAuth.sent (h : ClientAuth E c) (hl : ¬ c.ended) (hs : c.hs = .done)
    (hid : c.hasIdentity) : ∃ b ∈ c.sent, b.headD 0 = pduAuthDevice := by
  cases h with
  | unheard _ ho => exact absurd hs (ho.resolve_right hl)
  | keyless _ hn => exact absurd hid hn
  | proven hp =>
    obtain ⟨l, pdu, raw, hpre, -, hproof⟩ := hp.first
    obtain ⟨user, dev, tAuth, sig, -, -, -, -, henc⟩ := hproof.signed
    refine ⟨pdu, List.mem_filterMap.mpr ⟨.sent pdu, hpre.subset ?_, rfl⟩, ?_⟩
    · exact List.mem_append_right _ List.mem_cons_self
    · have htype : pdu.head? = some pduAuthDevice :=
        encode_type (x := .authDevice c.clientIdPk sig user dev) henc (by rintro ⟨⟩)
      rw [List.headD_eq_head?_getD, htype]
      rfl

/-- A live server that has taken an AUTH_DEVICE waits for its host, unless that has accepted. -/
theorem AuthPhase.asked (h : AuthPhase E c) (hl : ¬ c.ended) (hn : c.authLog ≠ []) :
    c.authComplete ∨ c.authAwaitingDecide ∧ c.authDecided = false := by
  cases h with
  | idle hnil => exact absurd hnil hn
  | forged _ _ ho | unsent _ _ _ _ _ _ _ _ ho | rejected _ _ _ _ _ _ _ _ _ ho => exact absurd ho hl
  | awaiting _ _ _ _ _ ha hd => exact Or.inr ⟨ha, hd⟩
  | accepted _ _ _ _ _ _ _ _ hc => exact Or.inl hc

/-- Two honest endpoints agree on whether the client is authenticated, once nothing is on its way;
with an identity of the client only the decision of the host of the server is left. -/
theorem authentication_settles (hE : Ideal E) (h : N.Created E)
    (hrun : Net.Run E (fun _ _ => True) N N') (hq : N'.Quiet) :
    ((N'.ends .client).authComplete ↔ (N'.ends .server).authComplete) ∧
      ((N'.ends .client).hasIdentity → (N'.ends .server).authComplete ∨
        (N'.ends .server).authAwaitingDecide ∧ (N'.ends .server).authDecided = false) := by
  have hlinked := (Linked.created h).run hE hrun
  have hatt := h.attested hrun
  have hminds : ∀ r, ∀ b ∈ (N'.ends r.peer).sent, Minds (N'.ends r) b := fun r b hb =>
    hlinked.minded hE (hatt r).1.minded (hq.going r) (hq.wire _) (hq.pending _) hb
  have happroved := (hatt .server).1.vouched.approved (hatt .server).2
  refine ⟨⟨fun hc => ?_, fun hd => ?_⟩, fun hid => ?_⟩
  · obtain ⟨b, hb, hhead⟩ := (hatt .client).1.vouched.heard (hatt .client).2 hc
    have hsent : b ∈ (N'.ends .server).sent := (hlinked.lined .client).received.subset hb
    exact happroved.mp ⟨b, hsent, hhead⟩
  · obtain ⟨b, hsent, hhead⟩ := happroved.mpr hd
    exact (hminds .client b hsent).approval hhead
  · obtain ⟨b, hb, hhead⟩ := ((hatt .client).1.identity (hatt .client).2).sent (hq.going .client)
      (hq.done hE h hrun .client) hid
    exact ((hatt .server).1.phase (hatt .server).2).asked (hq.going .server)
      ((hminds .server b hb).device hhead)

theorem authentication_settles_plain : (plainMet.ends .server).authAwaitingDecide ∧
    (plainMet.ends .client).authComplete = false := by
  obtain ⟨-, hid, hd⟩ := plainMet_facts
  obtain ⟨hiff, hask⟩ := authentication_settles ideal_plainEnv created_plainNet
    run_plainMet quiet_plainMet
  rw [hd] at hiff hask
  obtain hx | ⟨ha, -⟩ := hask hid
  · cases hx
  · exact ⟨ha, Bool.eq_false_iff.mpr fun hc => by cases hiff.mp hc⟩

/-- No farewell is left unheard: an honest endpoint that has sent a DISCONNECT or an AUTH_FAIL finds
its peer at the end once that has taken everything. -/
theorem farewell_heard (hE : Ideal E) (h : N.Created E)
    (hrun : Net.Run E (fun _ _ => True) N N') (hw : N'.wire r.peer = [])
    (hp : (N'.ends r.peer).pending = []) {b : Bytes} (hb : b ∈ (N'.ends r.peer).sent)
    (hbye : b.headD 0 = pduAuthFail ∨ b.headD 0 = pduDisconnect) : (N'.ends r).ended := by
  by_contra hl
  have hlinked := (Linked.created h).run hE hrun
  have hm := hlinked.minded hE (h.attested hrun r).1.minded hl hw hp hb
  exact hbye.elim hm.going.1 hm.going.2

def plainLeave : List Act := .host .server (.disconnect 3 none) :: plainPass .server

theorem plainLeave_facts : (plainAfter plainLeave).wire .server = [] ∧
    ((plainAfter plainLeave).ends .server).pending = [] ∧
    ∃ b ∈ ((plainAfter plainLeave).ends .server).sent, b.headD 0 = pduDisconnect := by
  decide +kernel

theorem farewell_heard_plain : ((plainAfter plainLeave).ends .client).ended := by
  obtain ⟨hw, hp, b, hb, hbye⟩ := plainLeave_facts
  exact farewell_heard (r := .client) ideal_plainEnv created_plainNet
    (run_plainAfter (by decide)) hw hp hb (Or.inr hbye)

end Sodchan
