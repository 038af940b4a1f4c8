import Sodchan.Link.Paired

/-! # Closing channels

A PDU can come too late for a channel that its host has just closed, and the
session ends with it; a host that waits for the EOF of its peer is safe from
that. Once everything has arrived, the tables of both endpoints agree, unless a
channel was given up without a CLOSE or a CHANNEL_OPEN has gone without answer.
-/

namespace Sodchan

open ByteString

variable {Rng SS : Type} {E : Env Rng SS} {c : Ctx Rng SS} {N N' : Net Rng SS} {r : Role}
  {a b l : List Note} {d : Role → List Note} {G : List Note → List Note → Note → Prop}
  {x y w q : UInt32} {name : Bytes} {p : Pdu} {i j : Fin maxChannelSlots}

@[irreducible] def plainAfter (l : List Act) : Net Unit Unit :=
  (plainTalk ++ l).foldl (Net.step plainEnv) plainNet

theorem run_plainAfter {l : List Act} (h : ∀ a ∈ l, a.honest) :
    Net.Run plainEnv (fun _ _ => True) plainNet (plainAfter l) := by
  unfold plainAfter
  refine Net.run_acts (fun a ha => ?_) plainNet
  obtain ha | ha := List.mem_append.mp ha
  · exact (show ∀ a ∈ plainTalk, a.honest by decide) a ha
  · exact h a ha

/-- The PDU was taken last, and nothing came of it. -/
def Ctx.Unheeded (c : Ctx Rng SS) (p : Pdu) : Prop := c.entries.getLast? = some (.took p)

namespace Noted

/-- DATA or a CONFIRM that is not heeded has ended the session. -/
theorem broke (h : Noted c l) (hu : c.Unheeded p) (hx : p.Hits x) : .broke p ∈ l := by
  obtain hp | hp := h.last p hu
  · obtain ⟨l₁, -, -, hf⟩ := h.minutes.sound.fits hp
    cases p with
    | channelData | channelOpenConfirm => cases hf
    | _ => cases hx
  · exact hp

theorem find_gone (h : Noted c l) (hs : stageOf x l = .gone) : c.table.find x = none := by
  by_contra hne
  obtain ⟨i, hi⟩ := Option.ne_none_iff_exists'.mp hne
  obtain ⟨hu, rfl⟩ := Table.find_some hi
  exact ((h.minutes.slot i hu).live hu (h.minutes.numbered.live i)).2 hs

theorem closed (h : Noted c l) (hx : (∃ y, .told x y .close ∈ l) ∨ .dropped x ∈ l) :
    .channelClose x ∈ c.calls := by
  obtain ⟨y, hy⟩ | hx := hx
  · have hm : Msg.close ∈ toldOn x l := List.mem_filterMap.mpr ⟨_, hy, by simp [Note.tells]⟩
    obtain ⟨k, hk, hkm⟩ := List.mem_filterMap.mp ((h.said x).subset hm)
    cases k with
    | channelClose id =>
      simp only [Call.msgOn, Msg.on, Option.ite_none_right_eq_some] at hkm
      exact hkm.1 ▸ hk
    | channelSend | channelWindowAdjust | channelEof => simp [Call.msgOn, Msg.on] at hkm
    | _ => cases hkm
  · exact h.dropped x hx

end Noted

def plainLate : List Act :=
  [.host .client (.getOutput 4096), .host .server (.channelClose 0), .deliver .server 4096]

theorem plainLate_facts : (∀ r ∈ [Role.client, .server],
      ((plainAfter plainLate).ends r).allocs < 2 ^ 32) ∧
    ((plainAfter plainLate).ends .server).entries.getLast? = some (.took (.channelData 0 [4])) ∧
    ((plainAfter plainLate).ends .server).initialWindow.toNat +
      credits (((plainAfter plainLate).ends .server).saidOn 0) < 2 ^ 32 ∧
    ((plainAfter plainLate).ends .server).state = .error := by
  decide +kernel

/-- A host closes a channel only after the EOF of its peer was raised. -/
def Net.Patient (N : Net Rng SS) : Act → Prop
  | .host r (.channelClose x) => .eof ∈ (N.ends r).raisedOn x
  | _ => True

def plainShut : List Act :=
  plainPass .client ++ .host .client (.channelEof 0) :: plainPass .client

theorem plainShut_facts : (∀ r ∈ [Role.client, .server],
      (((plainAfter plainShut).step plainEnv (.host .server (.channelClose 0))).ends r).allocs <
        2 ^ 32 ∧ ((plainAfter plainShut).ends r).allocs < 2 ^ 32) ∧
    (((plainAfter plainShut).step plainEnv (.host .server (.channelClose 0))).ends
        .server).initialWindow.toNat +
      credits ((((plainAfter plainShut).step plainEnv (.host .server (.channelClose 0))).ends
        .server).saidOn 0) < 2 ^ 32 ∧
    ((plainAfter plainShut).ends .server).raisedOn 0 = [.data [1, 2, 3], .data [4], .eof] := by
  decide +kernel

/-- Between two honest endpoints nothing is raised for a channel after its EOF but credit and its
end. -/
theorem eof_final (hE : Ideal E) (h : N.Created E) (hrun : Net.Run E (fun _ _ => True) N N')
    (hb : ∀ r, (N'.ends r).allocs < 2 ^ 32) (r : Role) (y : UInt32) :
    ((N'.ends r).raisedOn y).Pairwise fun m m' : Msg => m = .eof → m'.streams = false := by
  obtain ⟨d, ht⟩ := Talking.run hE .any h hrun hb
  rw [(ht.noted r).raised]
  cases hl : heardOn y (d r) with
  | nil => exact .nil
  | cons m l =>
    have hm : m ∈ (N'.ends r).raisedOn y := by
      rw [(ht.noted r).raised, hl]
      exact List.mem_cons_self
    obtain ⟨r, rfl⟩ : ∃ r', r = Role.peer r' := ⟨r.peer, by rw [Role.peer_peer]⟩
    obtain ⟨x, name, hj⟩ := ht.raised_joined hm
    rw [← hl]
    exact (ht.talk r).sound.eof_last.sublist ((ht.talk r).heard_sublist (ht.met_iff.mpr ⟨name, hj⟩))

theorem eof_final_plain :
    ((plainAfter plainShut).ends .server).raisedOn 0 = [.data [1, 2, 3], .data [4], .eof] ∧
      (((plainAfter plainShut).ends .server).raisedOn 0).Pairwise
        fun m m' : Msg => m = .eof → m'.streams = false :=
  ⟨plainShut_facts.2.2, eof_final ideal_plainEnv created_plainNet (run_plainAfter (by decide))
    (fun r => (plainShut_facts.1 r r.mem_both).2) .server 0⟩

/-- Every CHANNEL_OPEN of the peer was taken, or refused. -/
def Ctx.Answered (c : Ctx Rng SS) : Prop :=
  ∀ x w p name, .channelOpen x w p name ∈ c.tookPdus →
    (∃ y p', .channelOpen y x name w p' ∈ c.emitted) ∨ .channelOpenFail x ∈ c.sentPdus

/-- Every channel that the host has closed was closed at the peer, and every CHANNEL_OPEN of the
peer was answered. -/
structure Net.Candid (N : Net Rng SS) (r : Role) : Prop where
  told : ∀ x, .channelClose x ∈ (N.ends r).calls → ∃ y name, N.Joined r x y name ∧
    .channelClose y ∈ (N.ends r).sentPdus
  answered : (N.ends r).Answered

/-- Both endpoints go on, and nothing is on its way. -/
structure Net.Quiet (N : Net Rng SS) : Prop where
  going : ∀ r, ¬ (N.ends r).ended
  wire : ∀ r, N.wire r = []
  pending : ∀ r, (N.ends r).pending = []

namespace Talking

variable (h : Talking E G N d)

include h

/-- Where every CHANNEL_OPEN was answered, none was lost. -/
theorem unlost (hc : (N.ends r).Answered) : .passed (.channelOpen x w q name) ∉ d r := by
  intro hp
  have hn := h.noted r
  have hopen : ∀ {k : Note}, k ∈ d r → k.takes.bind Pdu.asker = some x →
      k = .passed (.channelOpen x w q name) := fun hk hkx =>
    (h.talk r).symm.open_once hk hp hkx rfl
  have htook : .channelOpen x w q name ∈ (N.ends r).tookPdus := by
    rw [tookPdus_eq, hn.taken]
    exact mem_takenBy.mpr ⟨_, hp, rfl⟩
  obtain ⟨y, p', he⟩ | hf := hc x w q name htook
  · obtain ⟨p'', hoff⟩ := hn.offer_iff.mpr ⟨p', he⟩
    cases hopen hoff rfl
  · rw [sentPdus_eq, hn.sent] at hf
    obtain ⟨k, hk, hks⟩ := mem_sentBy.mp hf
    obtain ⟨z, rfl⟩ | ⟨w', p', name', rfl⟩ := sends_fail hks
    · obtain ⟨⟨quota, p', name', hoff⟩, -⟩ := (h.talk r).sound.of_rejected hk
      cases hopen hoff rfl
    · cases hopen hk rfl

theorem frank (hc : N.Candid r) : Frank (d r) (d r.peer) := by
  have hn := h.noted r
  have ht := h.talk r
  refine ⟨fun {x} _ hx => ?_, fun x w p name => h.unlost hc.answered⟩
  exfalso
  obtain ⟨y, name, hj, hs⟩ := hc.told x (hn.dropped x hx)
  rw [sentPdus_eq, hn.sent] at hs
  obtain ⟨k, hk, hks⟩ := mem_sentBy.mp hs
  obtain ⟨z, rfl⟩ := sends_msg (m := .close) hks
  have hmet := h.met_iff.mpr ⟨name, hj⟩
  obtain rfl := ht.symm.met_unique (ht.met_of_told hk).symm hmet.symm
  -- a channel ends once
  obtain ⟨s, s', t, t', ⟨hlive, rfl⟩, ⟨⟨own, quota, rfl⟩, rfl⟩, ha | ha⟩ :=
    ht.sound.apart hx hk (by rintro ⟨⟩) rfl rfl
  · cases ha.gone
  · exact hlive.2 ha.gone

theorem calm (hE : Ideal E) (hq : N.Quiet) (hf : ∀ r, Frank (d r) (d r.peer)) :
    Calm (d r) (d r.peer) := by
  have hall : ∀ r : Role, takenBy (d r.peer) = sentBy (d r) := by
    intro r
    have hall := h.linked.complete hE (r := r.peer)
    rw [Role.peer_peer] at hall
    rw [← (h.noted r).sent, ← (h.noted r.peer).taken, ← sentPdus_eq, ← tookPdus_eq]
    exact congrArg (List.filterMap Pdu.ofChannel)
      (hall (hq.going r.peer) (hq.wire r) (hq.pending r))
  have hback := hall r.peer
  have hfrank := hf r.peer
  rw [Role.peer_peer] at hback hfrank
  exact ⟨⟨h.going (hq.going r), h.going (hq.going r.peer)⟩, ⟨hf r, hfrank⟩, hback, hall r⟩

theorem slot_unique (hi : ((N.ends r).channels i).state ≠ .unused)
    (hj : ((N.ends r).channels j).state ≠ .unused)
    (he : ((N.ends r).channels i).localId = ((N.ends r).channels j).localId) : i = j :=
  (h.noted r).minutes.numbered.distinct i j hi hj he

end Talking

/-- What a slot has at the peer: an open one an open one, an opening one a pending one, and the
other way round. -/
structure Net.Matched (N : Net Rng SS) (r : Role) (i : Fin maxChannelSlots) : Prop where
  open_ : ((N.ends r).channels i).state = .open_ →
    ∃! j, ((N.ends r.peer).channels j).state = .open_ ∧
      ((N.ends r.peer).channels j).localId = ((N.ends r).channels i).peerId ∧
      ((N.ends r.peer).channels j).peerId = ((N.ends r).channels i).localId
  opening : ((N.ends r).channels i).state = .opening →
    ∃! j, ((N.ends r.peer).channels j).state = .pending ∧
      ((N.ends r.peer).channels j).peerId = ((N.ends r).channels i).localId
  pending : ((N.ends r).channels i).state = .pending →
    ∃! j, ((N.ends r.peer).channels j).state = .opening ∧
      ((N.ends r.peer).channels j).localId = ((N.ends r).channels i).peerId

/-- Calm tables agree. -/
theorem Talking.matched (ht : Talking E G N d) (hcalm : Calm (d r) (d r.peer))
    (i : Fin maxChannelSlots) : N.Matched r i := by
  have htalk := ht.talk r
  have hslot := (ht.noted r).minutes.slot i
  have hpeer := (ht.noted r.peer).minutes
  have hunique : ∀ {j k : Fin maxChannelSlots} {st st' : ChState}, st ≠ .unused → st' ≠ .unused →
      ((N.ends r.peer).channels j).state = st → ((N.ends r.peer).channels k).state = st' →
      ((N.ends r.peer).channels k).localId = ((N.ends r.peer).channels j).localId → k = j :=
    fun h1 h2 hj hk he => ht.slot_unique (hk ▸ h2) (hj ▸ h1) he
  refine ⟨fun hs => ?_, fun hs => ?_, fun hs => ?_⟩
  · obtain ⟨own, quota, hst, -⟩ := (hslot (hs ▸ by rintro ⟨⟩)).open_ hs
    obtain ⟨j, -, hj, ho, hp, -⟩ := hpeer.at_open (htalk.open_agrees hcalm hst)
    refine ⟨j, ⟨ho, hj, hp⟩, fun k hk => ?_⟩
    exact hunique (by rintro ⟨⟩) (by rintro ⟨⟩) ho hk.1 (hk.2.1.trans hj.symm)
  · obtain ⟨y, hy⟩ := htalk.opening_agrees hcalm ((hslot (hs ▸ by rintro ⟨⟩)).opening hs)
    obtain ⟨j, -, rfl, ho, hp⟩ := hpeer.at_pending hy
    refine ⟨j, ⟨ho, hp⟩, fun k hk => hunique (by rintro ⟨⟩) (by rintro ⟨⟩) ho hk.1 ?_⟩
    -- both are pending for one CHANNEL_OPEN
    have hk' := (hpeer.slot k (hk.1 ▸ by rintro ⟨⟩)).pending hk.1
    obtain ⟨p, name, hoff⟩ := htalk.symm.sound.of_pending hy
    obtain ⟨p', name', hoff'⟩ := htalk.symm.sound.of_pending hk'
    exact (htalk.offer_unique (Or.inl (hk.2 ▸ hoff')) (Or.inl hoff)).1
  · have hy := htalk.symm.pending_agrees hcalm.symm ((hslot (hs ▸ by rintro ⟨⟩)).pending hs)
    obtain ⟨j, -, hj, ho⟩ := hpeer.at_opening hy
    refine ⟨j, ⟨ho, hj⟩, fun k hk => ?_⟩
    exact hunique (by rintro ⟨⟩) (by rintro ⟨⟩) ho hk.1 (hk.2.trans hj.symm)

/-- Once nothing is on its way, the tables of two honest endpoints agree, as long as every channel
that a host has closed was closed at the peer and every CHANNEL_OPEN was answered: an open channel
belongs to one that is open, one that is opening to one that is pending. -/
theorem tables_agree (hE : Ideal E) (h : N.Created E)
    (hrun : Net.Run E (fun _ _ => True) N N') (hb : ∀ r, (N'.ends r).allocs < 2 ^ 32)
    (hq : N'.Quiet) (hc : ∀ r, N'.Candid r) (r : Role) (i : Fin maxChannelSlots) :
    let ch := (N'.ends r).channels i
    (ch.state = .open_ → ∃! j, ((N'.ends r.peer).channels j).state = .open_ ∧
      ((N'.ends r.peer).channels j).localId = ch.peerId ∧
      ((N'.ends r.peer).channels j).peerId = ch.localId) ∧
    (ch.state = .opening → ∃! j, ((N'.ends r.peer).channels j).state = .pending ∧
      ((N'.ends r.peer).channels j).peerId = ch.localId) ∧
    (ch.state = .pending → ∃! j, ((N'.ends r.peer).channels j).state = .opening ∧
      ((N'.ends r.peer).channels j).localId = ch.peerId) := by
  obtain ⟨d, ht⟩ := Talking.run hE .any h hrun hb
  obtain ⟨h1, h2, h3⟩ := ht.matched (ht.calm hE hq fun r => ht.frank (hc r)) i
  exact ⟨h1, h2, h3⟩

@[irreducible] def plainQuiet : Net Unit Unit := plainAfter (plainPass .client)

theorem plainQuiet_facts : (∀ r ∈ [Role.client, .server], (plainQuiet.ends r).allocs < 2 ^ 32 ∧
      ¬ (plainQuiet.ends r).ended ∧ plainQuiet.wire r = [] ∧ (plainQuiet.ends r).pending = [] ∧
      ((plainQuiet.ends r).channels slot0).state = .open_) ∧
    (plainQuiet.ends .client).calls = [.channelOpen (some (ascii "tun")),
      .channelSend 0 (.buf [1, 2, 3]) true, .channelSend 0 (.buf [4]) true] ∧
    (plainQuiet.ends .server).calls = [.authDecide true, .channelAccept 0 true] ∧
    (plainQuiet.ends .client).tookPdus = [.channelOpenConfirm 0 0 262144 65536] ∧
    (plainQuiet.ends .server).tookPdus =
      [.channelOpen 0 262144 65536 (ascii "tun"), .channelData 0 [1, 2, 3], .channelData 0 [4]] ∧
    .channelOpen 0 0 (ascii "tun") 262144 65536 ∈ (plainQuiet.ends .server).emitted := by
  decide +kernel

theorem candid_plainQuiet (r : Role) : plainQuiet.Candid r := by
  obtain ⟨-, hcc, hcs, htc, hts, hev⟩ := plainQuiet_facts
  constructor
  · intro x hx
    cases r with
    | client => simp [hcc] at hx
    | server => simp [hcs] at hx
  · intro x w p name hp
    cases r with
    | client => simp [htc] at hp
    | server =>
      simp only [hts, List.mem_cons, Pdu.channelOpen.injEq, List.not_mem_nil, or_false,
        reduceCtorEq] at hp
      obtain ⟨rfl, rfl, rfl, rfl⟩ := hp
      exact Or.inl ⟨0, 65536, hev⟩

theorem tables_agree_plain : ∃! j, ((plainQuiet.ends .server).channels j).state = .open_ ∧
    ((plainQuiet.ends .server).channels j).localId =
      ((plainQuiet.ends .client).channels slot0).peerId ∧
    ((plainQuiet.ends .server).channels j).peerId =
      ((plainQuiet.ends .client).channels slot0).localId := by
  have hrun : Net.Run plainEnv (fun _ _ => True) plainNet plainQuiet := by
    unfold plainQuiet
    exact run_plainAfter (by decide)
  have hfacts := fun r : Role => plainQuiet_facts.1 r r.mem_both
  exact (tables_agree ideal_plainEnv created_plainNet hrun
    (fun r => (hfacts r).1) ⟨fun r => (hfacts r).2.1, fun r => (hfacts r).2.2.1,
      fun r => (hfacts r).2.2.2.1⟩ candid_plainQuiet .client slot0).1 (hfacts .client).2.2.2.2

end Sodchan
