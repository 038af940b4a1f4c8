import Sodchan.Session.Dues
import Sodchan.Channel.Numbered
import Sodchan.Model.Plain

/-! # Changes and their events

A round reports what it does exactly when the queue has room for the events
that its frame is due. In a run in which it always has, the host fetches all
data that was debited, in order.
-/

namespace Sodchan

open ByteString

variable {Rng SS : Type} {E : Env Rng SS} {c c' c'' : Ctx Rng SS} {evs evs' : List Event}
  {said : Bytes → UInt8 → Prop}

/-! ### Channels -/

namespace Uneventful

theorem free (c : Ctx Rng SS) (i : Fin maxChannelSlots) : Uneventful c (chFree c i) := by
  unfold chFree
  split
  · exact refl c
  · exact ⟨.same rfl rfl, rfl, rfl⟩

theorem sendReply (reply : Except Rc Bytes) : Uneventful c (sendReply E c reply) := by
  unfold Sodchan.sendReply
  split <;> exact send _

theorem setCh (c : Ctx Rng SS) (i : Fin maxChannelSlots) (ch : Channel) :
    Uneventful c (setCh c i ch) :=
  ⟨.same rfl rfl, rfl, rfl⟩

theorem unknown (c : Ctx Rng SS) (id : UInt32) : Uneventful c (c.log (.noChannel id)) :=
  ⟨.logged (l := [.noChannel id]) rfl rfl (by simp [Occ.event?]), rfl, rfl⟩

end Uneventful

namespace Raised

/-- One event, before and after which nothing happens. -/
theorem event {d : Ctx Rng SS} (h : Uneventful c d) (ev : Event) (h' : Uneventful (emit d ev) c') :
    Raised E said 1 c c' := by
  have hr : Raises [ev] c c' := (h.raises.before (.emit d ev)).after h'.raises
  refine steady hr ?_ (Or.inl ?_)
  · rw [h'.awaiting, emit_eq]
    exact h.awaiting
  · rw [h'.state, emit_eq]
    exact h.state

theorem change (i : Fin maxChannelSlots) (ch : Channel) (ev : Event) :
    Raised E said 1 c (emit (setCh c i ch) ev) := event (.setCh c i ch) ev (.refl _)

theorem closes {plain text : Bytes} {tag : UInt8} {reason : UInt32} (hsaid : said plain tag)
    (hf : Farewell plain tag reason text) :
    Raised E said 1 c { emit c (.disconnected reason text) with state := .closed } := by
  refine ⟨_, rfl, (Raises.emit c (.disconnected reason text)).after (.same rfl rfl), ?_, ?_,
    fun _ _ => ⟨plain, tag, reason, text, hsaid, hf, List.mem_singleton_self _⟩, ?_⟩
  · intro h0 h1
    rw [emit_eq] at h1
    rw [h0] at h1
    cases h1
  all_goals
    intro _ h1
    cases h1

end Raised

section Mux

variable {plain : Bytes}

theorem muxChannelOpen_raised (ht : plain.headD 0 = pduChannelOpen) :
    Raised E said (c.dueMux plain) c (muxChannelOpen E c plain).1 := by
  have hdue : c.dueMux plain =
      (Wire.channelOpenDecode plain (channelNameMax + 1)).toOption.elim 1 fun p =>
        if channelNameAllowed c (cstr p.name) ∧ c.activeChannels < c.maxChannels ∧
          ∃ i, (c.channels i).state = .unused then 1 else 0 := by
    unfold Ctx.dueMux Pdu.ofBytes
    rw [ht]
    cases Wire.channelOpenDecode plain (channelNameMax + 1) <;> rfl
  rw [hdue]
  clear hdue
  have hreply : ∀ reply, Raised E said 0 c (sendReply E c reply) := fun reply =>
    (Uneventful.sendReply reply).raised
  unfold muxChannelOpen
  cases Wire.channelOpenDecode plain (channelNameMax + 1) with
  | error => exact .refused _ _
  | ok p =>
    dsimp only [Except.toOption, Option.elim]
    by_cases hn : channelNameAllowed c (cstr p.name)
    · rw [if_neg (not_not.mpr hn)]
      cases ha : chAlloc c with
      | none =>
        dsimp only
        refine (hreply _).due (if_neg ?_)
        rintro ⟨-, hroom, i, hi⟩
        exact (chAlloc_eq_none.mp ha).elim (fun h => h.not_gt hroom) fun h => h i hi
      | some r =>
        obtain ⟨d, i⟩ := r
        obtain ⟨hu, hroom, rfl⟩ := chAlloc_eq_some ha
        refine Raised.due ?_ (if_pos ⟨hn, hroom, i, hu⟩)
        have halloc : Uneventful c (c.allocated i) := ⟨.same rfl rfl, rfl, rfl⟩
        exact .event (halloc.trans (.setCh _ _ _)) _ (.refl _)
    · rw [if_pos hn]
      dsimp only
      exact (hreply _).due (if_neg fun h => hn h.1)

theorem muxChannelOpenConfirm_raised (ht : plain.headD 0 = pduChannelOpenConfirm) :
    Raised E said (c.dueMux plain) c (muxChannelOpenConfirm c plain).1 := by
  have hdue : c.dueMux plain = 1 := by
    unfold Ctx.dueMux Pdu.ofBytes
    rw [ht]
    cases Wire.channelOpenConfirmDecode plain <;> rfl
  rw [hdue]
  unfold muxChannelOpenConfirm
  split
  · exact .refused _ _
  · split
    · exact (Uneventful.unknown _ _).failed _ _
    · split
      · exact .refused _ _
      · exact .change _ _ _

theorem muxChannelOpenFail_raised (ht : plain.headD 0 = pduChannelOpenFail) :
    Raised E said (c.dueMux plain) c (muxChannelOpenFail c plain).1 := by
  have hdue : c.dueMux plain = (Wire.channelOpenFailDecode plain 128).toOption.elim 1 fun p =>
      if ∃ i ∈ chByLocal c p.1, (c.channels i).state = .opening then 1 else 0 := by
    unfold Ctx.dueMux Pdu.ofBytes
    rw [ht]
    cases Wire.channelOpenFailDecode plain 128 <;> rfl
  rw [hdue]
  clear hdue
  unfold muxChannelOpenFail
  cases Wire.channelOpenFailDecode plain 128 with
  | error => exact .refused _ _
  | ok p =>
    dsimp only [Except.toOption, Option.elim]
    cases chByLocal c p.1 with
    | none => exact (Uneventful.refl c).raised.due (if_neg (by rintro ⟨i, ⟨⟩, -⟩))
    | some i =>
      dsimp only
      by_cases hs : (c.channels i).state = .opening
      · rw [if_pos hs]
        exact Raised.due (.event (.refl c) _ (.free _ _)) (if_pos ⟨i, rfl, hs⟩)
      · rw [if_neg hs]
        refine (Uneventful.refl c).raised.due (if_neg ?_)
        rintro ⟨j, hj, h⟩
        obtain rfl := Option.some.inj hj
        exact hs h

theorem muxChannelData_raised (ht : plain.headD 0 = pduChannelData) :
    Raised E said (c.dueMux plain) c (muxChannelData c plain).1 := by
  have hdue : c.dueMux plain = 1 := by
    unfold Ctx.dueMux Pdu.ofBytes
    rw [ht]
    cases Wire.channelDataDecode plain <;> rfl
  rw [hdue]
  unfold muxChannelData
  split
  · exact .refused _ _
  · split
    · exact (Uneventful.unknown _ _).failed _ _
    · dsimp only
      split_ifs
      · exact .refused _ _
      · exact .refused _ _
      · exact .refused _ _
      · exact .refused _ _
      · exact .change _ _ _

theorem muxChannelWindow_raised (ht : plain.headD 0 = pduChannelWindow) :
    Raised E said (c.dueMux plain) c (muxChannelWindow c plain).1 := by
  have hdue : c.dueMux plain = (Wire.channelWindowDecode plain).toOption.elim 1 fun p =>
      if ∃ i ∈ chByLocal c p.1, (c.channels i).state = .open_ then 1 else 0 := by
    unfold Ctx.dueMux Pdu.ofBytes
    rw [ht]
    cases Wire.channelWindowDecode plain <;> rfl
  rw [hdue]
  clear hdue
  unfold muxChannelWindow
  cases Wire.channelWindowDecode plain with
  | error => exact .refused _ _
  | ok p =>
    dsimp only [Except.toOption, Option.elim]
    cases chByLocal c p.1 with
    | none => exact (Uneventful.refl c).raised.due (if_neg (by rintro ⟨i, ⟨⟩, -⟩))
    | some i =>
      dsimp only
      by_cases hs : (c.channels i).state = .open_
      · rw [if_neg (not_not.mpr hs)]
        exact Raised.due (.change _ _ _) (if_pos ⟨i, rfl, hs⟩)
      · rw [if_pos hs]
        refine (Uneventful.refl c).raised.due (if_neg ?_)
        rintro ⟨j, hj, h⟩
        obtain rfl := Option.some.inj hj
        exact hs h

theorem muxChannelEof_raised (ht : plain.headD 0 = pduChannelEof) :
    Raised E said (c.dueMux plain) c (muxChannelEof c plain).1 := by
  have hdue : c.dueMux plain = (Wire.channelEofDecode plain).toOption.elim 1 fun id =>
      if (chByLocal c id).isSome then 1 else 0 := by
    unfold Ctx.dueMux Pdu.ofBytes
    rw [ht]
    cases Wire.channelEofDecode plain <;> rfl
  rw [hdue]
  clear hdue
  unfold muxChannelEof
  cases Wire.channelEofDecode plain with
  | error => exact .refused _ _
  | ok id =>
    dsimp only [Except.toOption, Option.elim]
    cases chByLocal c id with
    | none => exact (Uneventful.refl c).raised
    | some i => exact .change _ _ _

theorem muxChannelClose_raised (ht : plain.headD 0 = pduChannelClose) :
    Raised E said (c.dueMux plain) c (muxChannelClose c plain).1 := by
  have hdue : c.dueMux plain = (Wire.channelCloseDecode plain).toOption.elim 1 fun id =>
      if (chByLocal c id).isSome then 1 else 0 := by
    unfold Ctx.dueMux Pdu.ofBytes
    rw [ht]
    cases Wire.channelCloseDecode plain <;> rfl
  rw [hdue]
  clear hdue
  unfold muxChannelClose
  cases Wire.channelCloseDecode plain with
  | error => exact .refused _ _
  | ok id =>
    dsimp only [Except.toOption, Option.elim]
    cases chByLocal c id with
    | none => exact (Uneventful.refl c).raised
    | some i => exact .event (.refl c) _ (.free _ _)

theorem muxPing_raised (plain : Bytes) : Raised E said 1 c (muxPing E c plain).1 := by
  unfold muxPing
  split
  · exact .refused _ _
  · dsimp only
    split
    · exact .event (.refl c) .ping (.refl _)
    · exact .event (.refl c) .ping (.send _)

end Mux

theorem muxDisconnect_raised {plain : Bytes} {tag : UInt8} (hsaid : said plain tag) :
    Raised E said 1 c (muxDisconnect c plain).1 := by
  unfold muxDisconnect
  split
  · exact .refused _ _
  · rename_i reason msg mlen hd
    refine Raised.closes hsaid (Or.inr ⟨msg, mlen, hd, rfl⟩)

theorem handleMuxPdu_raised {plain : Bytes} {tag : UInt8} (hsaid : said plain tag) :
    Raised E said (c.dueMux plain) c (handleMuxPdu E c plain).1 := by
  have hother : Pdu.ofBytes plain = .other → plain.headD 0 ≠ pduPong → c.dueMux plain = 1 := by
    intro h hpong
    unfold Ctx.dueMux
    rw [h]
    exact if_neg hpong
  unfold handleMuxPdu
  dsimp only
  split
  · rename_i ht
    exact muxChannelOpen_raised ht
  · split
    · rename_i ht
      exact muxChannelOpenConfirm_raised ht
    · split
      · rename_i ht
        exact muxChannelOpenFail_raised ht
      · split
        · rename_i ht
          exact muxChannelData_raised ht
        · split
          · rename_i ht
            exact muxChannelWindow_raised ht
          · split
            · rename_i ht
              exact muxChannelEof_raised ht
            · split
              · rename_i ht
                exact muxChannelClose_raised ht
              · have ho : Pdu.ofBytes plain = .other := by
                  unfold Pdu.ofBytes
                  simp only [*, if_false]
                split
                · rename_i ht
                  exact (muxPing_raised plain).due (hother ho (by rw [ht]; decide))
                · split
                  · rename_i ht
                    refine (Uneventful.refl c).raised.due ?_
                    unfold Ctx.dueMux
                    rw [ho]
                    exact if_pos ht
                  · rename_i hpong
                    split
                    · exact (muxDisconnect_raised hsaid).due (hother ho hpong)
                    · exact (Raised.refused _ _).due (hother ho hpong)

theorem handlePlain_raised {plain : Bytes} {tag : UInt8} (hsaid : said plain tag) :
    Raised E said (c.duePlain E plain tag) c (handlePlain E c plain tag).1 := by
  unfold handlePlain
  split
  · rename_i ht
    exact (Raised.closes hsaid (Or.inl ⟨ht, rfl, rfl⟩)).due (by rw [Ctx.duePlain, if_pos ht])
  · rename_i hfinal
    split
    · rename_i ht
      exact (Uneventful.refl c).raised.due (by rw [Ctx.duePlain, if_neg hfinal, if_pos (Or.inl ht)])
    · rename_i hrekey
      split
      · rename_i hnil
        exact (Uneventful.refl c).raised.due
          (by rw [Ctx.duePlain, if_neg hfinal, if_pos (Or.inr (List.length_eq_zero_iff.mp hnil))])
      · rename_i hcons
        have hdue : c.duePlain E plain tag = if c.state = .auth then c.dueAuth E plain
            else if c.state = .ready ∨ c.state = .draining then c.dueMux plain else 1 := by
          rw [Ctx.duePlain, if_neg hfinal,
            if_neg (not_or.mpr ⟨hrekey, fun h => hcons (List.length_eq_zero_iff.mpr h)⟩)]
        rw [Wire.pduType_eq fun h => hcons (List.length_eq_zero_iff.mpr h)]
        dsimp only
        by_cases hauth : c.state = .auth
        · rw [if_pos hauth] at hdue
          rw [if_pos hauth, hdue]
          split
          · rename_i ht
            exact handleAuthDevicePdu_raised hsaid ht
          · rename_i hdevice
            split
            · rename_i hok
              refine (handleAuthOkPdu_raised plain).due ?_
              rw [Ctx.dueAuth, if_neg hdevice, if_neg fun h => ?_]
              rw [hok] at h
              exact absurd h.1 (by decide)
            · split
              · rename_i ht
                exact handleAuthFailPdu_raised ht
              · rename_i hfail
                exact (Raised.refused _ _).due
                  (by rw [Ctx.dueAuth, if_neg hdevice, if_neg fun h => hfail h.1])
        · rw [if_neg hauth] at hdue
          rw [if_neg hauth]
          split
          · rename_i hst
            exact (handleMuxPdu_raised hsaid).due (by rw [hdue, if_pos hst])
          · rename_i hst
            exact (Raised.refused _ _).due (by rw [hdue, if_neg hst])

theorem handleEncryptedPdu_raised {ct : Bytes}
    (hsaid : ∀ st plain tag, E.ssPull c.ssPull ct = some (st, plain, tag) → said plain tag) :
    Raised E said (c.dueRecord E ct) c (handleEncryptedPdu E c ct).1 := by
  have hone : (E.ssPull c.ssPull ct = none ∨ ¬ (c.ssPullReady ∧ ssAbytes ≤ ct.length ∧
      ct.length - ssAbytes ≤ plainBufSize ∧ ct.length - ssAbytes ≤ c.maxRecordSize)) →
      c.dueRecord E ct = 1 := by
    intro h
    unfold Ctx.dueRecord
    split
    · rfl
    · rename_i hp
      exact if_neg (h.resolve_left (by rw [hp]; rintro ⟨⟩))
  unfold handleEncryptedPdu
  split
  · rename_i hready
    exact (Raised.refused _ _).due (hone (Or.inr fun h => hready h.1))
  · rename_i hready
    split
    · rename_i hshort
      exact (Raised.refused _ _).due (hone (Or.inr fun h => by omega))
    · rename_i hshort
      split
      · rename_i hlong
        exact (Raised.refused _ _).due (hone (Or.inr fun h => by omega))
      · rename_i hlong
        cases hp : E.ssPull c.ssPull ct with
        | none => exact (Raised.refused _ _).due (hone (Or.inl hp))
        | some r =>
          obtain ⟨st, plain, tag⟩ := r
          have hdue : c.dueRecord E ct = c.duePlain E plain tag := by
            simp only [Ctx.dueRecord, hp]
            exact if_pos ⟨not_not.mp hready, by omega, by omega, by omega⟩
          have hpulled : Uneventful c (c.afterPull st ct plain tag) :=
            ⟨.logged (l := [.pulled ct plain tag]) rfl rfl (by simp [Occ.event?]), rfl, rfl⟩
          have h := handlePlain_raised (E := E) (c := c.afterPull st ct plain tag)
            (hsaid st plain tag hp)
          exact (h.behind hpulled).due hdue

/-- What the next record says. -/
def Ctx.brings (E : Env Rng SS) (c : Ctx Rng SS) (plain : Bytes) (tag : UInt8) : Prop :=
  ∃ k body st, parseInput E c = .ok (k, body) ∧ E.ssPull c.ssPull body = some (st, plain, tag)

theorem handleFrame_raised {body : Bytes}
    (hsaid : ∀ st plain tag, E.ssPull c.ssPull body = some (st, plain, tag) → said plain tag) :
    Raised E said (c.dueFrame E body) c (handleFrame E c body).1 := by
  unfold handleFrame Ctx.dueFrame
  cases c.hs with
  | waitPeerHello => exact handlePeerHello_raised body
  | waitPeerSs => exact handlePeerSsHeader_raised body
  | done => exact handleEncryptedPdu_raised hsaid
  | start => exact .refused _ _

/-- A round raises as many events as its frame is due. -/
theorem processOne_raised (E : Env Rng SS) (c : Ctx Rng SS) :
    Raised E (c.brings E) (c.due E) c (processOne E c).state := by
  obtain ⟨hq, h⟩ | ⟨he, hcl, hp, h⟩ | ⟨k, body, d, he, hcl, hp, h⟩ := processOne_cases E c
  · rw [h]
    refine (Uneventful.refl c).raised.due ?_
    unfold Ctx.due
    split
    · rfl
    · rename_i hend
      simp only [hq.resolve_left hend]
  · rw [h]
    refine (Raised.refused _ _).due ?_
    have hend : ¬ c.ended := not_or.mpr ⟨he, hcl⟩
    simp only [Ctx.due, if_neg hend, hp]
  · have hend : ¬ c.ended := not_or.mpr ⟨he, hcl⟩
    have hdue : c.due E = c.dueFrame E body := by
      simp only [Ctx.due, if_neg hend, hp]
    have hlog : Uneventful c (c.log (.frame (rawFrame body))) :=
      ⟨.logged (l := [.frame (rawFrame body)]) rfl rfl (by simp [Occ.event?]), rfl, rfl⟩
    have hf : Raised E (c.brings E) _ (c.log (.frame (rawFrame body)))
        (handleFrame E (c.log (.frame (rawFrame body))) body).1 :=
      handleFrame_raised fun st plain tag hs => ⟨k, body, st, hp, hs⟩
    have hall : Raised E (c.brings E) (c.due E) c
        (handleFrame E (c.log (.frame (rawFrame body))) body).1 := (hf.behind hlog).due hdue
    rcases h with ⟨hh, h⟩ | ⟨hh, h⟩ <;> rw [h] <;> rw [hh] at hall
    · exact hall.ahead ⟨.same rfl rfl, rfl, rfl⟩ rfl rfl
    · exact hall

/-! ### What is conveyed -/

/-- The next record brings this PDU to the channel layer. -/
def Ctx.hears (E : Env Rng SS) (c : Ctx Rng SS) (p : Pdu) : Prop :=
  ∃ plain, c.dispatches E plain ∧ Pdu.ofBytes plain = p

/-- Every change of a slot is among the events, with what the PDU says. -/
structure SlotNews (heard : Pdu → Prop) (ch ch' : Channel) (evs : List Event) : Prop where
  debited : ch.state ≠ .unused → ch'.state ≠ .unused → ch'.recvWindow ≠ ch.recvWindow →
    ∃ payload, heard (.channelData ch.localId payload) ∧
      ch'.recvWindow.toNat + payload.length = ch.recvWindow.toNat ∧
      .channelData ch.localId payload ∈ evs
  pending : ch.state ≠ .pending → ch'.state = .pending →
    ∃ packet, heard (.channelOpen ch'.peerId ch'.sendWindow packet ch'.name) ∧
      .channelOpen ch'.localId ch'.peerId ch'.name ch'.sendWindow ch'.maxPacket ∈ evs
  opened : ch.state ≠ .open_ → ch'.state = .open_ →
    ∃ packet, heard (.channelOpenConfirm ch'.peerId ch'.localId ch'.sendWindow packet) ∧
      .channelOpened ch'.localId ch'.peerId ch'.name ch'.sendWindow ch'.maxPacket ∈ evs
  freed : ch.state ≠ .unused → ch'.state = .unused →
    heard (.channelOpenFail ch.localId) ∧ .channelOpenFail ch.localId ch.name ∈ evs ∨
    heard (.channelClose ch.localId) ∧ .channelClose ch.localId ∈ evs
  eof : ch.remoteEof = false → ch'.remoteEof →
    heard (.channelEof ch.localId) ∧ .channelEof ch.localId ∈ evs

theorem SlotNews.refl (heard : Pdu → Prop) (ch : Channel) (evs : List Event) :
    SlotNews heard ch ch evs := by
  refine ⟨fun _ _ h => absurd rfl h, fun h h' => absurd h' h, fun h h' => absurd h' h,
    fun h h' => absurd h' h, fun h h' => ?_⟩
  rw [h] at h'
  cases h'

def Entry.event? : Entry → Option Event
  | .event ev => some ev
  | _ => none

def Event.isData : Event → Bool
  | .channelData .. => true
  | _ => false

/-- What was stored was fetched or is in the queue, in order. -/
def Ctx.fifo (c : Ctx Rng SS) : Prop := c.queued = c.returned ++ c.events.toList

theorem Raises.fifo (h : Raises evs c c') (hc : c.fifo) : c'.fifo := by
  unfold Ctx.fifo at hc ⊢
  rw [h.queued, h.toList, h.returned, hc, List.append_assoc]

theorem popped_fifo {ev : Event} {r : RingBuffer Event} (h : c.events.pop = some (ev, r))
    (hc : c.fifo) :
    Ctx.fifo { c with events := r, hist := c.hist ++ [.returned ev] } := by
  obtain ⟨hl, -⟩ := RingBuffer.pop_eq_some h
  unfold Ctx.fifo Ctx.queued Ctx.returned at hc ⊢
  rw [List.filterMap_append, List.filterMap_append, hc, hl]
  simp [Occ.queued?, Occ.returned?]

theorem Moves.fifo {p : Powers} (h : Moves E p c c') (hc : c.fifo) : c'.fifo := by
  induction h with
  | refl => exact hc
  | @tail a b _ hm ih =>
    cases hm with
    | emit ev => exact (Raises.emit a ev).fifo ih
    | @push plain st ct =>
      exact (Raises.logged (l := [.sent plain, .appended (rawFrame ct)]) rfl rfl
        (by simp [Occ.event?]) : Raises [] a (a.pushed plain st ct)).fifo ih
    | pop h => exact popped_fifo h ih
    | log o ho =>
      refine (Raises.logged (l := [o]) rfl rfl ?_ : Raises [] a (a.log o)).fifo ih
      intro o' ho'
      obtain rfl := List.mem_singleton.mp ho'
      cases o' <;> first | rfl | cases ho
    | _ => exact ih

theorem call_fifo {k : Call} (hk : k.isPlain) (hc : c.fifo) : (call E c k).1.fifo := by
  have hlog : ∀ {d : Ctx Rng SS} {o : Occ}, o.event? = none → d.fifo → (d.log o).fifo :=
    fun {d o} ho hd => (Raises.logged (l := [o]) rfl rfl (by simpa using ho) :
      Raises [] d (d.log o)).fifo hd
  have hsame : ∀ {d e : Ctx Rng SS}, e.events = d.events → e.hist = d.hist → d.fifo → e.fifo :=
    fun he hh hd => (Raises.same he hh).fifo hd
  have hrecord : ∀ r : Ctx Rng SS × Rc, r.1.fifo → (record k r).1.fifo := by
    intro r hr
    unfold record
    split
    · exact hlog rfl hr
    · exact hr
  obtain ⟨n, rfl⟩ | ⟨accept, claims, -, he⟩ | ⟨reason, msg, rfl⟩ | hm := call_cases (E := E) hk c
  · obtain ⟨b, o, he⟩ := getOutput_eq c n
    simp only [Sodchan.call, he]
    exact hc
  · rw [he]
    refine hrecord _ ?_
    have htake : (takeDecision c accept).fifo :=
      hsame rfl rfl (hlog (o := .authDecided accept) rfl hc)
    have hd := authDecideEx_effect E c accept claims
    generalize authDecideEx E c accept claims = r at hd
    cases hd with
    | refused => exact hc
    | unsent c' msg _ hs =>
      exact (Raises.setError _ _).fifo ((hs ⟨True, True⟩).fifo htake)
    | accepted c' _ _ hs =>
      exact (Raises.emit _ _).fifo (hsame rfl rfl ((hs ⟨True, True⟩).fifo htake))
    | rejected c' msg msg' _ _ hs =>
      exact (Raises.setError _ _).fifo ((Raises.emit _ _).fifo ((hs ⟨True, True⟩).fifo htake))
  · refine hrecord _ ?_
    obtain he | he | ⟨d, -, -, hm, -, he⟩ := disconnect_cases E c reason msg <;> rw [he]
    · exact hc
    · exact hsame rfl rfl hc
    · exact hsame rfl rfl ((hm ⟨True, True⟩).fifo hc)
  · exact hm.fifo hc

/-- The queue is sound, and all data that was emitted was stored. -/
structure Handed (c : Ctx Rng SS) : Prop where
  fifo : c.fifo
  data : c.emitted.filter Event.isData = c.queued.filter Event.isData

namespace Handed

theorem round (h : Handed c) (hroom : HasRoom E c) : Handed (processOne E c).state := by
  obtain ⟨evs, hn, hr, -⟩ := processOne_raised E c
  have hall : evs.take c.vacant = evs := by
    refine List.take_of_length_le ?_
    unfold HasRoom at hroom
    unfold Ctx.vacant
    omega
  refine ⟨hr.fifo h.fifo, ?_⟩
  rw [hr.emitted, hr.queued, hall, List.filter_append, List.filter_append, h.data]

/-- A call raises no data. -/
theorem call_data {k : Call} (hk : k.isPlain) :
    ∃ l, (call E c k).1.hist = c.hist ++ l ∧
      ∀ o ∈ l, ∀ ev, o = .queued ev ∨ o = .dropped ev → ev.isData = false := by
  obtain ⟨a, hs, -, hd⟩ := call_obeys (E := E) hk c
  obtain ⟨l, hl, he⟩ := hd.hist
  refine ⟨l, hl, fun o ho ev hev => ?_⟩
  cases hdata : ev.isData with
  | false => rfl
  | true =>
    have hentry : o.toEntry = some (.event ev) := by
      cases ev with
      | channelData => rcases hev with rfl | rfl <;> rfl
      | _ => cases hdata
    have hmem : Entry.event ev ∈ a.entries c.terms c.table :=
      he ▸ List.mem_filterMap.mpr ⟨o, ho, hentry⟩
    cases a with
    | close i told =>
      simp only [Deed.entries] at hmem
      split at hmem <;> simp at hmem
    | accept i =>
      simp only [Deed.entries, List.mem_cons, reduceCtorEq, Entry.event.injEq, false_or,
        List.not_mem_nil, or_false] at hmem
      rw [hmem] at hdata
      cases hdata
    | offered | confirmed | failed | data | credit | eof | closed => exact absurd hs not_false
    | _ => simp [Deed.entries] at hmem

theorem call {k : Call} (h : Handed c) (hk : k.isPlain) : Handed (call E c k).1 := by
  constructor
  · exact call_fifo hk h.fifo
  · obtain ⟨l, hl, hdata⟩ := call_data (E := E) (c := c) hk
    have hnone : ∀ f : Occ → Option Event,
        (∀ o ev, f o = some ev → o = .queued ev ∨ o = .dropped ev) →
        (l.filterMap f).filter Event.isData = [] := by
      intro f hf
      refine List.filter_eq_nil_iff.mpr fun ev hev => ?_
      obtain ⟨o, ho, he⟩ := List.mem_filterMap.mp hev
      rw [hdata o ho ev (hf o ev he)]
      exact Bool.false_ne_true
    unfold Ctx.emitted Ctx.queued
    rw [hl, List.filterMap_append, List.filterMap_append, List.filter_append, List.filter_append,
      hnone Occ.emitted?, hnone Occ.queued?, List.append_nil, List.append_nil]
    · exact h.data
    · intro o ev ho
      cases o <;> first | cases ho; exact Or.inl rfl | cases ho
    · intro o ev ho
      cases o <;> cases ho
      · exact Or.inl rfl
      · exact Or.inr rfl

theorem fresh (hh : c.hist.filterMap Occ.event? = []) (he : c.events.toList = []) : Handed c := by
  have hl : ∀ o ∈ c.hist, o.event? = none := List.filterMap_eq_nil_iff.mp hh
  constructor
  · rw [Ctx.fifo, Ctx.queued, Ctx.returned, he,
      filterMap_eventless (fun _ => Occ.queued?_eq_none) hl,
      filterMap_eventless (fun _ => Occ.returned?_eq_none) hl]
    rfl
  · rw [Ctx.emitted, Ctx.queued, filterMap_eventless (fun _ => Occ.emitted?_eq_none) hl,
      filterMap_eventless (fun _ => Occ.queued?_eq_none) hl]

theorem started {d : Ctx Rng SS} (hh : d.hist = []) (he : d.events.toList = []) :
    Handed d.started := by
  unfold Ctx.started
  split
  · exact fresh (by simp [Ctx.withFrame, hh, Occ.event?]) he
  · exact fresh (by simp [hh]) he

theorem congr (h : Handed c) (he : c'.events = c.events) (hh : c'.hist = c.hist) : Handed c' := by
  obtain ⟨h1, h2⟩ := h
  constructor
  · unfold Ctx.fifo Ctx.queued Ctx.returned at h1 ⊢
    rw [hh, he, h1]
  · unfold Ctx.emitted Ctx.queued at h2 ⊢
    rw [hh, h2]

end Handed

end Sodchan
