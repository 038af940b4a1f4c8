import Sodchan.Model.Format
import Sodchan.Session.Silence

/-! # What an endpoint says

Every PDU that an endpoint sends is the encoding of a message that its role may
send at that time: an AUTH_DEVICE at the end of the handshake, the decision of a
server's host, whatever concerns channels once the session is open, a farewell.
-/

namespace Sodchan

open ByteString

variable {Rng SS : Type} {E : Env Rng SS} {c c' c'' : Ctx Rng SS} {r : Role} {b : Bytes}
  {P Q : Bytes → Prop}

/-- The messages of a role once the handshake is over. -/
def Message.saidBy (r : Role) : Message → Prop
  | .hello _ => False
  | .authDevice .. => r = .client
  | .authOk _ | .authFail .. => r = .server
  | _ => True

/-- The messages of an open session. -/
def Message.chats : Message → Bool
  | .hello _ | .authDevice .. | .authOk _ | .authFail .. | .disconnect .. => false
  | _ => true

/-- A PDU is the encoding of a message of a role. -/
def Phrased (r : Role) (b : Bytes) : Prop :=
  ∃ (x : Message) (cap : ℕ), x.encode cap = .ok b ∧ x.saidBy r

/-- A PDU is the encoding of a message of an open session. -/
def Chat (b : Bytes) : Prop := ∃ (x : Message) (cap : ℕ), x.encode cap = .ok b ∧ x.chats

structure Typed (r : Role) (t : UInt8) (b : Bytes) : Prop where
  phrased : Phrased r b
  head : b.headD 0 = t

theorem Message.saidBy_of_chats {x : Message} (h : x.chats) : x.saidBy r := by
  cases x with
  | hello | authDevice | authOk | authFail | disconnect => cases h
  | _ => trivial

theorem Message.head {x : Message} {cap : ℕ} {t : UInt8} (h : x.encode cap = .ok b)
    (ht : x.kind.pduType = some t) : b.headD 0 = t := by
  have htype := encode_type h (by
    intro hk
    rw [hk] at ht
    cases ht)
  rw [List.headD_eq_head?_getD, htype, ht]
  rfl

theorem Typed.encoded {x : Message} {cap : ℕ} {t : UInt8} (h : x.encode cap = .ok b)
    (hs : x.saidBy r) (ht : x.kind.pduType = some t) : Typed r t b :=
  ⟨⟨x, cap, h, hs⟩, Message.head h ht⟩

theorem Chat.phrased (h : Chat b) : Phrased r b := by
  obtain ⟨x, cap, he, hx⟩ := h
  exact ⟨x, cap, he, Message.saidBy_of_chats hx⟩

theorem Chat.head_ne (h : Chat b) : b.headD 0 ≠ pduAuthDevice ∧ b.headD 0 ≠ pduAuthOk ∧
    b.headD 0 ≠ pduAuthFail ∧ b.headD 0 ≠ pduDisconnect := by
  obtain ⟨x, cap, he, hx⟩ := h
  cases x with
  | hello | authDevice | authOk | authFail | disconnect => cases hx
  | _ =>
    rw [Message.head he rfl]
    decide

structure Worded (P : Bytes → Prop) (c c' : Ctx Rng SS) : Prop where
  role : c'.role = c.role
  sent : ∃ l, c'.sent = c.sent ++ l ∧ ∀ b ∈ l, P b

abbrev Wordless (c c' : Ctx Rng SS) : Prop := Worded (fun _ => False) c c'

namespace Worded

theorem refl (c : Ctx Rng SS) : Worded P c c := ⟨rfl, [], (List.append_nil _).symm, by simp⟩

theorem trans (h : Worded P c c') (h' : Worded P c' c'') : Worded P c c'' := by
  obtain ⟨l, hl, hP⟩ := h.sent
  obtain ⟨k, hk, hP'⟩ := h'.sent
  refine ⟨h'.role.trans h.role, l ++ k, ?_, fun b hb => ?_⟩
  · rw [hk, hl, List.append_assoc]
  · exact (List.mem_append.mp hb).elim (hP b) (hP' b)

theorem mono (h : Worded P c c') (hPQ : ∀ b, P b → Q b) : Worded Q c c' := by
  obtain ⟨l, hl, hP⟩ := h.sent
  exact ⟨h.role, l, hl, fun b hb => hPQ b (hP b hb)⟩

theorem sent_eq (h : Wordless c c') : c'.sent = c.sent := by
  obtain ⟨l, hl, hP⟩ := h.sent
  rw [hl, List.eq_nil_iff_forall_not_mem.mpr fun b hb => hP b hb, List.append_nil]

theorem logged {l : List Occ} (hr : c'.role = c.role) (hh : c'.hist = c.hist ++ l)
    (hl : ∀ o ∈ l, ∀ b, o.sent? = some b → P b) : Worded P c c' := by
  refine ⟨hr, l.filterMap Occ.sent?, ?_, fun b hb => ?_⟩
  · rw [Ctx.sent, hh, List.filterMap_append]
    rfl
  · obtain ⟨o, ho, he⟩ := List.mem_filterMap.mp hb
    exact hl o ho b he

theorem same (hr : c'.role = c.role) (hh : c'.hist = c.hist) : Worded P c c' :=
  logged (l := []) hr (by rw [hh, List.append_nil]) (by simp)

theorem log {o : Occ} (ho : o.sent? = none) : Worded P c (c.log o) :=
  logged rfl rfl (by simp [ho])

theorem emit (c : Ctx Rng SS) (ev : Event) : Worded P c (emit c ev) := by
  rw [emit_eq]
  refine logged rfl rfl fun o ho b hb => ?_
  rw [List.mem_singleton.mp ho] at hb
  rcases emitOcc_cases c ev with h | h <;> rw [h] at hb <;> cases hb

theorem setError (c : Ctx Rng SS) (code : Rc) (msg : String) :
    Worded P c (setError c code msg) := by
  have hc : Worded P c { c with
      error := if code = .ok then .protocol else code, state := .error, errorMsg := msg } :=
    same rfl rfl
  exact hc.trans (emit _ _)

theorem pushed (hb : P b) (st : SS) (ct : Bytes) : Worded P c (c.pushed b st ct) := by
  refine logged (l := [.sent b, .appended (rawFrame ct)]) rfl rfl fun o ho b' hb' => ?_
  rcases List.mem_pair.mp ho with rfl | rfl
  · cases hb'
    exact hb
  · cases hb'

theorem send (hb : P b) : Worded P c (ssSendPdu E c b).1 := by
  obtain ⟨st, ct, -, -, he⟩ | ⟨_, _, _, -, -, -, he⟩ := ssSendPdu_cases E c b <;> rw [he]
  · exact pushed hb st ct
  · exact same rfl rfl

theorem chFree (c : Ctx Rng SS) (i : Fin maxChannelSlots) : Worded P c (chFree c i) := by
  unfold Sodchan.chFree
  split
  · exact refl c
  · exact same rfl rfl

theorem record {k : Call} {p : Ctx Rng SS × Rc} (h : Worded P c p.1) :
    Worded P c (record k p).1 := by
  unfold Sodchan.record
  split
  · exact h.trans (log rfl)
  · exact h

theorem respected : Respected E False (@Worded Rng SS P) where
  refl := refl
  trans := trans
  emit := emit
  error c code msg _ := setError c code msg
  noChannel _ _ := log rfl
  slot _ _ _ := same rfl rfl
  free := chFree
  close _ := same rfl rfl
  send := False.elim
  alloc := False.elim

theorem openFail (sender reason : UInt32) {msg : Bytes} (hm : msg.length ≤ 54) :
    Worded Chat c (sendReply E c (Wire.channelOpenFailEncode sender reason msg 64)) := by
  unfold sendReply
  split
  · rename_i rc he
    unfold Wire.channelOpenFailEncode at he
    rw [if_neg (by omega), if_neg (by omega)] at he
    cases he
  · rename_i b hb
    exact send ⟨.channelOpenFail sender reason msg, _, hb, rfl⟩

theorem muxChannelOpen (plain : Bytes) : Worded Chat c (muxChannelOpen E c plain).1 := by
  unfold Sodchan.muxChannelOpen
  split
  · exact setError c _ _
  · dsimp only
    split
    · exact openFail _ _ (show (ascii "not allowed").length ≤ 54 by decide)
    · split
      · exact openFail _ _ (show ([] : Bytes).length ≤ 54 by decide)
      · rename_i d i ha
        obtain ⟨-, -, rfl⟩ := chAlloc_eq_some ha
        have hc : Worded Chat c (c.allocated i) := same rfl rfl
        exact hc.trans ((respected (E := E)).change i _ _)

theorem muxPing (plain : Bytes) : Worded Chat c (muxPing E c plain).1 := by
  unfold Sodchan.muxPing
  split
  · exact setError c _ _
  · rename_i word _
    dsimp only
    split
    · exact emit c _
    · rename_i b hb
      exact (emit c _).trans (send ⟨.pong word, _, hb, rfl⟩)

theorem handleMuxPdu (plain : Bytes) : Worded Chat c (handleMuxPdu E c plain).1 := by
  have h := respected (E := E) (P := Chat)
  unfold Sodchan.handleMuxPdu
  dsimp only
  split_ifs
  · exact muxChannelOpen plain
  · exact h.muxChannelOpenConfirm plain
  · exact h.muxChannelOpenFail plain
  · exact h.muxChannelData plain
  · exact h.muxChannelWindow plain
  · exact h.muxChannelEof plain
  · exact h.muxChannelClose plain
  · exact muxPing plain
  · exact refl c
  · exact h.muxDisconnect plain
  · exact setError c _ _

theorem channelOpen (name : Option Bytes) : Worded Chat c (channelOpen E c name).1 := by
  have halloc : ∀ (i : Fin maxChannelSlots) (ch : Channel),
      Worded Chat c (setCh (c.allocated i) i ch) :=
    fun _ _ => same rfl rfl
  unfold Sodchan.channelOpen
  split
  · exact refl c
  · split
    · exact refl c
    · split
      · exact refl c
      · split
        · exact refl c
        · split
          · exact refl c
          · split
            · exact refl c
            · rename_i d i ha
              obtain ⟨-, -, rfl⟩ := chAlloc_eq_some ha
              dsimp only
              split
              · exact (halloc i _).trans (chFree _ i)
              · rename_i pdu hpdu
                have hsend : ∀ ch, Worded Chat c (ssSendPdu E (setCh (c.allocated i) i ch) pdu).1 :=
                  fun ch => (halloc i ch).trans
                    (send ⟨.channelOpen _ _ _ _, _, hpdu, rfl⟩)
                split <;> rename_i d he <;> have hd := congrArg Prod.fst he <;>
                  dsimp only at hd ⊢ <;> rw [← hd]
                · exact hsend _
                · exact (hsend _).trans (chFree _ i)

theorem channelAccept (id : UInt32) (accept : Bool) :
    Worded Chat c (channelAccept E c id accept).1 := by
  unfold Sodchan.channelAccept
  split
  · exact refl c
  · split
    · exact refl c
    · dsimp only
      split
      · exact refl c
      · split
        · exact refl c
        · split
          · split
            · exact refl c
            · rename_i pdu hpdu
              have hsend := send (E := E) (c := c) (P := Chat)
                ⟨.channelOpenConfirm _ _ _ _, _, hpdu, rfl⟩
              split <;> rename_i he <;> rw [he] at hsend
              · exact hsend.trans ((respected (E := E)).change _ _ _)
              · exact hsend
          · split
            · exact refl c
            · rename_i pdu hpdu
              have hsend := send (E := E) (c := c) (P := Chat)
                ⟨.channelOpenFail _ _ _, _, hpdu, rfl⟩
              split <;> rename_i he <;> rw [he] at hsend
              · exact hsend.trans (chFree _ _)
              · exact hsend

theorem channelSend (id : UInt32) (data : Arg) (memOk : Bool) :
    Worded Chat c (channelSend E c id data memOk).1 := by
  unfold Sodchan.channelSend
  split
  · exact refl c
  · split
    · exact refl c
    · split
      · exact refl c
      · dsimp only
        split_ifs
        all_goals first | exact refl c | skip
        split
        · exact refl c
        · rename_i pdu hpdu
          have hsend := send (E := E) (c := c) (P := Chat)
            ⟨.channelData _ _, _, hpdu, rfl⟩
          split <;> rename_i he <;> rw [he] at hsend
          · exact hsend.trans (same rfl rfl)
          · exact hsend

theorem channelEof (id : UInt32) : Worded Chat c (channelEof E c id).1 := by
  unfold Sodchan.channelEof
  split
  · exact refl c
  · split
    · exact refl c
    · dsimp only
      split
      · exact refl c
      · split
        · exact refl c
        · split
          · exact refl c
          · rename_i pdu hpdu
            have hsend := send (E := E) (c := c) (P := Chat)
              ⟨.channelEof _, _, hpdu, rfl⟩
            split <;> rename_i he <;> rw [he] at hsend
            · exact hsend.trans (same rfl rfl)
            · exact hsend

theorem sendClose (ch : Channel) : Worded Chat c (sendClose E c ch) := by
  unfold Sodchan.sendClose
  split
  · split
    · exact refl c
    · rename_i b hb
      exact send ⟨.channelClose ch.peerId, _, hb, rfl⟩
  · exact refl c

theorem channelClose (id : UInt32) : Worded Chat c (channelClose E c id).1 := by
  unfold Sodchan.channelClose
  split
  · exact refl c
  · split
    · exact refl c
    · dsimp only
      split
      · exact refl c
      · exact (sendClose _).trans (chFree _ _)

theorem channelWindowAdjust (id credit : UInt32) :
    Worded Chat c (channelWindowAdjust E c id credit).1 := by
  unfold Sodchan.channelWindowAdjust
  split
  · exact refl c
  · split
    · exact refl c
    · split
      · exact refl c
      · dsimp only
        split
        · exact refl c
        · split
          · exact refl c
          · rename_i pdu hpdu
            have hsend := send (E := E) (c := c) (P := Chat)
              ⟨.channelWindow _ _, _, hpdu, rfl⟩
            split <;> rename_i he <;> rw [he] at hsend
            · exact hsend.trans (same rfl rfl)
            · exact hsend

theorem nextEvent (c : Ctx Rng SS) : Worded P c (nextEvent c).1 := by
  unfold Sodchan.nextEvent
  split
  · exact refl c
  · rename_i ev r _
    exact logged (l := [.returned ev]) rfl rfl (by simp [Occ.sent?])

theorem call {k : Call} (hk : k.isPlain) (ho : ∀ n, k ≠ .getOutput n) (hd : k.isDecide = false)
    (hq : ∀ reason msg, k ≠ .disconnect reason msg) : Worded Chat c (call E c k).1 := by
  cases k with
  | feedInput | reset => cases hk
  | authDecide | authDecideEx => cases hd
  | getOutput n => exact absurd rfl (ho n)
  | disconnect reason msg => exact absurd rfl (hq reason msg)
  | nextEvent => exact nextEvent c
  | channelOpen name => exact record (channelOpen name)
  | channelAccept id accept => exact record (channelAccept id accept)
  | channelSend id data m => exact record (channelSend id data m)
  | channelEof id => exact record (channelEof id)
  | channelClose id => exact record (channelClose id)
  | channelWindowAdjust id credit => exact record (channelWindowAdjust id credit)

end Worded

def Ctx.left (c : Ctx Rng SS) : Prop := ∃ reason msg, .disconnect reason msg ∈ c.calls

/-- What an endpoint says in one step, and when. -/
inductive Says (c c' : Ctx Rng SS) : Prop where
  | nothing : Wordless c c' → Says c c'
  | chat : Worded Chat c c' → c.state = .ready ∨ c.state = .draining → Says c c'
  | farewell : Worded (Typed c.role pduDisconnect) c c' → c'.left →
      c'.state = .draining ∨ c'.ended → Says c c'
  | refusal : c.role = .server → c.state = .auth → Worded (Typed .server pduAuthFail) c c' →
      c'.ended → Says c c'
  | proof (b : Bytes) : c.role = .client → c.hs = .waitPeerSs → c'.role = .client →
      c'.sent = c.sent ++ [b] → Typed .client pduAuthDevice b → ¬ c'.ended → Says c c'
  | approval (b : Bytes) : c.role = .server → c.state = .auth → c'.role = .server →
      c'.sent = c.sent ++ [b] → Typed .server pduAuthOk b → c'.authComplete → Says c c'

namespace Says

theorem role (h : Says c c') : c'.role = c.role := by
  cases h with
  | nothing h | chat h | farewell h | refusal _ _ h => exact h.role
  | proof _ hr _ hr' | approval _ hr _ hr' => exact hr'.trans hr.symm

/-- Every PDU is the encoding of a message of the role. -/
theorem phrased (h : Says c c') : ∃ l, c'.sent = c.sent ++ l ∧ ∀ b ∈ l, Phrased c.role b := by
  cases h with
  | nothing h => exact (h.mono fun _ hb => hb.elim).sent
  | chat h => exact (h.mono fun _ hb => hb.phrased).sent
  | farewell h => exact (h.mono fun _ hb => hb.phrased).sent
  | refusal hr _ h => exact (h.mono fun _ hb => hr ▸ hb.phrased).sent
  | proof b hr _ _ hs hb | approval b hr _ _ hs hb =>
    refine ⟨[b], hs, fun x hx => ?_⟩
    rw [List.mem_singleton.mp hx, hr]
    exact hb.phrased

theorem before (h : Wordless c c') (hst : c'.state = c.state) (hhs : c'.hs = c.hs)
    (h' : Says c' c'') : Says c c'' := by
  have hcast : ∀ {P : Bytes → Prop}, Worded P c' c'' → Worded P c c'' := fun hw =>
    (h.mono fun _ hb => hb.elim).trans hw
  cases h' with
  | nothing h' => exact .nothing (hcast h')
  | chat h' hs => exact .chat (hcast h') (hst ▸ hs)
  | farewell h' hl hs => exact .farewell (hcast (h.role ▸ h')) hl hs
  | refusal hr hs h' he => exact .refusal (h.role ▸ hr) (hst ▸ hs) (hcast h') he
  | proof b hr hs hr' hb ht hl =>
    exact .proof b (h.role ▸ hr) (hhs ▸ hs) hr' (h.sent_eq ▸ hb) ht hl
  | approval b hr hs hr' hb ht hc =>
    exact .approval b (h.role ▸ hr) (hst ▸ hs) hr' (h.sent_eq ▸ hb) ht hc

theorem after (h : Says c c') (h' : Wordless c' c'') (hst : c''.state = c'.state)
    (hl : c'.left → c''.left) (hc : c'.authComplete → c''.authComplete) : Says c c'' := by
  have hcast : ∀ {P : Bytes → Prop}, Worded P c c' → Worded P c c'' := fun hw =>
    hw.trans (h'.mono fun _ hb => hb.elim)
  have hend : c''.ended ↔ c'.ended := by rw [Ctx.ended, Ctx.ended, hst]
  cases h with
  | nothing h => exact .nothing (hcast h)
  | chat h hs => exact .chat (hcast h) hs
  | farewell h hx hs =>
    exact .farewell (hcast h) (hl hx) (hs.imp (fun h => hst.trans h) hend.mpr)
  | refusal hr hs h hx => exact .refusal hr hs (hcast h) (hend.mpr hx)
  | proof b hr hs hr' hb ht hx =>
    exact .proof b hr hs (h'.role.trans hr') (h'.sent_eq.trans hb) ht fun he => hx (hend.mp he)
  | approval b hr hs hr' hb ht hx =>
    exact .approval b hr hs (h'.role.trans hr') (h'.sent_eq.trans hb) ht (hc hx)

end Says

end Sodchan
