import Sodchan.Channel.Deals
import Sodchan.Session.Lifecycle

/-! # Every step is a deed

The turns of the session leave the table alone, a round does the deed of the
PDU that it takes, and a call does the deed it asks for. Whatever holds of the
table after every deed therefore holds of every reachable context.
-/

namespace Sodchan

open ByteString

variable {Rng SS : Type} {E : Env Rng SS} {c c' c'' : Ctx Rng SS} {a : Deed}

namespace Rest

theorem withFrame (body : Bytes) : Rest [] c (c.withFrame body) :=
  ⟨rfl, rfl, rfl, [.appended (rawFrame body)], rfl, rfl⟩

theorem enter (s : State) (h : Hs) : Rest [] c (c.enter s h) := same rfl rfl rfl rfl

theorem withC2s (kc : Key) : Rest [] c (c.withC2s kc) := same rfl rfl rfl rfl

theorem withKeys (kc ks : Key) : Rest [] c (c.withKeys kc ks) := same rfl rfl rfl rfl

theorem withPush (st : SS) (rng : Rng) : Rest [] c (c.withPush st rng) := same rfl rfl rfl rfl

theorem withPull (st : SS) : Rest [] c (c.withPull st) := same rfl rfl rfl rfl

theorem compacted : Rest [] c c.compacted := same rfl rfl rfl rfl

theorem transcript : Rest [] c (serverTranscript c) := same rfl rfl rfl rfl

theorem headerLost (h : HeaderLost c c') : Rest [] c c' := by
  cases h with
  | noState rng => exact same rfl rfl rfl rfl
  | noRoom st rng => exact (withPush st rng).then_ compacted

theorem takeHello (h : Wire.Hello) : Rest [] c (clientTakeHello c h) := by
  rw [clientTakeHello_eq]
  exact same rfl rfl rfl rfl

theorem verifiedServer (h : Wire.Hello) : Rest [] c (c.verifiedServer h) := by
  unfold Ctx.verifiedServer emitHelloReceived
  exact (takeHello h).then_ ((log (.helloVerified h)).then_ (event _ rfl))

theorem sawClient (h : Wire.Hello) : Rest [] c (c.sawClient h) := by
  have htake : Rest [] c (serverTakeHello c h) := by
    rw [serverTakeHello_eq]
    exact same rfl rfl rfl rfl
  unfold Ctx.sawClient emitHelloReceived
  exact htake.then_ (event _ rfl)

theorem helloQueued (sig : Sig) : Rest [] c (c.helloQueued sig) := by
  unfold Ctx.helloQueued
  exact transcript.then_ (withFrame _)

theorem clientKx (st : SS) : Rest [] c (c.clientKx st) := by
  unfold Ctx.clientKx emitKxComplete
  exact (withPull st).then_ ((enter _ _).then_ (event _ rfl))

end Rest

theorem clientHandleHello_rest (h : Wire.Hello) : Rest [] c (clientHandleHello E c h).1 := by
  have he := clientHandleHello_effect E c h
  generalize clientHandleHello E c h = r at he
  cases he with
  | refused msg => exact .failed _ msg
  | forged msg => exact (Rest.takeHello h).then_ (.failed _ msg)
  | keyless kc msg =>
    exact (Rest.verifiedServer h).then_ ((Rest.withC2s kc).then_ (.failed _ msg))
  | stuck kc ks c' msg _ hl =>
    exact (Rest.verifiedServer h).then_ ((Rest.withKeys kc ks).then_
      ((Rest.headerLost hl).then_ (.failed _ msg)))
  | accepted kc ks st header rng =>
    exact (Rest.verifiedServer h).then_ ((Rest.withKeys kc ks).then_ ((Rest.withPush st rng).then_
      ((Rest.withFrame header.val).then_ (.enter _ _))))

theorem serverHandleHello_rest (hr : c.role = .server) (h : Wire.Hello) :
    Rest [] c (serverHandleHello E c h).1 := by
  have he := serverHandleHello_effect E hr h
  generalize serverHandleHello E c h = r at he
  have hsaw := Rest.sawClient (c := c) h
  cases he with
  | refused msg => exact .failed _ msg
  | unsigned msg => exact hsaw.then_ (Rest.transcript.then_ (.failed _ msg))
  | noRoom msg => exact hsaw.then_ (Rest.transcript.then_ (Rest.compacted.then_ (.failed _ msg)))
  | keyless sig kc msg =>
    exact hsaw.then_ ((Rest.helloQueued sig).then_ ((Rest.withC2s kc).then_ (.failed _ msg)))
  | accepted sig kc ks =>
    exact hsaw.then_ ((Rest.helloQueued sig).then_ ((Rest.withKeys kc ks).then_ (.enter _ _)))

theorem handlePeerHello_rest (body : Bytes) : Rest [] c (handlePeerHello E c body).1 := by
  unfold handlePeerHello
  split
  · exact .failed _ _
  · split
    · exact clientHandleHello_rest _
    · rename_i hr
      exact serverHandleHello_rest hr _

/-- An AUTH_DEVICE of a client: its identity key, and the username and the device id that it is
configured with, as far as they are stored. -/
def Settings.Proves (s : Settings) (pdu : Bytes) : Prop :=
  ∃ sig, Wire.authDeviceEncode s.clientIdPk sig ((s.clientUsername.getD []).take userMax)
    ((s.clientDeviceId.getD []).take deviceIdMax) 512 = .ok pdu

theorem ofSent_authDevice {pk : Key} {sig : Sig} {user dev : Bytes} {cap : ℕ} {b : Bytes}
    (h : Wire.authDeviceEncode pk sig user dev cap = .ok b) :
    Entry.ofSent b = some (.proof b) := by
  unfold Wire.authDeviceEncode at h
  split_ifs at h
  rw [← Except.ok.inj h]
  rfl

theorem ofSent_authOk {claims : Bytes} {cap : ℕ} {b : Bytes}
    (h : Wire.authOkEncode claims cap = .ok b) : Entry.ofSent b = none := by
  unfold Wire.authOkEncode at h
  split_ifs at h
  rw [← Except.ok.inj h]
  exact ofSent_none (by simp [pduAuthOk]) (by simp [pduAuthOk, pduAuthDevice])

theorem ofSent_authFail {cap : ℕ} {b : Bytes} (h : Wire.authFailEncode cap = .ok b) :
    Entry.ofSent b = none := by
  unfold Wire.authFailEncode at h
  split_ifs at h
  rw [← Except.ok.inj h]
  exact ofSent_none (by simp [pduAuthFail]) (by simp [pduAuthFail, pduAuthDevice])

theorem ofSent_pong {w : UInt32} {cap : ℕ} {b : Bytes} (h : Wire.pongEncode w cap = .ok b) :
    Entry.ofSent b = none := by
  unfold Wire.pongEncode Wire.wordEncode at h
  split_ifs at h
  rw [← Except.ok.inj h]
  exact ofSent_none (by simp [pduPong]) (by simp [pduPong, pduAuthDevice])

theorem ofSent_disconnect {reason : UInt32} {msg : Bytes} {cap : ℕ} {b : Bytes}
    (h : Wire.disconnectEncode reason msg cap = .ok b) : Entry.ofSent b = none := by
  unfold Wire.disconnectEncode at h
  split_ifs at h
  rw [← Except.ok.inj h]
  exact ofSent_none (by simp [pduDisconnect]) (by simp [pduDisconnect, pduAuthDevice])

/-- A step outside the channel layer: it says nothing, or sends the device proof. -/
def Resting (c c' : Ctx Rng SS) : Prop :=
  Rest [] c c' ∨ ∃ pdu, c.settings.Proves pdu ∧ Rest [.proof pdu] c c'

theorem clientHandleSsHeader_rest (header : SsHeader) :
    Resting c (clientHandleSsHeader E c header).1 := by
  have he := clientHandleSsHeader_effect E c header
  generalize clientHandleSsHeader E c header = r at he
  cases he with
  | refused msg => exact Or.inl (.failed _ msg)
  | unsent st c' msg _ hc =>
    have hc' : Rest [] (c.clientKx st) c' := by
      rcases hc with rfl | rfl
      · exact .refl _
      · exact .compacted
    exact Or.inl ((Rest.clientKx st).then_ (hc'.then_ (.failed _ msg)))
  | silent st => exact Or.inl (.clientKx st)
  | sent st pdu st' ct _ hp =>
    obtain ⟨user, dev, tAuth, sig, hu, hd, -, -, henc⟩ := hp.signed
    have hkx := Rest.clientKx (c := c) st
    have hs : Rest [.proof pdu] (c.clientKx st) ((c.clientKx st).pushed pdu st' ct) := by
      have h : Rest (Entry.ofSent pdu).toList (c.clientKx st) ((c.clientKx st).pushed pdu st' ct) :=
        .pushed
      rwa [ofSent_authDevice henc] at h
    have ha : ∀ d : Ctx Rng SS, Rest [] d { d with authSent := true } := fun _ =>
      .same rfl rfl rfl rfl
    refine Or.inr ⟨pdu, ⟨sig, ?_⟩, hkx.trans (hs.trans (ha _))⟩
    rw [hu, hd] at henc
    rw [← hkx.settings]
    exact henc

theorem serverHandleSsHeader_rest (header : SsHeader) :
    Rest [] c (serverHandleSsHeader E c header).1 := by
  have he := serverHandleSsHeader_effect E c header
  generalize serverHandleSsHeader E c header = r at he
  cases he with
  | refused msg => exact .failed _ msg
  | stuck st c' msg hl =>
    exact (Rest.withPull st).then_ ((Rest.headerLost hl).then_ (.failed _ msg))
  | accepted st st' own rng =>
    exact (Rest.withPull st).then_ ((Rest.withPush st' rng).then_ ((Rest.withFrame own.val).then_
      ((Rest.enter _ _).then_ (.event .kxComplete rfl))))

theorem handlePeerSsHeader_rest (body : Bytes) :
    Resting c (handlePeerSsHeader E c body).1 := by
  unfold handlePeerSsHeader
  split
  · split
    · exact clientHandleSsHeader_rest _
    · exact Or.inl (serverHandleSsHeader_rest _)
  · exact Or.inl (.failed _ _)

theorem serverSendAuthFail_rest : Rest [] c (serverSendAuthFail E c).1 := by
  unfold serverSendAuthFail
  split
  · exact .refl c
  · rename_i h
    exact .send_other E c (ofSent_authFail h)

theorem serverSendAuthOk_rest (claims : Bytes) : Rest [] c (serverSendAuthOk E c claims).1 := by
  unfold serverSendAuthOk
  split
  · exact .refl c
  · rename_i h
    exact .send_other E c (ofSent_authOk h)

theorem handleAuthDevicePdu_rest (plain : Bytes) : Rest [] c (handleAuthDevicePdu E c plain).1 := by
  have he := handleAuthDevicePdu_effect E c plain
  generalize handleAuthDevicePdu E c plain = r at he
  cases he with
  | refused code msg => exact .failed code msg
  | forged msg msg' =>
    exact (Rest.log .authBadSig).then_ (serverSendAuthFail_rest.then_
      ((Rest.event (.authFailed .badSig msg) rfl).then_ (.failed _ msg')))
  | accepted d user device =>
    obtain ⟨ev, r, ⟨e, he, hev⟩, ht⟩ := takeAuthDevice_eq E c d user device
    rw [ht]
    refine ⟨rfl, rfl, rfl, [ev, .authDevice d.clientIdPk d.clientSig user device], rfl, ?_⟩
    rcases hev with rfl | rfl <;> simp [Occ.toEntry, he]

theorem handleAuthOkPdu_rest (plain : Bytes) : Rest [] c (handleAuthOkPdu c plain).1 := by
  have he := handleAuthOkPdu_effect c plain
  generalize handleAuthOkPdu c plain = r at he
  cases he with
  | refused msg => exact .failed _ msg
  | accepted =>
    have h : Rest [] c { c with authComplete := true, state := .ready } := .same rfl rfl rfl rfl
    exact h.then_ (.event .authenticated rfl)

theorem handleAuthFailPdu_rest (plain : Bytes) : Rest [] c (handleAuthFailPdu c plain).1 := by
  unfold handleAuthFailPdu
  split
  · exact .failed _ _
  · exact (Rest.event (.authFailed .unspec "AUTH_FAIL received") rfl).then_ (.failed _ _)

theorem authDecideEx_rest (accept : Bool) (claims : Arg) :
    Rest [] c (authDecideEx E c accept claims).1 := by
  have hd : Rest [] c (takeDecision c accept) :=
    (Rest.log (.authDecided accept)).then_ (.same rfl rfl rfl rfl)
  have hok := hd.then_ (serverSendAuthOk_rest (E := E) claims.data)
  have hno := hd.then_ (serverSendAuthFail_rest (E := E))
  unfold authDecideEx
  split_ifs
  · exact .refl c
  · exact .refl c
  · exact .refl c
  · exact .refl c
  · exact .refl c
  · split <;> rename_i h <;> rw [h] at hok
    · have hr : ∀ d : Ctx Rng SS, Rest [] d { d with authComplete := true, state := .ready } :=
        fun d => .same rfl rfl rfl rfl
      exact hok.then_ ((hr _).then_ (.event .authenticated rfl))
    · exact hok.then_ (.failed _ _)
  · split <;> rename_i h <;> rw [h] at hno
    · exact hno.then_ ((Rest.event _ rfl).then_ (.failed _ _))
    · exact hno.then_ (.failed _ _)

/-! ### Rounds -/

/-- What a PDU does: nothing, or a deed that it can bring about, in a state with channels. -/
def Answers (c c' : Ctx Rng SS) (p : Pdu) (a : Deed) : Prop :=
  a.Takes c.table p ∧ (a = .idle ∨ c.state = .ready ∨ c.state = .draining) ∧ Deals c c' a

theorem muxPing_rest (plain : Bytes) : Rest [] c (muxPing E c plain).1 := by
  unfold muxPing
  split
  · exact .failed _ _
  · dsimp only
    split
    · exact .event .ping rfl
    · rename_i h
      exact (Rest.event .ping rfl).then_ (.send_other E _ (ofSent_pong h))

theorem muxDisconnect_rest (plain : Bytes) : Rest [] c (muxDisconnect c plain).1 := by
  unfold muxDisconnect
  split
  · exact .failed _ _
  · have h : ∀ d : Ctx Rng SS, Rest [] d { d with state := .closed } := fun _ =>
      .same rfl rfl rfl rfl
    exact (Rest.event _ rfl).then_ (h _)

theorem handleMuxPdu_heeds (plain : Bytes) :
    Heeds c (handleMuxPdu E c plain).1 (Pdu.ofBytes plain) := by
  unfold handleMuxPdu
  dsimp only
  by_cases h1 : plain.headD 0 = pduChannelOpen
  · rw [if_pos h1]
    exact muxChannelOpen_heeds h1
  by_cases h2 : plain.headD 0 = pduChannelOpenConfirm
  · rw [if_neg h1, if_pos h2]
    exact muxChannelOpenConfirm_heeds h2
  by_cases h3 : plain.headD 0 = pduChannelOpenFail
  · rw [if_neg h1, if_neg h2, if_pos h3]
    exact muxChannelOpenFail_heeds h3
  by_cases h4 : plain.headD 0 = pduChannelData
  · rw [if_neg h1, if_neg h2, if_neg h3, if_pos h4]
    exact muxChannelData_heeds h4
  by_cases h5 : plain.headD 0 = pduChannelWindow
  · rw [if_neg h1, if_neg h2, if_neg h3, if_neg h4, if_pos h5]
    exact muxChannelWindow_heeds h5
  by_cases h6 : plain.headD 0 = pduChannelEof
  · rw [if_neg h1, if_neg h2, if_neg h3, if_neg h4, if_neg h5, if_pos h6]
    exact muxChannelEof_heeds h6
  by_cases h7 : plain.headD 0 = pduChannelClose
  · rw [if_neg h1, if_neg h2, if_neg h3, if_neg h4, if_neg h5, if_neg h6, if_pos h7]
    exact muxChannelClose_heeds h7
  rw [if_neg h1, if_neg h2, if_neg h3, if_neg h4, if_neg h5, if_neg h6, if_neg h7]
  have hother : Pdu.ofBytes plain = .other := by
    unfold Pdu.ofBytes
    dsimp only
    rw [if_neg h1, if_neg h2, if_neg h3, if_neg h5, if_neg h4, if_neg h6, if_neg h7]
  have hrest : ∀ {d : Ctx Rng SS}, Rest [] c d → Heeds c d (Pdu.ofBytes plain) :=
    fun h => h.idle (Or.inl (hother ▸ trivial))
  split_ifs
  · exact hrest (muxPing_rest plain)
  · exact hrest (.refl c)
  · exact hrest (muxDisconnect_rest plain)
  · exact hrest (.failed _ _)

theorem handleMuxPdu_answers (hst : c.state = .ready ∨ c.state = .draining) (plain : Bytes) :
    ∃ a, Answers c (handleMuxPdu E c plain).1 (Pdu.ofBytes plain) a := by
  obtain ⟨a, ha, hd, -⟩ := handleMuxPdu_heeds (E := E) (c := c) plain
  exact ⟨a, ha, Or.inr hst, hd⟩

/-- The tags of the records that are dispatched. -/
def Dispatched (tag : UInt8) : Prop := tag ≠ tagFinal ∧ tag ≠ tagRekey

instance (tag : UInt8) : Decidable (Dispatched tag) := inferInstanceAs (Decidable (_ ∧ _))

theorem handlePlain_answers (plain : Bytes) (tag : UInt8) :
    ∃ a, Answers c (handlePlain E c plain tag).1 (Pdu.ofBytes plain) a ∧
      (a = .idle ∨ Dispatched tag) := by
  have hrest : ∀ {d : Ctx Rng SS}, Rest [] c d →
      ∃ a, Answers c d (Pdu.ofBytes plain) a ∧ (a = .idle ∨ Dispatched tag) :=
    fun h => ⟨.idle, ⟨trivial, Or.inl rfl, h.deals⟩, Or.inl rfl⟩
  unfold handlePlain
  split
  · have h : ∀ d : Ctx Rng SS, Rest [] d { d with state := .closed } := fun _ =>
      .same rfl rfl rfl rfl
    exact hrest ((Rest.event (.disconnected 0 []) rfl).then_ (h _))
  · rename_i hfinal
    split
    · exact hrest (.refl c)
    · rename_i hrekey
      split
      · exact hrest (.refl c)
      · split
        · exact hrest (.failed _ _)
        · split
          · split_ifs
            · exact hrest (handleAuthDevicePdu_rest plain)
            · exact hrest (handleAuthOkPdu_rest plain)
            · exact hrest (handleAuthFailPdu_rest plain)
            · exact hrest (.failed _ _)
          · split
            · rename_i hst
              obtain ⟨a, ha⟩ := handleMuxPdu_answers (E := E) hst plain
              exact ⟨a, ha, Or.inr ⟨hfinal, hrekey⟩⟩
            · exact hrest (.failed _ _)

theorem Rest.pulled {st : SS} {ct plain : Bytes} {tag : UInt8} :
    Rest ((Pdu.ofChannel plain).map Entry.took).toList c (c.afterPull st ct plain tag) := by
  refine ⟨rfl, rfl, rfl, [.pulled ct plain tag], rfl, ?_⟩
  cases h : Pdu.ofChannel plain <;> simp [Occ.toEntry, h]

/-- A round takes no PDU and rests, or takes one and answers it. -/
inductive RoundDeed (c c' : Ctx Rng SS) : Deed → Prop where
  | rest : Resting c c' → RoundDeed c c' .idle
  | took {d : Ctx Rng SS} (plain : Bytes) (a : Deed) :
      Rest ((Pdu.ofChannel plain).map Entry.took).toList c d → d.state = c.state →
      Answers d c' (Pdu.ofBytes plain) a → RoundDeed c c' a

theorem Resting.after (h : Resting c c') (hr : Rest [] c' c'') : Resting c c'' := by
  obtain h | ⟨pdu, hp, h⟩ := h
  · exact Or.inl (h.then_ hr)
  · exact Or.inr ⟨pdu, hp, h.trans hr⟩

theorem Resting.before (hr : Rest [] c c') (h : Resting c' c'') : Resting c c'' := by
  obtain h | ⟨pdu, hp, h⟩ := h
  · exact Or.inl (hr.then_ h)
  · exact Or.inr ⟨pdu, hr.settings ▸ hp, hr.trans h⟩

theorem RoundDeed.after (h : RoundDeed c c' a) (hr : Rest [] c' c'') : RoundDeed c c'' a := by
  cases h with
  | rest h => exact .rest (h.after hr)
  | took plain a h hst ha => exact .took plain a h hst ⟨ha.1, ha.2.1, ha.2.2.rest hr⟩

theorem RoundDeed.before (hr : Rest [] c c') (hs : c'.state = c.state) (h : RoundDeed c' c'' a) :
    RoundDeed c c'' a := by
  cases h with
  | rest h => exact .rest (h.before hr)
  | took plain a h hst ha => exact .took plain a (hr.trans h) (hst.trans hs) ha

/-- The next record, if it is one that is dispatched, has this plaintext. -/
def Ctx.dispatches (E : Env Rng SS) (c : Ctx Rng SS) (plain : Bytes) : Prop :=
  ∃ k body st tag, parseInput E c = .ok (k, body) ∧
    E.ssPull c.ssPull body = some (st, plain, tag) ∧ Dispatched tag

/-- The plaintext of the next record, if that is one that is dispatched. -/
def Ctx.dispatched (E : Env Rng SS) (c : Ctx Rng SS) : Option Bytes :=
  match parseInput E c with
  | .error _ => none
  | .ok (_, body) =>
    match E.ssPull c.ssPull body with
    | none => none
    | some (_, plain, tag) => if Dispatched tag then some plain else none

theorem Ctx.dispatches_iff {plain : Bytes} :
    c.dispatches E plain ↔ c.dispatched E = some plain := by
  unfold Ctx.dispatches Ctx.dispatched
  constructor
  · rintro ⟨k, body, st, tag, hp, hs, ht⟩
    simp [hp, hs, ht]
  · intro h
    split at h
    · cases h
    · rename_i k body hp
      split at h
      · cases h
      · rename_i st p tag hs
        obtain ⟨ht, hplain⟩ := Option.ite_none_right_eq_some.mp h
        obtain rfl := Option.some.inj hplain
        exact ⟨k, body, st, tag, hp, hs, ht⟩

instance {P : Bytes → Prop} [DecidablePred P] :
    Decidable (∀ plain, c.dispatches E plain → P plain) :=
  decidable_of_iff (∀ plain ∈ c.dispatched E, P plain)
    (forall_congr' fun _ => imp_congr_left Ctx.dispatches_iff.symm)

/-- The record is dispatched with this plaintext, within all limits of the record layer. -/
structure Ctx.Pulls (E : Env Rng SS) (c : Ctx Rng SS) (body plain : Bytes) : Prop where
  done : c.hs = .done
  ready : c.ssPullReady
  fits : PlainFits c body
  pull : ∃ st tag, E.ssPull c.ssPull body = some (st, plain, tag) ∧ Dispatched tag

structure Ctx.Delivers (E : Env Rng SS) (c : Ctx Rng SS) (body plain : Bytes) : Prop where
  frame : ∃ k, parseInput E c = .ok (k, body)
  pulls : c.Pulls E body plain

theorem Ctx.Delivers.dispatches {body plain : Bytes} (h : c.Delivers E body plain) :
    c.dispatches E plain := by
  obtain ⟨⟨k, hk⟩, -, -, -, st, tag, hp, ht⟩ := h
  exact ⟨k, body, st, tag, hk, hp, ht⟩

theorem handleFrame_deed (body : Bytes) : ∃ a, RoundDeed c (handleFrame E c body).1 a ∧
    (a = .idle ∨ ∃ plain, c.Pulls E body plain ∧ a.Takes c.table (Pdu.ofBytes plain)) := by
  unfold handleFrame
  split
  · exact ⟨.idle, .rest (Or.inl (handlePeerHello_rest body)), Or.inl rfl⟩
  · exact ⟨.idle, .rest (handlePeerSsHeader_rest body), Or.inl rfl⟩
  · rename_i hdone
    obtain ⟨code, msg, h⟩ | ⟨st, plain, tag, hready, hfits, hpull, h⟩ :=
      handleEncryptedPdu_cases E c body <;> rw [h]
    · exact ⟨.idle, .rest (Or.inl (.failed code msg)), Or.inl rfl⟩
    · obtain ⟨a, ha, htag⟩ :=
        handlePlain_answers (E := E) (c := c.afterPull st body plain tag) plain tag
      exact ⟨a, .took plain a Rest.pulled rfl ha,
        htag.imp_right fun ht => ⟨plain, ⟨hdone, hready, hfits, st, tag, hpull, ht⟩, ha.1⟩⟩
  · exact ⟨.idle, .rest (Or.inl (.failed _ _)), Or.inl rfl⟩

theorem processOne_deed (E : Env Rng SS) (c : Ctx Rng SS) :
    ∃ a, RoundDeed c (processOne E c).state a ∧
      (a = .idle ∨ ∃ body plain, c.Delivers E body plain ∧
        a.Takes c.table (Pdu.ofBytes plain)) := by
  obtain ⟨-, h⟩ | ⟨-, -, -, h⟩ | ⟨k, body, d, -, -, hp, h⟩ := processOne_cases E c
  · rw [h]
    exact ⟨.idle, .rest (Or.inl (.refl c)), Or.inl rfl⟩
  · rw [h]
    exact ⟨.idle, .rest (Or.inl (.failed _ _)), Or.inl rfl⟩
  · obtain ⟨a, ha, hsrc⟩ := handleFrame_deed (E := E) (c := c.log (.frame (rawFrame body))) body
    have hlog : Rest [] c (c.log (.frame (rawFrame body))) := Rest.log (.frame (rawFrame body))
    refine ⟨a, ?_, hsrc.imp_right fun hsrc => ?_⟩
    swap
    · obtain ⟨plain, ⟨hdone, hready, hfits, hpull⟩, htakes⟩ := hsrc
      exact ⟨body, plain, ⟨⟨k, hp⟩, hdone, hready,
        ⟨hfits.tagged, hfits.buffer, hfits.record⟩, hpull⟩, htakes⟩
    rcases h with ⟨hf, h⟩ | ⟨hf, h⟩ <;> rw [h] <;> rw [hf] at ha
    · have hin : ∀ d : Ctx Rng SS, Rest [] d { d with inBuf := d.inBuf.drop k } :=
        fun _ => .same rfl rfl rfl rfl
      exact (ha.before hlog rfl).after (hin d)
    · exact ha.before hlog rfl

/-! ### Calls -/

/-- What a call does: nothing, or a deed that it asks for, in a state with channels. -/
def Obeys (c c' : Ctx Rng SS) (k : Call) (a : Deed) : Prop :=
  a.Serves c.table k ∧ (a = .idle ∨ c.state = .ready ∨ c.state = .draining) ∧ Deals c c' a

theorem Rest.obeys {k : Call} (h : Rest [] c c') : ∃ a, Obeys c c' k a :=
  ⟨.idle, trivial, Or.inl rfl, h.deals⟩

theorem record_deals {k : Call} (hk : (Occ.did k).toEntry = none) {r : Ctx Rng SS × Rc}
    (h : Deals c r.1 a) : Deals c (record k r).1 a := by
  have hlog : Rest [] r.1 (r.1.log (.did k)) := by
    have := Rest.log (c := r.1) (.did k)
    rwa [hk] at this
  unfold record
  split
  · exact h.rest hlog
  · exact h

theorem record_obeys {k : Call} (hk : (Occ.did k).toEntry = none) {r : Ctx Rng SS × Rc}
    (h : ∃ a, Obeys c r.1 k a) : ∃ a, Obeys c (record k r).1 k a := by
  obtain ⟨a, h1, h2, h3⟩ := h
  exact ⟨a, h1, h2, record_deals hk h3⟩

theorem record_rest {k : Call} (hk : (Occ.did k).toEntry = none) {r : Ctx Rng SS × Rc}
    (h : Rest [] c r.1) : Rest [] c (record k r).1 := by
  obtain ⟨-, h2, h3, -, h4, h5⟩ := record_deals hk h.deals
  exact ⟨h2, h3, h4, h5⟩

theorem Rest.send_cases {b : Bytes} {p : Pdu} {d : Ctx Rng SS} {rc : Rc} (h : Pdu.ofBytes b = p)
    (hp : p ≠ .other) (hs : ssSendPdu E c b = (d, rc)) :
    (rc = .ok ∧ Rest [.sent p] c d) ∨ (rc ≠ .ok ∧ Rest [] c d) := by
  have h' := Rest.send E c b
  rw [ofSent_eq h hp, hs] at h'
  exact h'.imp And.symm And.symm

theorem deals_put {l : List Entry} {d : Ctx Rng SS} {i : Fin maxChannelSlots} {ch : Channel}
    (hs : Rest l c d) (ha : a.Enabled c.terms c.table)
    (ht : c.table.put i ch = a.apply c.terms c.table)
    (hn : a.tally d.activeChannels = d.activeChannels) (he : a.entries c.terms c.table = l) :
    Deals c (setCh d i ch) a :=
  .of_rest hs ha he (by rw [setCh_table, hs.table, ht]) hn.symm
    (by rw [← hs.active, hn]; exact le_max_left _ _) rfl rfl

theorem deals_drop {l : List Entry} {d : Ctx Rng SS} {i : Fin maxChannelSlots} (hs : Rest l c d)
    (hu : (c.channels i).state ≠ .unused) (ha : a.Enabled c.terms c.table)
    (ht : c.table.free i = a.apply c.terms c.table) (hn : a.tally = fun n => n - 1)
    (he : a.entries c.terms c.table = l) : Deals c (chFree d i) a := by
  have hd : (d.channels i).state ≠ .unused := by
    have : d.channels = c.channels := congrArg Table.slot hs.table
    rwa [this]
  obtain ⟨h1, h2, h3, h4⟩ := chFree_table hd
  have hl : a.tally c.activeChannels ≤ max c.activeChannels c.maxChannels := by
    rw [hn]
    exact (Nat.sub_le _ _).trans (le_max_left _ _)
  exact .of_rest hs ha he (by rw [h1, hs.table, ht]) (by rw [h2, hn]) hl h3 h4

theorem channelAccept_obeys (id : UInt32) (accept : Bool) :
    ∃ a, Obeys c (channelAccept E c id accept).1 (.channelAccept id accept) a := by
  unfold channelAccept
  split
  · exact (Rest.refl c).obeys
  · rename_i hst
    rw [not_not] at hst
    split
    · exact (Rest.refl c).obeys
    · rename_i i hi
      rw [chByLocal_eq] at hi
      obtain ⟨hu, rfl⟩ := Table.find_some hi
      have hn := Table.named_of_find hi
      dsimp only
      split
      · exact (Rest.refl c).obeys
      · rename_i hp
        rw [not_not] at hp
        split
        · exact (Rest.refl c).obeys
        · cases accept with
          | true =>
            rw [if_pos rfl]
            split
            · exact (Rest.refl c).obeys
            · rename_i pdu henc
              rcases hsend : ssSendPdu E c pdu with ⟨d, rc⟩
              obtain ⟨rfl, hs⟩ | ⟨hrc, hs⟩ :=
                Rest.send_cases (Pdu.ofBytes_channelOpenConfirm henc) (by rintro ⟨⟩) hsend
              · dsimp only
                have hw : d.initialWindow = c.initialWindow :=
                  congrArg Settings.initialWindow hs.settings
                have hm : d.maxPacket = c.maxPacket := congrArg Settings.maxPacket hs.settings
                have he := hs.trans (Rest.emitted (.channelOpened (c.channels i).localId
                  (c.channels i).peerId (c.channels i).name c.initialWindow c.maxPacket))
                refine ⟨.accept i, rfl, Or.inr (Or.inl hst), .of_rest he ⟨hn, hp⟩ rfl ?_ ?_
                  (le_max_left _ _) ?_ ?_⟩
                · rw [emit_table, setCh_table, hs.table, hw]
                  rfl
                · rw [emit_eq, emit_eq]
                  rfl
                · rw [emit_eq, emit_eq]
                  rfl
                · rw [hw, hm, emit_eq, emit_eq]
                  rfl
              · cases rc <;> first | exact absurd rfl hrc | exact hs.obeys
          | false =>
            rw [if_neg (by rintro ⟨⟩)]
            split
            · exact (Rest.refl c).obeys
            · rename_i pdu henc
              rcases hsend : ssSendPdu E c pdu with ⟨d, rc⟩
              obtain ⟨rfl, hs⟩ | ⟨hrc, hs⟩ :=
                Rest.send_cases (Pdu.ofBytes_channelOpenFail henc) (by rintro ⟨⟩) hsend
              · exact ⟨.reject i, rfl, Or.inr (Or.inl hst), deals_drop hs hu ⟨hn, hp⟩ rfl rfl rfl⟩
              · cases rc <;> first | exact absurd rfl hrc | exact hs.obeys

theorem channelEof_obeys (id : UInt32) :
    ∃ a, Obeys c (channelEof E c id).1 (.channelEof id) a := by
  unfold channelEof
  split
  · exact (Rest.refl c).obeys
  · rename_i hst
    rw [not_not] at hst
    split
    · exact (Rest.refl c).obeys
    · rename_i i hi
      rw [chByLocal_eq] at hi
      obtain ⟨hu, rfl⟩ := Table.find_some hi
      dsimp only
      split
      · exact (Rest.refl c).obeys
      · rename_i ho
        rw [not_or, not_not] at ho
        split
        · exact (Rest.refl c).obeys
        · rename_i hl
          split
          · exact (Rest.refl c).obeys
          · rename_i pdu henc
            rcases hsend : ssSendPdu E c pdu with ⟨d, rc⟩
            obtain ⟨rfl, hs⟩ | ⟨hrc, hs⟩ :=
              Rest.send_cases (Pdu.ofBytes_channelEof henc) (by rintro ⟨⟩) hsend
            · exact ⟨.shut i, rfl, Or.inr (Or.inl hst),
                deals_put hs ⟨Table.named_of_find hi, ho.1, (Bool.not_eq_true _).mp hl⟩ rfl rfl rfl⟩
            · cases rc <;> first | exact absurd rfl hrc | exact hs.obeys

/-- A close tells the peer of an OPEN channel, if the CLOSE can be sent. -/
theorem sendClose_rest (E : Env Rng SS) (c : Ctx Rng SS) (ch : Channel) :
    ∃ told : Bool, Rest (if told then [.sent (.channelClose ch.peerId)] else []) c
      (sendClose E c ch) := by
  unfold sendClose
  split
  · split
    · exact ⟨false, .refl c⟩
    · rename_i pdu henc
      rcases hsend : ssSendPdu E c pdu with ⟨d, rc⟩
      obtain ⟨-, hs⟩ | ⟨-, hs⟩ :=
        Rest.send_cases (Pdu.ofBytes_channelClose henc) (by rintro ⟨⟩) hsend
      · exact ⟨true, hs⟩
      · exact ⟨false, hs⟩
  · exact ⟨false, .refl c⟩

theorem channelClose_obeys (id : UInt32) :
    ∃ a, Obeys c (channelClose E c id).1 (.channelClose id) a := by
  unfold channelClose
  split
  · exact (Rest.refl c).obeys
  · rename_i hst
    have hst' : c.state = .ready ∨ c.state = .draining := by
      by_contra hn
      exact hst (not_or.mp hn)
    split
    · exact (Rest.refl c).obeys
    · rename_i i hi
      rw [chByLocal_eq] at hi
      obtain ⟨hu, rfl⟩ := Table.find_some hi
      dsimp only
      split
      · exact (Rest.refl c).obeys
      · obtain ⟨told, hs⟩ := sendClose_rest E c (c.channels i)
        exact ⟨.close i told, rfl, Or.inr hst',
          deals_drop hs hu (Table.named_of_find hi) rfl rfl rfl⟩

theorem channelSend_obeys (id : UInt32) (data : Arg) (memOk : Bool) :
    ∃ a, Obeys c (record (.channelSend id data memOk) (channelSend E c id data memOk)).1
      (.channelSend id data memOk) a := by
  have hquiet : ∀ {d : Ctx Rng SS} {rc : Rc}, rc ≠ .ok → Rest [] c d →
      ∃ a, Obeys c (record (.channelSend id data memOk) (d, rc)).1
        (.channelSend id data memOk) a := by
    intro d rc hrc hs
    unfold record
    rw [if_neg hrc]
    exact hs.obeys
  unfold channelSend
  split
  · exact hquiet (by rintro ⟨⟩) (Rest.refl c)
  · rename_i hmiss
    split
    · exact hquiet (by rintro ⟨⟩) (Rest.refl c)
    · rename_i hst
      rw [not_not] at hst
      split
      · exact hquiet (by rintro ⟨⟩) (Rest.refl c)
      · rename_i i hi
        rw [chByLocal_eq] at hi
        obtain ⟨hu, rfl⟩ := Table.find_some hi
        have hlen : data.len = data.data.length := by
          cases data with
          | null n => simpa [Arg.missing, Arg.len, Arg.data] using hmiss
          | buf b => rfl
        dsimp only
        split
        · exact hquiet (by rintro ⟨⟩) (Rest.refl c)
        · rename_i ho
          split
          · exact hquiet (by rintro ⟨⟩) (Rest.refl c)
          · rename_i hl
            split
            · exact hquiet (by rintro ⟨⟩) (Rest.refl c)
            · rename_i hmax
              split
              · exact hquiet (by rintro ⟨⟩) (Rest.refl c)
              · rename_i hw
                split
                · exact hquiet (by rintro ⟨⟩) (Rest.refl c)
                · rw [not_or] at ho hmax
                  split
                  · rename_i rc henc
                    refine hquiet ?_ (Rest.refl c)
                    rintro rfl
                    unfold Wire.channelDataEncode at henc
                    split_ifs at henc <;> cases henc
                  · rename_i pdu henc
                    rcases hsend : ssSendPdu E c pdu with ⟨d, rc⟩
                    obtain ⟨rfl, hs⟩ | ⟨hrc, hs⟩ :=
                      Rest.send_cases (Pdu.ofBytes_channelData henc) (by rintro ⟨⟩) hsend
                    · have hlog : ∀ e : Ctx Rng SS,
                          Rest [.spent (c.channels i).localId data.len] e
                            (e.log (.did (.channelSend (c.channels i).localId data memOk))) :=
                        fun e => Rest.log (.did (.channelSend (c.channels i).localId data memOk))
                      refine ⟨.send i data.data, ⟨data, memOk, rfl, rfl⟩, Or.inr (Or.inl hst), ?_⟩
                      refine .of_rest (hs.trans (hlog d)) ⟨Table.named_of_find hi,
                        not_not.mp ho.1, (Bool.not_eq_true _).mp hl, ?_, ?_, ?_⟩ ?_ ?_ rfl
                        (le_max_left _ _) rfl rfl
                      · rw [← hlen]
                        exact Nat.not_lt.mp hmax.1
                      · rw [← hlen]
                        exact Nat.not_lt.mp hmax.2
                      · rw [← hlen]
                        exact Nat.not_lt.mp hw
                      · rw [hlen]
                        rfl
                      · change (setCh d i _).table = _
                        rw [setCh_table, hs.table, hlen]
                        rfl
                    · cases rc <;> first | exact absurd rfl hrc | exact hquiet (by rintro ⟨⟩) hs

theorem channelWindowAdjust_obeys (id add : UInt32) :
    ∃ a, Obeys c (record (.channelWindowAdjust id add) (channelWindowAdjust E c id add)).1
      (.channelWindowAdjust id add) a := by
  have hquiet : ∀ {d : Ctx Rng SS} {rc : Rc}, rc ≠ .ok → Rest [] c d →
      ∃ a, Obeys c (record (.channelWindowAdjust id add) (d, rc)).1
        (.channelWindowAdjust id add) a := by
    intro d rc hrc hs
    unfold record
    rw [if_neg hrc]
    exact hs.obeys
  unfold channelWindowAdjust
  split
  · exact hquiet (by rintro ⟨⟩) (Rest.refl c)
  · split
    · exact hquiet (by rintro ⟨⟩) (Rest.refl c)
    · rename_i hst
      rw [not_not] at hst
      split
      · exact hquiet (by rintro ⟨⟩) (Rest.refl c)
      · rename_i i hi
        rw [chByLocal_eq] at hi
        obtain ⟨hu, rfl⟩ := Table.find_some hi
        dsimp only
        split
        · exact hquiet (by rintro ⟨⟩) (Rest.refl c)
        · rename_i ho
          rw [not_or, not_not] at ho
          split
          · exact hquiet (by rintro ⟨⟩) (Rest.refl c)
          · rename_i pdu henc
            rcases hsend : ssSendPdu E c pdu with ⟨d, rc⟩
            obtain ⟨rfl, hs⟩ | ⟨hrc, hs⟩ :=
              Rest.send_cases (Pdu.ofBytes_channelWindow henc) (by rintro ⟨⟩) hsend
            · have hlog : ∀ e : Ctx Rng SS, Rest [.granted (c.channels i).localId add] e
                  (e.log (.did (.channelWindowAdjust (c.channels i).localId add))) :=
                fun e => Rest.log (.did (.channelWindowAdjust (c.channels i).localId add))
              refine ⟨.grant i add, rfl, Or.inr (Or.inl hst), ?_⟩
              refine .of_rest (hs.trans (hlog d)) ⟨Table.named_of_find hi, ho.1⟩ rfl ?_ rfl
                (le_max_left _ _) rfl rfl
              change (setCh d i _).table = _
              rw [setCh_table, hs.table]
              rfl
            · cases rc <;> first | exact absurd rfl hrc | exact hquiet (by rintro ⟨⟩) hs

theorem allocated_table (c : Ctx Rng SS) (i : Fin maxChannelSlots) (ch : Channel)
    (h : ch.localId = c.nextLocalChannelId) :
    (setCh (c.allocated i) i ch).table = c.table.take i ch := by
  have hch : ({ ch with localId := c.table.next } : Channel) = ch := by
    rw [show c.table.next = ch.localId from h.symm]
  rw [Table.take, hch]
  exact congrArg (fun f => (⟨f, c.nextLocalChannelId + 1, c.allocs + 1⟩ : Table))
    (Function.update_idem _ _ c.channels)

theorem channelOpen_obeys (name : Option Bytes) :
    ∃ a, Obeys c (channelOpen E c name).1 (.channelOpen name) a := by
  unfold channelOpen
  split
  · exact (Rest.refl c).obeys
  · split
    · exact (Rest.refl c).obeys
    · split
      · exact (Rest.refl c).obeys
      · rename_i name _ hst
        rw [not_not] at hst
        split
        · exact (Rest.refl c).obeys
        · split
          · exact (Rest.refl c).obeys
          · rename_i hname
            rw [not_not] at hname
            split
            · exact (Rest.refl c).obeys
            · rename_i c' i ha
              obtain ⟨hu, hroom, rfl⟩ := chAlloc_eq_some ha
              have hself : (c.allocated i).channels i =
                  { Channel.zero with localId := c.nextLocalChannelId } :=
                Function.update_self _ _ _
              rw [hself]
              set ch : Channel := { Channel.zero with
                localId := c.nextLocalChannelId, state := .opening
                recvWindow := (c.allocated i).initialWindow
                maxPacket := (c.allocated i).maxPacket, name := name } with hch
              have htable := allocated_table c i ch rfl
              -- Only the id is lost when the PDU cannot be encoded or sent.
              have hlost : ∀ {d : Ctx Rng SS}, Rest [] (setCh (c.allocated i) i ch) d →
                  ∃ a, Obeys c (chFree d i) (.channelOpen (some name)) a := by
                intro d hs
                have hd : (d.channels i).state ≠ .unused := by
                  have : d.channels = (setCh (c.allocated i) i ch).channels :=
                    congrArg Table.slot hs.table
                  rw [this]
                  simp [setCh, hch]
                obtain ⟨h1, h2, h3, h4⟩ := chFree_table hd
                refine ⟨.lost i, ⟨name, rfl⟩, Or.inr (Or.inl hst), hu, ?_, ?_,
                  le_max_left _ _, h3.trans hs.settings, ?_⟩
                · rw [h1, hs.table, htable]
                  simp [Deed.apply, Table.take, Table.free, Table.put]
                · rw [h2, hs.active]
                  rfl
                · rw [h4]
                  exact hs.hist
              dsimp only
              split
              · exact hlost (Rest.refl _)
              · rename_i pdu henc
                rcases hsend : ssSendPdu E (setCh (c.allocated i) i ch) pdu with ⟨d, rc⟩
                obtain ⟨rfl, hs⟩ | ⟨hrc, hs⟩ :=
                  Rest.send_cases (Pdu.ofBytes_channelOpen_cstr henc) (by rintro ⟨⟩) hsend
                · refine ⟨.open_ i name, rfl, Or.inr (Or.inl hst), ⟨hu, hname⟩, ?_, hs.active,
                    Nat.succ_le_of_lt (hroom.trans_le (le_max_right _ _)), hs.settings, hs.hist⟩
                  dsimp only
                  rw [hs.table, htable]
                  simp [Deed.apply, Table.take, hch]
                  rfl
                · cases rc <;> first | exact absurd rfl hrc | exact hlost hs

theorem call_obeys {k : Call} (hk : k.isPlain) (c : Ctx Rng SS) :
    ∃ a, Obeys c (call E c k).1 k a := by
  cases k with
  | feedInput | reset => cases hk
  | getOutput n =>
    obtain ⟨b, o, he⟩ := getOutput_eq c n
    have h : Rest [] c { c with outBuf := b, outOff := o } := .same rfl rfl rfl rfl
    rw [← he] at h
    exact h.obeys
  | nextEvent =>
    simp only [Sodchan.call]
    unfold nextEvent
    split
    · exact (Rest.refl c).obeys
    · rename_i ev r _
      have h : Rest [] c { c with events := r, hist := c.hist ++ [.returned ev] } :=
        ⟨rfl, rfl, rfl, [.returned ev], rfl, rfl⟩
      exact h.obeys
  | authDecide accept => exact (record_rest rfl (authDecideEx_rest accept _)).obeys
  | authDecideEx accept claims => exact (record_rest rfl (authDecideEx_rest accept claims)).obeys
  | channelOpen name => exact record_obeys rfl (channelOpen_obeys name)
  | channelAccept id accept => exact record_obeys rfl (channelAccept_obeys id accept)
  | channelSend id data memOk => exact channelSend_obeys id data memOk
  | channelEof id => exact record_obeys rfl (channelEof_obeys id)
  | channelClose id => exact record_obeys rfl (channelClose_obeys id)
  | channelWindowAdjust id add => exact channelWindowAdjust_obeys id add
  | disconnect reason msg =>
    have hsend : ∀ text, Rest [] c (sendDisconnect E c reason text) := by
      intro text
      unfold sendDisconnect
      split
      · exact .refl c
      · rename_i h
        exact .send_other E c (ofSent_disconnect h)
    have hstate : ∀ (d : Ctx Rng SS) (s : State), Rest [] d { d with state := s } :=
      fun _ _ => .same rfl rfl rfl rfl
    refine (record_rest rfl ?_).obeys
    unfold disconnect
    split
    · exact .refl c
    · dsimp only
      split
      · exact (hsend _).then_ (hstate _ _)
      · exact hstate c _

/-! ### Steps -/

/-- A step with its deed: what it has taken of the peer, and what it did. -/
inductive StepDeed : Label → Ctx Rng SS → Ctx Rng SS → Deed → Prop where
  | call {c c' : Ctx Rng SS} {k : Call} {a : Deed} : Obeys c c' k a → StepDeed (.call k) c c' a
  | intake {c c' : Ctx Rng SS} (data : Bytes) : Rest [] c c' → StepDeed (.intake data) c c' .idle
  | round {c c' : Ctx Rng SS} {a : Deed} : RoundDeed c c' a → StepDeed .round c c' a

theorem Step.deed {l : Label} (h : Step E l c c') : ∃ a, StepDeed l c c' a := by
  cases h with
  | call k hk =>
    obtain ⟨a, ha⟩ := call_obeys (E := E) hk c
    exact ⟨a, .call ha⟩
  | intake data => exact ⟨.idle, .intake data (.same rfl rfl rfl rfl)⟩
  | again h | stop h =>
    obtain ⟨a, ha, -⟩ := processOne_deed E c
    rw [h] at ha
    exact ⟨a, .round ha⟩

/-- What a step says besides its deed: the PDU that it has taken, or the device proof. -/
def Aside (c : Ctx Rng SS) : Entry → Prop
  | .took _ => True
  | .proof pdu => c.settings.Proves pdu
  | _ => False

/-- Who has asked for a deed, and what the step says besides: the PDU that it has taken, or the
device proof. -/
inductive Asked (c : Ctx Rng SS) : Deed → List Entry → Prop where
  | nothing : Asked c .idle []
  | host {a : Deed} (k : Call) : a.Serves c.table k → Asked c a []
  | proof (pdu : Bytes) : c.settings.Proves pdu → Asked c .idle [.proof pdu]
  | peer {a : Deed} (p : Pdu) : a.Takes c.table p → Asked c a [.took p]

theorem Asked.aside {l : List Entry} (h : Asked c a l) : ∀ e ∈ l, Aside c e := by
  intro e he
  cases h with
  | nothing | host => cases he
  | proof pdu hp =>
    rw [List.mem_singleton.mp he]
    exact hp
  | peer p =>
    rw [List.mem_singleton.mp he]
    trivial

/-- Only a PDU that names a channel brings about a deed. -/
theorem asked_took {plain : Bytes} (h : a.Takes c.table (Pdu.ofBytes plain)) :
    Asked c a ((Pdu.ofChannel plain).map Entry.took).toList := by
  unfold Pdu.ofChannel
  split
  · rename_i ho
    rw [ho] at h
    cases a <;> simp only [Deed.Takes, reduceCtorEq, exists_const] at h
    exact .nothing
  · exact .peer _ h

theorem Rest.entries {l : List Entry} (h : Rest l c c') : c'.entries = c.entries ++ l := by
  obtain ⟨-, -, -, k, hk, he⟩ := h
  rw [Ctx.entries, hk, List.filterMap_append, he]
  rfl

theorem Deals.entries (h : Deals c c' a) :
    c'.entries = c.entries ++ a.entries c.terms c.table := by
  obtain ⟨k, hk, he⟩ := h.hist
  rw [Ctx.entries, hk, List.filterMap_append, he]
  rfl

/-- A round rests, or takes a PDU and answers it. -/
theorem RoundDeed.outcome (h : RoundDeed c c' a) : a = .idle ∧ Resting c c' ∨
    ∃ plain, a.Takes c.table (Pdu.ofBytes plain) ∧ a.Enabled c.terms c.table ∧
      c'.table = a.apply c.terms c.table ∧ c'.settings = c.settings ∧
      c'.entries = c.entries ++ ((Pdu.ofChannel plain).map Entry.took).toList ++
        a.entries c.terms c.table := by
  cases h with
  | rest h => exact Or.inl ⟨rfl, h⟩
  | @took d plain a hr _ ha =>
    have ht : d.terms = c.terms := terms_congr hr.settings
    obtain ⟨htakes, -, hd⟩ := ha
    have he := hd.entries
    obtain ⟨h1, h2, -, -, h3, -⟩ := hd
    rw [ht, hr.table] at h1 h2 he
    rw [hr.table] at htakes
    exact Or.inr ⟨plain, htakes, h1, h2, h3.trans hr.settings, he.trans (by rw [hr.entries])⟩

/-- What a step does to the table, the settings and the history of channels. -/
theorem StepDeed.deals {l : Label} (h : StepDeed l c c' a) :
    ∃ aside : List Entry, Asked c a aside ∧ a.Enabled c.terms c.table ∧
      c'.table = a.apply c.terms c.table ∧ c'.settings = c.settings ∧
      c'.entries = c.entries ++ aside ++ a.entries c.terms c.table := by
  have hquiet : ∀ {d : Ctx Rng SS}, Asked c a [] → Deals c d a → ∃ aside : List Entry,
      Asked c a aside ∧ a.Enabled c.terms c.table ∧
      d.table = a.apply c.terms c.table ∧ d.settings = c.settings ∧
      d.entries = c.entries ++ aside ++ a.entries c.terms c.table :=
    fun hh h => ⟨[], hh, h.enabled, h.table, h.settings, by
      rw [h.entries, List.append_nil]⟩
  cases h with
  | @call _ _ k _ h => exact hquiet (.host k h.1) h.2.2
  | intake data h => exact hquiet .nothing h.deals
  | round h =>
    obtain ⟨rfl, hr⟩ | ⟨plain, htakes, h1, h2, h3, he⟩ := h.outcome
    · obtain hr | ⟨pdu, hp, hr⟩ := hr
      · exact hquiet .nothing hr.deals
      · refine ⟨[.proof pdu], .proof pdu hp, trivial, hr.table, hr.settings, ?_⟩
        rw [hr.entries]
        exact (List.append_nil _).symm
    · exact ⟨_, asked_took htakes, h1, h2, h3, he⟩

theorem StepDeed.active {l : Label} (h : StepDeed l c c' a) :
    c'.activeChannels = a.tally c.activeChannels ∧
      a.tally c.activeChannels ≤ max c.activeChannels c.maxChannels := by
  cases h with
  | call h => exact ⟨h.2.2.active, h.2.2.limit⟩
  | intake data h => exact ⟨h.active, le_max_left _ _⟩
  | round h =>
    cases h with
    | rest h =>
      obtain h | ⟨pdu, hp, h⟩ := h <;> exact ⟨h.active, le_max_left _ _⟩
    | @took d plain a h _ ha =>
      have hm : d.maxChannels = c.maxChannels := congrArg Settings.maxChannels h.settings
      rw [← h.active, ← hm]
      exact ⟨ha.2.2.active, ha.2.2.limit⟩

theorem StepDeed.idle {l : Label} (h : StepDeed l c c' a) :
    a = .idle ∨ c.state = .ready ∨ c.state = .draining := by
  cases h with
  | call h => exact h.2.1
  | intake => exact Or.inl rfl
  | round h =>
    cases h with
    | rest => exact Or.inl rfl
    | took plain a _ hst ha =>
      have := ha.2.1
      rwa [hst] at this

def Table.empty : Table := ⟨fun _ => Channel.zero, 0, 0⟩

theorem reset_table (c : Ctx Rng SS) : (reset E c).table = .empty ∧
    (reset E c).settings = c.settings ∧ (reset E c).entries = [] := by
  have hs : ∀ d : Ctx Rng SS, d.table = .empty → d.hist = [] → d.started.table = .empty ∧
      d.started.settings = d.settings ∧ d.started.entries = [] := by
    intro d ht hh
    unfold Ctx.started
    split
    · refine ⟨ht, rfl, ?_⟩
      simp only [Ctx.entries, Ctx.withFrame, hh]
      rfl
    · exact ⟨ht, rfl, by simp only [Ctx.entries, hh]; rfl⟩
  obtain ⟨rng, -, h⟩ | ⟨pk, sk, rng, -, h⟩ := reset_cases E c <;> rw [h]
  · exact ⟨rfl, rfl, rfl⟩
  · exact hs _ rfl rfl

theorem create_table {role : Role} {cfg : Option Config} {rng : Rng} {memOk : Bool}
    (h : create E role cfg rng memOk = some c) : c.table = .empty ∧ c.entries = [] ∧
      c.settings = (applyConfigDefaults E role (cfg.getD {}) rng
        (newEvents (cfg.getD {}))).settings := by
  obtain ⟨pk, sk, rng', -, rfl⟩ := create_eq_some h
  unfold Ctx.started
  split
  · exact ⟨rfl, rfl, rfl⟩
  · exact ⟨rfl, rfl, rfl⟩

/-- A property that survives a reset and every step holds along every run of calls. -/
theorem Run.preserves_steps {guard : Ctx Rng SS → Call → Prop} {P : Ctx Rng SS → Prop}
    {l : List (Call × Ret)} (hreset : ∀ c, P c → P (reset E c))
    (hstep : ∀ l c c', P c → Step E l c c' → P c') (h : Run E guard c l c') (hc : P c) : P c' :=
  h.preserves (fun c hc _ => hreset c hc) (fun _ _ _ hp _ hs => hstep _ _ _ hp hs)
    (fun _ _ hp hs => by
      induction hs with
      | refl => exact hp
      | tail _ h ih => exact h.elim (hstep _ _ _ ih) fun ⟨_, h⟩ => hstep _ _ _ ih h) hc

end Sodchan
