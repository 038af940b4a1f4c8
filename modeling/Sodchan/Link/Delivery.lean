import Sodchan.Link.Net

/-! # Delivery of records

Between two honest endpoints the frames that one of them has taken are the
first that the other has queued, and the next one is welcome: it parses, it has
the length that the phase expects, and a record decrypts to what was pushed.
-/

namespace Sodchan

open ByteString Framing Seat

variable {Rng SS : Type} {E : Env Rng SS} {c c' c'' d : Ctx Rng SS}

def Ctx.Paired (E : Env Rng SS) (c : Ctx Rng SS) : Prop :=
  ∃ a a', E.kxKeypair a = (some (c.ephPk, c.ephSk), a')

/-- Two endpoints that can talk to each other. -/
structure Mates (E : Env Rng SS) (d c : Ctx Rng SS) : Prop where
  role : d.role = c.role.peer
  sender : d.Paired E
  receiver : c.Paired E

/-- Each side has the same keys. -/
theorem keys_agree (hE : Ideal E) {pk sk pk' sk' kc ks kc' ks' : Key}
    (h : ∃ a a', E.kxKeypair a = (some (pk, sk), a'))
    (h' : ∃ a a', E.kxKeypair a = (some (pk', sk'), a')) (hc : ClientKeys E pk sk pk' kc ks)
    (hs : ServerKeys E pk' sk' pk kc' ks') : kc = kc' ∧ ks = ks' := by
  obtain ⟨a, a', ha⟩ := h
  obtain ⟨b, b', hb⟩ := h'
  obtain ⟨rx, tx, hx, h1, h2⟩ := hc
  obtain ⟨rx', tx', hx', h1', h2'⟩ := hs
  have hkx := hE.kx ha hb
  rw [hx, hx'] at hkx
  obtain ⟨rfl, rfl⟩ := Prod.mk.inj (Option.some.inj hkx)
  exact ⟨Except.ok.inj (h1.symm.trans h1'), Except.ok.inj (h2.symm.trans h2')⟩

theorem Mates.pullKey_eq (hE : Ideal E) (h : Mates E d c) (hd : d.seat.Keyed E d.trace)
    (hc : c.seat.Keyed E c.trace) (hdc : d.peerEphPk = c.ephPk) (hcd : c.peerEphPk = d.ephPk) :
    c.seat.pullKey = d.seat.pushKey := by
  have hkd : SessionKeys E d.role d.ephPk d.ephSk d.peerEphPk d.ssKeyC2s d.ssKeyS2c := hd.keys
  have hkc : SessionKeys E c.role c.ephPk c.ephSk c.peerEphPk c.ssKeyC2s c.ssKeyS2c := hc.keys
  have hrole := h.role
  rw [hdc] at hkd
  rw [hcd] at hkc
  cases hr : c.role with
  | client =>
    rw [hr] at hrole hkc
    rw [show d.role = .server from hrole] at hkd
    rw [Seat.pullKey, Seat.pushKey, show c.seat.settings.role = .client from hr,
      show d.seat.settings.role = .server from hrole]
    exact (keys_agree hE h.receiver h.sender hkc hkd).2
  | server =>
    rw [hr] at hrole hkc
    rw [show d.role = .client from hrole] at hkd
    rw [Seat.pullKey, Seat.pushKey, show c.seat.settings.role = .server from hr,
      show d.seat.settings.role = .client from hrole]
    exact (keys_agree hE h.sender h.receiver hkd hkc).1.symm

/-- The record layer of an endpoint is in order, or the session is over. -/
structure Upright (E : Env Rng SS) (c : Ctx Rng SS) : Prop where
  spoken : c.seat.Spoken E c.trace c.ended
  order : ¬ c.ended → InOrder E c

theorem InOrder.upright (h : InOrder E c) : Upright E c := ⟨h.spoken, fun _ => h⟩

/-- Both endpoints keep their order, and each has taken what the other queued first. Where they
have the same limit, neither raises an alarm. -/
structure Tuned (E : Env Rng SS) (d c : Ctx Rng SS) : Prop extends Mates E d c where
  said : Upright E d
  heard : Upright E c
  taken : c.frames <+: d.appended
  back : d.frames <+: c.appended
  calm : d.maxRecordSize = c.maxRecordSize → d.alarms = [] ∧ c.alarms = []

theorem first_eq {a b : Bytes} {l m rest : List Bytes} (h : [rawFrame a] <+: l) (hl : l <+: m)
    (hm : m = rawFrame b :: rest) : a = b := by
  obtain ⟨u, hu⟩ := h.trans hl
  rw [hm] at hu
  exact rawFrame_injective (List.cons.inj hu).1

theorem InOrder.greeted_of_done (h : InOrder E c) (hl : ¬ c.ended) (hs : c.hs = .done) :
    ∃ m l, c.seat.Greets E m ∧ c.appended = rawFrame (Wire.helloBody m) :: l := by
  cases h.spoken with
  | nothing _ _ _ ho =>
    obtain ho | ⟨hw, -⟩ := ho
    · exact absurd ho hl
    · exact absurd (hs.symm.trans hw) (by rintro ⟨⟩)
  | greeted _ _ _ ho =>
    obtain ho | ⟨-, -, ⟨-, hw⟩ | ⟨-, hw⟩⟩ := ho
    · exact absurd ho hl
    · exact absurd (hs.symm.trans hw) (by rintro ⟨⟩)
    · exact absurd (hs.symm.trans hw) (by rintro ⟨⟩)
  | opened m header st rng rng' l hg _ _ _ _ ha => exact ⟨m, _, hg, ha⟩

/-- A receiver that pulls records is somewhere in what the sender has pushed, and the next record
decrypts. -/
theorem Tuned.reads (hE : Ideal E) (h : Tuned E d c) (hl : ¬ c.ended) (hs : c.hs = .done) :
    ∃ l : List ((Bytes × UInt8) × Bytes), (∀ x ∈ l, d.seat.Pushed E x) ∧
      (∀ r ∈ c.records, d.seat.Pushed E (r.2, r.1)) ∧
      d.appended = c.frames ++ l.map (fun x => rawFrame x.2) ∧
      d.sent = c.received ++ l.map (fun x => x.1.1) ∧
      ∀ x l', l = x :: l' → ∃ st, E.ssPull c.ssPull x.2 = some (st, x.1) := by
  obtain ⟨own, rest, hgreet, hown⟩ := (h.heard.order hl).greeted_of_done hl hs
  cases (h.heard.order hl).listened with
  | gone ho => exact absurd ho hl
  | nothing hw => exact absurd (hs.symm.trans hw) (by rintro ⟨⟩)
  | greeted b hw => exact absurd (hs.symm.trans hw) (by rintro ⟨⟩)
  | opened b header st _ hkc hi _ hdec hfr =>
    have hfr : c.frames = rawFrame b :: rawFrame header.val :: c.records.map fun r =>
      rawFrame r.1 := hfr
    have htaken := h.taken
    rw [hfr] at htaken
    cases h.said.spoken with
    | nothing _ ha =>
      rw [show d.appended = [] from ha] at htaken
      exact absurd htaken.length_le (by simp)
    | greeted m ha =>
      rw [show d.appended = [rawFrame (Wire.helloBody m)] from ha] at htaken
      exact absurd htaken.length_le (by simp)
    | opened m header' st' rng rng' l hg hkd hip henc hpushed ha hsent =>
      have ha : d.appended = rawFrame (Wire.helloBody m) :: rawFrame header'.val ::
        l.map fun x => rawFrame x.2 := ha
      rw [ha] at htaken
      obtain ⟨hb, htail⟩ := List.cons_prefix_cons.mp htaken
      obtain ⟨hh, hrecords⟩ := List.cons_prefix_cons.mp htail
      obtain rfl := rawFrame_injective hb
      obtain rfl : header = header' := Subtype.ext (rawFrame_injective hh)
      -- each side has derived its keys from the HELLO of the other
      have hcd : c.peerEphPk = d.ephPk := by
        obtain ⟨b', m', hp, hdecode, he⟩ := hkc.hello
        obtain rfl := first_eq hp List.prefix_rfl hfr
        rw [hg.decode.1] at hdecode
        obtain rfl := Except.ok.inj hdecode
        exact he.symm.trans hg.decode.2
      have hdc : d.peerEphPk = c.ephPk := by
        obtain ⟨b', m', hp, hdecode, he⟩ := hkd.hello
        obtain rfl := first_eq hp h.back hown
        rw [hgreet.decode.1] at hdecode
        obtain rfl := Except.ok.inj hdecode
        exact he.symm.trans hgreet.decode.2
      have hkey := h.toMates.pullKey_eq hE hkd hkc hdc hcd
      obtain ⟨t, ht, hfaith⟩ := hE.stream hip
      rw [hkey, ht] at hi
      obtain rfl := Option.some.inj hi
      have hcodes : (c.records.map fun r => (r.2, r.1)).map Prod.snd <+: l.map Prod.snd := by
        rw [← List.prefix_map_iff_of_injective fun _ _ => rawFrame_injective, List.map_map,
          List.map_map, List.map_map]
        exact hrecords
      obtain ⟨l', rfl⟩ := hfaith.decodes henc hdec hcodes
      refine ⟨l', fun x hx => hpushed x (List.mem_append_right _ hx), fun r hr => ?_, ?_, ?_, ?_⟩
      · exact hpushed _ (List.mem_append_left _ (List.mem_map.mpr ⟨r, hr, rfl⟩))
      · rw [ha, hfr, List.map_append, List.map_map]
        rfl
      · rw [show d.sent = _ from hsent, List.map_append, List.map_map]
        rfl
      · rintro x l'' rfl
        obtain ⟨u, hu⟩ := hfaith.next henc hdec
        exact ⟨u, hu⟩

theorem Tuned.reading (hE : Ideal E) (h : Tuned E d c) (hl : ¬ c.ended) (hs : c.hs = .done) :
    ∃ l : List ((Bytes × UInt8) × Bytes), (∀ x ∈ l, d.seat.Pushed E x) ∧
      d.appended = c.frames ++ l.map (fun x => rawFrame x.2) ∧
      d.sent = c.received ++ l.map (fun x => x.1.1) ∧
      ∀ x l', l = x :: l' → ∃ st, E.ssPull c.ssPull x.2 = some (st, x.1) := by
  obtain ⟨l, hl, -, hrest⟩ := h.reads hE hl hs
  exact ⟨l, hl, hrest⟩

theorem Upright.appended_cases (h : Upright E d) : d.appended = [] ∨
    (∃ m, d.appended = [rawFrame (Wire.helloBody m)]) ∨
    ∃ m, ∃ header : SsHeader, ∃ l : List ((Bytes × UInt8) × Bytes), (∀ x ∈ l, d.seat.Pushed E x) ∧
      d.appended =
        rawFrame (Wire.helloBody m) :: rawFrame header.val :: l.map fun x => rawFrame x.2 := by
  cases h.spoken with
  | nothing _ ha => exact Or.inl ha
  | greeted m ha => exact Or.inr (Or.inl ⟨m, ha⟩)
  | opened m header st rng rng' l _ _ _ _ hp ha => exact Or.inr (Or.inr ⟨m, header, l, hp, ha⟩)

theorem Upright.framed (h : Upright E d) : ∀ w ∈ d.appended, Framed w := by
  have hhello : ∀ m, Framed (rawFrame (Wire.helloBody m)) := fun m =>
    ⟨_, rfl, hello_admissible m (by decide)⟩
  obtain ha | ⟨m, ha⟩ | ⟨m, header, l, hl, ha⟩ := h.appended_cases <;> rw [ha]
  · simp
  · intro w hw
    rw [List.mem_singleton.mp hw]
    exact hhello m
  · intro w hw
    rcases List.mem_cons.mp hw with rfl | hw
    · exact hhello m
    · rcases List.mem_cons.mp hw with rfl | hw
      · exact ⟨_, rfl, header_admissible header (by decide)⟩
      · obtain ⟨x, hx, rfl⟩ := List.mem_map.mp hw
        obtain ⟨hne, hmax, hlt⟩ := (hl x hx).admissible
        exact ⟨_, rfl, hne, hmax.trans (d.seat.frameMaxBody_le E), hlt⟩

structure Admits (E : Env Rng SS) (c : Ctx Rng SS) (body : Bytes) : Prop where
  admissible : Wire.Admissible (if c.hs = .done then ssFrameMaxBody E c else maxClearFrame) body
  fits : c.hs = .done → PlainFits c body

/-- A frame body that the phase of the receiver calls for, and which it admits if both endpoints
have the same limit. -/
structure Welcome (E : Env Rng SS) (d c : Ctx Rng SS) (body : Bytes) : Prop where
  admits : d.maxRecordSize = c.maxRecordSize → Admits E c body
  early : c.hs ≠ .done → Admits E c body
  header : c.hs = .waitPeerSs → body.length = 24
  record : c.hs = .done → ∃ st plain, E.ssPull c.ssPull body = some (st, plain, tagMessage) ∧
    c.received ++ [plain] <+: d.sent

theorem frameMaxBody_congr (h : d.maxRecordSize = c.maxRecordSize) :
    d.seat.frameMaxBody E = ssFrameMaxBody E c := by
  rw [← ssFrameMaxBody_congr E h]
  rfl

/-- A frame of the key exchange. -/
theorem Welcome.exchange {body : Bytes} (hs : c.hs ≠ .done)
    (hb : Wire.Admissible maxClearFrame body)
    (hh : c.hs = .waitPeerSs → body.length = 24) : Welcome E d c body :=
  have ha : Admits E c body := ⟨by rwa [if_neg hs], fun h => absurd h hs⟩
  ⟨fun _ => ha, fun _ => ha, hh, fun h => absurd h hs⟩

theorem Tuned.next (hE : Ideal E) (h : Tuned E d c) (hl : ¬ c.ended) {w : Bytes}
    (hw : c.frames ++ [w] <+: d.appended) : ∃ body, w = rawFrame body ∧ Welcome E d c body := by
  cases (h.heard.order hl).listened with
  | gone ho => exact absurd ho hl
  | nothing hs hfr =>
    have hs : c.hs = .waitPeerHello := hs
    rw [show c.frames = [] from hfr, List.nil_append] at hw
    have hhello : ∀ m l, d.appended = rawFrame (Wire.helloBody m) :: l →
        ∃ body, w = rawFrame body ∧ Welcome E d c body := by
      intro m l ha
      rw [ha] at hw
      refine ⟨Wire.helloBody m, (List.cons_prefix_cons.mp hw).1, .exchange ?_ ?_ ?_⟩
      · rw [hs]
        rintro ⟨⟩
      · exact hello_admissible m (by decide)
      · rw [hs]
        rintro ⟨⟩
    obtain ha | ⟨m, ha⟩ | ⟨m, header, l, -, ha⟩ := h.said.appended_cases
    · rw [ha] at hw
      exact absurd hw.length_le (by simp)
    · exact hhello m [] ha
    · exact hhello m _ ha
  | greeted b hs hfr =>
    have hs : c.hs = .waitPeerSs := hs
    rw [show c.frames = [rawFrame b] from hfr] at hw
    obtain ha | ⟨m, ha⟩ | ⟨m, header, l, -, ha⟩ := h.said.appended_cases <;> rw [ha] at hw
    · exact absurd hw.length_le (by simp)
    · exact absurd hw.length_le (by simp)
    · refine ⟨header.val, ?_, .exchange ?_ ?_ fun _ => header.2⟩
      · exact (List.cons_prefix_cons.mp (List.cons_prefix_cons.mp hw).2).1
      · rw [hs]
        rintro ⟨⟩
      · exact header_admissible header (by decide)
  | opened b header st hs =>
    have hs : c.hs = .done := hs
    obtain ⟨l, hpushed, ha, hsent, hnext⟩ := h.reading hE hl hs
    rw [ha, List.prefix_append_right_inj] at hw
    cases l with
    | nil => exact absurd hw.length_le (by simp)
    | cons x l =>
      obtain ⟨⟨plain, tag⟩, ct⟩ := x
      obtain ⟨st', hp⟩ := hnext _ l rfl
      have hx := hpushed _ List.mem_cons_self
      obtain rfl : tag = tagMessage := hx.tag
      have hlimit : plain.length ≤ d.maxRecordSize := hx.record
      have hbuf : plain.length ≤ plainBufSize := hx.buffer
      have hlen : ct.length = plain.length + ssAbytes := hx.length
      refine ⟨ct, (List.cons_prefix_cons.mp hw).1, fun he => ⟨?_, fun _ => ⟨?_, ?_, ?_⟩⟩,
        fun hn => absurd hs hn, ?_, fun _ => ⟨st', plain, hp, ?_⟩⟩
      · rw [if_pos hs, ← frameMaxBody_congr he]
        exact hx.admissible
      · omega
      · omega
      · rw [← he]
        omega
      · rw [hs]
        rintro ⟨⟩
      · rw [hsent, List.map_cons, List.prefix_append_right_inj]
        exact List.cons_prefix_cons.mpr ⟨rfl, List.nil_prefix⟩

/-! ### Rounds -/

theorem Tuned.symm (h : Tuned E d c) : Tuned E c d where
  role := by rw [h.role, Role.peer_peer]
  sender := h.receiver
  receiver := h.sender
  said := h.heard
  heard := h.said
  taken := h.back
  back := h.taken
  calm he := (h.calm he.symm).symm

/-- The frames that were queued and not yet taken are in transit, and what was received is what was
sent first. -/
structure Lined (d c : Ctx Rng SS) (w : Bytes) : Prop where
  lane : ¬ c.ended → Lane d.appended c.frames (c.inBuf ++ w)
  received : c.received <+: d.sent

variable {w : Bytes}

theorem Tuned.parsed (hE : Ideal E) (h : Tuned E d c) (hl : ¬ c.ended)
    (hw : Lane d.appended c.frames (c.inBuf ++ w)) {k : ℕ} {body : Bytes}
    (hp : parseInput E c = .ok (k, body)) :
    Welcome E d c body ∧ Lane d.appended (c.frames ++ [rawFrame body]) (c.inBuf.drop k ++ w) := by
  obtain ⟨-, hin, hk⟩ := parseInput_ok hp
  have hframed : Framed (rawFrame body) := by
    unfold parseInput Wire.frameParse at hp
    split at hp <;> obtain ⟨⟨hne, hmax, hlt⟩, -⟩ := Wire.frameParseMax_ok_iff.mp hp <;>
      exact ⟨body, rfl, hne, by omega, hlt⟩
  have hw' : Lane d.appended c.frames (rawFrame body ++ (c.inBuf.drop k ++ w)) := by
    rw [← List.append_assoc, ← hin]
    exact hw
  have hnext := hw'.take framed_prefixFree h.said.framed hframed
  refine ⟨?_, hnext⟩
  obtain ⟨body', hb, hwel⟩ := h.next hE hl hnext.taken_prefix_sent
  rwa [rawFrame_injective hb]

/-- A frame that has arrived in full is parsed, if both endpoints have the same limit. -/
theorem Tuned.parses (hE : Ideal E) (h : Tuned E d c) (he : d.maxRecordSize = c.maxRecordSize)
    (hl : ¬ c.ended) (hw : Lane d.appended c.frames (c.inBuf ++ w)) :
    d.appended = c.frames ∧ c.inBuf ++ w = [] ∨
      ∃ k body, parseInput E (c.feed w) = .ok (k, body) := by
  obtain ⟨hall, hnil⟩ | ⟨v, t, hv, ht⟩ := hw.next
  · exact Or.inl ⟨hall, hnil⟩
  · obtain ⟨body, rfl, hwel⟩ := h.next hE hl hv
    refine Or.inr ⟨4 + body.length, body, ?_⟩
    have hok : ∀ m, Wire.Admissible m body →
        Wire.frameParseMax (c.inBuf ++ w) m = .ok (4 + body.length, body) := fun m hm =>
      Wire.frameParseMax_ok_iff.mpr ⟨hm, rfl, t, ht⟩
    have hadm := (hwel.admits he).admissible
    unfold parseInput
    split <;> rename_i hs
    · rw [if_pos (show c.hs = .done from hs)] at hadm
      exact hok _ hadm
    · rw [if_neg (show ¬ c.hs = .done from hs)] at hadm
      exact hok _ hadm

theorem Tuned.no_protocol (hE : Ideal E) (h : Tuned E d c)
    (he : d.maxRecordSize = c.maxRecordSize) (hl : ¬ c.ended)
    (hw : Lane d.appended c.frames (c.inBuf ++ w)) : parseInput E c ≠ .error .protocol := by
  intro hp
  obtain ⟨-, hnil⟩ | ⟨k, body, hok⟩ := h.parses hE he hl hw
  · rw [parseInput_short (by rw [(List.append_eq_nil_iff.mp hnil).1]; decide)] at hp
    cases hp
  · rw [parseInput_feed_protocol hp] at hok
    cases hok

theorem InOrder.handled (hE : StreamLengths E) (h : InOrder E c) (hl : ¬ c.ended) {body : Bytes}
    (hw : Welcome E d c body) (ha : Admits E c body) :
    InOrder E (handleFrame E (c.log (.frame (rawFrame body))) body).1 := by
  unfold handleFrame
  cases hs : c.hs with
  | start =>
    exfalso
    cases h.listened with
    | gone ho => exact hl ho
    | nothing hs' => exact absurd (hs.symm.trans hs') (by rintro ⟨⟩)
    | greeted b hs' => exact absurd (hs.symm.trans hs') (by rintro ⟨⟩)
    | opened b header st hs' => exact absurd (hs.symm.trans hs') (by rintro ⟨⟩)
  | waitPeerHello =>
    rw [show (c.log (.frame (rawFrame body))).hs = .waitPeerHello from hs]
    exact h.hello hl hs body
  | waitPeerSs =>
    rw [show (c.log (.frame (rawFrame body))).hs = .waitPeerSs from hs]
    exact h.header hE hl hs (hw.header hs)
  | done =>
    rw [show (c.log (.frame (rawFrame body))).hs = .done from hs]
    obtain ⟨st, plain, hp, -⟩ := hw.record hs
    exact h.record hE hl hs (ha.fits hs) hp

theorem Flow.records (h : Flow E c c') : c'.records = c.records := by
  refine h.preserves (P := fun d => d.records = c.records) rfl (fun a b ha hs => ?_)
    fun a b ha hp => ?_
  · exact (congrArg Trace.records hs.trace).trans ha
  · cases hp with
    | push => exact (congrArg Trace.records (InOrder.trace_pushed a _ _ _)).trans ha

/-- Before the key exchange is complete an endpoint has taken at most two frames, and no record. -/
theorem InOrder.early (h : InOrder E c) (hl : ¬ c.ended) (hs : c.hs ≠ .done) :
    c.frames.length ≤ 1 ∧ c.records = [] := by
  cases h.listened with
  | gone ho => exact absurd ho hl
  | nothing _ hf hr => exact ⟨by rw [show c.frames = [] from hf]; simp, hr⟩
  | greeted b _ hf _ hr => exact ⟨by rw [show c.frames = [rawFrame b] from hf]; simp, hr⟩
  | opened b header st hd => exact absurd hd hs

/-- Every record that was taken is one that was sent. -/
theorem Tuned.records_pushed (hE : Ideal E) (h : Tuned E d c) (hl : ¬ c.ended) :
    ∀ r ∈ c.records, d.seat.Pushed E (r.2, r.1) := by
  by_cases hs : c.hs = .done
  · obtain ⟨-, -, hr, -⟩ := h.reads hE hl hs
    exact hr
  · rw [((h.heard.order hl).early hl hs).2]
    rintro r ⟨⟩

theorem InOrder.no_records (h : InOrder E c) (hf : c.frames.length ≤ 2) : c.records = [] := by
  cases h.listened with
  | gone _ hr => exact hr
  | nothing _ _ hr => exact hr
  | greeted b _ _ _ hr => exact hr
  | opened b header st _ _ _ _ _ hfr =>
    have hlen := congrArg List.length hfr
    rw [List.length_cons, List.length_cons, List.length_map] at hlen
    have hlen : c.frames.length = c.records.length + 1 + 1 := hlen
    exact List.eq_nil_of_length_eq_zero (by omega)

theorem InOrder.receives (hE : StreamLengths E) (h : InOrder E c) (hl : ¬ c.ended) {body : Bytes}
    (hw : Welcome E d c body) (ha : Admits E c body) :
    (handleFrame E (c.log (.frame (rawFrame body))) body).1.received <+: d.sent := by
  by_cases hs : c.hs = .done
  · obtain ⟨st, plain, hp, hnext⟩ := hw.record hs
    have hfit := ha.fits hs
    have hready : c.ssPullReady := by
      cases h.listened with
      | gone ho => exact absurd ho hl
      | nothing hs' => exact absurd (hs.symm.trans hs') (by rintro ⟨⟩)
      | greeted b hs' => exact absurd (hs.symm.trans hs') (by rintro ⟨⟩)
      | opened b header st _ _ _ hr => exact hr
    have hhandle : handleFrame E (c.log (.frame (rawFrame body))) body =
        handlePlain E ((c.log (.frame (rawFrame body))).afterPull st body plain tagMessage) plain
          tagMessage := by
      unfold handleFrame
      rw [show (c.log (.frame (rawFrame body))).hs = .done from hs]
      exact handleEncryptedPdu_pull (c := c.log (.frame (rawFrame body))) hready
        ⟨hfit.1, hfit.2, hfit.3⟩ hp
    rw [hhandle, Ctx.received, (handlePlain_flow
      (c := (c.log (.frame (rawFrame body))).afterPull st body plain tagMessage) hl plain
        tagMessage).records]
    have hrec : ((c.log (.frame (rawFrame body))).afterPull st body plain tagMessage).records =
        c.records ++ [(body, plain, tagMessage)] := by
      refine (congrArg Trace.records (trace_afterPull _ st body plain tagMessage)).trans ?_
      exact congrArg (· ++ [(body, plain, tagMessage)]) (congrArg Trace.records (trace_frame c _))
    rw [hrec, List.map_append]
    exact hnext
  · have hutters := Utters.upheld.handleFrame (E := E) (c := c.log (.frame (rawFrame body)))
      False.elim body
    have hfr := congrArg Basis.frames hutters.basis
    have htook : (c.log (.frame (rawFrame body))).frames = c.frames ++ [rawFrame body] :=
      congrArg Trace.frames (trace_frame c _)
    have hnone := (h.handled hE hl hw ha).no_records (by
      refine (congrArg List.length (hfr.trans htook)).trans_le ?_
      have := (h.early hl hs).1
      simp only [List.length_append, List.length_singleton]
      omega)
    rw [Ctx.received, hnone]
    exact List.nil_prefix

/-- An endpoint goes on: what it queues for output comes last. -/
structure GoesOn (c c' : Ctx Rng SS) : Prop where
  output : ∃ l, c'.appended = c.appended ++ l ∧ c'.pending = c.pending ++ l.flatten
  settings : c'.settings = c.settings
  ephPk : c'.ephPk = c.ephPk
  ephSk : c'.ephSk = c.ephSk

theorem GoesOn.refl (c : Ctx Rng SS) : GoesOn c c :=
  ⟨⟨[], by rw [List.append_nil], by rw [List.flatten_nil, List.append_nil]⟩, rfl, rfl, rfl⟩

theorem GoesOn.trans (h : GoesOn c c') (h' : GoesOn c' c'') : GoesOn c c'' := by
  obtain ⟨⟨l, ha, hp⟩, hs, hk, hk'⟩ := h
  obtain ⟨⟨m, ha', hp'⟩, hs', hk2, hk2'⟩ := h'
  refine ⟨⟨l ++ m, ?_, ?_⟩, hs'.trans hs, hk2.trans hk, hk2'.trans hk'⟩
  · rw [ha', ha, List.append_assoc]
  · rw [hp', hp, List.flatten_append, List.append_assoc]

theorem Utters.goesOn (h : Utters c c') : GoesOn c c' :=
  ⟨h.output, congrArg Basis.settings h.basis, congrArg Basis.ephPk h.basis,
    congrArg Basis.ephSk h.basis⟩

/-- Two endpoints stay in tune while one of them goes on. -/
theorem Tuned.goes (h : Tuned E d c) (hs : ∃ l, c'.appended = c.appended ++ l)
    (hset : c'.settings = c.settings) (hpk : c'.ephPk = c.ephPk) (hsk : c'.ephSk = c.ephSk)
    (hin : Upright E c') (ht : c'.frames <+: d.appended)
    (hcalm : d.maxRecordSize = c.maxRecordSize → c'.alarms = []) : Tuned E d c' where
  role := by
    rw [show c'.role = c.role from congrArg Settings.role hset]
    exact h.role
  sender := h.sender
  receiver := by
    unfold Ctx.Paired
    rw [hpk, hsk]
    exact h.receiver
  said := h.said
  heard := hin
  taken := ht
  back := by
    obtain ⟨l, hl⟩ := hs
    rw [hl]
    exact h.back.trans (List.prefix_append _ _)
  calm he := by
    rw [show c'.maxRecordSize = c.maxRecordSize from congrArg Settings.maxRecordSize hset] at he
    exact ⟨(h.calm he).1, hcalm he⟩

theorem Upright.failed {code : Rc} {msg : String} (h : c.seat.Spoken E c.trace True) :
    Upright E (setError c code msg) := by
  have he : (setError c code msg).ended := Or.inl (setError_state c code msg)
  refine ⟨?_, fun hl => absurd he hl⟩
  have hseat : (setError c code msg).seat = c.seat := by
    unfold setError
    rw [emit_eq]
    rfl
  have htrace : ∃ l, (setError c code msg).trace = { c.trace with alarms := l } := by
    refine ⟨(setError c code msg).alarms, ?_⟩
    refine Trace.ext ?_ ?_ ?_ ?_ rfl <;>
      exact setError_filterMap (fun _ => rfl) (fun _ => rfl) c code msg
  obtain ⟨l, hl⟩ := htrace
  rw [hseat, hl]
  cases h.mono (q := (setError c code msg).ended) fun _ => he with
  | nothing hr ha hs ho => exact .nothing hr ha hs ho
  | greeted m ha hs ho => exact .greeted m ha hs ho
  | opened m header st rng rng' l hg hk hi henc hf ha hs ho =>
    exact .opened m header st rng rng' l hg ⟨hk.hello, hk.keys⟩ hi henc hf ha hs ho

/-- What a round does to an endpoint. -/
structure InTune (E : Env Rng SS) (d : Ctx Rng SS) (w : Bytes) (c c' : Ctx Rng SS) : Prop where
  tuned : Tuned E d c'
  lined : Lined d c' w
  goesOn : GoesOn c c'

theorem setError_goesOn (E : Env Rng SS) (c : Ctx Rng SS) (code : Rc) (msg : String) :
    GoesOn c (setError c code msg) :=
  (Utters.upheld.error (E := E) c code msg False.elim).goesOn

theorem log_goesOn (c : Ctx Rng SS) (raw : Bytes) : GoesOn c (c.log (.frame raw)) := by
  refine ⟨⟨[], ?_, ?_⟩, rfl, rfl, rfl⟩
  · rw [List.append_nil]
    exact congrArg Trace.appended (trace_frame c raw)
  · rw [List.flatten_nil, List.append_nil]
    rfl

/-- An endpoint that cannot admit what its peer may send gives up. -/
theorem Tuned.fails (h : Tuned E d c) {b : Ctx Rng SS} (hg : GoesOn c b)
    (hsp : b.seat.Spoken E b.trace True) (ht : b.frames <+: d.appended)
    (hr : b.received <+: d.sent) (hlim : d.maxRecordSize ≠ c.maxRecordSize) (code : Rc)
    (msg : String) : InTune E d w c (setError b code msg) := by
  have hgo := hg.trans (setError_goesOn E b code msg)
  have hframes : (setError b code msg).frames = b.frames :=
    setError_filterMap (fun _ => rfl) (fun _ => rfl) b code msg
  have hrecords : (setError b code msg).records = b.records :=
    setError_filterMap (fun _ => rfl) (fun _ => rfl) b code msg
  obtain ⟨l, ha, -⟩ := hgo.output
  refine ⟨?_, ⟨fun hl => absurd (Or.inl (setError_state b code msg)) hl, ?_⟩, hgo⟩
  · refine h.goes ⟨l, ha⟩ hgo.settings hgo.ephPk hgo.ephSk (.failed hsp) ?_ fun he => absurd he hlim
    rw [hframes]
    exact ht
  · rw [Ctx.received, hrecords]
    exact hr

/-- Two endpoints stay in tune while one of them takes a frame that it admits. -/
theorem Tuned.handled (hE : Ideal E) (h : Tuned E d c) (hl : ¬ c.ended) {k : ℕ} {body : Bytes}
    (hwel : Welcome E d c body) (hadm : Admits E c body)
    (hlane : Lane d.appended (c.frames ++ [rawFrame body]) (c.inBuf.drop k ++ w))
    {c' : Ctx Rng SS} {ok : Bool}
    (hf : handleFrame E (c.log (.frame (rawFrame body))) body = (c', ok)) :
    Tuned E d c' ∧ GoesOn c c' ∧ c'.received <+: d.sent ∧
      Lane d.appended c'.frames (c'.inBuf.drop k ++ w) := by
  have hin := (h.heard.order hl).handled hE.lengths hl hwel hadm
  have hrec := (h.heard.order hl).receives hE.lengths hl hwel hadm
  have hutters := Utters.upheld.handleFrame (E := E) (c := c.log (.frame (rawFrame body)))
    False.elim body
  rw [hf] at hin hrec hutters
  have hgo : GoesOn c c' := (log_goesOn c _).trans hutters.goesOn
  have hframes : c'.frames = c.frames ++ [rawFrame body] :=
    (congrArg Basis.frames hutters.basis).trans (congrArg Trace.frames (trace_frame c _))
  have hbuf : c'.inBuf = c.inBuf := congrArg Basis.inBuf hutters.basis
  obtain ⟨l, ha, -⟩ := hgo.output
  refine ⟨?_, hgo, hrec, ?_⟩
  · refine h.goes ⟨l, ha⟩ hgo.settings hgo.ephPk hgo.ephSk hin.upright ?_ fun _ => hin.calm
    rw [hframes]
    exact hlane.taken_prefix_sent
  · rw [hframes, hbuf]
    exact hlane

/-- The limit of the receiver alone decides whether a frame is admitted that has been parsed. -/
theorem Welcome.admits_or {k : ℕ} {body : Bytes} (h : Welcome E d c body)
    (hp : parseInput E c = .ok (k, body)) : Admits E c body ∨
      d.maxRecordSize ≠ c.maxRecordSize ∧ c.hs = .done ∧ ¬ PlainFits c body := by
  by_cases ha : Admits E c body
  · exact Or.inl ha
  · have hs : c.hs = .done := by
      by_contra hs
      exact ha (h.early hs)
    refine Or.inr ⟨fun he => ha (h.admits he), hs, fun hfit => ha ⟨?_, fun _ => hfit⟩⟩
    unfold parseInput at hp
    rw [if_pos hs] at hp ⊢
    exact (Wire.frameParseMax_ok_iff.mp hp).1

/-- Two endpoints stay in tune in every round. -/
theorem Tuned.round (hE : Ideal E) (h : Tuned E d c) (hw : Lined d c w) :
    InTune E d w c (processOne E c).state := by
  obtain ⟨-, hs⟩ | ⟨he, hc, hp, hs⟩ | ⟨k, body, c', he, hc, hp, hf⟩ := processOne_cases E c
  · rw [hs]
    exact ⟨h, hw, .refl c⟩
  · have hl := not_or.mpr ⟨he, hc⟩
    rw [hs]
    exact h.fails (.refl c) (h.heard.spoken.mono fun _ => trivial) h.taken hw.received
      (fun heq => h.no_protocol hE heq hl (hw.lane hl) hp) _ _
  · have hl := not_or.mpr ⟨he, hc⟩
    obtain ⟨hwel, hlane⟩ := h.parsed hE hl (hw.lane hl) hp
    obtain hadm | ⟨hlim, hdone, hfit⟩ := hwel.admits_or hp
    · have hfatal := handleFrame_fatal (E := E) (c := c.log (.frame (rawFrame body))) body
      obtain ⟨hf, hs⟩ | ⟨hf, hs⟩ := hf <;> rw [hs] <;>
        obtain ⟨htuned, hgo, hrec, hlane⟩ := h.handled hE hl hwel hadm hlane hf
      · refine ⟨?_, ⟨fun _ => hlane, hrec⟩, ⟨hgo.output, hgo.settings, hgo.ephPk, hgo.ephSk⟩⟩
        exact htuned.goes ⟨[], (List.append_nil _).symm⟩ rfl rfl rfl
          ⟨htuned.heard.spoken, fun hl => (htuned.heard.order hl).still (.same rfl rfl id)⟩
          htuned.taken fun heq => (htuned.calm heq).2
      · rw [hf] at hfatal
        exact ⟨htuned, ⟨fun hlive => absurd (Or.inl (hfatal rfl)) hlive, hrec⟩, hgo⟩
    · have hrefused : ∃ code msg, handleFrame E (c.log (.frame (rawFrame body))) body =
          (setError (c.log (.frame (rawFrame body))) code msg, false) := by
        unfold handleFrame
        rw [show (c.log (.frame (rawFrame body))).hs = .done from hdone]
        obtain ⟨code, msg, he⟩ | ⟨-, -, -, -, hfit', -⟩ :=
          handleEncryptedPdu_cases E (c.log (.frame (rawFrame body))) body
        · exact ⟨code, msg, he⟩
        · exact absurd ⟨hfit'.1, hfit'.2, hfit'.3⟩ hfit
      obtain ⟨code, msg, hr⟩ := hrefused
      have htr := trace_frame c (rawFrame body)
      have hstate : (processOne E c).state =
          setError (c.log (.frame (rawFrame body))) code msg := by
        obtain ⟨hf, -⟩ | ⟨hf, hs⟩ := hf
        · cases hr.symm.trans hf
        · rw [hs, (Prod.mk.inj (hr.symm.trans hf)).1]
          rfl
      rw [hstate]
      refine h.fails (log_goesOn c _) ?_ ?_ ?_ hlim code msg
      · rw [htr]
        exact h.heard.spoken.listen (fun _ => trivial) (Or.inl rfl) c.ssPull c.ssPullReady
          [rawFrame body] c.records
      · rw [show (c.log (.frame (rawFrame body))).frames = _ from congrArg Trace.frames htr]
        exact hlane.taken_prefix_sent
      · rw [Ctx.received,
          show (c.log (.frame (rawFrame body))).records = _ from congrArg Trace.records htr]
        exact hw.received

/-- Two endpoints stay in tune while one of them processes its input. -/
theorem Tuned.processed (hE : Ideal E) (h : Tuned E d c) (hw : Lined d c w) :
    InTune E d w c (processInput E c) := by
  unfold processInput
  refine Loop.run_invariant (P := InTune E d w c) (fun a b ha hs => ?_) (fun a b ha hs => ?_)
    ⟨h, hw, .refl c⟩ <;>
  · obtain ⟨ht, hl, hgoes⟩ := ha
    have hr := ht.round hE hl
    rw [hs] at hr
    exact ⟨hr.tuned, hr.lined, hgoes.trans hr.goesOn⟩

theorem Flow.alarms (h : Flow E c c') : c'.alarms = c.alarms := by
  refine h.preserves (P := fun d => d.alarms = c.alarms) rfl (fun a b ha hs => ?_)
    fun a b ha hp => ?_
  · exact (congrArg Trace.alarms hs.trace).trans ha
  · cases hp with
    | push => exact (congrArg Trace.alarms (InOrder.trace_pushed a _ _ _)).trans ha

theorem Upright.flow (hE : StreamLengths E) (h : Upright E c) (hf : Flow E c c') :
    Upright E c' := by
  refine hf.preserves h (fun a b ha hs => ⟨?_, fun hl => ?_⟩) fun a b ha hp => ?_
  · rw [hs.seat, hs.trace]
    exact ha.spoken.mono hs.ended
  · exact (ha.order fun he => hl (hs.ended he)).still hs
  · have hl : ¬ a.ended := by
      cases hp with
      | push hl => exact hl
    exact ((ha.order hl).push hE hp).upright

end Sodchan
