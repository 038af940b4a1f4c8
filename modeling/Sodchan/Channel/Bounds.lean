import Sodchan.Channel.Conduct
import Sodchan.Model.Indices
import Sodchan.Model.Plain
import Sodchan.Session.Uniform

/-! # Bounds

The buffers of a context never overflow, whatever the peer sends and the host
calls, and what is copied into the buffers of a plaintext and of an event fits
them.
-/

namespace Sodchan

open ByteString

variable {Rng SS : Type} {E : Env Rng SS} {c c' : Ctx Rng SS}

/-- A record is longer than its plaintext by a constant. -/
structure StreamLengths (E : Env Rng SS) : Prop where
  push : ∀ st plain tag st' ct, E.ssPush st plain tag = some (st', ct) →
    ct.length = plain.length + ssAbytes
  pull : ∀ st ct st' plain tag, ssAbytes ≤ ct.length → E.ssPull st ct = some (st', plain, tag) →
    ct.length = plain.length + ssAbytes

/-- The counters of the buffers are in range, and every plaintext fitted its buffer. -/
structure Fits (c : Ctx Rng SS) : Prop where
  input : c.inBuf.length ≤ inBufSize
  offset : c.outOff ≤ c.outBuf.length
  output : c.outBuf.length ≤ outBufSize
  records : ∀ r ∈ c.records, r.2.1.length ≤ plainBufSize

namespace Fits

theorem congr (h : Fits c) (hb : c'.outBuf = c.outBuf) (ho : c'.outOff = c.outOff)
    (hi : c'.inBuf.length ≤ c.inBuf.length) (hr : c'.records = c.records) : Fits c' := by
  refine ⟨hi.trans h.input, ?_, ?_, ?_⟩
  · rw [ho, hb]
    exact h.offset
  · rw [hb]
    exact h.output
  · rw [hr]
    exact h.records

theorem rewrite (h : Fits c) {b : Bytes} (hl : b.length ≤ outBufSize) (hb : c'.outBuf = b)
    (ho : c'.outOff = 0) (hi : c'.inBuf = c.inBuf) (hr : c'.records = c.records) : Fits c' := by
  refine ⟨?_, ?_, ?_, ?_⟩
  · rw [hi]
    exact h.input
  · rw [ho]
    exact Nat.zero_le _
  · rw [hb]
    exact hl
  · rw [hr]
    exact h.records

theorem pending (h : Fits c) : c.pending.length ≤ outBufSize := by
  rw [Ctx.pending, List.length_drop]
  exact (Nat.sub_le _ _).trans h.output

theorem log (h : Fits c) {o : Occ} (ho : o.pulled? = none) : Fits (c.log o) := by
  refine h.congr rfl rfl le_rfl ?_
  rw [Ctx.records, Ctx.log, List.filterMap_append]
  simp [ho, Ctx.records]

theorem emit (h : Fits c) (ev : Event) : Fits (emit c ev) := by
  refine h.congr ?_ ?_ ?_ (emit_filterMap (fun _ => rfl) (fun _ => rfl) c ev) <;> rw [emit_eq]

theorem append (h : Fits c) (p : Bytes) : Fits (outAppend c p).1 := by
  have hp := h.pending
  rw [outAppend_eq]
  split
  · exact h.rewrite hp rfl rfl rfl rfl
  · refine h.rewrite (b := c.pending ++ p) ?_ rfl rfl rfl ?_
    · rw [List.length_append]
      omega
    · simp [Ctx.records, Occ.pulled?]

theorem frame (h : Fits c) (body : Bytes) : Fits (outAppendFrame c body).1 := by
  unfold outAppendFrame
  split
  · exact h
  · exact h.append _

theorem send (hE : StreamLengths E) (h : Fits c) (plain : Bytes) :
    Fits (ssSendPdu E c plain).1 := by
  obtain ⟨st, ct, hroom, hpush, he⟩ | ⟨b, o, rc, -, hb, -, he⟩ := ssSendPdu_cases E c plain <;>
    rw [he]
  · refine h.rewrite (b := c.pending ++ rawFrame ct) ?_ rfl rfl rfl ?_
    · have hct := hE.push _ _ _ _ _ hpush
      have hspace := hroom.space
      have hp := h.pending
      rw [List.length_append, length_rawFrame, hct]
      omega
    · simp [Ctx.records, Ctx.pushed, Occ.pulled?]
  · obtain ⟨rfl, rfl⟩ | ⟨rfl, rfl⟩ := hb
    · exact h.congr rfl rfl le_rfl rfl
    · exact h.rewrite h.pending rfl rfl rfl rfl

theorem pull (hE : StreamLengths E) (h : Fits c) {st : SS} {ct plain : Bytes} {tag : UInt8}
    (hf : PlainFits c ct) (hpull : E.ssPull c.ssPull ct = some (st, plain, tag)) :
    Fits (c.afterPull st ct plain tag) := by
  have hlen := hE.pull _ _ _ _ _ hf.tagged hpull
  have hfit := hf.buffer
  refine ⟨h.input, h.offset, h.output, fun r hr => ?_⟩
  have hrec : (c.afterPull st ct plain tag).records = c.records ++ [(ct, plain, tag)] := by
    simp [Ctx.records, Ctx.afterPull, Occ.pulled?]
  rw [hrec] at hr
  rcases List.mem_append.mp hr with hr | hr
  · exact h.records r hr
  · rw [List.mem_singleton.mp hr]
    change plain.length ≤ plainBufSize
    omega

theorem fetch (h : Fits c) (n : ℕ) : Fits (getOutput c n).1 := by
  have ho := h.offset
  unfold getOutput
  split
  · exact h
  · split
    · exact h
    · dsimp only
      split
      · exact h.rewrite (Nat.zero_le _) rfl rfl rfl rfl
      · refine ⟨h.input, ?_, h.output, h.records⟩
        change c.outOff + min (c.outBuf.length - c.outOff) n ≤ c.outBuf.length
        omega

theorem upheld (hE : StreamLengths E) :
    Upheld E False (fun c c' : Ctx Rng SS => Fits c → Fits c') where
  trans h h' := h' ∘ h
  same hs h := h.congr (congrArg Outline.outBuf hs) (congrArg Outline.outOff hs)
    (le_of_eq (congrArg (fun o : Outline => o.inBuf.length) hs))
    (congrArg (fun o : Outline => o.hist.filterMap Occ.pulled?) hs)
  log _ o ho h := h.log (by cases o <;> first | rfl | cases ho)
  emit _ ev h := h.emit ev
  error c code msg _ h := by
    have hc : Fits { c with
        error := if code = .ok then .protocol else code, state := .error, errorMsg := msg } :=
      h.congr rfl rfl le_rfl rfl
    exact hc.emit _
  frame _ body h := h.frame body
  send _ pdu h := h.send hE pdu
  pull _ _ _ _ _ hf hp h := h.pull hE hf hp

theorem step (hE : StreamLengths E) {l : Label} (h : Fits c) (hs : Step E l c c') : Fits c' := by
  refine (upheld hE).step ⟨fun d b hb hd => ⟨hb.trans ?_, hd.offset, hd.output, hd.records⟩,
    fun _ _ hd => hd.log rfl⟩ (fun _ n h => h.fetch n) hs h
  exact max_le hd.input le_rfl

theorem started (hi : c.inBuf = []) (hp : c.pending = []) (hb : c.outBuf = []) (ho : c.outOff = 0)
    (hr : c.records = []) : Fits c.started := by
  have hc : Fits c := by
    refine ⟨by simp [hi], by simp [ho], by simp [hb], ?_⟩
    rw [hr]
    rintro _ ⟨⟩
  unfold Ctx.started
  split
  · refine hc.rewrite (b := c.pending ++ rawFrame (Wire.helloBody (clientHello c)))
      ?_ rfl rfl rfl ?_
    · rw [hp, List.nil_append, length_rawFrame, length_helloBody]
      decide
    · simp [Ctx.records, Ctx.withFrame, Occ.pulled?]
  · exact hc.congr rfl rfl le_rfl rfl

theorem reset (c : Ctx Rng SS) : Fits (reset E c) := by
  obtain ⟨rng, -, he⟩ | ⟨pk, sk, rng, -, he⟩ := reset_cases E c <;> rw [he]
  · exact ⟨Nat.zero_le _, le_rfl, Nat.zero_le _, by rintro _ ⟨⟩⟩
  · exact started rfl rfl rfl rfl rfl

end Fits

theorem Deed.data_entries {a : Deed} {t : Terms} {s : Table} (ha : a.Enabled t s) {id : UInt32}
    {p : Bytes} (he : Entry.event (.channelData id p) ∈ a.entries t s) : p.length ≤ dataMax := by
  cases a with
  | data i payload =>
    obtain ⟨-, rfl⟩ : id = (s.slot i).localId ∧ p = payload := by simpa [Deed.entries] using he
    exact ha.2.2.2
  | close i told => cases told <;> simp [Deed.entries] at he
  | _ => simp [Deed.entries] at he

/-- The data of every event fits its array. -/
def DataFits (c : Ctx Rng SS) : Prop :=
  ∀ id p, Entry.event (.channelData id p) ∈ c.entries → p.length ≤ dataMax

theorem DataFits.step {l : Label} (h : DataFits c) (hs : Step E l c c') : DataFits c' := by
  obtain ⟨a, ha⟩ := hs.deed
  obtain ⟨aside, hheard, hen, -, -, hentries⟩ := ha.deals
  intro id p he
  rw [hentries] at he
  rcases List.mem_append.mp he with he | he
  · rcases List.mem_append.mp he with he | he
    · exact h id p he
    · exact (hheard.aside _ he).elim
  · exact Deed.data_entries hen he

theorem Reachable.fits (hE : StreamLengths E) (h : Reachable E c) : Fits c ∧ DataFits c := by
  obtain ⟨role, cfg, rng, memOk, c₀, l, hc, hrun⟩ := h
  refine hrun.preserves_steps (P := fun d => Fits d ∧ DataFits d) ?_ ?_ ⟨?_, ?_⟩
  · rintro d -
    refine ⟨.reset d, fun id p he => ?_⟩
    rw [(reset_table d).2.2] at he
    cases he
  · rintro l d d' ⟨hf, hd⟩ hs
    exact ⟨hf.step hE hs, hd.step hs⟩
  · obtain ⟨pk, sk, rng', -, rfl⟩ := create_eq_some hc
    exact .started rfl rfl rfl rfl rfl
  · intro id p he
    rw [(create_table hc).2.1] at he
    cases he

/-- The counters of every reachable context are in range, a plaintext and the data of an event fit
their buffers, decoders read and encoders write within theirs, and no buffer of the code itself is
too small for what is encoded into it. -/
theorem engine_in_bounds (hE : StreamLengths E) (h : Reachable E c) :
    (Fits c ∧ c.events.count ≤ c.events.cap ∧ c.events.head < c.events.cap ∧ DataFits c) ∧
    ((∀ k cap cap' b, decode k cap cap' b ≠ .error .fault) ∧
      (∀ data maxBody, Wire.frameParseMax data maxBody ≠ .error .fault) ∧
      ∀ b, Wire.pduType b ≠ .error .fault) ∧
    ((∀ (x : Message) cap b, x.encode cap = .ok b → b.length ≤ cap) ∧
      (∀ body maxBody cap b, Wire.frameEncodeMax body maxBody cap = .ok b → b.length ≤ cap) ∧
      ∀ t pk user device cap b, Wire.buildTAuth t pk user device cap = .ok b → b.length ≤ cap) ∧
    (∀ x cap, LocalBuffer x cap → x.encode cap ≠ .error .full) ∧
      (∀ body, Wire.frameEncode body (4 + maxClearFrame) ≠ .error .full) ∧
      ∀ t pk user device, Wire.buildTAuth t pk user device 512 ≠ .error .full := by
  obtain ⟨hf, hd⟩ := h.fits hE
  exact ⟨⟨hf, c.events.count_le, c.events.head_lt, hd⟩,
    ⟨decode_inBounds, Wire.frameParseMax_inBounds, Wire.pduType_inBounds⟩,
    ⟨fun _ _ _ => encode_length, fun _ _ _ _ => Wire.frameEncodeMax_length,
      fun _ _ _ _ _ _ => Wire.buildTAuth_length⟩,
    fun _ _ => LocalBuffer.encode_ne_full, frameEncode_ne_full, buildTAuth_ne_full⟩

theorem plainEnv_streamLengths : StreamLengths plainEnv where
  push := by
    rintro _ plain tag _ _ h
    obtain ⟨-, rfl⟩ := Prod.mk.inj (Option.some.inj h)
    simp [plainTail, ssAbytes]
  pull := by
    rintro _ ct _ _ _ hl h
    obtain ⟨-, h⟩ := Prod.mk.inj (Option.some.inj h)
    obtain ⟨rfl, -⟩ := Prod.mk.inj h
    rw [List.length_take]
    omega

theorem engine_in_bounds_plain : Fits plainServerReady :=
  (engine_in_bounds plainEnv_streamLengths reachable_plainServerReady).1.1

end Sodchan
