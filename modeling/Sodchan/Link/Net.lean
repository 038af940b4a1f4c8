import Sodchan.Lib.Framing
import Sodchan.Link.Record
import Sodchan.Stream.Settled

/-! # Two endpoints on a link

A client and a server whose hosts call what they like, fetch output when they
like and deliver it to the other side in pieces of any size. Every frame that
an endpoint takes is the next one that its peer has queued.
-/

namespace Sodchan

open ByteString Framing

variable {Rng SS : Type} {E : Env Rng SS} {c d : Ctx Rng SS}

/-- Both endpoints, and what each host has fetched and the other has not yet taken. -/
structure Net (Rng SS : Type) where
  ends : Role → Ctx Rng SS
  wire : Role → Bytes

/-- What happens next: a host makes a call, or hands some of the bytes on the wire to its
endpoint. -/
inductive Act where
  | host (r : Role) (k : Call)
  | deliver (r : Role) (n : ℕ)

/-- The hosts neither reset nor make up input. -/
def Act.honest : Act → Bool
  | .host _ k => k.isPlain
  | .deliver .. => true

def Ret.output : Ret → Bytes
  | .bytes b => b
  | _ => []

namespace Net

def set (N : Net Rng SS) (r : Role) (c : Ctx Rng SS) : Net Rng SS :=
  { N with ends := Function.update N.ends r c }

/-- Bytes that a call does not take stay on the wire. -/
def step (E : Env Rng SS) (N : Net Rng SS) : Act → Net Rng SS
  | .host r k =>
    { N.set r (call E (N.ends r) k).1 with
      wire := Function.update N.wire r (N.wire r ++ (call E (N.ends r) k).2.output) }
  | .deliver r n =>
    let taken := feedInput E (N.ends r) ((N.wire r.peer).take n)
    { N.set r taken.1 with
      wire := Function.update N.wire r.peer ((N.wire r.peer).drop taken.2) }

/-- A run of honest acts, each in a state that the guard admits it in. -/
inductive Run (E : Env Rng SS) (guard : Net Rng SS → Act → Prop) (N : Net Rng SS) :
    Net Rng SS → Prop where
  | nil : Run E guard N N
  | snoc {N' : Net Rng SS} (a : Act) : Run E guard N N' → a.honest → guard N' a →
      Run E guard N (N'.step E a)

structure Created (E : Env Rng SS) (N : Net Rng SS) : Prop where
  ends : ∀ r, ∃ cfg rng memOk, create E r cfg rng memOk = some (N.ends r)
  wire : ∀ r, N.wire r = []

end Net

/-- What the code relies on: the two sides of a key exchange agree, a stream under matching key and
header pulls what was pushed, and a record is longer than its plaintext by a constant. -/
structure Ideal (E : Env Rng SS) : Prop where
  kx : ∀ {a a' b b' pk sk pk' sk'}, E.kxKeypair a = (some (pk, sk), a') →
    E.kxKeypair b = (some (pk', sk'), b') →
    E.kxClientSessionKeys pk sk pk' = (E.kxServerSessionKeys pk' sk' pk).map Prod.swap
  stream : ∀ {rng key st header rng'}, E.ssInitPush rng key = (some (st, header), rng') →
    ∃ t, E.ssInitPull header key = some t ∧ (ssCoder E).Faithful st t
  lengths : StreamLengths E

/-- The frames of a stream. -/
def Framed (w : Bytes) : Prop := ∃ body, w = rawFrame body ∧ Wire.Admissible 0xFFFFFFFF body

theorem rawFrame_injective {a b : Bytes} (h : rawFrame a = rawFrame b) : a = b := by
  unfold rawFrame at h
  exact (List.append_inj h (by simp [Wire.putU32])).2

theorem framed_prefixFree : PrefixFree Framed where
  nonempty := by
    rintro w ⟨body, rfl, -⟩ h
    have := congrArg List.length h
    rw [length_rawFrame] at this
    simp at this
  eq_of_prefix := by
    rintro v w ⟨a, rfl, ha⟩ ⟨b, rfl, hb⟩ ⟨u, hu⟩
    have h1 : Wire.frameParseMax (rawFrame b) 0xFFFFFFFF = .ok (4 + a.length, a) :=
      Wire.frameParseMax_ok_iff.mpr ⟨ha, rfl, u, hu.symm⟩
    have h2 : Wire.frameParseMax (rawFrame b) 0xFFFFFFFF = .ok (4 + b.length, b) :=
      Wire.frameParseMax_ok_iff.mpr ⟨hb, rfl, [], (List.append_nil _).symm⟩
    rw [h1] at h2
    obtain ⟨-, rfl⟩ := Prod.mk.inj (Except.ok.inj h2)
    rfl

namespace Seat

theorem frameMaxBody_le (E : Env Rng SS) (s : Seat SS) : s.frameMaxBody E ≤ 0xFFFFFFFF := by
  unfold frameMaxBody
  dsimp only
  have hbuf : inBufSize - 4 ≤ 0xFFFFFFFF := by decide
  generalize (s.settings.maxRecordSize + ssAbytes) % (E.sizeMax + 1) = m
  have hm : (if 0xFFFFFFFF < m then 0xFFFFFFFF else m) ≤ 0xFFFFFFFF := by
    split <;> omega
  generalize (if 0xFFFFFFFF < m then 0xFFFFFFFF else m) = m' at hm ⊢
  split
  · exact hbuf
  · exact hm

theorem hello_admissible (h : Wire.Hello) {m : ℕ} (hm : helloBodyLen ≤ m) :
    Wire.Admissible m (Wire.helloBody h) := by
  refine ⟨helloBody_ne_nil h, ?_, ?_⟩
  · rwa [length_helloBody]
  · rw [length_helloBody]
    decide

theorem header_admissible (h : SsHeader) {m : ℕ} (hm : 24 ≤ m) : Wire.Admissible m h.val := by
  refine ⟨fun hn => ?_, ?_, ?_⟩
  · have := h.2
    rw [hn] at this
    cases this
  · rw [h.2]
    exact hm
  · rw [h.2]
    decide

theorem Pushed.admissible {s : Seat SS} {x : (Bytes × UInt8) × Bytes} (h : s.Pushed E x) :
    Wire.Admissible (s.frameMaxBody E) x.2 := by
  have hle := s.frameMaxBody_le E
  refine ⟨fun hn => ?_, h.body, ?_⟩
  · have := h.length
    rw [hn, List.length_nil] at this
    exact absurd this (by simp [ssAbytes])
  · have := h.body
    omega

end Seat

end Sodchan
