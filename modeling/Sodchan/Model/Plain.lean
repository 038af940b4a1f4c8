import Sodchan.Model.Steps

/-! # Playing sessions

A list of calls played from a context, with a check that a run admits each call
and each round, and an environment without secrecy in which they can be
evaluated: constant keys, one signature, and a stream whose ciphertext is the
plaintext followed by its tag and sixteen bytes.
-/

namespace Sodchan

open ByteString

variable {Rng SS : Type} {E : Env Rng SS} {c : Ctx Rng SS}

def play (E : Env Rng SS) (c : Ctx Rng SS) (ks : List Call) : Ctx Rng SS :=
  ks.foldl (fun c k => (call E c k).1) c

def results (E : Env Rng SS) (c : Ctx Rng SS) : List Call → List (Call × Ret)
  | [] => []
  | k :: ks => (k, (call E c k).2) :: results E (call E c k).1 ks

theorem Run.cons {guard : Ctx Rng SS → Call → Prop} {c' : Ctx Rng SS} {l : List (Call × Ret)}
    (k : Call) (hk : guard c k) (h : Run E guard (call E c k).1 l c') :
    Run E guard c ((k, (call E c k).2) :: l) c' := by
  induction h with
  | nil => exact (Run.nil c).snoc k hk
  | snoc k' _ hk' ih => exact ih.snoc k' hk'

theorem run_play {guard : Ctx Rng SS → Call → Prop} {ks : List Call}
    (hg : ∀ k ∈ ks, ∀ c, guard c k) (c : Ctx Rng SS) :
    Run E guard c (results E c ks) (play E c ks) := by
  induction ks generalizing c with
  | nil => exact .nil c
  | cons k ks ih =>
    exact (ih (fun k hk => hg k (List.mem_cons_of_mem _ hk)) _).cons k
      (hg k List.mem_cons_self c)

theorem reachableUnder_play {guard : Ctx Rng SS → Call → Prop} {role : Role}
    {cfg : Option Config} {rng : Rng} {memOk : Bool} (hc : create E role cfg rng memOk = some c)
    {ks : List Call} (hg : ∀ k ∈ ks, ∀ c, guard c k) : ReachableUnder E guard (play E c ks) :=
  ⟨role, cfg, rng, memOk, c, _, hc, run_play hg c⟩

theorem reachable_play {role : Role} {cfg : Option Config} {rng : Rng} {memOk : Bool}
    (hc : create E role cfg rng memOk = some c) (ks : List Call) : Reachable E (play E c ks) :=
  reachableUnder_play hc fun _ _ _ => trivial

/-- Whether every round of the call begins in a context that meets the condition. -/
def roundsMeetB (E : Env Rng SS) (ok : Ctx Rng SS → Prop) [DecidablePred ok] (c : Ctx Rng SS) :
    Call → Bool
  | .feedInput data =>
    Loop.headsMeetB (processOne E) ok ((c.taking data).inBuf.length + 1) (c.taking data)
  | _ => true

/-- Whether every call of the list is admitted, and every round meets the condition. -/
def observedB (E : Env Rng SS) (guard : Ctx Rng SS → Call → Prop) [∀ c, DecidablePred (guard c)]
    (ok : Ctx Rng SS → Prop) [DecidablePred ok] : Ctx Rng SS → List Call → Bool
  | _, [] => true
  | c, k :: ks =>
    decide (guard c k) && roundsMeetB E ok c k && observedB E guard ok (call E c k).1 ks

theorem roundsMeetB_sound {ok : Ctx Rng SS → Prop} [DecidablePred ok] {k : Call}
    (h : roundsMeetB E ok c k = true) : RoundsMeet E ok c k := by
  rintro data rfl d hd
  exact Loop.headsMeetB_sound h hd

theorem Run.of_observedB {guard : Ctx Rng SS → Call → Prop} [∀ c, DecidablePred (guard c)]
    {ok : Ctx Rng SS → Prop} [DecidablePred ok] {ks : List Call}
    (h : observedB E guard ok c ks = true) :
    Run E (fun c k => guard c k ∧ RoundsMeet E ok c k) c (results E c ks) (play E c ks) := by
  induction ks generalizing c with
  | nil => exact .nil c
  | cons k ks ih =>
    rw [observedB, Bool.and_eq_true, Bool.and_eq_true, decide_eq_true_eq] at h
    exact (ih h.2).cons k ⟨h.1.1, roundsMeetB_sound h.1.2⟩

theorem ReachableUnder.of_observedB {guard : Ctx Rng SS → Call → Prop}
    [∀ c, DecidablePred (guard c)] {ok : Ctx Rng SS → Prop} [DecidablePred ok] {role : Role}
    {cfg : Option Config} {rng : Rng} {memOk : Bool} (hc : create E role cfg rng memOk = some c)
    {ks : List Call} (h : observedB E guard ok c ks = true) :
    ReachableUnder E (fun c k => guard c k ∧ RoundsMeet E ok c k) (play E c ks) :=
  ⟨role, cfg, rng, memOk, c, _, hc, .of_observedB h⟩

def plainKey (b : UInt8) : Key := ⟨List.replicate 32 b, List.length_replicate⟩

/-- The tag and the mac of a plain ciphertext. -/
def plainTail (tag : UInt8) : Bytes := tag :: List.replicate 16 0

/-- The environment without secrecy. -/
def plainEnv : Env Unit Unit where
  sizeMax := 2 ^ 64 - 1
  sodiumInit := true
  kxKeypair _ := (some (plainKey 1, plainKey 2), ())
  kxClientSessionKeys _ _ _ := some (plainKey 3, plainKey 4)
  kxServerSessionKeys _ _ _ := some (plainKey 4, plainKey 3)
  generichash b := some (plainKey (b.headD 0))
  signDetached _ _ := some (BytesN.zero 64)
  signVerifyDetached sig _ _ := sig = BytesN.zero 64
  sha256 k := some k
  bin2base64 k := k.val
  ssZero := ()
  ssInitPush _ _ := (some ((), BytesN.zero 24), ())
  ssPush _ plain tag := some ((), plain ++ plainTail tag)
  ssInitPull _ _ := some ()
  ssPull _ ct := some ((), ct.take (ct.length - ssAbytes), ct.getD (ct.length - ssAbytes) 0)

def plainServer : Config where
  serverIdPk := some (plainKey 5)
  serverIdSk := some (BytesN.zero 64)

/-- The configuration of a client in this environment. -/
def plainClient : Config where
  serverIdPk := some (plainKey 5)
  clientIdPk := some (plainKey 6)
  clientIdSk := some (BytesN.zero 64)

def plainServerStart : Ctx Unit Unit :=
  (create plainEnv .server (some plainServer) () true).get (by decide)

def plainClientStart : Ctx Unit Unit :=
  (create plainEnv .client (some plainClient) () true).get (by decide +kernel)

theorem create_plainServer :
    create plainEnv .server (some plainServer) () true = some plainServerStart :=
  (Option.some_get _).symm

theorem create_plainClient :
    create plainEnv .client (some plainClient) () true = some plainClientStart :=
  (Option.some_get _).symm

/-- The frame of a record. -/
def plainRecord (pdu : Bytes) : Bytes := rawFrame (pdu ++ plainTail tagMessage)

/-- What a client sends until the key exchange is complete: its HELLO and its header. -/
def plainKx : Bytes := plainClientStart.outBuf ++ rawFrame (BytesN.zero 24).val

def plainAuthDevice (sig : Sig) : Bytes :=
  [pduAuthDevice] ++ (plainKey 6).val ++ sig.val ++ [0, 0]

def plainServerAuth : Ctx Unit Unit := play plainEnv plainServerStart [.feedInput plainKx]

def plainServerReady : Ctx Unit Unit :=
  play plainEnv plainServerStart [.feedInput plainKx,
    .feedInput (plainRecord (plainAuthDevice (BytesN.zero 64))), .authDecide true]

theorem reachable_plainServerReady : Reachable plainEnv plainServerReady :=
  reachable_play create_plainServer _

def plainOpen : Bytes :=
  [pduChannelOpen] ++ List.replicate 12 0 ++ [3] ++ ascii "tun"

/-- What a host does to have one channel, which the peer has opened. -/
def plainOneChannel : List Call :=
  [.feedInput plainKx, .feedInput (plainRecord (plainAuthDevice (BytesN.zero 64))),
    .authDecide true, .feedInput (plainRecord plainOpen), .channelAccept 0 true]

def plainServerOpen : Ctx Unit Unit :=
  play plainEnv plainServerStart [.feedInput plainKx,
    .feedInput (plainRecord (plainAuthDevice (BytesN.zero 64))), .authDecide true,
    .feedInput (plainRecord plainOpen), .channelAccept 0 true]

theorem reachable_plainServerOpen : Reachable plainEnv plainServerOpen :=
  reachable_play create_plainServer _

def slot0 : Fin maxChannelSlots := ⟨0, by decide⟩

def slot1 : Fin maxChannelSlots := ⟨1, by decide⟩

def slot2 : Fin maxChannelSlots := ⟨2, by decide⟩

def plainWindow (add : UInt32) : Bytes := [pduChannelWindow] ++ be32 0 ++ be32 add

/-- One byte of DATA for the first channel. -/
def plainByte : Bytes := [pduChannelData] ++ be32 0 ++ be32 1 ++ [0]

def plainTwoBytes : Bytes := [pduChannelData] ++ be32 0 ++ be32 2 ++ [0, 0]

end Sodchan
