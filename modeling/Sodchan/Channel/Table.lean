import Sodchan.Model.Traffic

/-! # The channel table

The channel layer of one endpoint on its own: a table of slots, the deeds that
change it, and what each of them tells the host and the peer. The deeds of an
inbound PDU and of a call of the host are kept apart, so that a run of the
table can be read as a conversation.
-/

namespace Sodchan

open ByteString

/-- The slots, the next id, and the number of ids given out. -/
@[ext] structure Table where
  slot : Fin maxChannelSlots → Channel
  next : UInt32
  allocs : ℕ

/-- What an endpoint offers for every channel, and the names it admits. -/
structure Terms where
  window : UInt32
  packet : UInt32
  allows : Bytes → Bool

namespace Table

def find (s : Table) (localId : UInt32) : Option (Fin maxChannelSlots) :=
  (List.finRange maxChannelSlots).find? fun i =>
    (s.slot i).state ≠ .unused ∧ (s.slot i).localId = localId

def put (s : Table) (i : Fin maxChannelSlots) (ch : Channel) : Table :=
  { s with slot := Function.update s.slot i ch }

def free (s : Table) (i : Fin maxChannelSlots) : Table := s.put i Channel.zero

def take (s : Table) (i : Fin maxChannelSlots) (ch : Channel) : Table :=
  { s.put i { ch with localId := s.next } with next := s.next + 1, allocs := s.allocs + 1 }

/-- The slot is in use, and its id means it. -/
def Named (s : Table) (i : Fin maxChannelSlots) : Prop := s.find (s.slot i).localId = some i

variable {s : Table} {i j : Fin maxChannelSlots} {ch : Channel} {id : UInt32}

@[simp] theorem put_slot : (s.put i ch).slot i = ch := by simp [put]

theorem put_slot_of_ne (h : j ≠ i) : (s.put i ch).slot j = s.slot j := by
  simp [put, h]

theorem find_some (h : s.find id = some i) :
    (s.slot i).state ≠ .unused ∧ (s.slot i).localId = id := by
  simpa using List.find?_some h

theorem named_of_find (h : s.find id = some i) : s.Named i := by
  rw [Named, (find_some h).2]
  exact h

theorem Named.used (h : s.Named i) : (s.slot i).state ≠ .unused := (find_some h).1

theorem named_of_unique (hu : (s.slot i).state ≠ .unused)
    (h : ∀ j, (s.slot j).state ≠ .unused → (s.slot j).localId = (s.slot i).localId → j = i) :
    s.Named i := by
  unfold Named find
  cases hf : (List.finRange maxChannelSlots).find? fun j =>
      (s.slot j).state ≠ .unused ∧ (s.slot j).localId = (s.slot i).localId with
  | none =>
    have := List.find?_eq_none.mp hf i (List.mem_finRange i)
    simp [hu] at this
  | some j =>
    have hj := find_some (s := s) hf
    rw [h j hj.1 hj.2]

end Table

/-- What the channel layer does in one step. -/
inductive Deed where
  | idle
  /-- A CHANNEL_OPEN is taken, or answered by OPEN_FAIL. -/
  | offered (i : Fin maxChannelSlots) (peer window packet : UInt32) (name : Bytes)
  | refused (peer : UInt32)
  | confirmed (i : Fin maxChannelSlots) (peer window packet : UInt32)
  | failed (i : Fin maxChannelSlots)
  | data (i : Fin maxChannelSlots) (payload : Bytes)
  | credit (i : Fin maxChannelSlots) (add : UInt32)
  | eof (i : Fin maxChannelSlots)
  | closed (i : Fin maxChannelSlots)
  | open_ (i : Fin maxChannelSlots) (name : Bytes)
  /-- An open that could not be sent: only the id is gone. -/
  | lost (i : Fin maxChannelSlots)
  | accept (i : Fin maxChannelSlots)
  | reject (i : Fin maxChannelSlots)
  | send (i : Fin maxChannelSlots) (payload : Bytes)
  | shut (i : Fin maxChannelSlots)
  /-- A close of the host, which the peer is told of when a CLOSE can be sent. -/
  | close (i : Fin maxChannelSlots) (told : Bool)
  | grant (i : Fin maxChannelSlots) (add : UInt32)

/-- What the history says about channels and the device proof. -/
inductive Entry where
  | event (ev : Event)
  | sent (p : Pdu)
  | took (p : Pdu)
  /-- An AUTH_DEVICE that was sent. -/
  | proof (pdu : Bytes)
  /-- A send or a window adjustment of the host that returned OK. -/
  | spent (localId : UInt32) (n : ℕ)
  | granted (localId add : UInt32)
  deriving DecidableEq

/-- The PDU, if it names a channel. -/
def Pdu.ofChannel (b : Bytes) : Option Pdu :=
  match Pdu.ofBytes b with
  | .other => none
  | p => some p

def Entry.ofSent (b : Bytes) : Option Entry :=
  if b.headD 0 = pduAuthDevice then some (.proof b) else (Pdu.ofChannel b).map .sent

def Occ.toEntry : Occ → Option Entry
  | .queued ev | .dropped ev => if ev.isChannel then some (.event ev) else none
  | .sent b => Entry.ofSent b
  | .pulled _ plain _ => (Pdu.ofChannel plain).map .took
  | .did (.channelSend localId data _) => some (.spent localId data.len)
  | .did (.channelWindowAdjust localId add) => some (.granted localId add)
  | _ => none

namespace Deed

variable (t : Terms) (s : Table)

/-- A packet size of zero stands for the own default. -/
def packetOf (packet : UInt32) : UInt32 := if packet ≠ 0 then packet else t.packet

/-- When the deed can be done. -/
def Enabled : Deed → Prop
  | idle | refused _ => True
  | offered i _ _ _ name | open_ i name => (s.slot i).state = .unused ∧ t.allows name
  | lost i => (s.slot i).state = .unused
  | confirmed i .. | failed i => s.Named i ∧ (s.slot i).state = .opening
  | data i payload => s.Named i ∧ (s.slot i).state = .open_ ∧
      payload.length ≤ (s.slot i).recvWindow.toNat ∧ payload.length ≤ dataMax
  | credit i _ => s.Named i ∧ (s.slot i).state = .open_
  | eof i | closed i | close i _ => s.Named i
  | accept i | reject i => s.Named i ∧ (s.slot i).state = .pending
  | send i payload => s.Named i ∧ (s.slot i).state = .open_ ∧ (s.slot i).localEof = false ∧
      payload.length ≤ (s.slot i).maxPacket.toNat ∧ payload.length ≤ dataMax ∧
      payload.length ≤ (s.slot i).sendWindow.toNat
  | shut i => s.Named i ∧ (s.slot i).state = .open_ ∧ (s.slot i).localEof = false
  | grant i _ => s.Named i ∧ (s.slot i).state = .open_

/-- The table after the deed. -/
def apply : Deed → Table
  | idle | refused _ => s
  | offered i peer window packet name =>
    s.take i { Channel.zero with
      state := .pending, peerId := peer, havePeerId := true, sendWindow := window
      maxPacket := packetOf t packet, recvWindow := t.window, name := name }
  | open_ i name =>
    s.take i { Channel.zero with
      state := .opening, recvWindow := t.window, maxPacket := t.packet, name := name }
  | lost i => (s.take i Channel.zero).free i
  | confirmed i peer window packet =>
    s.put i { s.slot i with
      peerId := peer, havePeerId := true, sendWindow := window
      maxPacket := packetOf t packet, state := .open_ }
  | data i payload =>
    s.put i { s.slot i with
      recvWindow := (s.slot i).recvWindow - UInt32.ofNat payload.length }
  | credit i add => s.put i { s.slot i with sendWindow := (s.slot i).sendWindow + add }
  | eof i => s.put i { s.slot i with remoteEof := true }
  | accept i => s.put i { s.slot i with state := .open_, recvWindow := t.window }
  | send i payload =>
    s.put i { s.slot i with
      sendWindow := (s.slot i).sendWindow - UInt32.ofNat payload.length }
  | shut i => s.put i { s.slot i with localEof := true }
  | grant i add => s.put i { s.slot i with recvWindow := (s.slot i).recvWindow + add }
  | failed i | closed i | reject i | close i _ => s.free i

def tally : Deed → ℕ → ℕ
  | offered .., n | open_ .., n => n + 1
  | failed _, n | closed _, n | reject _, n | close .., n => n - 1
  | _, n => n

def entries : Deed → List Entry
  | idle | lost _ => []
  | offered _ peer window packet name =>
    [.event (.channelOpen s.next peer name window (packetOf t packet))]
  | refused peer => [.sent (.channelOpenFail peer)]
  | confirmed i peer window packet =>
    [.event (.channelOpened (s.slot i).localId peer (s.slot i).name window (packetOf t packet))]
  | failed i => [.event (.channelOpenFail (s.slot i).localId (s.slot i).name)]
  | data i payload => [.event (.channelData (s.slot i).localId payload)]
  | credit i add =>
    [.event (.channelWindow (s.slot i).localId add ((s.slot i).sendWindow + add))]
  | eof i => [.event (.channelEof (s.slot i).localId)]
  | closed i => [.event (.channelClose (s.slot i).localId)]
  | open_ _ name => [.sent (.channelOpen s.next t.window t.packet (cstr name))]
  | accept i =>
    [.sent (.channelOpenConfirm (s.slot i).localId (s.slot i).peerId t.window t.packet),
      .event (.channelOpened (s.slot i).localId (s.slot i).peerId (s.slot i).name
        t.window t.packet)]
  | reject i => [.sent (.channelOpenFail (s.slot i).peerId)]
  | send i payload =>
    [.sent (.channelData (s.slot i).peerId payload), .spent (s.slot i).localId payload.length]
  | shut i => [.sent (.channelEof (s.slot i).peerId)]
  | close i told => if told then [.sent (.channelClose (s.slot i).peerId)] else []
  | grant i add =>
    [.sent (.channelWindow (s.slot i).peerId add), .granted (s.slot i).localId add]

/-- The deeds that an inbound PDU can bring about. -/
def Takes (p : Pdu) : Deed → Prop
  | idle => True
  | offered _ peer window packet name => p = .channelOpen peer window packet name
  | refused peer => ∃ window packet name, p = .channelOpen peer window packet name
  | confirmed i peer window packet =>
    p = .channelOpenConfirm peer (s.slot i).localId window packet
  | failed i => p = .channelOpenFail (s.slot i).localId
  | data i payload => p = .channelData (s.slot i).localId payload
  | credit i add => p = .channelWindow (s.slot i).localId add
  | eof i => p = .channelEof (s.slot i).localId
  | closed i => p = .channelClose (s.slot i).localId
  | _ => False

/-- The deeds that a call of the host can bring about. -/
def Serves (k : Call) : Deed → Prop
  | idle => True
  | open_ _ name => k = .channelOpen (some name)
  | lost _ => ∃ name, k = .channelOpen (some name)
  | accept i => k = .channelAccept (s.slot i).localId true
  | reject i => k = .channelAccept (s.slot i).localId false
  | send i payload => ∃ data memOk, k = .channelSend (s.slot i).localId data memOk ∧
      data.data = payload
  | shut i => k = .channelEof (s.slot i).localId
  | close i _ => k = .channelClose (s.slot i).localId
  | grant i add => k = .channelWindowAdjust (s.slot i).localId add
  | _ => False

end Deed

end Sodchan
