import Sodchan.Lib.ByteString

/-! # Constants and enumerations

The return codes, states and limits of the public and internal headers. Sizes
are natural numbers; words that the code stores in 32 bits stay `UInt32`.
-/

namespace Sodchan

/-- The return codes. `fault` is no code of the library: it marks a model read
outside the buffer handed to a decoder. -/
inductive Rc where
  | ok | param | state | nomem | crypto | protocol | window | full | notfound | rejected
  | fault
  deriving DecidableEq, Repr

inductive Role where
  | server | client
  deriving DecidableEq, Repr

def Role.code : Role → UInt16
  | .server => 0
  | .client => 1

def Role.peer : Role → Role
  | .server => .client
  | .client => .server

@[simp] theorem Role.peer_peer (r : Role) : r.peer.peer = r := by cases r <;> rfl

inductive State where
  | idle | hello | ssHeader | auth | ready | draining | closed | error
  deriving DecidableEq, Repr

/-- Handshake progress below the public state. -/
inductive Hs where
  | start | waitPeerHello | waitPeerSs | done
  deriving DecidableEq, Repr

inductive ChState where
  | unused | opening | pending | open_ | closed
  deriving DecidableEq, Repr

abbrev Key := BytesN 32
abbrev SecKey := BytesN 64
abbrev Sig := BytesN 64
abbrev SsHeader := BytesN 24

def maxChannelSlots : ℕ := 16
def channelNameMax : ℕ := 63
def dataMax : ℕ := 64 * 1024
def userMax : ℕ := 128
def deviceIdMax : ℕ := 128
def fpSha256Max : ℕ := 96
def claimsMax : ℕ := 1024
def cfgStoreSize : ℕ := 2048
def outBufSize : ℕ := 128 * 1024
def inBufSize : ℕ := 128 * 1024
def ssAbytes : ℕ := 17
def maxClearFrame : ℕ := 512
def helloBodyLen : ℕ := 140
def tHelloLen : ℕ := 123
/-- The plaintext buffer of `handleEncryptedPdu`. -/
def plainBufSize : ℕ := dataMax + 64

def defaultEventQueue : ℕ := 16
def defaultMaxRecord : ℕ := 256 * 1024
def defaultMaxChannel : ℕ := 256 * 1024
def defaultMaxChannels : ℕ := maxChannelSlots
def defaultInitWindow : UInt32 := 256 * 1024
def defaultMaxPacket : UInt32 := 64 * 1024

def defaultAllowedChannels : Bytes := ByteString.ascii
  ("edge-telemetry,edge-pg,edge-ai,edge-control,edge-usp,shell,sftp,exec," ++
    "tun,tap,mobile-control,mobile-sync,mobile-audit,mobile-notify")

def protoVersion : UInt16 := 1
def suiteV1 : UInt16 := 1
def magic : UInt16 := 0x5343

def domServerHello : Bytes := ByteString.ascii "sodchan-v1-server-hello"
def domClientAuth : Bytes := ByteString.ascii "sodchan-v1-client-auth"
def domSsC2s : Bytes := ByteString.ascii "sodchan-ss-c2s-v1"
def domSsS2c : Bytes := ByteString.ascii "sodchan-ss-s2c-v1"

theorem length_domServerHello : domServerHello.length = 23 := rfl
theorem length_domClientAuth : domClientAuth.length = 22 := rfl

def pduChannelOpen : UInt8 := 1
def pduChannelOpenConfirm : UInt8 := 2
def pduChannelOpenFail : UInt8 := 3
def pduChannelWindow : UInt8 := 4
def pduChannelData : UInt8 := 5
def pduChannelEof : UInt8 := 6
def pduChannelClose : UInt8 := 7
def pduPing : UInt8 := 8
def pduPong : UInt8 := 9
def pduDisconnect : UInt8 := 10
def pduAuthDevice : UInt8 := 20
def pduAuthOk : UInt8 := 21
def pduAuthFail : UInt8 := 22

def authFailUnspec : UInt8 := 0
def reasonAdminProhibited : UInt32 := 1
def reasonResourceShortage : UInt32 := 4

/-- Reasons carried by AUTH_FAILED events. -/
inductive AuthReason where
  | unspec | badSig | unknownKey | revoked | policy | protocol
  deriving DecidableEq, Repr

def tagMessage : UInt8 := 0
def tagRekey : UInt8 := 2
def tagFinal : UInt8 := 3

end Sodchan
