/-!
# Protocol constants

The byte codes and size limits of `protocol.h`, shared by server and client,
and the few C-string operations both programs use.  A C string is the list of
its bytes before the terminating NUL.
-/

namespace ChatApp

abbrev Bytes := List UInt8

/-- The bytes of an ASCII literal of the source. -/
def text (literal : String) : Bytes :=
  literal.toList.map fun c => UInt8.ofNat c.toNat

/-- The bytes are computed from the characters: the kernel takes long to find
them in a string. -/
theorem text_ofList (l : List Char) :
    text (String.ofList l) = l.map fun c => UInt8.ofNat c.toNat := by
  rw [text, String.toList_ofList]

theorem text_append (a b : String) : text (a ++ b) = text a ++ text b := by
  simp only [text, String.toList_append, List.map_append]

/-- What `%d` prints for a natural number. -/
def decimal (n : Nat) : Bytes :=
  (Nat.toDigits 10 n).map fun c => UInt8.ofNat c.toNat

def cr : UInt8 := 13
def lf : UInt8 := 10
def space : UInt8 := 32

/-- `MSG_TERMINATOR`. -/
def msgTerminator : Bytes := [cr, lf]

/-- A `char` read as a number; plain `char` is signed on the platform. -/
def signedChar (b : UInt8) : Int := b.toInt8.toInt

/-- What the string functions see of an array: the bytes before the first
NUL. -/
def cString (bytes : Bytes) : Bytes :=
  bytes.takeWhile (· ≠ 0)

/-- `isdigit` in the C locale. -/
def isDigit (b : UInt8) : Bool := 48 ≤ b && b ≤ 57

/-- `isspace` in the C locale. -/
def isSpace (b : UInt8) : Bool := b == space || (9 ≤ b && b ≤ 13)

/-- `current_msg[0]`: the command byte of a message. -/
def command (currentMsg : Bytes) : UInt8 := currentMsg.headD 0

/-- `&current_msg[2]`: the content of a message. -/
def content (currentMsg : Bytes) : Bytes := currentMsg.drop 2

/-! ## Client to server commands -/

def cmdExit : UInt8 := 0x01
def cmdUsernameSubmit : UInt8 := 0x02
def cmdRoomCreateRequest : UInt8 := 0x03
def cmdRoomListRequest : UInt8 := 0x04
def cmdRoomJoinRequest : UInt8 := 0x05
def cmdLeaveRoom : UInt8 := 0x06
def cmdRoomMessageSend : UInt8 := 0x07

/-! ## Server to client commands -/

def cmdWelcomeRequest : UInt8 := 0x16
def cmdRoomCreateOk : UInt8 := 0x18
def cmdRoomListResponse : UInt8 := 0x1A
def cmdRoomJoinOk : UInt8 := 0x1B
def cmdRoomMsg : UInt8 := 0x1C
def cmdRoomLeaveOk : UInt8 := 0x1D

/-! ## Error codes -/

def errRoomNameInvalid : UInt8 := 0x24
def errRoomCapacityFull : UInt8 := 0x25
def errRoomNotFound : UInt8 := 0x26
def errProtocolInvalidStateCmd : UInt8 := 0x28
def errProtocolInvalidFormat : UInt8 := 0x29
def errMsgEmptyContent : UInt8 := 0x2A
def errServerFull : UInt8 := 0x2B
def errConnecting : UInt8 := 0x2C
def errUsernameLength : UInt8 := 0x2D

/-! ## Size limits -/

def maxUsernameLen : Nat := 32
def maxRoomNameLen : Nat := 24
def maxMessageLenToServer : Nat := 132
def maxMessageLenFromServer : Nat := maxRoomNameLen * 50 + 256
def maxContentLen : Nat := 128

/-! ## Server configuration (`server_config.h`) -/

def maxThreads : Nat := 4
def maxClientsPerThread : Nat := 1500
def maxClientsRoom : Nat := 120
def maxRooms : Nat := 50

theorem maxClientsRoom_pos : 0 < maxClientsRoom := by decide

end ChatApp
