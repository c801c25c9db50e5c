/-
# The client's side of the wire (`netUtil.py`, `client.py`)

What the client writes for each operation and how it reads what the server writes.
A Python string is a list of characters.  `encode('ascii')` raises an exception at a
character that is not ASCII, and `decode()` of a single byte at a byte that is not.

* `sendHeader`, `sendConnectionRequest`, `sendMessageRequest`: the bytes written;
* `ClientOp.writes`: what each operation of `Client` writes;
* `receiveString`: reading up to a NUL, one byte at a time;
* `listenAndAccept`: what the listening thread makes of one connection;
* `receiveSendReply`: how `Client.send` reads its reply;
* `Project.remove`, `sendWrites`, `clientSend`: `Client.send`, with the web service of
  `serverWS.py` that normalises the text.
-/
import MessageServer.Util

/-! ## Strings -/

/-- A Python string. -/
abbrev PyStr := List Char

/-- The bytes of an ASCII string. -/
def asciiBytes (s : PyStr) : Bytes := s.map fun c => c.toNat.toUInt8

/-- `s.encode('ascii')`; `none` is the exception. -/
def encodeAscii (s : PyStr) : Option Bytes :=
  s.mapM fun c => if c.toNat < 128 then some c.toNat.toUInt8 else none

/-- A string of ASCII characters. -/
def IsAscii (s : PyStr) : Prop := ∀ c ∈ s, c.toNat < 128

instance (s : PyStr) : Decidable (IsAscii s) := List.decidableBAll _ s

theorem encodeAscii_eq {s : PyStr} (h : IsAscii s) : encodeAscii s = some (asciiBytes s) := by
  induction s with
  | nil => rfl
  | cons c s ih =>
      have hc : c.toNat < 128 := h c List.mem_cons_self
      have hs : IsAscii s := fun d hd => h d (List.mem_cons_of_mem _ hd)
      have ih' := ih hs
      unfold encodeAscii at ih' ⊢
      rw [List.mapM_cons, ih', if_pos hc]
      rfl

/-- The character of an ASCII byte, as `decode()` gives it. -/
def decodeByte (b : UInt8) : Option Char :=
  if b.toNat < 128 then some (Char.ofNat b.toNat) else none

/-- The string of ASCII bytes. -/
def asciiStr (bs : Bytes) : PyStr := bs.map fun b => Char.ofNat b.toNat

/-! ## Writing requests -/

/-- What a function wrote before it returned or raised an exception. -/
structure Sent where
  bytes : Bytes
  raised : Bool
  deriving DecidableEq

/-- One write after another; an exception ends the function. -/
def Sent.andThen (s s' : Sent) : Sent :=
  if s.raised then s else ⟨s.bytes ++ s'.bytes, s'.raised⟩

/-- `sock.sendall(s.encode('ascii'))` -/
def sendAscii (s : PyStr) : Sent :=
  match encodeAscii s with
  | some bs => ⟨bs, false⟩
  | none => ⟨[], true⟩

/-- `sock.sendall(b'\0')` -/
def sendNul : Sent := ⟨[0], false⟩

/-- `util.Request`: the members of the header and of the item. -/
structure ClientRequest where
  opCode : PyStr
  username : PyStr
  listeningPort : PyStr
  recipientUsername : PyStr
  message : PyStr

/-- `send_header` -/
def sendHeader (request : ClientRequest) : Sent :=
  (((sendAscii request.opCode).andThen sendNul).andThen (sendAscii request.username)).andThen
    sendNul

/-- `send_connection_request` -/
def sendConnectionRequest (request : ClientRequest) : Sent :=
  ((sendHeader request).andThen (sendAscii request.listeningPort)).andThen sendNul

/-- `send_message_request` -/
def sendMessageRequest (request : ClientRequest) : Sent :=
  ((((sendHeader request).andThen (sendAscii request.recipientUsername)).andThen sendNul).andThen
    (sendAscii request.message)).andThen sendNul

/-- The operations of `Client`; the sender of a message is the connected user. -/
inductive ClientOp
  | register (user : PyStr)
  | unregister (user : PyStr)
  | connect (user listeningPort : PyStr)
  | disconnect (user : PyStr)
  | send (connectedUser recipient message : PyStr)

/-- The request that an operation fills. -/
def ClientOp.request : ClientOp → ClientRequest
  | .register user => ⟨"REGISTER".toList, user, [], [], []⟩
  | .unregister user => ⟨"UNREGISTER".toList, user, [], [], []⟩
  | .connect user listeningPort => ⟨"CONNECT".toList, user, listeningPort, [], []⟩
  | .disconnect user => ⟨"DISCONNECT".toList, user, [], [], []⟩
  | .send connectedUser recipient message =>
      ⟨"SEND".toList, connectedUser, [], recipient, message⟩

/-- What an operation writes. -/
def ClientOp.writes (op : ClientOp) : Sent :=
  match op with
  | .register _ => sendHeader op.request
  | .unregister _ => sendHeader op.request
  | .connect _ _ => sendConnectionRequest op.request
  | .disconnect _ => sendHeader op.request
  | .send _ _ _ => sendMessageRequest op.request

/-- The field values of an operation, in the order in which they are written. -/
def ClientOp.fields : ClientOp → List PyStr
  | .register user => [user]
  | .unregister user => [user]
  | .connect user listeningPort => [user, listeningPort]
  | .disconnect user => [user]
  | .send connectedUser recipient message => [connectedUser, recipient, message]

/-- Strings with a NUL behind each. -/
def nulTerminated : List Bytes → Bytes
  | [] => []
  | f :: fs => f ++ 0 :: nulTerminated fs

theorem sendAscii_eq {s : PyStr} (h : IsAscii s) : sendAscii s = ⟨asciiBytes s, false⟩ := by
  unfold sendAscii
  rw [encodeAscii_eq h]

theorem andThen_eq (bs bs' : Bytes) (raised : Bool) :
    (Sent.mk bs false).andThen ⟨bs', raised⟩ = ⟨bs ++ bs', raised⟩ := rfl

theorem sendHeader_eq {request : ClientRequest} (hop : IsAscii request.opCode)
    (huser : IsAscii request.username) : sendHeader request =
      ⟨nulTerminated ([request.opCode, request.username].map asciiBytes), false⟩ := by
  rw [sendHeader, sendAscii_eq hop, sendAscii_eq huser]
  simp [sendNul, andThen_eq, nulTerminated]

theorem sendConnectionRequest_eq {request : ClientRequest} (hop : IsAscii request.opCode)
    (huser : IsAscii request.username) (hport : IsAscii request.listeningPort) :
    sendConnectionRequest request = ⟨nulTerminated
      ([request.opCode, request.username, request.listeningPort].map asciiBytes), false⟩ := by
  rw [sendConnectionRequest, sendHeader_eq hop huser, sendAscii_eq hport]
  simp [sendNul, andThen_eq, nulTerminated]

theorem sendMessageRequest_eq {request : ClientRequest} (hop : IsAscii request.opCode)
    (huser : IsAscii request.username) (hrecipient : IsAscii request.recipientUsername)
    (hmessage : IsAscii request.message) :
    sendMessageRequest request = ⟨nulTerminated ([request.opCode, request.username,
      request.recipientUsername, request.message].map asciiBytes), false⟩ := by
  rw [sendMessageRequest, sendHeader_eq hop huser, sendAscii_eq hrecipient, sendAscii_eq hmessage]
  simp [sendNul, andThen_eq, nulTerminated]

/-- The operation codes are ASCII. -/
theorem isAscii_opCode (op : ClientOp) : IsAscii op.request.opCode := by
  cases op with
  | register u => exact show IsAscii "REGISTER".toList by decide
  | unregister u => exact show IsAscii "UNREGISTER".toList by decide
  | connect u p => exact show IsAscii "CONNECT".toList by decide
  | disconnect u => exact show IsAscii "DISCONNECT".toList by decide
  | send s r m => exact show IsAscii "SEND".toList by decide

/-- **An operation writes its code and its fields**, each with a NUL behind it. -/
theorem writes_eq (op : ClientOp) (h : ∀ s ∈ op.fields, IsAscii s) :
    op.writes = ⟨nulTerminated ((op.request.opCode :: op.fields).map asciiBytes), false⟩ := by
  have hcode := isAscii_opCode op
  cases op with
  | register u => exact sendHeader_eq hcode (h u List.mem_cons_self)
  | unregister u => exact sendHeader_eq hcode (h u List.mem_cons_self)
  | disconnect u => exact sendHeader_eq hcode (h u List.mem_cons_self)
  | connect u p =>
      exact sendConnectionRequest_eq hcode (h u List.mem_cons_self)
        (h p (List.mem_cons_of_mem _ List.mem_cons_self))
  | send s r m =>
      exact sendMessageRequest_eq hcode (h s List.mem_cons_self)
        (h r (List.mem_cons_of_mem _ List.mem_cons_self))
        (h m (List.mem_cons_of_mem _ (List.mem_cons_of_mem _ List.mem_cons_self)))

/-! ## Reading what the server writes -/

/-- How reading from a connection that carries given bytes and is then closed ends. -/
inductive Received (α : Type)
  | got (value : α) (rest : Bytes)
  /-- `decode()` raised an exception. -/
  | undecodable
  /-- At the end of the connection `recv` returns nothing, again and again. -/
  | endless
  deriving DecidableEq

/-- Go on with what was received. -/
def Received.andThen {α β : Type} (r : Received α) (f : α → Bytes → Received β) :
    Received β :=
  match r with
  | .got value rest => f value rest
  | .undecodable => .undecodable
  | .endless => .endless

/-- The loop of `receive_string`; `string` is received so far. -/
def receiveStringLoop : Bytes → PyStr → Received PyStr
  | [], _ => .endless
  | b :: rest, string =>
      if b = 0 then .got string rest
      else
        match decodeByte b with
        | some c => receiveStringLoop rest (string ++ [c])
        | none => .undecodable

/-- `receive_string` -/
def receiveString (bs : Bytes) : Received PyStr := receiveStringLoop bs []

/-- `receive_server_error_code`: `recv(1)` as a number, which is 0 at the end of the
connection. -/
def receiveServerErrorCode : Bytes → ℕ × Bytes
  | [] => (0, [])
  | b :: rest => (b.toNat, rest)

/-- What `listen_and_accept` does with one connection. -/
inductive ListenBranch
  | message (username messageId message : PyStr)
  | messageAck (messageId : PyStr)
  | endListenThread
  | invalidOperation
  deriving DecidableEq

/-- One iteration of `listen_and_accept`. -/
def listenAndAccept (bs : Bytes) : Received ListenBranch :=
  (receiveString bs).andThen fun opCode rest =>
    if opCode = "SEND_MESSAGE".toList then
      (receiveString rest).andThen fun username rest =>
        (receiveString rest).andThen fun messageId rest =>
          (receiveString rest).andThen fun message rest =>
            .got (.message username messageId message) rest
    else if opCode = "SEND_MESS_ACK".toList then
      (receiveString rest).andThen fun messageId rest => .got (.messageAck messageId) rest
    else if opCode = "END_LISTEN_THREAD".toList then .got .endListenThread rest
    else .got .invalidOperation rest

/-- `util.EC.SUCCESS` -/
def ecSuccess : ℕ := 0

/-- The reply that `Client.send` reads: the error code, and the message id when the
code is `EC.SUCCESS`. -/
def receiveSendReply (bs : Bytes) : Received (ℕ × Option PyStr) :=
  let code := receiveServerErrorCode bs
  if code.1 = ecSuccess then
    (receiveString code.2).andThen fun messageId rest => .got (code.1, some messageId) rest
  else .got (code.1, none) code.2

/-- Bytes that are ASCII and not NUL. -/
def AsciiText (bs : Bytes) : Prop := ∀ b ∈ bs, b.toNat < 128 ∧ b ≠ 0

instance (bs : Bytes) : Decidable (AsciiText bs) := List.decidableBAll _ bs

/-- The loop of `receive_string` on a string with its NUL. -/
theorem receiveStringLoop_append {bs : Bytes} (h : AsciiText bs) (string : PyStr) (rest : Bytes) :
    receiveStringLoop (bs ++ 0 :: rest) string = .got (string ++ asciiStr bs) rest := by
  induction bs generalizing string with
  | nil => simp [receiveStringLoop, asciiStr]
  | cons b bs ih =>
      obtain ⟨hascii, hne⟩ := h b List.mem_cons_self
      have hbs : AsciiText bs := fun c hc => h c (List.mem_cons_of_mem _ hc)
      rw [List.cons_append, receiveStringLoop, if_neg hne, decodeByte, if_pos hascii]
      change receiveStringLoop (bs ++ 0 :: rest) (string ++ [Char.ofNat b.toNat]) = _
      rw [ih hbs, List.append_assoc]
      rfl

/-- **`receive_string`** gives a string with its NUL back, and reads nothing behind it. -/
theorem receiveString_append {bs : Bytes} (h : AsciiText bs) (rest : Bytes) :
    receiveString (bs ++ 0 :: rest) = .got (asciiStr bs) rest := by
  rw [receiveString, receiveStringLoop_append h]
  rfl

/-! ## `Client.send` -/

/-- The ASCII characters that `\s` matches. -/
def isWhitespace (c : Char) : Bool :=
  (9 ≤ c.toNat && c.toNat ≤ 13) || (28 ≤ c.toNat && c.toNat ≤ 32)

/-- The replacement in `Project.remove`; `inMatch` says that the characters before belong to a
match that is going on. -/
def Project.removeLoop : Bool → PyStr → PyStr
  | _, [] => []
  | inMatch, c :: st =>
      if isWhitespace c then
        if inMatch then Project.removeLoop true st
        else if st.head?.any isWhitespace then ' ' :: Project.removeLoop true st
        else c :: Project.removeLoop false st
      else c :: Project.removeLoop false st

/-- `Project.remove`: every run of two or more whitespace characters becomes one space. -/
def Project.remove (st : PyStr) : PyStr := Project.removeLoop false st

example : Project.remove "1 2  3   4    5".toList = "1 2 3 4 5".toList := by decide

/-- What `Client.send` writes.  Without a connected user `encode` raises behind the
operation code; that a text is too long is only reported on the screen. -/
def sendWrites (connectedUser : Option PyStr) (recipient message : PyStr) : Sent :=
  match connectedUser with
  | some user => (ClientOp.send user recipient (Project.remove message)).writes
  | none => ((sendAscii "SEND".toList).andThen sendNul).andThen ⟨[], true⟩

/-- What `Client.send` returns on a connection that brings `incoming`; `none` when it
raises an exception or does not return. -/
def clientSend (connectedUser : Option PyStr) (recipient message : PyStr) (incoming : Bytes) :
    Option ℕ :=
  if (sendWrites connectedUser recipient message).raised then none
  else
    match receiveSendReply incoming with
    | .got reply _ => some reply.1
    | _ => none

/-- The normalised text has no characters of its own but spaces. -/
theorem mem_removeLoop {inMatch : Bool} {st : PyStr} {c : Char}
    (h : c ∈ Project.removeLoop inMatch st) :
    c ∈ st ∨ c = ' ' := by
  induction st generalizing inMatch with
  | nil => exact absurd h (by simp [Project.removeLoop])
  | cons d st ih =>
      have hrest : ∀ {b : Bool}, c ∈ Project.removeLoop b st → c ∈ d :: st ∨ c = ' ' :=
        fun hmem =>
        (ih hmem).imp_left (List.mem_cons_of_mem d)
      have hcons : ∀ {b : Bool}, c ∈ d :: Project.removeLoop b st →
          c ∈ d :: st ∨ c = ' ' := by
        intro b hmem
        rcases List.mem_cons.mp hmem with rfl | hmem
        · exact Or.inl List.mem_cons_self
        · exact hrest hmem
      rw [Project.removeLoop] at h
      split at h
      · split at h
        · exact hrest h
        · split at h
          · rcases List.mem_cons.mp h with rfl | hmem
            · exact Or.inr rfl
            · exact hrest hmem
          · exact hcons h
      · exact hcons h
