/-
# The services (`services.c`) and the service thread (`server.c`)

The functions of `services.c` as programs over the steps of a service thread: a
call of the DBMS library, a receive on the client's connection, a call on a socket,
and the contents of an uninitialised local.

* `auxSendInit`, `auxSendMsgPass`, `auxSendFirstAck`, `auxConnectSendPendMsgs`,
  `auxConnectCltListenThread`: the auxiliary functions;
* `cltSendMessage`, `cltSendMessAck`: the services that a client's listening thread
  serves;
* `srvRegister`, `srvUnregister`, `srvConnect`, `srvDisconnect`, `srvSend`: the
  services of the server.  Each receives its fields and goes on with the function of
  the same name that ends in `Body`;
* `serviceThread`: what a service thread does with a connection it has dequeued.

A function that assigns through a pointer returns the new value.  The drain of
pending messages loops as long as there are messages; `fuel` bounds its rounds, and
`none` means that the bound was reached.
-/
import MessageServer.Dbms
import MessageServer.NetUtil

/-! ## The steps of a service thread -/

/-- One call of the DBMS library. -/
inductive DbCall
  | userExists (username : Bytes)
  | ioOpUsrEnt (entry : Entry) (mode : Mode)
  | getPendMsg (entry : Entry)
  | creatUsrTbl (entry : Entry)
  | delUsrTbl (username : Bytes)
  deriving DecidableEq

/-- The result of a call, with the entry it wrote through its argument. -/
def DbCall.Ans : DbCall → Type
  | .userExists _ => ℤ
  | .ioOpUsrEnt _ _ => ℤ × Entry
  | .getPendMsg _ => ℤ × Entry
  | .creatUsrTbl _ => ℤ
  | .delUsrTbl _ => ℤ

/-- The program of a call. -/
def DbCall.prog (depth : ℕ) : (c : DbCall) → Sys c.Ans
  | .userExists username => dbUserExists username
  | .ioOpUsrEnt entry mode => dbIoOpUsrEnt depth entry mode
  | .getPendMsg entry => dbGetPendMsg depth entry
  | .creatUsrTbl entry => dbCreatUsrTbl depth entry
  | .delUsrTbl username => dbDelUsrTbl depth username

/-- The two kinds of sockets of a service thread: the accepted connection, and the
connection to a client's listening thread. -/
inductive Sock
  | client
  | listener
  deriving DecidableEq, Repr

/-- The contents of uninitialised locals: a reply code, a userdata record, a
message. -/
structure Junk where
  byte : UInt8
  user : Userdata
  msg : Message
  deriving Inhabited

/-- The return of a client-side service, recorded in the trace: the user's entry as
it was read for the call, what was to be sent, and the result. -/
inductive Note
  | cltSendMessage (entry : Entry) (message : Message) (result : ℤ)
  | cltSendMessAck (entry : Entry) (id : UInt32) (result : ℤ)
  deriving DecidableEq

/-- The steps of a service thread. -/
inductive SrvOp
  | recv (buf : Bytes)
  | db (call : DbCall)
  | getpeername
  | socket
  | connect (ip : UInt32) (port : UInt16)
  | write (sock : Sock) (bytes : Bytes)
  | close (sock : Sock)
  | uninit
  | note (n : Note)
  deriving DecidableEq

/-- The answers: what was received, the result of the call, whether the socket call
succeeded, the contents of the locals. -/
def SrvOp.Ans : SrvOp → Type
  | .recv _ => ℤ × Bytes
  | .db call => call.Ans
  | .getpeername => Option UInt32
  | .socket => Bool
  | .connect _ _ => Bool
  | .write _ _ => Bool
  | .close _ => Unit
  | .uninit => Junk
  | .note _ => Unit

/-- The signature of a service thread. -/
abbrev srvE : Effects := ⟨SrvOp, SrvOp.Ans⟩

/-- Programs of a service thread. -/
abbrev Srv := Prog srvE

/-! ## The steps as programs -/

abbrev recv (buf : Bytes) : Srv (ℤ × Bytes) := @Prog.perform srvE (SrvOp.recv buf)

abbrev callUserExists (username : Bytes) : Srv ℤ :=
  @Prog.perform srvE (SrvOp.db (.userExists username))

abbrev callIoOpUsrEnt (entry : Entry) (mode : Mode) : Srv (ℤ × Entry) :=
  @Prog.perform srvE (SrvOp.db (.ioOpUsrEnt entry mode))

abbrev callGetPendMsg (entry : Entry) : Srv (ℤ × Entry) :=
  @Prog.perform srvE (SrvOp.db (.getPendMsg entry))

abbrev callCreatUsrTbl (entry : Entry) : Srv ℤ :=
  @Prog.perform srvE (SrvOp.db (.creatUsrTbl entry))

abbrev callDelUsrTbl (username : Bytes) : Srv ℤ :=
  @Prog.perform srvE (SrvOp.db (.delUsrTbl username))

abbrev getpeername : Srv (Option UInt32) := @Prog.perform srvE SrvOp.getpeername

abbrev socket : Srv Bool := @Prog.perform srvE SrvOp.socket

abbrev connect (ip : UInt32) (port : UInt16) : Srv Bool :=
  @Prog.perform srvE (SrvOp.connect ip port)

abbrev write (sock : Sock) (bytes : Bytes) : Srv Bool :=
  @Prog.perform srvE (SrvOp.write sock bytes)

abbrev close (sock : Sock) : Srv Unit := @Prog.perform srvE (SrvOp.close sock)

abbrev uninit : Srv Junk := @Prog.perform srvE SrvOp.uninit

abbrev note (n : Note) : Srv Unit := @Prog.perform srvE (SrvOp.note n)

/-! ## `netUtil.c` -/

/-- `send_server_reply` -/
def sendServerReply (code : UInt8) : Srv ℤ := do
  let ok ← write .client [code]
  if ok then return 0
  else do
    close .client
    return genErrAny

/-- `send_string` -/
def sendString (sock : Sock) (string : Bytes) : Srv ℤ := do
  let ok ← write sock (string ++ [0])
  if ok then return 0
  else do
    close sock
    return genErrAny

/-- `recv_string`: the result and the buffer. -/
def recvString (buf : Bytes) : Srv (ℤ × Bytes) := do
  let r ← recv buf
  if r.1 < 0 then do
    close .client
    return (genErrAny, r.2)
  else return (0, r.2)

/-! ## Client-side services -/

/-- The members of a `request_t` that the server sets for a client. -/
structure CltRequest where
  opCode : Bytes
  message : Message
  deriving DecidableEq

/-- `aux_connect_clt_listen_thread`: the result, and the entry read from the
database. -/
def auxConnectCltListenThread (entry : Entry) : Srv (ℤ × Entry) := do
  let r ← callIoOpUsrEnt entry .read
  if r.1 < 0 then return (dbmsErrAny, r.2)
  else do
    let ok ← socket
    if ok then do
      let connected ← connect r.2.user.ip r.2.user.port
      return (if connected then 0 else genErrAny, r.2)
    else return (genErrAny, r.2)

/-- What a client-side service does once `aux_connect_clt_listen_thread` has returned
`socket`. -/
def ifConnected (socket : ℤ) (sends : Srv ℤ) : Srv ℤ :=
  if socket < 0 then return genErrAny else sends

/-- The sends of `clt_send_message` on an open connection. -/
def cltSendMessageStrings (request : CltRequest) : Srv ℤ := do
  let a ← sendString .listener request.opCode
  if a < 0 then return genErrAny
  else do
    let b ← sendString .listener request.message.sender
    if b < 0 then return genErrAny
    else do
      let c ← sendString .listener (decimal request.message.id.toNat)
      if c < 0 then return genErrAny
      else do
        let d ← sendString .listener request.message.content
        if d < 0 then return genErrAny
        else do
          close .listener
          return 0

/-- `clt_send_message`: the result, and the entry read on the way. -/
def cltSendMessage (request : CltRequest) (entry : Entry) : Srv (ℤ × Entry) := do
  let r ← auxConnectCltListenThread entry
  let result ← ifConnected r.1 (cltSendMessageStrings request)
  note (.cltSendMessage r.2 request.message result)
  return (result, r.2)

/-- The sends of `clt_send_mess_ack` on an open connection; their results are not
looked at. -/
def cltSendMessAckStrings (request : CltRequest) : Srv ℤ := do
  let _ ← sendString .listener request.opCode
  let _ ← sendString .listener (decimal request.message.id.toNat)
  close .listener
  return 0

/-- `clt_send_mess_ack`: the result, and the entry read on the way. -/
def cltSendMessAck (request : CltRequest) (entry : Entry) : Srv (ℤ × Entry) := do
  let r ← auxConnectCltListenThread entry
  let result ← ifConnected r.1 (cltSendMessAckStrings request)
  note (.cltSendMessAck r.2 request.message.id result)
  return (result, r.2)

/-! ## Auxiliary functions -/

/-- `(last_msg_id + 1) % MSG_ID_MAX_VALUE` in unsigned arithmetic. -/
def nextMsgId (id : UInt32) : UInt32 := (id + 1) % msgIdMaxValue

/-- `aux_send_init`: the reply code and the recipient's entry. -/
def auxSendInit (sender recipient : Bytes) (entry : Entry) : Srv (UInt8 × Entry) := do
  let senderExists ← callUserExists sender
  let recipientExists ← callUserExists recipient
  if senderExists = 0 ∨ recipientExists = 0 then return (srvErrSendUsrNotExists, entry)
  else if senderExists < 0 ∨ recipientExists < 0 then return (srvErrSendAny, entry)
  else do
    let r ← callIoOpUsrEnt { entry with username := recipient } .read
    if r.1 < 0 then return (srvErrSendAny, r.2)
    else do
      let entry := r.2.mapUser fun u => { u with lastMsgId := nextMsgId u.lastMsgId }
      let w ← callIoOpUsrEnt entry .modify
      return (if w.1 < 0 then srvErrSendAny else srvSuccess, entry)

/-- `aux_send_msg_pass`: the reply code, the recipient's entry and the message's
entry. -/
def auxSendMsgPass (sender recipient content : Bytes) (code : UInt8) (recipientEntry : Entry) :
    Srv (UInt8 × Entry × Entry) := do
  let message : Message := ⟨sender, recipientEntry.user.lastMsgId, content⟩
  let msgEntry : Entry := ⟨recipient, .msg message⟩
  if recipientEntry.user.status = statusCn then do
    let r ← cltSendMessage ⟨opSendMessage, message⟩ recipientEntry
    if r.1 = 0 then return (code, r.2, msgEntry)
    else do
      -- the sending failed: the recipient counts as disconnected from now on
      let recipientEntry := r.2.mapUser fun u => { u with status := statusDcn }
      let w ← callIoOpUsrEnt recipientEntry .modify
      return (if w.1 < 0 then srvErrSendAny else code, recipientEntry, msgEntry)
  else return (code, recipientEntry, msgEntry)

/-- A connected recipient is sent the message at once. -/
theorem auxSendMsgPass_connected {sender recipient content u : Bytes} {code : UInt8} {ud : Userdata}
    (h : ud.status = statusCn) :
    auxSendMsgPass sender recipient content code ⟨u, .user ud⟩ =
      cltSendMessage ⟨opSendMessage, ⟨sender, ud.lastMsgId, content⟩⟩
        ⟨u, .user ud⟩ >>= fun r =>
        if r.1 = 0 then
          return (code, r.2, ⟨recipient, .msg ⟨sender, ud.lastMsgId, content⟩⟩)
        else
          callIoOpUsrEnt (r.2.mapUser fun u => { u with status := statusDcn }) .modify >>= fun w =>
            return (if w.1 < 0 then srvErrSendAny else code,
              r.2.mapUser fun u => { u with status := statusDcn },
              ⟨recipient, .msg ⟨sender, ud.lastMsgId, content⟩⟩) := by
  unfold auxSendMsgPass
  exact if_pos h

/-- Any other recipient is left alone. -/
theorem auxSendMsgPass_other {sender recipient content u : Bytes} {code : UInt8} {ud : Userdata}
    (h : ud.status ≠ statusCn) :
    auxSendMsgPass sender recipient content code ⟨u, .user ud⟩ =
      return (code, ⟨u, .user ud⟩,
          ⟨recipient, .msg ⟨sender, ud.lastMsgId, content⟩⟩) := by
  unfold auxSendMsgPass
  exact if_neg h

/-- `aux_send_first_ack` -/
def auxSendFirstAck (code : UInt8) (msgId : UInt32) : Srv Unit := do
  let r ← sendServerReply code
  if r < 0 then return ()
  else if code = srvSuccess then do
    let _ ← sendString .client (decimal msgId.toNat)
    return ()
  else return ()

/-- The loop of `aux_connect_send_pend_msgs`. -/
def drainLoop : ℕ → Entry → Entry → Entry → Srv (Option ℤ)
  | 0, _, _, _ => return none
  | fuel + 1, pendMsgEntry, recipientEntry, senderEntry => do
      let g ← callGetPendMsg pendMsgEntry
      if g.1 = dbmsSuccess then do
        let message := g.2.msg
        let r ← cltSendMessage ⟨opSendMessage, message⟩ recipientEntry
        if r.1 = 0 then do
          let _ ← callIoOpUsrEnt g.2 .delete
          let a ← cltSendMessAck ⟨opSendMessAck, message⟩
            { senderEntry with username := message.sender }
          drainLoop fuel g.2 r.2 a.2
        else do
          let _ ← callIoOpUsrEnt (r.2.mapUser fun u => { u with status := statusDcn }) .modify
          return some srvErrSendAny.toNat
      else return some 0

/-- `aux_connect_send_pend_msgs` -/
def auxConnectSendPendMsgs (fuel : ℕ) (pendMsgEntry : Entry) : Srv (Option ℤ) := do
  let junk ← uninit
  let senderEntry : Entry := ⟨[], .user junk.user⟩
  let r ← callIoOpUsrEnt ⟨pendMsgEntry.username, .user junk.user⟩ .read
  if r.1 < 0 then return some dbmsErrAny
  else drainLoop fuel pendMsgEntry r.2 senderEntry

/-! ## Server-side services, after their fields are received -/

/-- `srv_register` -/
def srvRegisterBody (username : Bytes) : Srv Unit := do
  let junk ← uninit
  let result ← callCreatUsrTbl ⟨username, .user { junk.user with lastMsgId := 0 }⟩
  let _ ← sendServerReply (if result = dbmsErrExists then srvErrRegUsrAlreadyReg else srvSuccess)
  return ()

/-- The part of `srv_unregister` that decides the reply. -/
def srvUnregisterReply (username : Bytes) (userExists : ℤ) : Srv UInt8 :=
  if userExists = 1 then do
    let result ← callDelUsrTbl username
    return if result < 0 then srvErrUnregAny else srvSuccess
  else if userExists = 0 then return srvErrUnregUsrNotExists
  else return srvErrUnregAny

/-- `srv_unregister` -/
def srvUnregisterBody (username : Bytes) : Srv Unit := do
  let userExists ← callUserExists username
  let code ← srvUnregisterReply username userExists
  let _ ← sendServerReply code
  return ()

/-- The part of `srv_connect` that decides the reply: `reply` is the uninitialised
reply code, `entry` has been read with result `ioResult`. -/
def srvConnectReply (port : Bytes) (reply : UInt8) (ioResult : ℤ) (entry : Entry) : Srv UInt8 :=
  if ioResult = dbmsErrNotExists then return srvErrCnUsrNotExists
  else if ioResult < 0 then return srvErrCnAny
  else if entry.user.status = statusCn then return srvErrCnUsrAlreadyCn
  else do
    let tmpPort := (strToNum port .int).toOption
    let reply := if tmpPort.isNone then srvErrCnAny else reply
    let peer ← getpeername
    let reply := if peer.isNone then srvErrCnAny else reply
    if reply ≠ srvErrCnAny then do
      let entry := entry.mapUser fun u =>
        { u with
          status := statusCn
          port := (tmpPort.getD 0 % 65536).toNat.toUInt16
          ip := peer.getD 0 }
      let w ← callIoOpUsrEnt entry .modify
      return if w.1 = dbmsErrNotExists then srvErrCnUsrNotExists
        else if w.1 < 0 then srvErrCnAny else srvSuccess
    else return reply

/-- `srv_connect` -/
def srvConnectBody (fuel : ℕ) (username port : Bytes) : Srv (Option Unit) := do
  let junk ← uninit
  let r ← callIoOpUsrEnt ⟨username, .user junk.user⟩ .read
  let code ← srvConnectReply port junk.byte r.1 r.2
  let _ ← sendServerReply code
  let result ← auxConnectSendPendMsgs fuel ⟨username, .msg junk.msg⟩
  return result.map fun _ => ()

/-- The part of `srv_disconnect` that decides the reply. -/
def srvDisconnectReply (ioResult : ℤ) (entry : Entry) : Srv UInt8 :=
  if ioResult = dbmsErrNotExists then return srvErrDcnUsrNotExists
  else if ioResult < 0 then return srvErrDcnAny
  else if entry.user.status = statusDcn then return srvErrDcnUsrNotCn
  else do
    let w ← callIoOpUsrEnt
      (entry.mapUser fun u => { u with status := statusDcn, ip := 0, port := 0 }) .modify
    return if w.1 = dbmsErrNotExists then srvErrDcnUsrNotExists
      else if w.1 < 0 then srvErrDcnAny else srvSuccess

/-- `srv_disconnect` -/
def srvDisconnectBody (username : Bytes) : Srv Unit := do
  let junk ← uninit
  let r ← callIoOpUsrEnt ⟨username, .user junk.user⟩ .read
  let code ← srvDisconnectReply r.1 r.2
  let _ ← sendServerReply code
  return ()

/-- The end of `srv_send`: the reply to the sender, and the second acknowledgement
when the recipient is still connected. -/
def srvSendFinish (sender : Bytes) (code : UInt8) (recipientEntry msgEntry : Entry) :
    Srv Unit := do
  auxSendFirstAck code msgEntry.msg.id
  if recipientEntry.user.status = statusCn then do
    let junk ← uninit
    let _ ← cltSendMessAck ⟨opSendMessAck, ⟨[], recipientEntry.user.lastMsgId, []⟩⟩
      ⟨sender, .user junk.user⟩
    return ()
  else return ()

/-- `srv_send`; `junk.byte` is `send_msg_reply.server_error_code`, which nothing
assigns. -/
def srvSendBody (sender recipient content : Bytes) : Srv Unit := do
  let junk ← uninit
  let i ← auxSendInit sender recipient ⟨[], .user junk.user⟩
  if i.1 ≠ srvSuccess then do
    let _ ← sendServerReply i.1
    return ()
  else do
    let p ← auxSendMsgPass sender recipient content i.1 i.2
    if p.2.1.user.status = statusDcn ∨ junk.byte ≠ srvSuccess then do
      let w ← callIoOpUsrEnt p.2.2 .create
      srvSendFinish sender (if w.1 < 0 then srvErrSendAny else p.1) p.2.1 p.2.2
    else srvSendFinish sender p.1 p.2.1 p.2.2

/-! ## Receiving the fields -/

/-- The arrays of `request_t` that a service receives into.  `username` is also
`recipient`, and `clientPort` starts where `message.sender` does: the members of the
union overlap. -/
structure Request where
  opCode : Bytes
  username : Bytes
  clientPort : Bytes
  content : Bytes
  deriving DecidableEq, Inhabited

/-- `srv_register` -/
def srvRegister (request : Request) : Srv Unit := do
  let u ← recvString request.username
  if u.1 < 0 then return () else srvRegisterBody (cstr u.2)

/-- `srv_unregister` -/
def srvUnregister (request : Request) : Srv Unit := do
  let u ← recvString request.username
  if u.1 < 0 then return () else srvUnregisterBody (cstr u.2)

/-- `srv_connect` -/
def srvConnect (fuel : ℕ) (request : Request) : Srv (Option Unit) := do
  let u ← recvString request.username
  if u.1 < 0 then return some ()
  else do
    let p ← recvString request.clientPort
    if p.1 < 0 then return some () else srvConnectBody fuel (cstr u.2) (cstr p.2)

/-- `srv_disconnect` -/
def srvDisconnect (request : Request) : Srv Unit := do
  let u ← recvString request.username
  if u.1 < 0 then return () else srvDisconnectBody (cstr u.2)

/-- `srv_send`: the sender is received into `message.sender`, the recipient into
`recipient`. -/
def srvSend (request : Request) : Srv Unit := do
  let s ← recvString request.clientPort
  if s.1 < 0 then return ()
  else do
    let r ← recvString request.username
    if r.1 < 0 then return ()
    else do
      let c ← recvString request.content
      if c.1 < 0 then return () else srvSendBody (cstr s.2) (cstr r.2) (cstr c.2)

/-- A service that always ends. -/
def finished (p : Srv Unit) : Srv (Option Unit) := do
  p
  return some ()

/-- What `service_thread` does with a dequeued connection: receive the operation
code and call the service. -/
def serviceThread (fuel : ℕ) (request : Request) : Srv (Option Unit) := do
  let o ← recvString request.opCode
  if o.1 = -1 then return some ()
  else
    let opCode := cstr o.2
    if opCode = opRegister then finished (srvRegister request)
    else if opCode = opUnregister then finished (srvUnregister request)
    else if opCode = opConnect then srvConnect fuel request
    else if opCode = opDisconnect then finished (srvDisconnect request)
    else if opCode = opSend then finished (srvSend request)
    else return some ()

/-! ## Semantics of the steps -/

/-- The database, and what is left on the connection being served. -/
structure SrvWorld where
  fs : FS
  input : List ReadEv

/-- A bound that no chain of directories reaches. -/
def FS.depth (fs : FS) : ℕ := fs.nodes.entries.length + 1

/-- How the environment resolves one step: the system calls of a library call, the
outcome of a socket call, the peer's address, the contents of the locals. -/
structure SrvChoice where
  sys : ℕ → SysChoice
  ok : Bool
  ip : Option UInt32
  junk : Junk

/-- Everything succeeds, and the locals happen to be zero. -/
instance : Inhabited SrvChoice := ⟨⟨fun _ => default, true, some 0, default⟩⟩

/-- One step of a service thread under a choice. -/
def srvApply (c : SrvChoice) : (o : SrvOp) → SrvWorld → o.Ans × SrvWorld
  | .recv buf, w =>
      let r := readLine w.input buf maxMsgSize
      ((r.1, r.2.1), { w with input := r.2.2 })
  | .db call, w =>
      let r := (call.prog w.fs.depth).run sysStep c.sys w.fs
      (r.2.1, { w with fs := r.2.2 })
  | .getpeername, w => (c.ip, w)
  | .socket, w => (c.ok, w)
  | .connect _ _, w => (c.ok, w)
  | .write _ _, w => (c.ok, w)
  | .close _, w => ((), w)
  | .uninit, w => (c.junk, w)
  | .note _, w => ((), w)

/-- A library call as one atomic step.  `T` says which traces of system calls are
considered. -/
def DbStep (T : DbCall → List sysE.Event → Prop) (fs : FS) (call : DbCall) (x : call.Ans)
    (fs' : FS) : Prop :=
  ∃ t, Exec SysStep (call.prog fs.depth) fs t x fs' ∧ T call t

/-- One step of a service thread: a library call acts on the database, a receive on
the connection, and every other answer is free. -/
def SrvStep (T : DbCall → List sysE.Event → Prop) (w : SrvWorld) :
    (o : SrvOp) → o.Ans → SrvWorld → Prop
  | .db call, x, w' => DbStep T w.fs call x w'.fs ∧ w'.input = w.input
  | .recv buf, x, w' =>
      w'.fs = w.fs ∧ readLine w.input buf maxMsgSize = (x.1, x.2, w'.input)
  | .getpeername, _, w' => w' = w
  | .socket, _, w' => w' = w
  | .connect _ _, _, w' => w' = w
  | .write _ _, _, w' => w' = w
  | .close _, _, w' => w' = w
  | .uninit, _, w' => w' = w
  | .note _, _, w' => w' = w

/-- System calls fail only where the state of the file system dictates it. -/
def noFaults (_ : DbCall) (t : List sysE.Event) : Prop := NoFault t

/-- System calls may fail at any moment. -/
def anyFaults (_ : DbCall) (_ : List sysE.Event) : Prop := True
