/-
# Clients in one process

`util.Request` and `util.Reply` make their header and their item in the class, so all requests of a
process have one header and one item, and all replies another header and another item.  The threads
of all clients of the process assign and read the attributes of these four objects.

* `Attribute`, `PyVal`: the attributes and their values;
* `PyOp`, `AttrStep`: the steps of a thread, one attribute at a time;
* `listenAndAccept`, `session`: what a listening thread does, and a thread that calls the
  operations of a `Client`;
* `Unmixed`: a thread shows what it has received, and sends what its operation has set.
-/
import MessageServer.ClientReply
import MessageServer.Interleaving

namespace InProcess

/-! ## Attributes -/

/-- The class whose header and item it is. -/
inductive Owner
  | request
  | reply
  deriving DecidableEq

/-- The attributes of a header and of an item. -/
inductive Member
  | opCode
  | username
  | listeningPort
  | recipientUsername
  | message
  | messageId
  deriving DecidableEq

/-- An attribute of one of the four objects. -/
abbrev Attribute := Owner × Member

/-- The values of an attribute: a string, `None`, or the class `str` before anything is assigned. -/
inductive PyVal
  | str (s : PyStr)
  | none
  | type
  deriving DecidableEq

/-- `value.encode('ascii')`; no bytes are the exception.  `str.encode('ascii')` encodes the string
`'ascii'`. -/
def PyVal.encode : PyVal → Option Bytes
  | .str s => encodeAscii s
  | .none => Option.none
  | .type => some (ascii "ascii")

/-- A string, or `None`. -/
def PyVal.ofOption : Option PyStr → PyVal
  | some s => .str s
  | Option.none => .none

/-- A request that is filled and sent. -/
inductive Call
  | register (user : PyStr)
  | unregister (user : PyStr)
  | connect (user listeningPort : PyStr)
  | disconnect (user : PyStr)
  | send (connectedUser : Option PyStr) (recipient : PyStr) (message : Option PyStr)
  /-- `end_listen_thread`, in an operation that has set this user. -/
  | endListenThread (user : PyStr)
  deriving DecidableEq

/-- What the operation sets the attributes of its request to. -/
def Call.sets : Call → Member → Option PyVal
  | .register _, .opCode => some (.str "REGISTER".toList)
  | .register user, .username => some (.str user)
  | .unregister _, .opCode => some (.str "UNREGISTER".toList)
  | .unregister user, .username => some (.str user)
  | .connect _ _, .opCode => some (.str "CONNECT".toList)
  | .connect user _, .username => some (.str user)
  | .connect _ listeningPort, .listeningPort => some (.str listeningPort)
  | .disconnect _, .opCode => some (.str "DISCONNECT".toList)
  | .disconnect user, .username => some (.str user)
  | .send _ _ _, .opCode => some (.str "SEND".toList)
  | .send connectedUser _ _, .username => some (PyVal.ofOption connectedUser)
  | .send _ recipient _, .recipientUsername => some (.str recipient)
  | .send _ _ message, .message => message.map .str
  | .endListenThread _, .opCode => some (.str "END_LISTEN_THREAD".toList)
  | .endListenThread user, .username => some (.str user)
  | _, _ => none

/-- The branches of `listen_and_accept`, with what they print. -/
inductive Branch
  | message (messageId username message : PyVal)
  | messageAck (messageId : PyVal)
  | endListenThread
  | invalidOperation
  deriving DecidableEq

/-! ## Threads -/

/-- The steps of a thread. -/
inductive PyOp
  /-- A request is begun; not a step of the source. -/
  | begin (call : Call)
  | assign (a : Attribute) (value : PyVal)
  | get (a : Attribute)
  | bindPort
  | remove (message : PyStr)
  | connect
  /-- `sendall` of an attribute that is encoded. -/
  | send (m : Member) (bytes : Bytes)
  | sendNul
  | receiveCode
  | accept
  | receiveString
  /-- A branch of `listen_and_accept` is taken. -/
  | dispatch (b : Branch)
  deriving DecidableEq

/-- The answers.  An exception leaves no value.  `receive_string` gives `None` behind a
`socket.error`, the web service may give `None` for a string. -/
def PyOp.Ans : PyOp → Type
  | .begin _ => Unit
  | .assign _ _ => Unit
  | .get _ => PyVal
  | .bindPort => Option PyStr
  | .remove _ => Option (Option PyStr)
  | .connect => Bool
  | .send _ _ => Bool
  | .sendNul => Bool
  | .receiveCode => Option ℕ
  | .accept => Bool
  | .receiveString => Option PyVal
  | .dispatch _ => Unit

/-- The signature of a thread. -/
abbrev pyE : Effects := ⟨PyOp, PyOp.Ans⟩

/-- Programs of a thread. -/
abbrev Py := Prog pyE

abbrev begin (call : Call) : Py Unit := @Prog.perform pyE (.begin call)

abbrev assign (a : Attribute) (value : PyVal) : Py Unit := @Prog.perform pyE (.assign a value)

abbrev get (a : Attribute) : Py PyVal := @Prog.perform pyE (.get a)

abbrev bindPort : Py (Option PyStr) := @Prog.perform pyE .bindPort

abbrev remove (message : PyStr) : Py (Option (Option PyStr)) := @Prog.perform pyE (.remove message)

abbrev connectSocket : Py Bool := @Prog.perform pyE .connect

abbrev sendall (m : Member) (bytes : Bytes) : Py Bool := @Prog.perform pyE (.send m bytes)

abbrev sendNul : Py Bool := @Prog.perform pyE .sendNul

abbrev receiveCode : Py (Option ℕ) := @Prog.perform pyE .receiveCode

abbrev accept : Py Bool := @Prog.perform pyE .accept

abbrev receiveString : Py (Option PyVal) := @Prog.perform pyE .receiveString

abbrev dispatch (b : Branch) : Py Unit := @Prog.perform pyE (.dispatch b)

/-- How a function that sends ends. -/
inductive Sends
  | done
  /-- `socket.error`, which is caught. -/
  | failed
  /-- An exception leaves the function. -/
  | raised
  deriving DecidableEq

/-- `sock.sendall(value.encode('ascii'))` and `sock.sendall(b'\0')` -/
def sendMember (m : Member) : Py Sends := do
  let value ← get (.request, m)
  match value.encode with
  | none => return .raised
  | some bytes => do
      let ok ← sendall m bytes
      if ok then do
        let ok ← sendNul
        return if ok then .done else .failed
      else return .failed

/-- One attribute after another. -/
def sendMembers : List Member → Py Sends
  | [] => return .done
  | m :: ms => do
      let r ← sendMember m
      if r = .done then sendMembers ms else return r

/-- `send_header`: whether an exception leaves it. -/
def sendHeader : Py Bool := do
  let r ← sendMembers [.opCode, .username]
  return decide (r = .raised)

/-- `send_connection_request` and `send_message_request`: the header, then the item. -/
def sendItem (members : List Member) : Py Bool := do
  let raised ← sendHeader
  if raised then return true
  else do
    let r ← sendMembers members
    return decide (r = .raised)

/-- Connect, send, receive the error code.  `connect_socket` returns `None` when the server
cannot be reached, at which `with` raises. -/
def exchange (sends : Py Bool) : Py (Option ℕ) := do
  let ok ← connectSocket
  if ok then do
    let raised ← sends
    if raised then return none else receiveCode
  else return none

/-- `end_listen_thread`, in an operation that has set `user`. -/
def endListenThread (user : PyStr) : Py Unit := do
  begin (.endListenThread user)
  assign (.request, .opCode) (.str "END_LISTEN_THREAD".toList)
  let ok ← connectSocket
  if ok then do
    let _ ← sendHeader
    return ()
  else return ()

/-- The header of an operation is filled. -/
def fillHeader (call : Call) (opCode : PyStr) (username : PyVal) : Py Unit := do
  begin call
  assign (.request, .opCode) (.str opCode)
  assign (.request, .username) username

/-- `Client.register`: the client afterwards. -/
def register (self : Client) (user : PyStr) : Py Client := do
  fillHeader (.register user) "REGISTER".toList (.str user)
  let _ ← exchange sendHeader
  return self

/-- `Client.unregister` -/
def unregister (self : Client) (user : PyStr) : Py Client := do
  fillHeader (.unregister user) "UNREGISTER".toList (.str user)
  let code ← exchange sendHeader
  if code = some ecSuccess ∧ self.hasUser then do
    endListenThread user
    return { self with connectedUser := none }
  else return self

/-- `Client.connect`; the listening thread is one of the threads of the process. -/
def connect (self : Client) (user : PyStr) : Py Client :=
  if self.hasOtherUser user then return self
  else do
    match ← bindPort with
    | none => return self
    | some listeningPort => do
        fillHeader (.connect user listeningPort) "CONNECT".toList (.str user)
        assign (.request, .listeningPort) (.str listeningPort)
        let code ← exchange (sendItem [.listeningPort])
        if code = some ecSuccess then return { self with connectedUser := some user }
        else if code = none then return self
        else do
          endListenThread user
          return self

/-- `Client.disconnect` -/
def disconnect (self : Client) (user : PyStr) : Py Client :=
  if self.hasOtherUser user then return self
  else do
    fillHeader (.disconnect user) "DISCONNECT".toList (.str user)
    let code ← exchange sendHeader
    if code = some ecSuccess then do
      endListenThread user
      return { self with connectedUser := none }
    else return self

/-- `Client.send` -/
def send (self : Client) (recipient message : PyStr) : Py Client := do
  match ← remove message with
  | none => return self
  | some message => do
      fillHeader (.send self.connectedUser recipient message) "SEND".toList
        (PyVal.ofOption self.connectedUser)
      assign (.request, .recipientUsername) (.str recipient)
      match message with
      -- `len(None)` raises
      | none => return self
      | some text => do
          assign (.request, .message) (.str text)
          let code ← exchange (sendItem [.recipientUsername, .message])
          -- the message id is only printed
          if code = some ecSuccess then do
            let _ ← receiveString
            return self
          else return self

/-- A call of an operation. -/
def operation (self : Client) : ClientCall → Py Client
  | .register user => register self user
  | .unregister user => unregister self user
  | .connect user => connect self user
  | .disconnect user => disconnect self user
  | .send recipient message => send self recipient message

/-- A thread that calls the operations of a client one after the other. -/
def session : List ClientCall → Client → Py Unit
  | [], _ => return ()
  | call :: calls, self => do
      let self ← operation self call
      session calls self

/-- The branch of `SEND_MESSAGE` in `listen_and_accept`. -/
def listenMessage (loop : Py Unit) : Py Unit := do
  match ← receiveString with
  | none => return ()
  | some username => do
      assign (.reply, .username) username
      match ← receiveString with
      | none => return ()
      | some messageId => do
          assign (.reply, .messageId) messageId
          match ← receiveString with
          | none => return ()
          | some message => do
              assign (.reply, .message) message
              let messageId ← get (.reply, .messageId)
              let username ← get (.reply, .username)
              let message ← get (.reply, .message)
              dispatch (.message messageId username message)
              loop

/-- The branch of `SEND_MESS_ACK`. -/
def listenAck (loop : Py Unit) : Py Unit := do
  match ← receiveString with
  | none => return ()
  | some messageId => do
      assign (.reply, .messageId) messageId
      let messageId ← get (.reply, .messageId)
      dispatch (.messageAck messageId)
      loop

/-- `listen_and_accept`, at most `fuel` times round its loop.  The op code is read again for every
comparison. -/
def listenAndAccept : ℕ → Py Unit
  | 0 => return ()
  | fuel + 1 => do
      let ok ← accept
      if ok then do
        match ← receiveString with
        | none => return ()
        | some opCode => do
            assign (.reply, .opCode) opCode
            let first ← get (.reply, .opCode)
            if first = .str "SEND_MESSAGE".toList then listenMessage (listenAndAccept fuel)
            else do
              let second ← get (.reply, .opCode)
              if second = .str "SEND_MESS_ACK".toList then listenAck (listenAndAccept fuel)
              else do
                let third ← get (.reply, .opCode)
                dispatch (if third = .str "END_LISTEN_THREAD".toList then .endListenThread
                  else .invalidOperation)
      else return ()

/-- The threads of a process. -/
inductive PyThread
  | session (calls : List ClientCall) (self : Client)
  | listening (fuel : ℕ)

/-- The program of a thread. -/
def PyThread.prog : PyThread → Py Unit
  | .session calls self => InProcess.session calls self
  | .listening fuel => listenAndAccept fuel

/-- One step on the attributes of the process: what comes from outside is free. -/
def AttrStep (σ : Attribute → PyVal) : (o : PyOp) → o.Ans → (Attribute → PyVal) → Prop
  | .assign a value, _, σ' => σ' = Function.update σ a value
  | .get a, x, σ' => x = σ a ∧ σ' = σ
  | _, _, σ' => σ' = σ

/-! ## What a thread shows and sends -/

/-- What was received on a connection, after one more step. -/
def receivedStep : List PyVal → pyE.Event → List PyVal
  | _, ⟨.accept, _⟩ => []
  | l, ⟨.receiveString, some value⟩ => l ++ [value]
  | l, _ => l

/-- The strings that a thread has received on the connection it has accepted last. -/
def receivedIn (t : List pyE.Event) : List PyVal := t.foldl receivedStep []

/-- The request that was begun, after one more step. -/
def callStep : Option Call → pyE.Event → Option Call
  | _, ⟨.begin call, _⟩ => some call
  | call, _ => call

/-- The request that a thread has begun last. -/
def callIn (t : List pyE.Event) : Option Call := t.foldl callStep none

/-- The branch is the one for these strings, and shows them. -/
def Branch.Shows (l : List PyVal) : Branch → Prop
  | .message messageId username text => l = [.str "SEND_MESSAGE".toList, username, messageId, text]
  | .messageAck messageId => l = [.str "SEND_MESS_ACK".toList, messageId]
  | .endListenThread => l = [.str "END_LISTEN_THREAD".toList]
  | .invalidOperation =>
      l.length = 1 ∧ ∀ opCode ∈ l, opCode ∉ [PyVal.str "SEND_MESSAGE".toList,
      .str "SEND_MESS_ACK".toList, .str "END_LISTEN_THREAD".toList]

/-- The bytes are the attribute of the request as the operation has set it. -/
def Call.Sends (call : Option Call) (m : Member) (bytes : Bytes) : Prop :=
  ((call.bind fun c => c.sets m).bind PyVal.encode) = some bytes

/-- A step of a thread whose requests and replies are its own, after the steps `before`: the thread
dispatches on and prints what it has received, and sends what the operation has set. -/
def Proper (before : List pyE.Event) : pyE.Event → Prop
  | ⟨.dispatch b, _⟩ => b.Shows (receivedIn before)
  | ⟨.send m bytes, _⟩ => Call.Sends (callIn before) m bytes
  | _ => True

instance (l : List PyVal) : (b : Branch) → Decidable (b.Shows l)
  | .message messageId username text =>
      inferInstanceAs (Decidable (l = [.str "SEND_MESSAGE".toList, username, messageId, text]))
  | .messageAck messageId =>
      inferInstanceAs (Decidable (l = [.str "SEND_MESS_ACK".toList, messageId]))
  | .endListenThread => inferInstanceAs (Decidable (l = [.str "END_LISTEN_THREAD".toList]))
  | .invalidOperation => inferInstanceAs (Decidable (l.length = 1 ∧ ∀ opCode ∈ l, _))

instance (call : Option Call) (m : Member) (bytes : Bytes) : Decidable (Call.Sends call m bytes) :=
  inferInstanceAs (Decidable (_ = _))

instance (before : List pyE.Event) : (ev : pyE.Event) → Decidable (Proper before ev)
  | ⟨.dispatch b, _⟩ => inferInstanceAs (Decidable (b.Shows _))
  | ⟨.send m bytes, _⟩ => inferInstanceAs (Decidable (Call.Sends _ m bytes))
  | ⟨.begin _, _⟩ | ⟨.assign _ _, _⟩ | ⟨.get _, _⟩ | ⟨.bindPort, _⟩ | ⟨.remove _,
      _⟩ | ⟨.connect, _⟩
  | ⟨.sendNul, _⟩ | ⟨.receiveCode, _⟩ | ⟨.accept, _⟩ | ⟨.receiveString, _⟩ =>
      .isTrue trivial

/-- The thread never shows or sends what belongs to another one. -/
def Unmixed (t : List pyE.Event) : Prop :=
  ∀ before ev after, t = before ++ ev :: after → Proper before ev

theorem unmixed_iff {t : List pyE.Event} :
    Unmixed t ↔ ∀ k, ∀ hk : k < t.length, Proper (t.take k) t[k] := forall_split_iff

instance (t : List pyE.Event) : Decidable (Unmixed t) := decidable_of_iff _ unmixed_iff.symm

/-! ## Who writes last -/

variable {ι : Type}

/-- The last thread that has assigned the attribute, after one more step. -/
def writerStep (a : Attribute) : Option ι → ι × pyE.Event → Option ι
  | w, (i, ⟨.assign b _, _⟩) => if b = a then some i else w
  | w, _ => w

/-- The last thread that has assigned the attribute. -/
def lastWriter (a : Attribute) (t : List (ι × pyE.Event)) : Option ι :=
  t.foldl (writerStep a) none

/-- A read of an attribute that the thread itself has assigned last. -/
def OwnRead (before : List (ι × pyE.Event)) : ι × pyE.Event → Prop
  | (i, ⟨.get a, _⟩) => lastWriter a before = some i
  | _ => True

instance [DecidableEq ι] (before : List (ι × pyE.Event)) (ev : ι × pyE.Event) :
    Decidable (OwnRead before ev) :=
  match ev with
  | (i, ⟨.get a, _⟩) => inferInstanceAs (Decidable (lastWriter a before = some i))
  | (_, ⟨.begin _, _⟩) | (_, ⟨.assign _ _, _⟩) | (_, ⟨.bindPort, _⟩) | (_,
      ⟨.remove _, _⟩)
  | (_, ⟨.connect, _⟩) | (_, ⟨.send _ _, _⟩) | (_, ⟨.sendNul, _⟩) | (_,
      ⟨.receiveCode, _⟩)
  | (_, ⟨.accept, _⟩) | (_, ⟨.receiveString, _⟩) | (_, ⟨.dispatch _, _⟩) =>
      .isTrue trivial

/-- Between a thread's assignment of an attribute and its reads of it, no other thread assigns
it. -/
def Undisturbed (t : List (ι × pyE.Event)) : Prop :=
  ∀ before ev after, t = before ++ ev :: after → OwnRead before ev

theorem undisturbed_iff {t : List (ι × pyE.Event)} :
    Undisturbed t ↔ ∀ k, ∀ hk : k < t.length, OwnRead (t.take k) t[k] := forall_split_iff

instance [DecidableEq ι] (t : List (ι × pyE.Event)) : Decidable (Undisturbed t) :=
  decidable_of_iff _ undisturbed_iff.symm

end InProcess
