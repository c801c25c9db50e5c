/-
# Client calls without a server

`connect_socket` returns `None` when the server cannot be reached.  Each call has a branch for
that, which sets an error code, inside a `with` statement, which a `None` does not survive.

* `ClientProcess`: a client with its listening threads, each of which has a socket;
* `connectSocket`, `withSocket`, `requestReply`: the part that the calls share;
* `ClientCall.process`: the calls, with the threads they start and end;
* `ClientCall.process_run`: apart from the threads they are the calls of `ClientReply`;
* `ClientCall.process_unreachable`: without a server every call raises an exception, and
  `connect` leaves its thread behind.
-/
import MessageServer.ClientReply

/-! ## Threads and sockets -/

/-- A thread in `listen_and_accept`, with the port of its socket. -/
structure ListenThread where
  thread : ℕ
  port : ℕ
  deriving DecidableEq

/-- A client, its `_receiving_thread`, the listening threads that run, and the number of threads
started so far. -/
structure ClientProcess where
  client : Client
  receivingThread : Option ℕ
  listening : List ListenThread
  started : ℕ
  deriving DecidableEq

/-- A listening socket, and a thread on it. -/
def ClientProcess.startThread (self : ClientProcess) (port : ℕ) : ClientProcess :=
  { self with listening := ⟨self.started, port⟩ :: self.listening, started := self.started + 1 }

/-- The thread at the port receives the whole `END_LISTEN_THREAD`. -/
def Network.stops (net : Network) : Option ℕ → Bool
  | some port => net.endConnects port && (net.endSends 0 && net.endSends 1)
  | none => false

/-- What `end_listen_thread` leaves: a thread that gets the message ends and closes its socket. -/
def ClientProcess.endThread (self : ClientProcess) (net : Network) (port : Option ℕ) :
    ClientProcess :=
  if net.stops port then
    { self with listening := self.listening.filter fun l => some l.port ≠ port }
  else self

/-! ## The connection -/

/-- `connect_socket`; `none` is the `None` that it returns behind `except socket.error`. -/
def connectSocket (net : Network) : Option ServerEnd :=
  if net.connects then some net.server else none

/-- `with … as sock`: `None` is no context manager, and the body is not reached. -/
def withSocket {α : Type} (sock : Option ServerEnd) (body : Option ServerEnd → Outcome α) :
    Outcome α :=
  match sock with
  | some peer => body (some peer)
  | none => .raised

/-- The `with` statement that the calls share: the error code, and the socket to read on from. -/
def requestReply (net : Network) (raises : Bool) (anyCode : ℕ) :
    Outcome (ℕ × Option ServerEnd) :=
  withSocket (connectSocket net) fun sock =>
    match sock with
    | some peer =>
        if raises then .raised
        else peer.receiveServerErrorCode.map fun reply => (reply.1, some reply.2)
    -- socket error
    | none => .returned (anyCode, none)

/-- `EC.REGISTER_ANY` -/
def ecRegisterAny : ℕ := 2
/-- `EC.UNREGISTER_ANY` -/
def ecUnregisterAny : ℕ := 2
/-- `EC.CONNECT_ANY` -/
def ecConnectAny : ℕ := 3
/-- `EC.DISCONNECT_ANY` -/
def ecDisconnectAny : ℕ := 3
/-- `EC.SEND_ANY` -/
def ecSendAny : ℕ := 2

/-! ## The calls -/

namespace ClientProcess

/-- `Client.register` -/
def register (self : ClientProcess) (net : Network) (user : PyStr) : Outcome ℕ × ClientProcess :=
  match requestReply net (tryHeader net.sends "REGISTER".toList (some user)) ecRegisterAny with
  | .returned reply => (.returned reply.1, self)
  | .raised => (.raised, self)
  | .blocked => (.blocked, self)

/-- `Client.unregister` -/
def unregister (self : ClientProcess) (net : Network) (user : PyStr) :
    Outcome ℕ × ClientProcess :=
  match requestReply net (tryHeader net.sends "UNREGISTER".toList (some user)) ecUnregisterAny with
  | .returned reply =>
      if reply.1 = ecSuccess then
        if self.client.hasUser then
          let left := { self with client := { self.client with connectedUser := none } }
          (endListenThread net (some user) self.client.listeningPort reply.1,
            left.endThread net self.client.listeningPort)
        else (.returned reply.1, self)
      else (.returned reply.1, self)
  | .raised => (.raised, self)
  | .blocked => (.blocked, self)

/-- `Client.connect` -/
def connect (self : ClientProcess) (net : Network) (user : PyStr) : Outcome ℕ × ClientProcess :=
  if self.client.hasOtherUser user then (.returned ecDiffUsrCn, self)
  else
    match net.listening with
    | none => (.raised, self)
    | some port =>
        let listens := self.startThread port
        match requestReply net (tryConnectionRequest net.sends user (toString port).toList)
          ecConnectAny with
        | .returned reply =>
            if reply.1 = ecSuccess then
              (.returned reply.1,
                { listens with
                  client :=
                    { self.client with connectedUser := some user, listeningPort := some port }
                  receivingThread := some self.started })
            else (endListenThread net (some user) (some port) reply.1,
              listens.endThread net (some port))
        -- the thread has been started
        | .raised => (.raised, listens)
        | .blocked => (.blocked, listens)

/-- `Client.disconnect` -/
def disconnect (self : ClientProcess) (net : Network) (user : PyStr) :
    Outcome ℕ × ClientProcess :=
  if self.client.hasOtherUser user then (.returned ecDiffUsrCn, self)
  else
    match requestReply net (tryHeader net.sends "DISCONNECT".toList (some user))
      ecDisconnectAny with
    | .returned reply =>
        if reply.1 = ecSuccess then
          let left := { self with client := { self.client with connectedUser := none } }
          (endListenThread net (some user) self.client.listeningPort reply.1,
            left.endThread net self.client.listeningPort)
        else (.returned reply.1, self)
    | .raised => (.raised, self)
    | .blocked => (.blocked, self)

/-- `Client.send` -/
def send (self : ClientProcess) (net : Network) (recipient message : PyStr) :
    Outcome ℕ × ClientProcess :=
  match net.remove message with
  | none => (.raised, self)
  | some message =>
      match requestReply net (tryMessageRequest net.sends self.client.connectedUser
        recipient message)
        ecSendAny with
      | .returned reply =>
          if reply.1 = ecSuccess then
            match reply.2 with
            | some peer => (peer.receiveString.map fun _ => reply.1, self)
            -- `receive_string` of `None`
            | none => (.raised, self)
          else (.returned reply.1, self)
      | .raised => (.raised, self)
      | .blocked => (.blocked, self)

end ClientProcess

/-- What a call returns, and the client and its threads after it. -/
def ClientCall.process (net : Network) (self : ClientProcess) :
    ClientCall → Outcome ℕ × ClientProcess
  | .register user => self.register net user
  | .unregister user => self.unregister net user
  | .connect user => self.connect net user
  | .disconnect user => self.disconnect net user
  | .send recipient message => self.send net recipient message

/-! ## The same calls -/

section Same

variable {net : Network} {self : ClientProcess}

@[simp] theorem client_startThread (port : ℕ) : (self.startThread port).client = self.client :=
  rfl

@[simp] theorem client_endThread (port : Option ℕ) :
    (self.endThread net port).client = self.client := by
  unfold ClientProcess.endThread
  split <;> rfl

/-- The branch for a socket error is never taken. -/
theorem requestReply_eq (raises : Bool) (anyCode : ℕ) :
    requestReply net raises anyCode = (exchange net raises).map fun reply =>
      (reply.1, some reply.2) := by
  unfold requestReply connectSocket exchange
  cases net.connects with
  | false => rfl
  | true =>
      cases raises with
      | true => rfl
      | false => rfl

/-- **Apart from the threads, the calls are those of a `Client`.** -/
theorem ClientCall.process_run (call : ClientCall) :
    (call.process net self).1 = (call.run net self.client).1 ∧
      (call.process net self).2.client = (call.run net self.client).2 := by
  cases call with
  | register user =>
      simp only [ClientCall.process, ClientCall.run, ClientProcess.register, Client.register,
        requestReply_eq]
      cases exchange net (tryHeader net.sends "REGISTER".toList (some user)) <;>
        exact ⟨rfl, rfl⟩
  | unregister user =>
      simp only [ClientCall.process, ClientCall.run, ClientProcess.unregister, Client.unregister,
        requestReply_eq]
      cases exchange net (tryHeader net.sends "UNREGISTER".toList (some user)) with
      | returned reply =>
          by_cases hcode : reply.1 = ecSuccess <;> cases huser : self.client.hasUser <;>
            simp [Outcome.map, hcode]
      | raised => exact ⟨rfl, rfl⟩
      | blocked => exact ⟨rfl, rfl⟩
  | connect user =>
      simp only [ClientCall.process, ClientCall.run, ClientProcess.connect, Client.connect,
        requestReply_eq]
      cases self.client.hasOtherUser user with
      | true => exact ⟨rfl, rfl⟩
      | false =>
          cases net.listening with
          | none => exact ⟨rfl, rfl⟩
          | some port =>
              dsimp only
              cases exchange net (tryConnectionRequest net.sends user (toString port).toList) with
              | returned reply => by_cases hcode : reply.1 = ecSuccess <;> simp [Outcome.map, hcode]
              | raised => exact ⟨rfl, rfl⟩
              | blocked => exact ⟨rfl, rfl⟩
  | disconnect user =>
      simp only [ClientCall.process, ClientCall.run, ClientProcess.disconnect, Client.disconnect,
        requestReply_eq]
      cases self.client.hasOtherUser user with
      | true => exact ⟨rfl, rfl⟩
      | false =>
          cases exchange net (tryHeader net.sends "DISCONNECT".toList (some user)) with
          | returned reply => by_cases hcode : reply.1 = ecSuccess <;> simp [Outcome.map, hcode]
          | raised => exact ⟨rfl, rfl⟩
          | blocked => exact ⟨rfl, rfl⟩
  | send recipient message =>
      simp only [ClientCall.process, ClientCall.run, ClientProcess.send, Client.send,
        requestReply_eq]
      cases net.remove message with
      | none => exact ⟨rfl, rfl⟩
      | some text =>
          dsimp only
          cases exchange net (tryMessageRequest net.sends self.client.connectedUser
            recipient text) with
          | returned reply => by_cases hcode : reply.1 = ecSuccess <;> simp [Outcome.map, hcode]
          | raised => exact ⟨rfl, rfl⟩
          | blocked => exact ⟨rfl, rfl⟩

end Same

/-! ## Without a server -/

/-- `_ANY` of the call. -/
def ClientCall.anyCode : ClientCall → ℕ
  | .register _ => ecRegisterAny
  | .unregister _ => ecUnregisterAny
  | .connect _ => ecConnectAny
  | .disconnect _ => ecDisconnectAny
  | .send _ _ => ecSendAny

/-- The call gets as far as connecting to the server. -/
def ClientCall.attempts (net : Network) (self : ClientProcess) : ClientCall → Bool
  | .register _ => true
  | .unregister _ => true
  | .connect user => !self.client.hasOtherUser user && net.listening.isSome
  | .disconnect user => !self.client.hasOtherUser user
  | .send _ message => (net.remove message).isSome

/-- What a call without a server should do. -/
structure ClientCall.Survives (net : Network) (before : ClientProcess) (call : ClientCall) :
    Prop where
  code : (call.process net before).1 = .returned call.anyCode
  client : (call.process net before).2.client = before.client
  receivingThread : (call.process net before).2.receivingThread = before.receivingThread
  listening : ∀ l ∈ (call.process net before).2.listening, l ∈ before.listening

section Unreachable

variable {net : Network} {self : ClientProcess}

theorem requestReply_unreachable (hdown : net.connects = false) (raises : Bool) (anyCode : ℕ) :
    requestReply net raises anyCode = .raised := by
  unfold requestReply connectSocket
  rw [hdown]
  rfl

/-- The threads after a call that could not connect. -/
def ClientCall.leaves (net : Network) (self : ClientProcess) : ClientCall → ClientProcess
  | .connect _ =>
      match net.listening with
      | some port => self.startThread port
      | none => self
  | _ => self

/-- **Without a server a call raises an exception, and `connect` leaves its thread behind.** -/
theorem ClientCall.process_unreachable (hdown : net.connects = false) (call : ClientCall)
    (hattempts : call.attempts net self = true) :
    call.process net self = (.raised, call.leaves net self) := by
  have hreply := fun raises anyCode => requestReply_unreachable hdown raises anyCode
  cases call with
  | register user =>
      simp only [ClientCall.process, ClientProcess.register, hreply]
      rfl
  | unregister user =>
      simp only [ClientCall.process, ClientProcess.unregister, hreply]
      rfl
  | connect user =>
      unfold ClientCall.attempts at hattempts
      rw [Bool.and_eq_true, Bool.not_eq_true', Option.isSome_iff_exists] at hattempts
      obtain ⟨hother, port, hport⟩ := hattempts
      simp only [ClientCall.process, ClientProcess.connect, ClientCall.leaves, hother,
        hport, hreply]
      rfl
  | disconnect user =>
      unfold ClientCall.attempts at hattempts
      rw [Bool.not_eq_true'] at hattempts
      simp only [ClientCall.process, ClientProcess.disconnect, hattempts, hreply]
      rfl
  | send recipient message =>
      obtain ⟨text, htext⟩ := Option.isSome_iff_exists.mp hattempts
      simp only [ClientCall.process, ClientProcess.send, htext, hreply]
      rfl

/-- **No call survives a server that cannot be reached.** -/
theorem ClientCall.not_survives (hdown : net.connects = false) (call : ClientCall)
    (hattempts : call.attempts net self = true) : ¬ call.Survives net self := by
  intro h
  have hcode := h.code
  rw [ClientCall.process_unreachable hdown call hattempts] at hcode
  cases hcode

end Unreachable

/-- A server that accepts no connection. -/
def refusing : Network := { closing with connects := false }

/-- A client that has not connected yet. -/
def freshClient : ClientProcess := ⟨⟨none, none⟩, none, [], 0⟩

theorem not_survives_freshClient :
    ¬ (ClientCall.connect "a".toList).Survives refusing freshClient :=
  ClientCall.not_survives rfl _ (by decide)

/-- `connect` has started its thread. -/
example : ((ClientCall.connect "a".toList).process refusing freshClient).2.listening =
    [⟨0, 50000⟩] := by
  decide

theorem not_unreachable_survives :
    ¬ ∀ (net : Network) (self : ClientProcess) (call : ClientCall), net.connects = false →
      call.attempts net self = true → call.Survives net self := by
  intro h
  have hcode := (h refusing freshClient (.connect "a".toList) rfl (by decide)).code
  rw [ClientCall.process_unreachable rfl _ (by decide)] at hcode
  cases hcode
