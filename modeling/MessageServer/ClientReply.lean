/-
# What the client makes of a connection that breaks off

`Client` (`client.py`) reports what the server wrote.  The server's end of a connection can
end at any point: by a close, by a reset, or by a peer that falls silent.

* `ServerEnd`, `Network`: what a call meets;
* `ServerEnd.receiveServerErrorCode`, `ServerEnd.receiveString`: reading up to the end;
* `tryWrites`, `exchange`, `endListenThread`: the parts that the calls share;
* `Client.register`, …, `Client.send`: the calls, which change `_connected_user` and
  `_listening_port`;
* `ClientCall.reports_iff`: a report of success is the server's own, unless the call misreads
  the end of the connection.
-/
import MessageServer.Client

/-! ## The other end -/

/-- What follows the last byte of the server. -/
inductive Ending
  /-- `recv` returns nothing. -/
  | closed
  /-- `recv` raises `socket.error`. -/
  | reset
  /-- `recv` does not return. -/
  | silent
  deriving DecidableEq

/-- The server's end of a connection. -/
structure ServerEnd where
  bytes : Bytes
  ending : Ending
  deriving DecidableEq

/-- How a function ends. -/
inductive Outcome (α : Type)
  | returned (value : α)
  /-- An exception leaves the function. -/
  | raised
  | blocked
  deriving DecidableEq

/-- The outcome with another value. -/
def Outcome.map {α β : Type} (f : α → β) : Outcome α → Outcome β
  | .returned value => .returned (f value)
  | .raised => .raised
  | .blocked => .blocked

/-- `receive_server_error_code`, with the error code and what is left to read. -/
def ServerEnd.receiveServerErrorCode (peer : ServerEnd) : Outcome (ℕ × ServerEnd) :=
  match peer.bytes, peer.ending with
  | b :: rest, _ => .returned (b.toNat, ⟨rest, peer.ending⟩)
  -- `int.from_bytes` of nothing
  | [], .closed => .returned (0, peer)
  | [], .reset => .raised
  | [], .silent => .blocked

/-- `receive_string`; `none` is the `None` that it returns behind `except socket.error`. -/
def ServerEnd.receiveString (peer : ServerEnd) : Outcome (Option PyStr) :=
  match receiveStringLoop peer.bytes [] with
  | .got string _ => .returned (some string)
  | .undecodable => .raised
  | .endless =>
      match peer.ending with
      -- an empty string is not the NUL, and `''.decode()` adds nothing: the loop goes on
      | .closed => .blocked
      | .reset => .returned none
      | .silent => .blocked

/-- The system calls of a client as one call meets them. -/
structure Network where
  /-- The port of the listening socket; `none` when it cannot be set up. -/
  listening : Option ℕ
  /-- The server accepts the connection. -/
  connects : Bool
  /-- Which `sendall` succeeds. -/
  sends : ℕ → Bool
  /-- What the server does with the connection. -/
  server : ServerEnd
  /-- The ports at which a listening thread accepts a connection. -/
  endConnects : ℕ → Bool
  /-- Which `sendall` to the listening thread succeeds. -/
  endSends : ℕ → Bool
  /-- The web service; `none` when calling it raises an exception. -/
  remove : PyStr → Option PyStr

/-- The attributes of a `Client` that its calls read. -/
structure Client where
  connectedUser : Option PyStr
  listeningPort : Option ℕ
  deriving DecidableEq

/-- `if self._connected_user` -/
def Client.hasUser (self : Client) : Bool := self.connectedUser.any fun user => !user.isEmpty

/-- `if self._connected_user and user != self._connected_user` -/
def Client.hasOtherUser (self : Client) (user : PyStr) : Bool :=
  self.hasUser && decide (some user ≠ self.connectedUser)

/-! ## The calls -/

/-- Writes from the `n`-th `sendall` on in a `try` block: whether an exception leaves it.  A
`sendall` that fails ends the block, and only `encode` raises what is not caught. -/
def tryWrites (sends : ℕ → Bool) : ℕ → List Sent → Bool
  | _, [] => false
  | n, s :: ss => s.raised || (sends n && tryWrites sends (n + 1) ss)

/-- `username.encode('ascii')`, where the name may be `None`. -/
def sendUsername : Option PyStr → Sent
  | some username => sendAscii username
  | none => ⟨[], true⟩

/-- `send_header` -/
def tryHeader (sends : ℕ → Bool) (opCode : PyStr) (username : Option PyStr) : Bool :=
  tryWrites sends 0 [sendAscii opCode, sendNul, sendUsername username, sendNul]

/-- `send_connection_request` -/
def tryConnectionRequest (sends : ℕ → Bool) (user listeningPort : PyStr) : Bool :=
  tryHeader sends "CONNECT".toList (some user) ||
    tryWrites sends 4 [sendAscii listeningPort, sendNul]

/-- `send_message_request` -/
def tryMessageRequest (sends : ℕ → Bool) (username : Option PyStr) (recipient message : PyStr) :
    Bool :=
  tryHeader sends "SEND".toList username ||
    tryWrites sends 4 [sendAscii recipient, sendNul, sendAscii message, sendNul]

/-- Connect, write the request, read the error code; `raises` says that writing raises an
exception. -/
def exchange (net : Network) (raises : Bool) : Outcome (ℕ × ServerEnd) :=
  -- `connect_socket` returns `None`, at which `with` raises before `if sock`
  if !net.connects then .raised
  else if raises then .raised
  else net.server.receiveServerErrorCode

/-- `end_listen_thread` goes through. -/
def Network.ends (net : Network) (username : Option PyStr) : Option ℕ → Bool
  | some port => net.endConnects port &&
      !tryHeader net.endSends "END_LISTEN_THREAD".toList username
  -- `connect` takes no `None` for a port
  | none => false

/-- `end_listen_thread`, and then return `code`.  The header of every request is the same object,
so that the username is that of the request before. -/
def endListenThread (net : Network) (username : Option PyStr) (port : Option ℕ) (code : ℕ) :
    Outcome ℕ :=
  if net.ends username port then .returned code else .raised

/-- `EC.CONNECT_DIFF_USR_CN` and `EC.DISCONNECT_DIFF_USR_CN` -/
def ecDiffUsrCn : ℕ := 4

/-- `Client.register` -/
def Client.register (self : Client) (net : Network) (user : PyStr) : Outcome ℕ × Client :=
  match exchange net (tryHeader net.sends "REGISTER".toList (some user)) with
  | .returned reply => (.returned reply.1, self)
  | .raised => (.raised, self)
  | .blocked => (.blocked, self)

/-- `Client.unregister` -/
def Client.unregister (self : Client) (net : Network) (user : PyStr) : Outcome ℕ × Client :=
  match exchange net (tryHeader net.sends "UNREGISTER".toList (some user)) with
  | .returned reply =>
      if reply.1 = ecSuccess then
        -- whoever is connected
        if self.hasUser then
          (endListenThread net (some user) self.listeningPort reply.1,
            { self with connectedUser := none })
        else (.returned reply.1, self)
      else (.returned reply.1, self)
  | .raised => (.raised, self)
  | .blocked => (.blocked, self)

/-- `Client.connect` -/
def Client.connect (self : Client) (net : Network) (user : PyStr) : Outcome ℕ × Client :=
  if self.hasOtherUser user then (.returned ecDiffUsrCn, self)
  else
    match net.listening with
    | none => (.raised, self)
    | some port =>
        match exchange net (tryConnectionRequest net.sends user (toString port).toList) with
        | .returned reply =>
            if reply.1 = ecSuccess then
              (.returned reply.1,
                { self with connectedUser := some user, listeningPort := some port })
            else (endListenThread net (some user) (some port) reply.1, self)
        | .raised => (.raised, self)
        | .blocked => (.blocked, self)

/-- `Client.disconnect` -/
def Client.disconnect (self : Client) (net : Network) (user : PyStr) : Outcome ℕ × Client :=
  if self.hasOtherUser user then (.returned ecDiffUsrCn, self)
  else
    match exchange net (tryHeader net.sends "DISCONNECT".toList (some user)) with
    | .returned reply =>
        if reply.1 = ecSuccess then
          (endListenThread net (some user) self.listeningPort reply.1,
            { self with connectedUser := none })
        else (.returned reply.1, self)
    | .raised => (.raised, self)
    | .blocked => (.blocked, self)

/-- `Client.send`; a text that is too long is only reported on the screen. -/
def Client.send (self : Client) (net : Network) (recipient message : PyStr) :
    Outcome ℕ × Client :=
  match net.remove message with
  | none => (.raised, self)
  | some message =>
      match exchange net (tryMessageRequest net.sends self.connectedUser recipient message) with
      | .returned reply =>
          -- the message id is only printed
          if reply.1 = ecSuccess then (reply.2.receiveString.map fun _ => reply.1, self)
          else (.returned reply.1, self)
      | .raised => (.raised, self)
      | .blocked => (.blocked, self)

/-- A call of the client. -/
inductive ClientCall
  | register (user : PyStr)
  | unregister (user : PyStr)
  | connect (user : PyStr)
  | disconnect (user : PyStr)
  | send (recipient message : PyStr)

/-- What a call returns, and the client after it. -/
def ClientCall.run (net : Network) (self : Client) : ClientCall → Outcome ℕ × Client
  | .register user => self.register net user
  | .unregister user => self.unregister net user
  | .connect user => self.connect net user
  | .disconnect user => self.disconnect net user
  | .send recipient message => self.send net recipient message

/-! ## Reading up to the end -/

/-- The error code is 0 at the byte 0, and at a close without a byte. -/
theorem receiveServerErrorCode_eq_success {peer rest : ServerEnd} :
    peer.receiveServerErrorCode = .returned (ecSuccess, rest) ↔
      (peer = ⟨[], .closed⟩ ∧ rest = peer) ∨ peer = ⟨0 :: rest.bytes, rest.ending⟩ := by
  obtain ⟨bytes, ending⟩ := peer
  obtain ⟨bytes', ending'⟩ := rest
  cases bytes with
  | nil =>
      cases ending with
      | closed =>
          simp only [ServerEnd.receiveServerErrorCode, ecSuccess, Outcome.returned.injEq,
            Prod.mk.injEq,
            true_and, ServerEnd.mk.injEq, reduceCtorEq, false_and, or_false]
          exact and_congr eq_comm eq_comm
      | reset => simp [ServerEnd.receiveServerErrorCode]
      | silent => simp [ServerEnd.receiveServerErrorCode]
  | cons b bytes =>
      have hb : b.toNat = ecSuccess ↔ b = 0 := UInt8.toNat_inj (b := 0)
      simp only [ServerEnd.receiveServerErrorCode, Outcome.returned.injEq, Prod.mk.injEq, hb,
        ServerEnd.mk.injEq, List.cons.injEq, reduceCtorEq, false_and, false_or, and_assoc]

/-- The loop of `receive_string` meets the end when there is no NUL. -/
theorem receiveStringLoop_eq_endless {bs : Bytes} {string : PyStr} :
    receiveStringLoop bs string = .endless ↔ AsciiText bs := by
  induction bs generalizing string with
  | nil => simp [receiveStringLoop, AsciiText]
  | cons b bs ih =>
      rw [receiveStringLoop]
      unfold AsciiText
      rw [List.forall_mem_cons]
      by_cases hb : b = 0
      · simp [hb]
      by_cases hascii : b.toNat < 128
      · simp only [hb, hascii, decodeByte, if_true, if_false, ih, AsciiText, ne_eq,
          not_false_eq_true,
          and_self, true_and]
      · simp [hb, hascii, decodeByte]

/-- The loop of `receive_string` returns at the first NUL. -/
theorem receiveStringLoop_got {bs rest : Bytes} {string s : PyStr}
    (h : receiveStringLoop bs string = .got s rest) :
    ∃ id, AsciiText id ∧ bs = id ++ 0 :: rest := by
  induction bs generalizing string with
  | nil => cases h
  | cons b bs ih =>
      rw [receiveStringLoop] at h
      split at h
      · rename_i hb
        cases h
        exact ⟨[], by simp [AsciiText], by rw [hb]; rfl⟩
      · rename_i hb
        unfold decodeByte at h
        split at h
        · rename_i c hc
          obtain ⟨id, hid, rfl⟩ := ih h
          refine ⟨b :: id, ?_, rfl⟩
          have hascii : b.toNat < 128 := by
            by_contra hlt
            rw [if_neg hlt] at hc
            cases hc
          exact List.forall_mem_cons.mpr ⟨⟨hascii, hb⟩, hid⟩
        · cases h

/-- A message id with its NUL. -/
def CompleteId (bs : Bytes) : Prop := ∃ id rest, AsciiText id ∧ bs = id ++ 0 :: rest

/-- **`receive_string` returns** at a NUL and at a reset. -/
theorem receiveString_returned {peer : ServerEnd} :
    (∃ string, peer.receiveString = .returned string) ↔
      CompleteId peer.bytes ∨ AsciiText peer.bytes ∧ peer.ending = .reset := by
  unfold ServerEnd.receiveString
  constructor
  · intro ⟨string, h⟩
    cases hloop : receiveStringLoop peer.bytes [] with
    | got s rest =>
        obtain ⟨id, hid, heq⟩ := receiveStringLoop_got hloop
        exact Or.inl ⟨id, rest, hid, heq⟩
    | undecodable =>
        rw [hloop] at h
        cases h
    | endless =>
        rw [hloop] at h
        refine Or.inr ⟨receiveStringLoop_eq_endless.mp hloop, ?_⟩
        cases hending : peer.ending with
        | reset => rfl
        | closed => simp [hending] at h
        | silent => simp [hending] at h
  · rintro (⟨id, rest, hid, heq⟩ | ⟨hascii, hreset⟩)
    · exact ⟨_, by rw [heq, receiveStringLoop_append hid]⟩
    · exact ⟨none, by rw [receiveStringLoop_eq_endless.mpr hascii, hreset]⟩

/-! ## What a call reports -/

/-- The call gets as far as reading the reply. -/
def ClientCall.reads (net : Network) (self : Client) : ClientCall → Bool
  | .register user => net.connects && !tryHeader net.sends "REGISTER".toList (some user)
  | .unregister user => net.connects && !tryHeader net.sends "UNREGISTER".toList (some user)
  | .connect user => !self.hasOtherUser user && net.listening.any fun port =>
      net.connects && !tryConnectionRequest net.sends user (toString port).toList
  | .disconnect user => !self.hasOtherUser user &&
      (net.connects && !tryHeader net.sends "DISCONNECT".toList (some user))
  | .send recipient message => (net.remove message).any fun message =>
      net.connects && !tryMessageRequest net.sends self.connectedUser recipient message

/-- The call returns `EC.SUCCESS` or changes `_connected_user`. -/
def ClientCall.Reports (net : Network) (self : Client) (call : ClientCall) : Prop :=
  (call.run net self).1 = .returned ecSuccess ∨
    (call.run net self).2.connectedUser ≠ self.connectedUser

/-- The server wrote an error code 0, and for a message its whole id. -/
def ClientCall.Granted (net : Network) : ClientCall → Prop
  | .send _ _ => ∃ reply, net.server.bytes = 0 :: reply ∧ CompleteId reply
  | _ => ∃ rest, net.server.bytes = 0 :: rest

/-- The call takes the end of the connection for a success: a close before the error code, or a
reset within the message id. -/
def ClientCall.Misreads (net : Network) (self : Client) (call : ClientCall) : Prop :=
  call.reads net self = true ∧
    match call with
    | .register _ => net.server = ⟨[], .closed⟩
    | .unregister _ => net.server = ⟨[], .closed⟩
    | .connect _ => net.server = ⟨[], .closed⟩
    | .disconnect user => net.server = ⟨[], .closed⟩ ∧
        (self.connectedUser ≠ none ∨ net.ends (some user) self.listeningPort = true)
    | .send _ _ => ∃ id, AsciiText id ∧ net.server = ⟨0 :: id, .reset⟩

/-! ### What is exchanged -/

theorem exchange_eq (net : Network) (raises : Bool) :
    exchange net raises = if net.connects && !raises then net.server.receiveServerErrorCode
      else .raised := by
  unfold exchange
  cases net.connects <;> cases raises <;> rfl

/-- An error code 0 was read. -/
def Network.LooksGood (net : Network) : Prop :=
  net.server = ⟨[], .closed⟩ ∨ ∃ rest, net.server.bytes = 0 :: rest

theorem exchange_eq_success {net : Network} {raises : Bool} :
    (∃ rest, exchange net raises = .returned (ecSuccess, rest)) ↔
      (net.connects && !raises) = true ∧ net.LooksGood := by
  rw [exchange_eq]
  unfold Network.LooksGood
  cases hreads : net.connects && !raises with
  | false => simp
  | true =>
      rw [if_pos rfl]
      simp only [receiveServerErrorCode_eq_success, true_and]
      constructor
      · rintro ⟨rest, ⟨heq, -⟩ | heq⟩
        · exact Or.inl heq
        · exact Or.inr ⟨rest.bytes, by rw [heq]⟩
      · rintro (heq | ⟨rest, heq⟩)
        · exact ⟨_, Or.inl ⟨heq, rfl⟩⟩
        · refine ⟨⟨rest, net.server.ending⟩, Or.inr ?_⟩
          rw [← heq]

/-! ### The calls -/

/-- `end_listen_thread` returns the code it is given. -/
theorem endListenThread_eq_success {net : Network} {username : Option PyStr} {port : Option ℕ}
    {code : ℕ} : endListenThread net username port code = .returned ecSuccess ↔
      net.ends username port = true ∧ code = ecSuccess := by
  unfold endListenThread
  split
  · rename_i hends
    simp [hends]
  · rename_i hends
    simp [hends]

theorem hasUser_ne_none {self : Client} (h : self.hasUser = true) :
    self.connectedUser ≠ none := by
  intro hnone
  rw [Client.hasUser, hnone] at h
  cases h

theorem register_reports {net : Network} {self : Client} {user : PyStr} :
    (ClientCall.register user).Reports net self ↔
      (ClientCall.register user).reads net self = true ∧ net.LooksGood := by
  unfold ClientCall.reads
  rw [← exchange_eq_success]
  change (self.register net user).1 = _ ∨ (self.register net user).2.connectedUser ≠ _ ↔ _
  unfold Client.register
  cases exchange net (tryHeader net.sends "REGISTER".toList (some user)) with
  | returned reply => simp [Prod.ext_iff]
  | raised => simp
  | blocked => simp

theorem unregister_reports {net : Network} {self : Client} {user : PyStr} :
    (ClientCall.unregister user).Reports net self ↔
      (ClientCall.unregister user).reads net self = true ∧ net.LooksGood := by
  unfold ClientCall.reads
  rw [← exchange_eq_success]
  change (self.unregister net user).1 = _ ∨ (self.unregister net user).2.connectedUser ≠ _ ↔ _
  unfold Client.unregister
  cases exchange net (tryHeader net.sends "UNREGISTER".toList (some user)) with
  | returned reply =>
      by_cases hcode : reply.1 = ecSuccess
      · have hreply : ∃ rest, Outcome.returned reply = .returned (ecSuccess, rest) :=
          ⟨reply.2, by rw [← hcode]⟩
        simp only [hcode, if_true, hreply, iff_true]
        -- either the user is changed, or nothing else can fail
        by_cases huser : self.hasUser = true
        · rw [if_pos huser]
          exact Or.inr (hasUser_ne_none huser).symm
        · rw [if_neg huser]
          exact Or.inl rfl
      · simp [hcode, Prod.ext_iff]
  | raised => simp
  | blocked => simp

theorem connect_reports {net : Network} {self : Client} {user : PyStr} :
    (ClientCall.connect user).Reports net self ↔
      (ClientCall.connect user).reads net self = true ∧ net.LooksGood := by
  change (self.connect net user).1 = _ ∨ (self.connect net user).2.connectedUser ≠ _ ↔
    (!self.hasOtherUser user && net.listening.any _) = true ∧ _
  unfold Client.connect
  cases hother : self.hasOtherUser user with
  | true => simp [ecDiffUsrCn, ecSuccess]
  | false =>
      cases net.listening with
      | none => simp
      | some port =>
          simp only [Option.any_some, Bool.not_false, Bool.true_and, Bool.false_eq_true, if_false,
            ← exchange_eq_success]
          cases exchange net (tryConnectionRequest net.sends user (toString port).toList) with
          | returned reply =>
              by_cases hcode : reply.1 = ecSuccess
              · simp [hcode, Prod.ext_iff]
              · simp [hcode, Prod.ext_iff, endListenThread_eq_success]
          | raised => simp
          | blocked => simp

theorem disconnect_reports {net : Network} {self : Client} {user : PyStr} :
    (ClientCall.disconnect user).Reports net self ↔
      (ClientCall.disconnect user).reads net self = true ∧ net.LooksGood ∧
        (self.connectedUser ≠ none ∨ net.ends (some user) self.listeningPort = true) := by
  change (self.disconnect net user).1 = _ ∨ (self.disconnect net user).2.connectedUser ≠ _ ↔
    (!self.hasOtherUser user && (_ && _)) = true ∧ _
  unfold Client.disconnect
  cases hother : self.hasOtherUser user with
  | true => simp [ecDiffUsrCn, ecSuccess]
  | false =>
      simp only [Bool.not_false, Bool.true_and, Bool.false_eq_true, if_false]
      rw [← and_assoc, ← exchange_eq_success]
      cases exchange net (tryHeader net.sends "DISCONNECT".toList (some user)) with
      | returned reply =>
          by_cases hcode : reply.1 = ecSuccess
          · simp only [hcode, if_true, endListenThread_eq_success, Prod.ext_iff,
              Outcome.returned.injEq]
            rw [or_comm, ne_comm]
            simp
          · simp [hcode, Prod.ext_iff]
      | raised => simp
      | blocked => simp

/-- Reading the error code 0 and the message id behind it. -/
theorem receive_success {peer : ServerEnd} :
    (∃ rest, peer.receiveServerErrorCode = .returned (ecSuccess, rest) ∧
        ∃ string, rest.receiveString = .returned string) ↔
      (∃ reply, peer.bytes = 0 :: reply ∧ CompleteId reply) ∨
        ∃ id, AsciiText id ∧ peer = ⟨0 :: id, .reset⟩ := by
  simp only [receiveServerErrorCode_eq_success, receiveString_returned]
  constructor
  · rintro ⟨rest, ⟨rfl, rfl⟩ | rfl, hrest⟩
    · -- nothing can be read behind a close
      rcases hrest with ⟨id, rest, -, heq⟩ | ⟨-, hreset⟩
      · cases id <;> cases heq
      · cases hreset
    · rcases hrest with hid | ⟨hid, hreset⟩
      · exact Or.inl ⟨rest.bytes, rfl, hid⟩
      · exact Or.inr ⟨rest.bytes, hid, by rw [hreset]⟩
  · rintro (⟨reply, heq, hid⟩ | ⟨id, hid, rfl⟩)
    · refine ⟨⟨reply, peer.ending⟩, Or.inr ?_, Or.inl hid⟩
      rw [← heq]
    · exact ⟨⟨id, .reset⟩, Or.inr rfl, Or.inr ⟨hid, rfl⟩⟩

theorem send_reports {net : Network} {self : Client} {recipient message : PyStr} :
    (ClientCall.send recipient message).Reports net self ↔
      (ClientCall.send recipient message).reads net self = true ∧
        ((ClientCall.send recipient message).Granted net ∨
          ∃ id, AsciiText id ∧ net.server = ⟨0 :: id, .reset⟩) := by
  unfold ClientCall.Granted
  rw [← receive_success]
  change (self.send net recipient message).1 = _ ∨
    (self.send net recipient message).2.connectedUser ≠ _ ↔
      (net.remove message).any _ = true ∧ _
  unfold Client.send
  cases net.remove message with
  | none => simp
  | some message =>
      dsimp only
      rw [Option.any_some, exchange_eq]
      cases net.connects && !tryMessageRequest net.sends self.connectedUser recipient message with
      | false => simp
      | true =>
          rw [if_pos rfl]
          cases net.server.receiveServerErrorCode with
          | returned reply =>
              by_cases hcode : reply.1 = ecSuccess
              · cases hid : reply.2.receiveString <;>
                  simp [hcode, Prod.ext_iff, hid, Outcome.map]
              · simp [hcode, Prod.ext_iff]
          | raised => simp
          | blocked => simp

/-- **The client reports success only when the server did**, unless it misreads the end of the
connection. -/
theorem ClientCall.reports_iff (net : Network) (self : Client) (call : ClientCall) :
    (call.Reports net self → call.Granted net) ↔ ¬ call.Misreads net self := by
  have hempty : net.server = ⟨[], .closed⟩ → ¬ ∃ rest, net.server.bytes = 0 :: rest := by
    intro heq ⟨rest, hbytes⟩
    rw [heq] at hbytes
    cases hbytes
  -- a call that takes an empty answer for an answer
  have hlooks : net.LooksGood ∧ ¬ (∃ rest, net.server.bytes = 0 :: rest) ↔
      net.server = ⟨[], .closed⟩ :=
    ⟨fun h => h.1.resolve_right h.2, fun h => ⟨Or.inl h, hempty h⟩⟩
  rw [← not_iff_not, not_not, Classical.not_imp]
  cases call with
  | register user => rw [register_reports, and_assoc]; exact and_congr_right fun _ => hlooks
  | unregister user => rw [unregister_reports, and_assoc]; exact and_congr_right fun _ => hlooks
  | connect user => rw [connect_reports, and_assoc]; exact and_congr_right fun _ => hlooks
  | disconnect user =>
      rw [disconnect_reports, and_assoc]
      apply and_congr_right
      intro _
      rw [and_right_comm]
      exact and_congr_left fun _ => hlooks
  | send recipient message =>
      rw [send_reports, and_assoc]
      apply and_congr_right
      intro _
      constructor
      · rintro ⟨hgranted | hreset, hnot⟩
        · exact absurd hgranted hnot
        · exact hreset
      · intro hreset
        refine ⟨Or.inr hreset, ?_⟩
        obtain ⟨id, hid, heq⟩ := hreset
        rintro ⟨reply, hbytes, id', rest, -, rfl⟩
        rw [heq] at hbytes
        cases hbytes
        -- there is no NUL in the id
        exact (hid 0 (List.mem_append_right _ List.mem_cons_self)).2 rfl

/-! ### A server that closes the connection -/

/-- A server that closes the connection without an answer. -/
def closing : Network where
  listening := some 50000
  connects := true
  sends := fun _ => true
  server := ⟨[], .closed⟩
  endConnects := fun _ => true
  endSends := fun _ => true
  remove := fun message => some (Project.remove message)

/-- **A connection without a byte counts as a success**: a client that asks for a registration
reports it, although the server wrote nothing. -/
theorem not_reports_granted : ¬ ∀ (net : Network) (self : Client) (call : ClientCall),
    call.Reports net self → call.Granted net := by
  intro h
  obtain ⟨rest, hrest⟩ := h closing ⟨none, none⟩ (.register "a".toList) (Or.inl (by decide))
  cases hrest

/-- So does a reset within the message id, behind which `receive_string` returns `None`. -/
example :
    ((⟨some "a".toList, some 50000⟩ : Client).send { closing with server :=
    ⟨[0, 49], .reset⟩ }
    "b".toList "hi".toList).1 = .returned ecSuccess := by decide

/-! ## On a connection that is closed -/

theorem andThen_raised (s s' : Sent) : (s.andThen s').raised = (s.raised || s'.raised) := by
  unfold Sent.andThen
  cases hs : s.raised with
  | true => rw [if_pos rfl, hs]; rfl
  | false => rfl

/-- Writes that all go through raise what one of them raises. -/
theorem tryWrites_true (n : ℕ) (ss : List Sent) :
    tryWrites (fun _ => true) n ss = ss.any Sent.raised := by
  induction ss generalizing n with
  | nil => rfl
  | cons s ss ih => rw [tryWrites, ih, Bool.true_and, List.any_cons]

theorem sendMessageRequest_raised (request : ClientRequest) : (sendMessageRequest request).raised =
    (tryHeader (fun _ => true) request.opCode (some request.username) || tryWrites (fun _ => true) 4
      [sendAscii request.recipientUsername, sendNul, sendAscii request.message, sendNul]) := by
  simp only [sendMessageRequest, sendHeader, andThen_raised, tryHeader,
    tryWrites_true, sendUsername,
    sendNul, List.any_cons, List.any_nil, Bool.or_false, Bool.false_or, Bool.or_assoc]

/-- A message request raises an exception at the same names and texts in both models. -/
theorem sendWrites_raised (user : Option PyStr) (recipient message : PyStr) :
    (sendWrites user recipient message).raised =
      tryMessageRequest (fun _ => true) user recipient (Project.remove message) := by
  cases user with
  | none => rfl
  | some user => exact sendMessageRequest_raised _

/-- **`clientSend` is `Client.send`** when every write goes through and the server closes the
connection behind its answer. -/
theorem send_eq_clientSend {net : Network} {self : Client} {recipient message : PyStr} {code : ℕ}
    (hconnects : net.connects = true) (hsends : net.sends = fun _ => true)
    (hremove : net.remove message = some (Project.remove message))
    (hclosed : net.server.ending = .closed) :
    (self.send net recipient message).1 = .returned code ↔
      clientSend self.connectedUser recipient message net.server.bytes = some code := by
  unfold Client.send clientSend
  rw [hremove, sendWrites_raised]
  dsimp only
  rw [exchange_eq, hconnects, hsends]
  cases tryMessageRequest (fun _ => true) self.connectedUser recipient (Project.remove message) with
  | true => simp
  | false =>
      simp only [Bool.not_false, Bool.and_self, if_true, Bool.false_eq_true, if_false,
        receiveSendReply]
      cases hbytes : net.server.bytes with
      | nil =>
          simp [ServerEnd.receiveServerErrorCode, receiveServerErrorCode, hbytes,
            hclosed, ecSuccess,
          ServerEnd.receiveString, receiveString, receiveStringLoop, Received.andThen, Outcome.map]
      | cons b rest =>
          simp only [ServerEnd.receiveServerErrorCode, receiveServerErrorCode, hbytes, hclosed]
          by_cases hcode : b.toNat = ecSuccess
          · cases hid : receiveStringLoop rest [] <;>
              simp [hcode, ServerEnd.receiveString, receiveString, hid,
                Received.andThen, Outcome.map]
          · simp [hcode]
