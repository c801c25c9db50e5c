/-
# The services keep to the sockets

The service thread keeps to the discipline of its two sockets, whatever it receives, whatever the
database answers and whatever fails.

* the functions that talk to a listening thread, and the drain;
* the five services;
* `obeys_serviceThreadMem`: the service thread.
-/
import MessageServer.SocketPhases

/-! ### The services on the client's side -/

section Listening

variable {c : ClientPhase} {ph : SockPhase}

/-- A program that leaves the client's socket alone may be looked at before anything has gone
astray. -/
theorem obeys_atRest {α : Type} {p : Srv α} (hc : c ≠ .failed) (hp : p.Performs OffClient)
    (hidle : p.Obeys sockets (fun ph' _ => AtRest c ph') (c, .idle)) (h : AtRest c ph) :
    p.Obeys sockets (fun ph' _ => AtRest c ph') ph := by
  obtain ⟨c', l⟩ := ph
  obtain ⟨rfl, rfl | rfl⟩ := h
  · exact hidle
  · exact obeys_of_performs (stays_astray hc) hp fun _ => ⟨rfl, Or.inr rfl⟩

/-- What is said to a listening thread is not on the client's socket. -/
theorem offClient_of_onSock {o : SrvOp} (h : OnSock .listener o) : OffClient o := by
  cases o with
  | write sock bytes =>
      obtain rfl : sock = .listener := h
      simp [OffClient, SrvOp.uses]
  | close sock =>
      obtain rfl : sock = .listener := h
      simp [OffClient, SrvOp.uses]
  | _ => exact h.elim

/-- A connection is ready, or its socket has been closed. -/
theorem obeys_auxConnect_sockets (hc : c ≠ .failed) (e : Entry) :
    (auxConnectCltListenThread e).Obeys sockets
      (fun ph' r => (0 ≤ r.1 ∧ ph' = (c, .ready)) ∨ (r.1 < 0 ∧ ph' = (c, .idle)))
        (c, .idle) := by
  have hrest : AtRest c (c, .idle) := ⟨rfl, Or.inl rfl⟩
  have hoff : ∀ {o : SrvOp}, OffClient o → c.allows o := fun ho => allows_offClient hc ho
  have hfailed : genErrAny < 0 := by decide
  have hany : dbmsErrAny < 0 := by decide
  rw [auxConnectCltListenThread]
  refine obeys_sockless hc hrest rfl fun r => ?_
  split
  · exact Or.inr ⟨hany, rfl⟩
  refine obeys_perform_bind.mpr ⟨⟨hoff (offClient_of_none rfl), idle_allows_socket⟩,
    fun ok _ => ?_⟩
  cases ok with
  | false => exact Or.inr ⟨hfailed, rfl⟩
  | true =>
      refine obeys_perform_bind.mpr ⟨⟨hoff (offClient_of_listener rfl), _, _, rfl⟩,
        fun connected _ => ?_⟩
      cases connected with
      | true => exact Or.inl ⟨le_rfl, rfl⟩
      | false => exact Or.inr ⟨hfailed, rfl⟩

/-- A session with a listening thread, from what is done on the connection. -/
theorem obeys_listenSession {e : Entry} {strings : Srv ℤ} {n : Entry → ℤ → Note}
    (hc : c ≠ .failed)
    (hoff : strings.Performs (OnSock .listener))
    (hstrings : strings.Obeys sockets (fun ph' _ => AtRest c ph') (c, .ready)) (h : AtRest c ph) :
    (do
      let r ← auxConnectCltListenThread e
      let result ← ifConnected r.1 strings
      note (n r.2 result)
      return (result, r.2) : Srv (ℤ × Entry)).Obeys sockets (fun ph' _ => AtRest c ph') ph := by
  refine obeys_atRest hc ?_ ?_ h
  · refine (performs_auxConnect (offClient_of_none rfl) (offClient_of_none rfl)
      fun _ _ => offClient_of_listener rfl).bind fun r => ?_
    refine ((onSock_ifConnected hoff).mono fun _ => offClient_of_onSock).bind fun result => ?_
    exact Prog.performs_perform_bind.mpr ⟨offClient_of_none rfl, fun _ => trivial⟩
  · rw [obeys_bind]
    refine (obeys_auxConnect_sockets hc e).mono fun ph₁ r hr => ?_
    rw [obeys_bind]
    have hcalled : (ifConnected r.1 strings).Obeys sockets (fun ph' _ => AtRest c ph') ph₁ := by
      unfold ifConnected
      rcases hr with ⟨hpos, rfl⟩ | ⟨hneg, rfl⟩
      · rw [if_neg (by omega)]
        exact hstrings
      · rw [if_pos hneg]
        exact ⟨rfl, Or.inl rfl⟩
    exact hcalled.mono fun ph₂ result hrest => obeys_sockless hc hrest rfl fun _ => hrest

/-- A transmission leaves no socket of a listening thread open. -/
theorem obeys_cltSendMessage_sockets (hc : c ≠ .failed) (h : AtRest c ph) {request : CltRequest}
    (hcode : request.opCode = opSendMessage) (e : Entry) :
    (cltSendMessage request e).Obeys sockets (fun ph' _ => AtRest c ph') ph := by
  have hclosed : AtRest c (c, .idle) := ⟨rfl, Or.inl rfl⟩
  have hstring : ∀ string, (sendString .listener string).Obeys sockets
      (fun ph' r => (r = 0 ∧ ph' = (c, .message)) ∨ (r = genErrAny ∧ ph' = (c, .idle)))
        (c, .message) :=
    fun string => obeys_sendString_listener hc string (Or.inl ⟨_, rfl⟩) rfl rfl rfl rfl
  have hfirst : (sendString .listener request.opCode).Obeys sockets
      (fun ph' r => (r = 0 ∧ ph' = (c, .message)) ∨ (r = genErrAny ∧ ph' = (c, .idle)))
        (c, .ready) := by
    rw [hcode]
    exact obeys_sendString_listener hc _ ⟨_, rfl⟩ rfl rfl rfl rfl
  -- each string is sent when those before it have been
  have hnext : ∀ {p : Srv ℤ} {ph₁ : SockPhase} {r : ℤ},
      (r = 0 ∧ ph₁ = (c, .message)) ∨ (r = genErrAny ∧ ph₁ = (c, .idle)) →
      p.Obeys sockets (fun ph' _ => AtRest c ph') (c, .message) →
      (if r < 0 then return genErrAny else p : Srv ℤ).Obeys sockets
        (fun ph' _ => AtRest c ph') ph₁ := by
    rintro p ph₁ r (⟨rfl, rfl⟩ | ⟨rfl, rfl⟩) hp
    · exact hp
    · exact hclosed
  refine obeys_listenSession (n := fun e result => .cltSendMessage e request.message result) hc
    (onSock_cltSendMessageStrings _) ?_ h
  rw [cltSendMessageStrings, obeys_bind]
  refine hfirst.mono fun _ _ hr => hnext hr ?_
  rw [obeys_bind]
  refine (hstring _).mono fun _ _ hr => hnext hr ?_
  rw [obeys_bind]
  refine (hstring _).mono fun _ _ hr => hnext hr ?_
  rw [obeys_bind]
  refine (hstring _).mono fun _ _ hr => hnext hr ?_
  exact obeys_perform_bind.mpr ⟨⟨allows_offClient hc (offClient_of_listener rfl), Or.inr rfl⟩,
    fun _ _ => hclosed⟩

/-- An acknowledgement leaves no socket of a listening thread open, or has lost its number. -/
theorem obeys_cltSendMessAck_sockets (hc : c ≠ .failed) (h : AtRest c ph) {request : CltRequest}
    (hcode : request.opCode = opSendMessAck) (e : Entry) :
    (cltSendMessAck request e).Obeys sockets (fun ph' _ => AtRest c ph') ph := by
  have hfirst : (sendString .listener request.opCode).Obeys sockets
      (fun ph' r => (r = 0 ∧ ph' = (c, .ackBegun)) ∨ (r = genErrAny ∧ ph' = (c, .stale)))
        (c, .ready) := by
    rw [hcode]
    exact obeys_sendString_listener hc _ ⟨_, rfl⟩ rfl rfl rfl rfl
  have hsecond : (sendString .listener (decimal request.message.id.toNat)).Obeys sockets
      (fun ph' r => (r = 0 ∧ ph' = (c, .ackDone)) ∨ (r = genErrAny ∧ ph' = (c, .stale)))
        (c, .ackBegun) :=
    obeys_sendString_listener hc _ ⟨_, rfl⟩ rfl rfl rfl rfl
  have hagain : (sendString .listener (decimal request.message.id.toNat)).Obeys sockets
      (fun ph' r => (r = 0 ∧ ph' = (c, .astray)) ∨ (r = genErrAny ∧ ph' = (c, .astray)))
        (c, .stale) :=
    obeys_sendString_listener hc _ (Or.inl ⟨_, rfl⟩) rfl rfl trivial rfl
  have hclose : ∀ {ph₁ : SockPhase}, ph₁ = (c, .ackDone) ∨ ph₁ = (c, .stale) ∨
      ph₁ = (c, .astray) →
      (close .listener >>= fun _ => (pure 0 : Srv ℤ)).Obeys sockets
        (fun ph' _ => AtRest c ph') ph₁ := by
    rintro ph₁ (rfl | rfl | rfl)
    · exact obeys_perform_bind.mpr ⟨⟨allows_offClient hc (offClient_of_listener rfl), rfl⟩,
        fun _ _ => ⟨rfl, Or.inl rfl⟩⟩
    · exact obeys_perform_bind.mpr
        ⟨⟨allows_offClient hc (offClient_of_listener rfl), Or.inr rfl⟩,
        fun _ _ => ⟨rfl, Or.inr rfl⟩⟩
    · exact obeys_perform_bind.mpr
        ⟨⟨allows_offClient hc (offClient_of_listener rfl), trivial⟩,
        fun _ _ => ⟨rfl, Or.inr rfl⟩⟩
  refine obeys_listenSession (n := fun e result => .cltSendMessAck e request.message.id result) hc
    (onSock_cltSendMessAckStrings _) ?_ h
  rw [cltSendMessAckStrings, obeys_bind]
  refine hfirst.mono fun ph₁ _ hr => ?_
  rw [obeys_bind]
  rcases hr with ⟨-, rfl⟩ | ⟨-, rfl⟩
  · refine hsecond.mono fun ph₂ _ hr => hclose ?_
    rcases hr with ⟨-, rfl⟩ | ⟨-, rfl⟩
    · exact Or.inl rfl
    · exact Or.inr (Or.inl rfl)
  · -- the result of the first `send_string` is not looked at
    refine hagain.mono fun ph₂ _ hr => hclose ?_
    rcases hr with ⟨-, rfl⟩ | ⟨-, rfl⟩
    · exact Or.inr (Or.inr rfl)
    · exact Or.inr (Or.inr rfl)

end Listening

/-! ### The services -/

section Services

variable {c : ClientPhase} {ph : SockPhase} {r : ℤ}

theorem opened_ne_failed : ClientPhase.opened ≠ .failed := by decide

theorem closed_ne_failed : ClientPhase.closed ≠ .failed := by decide

/-- The client's socket is open or closed. -/
def Between (ph : SockPhase) : Prop := ∃ c, c ≠ .failed ∧ AtRest c ph

/-- Behind a reply the thread is between two pieces. -/
theorem Told.between (h : Told r ph) : Between ph := by
  rcases h with ⟨-, h⟩ | ⟨-, h⟩
  · exact ⟨_, opened_ne_failed, h⟩
  · exact ⟨_, closed_ne_failed, h⟩

/-- A thread at rest is between two pieces. -/
theorem AtRest.between (hc : c ≠ .failed) (h : AtRest c ph) : Between ph := ⟨c, hc, h⟩

/-- What is done when something has been received. -/
theorem obeys_received {α : Type} {p : Srv α} {a : α} (h : Told r ph)
    (hp : AtRest .opened ph → p.Obeys sockets (fun ph' _ => Between ph') ph) :
    (if r < 0 then return a else p : Srv α).Obeys sockets (fun ph' _ => Between ph') ph := by
  rcases h with ⟨rfl, h⟩ | ⟨rfl, h⟩
  · exact hp h
  · exact h.between closed_ne_failed

/-- The first acknowledgement uses the client's socket. -/
theorem obeys_auxSendFirstAck_sockets (h : AtRest .opened ph) (code : UInt8) (msgId : UInt32) :
    (auxSendFirstAck code msgId).Obeys sockets (fun ph' _ => Between ph') ph := by
  rw [auxSendFirstAck, obeys_bind]
  refine (obeys_sendServerReply_sockets h code).mono fun ph₁ r hr => obeys_received hr
    fun h₁ => ?_
  split
  · rw [obeys_bind]
    exact (obeys_sendString_client h₁ _).mono fun _ _ hr => hr.between
  · exact h₁.between opened_ne_failed

/-- The drain comes back to rest after each message. -/
theorem obeys_drainLoop_sockets (hc : c ≠ .failed) (fuel : ℕ)
    (pendMsgEntry recipientEntry senderEntry : Entry)
    (h : AtRest c ph) :
    (drainLoop fuel pendMsgEntry recipientEntry senderEntry).Obeys sockets
      (fun ph' _ => AtRest c ph') ph := by
  induction fuel generalizing pendMsgEntry recipientEntry senderEntry ph with
  | zero => exact h
  | succ fuel ih =>
      rw [drainLoop]
      refine obeys_sockless hc h rfl fun g => ?_
      split
      · rw [obeys_bind]
        refine (obeys_cltSendMessage_sockets hc h rfl _).mono fun ph₁ r h₁ => ?_
        split
        · refine obeys_sockless hc h₁ rfl fun _ => ?_
          rw [obeys_bind]
          exact (obeys_cltSendMessAck_sockets hc h₁ rfl _).mono fun ph₂ a h₂ => ih _ _ _ h₂
        · exact obeys_sockless hc h₁ rfl fun _ => h₁
      · exact h

/-- The whole drain comes back to rest. -/
theorem obeys_auxConnectSendPendMsgs_sockets (hc : c ≠ .failed) (fuel : ℕ)
    (pendMsgEntry : Entry)
    (h : AtRest c ph) :
    (auxConnectSendPendMsgs fuel pendMsgEntry).Obeys sockets (fun ph' _ => AtRest c ph') ph := by
  rw [auxConnectSendPendMsgs]
  refine obeys_sockless hc h rfl fun junk => ?_
  refine obeys_sockless hc h rfl fun r => ?_
  split
  · exact h
  · exact obeys_drainLoop_sockets hc fuel _ _ _ h

/-! ### The handlers -/

/-- `REGISTER` replies on the client's socket. -/
theorem obeys_srvRegisterBody_sockets (h : AtRest .opened ph) (username : Bytes) :
    (srvRegisterBody username).Obeys sockets (fun ph' _ => Between ph') ph := by
  rw [srvRegisterBody]
  refine obeys_sockless opened_ne_failed h rfl fun junk => ?_
  refine obeys_sockless opened_ne_failed h rfl fun result => ?_
  rw [obeys_bind]
  exact (obeys_sendServerReply_sockets h _).mono fun _ _ hr => hr.between

/-- `UNREGISTER` replies on the client's socket. -/
theorem obeys_srvUnregisterBody_sockets (h : AtRest .opened ph) (username : Bytes) :
    (srvUnregisterBody username).Obeys sockets (fun ph' _ => Between ph') ph := by
  rw [srvUnregisterBody]
  refine obeys_sockless opened_ne_failed h rfl fun userExists => ?_
  have hreply : (srvUnregisterReply username userExists).Obeys sockets
      (fun ph' _ => AtRest .opened ph') ph := by
    unfold srvUnregisterReply
    split
    · exact obeys_sockless opened_ne_failed h rfl fun _ => h
    · split <;> exact h
  rw [obeys_bind]
  refine hreply.mono fun ph₁ code h₁ => ?_
  rw [obeys_bind]
  exact (obeys_sendServerReply_sockets h₁ _).mono fun _ _ hr => hr.between

/-- `CONNECT` uses no socket before its reply. -/
theorem obeys_srvConnectReply_sockets (h : AtRest .opened ph) (port : Bytes) (reply : UInt8)
    (ioResult : ℤ)
    (entry : Entry) :
    (srvConnectReply port reply ioResult entry).Obeys sockets
      (fun ph' _ => AtRest .opened ph') ph := by
  unfold srvConnectReply
  split
  · exact h
  split
  · exact h
  split
  · exact h
  refine obeys_onClient h rfl (opened_allows rfl) fun peer ph₁ (h₁ : AtRest .opened ph₁) => ?_
  generalize (if peer.isNone then srvErrCnAny
    else if (strToNum port .int).toOption.isNone then srvErrCnAny else reply) = code
  simp only
  split
  · exact obeys_sockless opened_ne_failed h₁ rfl fun _ => h₁
  · exact h₁

/-- `CONNECT` replies on the client's socket, and drains. -/
theorem obeys_srvConnectBody_sockets (fuel : ℕ) (h : AtRest .opened ph) (username port : Bytes) :
    (srvConnectBody fuel username port).Obeys sockets (fun ph' _ => Between ph') ph := by
  rw [srvConnectBody]
  refine obeys_sockless opened_ne_failed h rfl fun junk => ?_
  refine obeys_sockless opened_ne_failed h rfl fun r => ?_
  rw [obeys_bind]
  refine (obeys_srvConnectReply_sockets h _ _ _ _).mono fun ph₁ code h₁ => ?_
  rw [obeys_bind]
  refine (obeys_sendServerReply_sockets h₁ _).mono fun ph₂ _ hr => ?_
  -- the messages are sent whether or not the reply has been written
  obtain ⟨c, hc, h₂⟩ := hr.between
  rw [obeys_bind]
  exact (obeys_auxConnectSendPendMsgs_sockets hc fuel _ h₂).mono fun _ _ h₃ => h₃.between hc

/-- `DISCONNECT` replies on the client's socket. -/
theorem obeys_srvDisconnectBody_sockets (h : AtRest .opened ph) (username : Bytes) :
    (srvDisconnectBody username).Obeys sockets (fun ph' _ => Between ph') ph := by
  rw [srvDisconnectBody]
  refine obeys_sockless opened_ne_failed h rfl fun junk => ?_
  refine obeys_sockless opened_ne_failed h rfl fun r => ?_
  have hreply : (srvDisconnectReply r.1 r.2).Obeys sockets
      (fun ph' _ => AtRest .opened ph') ph := by
    unfold srvDisconnectReply
    split
    · exact h
    split
    · exact h
    split
    · exact h
    · exact obeys_sockless opened_ne_failed h rfl fun _ => h
  rw [obeys_bind]
  refine hreply.mono fun ph₁ code h₁ => ?_
  rw [obeys_bind]
  exact (obeys_sendServerReply_sockets h₁ _).mono fun _ _ hr => hr.between

/-- The start of `SEND` uses no socket. -/
theorem obeys_auxSendInit_sockets (h : AtRest .opened ph) (sender recipient : Bytes)
    (entry : Entry) :
    (auxSendInit sender recipient entry).Obeys sockets (fun ph' _ => AtRest .opened ph') ph := by
  rw [auxSendInit]
  refine obeys_sockless opened_ne_failed h rfl fun senderExists => ?_
  refine obeys_sockless opened_ne_failed h rfl fun recipientExists => ?_
  split
  · exact h
  split
  · exact h
  refine obeys_sockless opened_ne_failed h rfl fun r => ?_
  split
  · exact h
  · exact obeys_sockless opened_ne_failed h rfl fun _ => h

/-- The transmission of `SEND` comes back to rest. -/
theorem obeys_auxSendMsgPass_sockets (h : AtRest .opened ph) (sender recipient content : Bytes)
    (code : UInt8)
    (recipientEntry : Entry) :
    (auxSendMsgPass sender recipient content code recipientEntry).Obeys sockets
      (fun ph' _ => AtRest .opened ph') ph := by
  unfold auxSendMsgPass
  split
  · rw [obeys_bind]
    refine (obeys_cltSendMessage_sockets opened_ne_failed h rfl _).mono fun ph₁ r h₁ => ?_
    split
    · exact h₁
    · exact obeys_sockless opened_ne_failed h₁ rfl fun _ => h₁
  · exact h

/-- The end of `SEND` uses the client's socket and one to the sender. -/
theorem obeys_srvSendFinish_sockets (h : AtRest .opened ph) (sender : Bytes) (code : UInt8)
    (recipientEntry msgEntry : Entry) :
    (srvSendFinish sender code recipientEntry msgEntry).Obeys sockets
      (fun ph' _ => Between ph') ph := by
  rw [srvSendFinish, obeys_bind]
  refine (obeys_auxSendFirstAck_sockets h _ _).mono fun ph₁ _ h₁ => ?_
  split
  · obtain ⟨c, hc, h₁⟩ := h₁
    refine obeys_sockless hc h₁ rfl fun junk => ?_
    rw [obeys_bind]
    exact (obeys_cltSendMessAck_sockets hc h₁ rfl _).mono fun _ _ h₂ => h₂.between hc
  · exact h₁

/-- `SEND` keeps to its two sockets. -/
theorem obeys_srvSendBody_sockets (h : AtRest .opened ph) (sender recipient content : Bytes) :
    (srvSendBody sender recipient content).Obeys sockets (fun ph' _ => Between ph') ph := by
  rw [srvSendBody]
  refine obeys_sockless opened_ne_failed h rfl fun junk => ?_
  rw [obeys_bind]
  refine (obeys_auxSendInit_sockets h _ _ _).mono fun ph₁ i h₁ => ?_
  split
  · rw [obeys_bind]
    exact (obeys_sendServerReply_sockets h₁ _).mono fun _ _ hr => hr.between
  · rw [obeys_bind]
    refine (obeys_auxSendMsgPass_sockets h₁ _ _ _ _ _).mono fun ph₂ p h₂ => ?_
    split
    · exact obeys_sockless opened_ne_failed h₂ rfl fun _ =>
        obeys_srvSendFinish_sockets h₂ _ _ _ _
    · exact obeys_srvSendFinish_sockets h₂ _ _ _ _

/-! ### The service thread -/

/-- The end of a handler adds nothing. -/
theorem obeys_finished_sockets {p : Srv Unit} (h : p.Obeys sockets (fun ph' _ => Between ph') ph) :
    (finished p).Obeys sockets (fun ph' _ => Between ph') ph := by
  rw [finished, obeys_bind]
  exact h.mono fun _ _ hr => hr

/-- A service that receives one name receives it on the client's socket. -/
theorem obeys_srvUsernameMem {body : Bytes → Srv Unit} (h : AtRest .opened ph) (mem : Bytes)
    (hbody : ∀ username ph', AtRest .opened ph' →
        (body username).Obeys sockets (fun ph' _ => Between ph') ph') :
    (finished (srvUsernameMem body mem)).Obeys sockets (fun ph' _ => Between ph') ph := by
  refine obeys_finished_sockets ?_
  rw [srvUsernameMem, obeys_bind]
  exact (obeys_recvMember h _ _).mono fun ph₁ u hu => obeys_received hu fun h₁ => hbody _ _ h₁

/-- **A service thread keeps its sockets in order**, whatever it receives and whatever fails, until
an acknowledgement goes on on a socket that has been closed. -/
theorem obeys_serviceThreadMem (h : AtRest .opened ph) (fuel : ℕ) (mem : Bytes) :
    (serviceThreadMem fuel mem).Obeys sockets (fun ph' _ => Between ph') ph := by
  rw [serviceThreadMem, obeys_bind]
  refine (obeys_recvMember h _ _).mono fun ph₁ o ho => ?_
  split
  · exact ho.between
  rename_i hsome
  have h₁ : AtRest .opened ph₁ := by
    rcases ho with ⟨-, h₁⟩ | ⟨hfailed, -⟩
    · exact h₁
    · exact absurd hfailed hsome
  unfold dispatchMem
  split
  · exact obeys_srvUsernameMem h₁ _ fun username ph' h' =>
      obeys_srvRegisterBody_sockets h' username
  split
  · exact obeys_srvUsernameMem h₁ _ fun username ph' h' =>
      obeys_srvUnregisterBody_sockets h' username
  split
  · rw [srvConnectMem, obeys_bind]
    refine (obeys_recvMember h₁ _ _).mono fun ph₂ u hu => obeys_received hu fun h₂ => ?_
    rw [obeys_bind]
    refine (obeys_recvMember h₂ _ _).mono fun ph₃ p hp => obeys_received hp fun h₃ => ?_
    exact obeys_srvConnectBody_sockets fuel h₃ _ _
  split
  · exact obeys_srvUsernameMem h₁ _ fun username ph' h' =>
      obeys_srvDisconnectBody_sockets h' username
  split
  · refine obeys_finished_sockets ?_
    rw [srvSendMem, obeys_bind]
    refine (obeys_recvMember h₁ _ _).mono fun ph₂ s hs => obeys_received hs fun h₂ => ?_
    rw [obeys_bind]
    refine (obeys_recvMember h₂ _ _).mono fun ph₃ r hr => obeys_received hr fun h₃ => ?_
    rw [obeys_bind]
    refine (obeys_recvMember h₃ _ _).mono fun ph₄ c hc => obeys_received hc fun h₄ => ?_
    exact obeys_srvSendBody_sockets h₄ _ _ _
  · exact h₁.between opened_ne_failed

end Services
