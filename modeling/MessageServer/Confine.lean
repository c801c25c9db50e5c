/-
# Confinement of the services

A service that works for a user calls the library on that user's entries only: it
writes, deletes and builds under names of one class `Same`, and the entries that it
reads back for such a name stay in the class.  The classes in use are the user's own
name, and the names that lead to the same table.

* `confined`: the discipline;
* `body_confined`: the body of every request obeys it for the class of its user.
-/
import MessageServer.Requests

/-! ## The discipline -/

/-- A class of names and of message ids. -/
structure Confinement where
  Same : Bytes → Prop
  Good : UInt32 → Prop
  zero : Good 0
  next : ∀ id, Good (nextMsgId id)

/-- A userdata entry of the class. -/
def Confinement.User (C : Confinement) (e : Entry) : Prop :=
  ∃ u ud, e = ⟨u, .user ud⟩ ∧ C.Same u ∧ C.Good ud.lastMsgId

/-- A message entry of the class. -/
def Confinement.Msg (C : Confinement) (e : Entry) : Prop :=
  ∃ u m, e = ⟨u, .msg m⟩ ∧ C.Same u

/-- A message entry whose strings fit their arrays. -/
def Confinement.Stored (C : Confinement) (e : Entry) : Prop :=
  ∃ u m, e = ⟨u, .msg m⟩ ∧ C.Same u ∧ FitsBuf maxStrSize m.sender ∧
    FitsBuf maxMsgSize m.content

/-- The calls that a confined service makes. -/
def Confinement.Allowed (C : Confinement) : SrvOp → Prop
  | .db (.ioOpUsrEnt e .modify) => C.User e
  | .db (.ioOpUsrEnt e .create) => C.Stored e
  | .db (.ioOpUsrEnt e .delete) => C.Msg e
  | .db (.getPendMsg e) => C.Msg e
  | .db (.creatUsrTbl e) => C.User e
  | .db (.delUsrTbl u) => C.Same u
  | _ => True

/-- What a confined service is answered: entries of the class for entries of the
class. -/
def Confinement.Possible (C : Confinement) : (o : SrvOp) → o.Ans → Prop
  | .db (.ioOpUsrEnt e .read), x => ∀ u ud, e = ⟨u, .user ud⟩ → C.Same u →
      (0 ≤ x.1 ∨ C.Good ud.lastMsgId) → C.User x.2
  | .db (.getPendMsg _), x => C.Msg x.2
  | _, _ => True

/-- The discipline; it has one phase. -/
def confined (C : Confinement) : Discipline srvE Unit where
  allowed := fun _ o => C.Allowed o
  possible := fun _ o x => C.Possible o x
  next := fun _ _ _ => ()

/-- The steps that do not concern the database. -/
def Inert : SrvOp → Prop
  | .db _ => False
  | .note _ => False
  | _ => True

/-! ### Steps on sockets -/

/-- The steps on a socket that is connected. -/
def OnSock (sock : Sock) : SrvOp → Prop
  | .write s _ => s = sock
  | .close s => s = sock
  | _ => False

/-- Socket calls leave the database alone. -/
theorem OnSock.inert {sock : Sock} (o : SrvOp) (h : OnSock sock o) : Inert o := by
  cases o with
  | db call => exact h.elim
  | note n => exact h.elim
  | _ => trivial

/-- A socket call, and what follows it. -/
theorem onSock_bind {α : Type} {sock : Sock} (o : SrvOp) (ho : OnSock sock o)
    {f : o.Ans → Srv α}
    (hf : ∀ x, (f x).Performs (OnSock sock)) :
    (@Prog.perform srvE o >>= f).Performs (OnSock sock) :=
  Prog.Performs.bind ((Prog.performs_perform _ _).mpr ho) hf

/-- `send_string` uses its socket only. -/
theorem onSock_sendString (sock : Sock) (string : Bytes) :
    (sendString sock string).Performs (OnSock sock) := by
  rw [sendString]
  refine onSock_bind (.write _ _) rfl fun ok => ?_
  cases ok with
  | true => trivial
  | false => exact onSock_bind (.close _) rfl fun _ => trivial

/-- `send_server_reply` uses the client's socket only. -/
theorem onSock_sendServerReply (code : UInt8) :
    (sendServerReply code).Performs (OnSock .client) := by
  rw [sendServerReply]
  refine onSock_bind (.write _ _) rfl fun ok => ?_
  cases ok with
  | true => trivial
  | false => exact onSock_bind (.close _) rfl fun _ => trivial

/-! ### Pieces that use sockets only -/

/-- The strings of a message go to the listening thread. -/
theorem onSock_cltSendMessageStrings (request : CltRequest) :
    (cltSendMessageStrings request).Performs (OnSock .listener) := by
  rw [cltSendMessageStrings]
  refine (onSock_sendString _ _).bind fun a => ?_
  split
  · trivial
  refine (onSock_sendString _ _).bind fun b => ?_
  split
  · trivial
  refine (onSock_sendString _ _).bind fun c => ?_
  split
  · trivial
  refine (onSock_sendString _ _).bind fun d => ?_
  split
  · trivial
  · exact onSock_bind (.close _) rfl fun _ => trivial

/-- The strings of an acknowledgement go to the listening thread. -/
theorem onSock_cltSendMessAckStrings (request : CltRequest) :
    (cltSendMessAckStrings request).Performs (OnSock .listener) := by
  rw [cltSendMessAckStrings]
  refine (onSock_sendString _ _).bind fun _ => (onSock_sendString _ _).bind fun _ => ?_
  exact onSock_bind (.close _) rfl fun _ => trivial

theorem onSock_ifConnected {socket : ℤ} {sends : Srv ℤ}
    (h : sends.Performs (OnSock .listener)) :
    (ifConnected socket sends).Performs (OnSock .listener) := by
  unfold ifConnected
  split
  · trivial
  · exact h

/-- What `aux_connect_clt_listen_thread` does. -/
theorem performs_auxConnect {P : SrvOp → Prop} {e : Entry} (hread : P (.db (.ioOpUsrEnt e .read)))
    (hsocket : P .socket) (hconnect : ∀ ip port, P (.connect ip port)) :
    (auxConnectCltListenThread e).Performs P := by
  rw [auxConnectCltListenThread]
  refine Prog.performs_perform_bind.mpr ⟨hread, fun r => ?_⟩
  split
  · trivial
  refine Prog.performs_perform_bind.mpr ⟨hsocket, fun ok => ?_⟩
  cases ok with
  | false => trivial
  | true => exact Prog.performs_perform_bind.mpr ⟨hconnect _ _, fun _ => trivial⟩

/-- The first acknowledgement goes to the client. -/
theorem onSock_auxSendFirstAck (code : UInt8) (msgId : UInt32) :
    (auxSendFirstAck code msgId).Performs (OnSock .client) := by
  rw [auxSendFirstAck]
  refine (onSock_sendServerReply code).bind fun r => ?_
  split
  · trivial
  split
  · exact (onSock_sendString _ _).bind fun _ => trivial
  · trivial

/-! ### Pieces that leave the database alone -/

theorem performs_sendServerReply (code : UInt8) : (sendServerReply code).Performs Inert :=
  (onSock_sendServerReply code).mono OnSock.inert

theorem performs_ifConnected {socket : ℤ} {sends : Srv ℤ}
    (h : sends.Performs (OnSock .listener)) :
    (ifConnected socket sends).Performs Inert :=
  (onSock_ifConnected h).mono OnSock.inert

/-- The first acknowledgement leaves the database alone. -/
theorem performs_auxSendFirstAck (code : UInt8) (msgId : UInt32) :
    (auxSendFirstAck code msgId).Performs Inert :=
  (onSock_auxSendFirstAck code msgId).mono OnSock.inert

/-- The end of `srv_send` for a recipient that is not connected. -/
theorem performs_srvSendFinish {sender : Bytes} {code : UInt8} {recipientEntry msgEntry : Entry}
    (h : recipientEntry.user.status ≠ statusCn) :
    (srvSendFinish sender code recipientEntry msgEntry).Performs Inert := by
  rw [srvSendFinish]
  refine (performs_auxSendFirstAck _ _).bind fun _ => ?_
  rw [if_neg h]
  trivial

/-- Inert steps leave the database alone. -/
theorem exec_inert {T : DbCall → List sysE.Event → Prop} {α : Type} {p : Srv α}
    (hp : p.Performs Inert) {w w' : SrvWorld} {t : List srvE.Event} {a : α}
    (h : Exec (SrvStep T) p w t a w') : w'.fs = w.fs := by
  induction h with
  | ret a w => rfl
  | @call o k w w₁ w₂ x t a hR _ ih =>
      have hstep : w₁.fs = w.fs := by
        have ho : Inert o := hp.1
        cases o with
        | db call => exact ho.elim
        | note n => exact ho.elim
        | recv buf => exact hR.1
        | _ => exact congrArg SrvWorld.fs hR
      exact (ih (hp.2 x)).trans hstep

/-! ## The services -/

section Confined

variable {C : Confinement}

/-- A piece that leaves the database alone is confined. -/
theorem obeys_inert {α : Type} {p : Srv α} (hp : p.Performs Inert) {Q : Unit → α → Prop}
    (hQ : ∀ a, Q () a) : p.Obeys (confined C) Q () := by
  refine obeys_of_performs (fun o ho => ⟨?_, fun _ => rfl⟩) hp hQ
  cases o with
  | db call => exact ho.elim
  | _ => trivial

/-- The connection to a listening thread rereads the entry it is given. -/
theorem obeys_auxConnect (e : Entry) :
    (auxConnectCltListenThread e).Obeys (confined C) (fun _ r => C.User e → C.User r.2) () := by
  rw [auxConnectCltListenThread]
  refine obeys_perform_bind.mpr ⟨trivial, fun r hr => ?_⟩
  have huser : C.User e → C.User r.2 := by
    rintro ⟨u, ud, rfl, hsame, hgood⟩
    exact hr u ud rfl hsame (Or.inr hgood)
  split
  · exact huser
  refine obeys_perform_bind.mpr ⟨trivial, fun ok _ => ?_⟩
  cases ok with
  | false => exact huser
  | true => exact obeys_perform_bind.mpr ⟨trivial, fun _ _ => huser⟩

/-- A transmission rereads the entry it is given. -/
theorem obeys_cltSendMessage (request : CltRequest) (e : Entry) :
    (cltSendMessage request e).Obeys (confined C) (fun _ r => C.User e → C.User r.2) () := by
  rw [cltSendMessage, obeys_bind]
  refine (obeys_auxConnect e).mono fun _ r hr => ?_
  rw [obeys_bind]
  refine obeys_inert (performs_ifConnected (onSock_cltSendMessageStrings _)) fun result => ?_
  exact obeys_perform_bind.mpr ⟨trivial, fun _ _ => hr⟩

/-- An acknowledgement touches nothing but the entry it rereads. -/
theorem obeys_cltSendMessAck (request : CltRequest) (e : Entry) {Q : Unit → ℤ × Entry → Prop}
    (hQ : ∀ r, Q () r) : (cltSendMessAck request e).Obeys (confined C) Q () := by
  rw [cltSendMessAck, obeys_bind]
  refine (obeys_auxConnect e).mono fun _ r _ => ?_
  rw [obeys_bind]
  refine obeys_inert (performs_ifConnected (onSock_cltSendMessAckStrings _)) fun result => ?_
  exact obeys_perform_bind.mpr ⟨trivial, fun _ _ => hQ _⟩

/-- A userdata entry with a changed address or status stays in the class. -/
theorem Confinement.User.mapUser {e : Entry} (h : C.User e) {f : Userdata → Userdata}
    (hf : ∀ ud, (f ud).lastMsgId = ud.lastMsgId) : C.User (e.mapUser f) := by
  obtain ⟨u, ud, rfl, hsame, hgood⟩ := h
  refine ⟨u, f ud, rfl, hsame, ?_⟩
  rw [hf]
  exact hgood

/-- An entry of the user with one more message id is one. -/
theorem Confinement.User.next {e : Entry} (h : C.User e) :
    C.User (e.mapUser fun u => { u with lastMsgId := nextMsgId u.lastMsgId }) := by
  obtain ⟨u, ud, rfl, hsame, -⟩ := h
  exact ⟨u, _, rfl, hsame, C.next _⟩

/-! ### The drain -/

/-- The drain is confined to the entries that it starts with. -/
theorem obeys_drainLoop (fuel : ℕ) {pendMsgEntry recipientEntry : Entry} (senderEntry : Entry)
    (hpend : C.Msg pendMsgEntry) (hrecipient : C.User recipientEntry) :
    (drainLoop fuel pendMsgEntry recipientEntry senderEntry).Obeys (confined C)
      (fun _ _ => True) () := by
  induction fuel generalizing pendMsgEntry recipientEntry senderEntry with
  | zero => trivial
  | succ fuel ih =>
      rw [drainLoop]
      refine obeys_perform_bind.mpr ⟨hpend, fun g hg => ?_⟩
      split
      · rw [obeys_bind]
        refine (obeys_cltSendMessage _ _).mono fun _ r hr => ?_
        split
        · refine obeys_perform_bind.mpr ⟨hg, fun _ _ => ?_⟩
          rw [obeys_bind]
          exact obeys_cltSendMessAck _ _ fun a => ih _ hg (hr hrecipient)
        · refine obeys_perform_bind.mpr ⟨(hr hrecipient).mapUser fun _ => rfl,
            fun _ _ => trivial⟩
      · trivial

/-- `aux_connect_send_pend_msgs` is confined to the table of its user. -/
theorem obeys_auxConnectSendPendMsgs (fuel : ℕ) {e : Entry} (he : C.Msg e) :
    (auxConnectSendPendMsgs fuel e).Obeys (confined C) (fun _ _ => True) () := by
  rw [auxConnectSendPendMsgs]
  refine obeys_perform_bind.mpr ⟨trivial, fun junk _ => ?_⟩
  refine obeys_perform_bind.mpr ⟨trivial, fun r hr => ?_⟩
  split
  · trivial
  · rename_i hpos
    obtain ⟨u, m, rfl, hsame⟩ := id he
    exact obeys_drainLoop fuel _ he (hr u junk.user rfl hsame (Or.inl (not_lt.mp hpos)))

/-- The end of a handler adds nothing. -/
theorem obeys_finished {p : Srv Unit} (h : p.Obeys (confined C) (fun _ _ => True) ()) :
    (finished p).Obeys (confined C) (fun _ _ => True) () := by
  rw [finished, obeys_bind]
  exact h.mono fun _ _ _ => trivial

/-! ### The handlers -/

/-- `REGISTER` is confined to the table of its user. -/
theorem obeys_srvRegisterBody {u : Bytes} (hu : C.Same u) :
    (srvRegisterBody u).Obeys (confined C) (fun _ _ => True) () := by
  rw [srvRegisterBody]
  refine obeys_perform_bind.mpr ⟨trivial, fun junk _ => ?_⟩
  refine obeys_perform_bind.mpr ⟨⟨u, _, rfl, hu, C.zero⟩, fun result _ => ?_⟩
  rw [obeys_bind]
  exact obeys_inert (performs_sendServerReply _) fun _ => trivial

/-- `UNREGISTER` is confined to the table of its user. -/
theorem obeys_srvUnregisterBody {u : Bytes} (hu : C.Same u) :
    (srvUnregisterBody u).Obeys (confined C) (fun _ _ => True) () := by
  rw [srvUnregisterBody]
  refine obeys_perform_bind.mpr ⟨trivial, fun userExists _ => ?_⟩
  rw [obeys_bind]
  have hreply : ∀ code, ((sendServerReply code >>= fun _ => return ()) : Srv Unit).Obeys
      (confined C) (fun _ _ => True) () := by
    intro code
    rw [obeys_bind]
    exact obeys_inert (performs_sendServerReply _) fun _ => trivial
  unfold srvUnregisterReply
  split
  · exact obeys_perform_bind.mpr ⟨hu, fun result _ => hreply _⟩
  split
  · exact hreply _
  · exact hreply _

/-- The reply of `CONNECT` is confined to the table of its user. -/
theorem obeys_srvConnectReply (port : Bytes) (reply : UInt8) (ioResult : ℤ) {e : Entry}
    (he : 0 ≤ ioResult → C.User e) :
    (srvConnectReply port reply ioResult e).Obeys (confined C) (fun _ _ => True) () := by
  unfold srvConnectReply
  split
  · trivial
  split
  · trivial
  · rename_i hneg
    have huser : C.User e := he (not_lt.mp hneg)
    split
    · trivial
    · refine obeys_perform_bind.mpr ⟨trivial, fun peer _ => ?_⟩
      -- whatever the reply code is by now
      generalize (if peer.isNone then srvErrCnAny
        else if (strToNum port .int).toOption.isNone then srvErrCnAny else reply) = code
      simp only
      split
      · exact obeys_perform_bind.mpr ⟨huser.mapUser fun _ => rfl, fun _ _ => trivial⟩
      · trivial

/-- `CONNECT` with its drain is confined to the table of its user. -/
theorem obeys_srvConnectBody (fuel : ℕ) {u : Bytes} (hu : C.Same u) (port : Bytes) :
    (srvConnectBody fuel u port).Obeys (confined C) (fun _ _ => True) () := by
  rw [srvConnectBody]
  refine obeys_perform_bind.mpr ⟨trivial, fun junk _ => ?_⟩
  refine obeys_perform_bind.mpr ⟨trivial, fun r hr => ?_⟩
  rw [obeys_bind]
  refine (obeys_srvConnectReply port junk.byte r.1 fun hpos =>
    hr u junk.user rfl hu (Or.inl hpos)).mono fun _ code _ => ?_
  rw [obeys_bind]
  refine obeys_inert (performs_sendServerReply _) fun _ => ?_
  rw [obeys_bind]
  exact (obeys_auxConnectSendPendMsgs fuel ⟨u, _, rfl, hu⟩).mono fun _ _ _ => trivial

/-- `DISCONNECT` is confined to the table of its user. -/
theorem obeys_srvDisconnectBody {u : Bytes} (hu : C.Same u) :
    (srvDisconnectBody u).Obeys (confined C) (fun _ _ => True) () := by
  rw [srvDisconnectBody]
  refine obeys_perform_bind.mpr ⟨trivial, fun junk _ => ?_⟩
  refine obeys_perform_bind.mpr ⟨trivial, fun r hr => ?_⟩
  rw [obeys_bind]
  have hrest : ∀ code, ((sendServerReply code >>= fun _ => return ()) : Srv Unit).Obeys
      (confined C) (fun _ _ => True) () := by
    intro code
    rw [obeys_bind]
    exact obeys_inert (performs_sendServerReply _) fun _ => trivial
  unfold srvDisconnectReply
  split
  · exact hrest _
  split
  · exact hrest _
  split
  · exact hrest _
  · rename_i hneg _
    have huser : C.User r.2 := hr u junk.user rfl hu (Or.inl (not_lt.mp hneg))
    exact obeys_perform_bind.mpr ⟨huser.mapUser fun _ => rfl, fun w _ => hrest _⟩

/-- The end of `SEND` stores the message where the entries say. -/
theorem obeys_srvSendFinish (sender : Bytes) (code : UInt8) (recipientEntry msgEntry : Entry) :
    (srvSendFinish sender code recipientEntry msgEntry).Obeys (confined C)
      (fun _ _ => True) () := by
  rw [srvSendFinish, obeys_bind]
  refine obeys_inert (performs_auxSendFirstAck _ _) fun _ => ?_
  split
  · refine obeys_perform_bind.mpr ⟨trivial, fun junk _ => ?_⟩
    rw [obeys_bind]
    exact obeys_cltSendMessAck _ _ fun _ => trivial
  · trivial

/-- The start of `SEND` gives an entry of the recipient. -/
theorem obeys_auxSendInit {sender recipient : Bytes} (hr : C.Same recipient) (junk : Userdata) :
    (auxSendInit sender recipient ⟨[], .user junk⟩).Obeys (confined C)
      (fun _ r => r.1 = srvSuccess → C.User r.2) () := by
  have hne₁ : srvErrSendUsrNotExists ≠ srvSuccess := by decide
  have hne₂ : srvErrSendAny ≠ srvSuccess := by decide
  rw [auxSendInit]
  refine obeys_perform_bind.mpr ⟨trivial, fun senderExists _ => ?_⟩
  refine obeys_perform_bind.mpr ⟨trivial, fun recipientExists _ => ?_⟩
  split
  · exact fun h => absurd h hne₁
  split
  · exact fun h => absurd h hne₂
  refine obeys_perform_bind.mpr ⟨trivial, fun r hread => ?_⟩
  split
  · exact fun h => absurd h hne₂
  · rename_i hneg
    have huser : C.User r.2 := hread recipient junk rfl hr (Or.inl (not_lt.mp hneg))
    exact obeys_perform_bind.mpr ⟨huser.next, fun w _ _ => huser.next⟩

/-- The transmission gives the message under the recipient's name. -/
theorem obeys_auxSendMsgPass {sender recipient content : Bytes} (code : UInt8) {e : Entry}
    (he : C.User e) : (auxSendMsgPass sender recipient content code e).Obeys (confined C)
      (fun _ r => ∃ id, r.2.2 = ⟨recipient, .msg ⟨sender, id, content⟩⟩) () := by
  unfold auxSendMsgPass
  simp only
  split
  · rw [obeys_bind]
    refine (obeys_cltSendMessage _ _).mono fun _ r hr => ?_
    split
    · exact ⟨_, rfl⟩
    · exact obeys_perform_bind.mpr ⟨(hr he).mapUser fun _ => rfl, fun w _ => ⟨_, rfl⟩⟩
  · exact ⟨_, rfl⟩

/-- `SEND` is confined to the table of its recipient. -/
theorem obeys_srvSendBody {sender recipient content : Bytes} (hr : C.Same recipient)
    (hs : FitsBuf maxStrSize sender) (hc : FitsBuf maxMsgSize content) :
    (srvSendBody sender recipient content).Obeys (confined C) (fun _ _ => True) () := by
  rw [srvSendBody]
  refine obeys_perform_bind.mpr ⟨trivial, fun junk _ => ?_⟩
  rw [obeys_bind]
  refine (obeys_auxSendInit hr junk.user).mono fun _ i hi => ?_
  split
  · rw [obeys_bind]
    exact obeys_inert (performs_sendServerReply _) fun _ => trivial
  · rename_i hok
    rw [obeys_bind]
    refine (obeys_auxSendMsgPass i.1 (hi (not_not.mp hok))).mono fun _ p hp => ?_
    split
    · obtain ⟨id, hmsg⟩ := hp
      refine obeys_perform_bind.mpr ⟨⟨recipient, _, hmsg, hr, hs, hc⟩, fun w _ => ?_⟩
      exact obeys_srvSendFinish _ _ _ _
    · exact obeys_srvSendFinish _ _ _ _

/-! ### Any request -/

/-- The user that a request works for. -/
def Req.user : Req → Option Bytes
  | .register u => some u
  | .unregister u => some u
  | .connect u _ => some u
  | .disconnect u => some u
  | .send _ r _ => some r
  | .unknown => none

/-- The strings of a request fit their arrays. -/
def Req.Fits : Req → Prop
  | .register u => FitsBuf maxMsgSize u
  | .unregister u => FitsBuf maxMsgSize u
  | .connect u port => FitsBuf maxMsgSize u ∧ FitsBuf maxMsgSize port
  | .disconnect u => FitsBuf maxMsgSize u
  | .send s r c => FitsBuf maxMsgSize s ∧ FitsBuf maxMsgSize r ∧ FitsBuf maxMsgSize c
  | .unknown => True

instance : (req : Req) → Decidable req.Fits
  | .register u => inferInstanceAs (Decidable (FitsBuf maxMsgSize u))
  | .unregister u => inferInstanceAs (Decidable (FitsBuf maxMsgSize u))
  | .connect u port =>
      inferInstanceAs (Decidable (FitsBuf maxMsgSize u ∧ FitsBuf maxMsgSize port))
  | .disconnect u => inferInstanceAs (Decidable (FitsBuf maxMsgSize u))
  | .send s r c =>
      inferInstanceAs (Decidable (FitsBuf maxMsgSize s ∧ FitsBuf maxMsgSize r ∧
        FitsBuf maxMsgSize c))
  | .unknown => inferInstanceAs (Decidable True)

/-- **Confinement.**  The body of a request keeps to the class of its user. -/
theorem body_confined (fuel : ℕ) {req : Req} (hfits : req.Fits)
    (hsame : ∀ u, req.user = some u → C.Same u) :
    (req.body fuel).Obeys (confined C) (fun _ _ => True) () := by
  cases req with
  | register u => exact obeys_finished (obeys_srvRegisterBody (hsame u rfl))
  | unregister u => exact obeys_finished (obeys_srvUnregisterBody (hsame u rfl))
  | connect u port => exact obeys_srvConnectBody fuel (hsame u rfl) port
  | disconnect u => exact obeys_finished (obeys_srvDisconnectBody (hsame u rfl))
  | send s r c =>
      have hs : FitsBuf maxStrSize s := ⟨hfits.1.noNul, hfits.1.short.trans (by decide)⟩
      exact obeys_finished (obeys_srvSendBody (hsame r rfl) hs hfits.2.2)
  | unknown => trivial

end Confined
