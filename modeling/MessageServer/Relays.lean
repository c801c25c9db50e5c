/-
# What a thread relays

A message goes through a record that several threads rewrite, and through a file that others find.

* `Submitted`: a thread has taken a message from its request, and given it its number;
* `Relay`, `relaying`: what a thread knows of the messages that it stores and transmits;
* `obeys_relaying`: the threads keep to it.
-/
import MessageServer.Edits

/-! ## Two disciplines -/

section Products

variable {E : Effects} {Ph Ph' α : Type} {D : Discipline E Ph} {D' : Discipline E Ph'}

/-- Both disciplines at once. -/
def Discipline.prod (D : Discipline E Ph) (D' : Discipline E Ph') : Discipline E (Ph × Ph') where
  allowed := fun ph o => D.allowed ph.1 o ∧ D'.allowed ph.2 o
  possible := fun ph o x => D.possible ph.1 o x ∧ D'.possible ph.2 o x
  next := fun ph o x => (D.next ph.1 o x, D'.next ph.2 o x)

/-- A program that obeys both obeys them at once. -/
theorem Prog.Obeys.prod {Q : Ph → α → Prop} {Q' : Ph' → α → Prop} {p : Prog E α}
    {ph : Ph} {ph' : Ph'}
    (h : p.Obeys D Q ph) (h' : p.Obeys D' Q' ph') :
    p.Obeys (D.prod D') (fun ph a => Q ph.1 a ∧ Q' ph.2 a) (ph, ph') := by
  induction p generalizing ph ph' with
  | ret a => exact ⟨h, h'⟩
  | call o k ih => exact ⟨⟨h.1, h'.1⟩, fun x hposs => ih x (h.2 x hposs.1) (h'.2 x hposs.2)⟩

/-- Every program obeys a discipline that allows everything. -/
theorem obeys_of_allowed {p : Prog E α} {ph : Ph} (h : ∀ ph o, D.allowed ph o) :
    p.Obeys D (fun _ _ => True) ph := by
  induction p generalizing ph with
  | ret a => trivial
  | call o k ih => exact ⟨h ph o, fun x _ => ih x⟩

end Products

/-! ## Submitted messages -/

section Submissions

variable {ι : Type}

/-- Thread `i` has written the record of `u` back, with `id` as the last message id. -/
def Numbers (u : Bytes) (t : List (ι × srvE.Event)) (i : ι) (id : UInt32) : Prop :=
  ∃ ud x, (i, (⟨.db (.ioOpUsrEnt ⟨u, .user ud⟩ .modify), x⟩ : srvE.Event)) ∈ t ∧
    0 ≤ x.1 ∧ ud.lastMsgId = id

/-- The message was submitted for `u`: some thread handles a `SEND` of its text by its sender, and
has given it its id. -/
def Submitted (reqs : ι → Req) (u : Bytes) (t : List (ι × srvE.Event)) (m : Message) : Prop :=
  ∃ j, reqs j = .send m.sender u m.content ∧ Numbers u t j m.id

variable {reqs : ι → Req} {u : Bytes} {t t' : List (ι × srvE.Event)} {i : ι}
  {id : UInt32} {m : Message}

/-- A number that has been given stays given. -/
theorem Numbers.append (h : Numbers u t i id) : Numbers u (t ++ t') i id := by
  obtain ⟨ud, x, hmem, hx, hid⟩ := h
  exact ⟨ud, x, List.mem_append_left _ hmem, hx, hid⟩

/-- A message that has been submitted stays so. -/
theorem Submitted.append (h : Submitted reqs u t m) : Submitted reqs u (t ++ t') m := by
  obtain ⟨j, hreq, hnumbers⟩ := h
  exact ⟨j, hreq, hnumbers.append⟩

end Submissions

/-! ## What a thread knows -/

/-- The id that a thread has given first, and the message that it has found last. -/
structure Relay where
  numbered : Option UInt32
  found : Option Message

/-- A thread that has just begun. -/
def Relay.start : Relay := ⟨none, none⟩

/-- The message of the request, under the id that the thread has given it. -/
def Relay.Own (ph : Relay) (u : Bytes) (req : Req) (m : Message) : Prop :=
  req = .send m.sender u m.content ∧ ph.numbered = some m.id

/-- The discipline of a request of `u`: it stores its own message only, it transmits only this one
and what it has found, and it transmits to `u`. -/
def relaying (u : Bytes) (req : Req) : Discipline srvE Relay where
  allowed
    | ph, .db (.ioOpUsrEnt e .create) => ∃ m, e = ⟨u, .msg m⟩ ∧ ph.Own u req m
    | ph, .note (.cltSendMessage e m _) => e.username = u ∧ (ph.Own u req m ∨ ph.found = some m)
    | _, _ => True
  possible
    | _, .db (.ioOpUsrEnt e .read), x => ∀ j, e = ⟨u, .user j⟩ →
        ∃ ud, x.2 = ⟨u, .user ud⟩
    | _, _, _ => True
  next
    | ph, .db (.ioOpUsrEnt e .modify), x =>
        { ph with numbered := if 0 ≤ x.1 then ph.numbered.or (some e.user.lastMsgId)
          else ph.numbered }
    | ph, .db (.getPendMsg _), x =>
        { ph with found := if x.1 = dbmsSuccess then some x.2.msg else ph.found }
    | ph, _, _ => ph

section Discipline

variable {u : Bytes} {req : Req} {ph : Relay}

/-- The steps at which a thread neither stores nor transmits a message, and learns of none. -/
def Aside : SrvOp → Prop
  | .db (.ioOpUsrEnt _ .create) => False
  | .db (.ioOpUsrEnt _ .modify) => False
  | .db (.getPendMsg _) => False
  | .note (.cltSendMessage _ _ _) => False
  | _ => True

/-! ### Steps aside -/

/-- A step aside changes nothing that the thread knows. -/
theorem stays_aside : (relaying u req).Stays Aside ph := by
  intro o ho
  cases o with
  | db call =>
      cases call with
      | ioOpUsrEnt e mode =>
          cases mode with
          | create => exact ho.elim
          | modify => exact ho.elim
          | _ => exact ⟨trivial, fun _ => rfl⟩
      | getPendMsg e => exact ho.elim
      | _ => exact ⟨trivial, fun _ => rfl⟩
  | note n =>
      cases n with
      | cltSendMessage e m result => exact ho.elim
      | cltSendMessAck e id result => exact ⟨trivial, fun _ => rfl⟩
  | _ => exact ⟨trivial, fun _ => rfl⟩

/-- Talk is aside. -/
theorem Talks.aside (o : SrvOp) (h : Talks o) : Aside o := by
  cases o with
  | db call => exact h.elim
  | note n => exact h.elim
  | _ => trivial

/-- A socket call is aside. -/
theorem OnSock.aside {sock : Sock} (o : SrvOp) (h : OnSock sock o) : Aside o := by
  cases o with
  | db call => exact h.elim
  | note n => exact h.elim
  | _ => trivial

/-! ### The pieces of a handler -/

/-- The reply to the client. -/
theorem obeys_relaying_reply (code : UInt8) {Q : Relay → ℤ → Prop} (hQ : ∀ r, Q ph r) :
    (sendServerReply code).Obeys (relaying u req) Q ph :=
  obeys_of_performs (fun o ho => stays_aside o (OnSock.aside o ho)) (onSock_sendServerReply code) hQ

/-- A message of the thread. -/
theorem obeys_relaying_cltSendMessage (request : CltRequest) (j : Userdata)
    (hknown : ph.Own u req request.message ∨ ph.found = some request.message) :
    (cltSendMessage request ⟨u, .user j⟩).Obeys (relaying u req)
      (fun ph' (r : ℤ × Entry) => (∃ ud, r.2 = ⟨u, .user ud⟩) ∧ ph' = ph) ph := by
  have hstays : (relaying u req).Stays Talks ph := fun o ho => stays_aside o (Talks.aside o ho)
  rw [cltSendMessage, obeys_bind]
  refine obeys_reaching trivial fun r hposs => ⟨hstays, fun code => ?_⟩
  obtain ⟨ud, hud⟩ := hposs j rfl
  rw [obeys_bind]
  refine obeys_of_performs hstays
    ((onSock_ifConnected (onSock_cltSendMessageStrings _)).mono OnSock.talks)
    fun result => ?_
  exact obeys_perform_bind.mpr ⟨⟨congrArg Entry.username hud, hknown⟩,
    fun _ _ => ⟨⟨ud, hud⟩, rfl⟩⟩

/-- An acknowledgement. -/
theorem obeys_relaying_cltSendMessAck (request : CltRequest) (e : Entry)
    {Q : Relay → ℤ × Entry → Prop}
    (hQ : ∀ r, Q ph r) : (cltSendMessAck request e).Obeys (relaying u req) Q ph := by
  have hstays : (relaying u req).Stays Talks ph := fun o ho => stays_aside o (Talks.aside o ho)
  rw [cltSendMessAck, obeys_bind]
  refine obeys_reaching trivial fun r _ => ⟨hstays, fun code => ?_⟩
  rw [obeys_bind]
  refine obeys_of_performs hstays
    ((onSock_ifConnected (onSock_cltSendMessAckStrings _)).mono OnSock.talks)
    fun result => ?_
  exact obeys_perform_bind.mpr ⟨trivial, fun _ _ => hQ _⟩

/-- The drain, by induction on its rounds: what it transmits it has found. -/
theorem obeys_relaying_drainLoop (fuel : ℕ) (pendMsgEntry : Entry) (j : Userdata)
    (senderEntry : Entry) :
    (drainLoop fuel pendMsgEntry ⟨u, .user j⟩ senderEntry).Obeys (relaying u req)
      (fun _ _ => True) ph := by
  induction fuel generalizing pendMsgEntry j senderEntry ph with
  | zero => trivial
  | succ fuel ih =>
      rw [drainLoop]
      refine obeys_perform_bind.mpr ⟨trivial, fun (g : ℤ × Entry) _ => ?_⟩
      split
      · rename_i hfound
        rw [obeys_bind]
        refine (obeys_relaying_cltSendMessage _ j (Or.inr (if_pos hfound))).mono ?_
        rintro ph' ⟨result, e⟩ ⟨⟨ud, rfl⟩, rfl⟩
        split
        · refine stays_aside.bind (o := .db (.ioOpUsrEnt g.2 .delete)) trivial fun _ _ => ?_
          rw [obeys_bind]
          exact obeys_relaying_cltSendMessAck _ _ fun r => ih _ _ _
        · exact obeys_perform_bind.mpr ⟨trivial, fun _ _ => trivial⟩
      · trivial

/-- The drain transmits what it has found. -/
theorem obeys_relaying_auxConnectSendPendMsgs (fuel : ℕ) (m : Message) :
    (auxConnectSendPendMsgs fuel ⟨u, .msg m⟩).Obeys (relaying u req) (fun _ _ => True) ph := by
  rw [auxConnectSendPendMsgs]
  refine stays_aside.bind (o := .uninit) trivial fun junk _ => ?_
  refine obeys_perform_bind.mpr ⟨trivial, fun (r : ℤ × Entry) hposs => ?_⟩
  obtain ⟨code, e⟩ := r
  obtain ⟨ud, rfl⟩ : ∃ ud, e = ⟨u, .user ud⟩ := hposs junk.user rfl
  split
  · trivial
  · exact obeys_relaying_drainLoop _ _ _ _

/-! ### `CONNECT` and `SEND` -/

/-- `CONNECT` transmits what it finds. -/
theorem obeys_relaying_srvConnectBody (fuel : ℕ) (port : Bytes) :
    (srvConnectBody fuel u port).Obeys (relaying u req) (fun _ _ => True) ph := by
  have hreply : ∀ (byte : UInt8) (r : ℤ) (e : Entry) (ph : Relay),
      (srvConnectReply port byte r e).Obeys (relaying u req) (fun _ _ => True) ph := by
    intro byte r e ph
    unfold srvConnectReply
    split
    · trivial
    split
    · trivial
    split
    · trivial
    refine stays_aside.bind (o := .getpeername) trivial fun (peer : Option UInt32) _ => ?_
    -- whatever the reply code is by now
    generalize (if peer.isNone then srvErrCnAny
      else if (strToNum port .int).toOption.isNone then srvErrCnAny else byte) = code
    simp only
    split
    · exact obeys_perform_bind.mpr ⟨trivial, fun _ _ => trivial⟩
    · trivial
  rw [srvConnectBody]
  refine stays_aside.bind (o := .uninit) trivial fun junk _ => ?_
  refine stays_aside.bind (o := .db (.ioOpUsrEnt ⟨u, .user junk.user⟩ .read)) trivial fun r _ =>
    ?_
  rw [obeys_bind]
  refine (hreply junk.byte r.1 r.2 ph).mono fun ph' code _ => ?_
  rw [obeys_bind]
  refine obeys_relaying_reply code fun _ => ?_
  rw [obeys_bind]
  exact (obeys_relaying_auxConnectSendPendMsgs fuel junk.msg).mono fun _ _ _ => trivial

/-- Taking a message id. -/
theorem obeys_relaying_auxSendInit (s : Bytes) (j : Userdata) :
    (auxSendInit s u ⟨[], .user j⟩).Obeys (relaying u req)
      (fun ph' i => i.1 = srvSuccess → ∃ ud, i.2 = ⟨u, .user ud⟩ ∧
          ph'.numbered = some ud.lastMsgId) .start := by
  rw [auxSendInit]
  refine stays_aside.bind (o := .db (.userExists s)) trivial fun (a : ℤ) _ => ?_
  refine stays_aside.bind (o := .db (.userExists u)) trivial fun (b : ℤ) _ => ?_
  split
  · exact fun hcode => absurd hcode (show srvErrSendUsrNotExists ≠ srvSuccess by decide)
  split
  · exact fun hcode => absurd hcode (show srvErrSendAny ≠ srvSuccess by decide)
  refine obeys_perform_bind.mpr ⟨trivial, fun (r : ℤ × Entry) hposs => ?_⟩
  obtain ⟨code, e⟩ := r
  obtain ⟨ud, rfl⟩ : ∃ ud, e = ⟨u, .user ud⟩ := hposs j rfl
  split
  · exact fun hcode => absurd hcode (show srvErrSendAny ≠ srvSuccess by decide)
  refine obeys_perform_bind.mpr ⟨trivial, fun (w : ℤ × Entry) _ hcode =>
    ⟨ud.next, rfl, ?_⟩⟩
  -- the id counts only when the record has been written back
  have hwritten : 0 ≤ w.1 := by
    by_contra hneg
    rw [if_pos (not_le.mp hneg)] at hcode
    exact absurd hcode (show srvErrSendAny ≠ srvSuccess by decide)
  exact if_pos hwritten

/-- Passing the message on. -/
theorem obeys_relaying_auxSendMsgPass (s c : Bytes) (code : UInt8) (ud : Userdata)
    (hnumbered : ph.numbered = some ud.lastMsgId) :
    (auxSendMsgPass s u c code ⟨u, .user ud⟩).Obeys (relaying u (.send s u c))
      (fun ph' (p : UInt8 × Entry × Entry) => ∃ m, p.2.2 = ⟨u, .msg m⟩ ∧
          ph'.Own u (.send s u c) m) ph := by
  have hown : ph.Own u (.send s u c) ⟨s, ud.lastMsgId, c⟩ := ⟨rfl, hnumbered⟩
  by_cases hcn : ud.status = statusCn
  · rw [auxSendMsgPass_connected hcn, obeys_bind]
    refine (obeys_relaying_cltSendMessage ⟨opSendMessage, ⟨s, ud.lastMsgId, c⟩⟩ ud
      (Or.inl hown)).mono ?_
    rintro ph' ⟨result, e⟩ ⟨-, rfl⟩
    split
    · exact ⟨_, rfl, hown⟩
    refine obeys_perform_bind.mpr ⟨trivial, fun (w : ℤ × Entry) _ => ⟨_, rfl, rfl, ?_⟩⟩
    -- the id that was given first stays
    show (if 0 ≤ w.1 then ph'.numbered.or _ else ph'.numbered) = _
    rw [hnumbered]
    exact ite_self _
  · rw [auxSendMsgPass_other hcn]
    exact ⟨_, rfl, hown⟩

/-- The end of `SEND`. -/
theorem obeys_relaying_srvSendFinish (s : Bytes) (code : UInt8) (recipientEntry msgEntry : Entry) :
    (srvSendFinish s code recipientEntry msgEntry).Obeys (relaying u req) (fun _ _ => True) ph := by
  rw [srvSendFinish, obeys_bind]
  refine obeys_of_performs (fun o ho => stays_aside o (OnSock.aside o ho))
    (onSock_auxSendFirstAck code _) fun _ => ?_
  split
  · refine stays_aside.bind (o := .uninit) trivial fun junk _ => ?_
    rw [obeys_bind]
    exact obeys_relaying_cltSendMessAck _ _ fun _ => trivial
  · trivial

/-- `SEND` stores and transmits its own message. -/
theorem obeys_relaying_srvSendBody (s c : Bytes) :
    (srvSendBody s u c).Obeys (relaying u (.send s u c)) (fun _ _ => True) .start := by
  rw [srvSendBody]
  refine stays_aside.bind (o := .uninit) trivial fun junk _ => ?_
  rw [obeys_bind]
  refine (obeys_relaying_auxSendInit s junk.user).mono fun ph' i hentry => ?_
  split
  · rw [obeys_bind]
    exact obeys_relaying_reply _ fun _ => trivial
  · rename_i hcode
    obtain ⟨ud, hud, hnumbered⟩ := hentry (not_not.mp hcode)
    rw [obeys_bind, hud]
    refine (obeys_relaying_auxSendMsgPass s c i.1 ud hnumbered).mono fun ph'' p hown => ?_
    split
    · exact obeys_perform_bind.mpr ⟨hown, fun _ _ => obeys_relaying_srvSendFinish _ _ _ _⟩
    · exact obeys_relaying_srvSendFinish _ _ _ _

/-- **A request of `u` makes no message up.** -/
theorem obeys_relaying (fuel : ℕ) (huser : req.user = some u) :
    (req.body fuel).Obeys (relaying u req) (fun _ _ => True) .start := by
  cases req with
  | register v =>
      rw [Req.body, finished, obeys_bind, srvRegisterBody]
      refine stays_aside.bind (o := .uninit) trivial fun junk _ => ?_
      refine stays_aside.bind (o := .db (.creatUsrTbl _)) trivial fun result _ => ?_
      rw [obeys_bind]
      exact obeys_relaying_reply _ fun _ => trivial
  | unregister v =>
      have hreply : ∀ userExists : ℤ, (srvUnregisterReply v userExists).Obeys
          (relaying u (.unregister v))
          (fun ph' _ => ph' = .start) .start := by
        intro userExists
        unfold srvUnregisterReply
        split
        · exact stays_aside.bind (o := .db (.delUsrTbl v)) trivial fun _ _ => rfl
        split
        · exact rfl
        · exact rfl
      rw [Req.body, finished, obeys_bind, srvUnregisterBody]
      refine stays_aside.bind (o := .db (.userExists v)) trivial fun userExists _ => ?_
      rw [obeys_bind]
      refine (hreply userExists).mono fun ph' code _ => ?_
      rw [obeys_bind]
      exact obeys_relaying_reply _ fun _ => trivial
  | connect v port =>
      obtain rfl : v = u := Option.some.inj huser
      exact obeys_relaying_srvConnectBody fuel port
  | disconnect v =>
      have hreply : ∀ (r : ℤ) (e : Entry), (srvDisconnectReply r e).Obeys
          (relaying u (.disconnect v))
          (fun _ _ => True) .start := by
        intro r e
        unfold srvDisconnectReply
        split
        · trivial
        split
        · trivial
        split
        · trivial
        · exact obeys_perform_bind.mpr ⟨trivial, fun _ _ => trivial⟩
      rw [Req.body, finished, obeys_bind, srvDisconnectBody]
      refine stays_aside.bind (o := .uninit) trivial fun junk _ => ?_
      refine stays_aside.bind (o := .db (.ioOpUsrEnt ⟨v, .user junk.user⟩ .read))
        trivial fun r _ => ?_
      rw [obeys_bind]
      refine (hreply r.1 r.2).mono fun ph' code _ => ?_
      rw [obeys_bind]
      exact obeys_relaying_reply _ fun _ => trivial
  | send s v c =>
      obtain rfl : v = u := Option.some.inj huser
      rw [Req.body, finished, obeys_bind]
      exact (obeys_relaying_srvSendBody s c).mono fun _ _ _ => trivial
  | unknown => trivial

end Discipline
