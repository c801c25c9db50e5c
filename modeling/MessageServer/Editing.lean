/-
# A thread that edits a record

A thread that handles `SEND`, `CONNECT` or `DISCONNECT` reads the whole record, changes some of its
fields and writes the whole record back.

* `Edit`: what a request may make of a record;
* `editing`: what a thread knows of the record when it writes it back, as a discipline;
* `obeys_editing`: the threads keep to it.
-/
import MessageServer.Parallel
import MessageServer.ConcurrentIds
import MessageServer.Sessions
import MessageServer.MessageIds

/-! ## Edits -/

/-- What a request may make of a record; `peer` are the addresses that `getpeername` has given, and
`failed` says that a message has not got through. -/
inductive Edit (req : Req) (peer : UInt32 → Prop) (failed : Prop) (ud : Userdata) :
    Userdata → Prop
  | numbered {s v c : Bytes} (hreq : req = .send s v c) : Edit req peer failed ud ud.next
  | connected {v port : Bytes} {ip : UInt32} {p : ℤ} (hreq : req = .connect v port)
      (hpeer : peer ip)
      (hport : strToNum port .int = .ok p) (hstatus : ud.status ≠ statusCn) :
      Edit req peer failed ud (ud.connected ip p)
  | left {v : Bytes} (hreq : req = .disconnect v) (hstatus : ud.status ≠ statusDcn) :
      Edit req peer failed ud ud.left
  | lost (hfailed : failed) : Edit req peer failed ud ud.lost

theorem Edit.mono {req : Req} {peer peer' : UInt32 → Prop} {failed failed' : Prop}
    {ud ud' : Userdata}
    (h : Edit req peer failed ud ud') (hpeer : ∀ ip, peer ip → peer' ip)
    (hfailed : failed → failed') :
    Edit req peer' failed' ud ud' := by
  cases h with
  | numbered hreq => exact .numbered hreq
  | connected hreq hip hport hstatus => exact .connected hreq (hpeer _ hip) hport hstatus
  | left hreq hstatus => exact .left hreq hstatus
  | lost h => exact .lost (hfailed h)

/-- The request edits the record of `u`. -/
def Req.EditsOf (u : Bytes) : Req → Prop
  | .connect v _ => v = u
  | .disconnect v => v = u
  | .send _ v _ => v = u
  | _ => False

instance (u : Bytes) : (req : Req) → Decidable (req.EditsOf u)
  | .register _ => inferInstanceAs (Decidable False)
  | .unregister _ => inferInstanceAs (Decidable False)
  | .connect v _ => inferInstanceAs (Decidable (v = u))
  | .disconnect v => inferInstanceAs (Decidable (v = u))
  | .send _ v _ => inferInstanceAs (Decidable (v = u))
  | .unknown => inferInstanceAs (Decidable False)

theorem Req.EditsOf.user {u : Bytes} {req : Req} (h : req.EditsOf u) : req.user = some u := by
  cases req with
  | register v => exact h.elim
  | unregister v => exact h.elim
  | unknown => exact h.elim
  | _ => exact congrArg some h

/-! ## What a thread knows -/

/-- What a thread has read of the record since it last wrote it, the address that `getpeername` has
given, whether a message has not got through, and what it has made of the record so far: what it had
read, and what it has written for that. -/
structure Editor where
  known : Option Userdata
  peer : Option UInt32
  failed : Bool
  wrote : List (Userdata × Userdata)

/-- A thread that has just begun. -/
def Editor.start : Editor := ⟨none, none, false, []⟩

/-- The thread has made the edit that the request is for. -/
def Editor.HasEdited (req : Req) (ph : Editor) : Prop :=
  ∃ p ∈ ph.wrote, Edit req (fun ip => ph.peer = some ip) False p.1 p.2

/-- The thread writes a record back. -/
def Editor.write (ph : Editor) (ud' : Userdata) : Editor :=
  { ph with known := none, wrote := ph.wrote ++ ph.known.toList.map fun ud => (ud, ud') }

/-- The discipline of a request that edits the record of `u`. -/
def editing (u : Bytes) (req : Req) : Discipline srvE Editor where
  allowed
    | ph, .db (.ioOpUsrEnt e .modify) => ∃ ud ud', ph.known = some ud ∧
        e = ⟨u, .user ud'⟩ ∧
        Edit req (fun ip => ph.peer = some ip) (ph.failed = true) ud ud'
    | _, .db (.creatUsrTbl _) => False
    | _, .db (.delUsrTbl _) => False
    | ph, .write .client bytes => bytes = [srvSuccess] → ph.HasEdited req
    | _, _ => True
  possible
    | _, .db (.ioOpUsrEnt e .read), x => ∀ j, e = ⟨u, .user j⟩ →
        ∃ ud, x = (dbmsSuccess, ⟨u, .user ud⟩)
    | _, .db (.ioOpUsrEnt _ .modify), x => x.1 = dbmsSuccess
    | _, _, _ => True
  next
    | ph, .db (.ioOpUsrEnt e .read), x =>
        { ph with known := if e = ⟨u, .user e.user⟩ then some x.2.user else none }
    | ph, .db (.ioOpUsrEnt e .modify), _ => ph.write e.user
    | ph, .getpeername, ip => { ph with peer := ip }
    | ph, .note (.cltSendMessage _ _ result), _ =>
        { ph with failed := ph.failed || decide (result ≠ 0) }
    | ph, _, _ => ph

section Discipline

variable {u : Bytes} {req : Req} {ph : Editor}

/-- The steps that neither edit the record nor tell anything of it. -/
def Idles : SrvOp → Prop
  | .uninit => True
  | .db (.userExists _) => True
  | .db (.ioOpUsrEnt _ .create) => True
  | .db (.ioOpUsrEnt _ .delete) => True
  | .db (.getPendMsg _) => True
  | .socket => True
  | .connect _ _ => True
  | .write .listener _ => True
  | .close _ => True
  | .note (.cltSendMessAck _ _ _) => True
  | _ => False

/-- What has been made stays made. -/
theorem Editor.HasEdited.write (h : ph.HasEdited req) {ph' : Editor} (hpeer : ph'.peer = ph.peer)
    (hwrote : ph'.wrote = ph.wrote) (ud : Userdata) : (ph'.write ud).HasEdited req := by
  obtain ⟨p, hp, hedit⟩ := h
  refine ⟨p, List.mem_append_left _ (hwrote ▸ hp), hedit.mono (fun ip hip => ?_) id⟩
  exact hpeer.trans hip

/-- The edit that is written now. -/
theorem Editor.hasEdited_write {ud ud' : Userdata} (hknown : ph.known = some ud)
    (hedit : Edit req (fun ip => ph.peer = some ip) False ud ud') :
    (ph.write ud').HasEdited req := by
  refine ⟨(ud, ud'), List.mem_append_right _ ?_, hedit⟩
  rw [hknown]
  exact List.mem_cons_self

/-! ### Steps that are no edit -/

theorem stays_idles : (editing u req).Stays Idles ph := by
  intro o ho
  cases o with
  | db call =>
      cases call with
      | ioOpUsrEnt e mode =>
          cases mode with
          | create => exact ⟨trivial, fun _ => rfl⟩
          | delete => exact ⟨trivial, fun _ => rfl⟩
          | _ => exact ho.elim
      | userExists v => exact ⟨trivial, fun _ => rfl⟩
      | getPendMsg e => exact ⟨trivial, fun _ => rfl⟩
      | _ => exact ho.elim
  | write sock bytes =>
      cases sock with
      | client => exact ho.elim
      | listener => exact ⟨trivial, fun _ => rfl⟩
  | note n =>
      cases n with
      | cltSendMessage e m result => exact ho.elim
      | cltSendMessAck e id result => exact ⟨trivial, fun _ => rfl⟩
  | recv buf => exact ho.elim
  | getpeername => exact ho.elim
  | _ => exact ⟨trivial, fun _ => rfl⟩

theorem Talks.idles (o : SrvOp) (h : Talks o) : Idles o := by
  cases o with
  | write sock bytes =>
      cases sock with
      | client => exact h.elim
      | listener => trivial
  | db call => exact h.elim
  | note n => exact h.elim
  | recv buf => exact h.elim
  | getpeername => exact h.elim
  | _ => trivial

theorem stays_talks : (editing u req).Stays Talks ph := fun o ho => stays_idles o (Talks.idles o ho)

/-! ### The pieces of a handler -/

/-- A message to the user: the record is read again. -/
theorem obeys_editing_cltSendMessage (request : CltRequest) (j : Userdata) :
    (cltSendMessage request ⟨u, .user j⟩).Obeys (editing u req)
      (fun ph' (r : ℤ × Entry) => ∃ ud, r.2 = ⟨u, .user ud⟩ ∧
        ph' = { ph with known := some ud, failed := ph.failed || decide (r.1 ≠ 0) }) ph := by
  rw [cltSendMessage, obeys_bind]
  refine obeys_reaching trivial fun r hposs => ⟨stays_talks, fun code => ?_⟩
  obtain ⟨ud, rfl⟩ := hposs j rfl
  have hnext : (editing u req).next ph (.db (.ioOpUsrEnt ⟨u, .user j⟩ .read))
      (dbmsSuccess, ⟨u, .user ud⟩) =
      { ph with known := some ud } := by
    show { ph with known := if (⟨u, .user j⟩ : Entry) = (⟨u, .user j⟩ : Entry)
      then _ else _ } = _
    rw [if_pos rfl]
    rfl
  rw [hnext, obeys_bind]
  refine obeys_of_performs stays_talks
    ((onSock_ifConnected (onSock_cltSendMessageStrings _)).mono OnSock.talks)
    fun result => ?_
  exact obeys_perform_bind.mpr ⟨trivial, fun _ _ => ⟨ud, rfl, rfl⟩⟩

/-- An acknowledgement: some record is read. -/
theorem obeys_editing_cltSendMessAck (request : CltRequest) (e : Entry)
    {Q : Editor → ℤ × Entry → Prop}
    (hQ : ∀ known r, Q { ph with known := known } r) :
    (cltSendMessAck request e).Obeys (editing u req) Q ph := by
  rw [cltSendMessAck, obeys_bind]
  refine obeys_reaching trivial fun r _ => ⟨stays_talks, fun code => ?_⟩
  rw [obeys_bind]
  refine obeys_of_performs stays_talks
    ((onSock_ifConnected (onSock_cltSendMessAckStrings _)).mono OnSock.talks) fun result => ?_
  exact obeys_perform_bind.mpr ⟨trivial, fun _ _ => hQ _ _⟩

/-- A record is written back as that of a user who could not be reached. -/
theorem allowed_lost {ud : Userdata} (hknown : ph.known = some ud) (hfailed : ph.failed = true) :
    (editing u req).allowed ph (.db (.ioOpUsrEnt ⟨u, .user ud.lost⟩ .modify)) :=
  ⟨ud, _, hknown, rfl, .lost hfailed⟩

/-- The drain, by induction on its rounds. -/
theorem obeys_editing_drainLoop (fuel : ℕ) (pendMsgEntry : Entry) (j : Userdata)
    (senderEntry : Entry) :
    (drainLoop fuel pendMsgEntry ⟨u, .user j⟩ senderEntry).Obeys (editing u req)
      (fun _ _ => True) ph := by
  induction fuel generalizing pendMsgEntry j senderEntry ph with
  | zero => trivial
  | succ fuel ih =>
      rw [drainLoop]
      refine stays_idles.bind (o := .db (.getPendMsg pendMsgEntry)) trivial fun g _ => ?_
      split
      · rw [obeys_bind]
        refine (obeys_editing_cltSendMessage _ j).mono ?_
        rintro ph' ⟨result, e⟩ ⟨ud, rfl, rfl⟩
        split
        · refine stays_idles.bind (o := .db (.ioOpUsrEnt g.2 .delete)) trivial fun _ _ => ?_
          rw [obeys_bind]
          exact obeys_editing_cltSendMessAck _ _ fun known r => ih _ _ _
        · rename_i hresult
          refine obeys_perform_bind.mpr ⟨allowed_lost rfl ?_, fun _ _ => trivial⟩
          show (ph.failed || decide (result ≠ 0)) = true
          rw [decide_eq_true hresult, Bool.or_true]
      · trivial

theorem obeys_editing_auxConnectSendPendMsgs (fuel : ℕ) (m : Message) :
    (auxConnectSendPendMsgs fuel ⟨u, .msg m⟩).Obeys (editing u req) (fun _ _ => True) ph := by
  rw [auxConnectSendPendMsgs]
  refine stays_idles.bind (o := .uninit) trivial fun junk _ => ?_
  refine obeys_perform_bind.mpr ⟨trivial, fun r hposs => ?_⟩
  obtain ⟨ud, rfl⟩ := hposs junk.user rfl
  rw [if_neg (show ¬ dbmsSuccess < 0 by decide)]
  exact obeys_editing_drainLoop _ _ _ _

/-- A reply that is no success, or one that the thread has earned. -/
theorem obeys_editing_reply {code : UInt8} {Q : Editor → ℤ → Prop}
    (h : code = srvSuccess → ph.HasEdited req)
    (hQ : ∀ r, Q ph r) : (sendServerReply code).Obeys (editing u req) Q ph := by
  rw [sendServerReply]
  refine obeys_perform_bind.mpr ⟨fun hcode => h (List.singleton_inj.mp hcode),
    fun (ok : Bool) _ => ?_⟩
  cases ok with
  | true => exact hQ _
  | false => exact stays_idles.bind (o := .close .client) trivial fun _ _ => hQ _

/-- The phase behind a reading of the record. -/
theorem next_read (j : Userdata) (x : ℤ × Entry) :
    (editing u req).next ph (.db (.ioOpUsrEnt ⟨u, .user j⟩ .read)) x =
      { ph with known := some x.2.user } := by
  show { ph with known := if (⟨u, .user j⟩ : Entry) = (⟨u, .user j⟩ : Entry)
    then _ else _ } = _
  rw [if_pos rfl]

/-! ### `CONNECT` and `DISCONNECT` -/

/-- The part of `CONNECT` that decides the reply. -/
theorem obeys_editing_srvConnectReply {port : Bytes} (byte : UInt8) {ud : Userdata}
    (hknown : ph.known = some ud) :
    (srvConnectReply port byte dbmsSuccess ⟨u, .user ud⟩).Obeys (editing u (.connect u port))
      (fun ph' code => code = srvSuccess → ph'.HasEdited (.connect u port)) ph := by
  unfold srvConnectReply
  rw [if_neg (by decide), if_neg (show ¬ dbmsSuccess < 0 by decide)]
  split
  · exact fun hcode => absurd hcode (by decide)
  rename_i hstatus
  refine obeys_perform_bind.mpr ⟨trivial, fun (peer : Option UInt32) _ => ?_⟩
  show Prog.Obeys _ _ _ { ph with peer := peer }
  cases hport : strToNum port .int with
  | error err =>
      have hcode : (if peer.isNone = true then srvErrCnAny else
          if (Except.error err : Except _ ℤ).toOption.isNone = true then srvErrCnAny else byte) =
            srvErrCnAny := by
        cases peer <;> rfl
      rw [if_neg (by rw [hcode]; simp), hcode]
      exact fun hsuccess => absurd hsuccess (by decide)
  | ok p =>
      cases peer with
      | none =>
          rw [if_neg (by simp)]
          exact fun hsuccess => absurd hsuccess (show srvErrCnAny ≠ srvSuccess by decide)
      | some ip =>
          simp only [Option.isNone_some, Except.toOption, Bool.false_eq_true, if_false]
          split
          · have hedit : Edit (.connect u port) (fun ip' => some ip = some ip')
                (ph.failed = true) ud
                (ud.connected ip p) := .connected rfl rfl hport hstatus
            refine obeys_perform_bind.mpr ⟨⟨ud, _, hknown, rfl, hedit⟩,
              fun (w : ℤ × Entry) hw => ?_⟩
            obtain hw : w.1 = dbmsSuccess := hw
            rw [hw]
            exact fun _ => Editor.hasEdited_write hknown (.connected rfl rfl hport hstatus)
          · rename_i hbad
            rw [not_not.mp hbad]
            exact fun hsuccess => absurd hsuccess (by decide)

/-- `CONNECT` edits the record of its user. -/
theorem obeys_editing_srvConnectBody (fuel : ℕ) (port : Bytes) :
    (srvConnectBody fuel u port).Obeys (editing u (.connect u port)) (fun _ _ => True) ph := by
  rw [srvConnectBody]
  refine stays_idles.bind (o := .uninit) trivial fun junk _ => ?_
  refine obeys_perform_bind.mpr ⟨trivial, fun x hposs => ?_⟩
  obtain ⟨ud, rfl⟩ := hposs junk.user rfl
  rw [next_read, obeys_bind]
  refine (obeys_editing_srvConnectReply junk.byte rfl).mono fun ph' code hedited => ?_
  rw [obeys_bind]
  refine obeys_editing_reply hedited fun r => ?_
  rw [obeys_bind]
  exact (obeys_editing_auxConnectSendPendMsgs fuel junk.msg).mono fun _ _ _ => trivial

/-- `DISCONNECT` edits the record of its user. -/
theorem obeys_editing_srvDisconnectBody :
    (srvDisconnectBody u).Obeys (editing u (.disconnect u)) (fun _ _ => True) ph := by
  rw [srvDisconnectBody]
  refine stays_idles.bind (o := .uninit) trivial fun junk _ => ?_
  refine obeys_perform_bind.mpr ⟨trivial, fun x hposs => ?_⟩
  obtain ⟨ud, rfl⟩ := hposs junk.user rfl
  rw [next_read, obeys_bind]
  have hreply : (srvDisconnectReply dbmsSuccess ⟨u, .user ud⟩).Obeys (editing u (.disconnect u))
      (fun ph' code => code = srvSuccess → ph'.HasEdited (.disconnect u))
      { ph with known := some ud } := by
    unfold srvDisconnectReply
    rw [if_neg (by decide), if_neg (show ¬ dbmsSuccess < 0 by decide)]
    split
    · exact fun hcode => absurd hcode (by decide)
    · rename_i hstatus
      refine obeys_perform_bind.mpr ⟨⟨ud, _, rfl, rfl, .left rfl hstatus⟩,
        fun (w : ℤ × Entry) hw => ?_⟩
      obtain hw : w.1 = dbmsSuccess := hw
      rw [hw]
      exact fun _ => Editor.hasEdited_write rfl (.left rfl hstatus)
  refine hreply.mono fun ph' code hedited => ?_
  rw [obeys_bind]
  exact obeys_editing_reply hedited fun r => trivial

/-! ### `SEND` -/

/-- Taking a message id. -/
theorem obeys_editing_auxSendInit (s v c : Bytes) (junk : Userdata) :
    (auxSendInit s u ⟨[], .user junk⟩).Obeys (editing u (.send s v c))
      (fun ph' i => i.1 = srvSuccess → ph'.HasEdited (.send s v c) ∧
          ∃ ud, i.2 = ⟨u, .user ud⟩) ph := by
  rw [auxSendInit]
  refine stays_idles.bind (o := .db (.userExists s)) trivial fun (a : ℤ) _ => ?_
  refine stays_idles.bind (o := .db (.userExists u)) trivial fun (b : ℤ) _ => ?_
  split
  · exact fun hcode => absurd hcode (show srvErrSendUsrNotExists ≠ srvSuccess by decide)
  split
  · exact fun hcode => absurd hcode (show srvErrSendAny ≠ srvSuccess by decide)
  refine obeys_perform_bind.mpr ⟨trivial, fun x hposs => ?_⟩
  obtain ⟨ud, rfl⟩ := hposs junk rfl
  rw [if_neg (show ¬ dbmsSuccess < 0 by decide)]
  have hknown := congrArg Editor.known (@next_read u (.send s v c) ph junk
    (dbmsSuccess, ⟨u, .user ud⟩))
  refine obeys_perform_bind.mpr ⟨⟨ud, ud.next, hknown, rfl, .numbered rfl⟩,
    fun _ _ _ => ⟨?_, _, rfl⟩⟩
  exact Editor.hasEdited_write hknown (.numbered rfl)

/-- Passing the message on. -/
theorem obeys_editing_auxSendMsgPass (s c : Bytes) (code : UInt8) (ud : Userdata)
    (hedited : ph.HasEdited req) :
    (auxSendMsgPass s u c code ⟨u, .user ud⟩).Obeys (editing u req)
      (fun ph' _ => ph'.HasEdited req) ph := by
  by_cases hcn : ud.status = statusCn
  · rw [auxSendMsgPass_connected hcn, obeys_bind]
    refine (obeys_editing_cltSendMessage _ ud).mono ?_
    rintro ph' ⟨result, e⟩ ⟨ud', rfl, rfl⟩
    split
    · exact hedited
    · rename_i hresult
      refine obeys_perform_bind.mpr ⟨allowed_lost rfl ?_, fun _ _ => ?_⟩
      · show (ph.failed || decide (result ≠ 0)) = true
        rw [decide_eq_true hresult, Bool.or_true]
      · show Editor.HasEdited req (Editor.write _ _)
        apply hedited.write
        · rfl
        · rfl
  · rw [auxSendMsgPass_other hcn]
    exact hedited

/-- The end of `SEND`. -/
theorem obeys_editing_srvSendFinish (s v c : Bytes) (code : UInt8) (recipientEntry msgEntry : Entry)
    (hedited : ph.HasEdited (.send s v c)) : (srvSendFinish s code recipientEntry msgEntry).Obeys
      (editing u (.send s v c)) (fun _ _ => True) ph := by
  have hend : ∀ ph : Editor, (if recipientEntry.user.status = statusCn then
      uninit >>= fun junk =>
        cltSendMessAck ⟨opSendMessAck, ⟨[], recipientEntry.user.lastMsgId, []⟩⟩
        ⟨s, .user junk.user⟩ >>= fun _ => return ()
      else (return () : Srv Unit)).Obeys (editing u (.send s v c)) (fun _ _ => True) ph := by
    intro ph
    split
    · refine stays_idles.bind (o := .uninit) trivial fun junk _ => ?_
      rw [obeys_bind]
      exact obeys_editing_cltSendMessAck _ _ fun _ _ => trivial
    · trivial
  rw [srvSendFinish, auxSendFirstAck, obeys_bind, obeys_bind]
  refine obeys_editing_reply (fun _ => hedited) fun r => ?_
  by_cases hunsent : r < 0
  · rw [if_pos hunsent]
    exact hend ph
  rw [if_neg hunsent]
  by_cases hcode : code = srvSuccess
  · rw [if_pos hcode, obeys_bind, sendString]
    refine obeys_perform_bind.mpr ⟨fun _ => hedited, fun (ok : Bool) _ => ?_⟩
    cases ok with
    | true => exact hend ph
    | false => exact stays_idles.bind (o := .close .client) trivial fun _ _ => hend ph
  · rw [if_neg hcode]
    exact hend ph

/-- `SEND` edits the record of its recipient. -/
theorem obeys_editing_srvSendBody (s c : Bytes) :
    (srvSendBody s u c).Obeys (editing u (.send s u c)) (fun _ _ => True) ph := by
  rw [srvSendBody]
  refine stays_idles.bind (o := .uninit) trivial fun junk _ => ?_
  rw [obeys_bind]
  refine (obeys_editing_auxSendInit s u c junk.user).mono fun ph' i hentry => ?_
  split
  · rename_i hcode
    rw [obeys_bind]
    exact obeys_editing_reply (fun hsuccess => absurd hsuccess hcode) fun r => trivial
  · rename_i hcode
    obtain ⟨hedited, ud, hud⟩ := hentry (not_not.mp hcode)
    rw [obeys_bind, hud]
    refine (obeys_editing_auxSendMsgPass s c i.1 ud hedited).mono fun ph' p hedited => ?_
    split
    · refine stays_idles.bind (o := .db (.ioOpUsrEnt p.2.2 .create)) trivial fun w _ => ?_
      exact obeys_editing_srvSendFinish s u c _ _ _ hedited
    · exact obeys_editing_srvSendFinish s u c _ _ _ hedited

/-- **A request edits the record of its user**, and no other way. -/
theorem obeys_editing (fuel : ℕ) (h : req.EditsOf u) :
    (req.body fuel).Obeys (editing u req) (fun _ _ => True) ph := by
  cases req with
  | register v => exact h.elim
  | unregister v => exact h.elim
  | unknown => exact h.elim
  | connect v port =>
      obtain rfl : v = u := h
      exact obeys_editing_srvConnectBody fuel port
  | disconnect v =>
      obtain rfl : v = u := h
      rw [Req.body, finished, obeys_bind]
      exact obeys_editing_srvDisconnectBody.mono fun _ _ _ => trivial
  | send s v c =>
      obtain rfl : v = u := h
      rw [Req.body, finished, obeys_bind]
      exact (obeys_editing_srvSendBody s c).mono fun _ _ _ => trivial

end Discipline
