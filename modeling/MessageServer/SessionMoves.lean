/-
# A `CONNECT`, step by step

A thread reads the record, looks at the status and rewrites the record in separate steps.

* `Session`, `session`: where a thread is, as a discipline;
* `obeys_session`: a thread that handles `CONNECT` keeps to it;
* `SessionMove`: what one step does to the record, and what it shows.
-/
import MessageServer.SharedRecord
import MessageServer.Served

/-! ## The phases of a `CONNECT` -/

/-- Where a thread is: before its first `READ`; behind one that found a user who is not
connected, perhaps with the peer's address; behind the `MODIFY` that makes the user
connected; refused; answered with success; behind a message that did not get through. -/
inductive Session
  | start
  | looked (e : Entry) (peer : Option UInt32)
  | wrote (e : Entry)
  | refused
  | won (e : Entry)
  | lost

/-- The entry that the thread has written. -/
def Session.entry : Session → Option Entry
  | .wrote e => some e
  | .won e => some e
  | _ => none

/-- The steps of a drain that neither rewrite the record nor reply. -/
def Bystands : SrvOp → Prop
  | .uninit => True
  | .db (.ioOpUsrEnt _ .read) => True
  | .db (.ioOpUsrEnt _ .delete) => True
  | .db (.getPendMsg _) => True
  | .socket => True
  | .connect _ _ => True
  | .write .listener _ => True
  | .close _ => True
  | _ => False

/-- The discipline of `CONNECT u port`. -/
def session (u port : Bytes) : Discipline srvE Session where
  allowed
    | .start, o => o = .uninit ∨ ∃ j, o = .db (.ioOpUsrEnt ⟨u, .user j⟩ .read)
    | .looked e peer, o =>
        o = .getpeername ∨ (∃ code, code ≠ srvSuccess ∧ o = .write .client [code]) ∨
        ∃ ip p, peer = some ip ∧ strToNum port .int = .ok p ∧
          o = .db (.ioOpUsrEnt (e.mapUser fun ud => ud.connected ip p) .modify)
    | .wrote _, o => o = .write .client [srvSuccess]
    | .refused, o => (∃ code, code ≠ srvSuccess ∧ o = .write .client [code]) ∨
        Bystands o ∨ ∃ n, o = .note n
    | .won _, o => Bystands o ∨ ∃ n, o = .note n
    | .lost, _ => True
  possible _ _ _ := True
  next
    | .start, .db (.ioOpUsrEnt _ .read), x =>
        if 0 ≤ x.1 ∧ x.2.user.status ≠ statusCn then .looked x.2 none else .refused
    | .looked e _, .getpeername, peer => .looked e peer
    | .looked _ _, .db (.ioOpUsrEnt e .modify), x => if 0 ≤ x.1 then .wrote e else .refused
    | .looked _ _, .write .client _, _ => .refused
    | .wrote e, .write .client _, _ => .won e
    | .refused, .note (.cltSendMessage _ _ result), _ => if result = 0 then .refused else .lost
    | .won e, .note (.cltSendMessage _ _ result), _ => if result = 0 then .won e else .lost
    | ph, _, _ => ph

/-- The thread has been answered for good. -/
def Session.Settled (ph : Session) : Prop := ph = .refused ∨ ∃ e, ph = .won e

/-! ## `CONNECT` obeys its discipline -/

section Discipline

variable {u port : Bytes} {ph : Session}

/-- After a message that did not get through, anything goes. -/
theorem obeys_lost {α : Type} (p : Srv α) : p.Obeys (session u port) (fun _ _ => True) .lost := by
  induction p with
  | ret a => trivial
  | call o k ih => exact ⟨trivial, fun x _ => ih x⟩

/-- What bystanders do is allowed when the request is settled. -/
theorem Session.Settled.allows (hph : ph.Settled) {o : SrvOp}
    (ho : Bystands o ∨ ∃ n, o = .note n) :
    (session u port).allowed ph o := by
  rcases hph with rfl | ⟨e, rfl⟩
  · exact Or.inr ho
  · exact ho

/-- What bystanders do leaves a settled request so. -/
theorem Session.Settled.stays (hph : ph.Settled) : (session u port).Stays Bystands ph := by
  refine fun o ho => ⟨hph.allows (Or.inl ho), fun x => ?_⟩
  rcases hph with rfl | ⟨e, rfl⟩
  · cases o with
    | note n => exact ho.elim
    | _ => rfl
  · cases o with
    | note n => exact ho.elim
    | _ => rfl

/-- What is said to a listening thread bystands. -/
theorem OnSock.bystands (o : SrvOp) (h : OnSock .listener o) : Bystands o := by
  cases o with
  | write sock bytes =>
      obtain rfl : sock = .listener := h
      trivial
  | close sock => trivial
  | _ => exact h.elim

/-! ### The drain settles nothing -/

/-- A message that gets through leaves the thread where it is. -/
theorem obeys_session_cltSendMessage (request : CltRequest) (e : Entry) (hph : ph.Settled) :
    (cltSendMessage request e).Obeys (session u port)
      (fun ph' r => (r.1 = 0 ∧ ph' = ph) ∨ (r.1 ≠ 0 ∧ ph' = .lost)) ph := by
  rw [cltSendMessage, obeys_bind]
  refine obeys_of_performs hph.stays (performs_auxConnect trivial trivial fun _ _ => trivial)
    fun r => ?_
  rw [obeys_bind]
  refine obeys_of_performs hph.stays ((onSock_ifConnected (onSock_cltSendMessageStrings _)).mono
    OnSock.bystands)
    fun result => ?_
  refine obeys_perform_bind.mpr ⟨hph.allows (Or.inr ⟨_, rfl⟩), fun x _ => ?_⟩
  have hnext : (session u port).next ph (.note (.cltSendMessage r.2 request.message result)) x =
      if result = 0 then ph else .lost := by
    rcases hph with rfl | ⟨e, rfl⟩
    · rfl
    · rfl
  rw [hnext]
  split
  · rename_i hzero
    exact Or.inl ⟨hzero, rfl⟩
  · rename_i hfailed
    exact Or.inr ⟨hfailed, rfl⟩

/-- An acknowledgement leaves the thread where it is. -/
theorem obeys_session_cltSendMessAck (request : CltRequest) (e : Entry) (hph : ph.Settled)
    {Q : Session → ℤ × Entry → Prop} (hQ : ∀ r, Q ph r) :
    (cltSendMessAck request e).Obeys (session u port) Q ph := by
  rw [cltSendMessAck, obeys_bind]
  refine obeys_of_performs hph.stays (performs_auxConnect trivial trivial fun _ _ => trivial)
    fun r => ?_
  rw [obeys_bind]
  refine obeys_of_performs hph.stays ((onSock_ifConnected (onSock_cltSendMessAckStrings _)).mono
    OnSock.bystands)
    fun result => ?_
  refine obeys_perform_bind.mpr ⟨hph.allows (Or.inr ⟨_, rfl⟩), fun x _ => ?_⟩
  have hnext : (session u port).next ph (.note (.cltSendMessAck r.2 request.message.id result)) x =
      ph := by
    rcases hph with rfl | ⟨e, rfl⟩
    · rfl
    · rfl
  rw [hnext]
  exact hQ _

/-- The drain, by induction on its rounds. -/
theorem obeys_session_drainLoop (fuel : ℕ) (pendMsgEntry recipientEntry senderEntry : Entry)
    (hph : ph.Settled) : (drainLoop fuel pendMsgEntry recipientEntry senderEntry).Obeys
      (session u port) (fun _ _ => True) ph := by
  induction fuel generalizing pendMsgEntry recipientEntry senderEntry with
  | zero => trivial
  | succ fuel ih =>
      rw [drainLoop]
      refine hph.stays.bind (o := .db (.getPendMsg pendMsgEntry)) trivial fun g _ => ?_
      split
      · rw [obeys_bind]
        refine (obeys_session_cltSendMessage _ _ hph).mono ?_
        rintro ph' r (⟨hzero, rfl⟩ | ⟨hfailed, rfl⟩)
        · rw [if_pos hzero]
          refine hph.stays.bind (o := .db (.ioOpUsrEnt g.2 .delete)) trivial fun _ _ => ?_
          rw [obeys_bind]
          exact obeys_session_cltSendMessAck _ _ hph fun a => ih _ _ _
        · exact obeys_lost _
      · trivial

/-- The drain settles nothing. -/
theorem obeys_session_auxConnectSendPendMsgs (fuel : ℕ) (e : Entry) (hph : ph.Settled) :
    (auxConnectSendPendMsgs fuel e).Obeys (session u port) (fun _ _ => True) ph := by
  rw [auxConnectSendPendMsgs]
  refine hph.stays.bind (o := .uninit) trivial fun junk _ => ?_
  refine hph.stays.bind (o := .db (.ioOpUsrEnt ⟨e.username, .user junk.user⟩ .read))
    trivial fun r _ => ?_
  split
  · trivial
  · exact obeys_session_drainLoop _ _ _ _ hph

/-- How the part that decides the reply ends. -/
def Decided (ph : Session) (code : UInt8) : Prop :=
  (∃ e, ph = .wrote e ∧ code = srvSuccess) ∨
    ((ph = .refused ∨ ∃ e peer, ph = .looked e peer) ∧ code ≠ srvSuccess)

/-! ### The reply -/

/-- The reply of `CONNECT` decides the request. -/
theorem obeys_session_srvConnectReply (byte : UInt8) (x : ℤ × Entry) :
    (srvConnectReply port byte x.1 x.2).Obeys (session u port) Decided
      (if 0 ≤ x.1 ∧ x.2.user.status ≠ statusCn then .looked x.2 none else .refused) := by
  by_cases hfree : 0 ≤ x.1 ∧ x.2.user.status ≠ statusCn
  · rw [if_pos hfree]
    have hlooked : ∀ peer code, code ≠ srvSuccess → Decided (.looked x.2 peer) code :=
      fun peer code hcode => Or.inr ⟨Or.inr ⟨_, _, rfl⟩, hcode⟩
    have hex : x.1 ≠ dbmsErrNotExists := by
      intro heq
      rw [heq] at hfree
      exact absurd hfree.1 (by decide)
    unfold srvConnectReply
    rw [if_neg hex, if_neg (not_lt.mpr hfree.1), if_neg hfree.2]
    refine obeys_perform_bind.mpr ⟨Or.inl rfl, fun (peer : Option UInt32) _ => ?_⟩
    show Prog.Obeys _ _ _ (Session.looked x.2 peer)
    cases hport : strToNum port .int with
    | error err =>
        have hcode : (if peer.isNone = true then srvErrCnAny else
            if (Except.error err : Except _ ℤ).toOption.isNone = true
              then srvErrCnAny else byte) =
              srvErrCnAny := by
          cases peer <;> rfl
        rw [if_neg (by rw [hcode]; simp), hcode]
        exact hlooked peer _ (by decide)
    | ok p =>
        cases peer with
        | none =>
            rw [if_neg (by simp)]
            exact hlooked none srvErrCnAny (by decide)
        | some ip =>
            simp only [Option.isNone_some, Except.toOption, Bool.false_eq_true, if_false]
            split
            · refine obeys_perform_bind.mpr ⟨Or.inr (Or.inr ⟨ip, p, rfl, hport, rfl⟩),
                fun (y : ℤ × Entry) _ => ?_⟩
              show Decided (if 0 ≤ y.1 then _ else _) _
              by_cases hy : 0 ≤ y.1
              · have hex' : y.1 ≠ dbmsErrNotExists := by
                  intro heq
                  rw [heq] at hy
                  exact absurd hy (by decide)
                rw [if_pos hy, if_neg hex', if_neg (not_lt.mpr hy)]
                exact Or.inl ⟨_, rfl, rfl⟩
              · rw [if_neg hy, if_pos (not_le.mp hy)]
                refine Or.inr ⟨Or.inl rfl, ?_⟩
                split <;> decide
            · rename_i hbyte
              rw [not_not.mp hbyte]
              exact hlooked _ _ (by decide)
  · rw [if_neg hfree]
    have hrefused : ∀ code, code ≠ srvSuccess → Decided .refused code :=
      fun code hcode => Or.inr ⟨Or.inl rfl, hcode⟩
    unfold srvConnectReply
    split
    · exact hrefused _ (by decide)
    split
    · exact hrefused _ (by decide)
    rename_i hpos
    split
    · exact hrefused _ (by decide)
    · rename_i hstatus
      exact absurd ⟨not_lt.mp hpos, hstatus⟩ hfree

/-- The reply settles the thread. -/
theorem obeys_session_reply {code : UInt8} (h : Decided ph code) :
    (sendServerReply code).Obeys (session u port) (fun ph' _ => ph'.Settled) ph := by
  rw [sendServerReply]
  have hclose : ∀ ph' : Session, ph'.Settled → ∀ ok : Bool,
      (if ok = true then return 0 else close .client >>=
        fun _ => (return genErrAny : Srv ℤ)).Obeys
        (session u port) (fun ph' _ => ph'.Settled) ph' := by
    intro ph' hph' ok
    cases ok with
    | true => exact hph'
    | false => exact hph'.stays.bind (o := .close .client) trivial fun _ _ => hph'
  rcases h with ⟨e, rfl, rfl⟩ | ⟨rfl | ⟨e, peer, rfl⟩, hcode⟩
  · exact obeys_perform_bind.mpr ⟨rfl, fun ok _ => hclose _ (Or.inr ⟨e, rfl⟩) ok⟩
  · exact obeys_perform_bind.mpr ⟨Or.inl ⟨code, hcode, rfl⟩,
      fun ok _ => hclose _ (Or.inl rfl) ok⟩
  · exact obeys_perform_bind.mpr ⟨Or.inr (Or.inl ⟨code, hcode, rfl⟩),
      fun ok _ => hclose _ (Or.inl rfl) ok⟩

/-- **A thread that handles `CONNECT` obeys the discipline.** -/
theorem obeys_session (fuel : ℕ) (u port : Bytes) :
    (srvConnectBody fuel u port).Obeys (session u port) (fun _ _ => True) .start := by
  rw [srvConnectBody]
  refine obeys_perform_bind.mpr ⟨Or.inl rfl, fun junk _ => ?_⟩
  refine obeys_perform_bind.mpr ⟨Or.inr ⟨junk.user, rfl⟩, fun x _ => ?_⟩
  rw [obeys_bind]
  refine (obeys_session_srvConnectReply junk.byte x).mono fun ph code hdecided => ?_
  rw [obeys_bind]
  refine (obeys_session_reply hdecided).mono fun ph' _ hsettled => ?_
  rw [obeys_bind]
  exact (obeys_session_auxConnectSendPendMsgs fuel _ hsettled).mono fun _ _ _ => trivial

end Discipline

/-! ## What one step does -/

/-- What a thread in phase `ph` can do with one step to the record. -/
inductive SessionMove (u port : Bytes) (r r' : Option Entry) (ph : Session) :
    (o : SrvOp) → o.Ans → Session → Prop
  | pass {o : SrvOp} {x : o.Ans} {ph' : Session} (hr : r' = r) (hentry : ph'.entry = ph.entry)
      (hlost : ph' ≠ .lost) (hlooked : ∀ e peer, ph' ≠ .looked e peer)
      (hwon : ∀ e, ph = .won e → ph' = .won e) (hreply : replyOf o = some srvSuccess →
          ∃ e, ph' = .won e) : SessionMove u port r r' ph o x ph'
  | look {j : Userdata} {x : ℤ × Entry} (hph : ph = .start) (hr : r' = r) (hread : r = some x.2)
      (hstatus : x.2.user.status ≠ statusCn) (huser : ∃ v ud, x.2 = ⟨v, .user ud⟩) :
      SessionMove u port r r' ph (.db (.ioOpUsrEnt ⟨u, .user j⟩ .read)) x (.looked x.2 none)
  | ask {e : Entry} {peer : Option UInt32} (x : Option UInt32) (hph : ph = .looked e peer)
      (hr : r' = r) :
      SessionMove u port r r' ph .getpeername x (.looked e x)
  | write {e : Entry} {ip : UInt32} {p : ℤ} {x : ℤ × Entry} (hph : ph = .looked e (some ip))
      (hport : strToNum port .int = .ok p)
      (hr : r' = some (e.mapUser fun ud => ud.connected ip p)) (hx : 0 ≤ x.1) :
      SessionMove u port r r' ph
      (.db (.ioOpUsrEnt (e.mapUser fun ud => ud.connected ip p) .modify)) x
        (.wrote (e.mapUser fun ud => ud.connected ip p))
  | fail {e e' : Entry} {peer : Option UInt32} {x : ℤ × Entry} (hph : ph = .looked e peer)
      (hx : x.1 < 0) :
      SessionMove u port r r' ph (.db (.ioOpUsrEnt e' .modify)) x .refused
  | lose {e : Entry} {m : Message} {result : ℤ} {x : Unit} (hresult : result ≠ 0) :
      SessionMove u port r r' ph (.note (.cltSendMessage e m result)) x .lost

section Steps

variable {C : Confinement} {u port : Bytes} {r r' : Option Entry} {ph : Session}

/-- A step of a drain. -/
theorem sessionMove_settled (hph : ph.Settled) {o : SrvOp} {x : o.Ans}
    (ho : Bystands o ∨ ∃ n, o = .note n)
    (hstep : RecordStep C r o x r') :
    SessionMove u port r r' ph o x ((session u port).next ph o x) := by
  have hpass : ∀ {o : SrvOp} {x : o.Ans}, r' = r → replyOf o ≠ some srvSuccess →
      SessionMove u port r r' ph o x ph := by
    intro o x hr hreply
    refine SessionMove.pass hr rfl ?_ ?_ (fun _ h => h) fun h => absurd h hreply
    · rcases hph with rfl | ⟨e, rfl⟩ <;> simp
    · rcases hph with rfl | ⟨e, rfl⟩ <;> simp
  rcases ho with ho | ⟨n, rfl⟩
  · rw [(hph.stays _ ho).2]
    cases o with
    | db call =>
        cases call with
        | ioOpUsrEnt e mode =>
            cases mode with
            | read => exact hpass hstep.1 (by simp [replyOf])
            | delete => exact hpass hstep (by simp [replyOf])
            | _ => exact ho.elim
        | getPendMsg e => exact hpass hstep (by simp [replyOf])
        | _ => exact ho.elim
    | write sock bytes =>
        cases sock with
        | client => exact ho.elim
        | listener => exact hpass hstep (by simp [replyOf])
    | _ => exact hpass hstep (by simp [replyOf])
  · cases n with
    | cltSendMessage e m result =>
        have hnext : (session u port).next ph (.note (.cltSendMessage e m result)) x =
            if result = 0 then ph else .lost := by
          rcases hph with rfl | ⟨e', rfl⟩ <;> rfl
        rw [hnext]
        split
        · exact hpass hstep (by simp [replyOf])
        · rename_i hresult
          exact SessionMove.lose hresult
    | cltSendMessAck e id result =>
        have hnext : (session u port).next ph (.note (.cltSendMessAck e id result)) x = ph := by
          rcases hph with rfl | ⟨e', rfl⟩ <;> rfl
        rw [hnext]
        exact hpass hstep (by simp [replyOf])

/-- A reply of failure. -/
theorem sessionMove_refuse {code : UInt8} (hcode : code ≠ srvSuccess) (hr : r' = r)
    (hentry : ph.entry = none)
    (x : Bool) : SessionMove u port r r' ph (.write .client [code]) x .refused := by
  refine SessionMove.pass hr (by rw [hentry]; rfl) (by simp) (by simp) ?_ ?_
  · rintro e rfl
    exact absurd hentry (by simp [Session.entry])
  · intro h
    exact absurd (Option.some.inj h) hcode

/-- **What one step of a thread does.** -/
theorem sessionMove (hu : C.Same u) (hlost : ph ≠ .lost) {o : SrvOp} {x : o.Ans}
    (hallowed : (session u port).allowed ph o) (hstep : RecordStep C r o x r') :
    SessionMove u port r r' ph o x ((session u port).next ph o x) := by
  cases ph with
  | start =>
      rcases hallowed with rfl | ⟨j, rfl⟩
      · show SessionMove u port r r' .start _ x .start
        exact SessionMove.pass hstep rfl (by simp) (by simp) (by simp) (by simp [replyOf])
      obtain ⟨hr, hread⟩ := hstep
      show SessionMove u port r r' .start _ _ (if 0 ≤ x.1 ∧ x.2.user.status ≠ statusCn
        then _ else _)
      split
      · rename_i hfree
        rcases hread u j rfl hu with ⟨-, hread, v, ud, huser, -⟩ | ⟨hneg, -⟩
        · exact SessionMove.look rfl hr hread hfree.2 ⟨v, ud, huser⟩
        · exact absurd hfree.1 (not_le.mpr hneg)
      · exact SessionMove.pass hr rfl (by simp) (by simp) (by simp) (by simp [replyOf])
  | looked e peer =>
      rcases hallowed with rfl | ⟨code, hcode, rfl⟩ | ⟨ip, p, rfl, hport, rfl⟩
      · exact SessionMove.ask x rfl hstep
      · exact sessionMove_refuse hcode hstep rfl x
      show SessionMove u port r r' (.looked e (some ip)) _ _ (if 0 ≤ x.1 then _ else _)
      split
      · rename_i hpos
        rcases hstep with ⟨-, hr⟩ | ⟨hneg, -⟩
        · exact SessionMove.write rfl hport hr hpos
        · exact absurd hpos (not_le.mpr hneg)
      · rename_i hneg
        exact SessionMove.fail rfl (not_le.mp hneg)
  | wrote e =>
      obtain rfl : o = .write .client [srvSuccess] := hallowed
      show SessionMove u port r r' (.wrote e) _ x (.won e)
      exact SessionMove.pass hstep rfl (by simp) (by simp) (by simp) fun _ => ⟨e, rfl⟩
  | refused =>
      rcases hallowed with ⟨code, hcode, rfl⟩ | ho
      · exact sessionMove_refuse hcode hstep rfl x
      · exact sessionMove_settled (Or.inl rfl) ho hstep
  | won e => exact sessionMove_settled (Or.inr ⟨e, rfl⟩) hallowed hstep
  | lost => exact absurd rfl hlost

end Steps
