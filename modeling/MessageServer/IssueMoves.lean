/-
# The id of a message, step by step

The id comes from a `READ`, an increment and a `MODIFY` of the recipient's record, and the
record is read and rewritten again when the message does not get through.

* `Issuing`, `issuing`: where a thread is, as a discipline;
* `obeys_issuing`: a thread that handles `SEND` keeps to it;
* `IssueMove`: what one step does to the record, and what it shows.
-/
import MessageServer.FirstAck

/-! ## The phases of a `SEND` -/

/-- Where a thread is: before it has read the record; behind the `READ`; behind the `MODIFY`
that gave the message its id, with what it has read of the record since; behind the reply;
refused. -/
inductive Issuing
  | starting
  | looked (e : Entry)
  | numbered (id : UInt32) (known : Option Entry)
  | closing (id : UInt32)
  | refused

namespace Issuing

/-- The id that the thread has taken. -/
def id? : Issuing → Option UInt32
  | .numbered id _ => some id
  | .closing id => some id
  | _ => none

/-- The record as the thread has read it, which it may rewrite. -/
def known : Issuing → Option Entry
  | .looked e => some e
  | .numbered _ known => known
  | _ => none

/-- Behind the lookup of a user. -/
def found (x : ℤ) : Issuing := if 0 < x then .starting else .refused

end Issuing

/-- Reading the record that the names of the class share. -/
def ReadsSame (C : Confinement) (o : SrvOp) : Prop :=
  ∃ v j, C.Same v ∧ o = .db (.ioOpUsrEnt ⟨v, .user j⟩ .read)

/-- The discipline of a `SEND` to a name of the class. -/
def issuing (C : Confinement) : Discipline srvE Issuing where
  allowed
    | .starting, o => o = .uninit ∨ (∃ v, o = .db (.userExists v)) ∨ ReadsSame C o
    | .looked e, o => o = .db (.ioOpUsrEnt e.next .modify)
    | .numbered _ known, o => Talks o ∨ ReadsSame C o ∨
        (∃ e, known = some e ∧ o = .db (.ioOpUsrEnt e.disconnected .modify)) ∨
          (∃ n, o = .note n) ∨
        (∃ e, o = .db (.ioOpUsrEnt e .create)) ∨ ∃ code, o = .write .client [code]
    | .closing id, o => Talks o ∨ ReadsUser o ∨ (∃ n, o = .note n) ∨
        o = .write .client (decimal id.toNat ++ [0])
    | .refused, o => Talks o ∨ (∃ v, o = .db (.userExists v)) ∨ ∃ code,
        o = .write .client [code]
  possible
    | _, .db (.ioOpUsrEnt e .read), x => ∀ v j, e = ⟨v, .user j⟩ → C.Same v →
        ∃ w ud, x.2 = ⟨w, .user ud⟩ ∧ C.Same w
    | _, _, _ => True
  next
    | .starting, .db (.userExists _), x => Issuing.found x
    | .starting, .db (.ioOpUsrEnt _ .read), x => if 0 ≤ x.1 then .looked x.2 else .refused
    | .looked e, .db (.ioOpUsrEnt _ .modify), x =>
        if 0 ≤ x.1 then .numbered e.next.user.lastMsgId none else .refused
    | .numbered id _, .db (.ioOpUsrEnt _ .read), x => .numbered id (some x.2)
    | .numbered id _, .db (.ioOpUsrEnt _ .modify), _ => .numbered id none
    | .numbered id _, .write .client _, _ => .closing id
    | ph, _, _ => ph

/-! ## `SEND` obeys its discipline -/

section Discipline

variable {C : Confinement} {ph : Issuing}

/-- The phases in which a thread may talk to a listener. -/
def Issuing.Talkative (ph : Issuing) : Prop := ph ≠ .starting ∧ ∀ e, ph ≠ .looked e

/-- A talkative phase stays as it is while the thread talks. -/
theorem Issuing.Talkative.talks (hph : ph.Talkative) : (issuing C).Stays Talks ph := by
  intro o ho
  constructor
  · cases ph with
    | starting => exact absurd rfl hph.1
    | looked e => exact absurd rfl (hph.2 e)
    | _ => exact Or.inl ho
  · intro x
    cases o with
    | db call => exact ho.elim
    | note n => exact ho.elim
    | write sock bytes =>
        cases sock with
        | client => exact ho.elim
        | listener => cases ph <;> rfl
    | _ => cases ph <;> rfl

theorem talkative_numbered (id : UInt32) (known : Option Entry) :
    (Issuing.numbered id known).Talkative :=
  ⟨by simp, by simp⟩

theorem talkative_closing (id : UInt32) : (Issuing.closing id).Talkative := ⟨by simp, by simp⟩

theorem talkative_refused : Issuing.refused.Talkative := ⟨by simp, by simp⟩

/-! ### The pieces of the request -/

/-- Sending the message to the recipient, whose record is read again. -/
theorem obeys_issuing_cltSendMessage (request : CltRequest) {v : Bytes} (hv : C.Same v)
    (ud : Userdata)
    (id : UInt32) (known : Option Entry) :
    (cltSendMessage request ⟨v, .user ud⟩).Obeys (issuing C)
      (fun ph r => ph = .numbered id (some r.2)) (.numbered id known) := by
  have htalk : ∀ r : ℤ × Entry, (Issuing.numbered id (some r.2)).Talkative :=
    fun r => talkative_numbered id _
  rw [cltSendMessage, obeys_bind]
  refine obeys_reaching (Or.inr (Or.inl ⟨v, ud, hv, rfl⟩)) fun r _ =>
    ⟨(htalk r).talks, fun code => ?_⟩
  show Prog.Obeys _ _ _ (Issuing.numbered id (some r.2))
  rw [obeys_bind]
  refine obeys_of_performs (htalk r).talks
    ((onSock_ifConnected (onSock_cltSendMessageStrings _)).mono OnSock.talks) fun result => ?_
  exact obeys_perform_bind.mpr ⟨Or.inr (Or.inr (Or.inr (Or.inl ⟨_, rfl⟩))), fun _ _ => rfl⟩

/-- The second acknowledgement. -/
theorem obeys_issuing_cltSendMessAck (request : CltRequest) (u : Bytes) (ud : Userdata)
    (id : UInt32) :
    (cltSendMessAck request ⟨u, .user ud⟩).Obeys (issuing C) (fun ph _ => ph = .closing id)
      (.closing id) := by
  have htalk : (Issuing.closing id).Talkative := talkative_closing id
  rw [cltSendMessAck, obeys_bind]
  refine obeys_reaching (Or.inr (Or.inl ⟨u, ud, rfl⟩)) fun r _ =>
    ⟨htalk.talks, fun code => ?_⟩
  show Prog.Obeys _ _ _ (Issuing.closing id)
  rw [obeys_bind]
  refine obeys_of_performs htalk.talks
    ((onSock_ifConnected (onSock_cltSendMessAckStrings _)).mono OnSock.talks) fun result => ?_
  exact obeys_perform_bind.mpr ⟨Or.inr (Or.inr (Or.inl ⟨_, rfl⟩)), fun _ _ => rfl⟩

/-- How taking an id ends. -/
def TookId (C : Confinement) (ph : Issuing) (i : UInt8 × Entry) : Prop :=
  (i.1 ≠ srvSuccess ∧ ph = .refused) ∨
    (i.1 = srvSuccess ∧ ∃ w ud, i.2 = ⟨w, .user ud⟩ ∧ C.Same w ∧
      ph = .numbered ud.lastMsgId none)

/-- Taking an id. -/
theorem obeys_issuing_auxSendInit (sender : Bytes) {recipient : Bytes} (hr : C.Same recipient)
    (junk : Userdata) :
    (auxSendInit sender recipient ⟨[], .user junk⟩).Obeys (issuing C) (TookId C) .starting := by
  have hrefused : ∀ (code : UInt8) (e : Entry), code ≠ srvSuccess →
      TookId C .refused (code, e) :=
    fun code e h => Or.inl ⟨h, rfl⟩
  rw [auxSendInit]
  refine obeys_perform_bind.mpr ⟨Or.inr (Or.inl ⟨_, rfl⟩), fun (a : ℤ) _ => ?_⟩
  show Prog.Obeys _ _ _ (Issuing.found a)
  -- behind both lookups the thread goes on if both users are there
  have hlook : ∀ b : ℤ,
      (if a = 0 ∨ b = 0 then return (srvErrSendUsrNotExists, ⟨[], .user junk⟩)
      else if a < 0 ∨ b < 0 then return (srvErrSendAny, ⟨[], .user junk⟩)
      else callIoOpUsrEnt ⟨recipient, .user junk⟩ .read >>= fun r =>
        if r.1 < 0 then return (srvErrSendAny, r.2)
        else callIoOpUsrEnt (r.2.mapUser fun u => { u with lastMsgId := nextMsgId u.lastMsgId })
          .modify >>=
          fun w => (return (if w.1 < 0 then srvErrSendAny else srvSuccess,
            r.2.mapUser fun u => { u with lastMsgId := nextMsgId u.lastMsgId }) :
              Srv (UInt8 × Entry))).Obeys
        (issuing C) (TookId C) (if (0 : ℤ) < a ∧ (0 : ℤ) < b then .starting
          else .refused) := by
    intro b
    by_cases hboth : 0 < a ∧ 0 < b
    · rw [if_pos hboth, if_neg (by omega), if_neg (by omega)]
      refine obeys_perform_bind.mpr ⟨Or.inr (Or.inr ⟨_, _, hr, rfl⟩),
        fun (r : ℤ × Entry) hposs => ?_⟩
      obtain ⟨w, ud, hread, hw⟩ := hposs _ _ rfl hr
      show Prog.Obeys _ _ _ (if 0 ≤ r.1 then Issuing.looked r.2 else .refused)
      by_cases hneg : r.1 < 0
      · rw [if_neg (not_le.mpr hneg), if_pos hneg]
        exact hrefused srvErrSendAny _ (by decide)
      · rw [if_pos (not_lt.mp hneg), if_neg hneg]
        refine obeys_perform_bind.mpr ⟨rfl, fun (m : ℤ × Entry) _ => ?_⟩
        show TookId C (if 0 ≤ m.1 then Issuing.numbered r.2.next.user.lastMsgId none
          else .refused) _
        by_cases hfail : m.1 < 0
        · rw [if_neg (not_le.mpr hfail), if_pos hfail]
          exact hrefused srvErrSendAny _ (by decide)
        · rw [if_pos (not_lt.mp hfail), if_neg hfail, hread]
          exact Or.inr ⟨rfl, w, _, rfl, hw, rfl⟩
    · rw [if_neg hboth]
      by_cases hnone : a = 0 ∨ b = 0
      · rw [if_pos hnone]
        exact hrefused srvErrSendUsrNotExists _ (by decide)
      · rw [if_neg hnone, if_pos (by omega)]
        exact hrefused srvErrSendAny _ (by decide)
  by_cases ha : 0 < a
  · rw [Issuing.found, if_pos ha]
    refine obeys_perform_bind.mpr ⟨Or.inr (Or.inl ⟨_, rfl⟩), fun (b : ℤ) _ => ?_⟩
    show Prog.Obeys _ _ _ (Issuing.found b)
    have hb := hlook b
    rw [if_congr (and_iff_right ha) rfl rfl] at hb
    exact hb
  · rw [Issuing.found, if_neg ha]
    refine obeys_perform_bind.mpr ⟨Or.inr (Or.inl ⟨_, rfl⟩), fun (b : ℤ) _ => ?_⟩
    have hphase : (if 0 < a ∧ 0 < b then Issuing.starting else .refused) = .refused :=
      if_neg fun hboth => ha hboth.1
    have hb := hlook b
    rw [hphase] at hb
    exact hb

/-- Passing the message on. -/
theorem obeys_issuing_auxSendMsgPass (sender recipient content : Bytes) (code : UInt8) {w : Bytes}
    (hw : C.Same w) (ud : Userdata) :
    (auxSendMsgPass sender recipient content code ⟨w, .user ud⟩).Obeys (issuing C)
      (fun ph p => (∃ known, ph = .numbered ud.lastMsgId known) ∧
        p.2.2 = ⟨recipient, .msg ⟨sender, ud.lastMsgId, content⟩⟩)
          (.numbered ud.lastMsgId none) := by
  by_cases hcn : ud.status = statusCn
  · rw [auxSendMsgPass_connected hcn, obeys_bind]
    refine (obeys_issuing_cltSendMessage _ hw ud ud.lastMsgId none).mono ?_
    rintro ph r rfl
    split
    · exact ⟨⟨_, rfl⟩, rfl⟩
    · refine obeys_perform_bind.mpr ⟨Or.inr (Or.inr (Or.inl ⟨r.2, rfl, rfl⟩)),
        fun _ _ => ?_⟩
      exact ⟨⟨none, rfl⟩, rfl⟩
  · rw [auxSendMsgPass_other hcn]
    exact ⟨⟨none, rfl⟩, rfl⟩

/-! ### The whole request -/

/-- The end. -/
theorem obeys_issuing_srvSendFinish (sender : Bytes) (code : UInt8) (recipientEntry : Entry)
    {msgEntry : Entry} {id : UInt32} (hid : msgEntry.msg.id = id) (known : Option Entry) :
    (srvSendFinish sender code recipientEntry msgEntry).Obeys (issuing C)
      (fun ph _ => ph = .closing id)
      (.numbered id known) := by
  have hend : (if recipientEntry.user.status = statusCn then
      uninit >>= fun junk =>
        cltSendMessAck ⟨opSendMessAck, ⟨[], recipientEntry.user.lastMsgId, []⟩⟩
        ⟨sender, .user junk.user⟩ >>= fun _ => return ()
      else (return () : Srv Unit)).Obeys (issuing C) (fun ph _ => ph = .closing id)
        (.closing id) := by
    split
    · refine (talkative_closing id).talks.bind (o := .uninit) trivial fun junk _ => ?_
      rw [obeys_bind]
      exact (obeys_issuing_cltSendMessAck _ sender junk.user id).mono fun _ _ hph => hph
    · rfl
  rw [srvSendFinish, hid, auxSendFirstAck, obeys_bind, obeys_bind, sendServerReply]
  refine obeys_perform_bind.mpr
    ⟨Or.inr (Or.inr (Or.inr (Or.inr (Or.inr ⟨code, rfl⟩)))), fun (ok : Bool) _ => ?_⟩
  show Prog.Obeys _ _ _ (Issuing.closing id)
  cases ok with
  | false =>
      refine (talkative_closing id).talks.bind (o := .close .client) trivial fun _ _ => ?_
      exact hend
  | true =>
      refine obeys_ret.mpr ?_
      rw [if_neg (show ¬ (0 : ℤ) < 0 by decide)]
      by_cases hsuccess : code = srvSuccess
      · rw [if_pos hsuccess, obeys_bind, sendString]
        refine obeys_perform_bind.mpr ⟨Or.inr (Or.inr (Or.inr rfl)), fun (sent : Bool) _ => ?_⟩
        show Prog.Obeys _ _ _ (Issuing.closing id)
        cases sent with
        | true => exact hend
        | false =>
            refine (talkative_closing id).talks.bind (o := .close .client) trivial fun _ _ => ?_
            exact hend
      · rw [if_neg hsuccess]
        exact hend

/-- **A thread that handles `SEND` obeys the discipline**, and has taken an id at its end unless it
was refused. -/
theorem obeys_issuing (sender : Bytes) {recipient : Bytes} (hr : C.Same recipient)
    (content : Bytes) :
    (srvSendBody sender recipient content).Obeys (issuing C)
      (fun ph _ => ph = .refused ∨ ∃ id, ph = .closing id) .starting := by
  rw [srvSendBody]
  refine obeys_perform_bind.mpr ⟨Or.inl rfl, fun (junk : Junk) _ => ?_⟩
  show Prog.Obeys _ _ _ Issuing.starting
  rw [obeys_bind]
  refine (obeys_issuing_auxSendInit sender hr junk.user).mono ?_
  rintro ph i (⟨hcode, rfl⟩ | ⟨hcode, w, ud, hentry, hw, rfl⟩)
  · rw [if_pos hcode, obeys_bind, sendServerReply]
    refine obeys_perform_bind.mpr ⟨Or.inr (Or.inr ⟨i.1, rfl⟩), fun (ok : Bool) _ => ?_⟩
    show Prog.Obeys _ _ _ Issuing.refused
    cases ok with
    | true => exact Or.inl rfl
    | false =>
        exact talkative_refused.talks.bind (o := .close .client) trivial fun _ _ => Or.inl rfl
  · rw [if_neg (not_not.mpr hcode), obeys_bind, hentry]
    refine (obeys_issuing_auxSendMsgPass sender recipient content i.1 hw ud).mono ?_
    rintro ph p ⟨⟨known, rfl⟩, hmsg⟩
    have hid : p.2.2.msg.id = ud.lastMsgId := by rw [hmsg]; rfl
    split
    · refine obeys_perform_bind.mpr ⟨Or.inr (Or.inr (Or.inr (Or.inr (Or.inl ⟨_, rfl⟩)))),
        fun _ _ => ?_⟩
      exact (obeys_issuing_srvSendFinish sender _ _ hid known).mono fun _ _ hph =>
        Or.inr ⟨_, hph⟩
    · exact (obeys_issuing_srvSendFinish sender _ _ hid known).mono fun _ _ hph =>
        Or.inr ⟨_, hph⟩

end Discipline

/-! ## What one step does -/

/-- The user was found. -/
def wasFound (x : ℤ) : Bool := decide (0 < x)

/-- A lookup that finds its user, a library call that succeeds, or a step that is neither. -/
def succeeded : srvE.Event → Bool
  | ⟨.db (.userExists _), x⟩ => wasFound x
  | ⟨.db (.ioOpUsrEnt _ _), x⟩ => decide (0 ≤ x.1)
  | _ => true

/-- What a thread in phase `ph` can do with one step to the record. -/
inductive IssueMove (r r' : Option Entry) (ph : Issuing) : srvE.Event → Issuing → Prop
  | pass {ev : srvE.Event} {ph' : Issuing} (hr : r' = r)
      (hact : recordAct ev ≠ some (.write true))
      (hid : ph'.id? = ph.id?) (hrefused : ph' ≠ .refused)
      (hknown : ∀ e, ph'.known = some e → r = some e ∨
          (recordAct ev = none ∧ ph.known = some e))
      (hclosing : ∀ id, ph = .closing id → ph' = .closing id)
      (htold : ∀ id : UInt32, ev = toldEvent (decimal id.toNat ++ [0]) → ph' = .closing id) :
      IssueMove r r' ph ev ph'
  | issue {e : Entry} {x : ℤ × Entry} (hph : ph = .looked e) (hr : r' = some e.next)
      (hx : 0 ≤ x.1) :
      IssueMove r r' ph ⟨.db (.ioOpUsrEnt e.next .modify), x⟩
      (.numbered e.next.user.lastMsgId none)
  | mark {id : UInt32} {e : Entry} {x : ℤ × Entry} (hph : ph = .numbered id (some e))
      (hr : r' = some e.disconnected) (hx : 0 ≤ x.1) :
      IssueMove r r' ph ⟨.db (.ioOpUsrEnt e.disconnected .modify), x⟩ (.numbered id none)

/-- A user who was found lets the request go on. -/
theorem found_eq {x : ℤ} (h : wasFound x = true) : Issuing.found x = .starting :=
  if_pos (of_decide_eq_true h)

/-! ### The kinds of moves -/

section Moves

variable {C : Confinement} {r r' : Option Entry} {ph : Issuing}

/-- Talking to a listener. -/
theorem issueMove_talks (hph : ph.Talkative) (hrefused : ph ≠ .refused) {o : SrvOp} {x : o.Ans}
    (ho : Talks o) (hstep : RecordStep C r o x r') :
    IssueMove r r' ph ⟨o, x⟩ ((issuing C).next ph o x) := by
  rw [(hph.talks _ ho).2]
  have hpass : ∀ {o : SrvOp} {x : o.Ans}, r' = r → recordAct ⟨o, x⟩ = none →
      (∀ bytes, (⟨o, x⟩ : srvE.Event) ≠ toldEvent bytes) →
        IssueMove r r' ph ⟨o, x⟩ ph := by
    intro o x hr hact htold
    apply IssueMove.pass hr
    · rw [hact]
      exact nofun
    · rfl
    · exact hrefused
    · exact fun e he => Or.inr ⟨hact, he⟩
    · exact fun _ h => h
    · exact fun id h => absurd h (htold _)
  cases o with
  | db call => exact ho.elim
  | note n => exact ho.elim
  | write sock bytes =>
      cases sock with
      | client => exact ho.elim
      | listener => exact hpass hstep rfl nofun
  | recv buf => exact ho.elim
  | getpeername => exact ho.elim
  | _ => exact hpass hstep rfl nofun

/-- A reply code is no id. -/
theorem reply_ne_told {code : UInt8} {ok : Bool} (id : UInt32) :
    (⟨.write .client [code], ok⟩ : srvE.Event) ≠ toldEvent (decimal id.toNat ++ [0]) := by
  intro h
  have hop := congrArg Sigma.fst h
  obtain ⟨-, hbytes⟩ := SrvOp.write.inj hop
  have hlen := congrArg List.length hbytes
  rw [List.length_append, List.length_singleton, List.length_singleton] at hlen
  exact decimal_ne_nil id.toNat (List.length_eq_zero_iff.mp (by omega))

/-- Reading the record. -/
theorem RecordStep.read_same {v : Bytes} {j : Userdata} {x : ℤ × Entry} (hv : C.Same v)
    (hx : 0 ≤ x.1)
    (hstep : RecordStep C r (.db (.ioOpUsrEnt ⟨v, .user j⟩ .read)) x r') :
    r' = r ∧ r = some x.2 := by
  obtain ⟨hr, hread⟩ := hstep
  rcases hread v j rfl hv with ⟨-, hsome, -⟩ | ⟨hneg, -⟩
  · exact ⟨hr, hsome⟩
  · omega

/-- Rewriting the record. -/
theorem RecordStep.modify_some {e : Entry} {x : ℤ × Entry} (hx : 0 ≤ x.1)
    (hstep : RecordStep C r (.db (.ioOpUsrEnt e .modify)) x r') : r' = some e := by
  rcases hstep with ⟨-, hr⟩ | ⟨hneg, -⟩
  · exact hr
  · omega

/-- A record is read as one. -/
theorem possible_issuing {o : SrvOp} {x : o.Ans} (hstep : RecordStep C r o x r') :
    (issuing C).possible ph o x := by
  cases o with
  | db call =>
      cases call with
      | ioOpUsrEnt e mode =>
          cases mode with
          | read =>
              intro v j he hv
              rcases hstep.2 v j he hv with ⟨-, -, w, ud, hx, hw, -⟩ | ⟨-, hx⟩
              · exact ⟨w, ud, hx, hw⟩
              · exact ⟨v, j, hx.trans he, hv⟩
          | _ => trivial
      | _ => trivial
  | _ => trivial

/-- **What one step of a thread does**, when it succeeds. -/
theorem issueMove (hrefused : ph ≠ .refused) {o : SrvOp} {x : o.Ans}
    (hallowed : (issuing C).allowed ph o)
    (hsucc : succeeded ⟨o, x⟩ = true) (hstep : RecordStep C r o x r') :
    IssueMove r r' ph ⟨o, x⟩ ((issuing C).next ph o x) := by
  cases ph with
  | starting =>
      rcases hallowed with rfl | ⟨v, rfl⟩ | ⟨v, j, hv, rfl⟩
      · exact IssueMove.pass hstep nofun rfl hrefused nofun nofun nofun
      · have hfound : Issuing.found x = .starting := found_eq hsucc
        show IssueMove r r' _ _ (Issuing.found x)
        rw [hfound]
        exact IssueMove.pass hstep nofun rfl hrefused nofun nofun nofun
      · have hx : 0 ≤ x.1 := of_decide_eq_true hsucc
        obtain ⟨hr, hread⟩ := hstep.read_same hv hx
        show IssueMove r r' _ _ (if 0 ≤ x.1 then Issuing.looked x.2 else .refused)
        rw [if_pos hx]
        exact IssueMove.pass hr nofun rfl nofun (fun e he => Or.inl (hread.trans he)) nofun nofun
  | looked e =>
      obtain rfl : o = .db (.ioOpUsrEnt e.next .modify) := hallowed
      have hx : 0 ≤ x.1 := of_decide_eq_true hsucc
      show IssueMove r r' _ _ (if 0 ≤ x.1 then Issuing.numbered e.next.user.lastMsgId none
        else .refused)
      rw [if_pos hx]
      exact IssueMove.issue rfl (hstep.modify_some hx) hx
  | numbered id known =>
      rcases hallowed with ho | ⟨v, j, hv, rfl⟩ | ⟨e, rfl, rfl⟩ | ⟨n, rfl⟩ |
        ⟨e, rfl⟩ | ⟨code, rfl⟩
      · exact issueMove_talks (talkative_numbered id known) hrefused ho hstep
      · have hx : 0 ≤ x.1 := of_decide_eq_true hsucc
        obtain ⟨hr, hread⟩ := hstep.read_same hv hx
        exact IssueMove.pass hr nofun rfl nofun (fun e he => Or.inl (hread.trans he)) nofun nofun
      · have hx : 0 ≤ x.1 := of_decide_eq_true hsucc
        exact IssueMove.mark rfl (hstep.modify_some hx) hx
      · exact IssueMove.pass hstep nofun rfl nofun (fun e he => Or.inr ⟨rfl, he⟩) nofun nofun
      · exact IssueMove.pass hstep nofun rfl nofun (fun e he => Or.inr ⟨rfl, he⟩) nofun nofun
      · exact IssueMove.pass hstep nofun rfl nofun nofun nofun fun id h =>
          absurd h (reply_ne_told id)
  | closing id =>
      rcases hallowed with ho | ⟨v, ud, rfl⟩ | ⟨n, rfl⟩ | rfl
      · exact issueMove_talks (talkative_closing id) hrefused ho hstep
      · exact IssueMove.pass hstep.1 nofun rfl hrefused nofun (fun _ h => h) nofun
      · exact IssueMove.pass hstep nofun rfl hrefused nofun (fun _ h => h) nofun
      · refine IssueMove.pass hstep nofun rfl hrefused nofun (fun _ h => h) fun id' h => ?_
        have hop := congrArg Sigma.fst h
        obtain ⟨-, hbytes⟩ := SrvOp.write.inj hop
        have hnat := decimal_injective (List.append_cancel_right hbytes)
        rw [UInt32.toNat_inj.mp hnat]
        rfl
  | refused => exact absurd rfl hrefused

end Moves
