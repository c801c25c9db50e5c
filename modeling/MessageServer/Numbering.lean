/-
# The counter in `SEND`

`SEND` gives the next number of the recipient to its message as id.

* `numbering`: where a thread is with the number, as a discipline;
* `NumberFacts`: what the thread has done, and the record that it leaves;
* `exec_numbering`: what a `SEND` does to the counter.
-/
import MessageServer.RecordCounts

/-! ## The counter in `SEND` -/

/-- Where a thread that handles `SEND` is: before it has read the counter; behind that; behind
giving the id; or it has been refused. -/
inductive Counting
  | starting
  | seen (n : UInt32)
  | given (id : UInt32)
  | refused

/-- The counter that an entry has in this phase. -/
def Counting.count : Counting → UInt32 → UInt32
  | .given id, _ => id
  | _, n => n

/-- The discipline of `SEND`: an id is the counter that the thread has read, and one more; the
thread names its message by it. -/
def numbering (C : Confinement) (sender recipient content : Bytes) : Discipline srvE Counting where
  allowed
    | .starting, o => Talks o ∨ (∃ v, o = .db (.userExists v)) ∨
        (∃ ud, o = .db (.ioOpUsrEnt ⟨recipient, .user ud⟩ .read)) ∨
        ∃ code, code ≠ srvSuccess ∧ o = .write .client [code]
    | .seen n, o => ∃ e, C.HasCount (nextMsgId n) e ∧ o = .db (.ioOpUsrEnt e .modify)
    | .given id, o => Talks o ∨ ReadsUser o ∨
        (∃ e, C.HasCount id e ∧ o = .db (.ioOpUsrEnt e .modify)) ∨
        o = .db (.ioOpUsrEnt ⟨recipient, .msg ⟨sender, id, content⟩⟩ .create) ∨
        (∃ e result, o = .note (.cltSendMessage e ⟨sender, id, content⟩ result)) ∨
        (∃ e result, o = .note (.cltSendMessAck e id result)) ∨
        (∃ code, o = .write .client [code]) ∨ o = .write .client (decimal id.toNat ++ [0])
    | .refused, o => Talks o ∨ ∃ code, code ≠ srvSuccess ∧ o = .write .client [code]
  possible
    | ph, .db (.ioOpUsrEnt e .read), x => C.ReadsCount (ph.count x.2.user.lastMsgId) e x
    | _, _, _ => True
  next
    | .starting, .db (.ioOpUsrEnt _ .read), x =>
        if 0 ≤ x.1 then .seen x.2.user.lastMsgId else .refused
    | .seen _, .db (.ioOpUsrEnt e .modify), x =>
        if 0 ≤ x.1 then .given e.user.lastMsgId else .refused
    | ph, _, _ => ph

section Counting

variable {C : Confinement} {sender recipient content : Bytes} {ph : Counting} {id : UInt32}

/-- The phases in which a thread may talk to a listener. -/
def Counting.Free (ph : Counting) : Prop := ∀ n, ph ≠ .seen n

/-- Where the phase is free, so is the talk with the listeners. -/
theorem Counting.Free.talks (hph : ph.Free) :
    (numbering C sender recipient content).Stays Talks ph := by
  intro o ho
  constructor
  · cases ph with
    | seen n => exact absurd rfl (hph n)
    | _ => exact Or.inl ho
  · intro x
    cases o with
    | db call => exact ho.elim
    | _ => cases ph <;> rfl

/-- A thread that has given its number is free. -/
theorem free_given : (Counting.given id).Free := fun _ => by simp

/-! ### The pieces of `SEND` -/

/-- The connection keeps the count of its entry. -/
theorem obeys_numbering_auxConnect (u : Bytes) (ud : Userdata) :
    (auxConnectCltListenThread ⟨u, .user ud⟩).Obeys (numbering C sender recipient content)
      (fun ph r => ph = .given id ∧ (C.HasCount id ⟨u, .user ud⟩ → C.HasCount id r.2))
        (.given id) := by
  apply obeys_reaching (Or.inr (Or.inl ⟨_, _, rfl⟩))
  exact fun r hr => ⟨free_given.talks, fun code => ⟨rfl, fun he => hr.keeps he⟩⟩

/-- The transmission of the message under its new id keeps the count. -/
theorem obeys_numbering_cltSendMessage (u : Bytes) (ud : Userdata) :
    (cltSendMessage ⟨opSendMessage, ⟨sender, id, content⟩⟩ ⟨u, .user ud⟩).Obeys
      (numbering C sender recipient content)
      (fun ph r => ph = .given id ∧ (C.HasCount id ⟨u, .user ud⟩ → C.HasCount id r.2))
        (.given id) := by
  rw [cltSendMessage, obeys_bind]
  refine (obeys_numbering_auxConnect u ud).mono ?_
  rintro ph r ⟨rfl, hr⟩
  rw [obeys_bind]
  refine obeys_of_performs free_given.talks
    ((onSock_ifConnected (onSock_cltSendMessageStrings _)).mono OnSock.talks)
    fun result => ?_
  exact obeys_perform_bind.mpr
    ⟨Or.inr (Or.inr (Or.inr (Or.inr (Or.inl ⟨_, _, rfl⟩)))), fun _ _ => ⟨rfl, hr⟩⟩

/-- The acknowledgement of the message leaves its number. -/
theorem obeys_numbering_cltSendMessAck (u : Bytes) (ud : Userdata) :
    (cltSendMessAck ⟨opSendMessAck, ⟨[], id, []⟩⟩ ⟨u, .user ud⟩).Obeys
      (numbering C sender recipient content) (fun _ _ => True) (.given id) := by
  rw [cltSendMessAck, obeys_bind]
  refine (obeys_numbering_auxConnect u ud).mono ?_
  rintro ph r ⟨rfl, -⟩
  rw [obeys_bind]
  refine obeys_of_performs free_given.talks
    ((onSock_ifConnected (onSock_cltSendMessAckStrings _)).mono OnSock.talks)
    fun result => ?_
  exact obeys_perform_bind.mpr
    ⟨Or.inr (Or.inr (Or.inr (Or.inr (Or.inr (Or.inl ⟨_, _, rfl⟩))))), fun _ _ => trivial⟩

/-- The next message id counts one more. -/
theorem Confinement.HasCount.next {n : UInt32} {e : Entry} (h : C.HasCount n e) :
    C.HasCount (nextMsgId n)
      (e.mapUser fun u => { u with lastMsgId := nextMsgId u.lastMsgId }) := by
  obtain ⟨v, ud, rfl, hv, rfl⟩ := h
  exact ⟨v, _, rfl, hv, rfl⟩

/-- An entry has the count that it holds. -/
theorem Confinement.HasCount.self {n : UInt32} {e : Entry} (h : C.HasCount n e) :
    C.HasCount e.user.lastMsgId e := by
  obtain ⟨v, ud, rfl, hv, -⟩ := h
  exact ⟨v, ud, rfl, hv, rfl⟩

/-! ### The whole of `SEND` -/

/-- Giving the message its id. -/
theorem obeys_numbering_auxSendInit (hr : C.Same recipient) (junk : Userdata) :
    (auxSendInit sender recipient ⟨[], .user junk⟩).Obeys (numbering C sender recipient content)
      (fun ph i => (i.1 ≠ srvSuccess ∧ (ph = .starting ∨ ph = .refused)) ∨
        (i.1 = srvSuccess ∧ ∃ id, ph = .given id ∧ C.HasCount id i.2)) .starting := by
  have hfree : Counting.starting.Free := fun _ => by simp
  rw [auxSendInit]
  refine obeys_perform_bind.mpr ⟨Or.inr (Or.inl ⟨_, rfl⟩), fun senderExists _ => ?_⟩
  refine obeys_perform_bind.mpr ⟨Or.inr (Or.inl ⟨_, rfl⟩), fun recipientExists _ => ?_⟩
  split
  · exact Or.inl ⟨show srvErrSendUsrNotExists ≠ srvSuccess by decide, Or.inl rfl⟩
  split
  · exact Or.inl ⟨show srvErrSendAny ≠ srvSuccess by decide, Or.inl rfl⟩
  refine obeys_perform_bind.mpr ⟨Or.inr (Or.inr (Or.inl ⟨_, rfl⟩)),
    fun (x : ℤ × Entry) hx => ?_⟩
  show Prog.Obeys _ _ _ (if 0 ≤ x.1 then Counting.seen x.2.user.lastMsgId else .refused)
  split
  · rename_i hneg
    rw [if_neg (not_le.mpr hneg)]
    exact Or.inl ⟨show srvErrSendAny ≠ srvSuccess by decide, Or.inr rfl⟩
  · rename_i hpos
    rw [if_pos (not_lt.mp hpos)]
    have hcount := ((hx : C.ReadsCount _ _ _) recipient junk rfl hr).resolve_right
      fun hneg => hpos hneg.1
    refine obeys_perform_bind.mpr ⟨⟨_, hcount.2.next, rfl⟩, fun (w : ℤ × Entry) _ => ?_⟩
    by_cases hw : 0 ≤ w.1
    · exact Or.inr ⟨if_neg (not_lt.mpr hw), _, if_pos hw, hcount.2.next.self⟩
    · refine Or.inl ⟨?_, Or.inr (if_neg hw)⟩
      show (if w.1 < 0 then srvErrSendAny else srvSuccess) ≠ srvSuccess
      rw [if_pos (not_le.mp hw)]
      decide

/-- Passing the message on. -/
theorem obeys_numbering_auxSendMsgPass {e : Entry} (he : C.HasCount id e) :
    (auxSendMsgPass sender recipient content srvSuccess e).Obeys
      (numbering C sender recipient content)
      (fun ph p => ph = .given id ∧ C.HasCount id p.2.1 ∧
          p.2.2 = ⟨recipient, .msg ⟨sender, id, content⟩⟩)
      (.given id) := by
  have hcount := he
  obtain ⟨v, ud, rfl, hv, rfl⟩ := hcount
  by_cases hcn : ud.status = statusCn
  · rw [auxSendMsgPass_connected hcn, obeys_bind]
    refine (obeys_numbering_cltSendMessage v ud).mono ?_
    rintro ph r ⟨rfl, hr⟩
    split
    · exact ⟨rfl, hr he, rfl⟩
    · have hcount := (hr he).mapUser (f := fun u => { u with status := statusDcn }) fun _ => rfl
      exact obeys_perform_bind.mpr ⟨Or.inr (Or.inr (Or.inl ⟨_, hcount, rfl⟩)),
        fun _ _ => ⟨rfl, hcount, rfl⟩⟩
  · rw [auxSendMsgPass_other hcn]
    exact ⟨rfl, he, rfl⟩

/-- The end. -/
theorem obeys_numbering_srvSendFinish (code : UInt8) {recipientEntry : Entry}
    (h : C.HasCount id recipientEntry) :
    (srvSendFinish sender code recipientEntry ⟨recipient, .msg ⟨sender, id, content⟩⟩).Obeys
      (numbering C sender recipient content) (fun _ _ => True) (.given id) := by
  have hend : (if recipientEntry.user.status = statusCn then
      uninit >>= fun junk =>
        cltSendMessAck ⟨opSendMessAck, ⟨[], recipientEntry.user.lastMsgId, []⟩⟩
        ⟨sender, .user junk.user⟩ >>= fun _ => return ()
      else (return () : Srv Unit)).Obeys (numbering C sender recipient content) (fun _ _ => True)
        (.given id) := by
    split
    · refine free_given.talks.bind (o := .uninit) trivial fun junk _ => ?_
      obtain ⟨v, ud, rfl, hv, rfl⟩ := h
      rw [obeys_bind]
      exact (obeys_numbering_cltSendMessAck sender junk.user).mono fun _ _ _ => trivial
    · trivial
  rw [srvSendFinish, obeys_bind, auxSendFirstAck, obeys_bind, sendServerReply]
  refine obeys_perform_bind.mpr
    ⟨Or.inr (Or.inr (Or.inr (Or.inr (Or.inr (Or.inr (Or.inl ⟨code, rfl⟩)))))),
    fun (ok : Bool) _ => ?_⟩
  cases ok with
  | false =>
      refine free_given.talks.bind (o := .close .client) trivial fun _ _ => ?_
      exact hend
  | true =>
      refine obeys_ret.mpr ?_
      rw [if_neg (show ¬ (0 : ℤ) < 0 by decide)]
      by_cases hsuccess : code = srvSuccess
      · rw [if_pos hsuccess, obeys_bind, sendString]
        refine obeys_perform_bind.mpr
          ⟨Or.inr (Or.inr (Or.inr (Or.inr (Or.inr (Or.inr (Or.inr rfl)))))),
            fun (sent : Bool) _ => ?_⟩
        cases sent with
        | true => exact hend
        | false => exact free_given.talks.bind (o := .close .client) trivial fun _ _ => hend
      · rw [if_neg hsuccess]
        exact hend

/-- **A thread that handles `SEND` obeys the discipline.** -/
theorem obeys_numbering (hr : C.Same recipient) :
    (srvSendBody sender recipient content).Obeys (numbering C sender recipient content)
      (fun _ _ => True)
      .starting := by
  rw [srvSendBody]
  have hstarting : Counting.starting.Free := fun _ => by simp
  refine hstarting.talks.bind (o := .uninit) trivial fun junk _ => ?_
  rw [obeys_bind]
  refine (obeys_numbering_auxSendInit hr junk.user).mono ?_
  rintro ph i (⟨hcode, hph⟩ | ⟨hcode, id, rfl, hcount⟩)
  · have hfree : ph.Free := by
      rcases hph with rfl | rfl <;> exact fun _ => by simp
    have hallowed : (numbering C sender recipient content).allowed ph (.write .client [i.1]) := by
      rcases hph with rfl | rfl
      · exact Or.inr (Or.inr (Or.inr ⟨i.1, hcode, rfl⟩))
      · exact Or.inr ⟨i.1, hcode, rfl⟩
    rw [if_pos hcode, obeys_bind, sendServerReply]
    refine obeys_perform_bind.mpr ⟨hallowed, fun (ok : Bool) _ => ?_⟩
    cases ok with
    | true => trivial
    | false =>
        have hnext : (numbering C sender recipient content).next ph (.write .client [i.1])
            false = ph := by
          rcases hph with rfl | rfl <;> rfl
        rw [hnext]
        exact hfree.talks.bind (o := .close .client) trivial fun _ _ => trivial
  · rw [if_neg (not_not.mpr hcode), obeys_bind, hcode]
    refine (obeys_numbering_auxSendMsgPass hcount).mono ?_
    rintro ph p ⟨rfl, hentry, hmsg⟩
    rw [hmsg]
    split
    · refine obeys_perform_bind.mpr ⟨Or.inr (Or.inr (Or.inr (Or.inl rfl))), fun w _ => ?_⟩
      exact obeys_numbering_srvSendFinish _ hentry
    · exact obeys_numbering_srvSendFinish _ hentry

/-! ## What a `SEND` does to the counter -/

/-- The thread has answered `SRV_SUCCESS`. -/
def Accepted (t : List srvE.Event) : Prop := ∃ ev ∈ t, replyOf ev.1 = some srvSuccess

instance (t : List srvE.Event) : Decidable (Accepted t) :=
  inferInstanceAs (Decidable (∃ ev ∈ t, replyOf ev.1 = some srvSuccess))

/-- The thread has given no id, and has said nothing about a message. -/
structure Unnumbered (evs : List srvE.Event) : Prop where
  id : messageId evs = none
  reply : ¬ Accepted evs
  about : ∀ P, ∀ act ∈ acts evs, act.About P

/-- What the history of a thread says in each phase; the record was `r₀` and is `r`. -/
def NumberFacts (sender content : Bytes) (r₀ : Option Entry) (evs : List srvE.Event)
    (r : Option Entry) :
    Counting → Prop
  | .starting => r = r₀ ∧ Unnumbered evs
  | .seen n => r = r₀ ∧ (∃ e, r₀ = some e ∧ e.user.lastMsgId = n) ∧ Unnumbered evs
  | .given id => (∃ e, r₀ = some e ∧ id = nextMsgId e.user.lastMsgId) ∧
      (∀ e, r = some e → e.user.lastMsgId = id) ∧ messageId evs = some id ∧
      ∀ act ∈ acts evs, act.About (· = ⟨sender, id, content⟩)
  | .refused => (∀ e, r = some e → r₀ = some e) ∧ Unnumbered evs

variable {r₀ r r' : Option Entry} {evs : List srvE.Event} {ev : srvE.Event}

/-- A step that gives no id and says nothing. -/
structure SaysNothing (ev : srvE.Event) : Prop where
  id : givesId ev = none
  reply : replyOf ev.1 ≠ some srvSuccess
  act : ∀ act, actOf ev = some act → ∀ P, act.About P

/-! ### Steps that say nothing -/

/-- What is said to a listener is no acceptance. -/
theorem saysNothing_of_talks {o : SrvOp} (ho : Talks o) (x : o.Ans) : SaysNothing ⟨o, x⟩ := by
  cases o with
  | db call => exact ho.elim
  | note n => exact ho.elim
  | uninit =>
      refine ⟨rfl, by simp [replyOf], fun act hact => ?_⟩
      obtain rfl := Option.some.inj hact
      exact fun _ => trivial
  | write sock bytes =>
      cases sock with
      | client => exact ho.elim
      | listener =>
          refine ⟨rfl, by simp [replyOf], fun act hact => ?_⟩
          obtain rfl := Option.some.inj hact
          exact fun _ => trivial
  | _ => exact ⟨rfl, by simp [replyOf], fun act hact => absurd hact (by simp [actOf])⟩

/-- Nor is a code of failure. -/
theorem saysNothing_of_code {code : UInt8} (hcode : code ≠ srvSuccess) (ok : Bool) :
    SaysNothing ⟨SrvOp.write .client [code], ok⟩ := by
  refine ⟨rfl, fun heq => hcode (Option.some.inj heq), fun act hact => ?_⟩
  obtain rfl := Option.some.inj hact
  exact fun P => Or.inl ⟨code, rfl⟩

/-- The actions of one more event. -/
theorem acts_snoc : acts (evs ++ [ev]) = acts evs ++ (actOf ev).toList := by
  rw [acts_append]
  cases hact : actOf ev with
  | none => simp [acts, hact]
  | some act => simp [acts, hact]

/-- A step that says nothing leaves the request unnumbered. -/
theorem Unnumbered.snoc (h : Unnumbered evs) (hev : SaysNothing ev) : Unnumbered (evs ++ [ev]) := by
  have hmem : ∀ act ∈ acts (evs ++ [ev]), act ∈ acts evs ∨ actOf ev = some act := by
    intro act hact
    rw [acts_snoc, List.mem_append, Option.mem_toList] at hact
    exact hact
  refine ⟨?_, ?_, fun P act hact => ?_⟩
  · rw [messageId_snoc, h.id, hev.id]
    rfl
  · rintro ⟨ev', hmem', hreply⟩
    rcases List.mem_append.mp hmem' with hold | hnew
    · exact h.reply ⟨ev', hold, hreply⟩
    · rw [List.mem_singleton.mp hnew] at hreply
      exact hev.reply hreply
  · rcases hmem _ hact with hold | hnew
    · exact h.about P act hold
    · exact hev.act _ hnew P

/-! ### The facts of a numbered request -/

/-- A step that is about the message. -/
theorem NumberFacts.named (h : NumberFacts sender content r₀ evs r (.given id))
    (hr : ∀ e, r' = some e → e.user.lastMsgId = id)
    (hev : ∀ act, actOf ev = some act → act.About (· = ⟨sender, id, content⟩)) :
    NumberFacts sender content r₀ (evs ++ [ev]) r' (.given id) := by
  obtain ⟨hfirst, -, hid, habout⟩ := h
  refine ⟨hfirst, hr, messageId_append hid _, fun act hact => ?_⟩
  rw [acts_snoc, List.mem_append, Option.mem_toList] at hact
  rcases hact with hold | hnew
  · exact habout act hold
  · exact hev act hnew

/-- A step that says nothing keeps the facts. -/
theorem NumberFacts.quiet (h : NumberFacts sender content r₀ evs r ph)
    (hph : ph.Free) (hr : r' = r)
    (hev : SaysNothing ev) : NumberFacts sender content r₀ (evs ++ [ev]) r' ph := by
  subst hr
  cases ph with
  | starting => exact ⟨h.1, h.2.snoc hev⟩
  | seen n => exact absurd rfl (hph n)
  | given id => exact h.named h.2.1 fun act hact => hev.act act hact _
  | refused => exact ⟨h.1, h.2.snoc hev⟩

/-- **The step lemma.** -/
theorem NumberFacts.step {o : SrvOp} {x : o.Ans} (h : NumberFacts sender content r₀ evs r ph)
    (hr : C.Same recipient)
    (hallowed : (numbering C sender recipient content).allowed ph o)
    (hstep : RecordStep C r o x r') :
    (numbering C sender recipient content).possible ph o x ∧
      NumberFacts sender content r₀ (evs ++ [⟨o, x⟩]) r'
        ((numbering C sender recipient content).next ph o x) := by
  have htalk : ph.Free → Talks o → (numbering C sender recipient content).possible ph o x ∧
      NumberFacts sender content r₀ (evs ++ [⟨o, x⟩]) r'
        ((numbering C sender recipient content).next ph o x) := by
    intro hph ho
    rw [(hph.talks _ ho).2]
    cases o with
    | db call => exact ho.elim
    | note n => exact ho.elim
    | _ => exact ⟨by cases ph <;> trivial, h.quiet hph hstep (saysNothing_of_talks ho x)⟩
  cases ph with
  | starting =>
      rcases hallowed with ho | ⟨v, rfl⟩ | ⟨ud, rfl⟩ | ⟨code, hcode, rfl⟩
      · exact htalk (fun _ => by simp) ho
      · exact ⟨trivial, h.quiet (fun _ => by simp) hstep
          ⟨rfl, by simp [replyOf], fun act hact => absurd hact (by simp [actOf])⟩⟩
      · -- the record of the recipient is read
        obtain ⟨hsame, hreads, hread⟩ := hstep.reads_own hr
        have hsilent :
            Unnumbered (evs ++ [⟨.db (.ioOpUsrEnt ⟨recipient, .user ud⟩ .read), x⟩]) :=
          h.2.snoc ⟨rfl, by simp [replyOf], fun act hact => absurd hact (by simp [actOf])⟩
        refine ⟨hreads, ?_⟩
        show NumberFacts _ _ _ _ _ (if 0 ≤ x.1 then Counting.seen x.2.user.lastMsgId
          else .refused)
        rcases hread with ⟨hpos, hsome⟩ | hneg
        · rw [if_pos hpos]
          exact ⟨hsame.trans h.1, ⟨x.2, h.1.symm.trans hsome, rfl⟩, hsilent⟩
        · rw [if_neg (not_le.mpr hneg)]
          refine ⟨fun e he => ?_, hsilent⟩
          rwa [← h.1, ← hsame]
      · exact ⟨trivial, h.quiet (fun _ => by simp) hstep (saysNothing_of_code hcode x)⟩
  | seen n =>
      obtain ⟨e, ⟨v, ud, rfl, hv, hn⟩, rfl⟩ := hallowed
      obtain ⟨rfl, ⟨e₀, he₀, rfl⟩, hsilent⟩ := h
      refine ⟨trivial, ?_⟩
      show NumberFacts _ _ _ _ _ (if 0 ≤ x.1 then Counting.given ud.lastMsgId else .refused)
      have hact : ∀ act, actOf ⟨SrvOp.db (.ioOpUsrEnt ⟨v, .user ud⟩ .modify),
          x⟩ = some act →
          ∀ P, act.About P := by
        intro act hact
        obtain rfl := Option.some.inj hact
        exact fun _ => trivial
      rcases hstep with ⟨hok, hsome⟩ | ⟨hneg, hkept⟩
      · -- the counter of the record is the id
        have hpos : 0 ≤ x.1 := by rw [hok]; decide
        rw [if_pos hpos]
        refine ⟨⟨e₀, he₀, hn⟩, fun e he => ?_, ?_, fun act hmem => ?_⟩
        · rw [← Option.some.inj (hsome.symm.trans he)]
          rfl
        · rw [messageId_snoc, hsilent.id, givesId, if_pos hpos]
          rfl
        · rw [acts_snoc, List.mem_append, Option.mem_toList] at hmem
          rcases hmem with hold | hnew
          · exact hsilent.about _ act hold
          · exact hact act hnew _
      · rw [if_neg (not_le.mpr hneg)]
        refine ⟨fun e he => ?_,
          hsilent.snoc ⟨if_neg (not_le.mpr hneg), by simp [replyOf], hact⟩⟩
        rcases hkept with hkept | hkept
        · rwa [← hkept]
        · rw [hkept] at he
          exact absurd he (by simp)
  | given id =>
      -- the id has been given: the record keeps it, and what is said is about it
      have hlast := h.2.1
      have hkept : r' = r → ∀ e, r' = some e → e.user.lastMsgId = id :=
        fun hsame e he => hlast e (hsame ▸ he)
      rcases hallowed with ho | ⟨v, ud, rfl⟩ | ⟨e, hcount, rfl⟩ | rfl |
        ⟨e, result, rfl⟩ | ⟨e, result, rfl⟩ |
        ⟨code, rfl⟩ | rfl
      · exact htalk (fun _ => by simp) ho
      · obtain ⟨hsame, hreads⟩ := RecordStep.readsCount hstep hlast
        refine ⟨hreads, h.named (fun e he => hlast e ?_)
          fun act hact => absurd hact (by simp [actOf])⟩
        rwa [← hsame]
      · -- the record is rewritten with the same counter
        refine ⟨trivial, h.named (fun e' he' => ?_) fun act hact => ?_⟩
        · rcases hstep with ⟨-, hkept⟩ | ⟨-, hkept | hkept⟩
          · obtain ⟨v, ud, rfl, -, hn⟩ := hcount
            rw [← Option.some.inj (hkept.symm.trans he')]
            exact hn
          · exact hlast e' (hkept.symm.trans he')
          · rw [hkept] at he'
            exact absurd he' (by simp)
        · obtain rfl := Option.some.inj hact
          trivial
      · refine ⟨trivial, h.named (hkept hstep) fun act hact => ?_⟩
        obtain rfl := Option.some.inj hact
        rfl
      · refine ⟨trivial, h.named (hkept hstep) fun act hact => ?_⟩
        obtain rfl := Option.some.inj hact
        rfl
      · refine ⟨trivial, h.named (hkept hstep) fun act hact => ?_⟩
        obtain rfl := Option.some.inj hact
        exact ⟨_, rfl, rfl⟩
      · refine ⟨trivial, h.named (hkept hstep) fun act hact => ?_⟩
        obtain rfl := Option.some.inj hact
        exact Or.inl ⟨code, rfl⟩
      · refine ⟨trivial, h.named (hkept hstep) fun act hact => ?_⟩
        obtain rfl := Option.some.inj hact
        exact Or.inr ⟨_, rfl, rfl⟩
  | refused =>
      rcases hallowed with ho | ⟨code, hcode, rfl⟩
      · exact htalk (fun _ => by simp) ho
      · exact ⟨trivial, h.quiet (fun _ => by simp) hstep (saysNothing_of_code hcode x)⟩

/-- What a thread that handles `SEND` has made of the record: it has given no id, or the next
one. -/
inductive SendCounts (sender content : Bytes) (r r' : Option Entry) (t : List srvE.Event) : Prop
  | refused (hr : ∀ e, r' = some e → r = some e) (hsilent : Unnumbered t)
  | given (e : Entry) (he : r = some e)
      (hr : ∀ e', r' = some e' → e'.user.lastMsgId = nextMsgId e.user.lastMsgId)
      (hid : messageId t = some (nextMsgId e.user.lastMsgId))
      (habout : ∀ act ∈ acts t,
          act.About (· = ⟨sender, nextMsgId e.user.lastMsgId, content⟩))

/-- **`SEND` and the counter**, by the step lemma. -/
theorem exec_numbering (hr : C.Same recipient) {t : List srvE.Event} {a : Unit}
    (h : Exec (RecordStep C) (srvSendBody sender recipient content) r t a r') :
    SendCounts sender content r r' t := by
  have hstart : NumberFacts sender content r [] r .starting :=
    ⟨rfl, rfl, by simp [Accepted], fun P act hact => absurd hact (by simp)⟩
  obtain ⟨ph, hend, -⟩ :=
    h.obeys_history (I := fun evs r' ph => NumberFacts sender content r evs r' ph)
    (fun _ _ _ _ _ _ hinv hallowed hstep => hinv.step hr hallowed hstep) (obeys_numbering hr) hstart
  rw [List.nil_append] at hend
  cases ph with
  | starting => exact SendCounts.refused (fun e he => hend.1.symm.trans he) hend.2
  | seen n => exact SendCounts.refused (fun e he => hend.1.symm.trans he) hend.2.2
  | refused => exact SendCounts.refused hend.1 hend.2
  | given id =>
      obtain ⟨⟨e, he, rfl⟩, hlast, hid, habout⟩ := hend
      exact SendCounts.given e he hlast hid habout

end Counting
