/-
# A thread that handles `SEND`

One thread handles `SEND`, among threads that handle other requests.  The reply carries the
id of the message; the second acknowledgement comes from the same thread, or from one that
drains the messages of the recipient.

* `Sending`, `sending`: where the thread is, as a discipline;
* `obeys_sending`: the thread keeps to it;
* `Answered`: the reply that carries the id has been written;
* `SentWell`: no step of the thread fails that it does not look at.
-/
import MessageServer.Drains

/-! ## The phases of a `SEND` -/

/-- Where a thread is: before the message has its id; on the way to the reply, with the
status in the recipient's entry, and whether all went well; behind the reply of success;
behind the id; behind a reply that was of failure or was not written; at its end. -/
inductive Sending
  | starting
  | passing (id : UInt32) (status : UInt8) (good : Bool)
  | replied (id : UInt32) (status : UInt8)
  | answered (id : UInt32)
  | failed (status : UInt8)
  | ended

/-- The steps that talk to a listener, or end talking. -/
def Talks : SrvOp → Prop
  | .uninit => True
  | .socket => True
  | .connect _ _ => True
  | .write .listener _ => True
  | .close _ => True
  | _ => False

/-- What is said to a listening thread is talk. -/
theorem OnSock.talks (o : SrvOp) (h : OnSock .listener o) : Talks o := by
  cases o with
  | write sock bytes =>
      obtain rfl : sock = .listener := h
      trivial
  | close sock => trivial
  | _ => exact h.elim

/-- Reaching the listener of a user, behind a `READ`. -/
theorem obeys_reaching {Ph : Type} {D : Discipline srvE Ph} {ph : Ph} {e : Entry}
    {Q : Ph → ℤ × Entry → Prop}
    (hread : D.allowed ph (.db (.ioOpUsrEnt e .read)))
    (hrest : ∀ r : ℤ × Entry, D.possible ph (.db (.ioOpUsrEnt e .read)) r →
      D.Stays Talks (D.next ph (.db (.ioOpUsrEnt e .read)) r) ∧
        ∀ code, Q (D.next ph (.db (.ioOpUsrEnt e .read)) r) (code, r.2)) :
    (auxConnectCltListenThread e).Obeys D Q ph := by
  rw [auxConnectCltListenThread]
  refine obeys_perform_bind.mpr ⟨hread, fun (r : ℤ × Entry) hr => ?_⟩
  obtain ⟨hstays, hQ⟩ := hrest r hr
  split
  · exact hQ _
  refine hstays.bind (o := .socket) trivial fun ok _ => ?_
  cases ok with
  | false => exact hQ _
  | true => exact hstays.bind (o := .connect _ _) trivial fun connected _ => hQ _

/-- Reading a userdata entry. -/
def ReadsUser (o : SrvOp) : Prop := ∃ u ud, o = .db (.ioOpUsrEnt ⟨u, .user ud⟩ .read)

/-- The second acknowledgement. -/
def Acks (o : SrvOp) : Prop := ∃ e id result, o = .note (.cltSendMessAck e id result)

/-- Behind the reply. -/
def Sending.afterReply (id : UInt32) (status code : UInt8) (ok : Bool) : Sending :=
  if ok = true ∧ code = srvSuccess then .replied id status else .failed status

/-- Behind the id. -/
def Sending.afterId (id : UInt32) (status : UInt8) (ok : Bool) : Sending :=
  if ok = true then .answered id else .failed status

/-- The discipline of `SEND sender recipient content`. -/
def sending (sender recipient content : Bytes) : Discipline srvE Sending where
  allowed
    | .starting, o => Talks o ∨ (∃ v, o = .db (.userExists v)) ∨ ReadsUser o ∨
        (∃ e, o = .db (.ioOpUsrEnt e .modify)) ∨ ∃ code, code ≠ srvSuccess ∧
          o = .write .client [code]
    | .passing id _ good, o => Talks o ∨ (good = true ∧ ReadsUser o) ∨
        (good = true ∧ ∃ e, o = .db (.ioOpUsrEnt e .modify)) ∨
        (∃ e m result, o = .note (.cltSendMessage e m result)) ∨
        o = .db (.ioOpUsrEnt ⟨recipient, .msg ⟨sender, id, content⟩⟩ .create) ∨
        ∃ code, (code = srvSuccess ↔ good = true) ∧ o = .write .client [code]
    | .replied id _, o => o = .write .client (decimal id.toNat ++ [0])
    | .answered _, o => Talks o ∨ ReadsUser o ∨ Acks o
    | .failed status, o => Talks o ∨ (status = statusCn ∧ (ReadsUser o ∨ Acks o))
    | .ended, o => Talks o
  possible
    | _, .db (.ioOpUsrEnt ⟨_, .user _⟩ .read), x => ∃ v ud, x.2 = ⟨v, .user ud⟩
    | _, _, _ => True
  next
    | .starting, .db (.ioOpUsrEnt e .modify), x =>
        if 0 ≤ x.1 then .passing e.user.lastMsgId e.user.status true else .starting
    | .starting, .write .client _, _ => .ended
    | .passing id _ good, .db (.ioOpUsrEnt _ .read), x => .passing id x.2.user.status good
    | .passing id _ good, .db (.ioOpUsrEnt _ .modify), x =>
        .passing id statusDcn (good && decide (0 ≤ x.1))
    | .passing id status good, .db (.ioOpUsrEnt _ .create), x =>
        .passing id status (good && decide (0 ≤ x.1))
    | .passing id status _, .write .client [code], ok => Sending.afterReply id status code ok
    | .replied id status, .write .client _, ok => Sending.afterId id status ok
    | ph, _, _ => ph

/-! ## `SEND` obeys its discipline -/

section Discipline

variable {sender recipient content : Bytes} {ph : Sending}

/-- The phases in which a thread may talk to a listener. -/
def Sending.Talkative (ph : Sending) : Prop := ∀ id status, ph ≠ .replied id status

/-- A talkative phase stays as it is while the thread talks. -/
theorem Sending.Talkative.talks (hph : ph.Talkative) :
    (sending sender recipient content).Stays Talks ph := by
  intro o ho
  constructor
  · cases ph with
    | replied id status => exact absurd rfl (hph id status)
    | ended => exact ho
    | _ => exact Or.inl ho
  · intro x
    cases o with
    | db call => exact ho.elim
    | note n => exact ho.elim
    | write sock bytes =>
        cases sock with
        | client => exact ho.elim
        | listener => cases ph <;> rfl
    | _ => cases ph <;> rfl

/-- Sending the message to the recipient, whose entry is read again. -/
theorem obeys_sending_cltSendMessage (request : CltRequest) (u : Bytes)
    (ud : Userdata) (id : UInt32)
    (status : UInt8) :
    (cltSendMessage request ⟨u, .user ud⟩).Obeys (sending sender recipient content)
      (fun ph r => ph = .passing id r.2.user.status true ∧ ∃ v ud', r.2 = ⟨v, .user ud'⟩)
      (.passing id status true) := by
  have htalk : ∀ status, (Sending.passing id status true).Talkative := fun _ _ _ => by simp
  rw [cltSendMessage, obeys_bind]
  refine obeys_reaching (Or.inr (Or.inl ⟨rfl, u, ud, rfl⟩)) fun r hr =>
    ⟨(htalk _).talks, fun code => ?_⟩
  show Prog.Obeys _ _ _ (Sending.passing id r.2.user.status true)
  rw [obeys_bind]
  refine obeys_of_performs (htalk _).talks
    ((onSock_ifConnected (onSock_cltSendMessageStrings _)).mono OnSock.talks) fun result => ?_
  refine obeys_perform_bind.mpr ⟨Or.inr (Or.inr (Or.inr (Or.inl ⟨_, _, _, rfl⟩))),
    fun _ _ => ?_⟩
  exact ⟨rfl, hr⟩

/-- The second acknowledgement, where it is allowed. -/
theorem obeys_sending_cltSendMessAck (request : CltRequest) (u : Bytes) (ud : Userdata)
    (hph : (∃ id, ph = .answered id) ∨ ph = .failed statusCn) :
    (cltSendMessAck request ⟨u, .user ud⟩).Obeys (sending sender recipient content)
      (fun _ _ => True) ph := by
  have htalk : ph.Talkative := by
    rcases hph with ⟨id, rfl⟩ | rfl <;> simp [Sending.Talkative]
  have hallowed : ∀ o, ReadsUser o ∨ Acks o →
      (sending sender recipient content).allowed ph o := by
    intro o ho
    rcases hph with ⟨id, rfl⟩ | rfl
    · exact Or.inr ho
    · exact Or.inr ⟨rfl, ho⟩
  have hread : ∀ x : ℤ × Entry,
      (sending sender recipient content).next ph (.db (.ioOpUsrEnt ⟨u, .user ud⟩ .read)) x =
        ph := by
    intro x
    rcases hph with ⟨id, rfl⟩ | rfl <;> rfl
  rw [cltSendMessAck, obeys_bind]
  refine obeys_reaching (hallowed _ (Or.inl ⟨u, ud, rfl⟩)) fun r _ => ?_
  rw [hread]
  refine ⟨htalk.talks, fun code => ?_⟩
  rw [obeys_bind]
  refine obeys_of_performs htalk.talks
    ((onSock_ifConnected (onSock_cltSendMessAckStrings _)).mono OnSock.talks) fun result => ?_
  exact obeys_perform_bind.mpr ⟨hallowed _ (Or.inr ⟨_, _, _, rfl⟩), fun _ _ => trivial⟩

/-! ### The start of the request -/

/-- Giving the message its id. -/
theorem obeys_sending_auxSendInit (junk : Userdata) :
    (auxSendInit sender recipient ⟨[], .user junk⟩).Obeys (sending sender recipient content)
      (fun ph i => (i.1 ≠ srvSuccess ∧ ph = .starting) ∨
          (i.1 = srvSuccess ∧ ∃ u ud, i.2 = ⟨u, .user ud⟩ ∧
        ph = .passing ud.lastMsgId ud.status true)) .starting := by
  have hrefused : ∀ (code : UInt8) (e : Entry), code ≠ srvSuccess →
      (code ≠ srvSuccess ∧ Sending.starting = .starting) ∨
        (code = srvSuccess ∧ ∃ u ud, e = ⟨u, .user ud⟩ ∧
        Sending.starting = .passing ud.lastMsgId ud.status true) :=
          fun code e h => Or.inl ⟨h, rfl⟩
  rw [auxSendInit]
  refine obeys_perform_bind.mpr ⟨Or.inr (Or.inl ⟨_, rfl⟩), fun senderExists _ => ?_⟩
  refine obeys_perform_bind.mpr ⟨Or.inr (Or.inl ⟨_, rfl⟩), fun recipientExists _ => ?_⟩
  split
  · exact hrefused srvErrSendUsrNotExists _ (by decide)
  split
  · exact hrefused srvErrSendAny _ (by decide)
  refine obeys_perform_bind.mpr ⟨Or.inr (Or.inr (Or.inl ⟨_, _, rfl⟩)), fun r hr => ?_⟩
  obtain ⟨v, ud, hv⟩ := hr
  split
  · exact hrefused srvErrSendAny _ (by decide)
  rw [hv]
  refine obeys_perform_bind.mpr ⟨Or.inr (Or.inr (Or.inr (Or.inl ⟨_, rfl⟩))),
    fun (w : ℤ × Entry) _ => ?_⟩
  show Prog.Obeys _ _ _ (if 0 ≤ w.1 then _ else _)
  by_cases hw : 0 ≤ w.1
  · rw [if_pos hw, if_neg (not_lt.mpr hw)]
    exact Or.inr ⟨rfl, v, _, rfl, rfl⟩
  · rw [if_neg hw, if_pos (not_le.mp hw)]
    exact hrefused srvErrSendAny _ (by decide)

/-- Passing the message on. -/
theorem obeys_sending_auxSendMsgPass (u : Bytes) (ud : Userdata) :
    (auxSendMsgPass sender recipient content srvSuccess ⟨u, .user ud⟩).Obeys
      (sending sender recipient content)
      (fun ph p => ∃ good, ph = .passing ud.lastMsgId p.2.1.user.status good ∧
        (p.1 = srvSuccess ↔ good = true) ∧
          p.2.2 = ⟨recipient, .msg ⟨sender, ud.lastMsgId, content⟩⟩)
      (.passing ud.lastMsgId ud.status true) := by
  by_cases hcn : ud.status = statusCn
  · rw [auxSendMsgPass_connected hcn, obeys_bind]
    refine (obeys_sending_cltSendMessage _ u ud ud.lastMsgId ud.status).mono ?_
    rintro ph r ⟨rfl, v, ud', hv⟩
    split
    · exact ⟨true, rfl, by simp, rfl⟩
    · rw [hv]
      refine obeys_perform_bind.mpr ⟨Or.inr (Or.inr (Or.inl ⟨rfl, _, rfl⟩)),
        fun (w : ℤ × Entry) _ => ?_⟩
      refine ⟨decide (0 ≤ w.1), by rfl, ?_, rfl⟩
      rw [decide_eq_true_iff, ← not_lt]
      constructor
      · intro hcode hneg
        simp only [if_pos hneg] at hcode
        exact absurd hcode (show srvErrSendAny ≠ srvSuccess by decide)
      · exact fun hpos => if_neg hpos
  · rw [auxSendMsgPass_other hcn]
    exact ⟨true, rfl, by simp, rfl⟩

/-- The end. -/
theorem obeys_sending_srvSendFinish {code : UInt8} {recipientEntry : Entry}
    {id : UInt32} {good : Bool}
    (hcode : code = srvSuccess ↔ good = true) :
    (srvSendFinish sender code recipientEntry ⟨recipient, .msg ⟨sender, id, content⟩⟩).Obeys
      (sending sender recipient content) (fun _ _ => True)
      (.passing id recipientEntry.user.status good) := by
  rw [srvSendFinish, obeys_bind]
  have hend : ∀ ph, (∃ id, ph = .answered id) ∨ ph = .failed recipientEntry.user.status →
      (if recipientEntry.user.status = statusCn then
        uninit >>= fun junk =>
          cltSendMessAck ⟨opSendMessAck, ⟨[], recipientEntry.user.lastMsgId, []⟩⟩
          ⟨sender, .user junk.user⟩ >>= fun _ => return ()
        else (return () : Srv Unit)).Obeys (sending sender recipient content) (fun _ _ =>
          True) ph := by
    intro ph hph
    split
    · rename_i hcn
      rw [hcn] at hph
      have htalk : ph.Talkative := by
        rcases hph with ⟨id, rfl⟩ | rfl <;> simp [Sending.Talkative]
      refine htalk.talks.bind (o := .uninit) trivial fun junk _ => ?_
      rw [obeys_bind]
      exact (obeys_sending_cltSendMessAck _ sender junk.user hph).mono fun _ _ _ => trivial
    · trivial
  have hclose :
      ∀ (sock : Sock) (ph : Sending) {α : Type} (p : Srv α) {Q : Sending → α → Prop},
      ph.Talkative → p.Obeys (sending sender recipient content) Q ph →
      (close sock >>= fun _ => p).Obeys (sending sender recipient content) Q ph :=
    fun sock ph _ p _ hph hp => hph.talks.bind (o := .close sock) trivial fun _ _ => hp
  have hfailed : (Sending.failed recipientEntry.user.status).Talkative := fun _ _ => by simp
  rw [auxSendFirstAck, obeys_bind, sendServerReply]
  refine obeys_perform_bind.mpr
    ⟨Or.inr (Or.inr (Or.inr (Or.inr (Or.inr ⟨code, hcode, rfl⟩)))), fun (ok : Bool) _ => ?_⟩
  show Prog.Obeys _ _ _ (Sending.afterReply id recipientEntry.user.status code ok)
  cases ok with
  | false =>
      rw [show Sending.afterReply id recipientEntry.user.status code false =
        .failed _ from if_neg (by simp)]
      apply hclose _ _ _ hfailed
      refine obeys_ret.mpr ?_
      rw [if_pos (show genErrAny < 0 by decide)]
      exact hend _ (Or.inr rfl)
  | true =>
      refine obeys_ret.mpr ?_
      rw [if_neg (show ¬ (0 : ℤ) < 0 by decide)]
      by_cases hsuccess : code = srvSuccess
      · rw [show Sending.afterReply id recipientEntry.user.status code true = .replied id _ from
          if_pos ⟨rfl, hsuccess⟩, if_pos hsuccess, obeys_bind, sendString]
        refine obeys_perform_bind.mpr ⟨rfl, fun (sent : Bool) _ => ?_⟩
        cases sent with
        | true => exact hend _ (Or.inl ⟨id, rfl⟩)
        | false => exact hclose _ _ _ hfailed (hend _ (Or.inr rfl))
      · rw [show Sending.afterReply id recipientEntry.user.status code true = .failed _ from
          if_neg fun h => hsuccess h.2, if_neg hsuccess]
        exact hend _ (Or.inr rfl)

/-- **A thread that handles `SEND` obeys the discipline.** -/
theorem obeys_sending (sender recipient content : Bytes) :
    (srvSendBody sender recipient content).Obeys (sending sender recipient content)
      (fun _ _ => True)
      .starting := by
  rw [srvSendBody]
  have hstarting : Sending.starting.Talkative := fun _ _ => by simp
  refine hstarting.talks.bind (o := .uninit) trivial fun junk _ => ?_
  rw [obeys_bind]
  refine (obeys_sending_auxSendInit junk.user).mono ?_
  rintro ph i (⟨hcode, rfl⟩ | ⟨hcode, u, ud, hentry, rfl⟩)
  · rw [if_pos hcode, obeys_bind, sendServerReply]
    refine obeys_perform_bind.mpr
      ⟨Or.inr (Or.inr (Or.inr (Or.inr ⟨i.1, hcode, rfl⟩))), fun (ok : Bool) _ => ?_⟩
    cases ok with
    | true => trivial
    | false =>
        have hended : Sending.ended.Talkative := fun _ _ => by simp
        exact hended.talks.bind (o := .close .client) trivial fun _ _ => trivial
  · rw [if_neg (not_not.mpr hcode), obeys_bind, hentry, hcode]
    refine (obeys_sending_auxSendMsgPass u ud).mono ?_
    rintro ph p ⟨good, rfl, hgood, hmsg⟩
    rw [hmsg]
    split
    · refine obeys_perform_bind.mpr
        ⟨Or.inr (Or.inr (Or.inr (Or.inr (Or.inl rfl)))), fun (w : ℤ × Entry) _ => ?_⟩
      apply obeys_sending_srvSendFinish
      rw [Bool.and_eq_true, decide_eq_true_iff, ← hgood]
      by_cases hw : w.1 < 0
      · rw [if_pos hw]
        constructor
        · exact fun h => absurd h (by decide)
        · exact fun h => absurd hw (not_lt.mpr h.2)
      · rw [if_neg hw]
        exact ⟨fun h => ⟨h, not_lt.mp hw⟩, fun h => h.1⟩
    · exact obeys_sending_srvSendFinish hgood

end Discipline

/-! ## What a thread has done -/

/-- The id that a step gives to the message. -/
def givesId : srvE.Event → Option UInt32
  | ⟨.db (.ioOpUsrEnt e .modify), x⟩ => if 0 ≤ x.1 then some e.user.lastMsgId else none
  | _ => none

/-- The id of the message: the first that is given. -/
def messageId (evs : List srvE.Event) : Option UInt32 := evs.findSome? givesId

/-- The entry that a step stores. -/
def storesEntry : srvE.Event → Option Entry
  | ⟨.db (.ioOpUsrEnt e .create), x⟩ => if 0 ≤ x.1 then some e else none
  | _ => none

/-- The message, where it was stored. -/
def storedEntry (evs : List srvE.Event) : Option Entry := evs.findSome? storesEntry

/-- The entry that a step fetches. -/
def fetchedEntry : srvE.Event → Option Entry
  | ⟨.db (.getPendMsg _), x⟩ => if x.1 = dbmsSuccess then some x.2 else none
  | _ => none

/-- How a step changes the status in the entry that the thread works with. -/
def statusNext (status : Option UInt8) : srvE.Event → Option UInt8
  | ⟨.db (.ioOpUsrEnt _ .read), x⟩ => some x.2.user.status
  | ⟨.db (.ioOpUsrEnt e .modify), _⟩ => some e.user.status
  | _ => status

/-- The status in the entry that the thread works with: that of the last one it has read or
written. -/
def lastStatus (evs : List srvE.Event) : Option UInt8 := evs.foldl statusNext none

/-- The event of a write to the client that succeeds. -/
def toldEvent (bytes : Bytes) : srvE.Event := ⟨SrvOp.write .client bytes, (true : Bool)⟩

/-- The reply that carries the id of the message has been written. -/
def Answered (evs : List srvE.Event) : Prop :=
  ∃ id, messageId evs = some id ∧ toldEvent [srvSuccess] ∈ evs ∧
    toldEvent (decimal id.toNat ++ [0]) ∈ evs

/-- Whether a step is such a write. -/
def isTold (bytes : Bytes) : srvE.Event → Bool
  | ⟨.write .client bytes', ok⟩ => bytes' = bytes && ok
  | _ => false

/-- What is told to the client, as one event. -/
theorem isTold_iff {bytes : Bytes} {ev : srvE.Event} :
    isTold bytes ev = true ↔ ev = toldEvent bytes := by
  constructor
  · intro h
    obtain ⟨o, x⟩ := ev
    cases o with
    | write sock bytes' =>
        cases sock with
        | client =>
            obtain ⟨hbytes, hx⟩ := Bool.and_eq_true_iff.mp h
            obtain rfl := of_decide_eq_true hbytes
            obtain rfl : x = true := hx
            rfl
        | listener => exact absurd h (by simp [isTold])
    | _ => exact absurd h (by simp [isTold])
  · rintro rfl
    simp [isTold, toldEvent]

/-- Whether the client has been told. -/
theorem mem_told_iff {bytes : Bytes} {evs : List srvE.Event} :
    toldEvent bytes ∈ evs ↔ evs.any (isTold bytes) = true := by
  rw [List.any_eq_true]
  constructor
  · exact fun h => ⟨_, h, isTold_iff.mpr rfl⟩
  · rintro ⟨ev, hmem, hev⟩
    rwa [← isTold_iff.mp hev]

instance (evs : List srvE.Event) : Decidable (Answered evs) :=
  decidable_of_iff (∃ id ∈ messageId evs, evs.any (isTold [srvSuccess]) = true ∧
    evs.any (isTold (decimal id.toNat ++ [0])) = true)
    (exists_congr fun _ => and_congr_right fun _ => and_congr mem_told_iff.symm mem_told_iff.symm)

/-- A second acknowledgement. -/
def isSecondAck : srvE.Event → Bool
  | ⟨.note (.cltSendMessAck _ _ _), _⟩ => true
  | _ => false

/-- A failure that the second acknowledgement does not heed: of storing the message, of
writing the reply of success or the id. -/
def spoils : srvE.Event → Bool
  | ⟨.db (.ioOpUsrEnt _ .create), x⟩ => decide (x.1 < 0)
  | ⟨.write .client [code], ok⟩ => code = srvSuccess && !ok
  | ⟨.write .client _, ok⟩ => !ok
  | _ => false

/-- There is no such failure when the recipient counts as connected. -/
def SentWell (evs : List srvE.Event) : Prop :=
  ∀ before ev after, evs = before ++ ev :: after → spoils ev = true →
    lastStatus before ≠ some statusCn

instance (evs : List srvE.Event) : Decidable (SentWell evs) :=
  decidable_of_iff _ forall_split_iff.symm

section Facts

variable {evs : List srvE.Event} {ev : srvE.Event}

/-- The id given, after one more step. -/
theorem messageId_snoc : messageId (evs ++ [ev]) = (messageId evs).or (givesId ev) := by
  rw [messageId, List.findSome?_append]
  simp [messageId]

/-- The entry stored, after one more step. -/
theorem storedEntry_snoc : storedEntry (evs ++ [ev]) = (storedEntry evs).or (storesEntry ev) := by
  rw [storedEntry, List.findSome?_append]
  simp [storedEntry]

/-- The status read last, after one more step. -/
theorem lastStatus_snoc : lastStatus (evs ++ [ev]) = statusNext (lastStatus evs) ev :=
  List.foldl_concat _ _ _ _

/-- An id that has been given stays the first one. -/
theorem messageId_append {id : UInt32} (h : messageId evs = some id) (evs' : List srvE.Event) :
    messageId (evs ++ evs') = some id := by
  rw [messageId, List.findSome?_append, ← messageId, h]
  rfl

/-- What has been answered stays so. -/
theorem Answered.append (h : Answered evs) (evs' : List srvE.Event) : Answered (evs ++ evs') := by
  obtain ⟨id, hid, hcode, htold⟩ := h
  exact ⟨id, messageId_append hid evs', List.mem_append_left _ hcode,
    List.mem_append_left _ htold⟩

end Facts
