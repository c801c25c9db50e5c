/-
# The steps of a drain

Any number of service threads handle `CONNECT` for one user, each library call and each
transmission an atomic step.  A drain fetches a message, sends it, deletes it and then
acknowledges it, in separate steps.

* `Drain`, `draining`: where a thread is with a message, as a discipline;
* `ConfinedStep`: what one step does to the messages of the user;
* `sends`, `acks`: how often a message has been sent and acknowledged;
* `DrainsApart`: no thread fetches a message that another thread has fetched and not yet
  deleted.
-/
import MessageServer.Footprint
import MessageServer.Sessions

/-! ## The phases of a drain -/

/-- Where a thread is: with no message; behind fetching a message, sending it, deleting it;
behind a message that did not get through. -/
inductive Drain
  | idle
  | held (id : UInt32)
  | sent (id : UInt32)
  | dropped (id : UInt32)
  | ended

/-- The message that the thread is with. -/
def Drain.msg : Drain → Option UInt32
  | .held id => some id
  | .sent id => some id
  | .dropped id => some id
  | _ => none

/-- The steps that have nothing to do with messages. -/
def Plain : SrvOp → Prop
  | .db (.ioOpUsrEnt _ .read) => True
  | .db (.ioOpUsrEnt _ .modify) => True
  | .db _ => False
  | .note _ => False
  | _ => True

/-- The discipline of a thread that drains. -/
def draining : Discipline srvE Drain where
  allowed
    | .idle, o => Plain o ∨ ∃ e, o = .db (.getPendMsg e)
    | .held id, o =>
        Plain o ∨ ∃ e m result, o = .note (.cltSendMessage e m result) ∧ m.id = id
    | .sent id, o => ∃ e, o = .db (.ioOpUsrEnt e .delete) ∧ e.msg.id = id
    | .dropped id, o => Plain o ∨ ∃ e result, o = .note (.cltSendMessAck e id result)
    | .ended, o => Plain o
  possible _ _ _ := True
  next
    | .idle, .db (.getPendMsg _), x => if x.1 = dbmsSuccess then .held x.2.msg.id else .idle
    | .held id, .note (.cltSendMessage _ _ result), _ => if result = 0 then .sent id else .ended
    | .sent id, .db (.ioOpUsrEnt _ .delete), _ => .dropped id
    | .dropped _, .note (.cltSendMessAck _ _ _), _ => .idle
    | ph, _, _ => ph

/-- A phase in which a thread may do what has nothing to do with messages. -/
def Drain.Free (ph : Drain) : Prop := ∀ id, ph ≠ .sent id

/-! ## `CONNECT` obeys its discipline -/

section Discipline

variable {ph : Drain}

/-- A thread that holds no message may take plain steps. -/
theorem Drain.Free.plain (hph : ph.Free) : draining.Stays Plain ph := by
  intro o ho
  constructor
  · cases ph with
    | sent id => exact absurd rfl (hph id)
    | ended => exact ho
    | _ => exact Or.inl ho
  · intro x
    cases o with
    | db call =>
        cases call with
        | ioOpUsrEnt e mode =>
            cases mode with
            | read => cases ph <;> rfl
            | modify => cases ph <;> rfl
            | _ => exact ho.elim
        | _ => exact ho.elim
    | note n => exact ho.elim
    | _ => cases ph <;> rfl

/-- A socket call is a plain step. -/
theorem OnSock.plain {sock : Sock} (o : SrvOp) (h : OnSock sock o) : Plain o := by
  cases o with
  | write _ _ => trivial
  | close _ => trivial
  | _ => exact h.elim

/-- Sending the message that is held. -/
theorem obeys_draining_cltSendMessage (request : CltRequest) (e : Entry) :
    (cltSendMessage request e).Obeys draining
      (fun ph r => ph = if r.1 = 0 then .sent request.message.id else .ended)
        (.held request.message.id) := by
  have hfree : (Drain.held request.message.id).Free := fun _ => by simp
  rw [cltSendMessage, obeys_bind]
  refine obeys_of_performs hfree.plain (performs_auxConnect trivial trivial fun _ _ => trivial)
    fun r => ?_
  rw [obeys_bind]
  refine obeys_of_performs hfree.plain
    ((onSock_ifConnected (onSock_cltSendMessageStrings _)).mono OnSock.plain)
    fun result => ?_
  exact obeys_perform_bind.mpr ⟨Or.inr ⟨_, _, _, rfl, rfl⟩, fun _ _ => rfl⟩

/-- Acknowledging the message that is deleted. -/
theorem obeys_draining_cltSendMessAck (request : CltRequest) (e : Entry) :
    (cltSendMessAck request e).Obeys draining (fun ph _ => ph = .idle)
      (.dropped request.message.id) := by
  have hfree : (Drain.dropped request.message.id).Free := fun _ => by simp
  rw [cltSendMessAck, obeys_bind]
  refine obeys_of_performs hfree.plain (performs_auxConnect trivial trivial fun _ _ => trivial)
    fun r => ?_
  rw [obeys_bind]
  refine obeys_of_performs hfree.plain
    ((onSock_ifConnected (onSock_cltSendMessAckStrings _)).mono OnSock.plain)
    fun result => ?_
  exact obeys_perform_bind.mpr ⟨Or.inr ⟨_, _, rfl⟩, fun _ _ => rfl⟩

/-- The drain, by induction on its rounds. -/
theorem obeys_draining_drainLoop (fuel : ℕ) (pendMsgEntry recipientEntry senderEntry : Entry) :
    (drainLoop fuel pendMsgEntry recipientEntry senderEntry).Obeys draining
      (fun _ _ => True) .idle := by
  induction fuel generalizing pendMsgEntry recipientEntry senderEntry with
  | zero => trivial
  | succ fuel ih =>
      rw [drainLoop]
      refine obeys_perform_bind.mpr ⟨Or.inr ⟨_, rfl⟩, fun (g : ℤ × Entry) _ => ?_⟩
      show Prog.Obeys _ _ _ (if g.1 = dbmsSuccess then _ else _)
      split
      · rw [obeys_bind]
        refine (obeys_draining_cltSendMessage _ recipientEntry).mono ?_
        rintro ph r rfl
        split
        · -- deleted, then acknowledged
          refine obeys_perform_bind.mpr ⟨⟨_, rfl, rfl⟩, fun _ _ => ?_⟩
          rw [obeys_bind]
          refine (obeys_draining_cltSendMessAck ⟨opSendMessAck, g.2.msg⟩ _).mono ?_
          rintro ph a rfl
          exact ih _ _ _
        · have hended : Drain.ended.Free := fun _ => by simp
          exact hended.plain.bind (o := .db (.ioOpUsrEnt _ .modify)) trivial fun _ _ => trivial
      · trivial

/-- The drain keeps to its discipline. -/
theorem obeys_draining_auxConnectSendPendMsgs (fuel : ℕ) (e : Entry) :
    (auxConnectSendPendMsgs fuel e).Obeys draining (fun _ _ => True) .idle := by
  have hfree : Drain.idle.Free := fun _ => by simp
  rw [auxConnectSendPendMsgs]
  refine hfree.plain.bind (o := .uninit) trivial fun junk _ => ?_
  refine hfree.plain.bind (o := .db (.ioOpUsrEnt ⟨e.username, .user junk.user⟩ .read))
    trivial fun r _ => ?_
  split
  · trivial
  · exact obeys_draining_drainLoop _ _ _ _

/-- The reply of `CONNECT` is plain. -/
theorem plain_srvConnectReply (port : Bytes) (reply : UInt8) (ioResult : ℤ) (e : Entry) :
    (srvConnectReply port reply ioResult e).Performs Plain := by
  unfold srvConnectReply
  split
  · trivial
  split
  · trivial
  split
  · trivial
  refine Prog.performs_perform_bind.mpr ⟨trivial, fun peer => ?_⟩
  -- whatever the reply code is by now
  generalize (if peer.isNone then srvErrCnAny
    else if (strToNum port .int).toOption.isNone then srvErrCnAny else reply) = code
  simp only
  split
  · exact Prog.performs_perform_bind.mpr ⟨trivial, fun w => trivial⟩
  · trivial

/-- **A thread that handles `CONNECT` obeys the discipline.** -/
theorem obeys_draining (fuel : ℕ) (u port : Bytes) :
    (srvConnectBody fuel u port).Obeys draining (fun _ _ => True) .idle := by
  have hfree : Drain.idle.Free := fun _ => by simp
  rw [srvConnectBody]
  refine hfree.plain.bind (o := .uninit) trivial fun junk _ => ?_
  refine hfree.plain.bind (o := .db (.ioOpUsrEnt ⟨u, .user junk.user⟩ .read)) trivial fun r _ =>
    ?_
  rw [obeys_bind]
  refine obeys_of_performs hfree.plain (plain_srvConnectReply _ _ _ _) fun code => ?_
  rw [obeys_bind]
  refine obeys_of_performs hfree.plain ((onSock_sendServerReply code).mono OnSock.plain) fun _ => ?_
  rw [obeys_bind]
  exact (obeys_draining_auxConnectSendPendMsgs fuel _).mono fun _ _ _ => trivial

end Discipline

/-! ## What a step does to the messages -/

/-- One step of a thread that works for table `L`, on a database as the server keeps it. -/
structure ConfinedStep (cwd L : Location) (fs : FS) (o : SrvOp) (x : o.Ans) (fs' : FS) : Prop where
  step : SharedStep fs o x fs'
  schema : Schema fs
  labelled : Labelled fs
  root : fs.cwd = cwd
  allowed : (tableNames cwd L).Allowed o

/-- Every name in the directory of messages that is read as a number is the one of a message
with this id. -/
def FS.Numbered (fs : FS) (L : Location) : Prop :=
  ∀ name n, fs.get (L ++ [pendMsgsTable] ++ [name]) = some n →
    ∀ id, strToNum name .uint = .ok id → ∃ id' : UInt32, name = decimal id'.toNat

/-- **An interleaving of threads that work for one table.** -/
theorem interleave_confined {ι α : Type} [DecidableEq ι] {fs fs' : FS} {L : Location}
    {ps ps' : ι → Srv α}
    {t : List (ι × srvE.Event)} (hs : Schema fs) (hl : Labelled fs)
    (hps : ∀ i, (ps i).Obeys (confined (tableNames fs.cwd L)) (fun _ _ => True) ())
    (h : Interleave SharedStep fs ps t fs' ps') :
    Interleave (ConfinedStep fs.cwd L) fs ps t fs' ps' := by
  have hmatch : ∀ (_ : ι) s s₂ (ph : Unit) o x s', (s₂ = s ∧ Schema s ∧ Labelled s ∧
      s.cwd = fs.cwd) →
      (confined (tableNames fs.cwd L)).allowed ph o → SharedStep s o x s' →
      (confined (tableNames fs.cwd L)).possible ph o x ∧
        ∃ s₂', ConfinedStep fs.cwd L s₂ o x s₂' ∧ s₂' = s' ∧ Schema s' ∧
          Labelled s' ∧ s'.cwd = fs.cwd := by
    rintro - s _ ⟨⟩ o x s' ⟨rfl, hs, hl, hcwd⟩ hallowed hstep
    have hconfined : ConfinedStep fs.cwd L _ o x s' := ⟨hstep, hs, hl, hcwd, hallowed⟩
    cases o with
    | db call =>
        rw [← hcwd] at hallowed
        obtain ⟨htouch, hposs⟩ := dbStep_confined hs hallowed hstep
        rw [hcwd] at hposs
        exact ⟨hposs, s', hconfined, rfl, htouch.schema, hl.call hs hallowed hstep,
          htouch.cwd.trans hcwd⟩
    | _ =>
        obtain rfl : s' = _ := hstep
        exact ⟨trivial, _, hconfined, rfl, hs, hl, hcwd⟩
  obtain ⟨s, hrun, rfl, -⟩ := h.simulate hmatch hps ⟨rfl, hs, hl, rfl⟩
  exact hrun

namespace ConfinedStep

variable {cwd L : Location} {fs fs' : FS}

/-- `MODIFY` makes nothing new. -/
theorem modify {e : Entry} {x : ℤ × Entry}
    (h : ConfinedStep cwd L fs (.db (.ioOpUsrEnt e .modify)) x fs')
    {q : Location} (hq : fs.get q = none) : fs'.get q = none := by
  obtain ⟨u, ud, rfl, -, -⟩ := h.allowed
  obtain ⟨t, hexec, -⟩ := h.step
  have hput : ∀ p c, fs.Writable .modify p → (fs.put p (.file c)).get q = none := by
    intro p c hfree
    obtain ⟨old, hold⟩ : ∃ c, fs.get p = some (.file c) := hfree
    rw [FS.get_put_of_ne, hq]
    rintro rfl
    rw [hq] at hold
    exact absurd hold (by simp)
  cases exec_ioOp_write (typed_user u ud) (Or.inr rfl) hexec with
  | refused code hcode hfree => exact hq
  | written p hloc hfree => exact hput p _ hfree
  | torn p k hloc hfree hfault => exact hput p _ hfree

/-- What a thread that drains makes of a place where nothing is. -/
theorem shrinks {o : SrvOp} {x : o.Ans} (h : ConfinedStep cwd L fs o x fs')
    (ho : Plain o ∨ (∃ e, o = .db (.getPendMsg e)) ∨
        (∃ e, o = .db (.ioOpUsrEnt e .delete)) ∨ ∃ n, o = .note n)
    {q : Location} (hq : fs.get q = none) : fs'.get q = none := by
  have hsame : fs' = fs → fs'.get q = none := by
    rintro rfl
    exact hq
  rcases ho with ho | ⟨e, rfl⟩ | ⟨e, rfl⟩ | ⟨n, rfl⟩
  · cases o with
    | db call =>
        cases call with
        | ioOpUsrEnt e mode =>
            cases mode with
            | read =>
                obtain ⟨t, hexec, -⟩ := h.step
                exact hsame (exec_ioOp_read_frame hexec)
            | modify => exact h.modify hq
            | _ => exact ho.elim
        | _ => exact ho.elim
    | note n => exact ho.elim
    | _ => exact hsame h.step
  · obtain ⟨u, m, rfl, -⟩ := h.allowed
    obtain ⟨t, hexec, -⟩ := h.step
    exact hsame (exec_getPendMsg h.schema.tree hexec).1
  · obtain ⟨u, m, rfl, -⟩ := h.allowed
    obtain ⟨t, hexec, -⟩ := h.step
    obtain ⟨-, herased, -⟩ := exec_ioOp_delete h.schema.tree (typed_msg u m) hexec
    rcases herased.frame q with heq | ⟨names, -, hnone, -⟩
    · rw [heq, hq]
    · exact hnone
  · exact hsame h.step

/-- The message that is fetched is there. -/
theorem fetch {e : Entry} {x : ℤ × Entry} (h : ConfinedStep cwd L fs (.db (.getPendMsg e)) x fs')
    (hnum : fs.Numbered L) (hx : x.1 = dbmsSuccess) :
    fs.get (msgFile L x.2.msg.id.toNat) ≠ none := by
  obtain ⟨u, m, rfl, hu⟩ := h.allowed
  obtain ⟨t, hexec, hun⟩ := h.step
  obtain ⟨-, hpend⟩ := exec_getPendMsg h.schema.tree hexec
  cases hpend with
  | nothing code hcode =>
      rw [show code = dbmsSuccess from hx] at hcode
      exact absurd hcode (by decide)
  | found p hp d hd id hid r hread =>
      obtain ⟨L', hL', rfl⟩ := locate_pendTablePath.mp hp.1
      obtain rfl := hL'.nameOf h.root hu
      obtain ⟨n, hn, -⟩ := FS.mem_children.mp hd
      obtain ⟨id', hname⟩ := hnum _ _ hn _ hid
      rw [hname, strToNum_decimal] at hid
      obtain rfl : (id'.toNat : ℤ) = id := Except.ok.inj hid
      rw [hname, ← msgFile_eq] at hn
      -- what was read has the id that was asked for
      have hmsg : r.2.msg.id = id' := by
        have hasked : ((id'.toNat : ℤ).toNat).toUInt32 = id' := by simp
        rcases hread.code with hok | hneg
        · obtain ⟨hne, hr⟩ := hread.success hok
          rw [hasked] at hne hr
          obtain ⟨q, hq, hget⟩ := FS.exists_fileAt hne
          obtain ⟨L'', hL'', -, -, rfl⟩ := locate_pendMsgPath.mp hq
          obtain ⟨v, m', hc, hfits, hid'⟩ := (h.labelled L'' id' _ hget).resolve_left hne
          rw [hc, overlay_image hfits] at hr
          rw [hr]
          exact hid'
        · rw [hread.ofUntorn hun hneg, hasked]
          rfl
      rw [hmsg, hn]
      simp

/-- A message that is deleted is gone. -/
theorem drop {e : Entry} {x : ℤ × Entry}
    (h : ConfinedStep cwd L fs (.db (.ioOpUsrEnt e .delete)) x fs')
    (hx : 0 ≤ x.1) : fs'.get (msgFile L e.msg.id.toNat) = none := by
  obtain ⟨u, m, rfl, hu⟩ := h.allowed
  obtain ⟨t, hexec, -⟩ := h.step
  have hlex : lexical fs.cwd (entryPath ⟨u, .msg m⟩) = msgFile L m.id.toNat := by
    show lexical fs.cwd (pendMsgPath u m.id) = _
    rw [lexical_pendMsgPath, h.root, hu.2]
  rw [DbCall.prog, dbIoOpUsrEnt_delete (typed_msg u m)] at hexec
  obtain ⟨t₁, r, fs₁, t₂, h₁, h₂, rfl⟩ := exec_bind_iff.mp hexec
  obtain ⟨-, hx', rfl⟩ := exec_ret_iff.mp h₂
  obtain ⟨-, -, hres⟩ := exec_removeRecursive _ _ _ _ _ _ h.schema.tree h₁
  rw [hlex] at hres
  have hr : 0 ≤ r.1 := by
    by_contra hneg
    rw [hx'] at hx
    simp only [if_pos (not_le.mp hneg)] at hx
    exact hneg hx
  exact (hres hr).2.1

end ConfinedStep

/-! ## What has been transmitted -/

/-- A `SEND_MESSAGE` with this id. -/
def isSend (n : UInt32) : srvE.Event → Bool
  | ⟨.note (.cltSendMessage _ m _), _⟩ => m.id = n
  | _ => false

/-- A `SEND_MESS_ACK` with this id. -/
def isAck (n : UInt32) : srvE.Event → Bool
  | ⟨.note (.cltSendMessAck _ id _), _⟩ => id = n
  | _ => false

section History

variable {ι : Type}

/-- How often a message was sent. -/
def sends (n : UInt32) (t : List (ι × srvE.Event)) : ℕ := t.countP fun ev => isSend n ev.2

/-- How often a message was acknowledged. -/
def acks (n : UInt32) (t : List (ι × srvE.Event)) : ℕ := t.countP fun ev => isAck n ev.2

/-- Every deletion and every sending of a message succeeds. -/
def Succeeds (t : List (ι × srvE.Event)) : Prop :=
  (∀ i e (x : ℤ × Entry), (i, (⟨.db (.ioOpUsrEnt e .delete), x⟩ : srvE.Event)) ∈ t →
    0 ≤ x.1) ∧
    ∀ i e m result, (i, (⟨.note (.cltSendMessage e m result), ()⟩ : srvE.Event)) ∈ t →
      result = 0

/-- The message that a step fetches. -/
def fetched : srvE.Event → Option UInt32
  | ⟨.db (.getPendMsg _), x⟩ => if x.1 = dbmsSuccess then some x.2.msg.id else none
  | _ => none

/-- How a step changes which message a thread has fetched and not yet deleted. -/
def holdsNext (h : Option UInt32) : srvE.Event → Option UInt32
  | ⟨.db (.getPendMsg _), x⟩ => if x.1 = dbmsSuccess then some x.2.msg.id else none
  | ⟨.db (.ioOpUsrEnt _ .delete), _⟩ => none
  | _ => h

variable [DecidableEq ι]

/-- The message that thread `i` has fetched and not yet deleted. -/
def holding (i : ι) (t : List (ι × srvE.Event)) : Option UInt32 :=
  (threadEvents i t).foldl holdsNext none

/-- No thread fetches a message that another thread has fetched and not yet deleted. -/
def DrainsApart (t : List (ι × srvE.Event)) : Prop :=
  ∀ before i ev after id, t = before ++ (i, ev) :: after → fetched ev = some id →
    ∀ j, j ≠ i → holding j before ≠ some id

variable {n : UInt32} {t : List (ι × srvE.Event)} {i j : ι} {ev : srvE.Event}

omit [DecidableEq ι] in

/-- The transmissions of one more step. -/
theorem sends_snoc : sends n (t ++ [(i, ev)]) = sends n t + if isSend n ev then 1 else 0 := by
  rw [sends, List.countP_append, List.countP_singleton]
  rfl

omit [DecidableEq ι] in

/-- The acknowledgements of one more step. -/
theorem acks_snoc : acks n (t ++ [(i, ev)]) = acks n t + if isAck n ev then 1 else 0 := by
  rw [acks, List.countP_append, List.countP_singleton]
  rfl

omit [DecidableEq ι] in

/-- What succeeds has succeeded from the beginning. -/
theorem Succeeds.of_append {t' : List (ι × srvE.Event)} (h : Succeeds (t ++ t')) : Succeeds t :=
  ⟨fun i e x hmem => h.1 i e x (List.mem_append_left _ hmem),
    fun i e m result hmem => h.2 i e m result (List.mem_append_left _ hmem)⟩

/-- Drains that are apart have been apart from the beginning. -/
theorem DrainsApart.of_append {t' : List (ι × srvE.Event)} (h : DrainsApart (t ++ t')) :
    DrainsApart t := by
  intro before i ev after id heq
  apply h before i ev (after ++ t')
  rw [heq, List.append_assoc]
  rfl

/-- Whether a step fetches a message that another thread holds. -/
def fetchesHeld [Fintype ι] (before : List (ι × srvE.Event)) (e : ι × srvE.Event) : Bool :=
  (fetched e.2).any fun id => decide (∃ j, j ≠ e.1 ∧ holding j before = some id)

/-- The condition on the runs, step by step. -/
theorem drainsApart_iff [Fintype ι] :
    DrainsApart t ↔ ∀ k, ∀ hk : k < t.length, fetchesHeld (t.take k) t[k] = false := by
  rw [← forall_split_iff (P := fun before e => fetchesHeld before e = false)]
  have hheld : ∀ (before : List (ι × srvE.Event)) e, fetchesHeld before e = false ↔
      ∀ id, fetched e.2 = some id → ∀ j, j ≠ e.1 → holding j before ≠ some id := by
    intro before e
    rw [fetchesHeld]
    cases fetched e.2 with
    | none => simp
    | some id => simp
  constructor
  · exact fun h before e after heq => (hheld before e).mpr fun id => h before e.1 e.2 after id heq
  · exact fun h before i ev after id heq =>
      (hheld before (i, ev)).mp (h before (i, ev) after heq) id

instance [Fintype ι] (t : List (ι × srvE.Event)) : Decidable (DrainsApart t) :=
  decidable_of_iff _ drainsApart_iff.symm

/-- What a thread holds behind a step of its own. -/
theorem holding_self : holding i (t ++ [(i, ev)]) = holdsNext (holding i t) ev := by
  rw [holding, threadEvents_snoc_self]
  exact List.foldl_concat _ _ _ _

/-- A step of another thread changes nothing about it. -/
theorem holding_of_ne (h : j ≠ i) : holding i (t ++ [(j, ev)]) = holding i t := by
  rw [holding, threadEvents_snoc_of_ne h]
  rfl

end History
