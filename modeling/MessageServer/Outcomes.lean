/-
# The outcomes of a request

* `Act`, `acts`: the steps that a user or a sender can notice;
* `Drained`, `Connecting`, `Passing`, `Shelving`, `Finishing`: the parts of a request;
* `Served`: the outcomes of a request on the account of its user.
-/
import MessageServer.AccountCalls
import MessageServer.Handlers

/-! ## Acts -/

/-- The acts of a service thread: the contents of its locals, what it writes to the
client and to listeners, the calls that change an account with their results, and the
returns of the client-side services. -/
inductive Act
  | locals (junk : Junk)
  | replied (bytes : Bytes)
  | told (bytes : Bytes)
  | opened (ud : Userdata) (result : ℤ)
  | closed (result : ℤ)
  | wrote (ud : Userdata) (ok : Bool)
  | stored (m : Message) (ok : Bool)
  | dropped (m : Message) (ok : Bool)
  | sent (m : Message) (result : ℤ)
  | acked (id : UInt32) (result : ℤ)

/-- The act of a step, if it is one. -/
def actOf : srvE.Event → Option Act
  | ⟨.uninit, junk⟩ => some (.locals junk)
  | ⟨.write .client bytes, _⟩ => some (.replied bytes)
  | ⟨.write .listener bytes, _⟩ => some (.told bytes)
  | ⟨.db (.creatUsrTbl e), x⟩ => some (.opened e.user x)
  | ⟨.db (.delUsrTbl _), x⟩ => some (.closed x)
  | ⟨.db (.ioOpUsrEnt e .modify), x⟩ => some (.wrote e.user (decide (0 ≤ x.1)))
  | ⟨.db (.ioOpUsrEnt e .create), x⟩ => some (.stored e.msg (decide (0 ≤ x.1)))
  | ⟨.db (.ioOpUsrEnt e .delete), x⟩ => some (.dropped e.msg (decide (0 ≤ x.1)))
  | ⟨.note (.cltSendMessage _ m result), _⟩ => some (.sent m result)
  | ⟨.note (.cltSendMessAck _ id result), _⟩ => some (.acked id result)
  | _ => none

/-- The acts of a thread. -/
def acts (t : List srvE.Event) : List Act := t.filterMap actOf

section Acts

variable {t t' : List srvE.Event}

@[simp] theorem acts_nil : acts [] = [] := rfl

@[simp] theorem acts_append : acts (t ++ t') = acts t ++ acts t' := List.filterMap_append

theorem acts_cons {o : SrvOp} {x : o.Ans} {act : Act} (h : actOf ⟨o, x⟩ = some act) :
    acts (⟨o, x⟩ :: t) = act :: acts t := List.filterMap_cons_some h

theorem acts_silent (h : ∀ ev ∈ t, actOf ev = none) : acts t = [] :=
  List.filterMap_eq_nil_iff.mpr h

theorem acts_uninit (junk : Junk) : acts (⟨SrvOp.uninit, junk⟩ :: t) = .locals junk :: acts t :=
  acts_cons rfl

theorem acts_write (bytes : Bytes) (ok : Bool) :
    acts (⟨SrvOp.write .client bytes, ok⟩ :: t) = .replied bytes :: acts t := acts_cons rfl

theorem acts_userExists (v : Bytes) (x : ℤ) :
    acts (⟨SrvOp.db (.userExists v), x⟩ :: t) = acts t := rfl

theorem acts_read (e : Entry) (x : ℤ × Entry) :
    acts (⟨SrvOp.db (.ioOpUsrEnt e .read), x⟩ :: t) = acts t := rfl

theorem acts_getPendMsg (e : Entry) (x : ℤ × Entry) :
    acts (⟨SrvOp.db (.getPendMsg e), x⟩ :: t) = acts t := rfl

theorem acts_getpeername (x : Option UInt32) :
    acts (⟨SrvOp.getpeername, x⟩ :: t) = acts t := rfl

theorem acts_creatUsrTbl (e : Entry) (x : ℤ) :
    acts (⟨SrvOp.db (.creatUsrTbl e), x⟩ :: t) = .opened e.user x :: acts t := acts_cons rfl

theorem acts_delUsrTbl (v : Bytes) (x : ℤ) :
    acts (⟨SrvOp.db (.delUsrTbl v), x⟩ :: t) = .closed x :: acts t := acts_cons rfl

theorem acts_modify (e : Entry) (x : ℤ × Entry) :
    acts (⟨SrvOp.db (.ioOpUsrEnt e .modify), x⟩ :: t) =
      .wrote e.user (decide (0 ≤ x.1)) :: acts t :=
  acts_cons rfl

theorem acts_create (e : Entry) (x : ℤ × Entry) :
    acts (⟨SrvOp.db (.ioOpUsrEnt e .create), x⟩ :: t) =
      .stored e.msg (decide (0 ≤ x.1)) :: acts t :=
  acts_cons rfl

theorem acts_delete (e : Entry) (x : ℤ × Entry) :
    acts (⟨SrvOp.db (.ioOpUsrEnt e .delete), x⟩ :: t) =
      .dropped e.msg (decide (0 ≤ x.1)) :: acts t :=
  acts_cons rfl

theorem acts_cltSendMessage (e : Entry) (m : Message) (result : ℤ) (x : Unit) :
    acts (⟨SrvOp.note (.cltSendMessage e m result), x⟩ :: t) = .sent m result :: acts t :=
  acts_cons rfl

theorem acts_cltSendMessAck (e : Entry) (id : UInt32) (result : ℤ) (x : Unit) :
    acts (⟨SrvOp.note (.cltSendMessAck e id result), x⟩ :: t) = .acked id result :: acts t :=
  acts_cons rfl

/-- What is written to a listener, as acts. -/
def tolds (l : List Bytes) : List Act := l.map .told

/-- What is told to the client is all that was done. -/
theorem acts_tells {e : Entry} {l : List Bytes} (h : Tells (Contacts e) t l) :
    acts t = tolds l := by
  obtain ⟨hsteps, rfl⟩ := h
  have hact : ∀ ev ∈ t, actOf ev = (toldBy ev).map .told := by
    intro ev hev
    obtain ⟨o, x⟩ := ev
    have ho := hsteps _ hev
    cases o with
    | write sock bytes =>
        obtain rfl : sock = .listener := ho
        rfl
    | db call => exact ho.elim
    | note n => exact ho.elim
    | uninit => exact ho.elim
    | _ => rfl
  rw [acts, tolds, List.map_filterMap]
  exact List.filterMap_congr hact

/-- A close is no action. -/
theorem acts_closes (h : ∀ ev ∈ t, ev.1 = SrvOp.close .client) : acts t = [] := by
  refine acts_silent fun ev hev => ?_
  obtain ⟨o, x⟩ := ev
  obtain rfl : o = .close .client := h _ hev
  rfl

end Acts

/-! ## Outcomes -/

/-- The record of a connected user. -/
def Userdata.connected (ud : Userdata) (ip : UInt32) (port : ℤ) : Userdata :=
  { ud with status := statusCn, port := (port % 65536).toNat.toUInt16, ip := ip }

/-- The record of a user who counts as disconnected because a message did not get through. -/
def Userdata.lost (ud : Userdata) : Userdata := { ud with status := statusDcn }

/-- The record of a user who has disconnected. -/
def Userdata.left (ud : Userdata) : Userdata := { ud with status := statusDcn, ip := 0, port := 0 }

namespace Account

/-- The account with another record. -/
def write (a : Account) (ud : Userdata) : Account := { a with record := some ud }

/-- `db_get_pend_msg` may come up with message `m`. -/
def Offers (a : Account) (m : Message) : Prop := a.pending m.id = some m ∨ a.stray = true

/-- No message waits. -/
def Idle (a : Account) : Prop := a.stray = false → ∀ id, a.pending id = none

end Account

/-- A message on its way to a listener. -/
def Message.wire (m : Message) : List Bytes := (CltRequest.mk opSendMessage m).messageWire

/-- The acknowledgement of a message on its way to a listener. -/
def ackWire (id : UInt32) : List Bytes := (CltRequest.mk opSendMessAck ⟨[], id, []⟩).ackWire

/-- The drain of the messages that wait. -/
inductive Drained : Account → List Act → Account → Prop
  | stop {a : Account} (hidle : a.Idle) : Drained a [] a
  | sent {a a' : Account} {l : List Act} (m : Message) (ok : Bool) (ack : List Bytes) (result : ℤ)
      (hm : a.Offers m) (hok : ok = false → a.pending m.id = none)
      (hack : ack = [] ∨ ack = ackWire m.id)
      (h : Drained (a.drop m.id) l a') :
      Drained a
      (tolds m.wire ++ .sent m 0 :: .dropped m ok :: (tolds ack ++ .acked m.id result :: l)) a'
  | failed {a : Account} {ud : Userdata} (m : Message) (wire : List Bytes) (result : ℤ)
      (hm : a.Offers m)
      (hwire : wire <+: m.wire) (hresult : result ≠ 0) (hud : a.record = some ud) :
      Drained a (tolds wire ++ [.sent m result, .wrote ud.lost true]) (a.write ud.lost)

/-- The part of `CONNECT` that decides the reply. -/
inductive Connecting (port : Bytes) (a : Account) : List Act → Account → Prop
  | unknown (code : UInt8) (hnone : a.record = none) (hcode : code ≠ srvSuccess) :
      Connecting port a [.replied [code]] a
  | refused (ud : Userdata) (code : UInt8) (hud : a.record = some ud)
      (hcode : code ≠ srvSuccess) :
      Connecting port a [.replied [code]] a
  | accepted (ud : Userdata) (ip : UInt32) (p : ℤ) (hud : a.record = some ud)
      (hstatus : ud.status ≠ statusCn) (hport : strToNum port .int = .ok p) :
      Connecting port a [.wrote (ud.connected ip p) true, .replied [srvSuccess]]
        (a.write (ud.connected ip p))

/-- The part of `CONNECT` that sends the messages that wait. -/
inductive Draining (a : Account) : List Act → Account → Prop
  | unknown (junk : Junk) (hnone : a.record = none) : Draining a [.locals junk] a
  | known (junk : Junk) {l : List Act} {a' : Account} (hsome : a.record ≠ none)
      (h : Drained a l a') :
      Draining a (.locals junk :: l) a'

/-- The part of `SEND` that passes message `m` on to a recipient with record `ud`: the
record afterwards. -/
inductive Passing (a : Account) (ud : Userdata) (m : Message) :
    List Act → Userdata → Account → Prop
  | idle (hstatus : ud.status ≠ statusCn) : Passing a ud m [] ud a
  | sent (hstatus : ud.status = statusCn) : Passing a ud m (tolds m.wire ++ [.sent m 0]) ud a
  | failed (wire : List Bytes) (result : ℤ) (hstatus : ud.status = statusCn)
      (hwire : wire <+: m.wire)
      (hresult : result ≠ 0) :
      Passing a ud m (tolds wire ++ [.sent m result, .wrote ud.lost true]) ud.lost (a.write ud.lost)

/-- The part of `SEND` that stores the message: the reply code afterwards.  `byte` is the
reply code that nothing assigns. -/
inductive Shelving (a : Account) (ud : Userdata) (m : Message) (byte : UInt8) :
    List Act → UInt8 → Account → Prop
  | skipped (hstatus : ud.status ≠ statusDcn) (hbyte : byte = srvSuccess) :
      Shelving a ud m byte [] srvSuccess a
  | stored (h : ud.status = statusDcn ∨ byte ≠ srvSuccess) (hfree : a.pending m.id = none) :
      Shelving a ud m byte [.stored m true] srvSuccess (a.store m)
  | taken (h : ud.status = statusDcn ∨ byte ≠ srvSuccess) (htaken : a.pending m.id ≠ none) :
      Shelving a ud m byte [.stored m false] srvErrSendAny a

/-- The end of `SEND`: the reply, and the second acknowledgement. -/
inductive Finishing (ud : Userdata) (id : UInt32) (code : UInt8) : List Act → Prop
  | bare (l : List Act)
      (hl : ∀ act ∈ l, code = srvSuccess ∧ act = .replied (decimal id.toNat ++ [0]))
      (hstatus : ud.status ≠ statusCn) : Finishing ud id code (.replied [code] :: l)
  | acked (l : List Act)
      (hl : ∀ act ∈ l, code = srvSuccess ∧ act = .replied (decimal id.toNat ++ [0]))
      (junk : Junk) (ack : List Bytes) (result : ℤ) (hstatus : ud.status = statusCn)
      (hack : ack = [] ∨ ack = ackWire ud.lastMsgId) :
      Finishing ud id code
        (.replied [code] :: (l ++ .locals junk :: (tolds ack ++ [.acked ud.lastMsgId result])))

/-- What a request of user `u` does to the account of `u`. -/
inductive Served (u : Bytes) (a : Account) : Req → List Act → Account → Prop
  | registered (junk : Junk) (hnone : a.record = none) :
      Served u a (.register u) [.locals junk, .opened { junk.user with lastMsgId := 0 } dbmsSuccess,
        .replied [srvSuccess]] (.new { junk.user with lastMsgId := 0 })
  | unregisterable (junk : Junk) (hnone : a.record = none) :
      Served u a (.register u) [.locals junk, .opened { junk.user with lastMsgId := 0 } dbmsErrAny,
        .replied [srvSuccess]] a
  | alreadyRegistered (junk : Junk) (hsome : a.record ≠ none) :
      Served u a (.register u)
      [.locals junk, .opened { junk.user with lastMsgId := 0 } dbmsErrExists,
        .replied [srvErrRegUsrAlreadyReg]] a
  | unregistered (result : ℤ) (hresult : 0 ≤ result) (hsome : a.record ≠ none) :
      Served u a (.unregister u) [.closed result, .replied [srvSuccess]] .empty
  | notRegistered (code : UInt8) (hcode : code ≠ srvSuccess) (hnone : a.record = none) :
      Served u a (.unregister u) [.replied [code]] a
  | connected {port : Bytes} {l l' : List Act} {a₁ a' : Account} (junk : Junk)
      (h : Connecting port a l a₁) (h' : Draining a₁ l' a') :
      Served u a (.connect u port) (.locals junk :: (l ++ l')) a'
  | disconnected (junk : Junk) (ud : Userdata) (hud : a.record = some ud)
      (hstatus : ud.status ≠ statusDcn) :
      Served u a (.disconnect u) [.locals junk, .wrote ud.left true, .replied [srvSuccess]]
        (a.write ud.left)
  | notConnected (junk : Junk) (code : UInt8) (hcode : code ≠ srvSuccess)
      (h : ∀ ud, a.record = some ud → ud.status = statusDcn) :
      Served u a (.disconnect u) [.locals junk, .replied [code]] a
  | rejected {s c : Bytes} (junk : Junk) (code : UInt8) (hcode : code ≠ srvSuccess) :
      Served u a (.send s u c) [.locals junk, .replied [code]] a
  | accepted {s c : Bytes} (junk : Junk) (ud ud' : Userdata) (code : UInt8) {l l' l'' : List Act}
      {a₁ a' : Account} (hud : a.record = some ud)
      (h : Passing (a.write ud.next) ud.next ⟨s, ud.next.lastMsgId, c⟩ l ud' a₁)
      (h' : Shelving a₁ ud' ⟨s, ud.next.lastMsgId, c⟩ junk.byte l' code a')
      (h'' : Finishing ud' ud.next.lastMsgId code l'') :
      Served u a (.send s u c) (.locals junk :: .wrote ud.next true :: (l ++ (l' ++ l''))) a'
