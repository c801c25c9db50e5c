/-
# The two sockets of a service thread

A service thread has the connection it serves, and now and then one to a listening thread.

* `ClientPhase`, `ListenPhase`, `SockPhase`: how far a thread has come with its two sockets;
* `sockets`: what a thread may do with them, as a discipline;
* `obeys_sendString`, `obeys_recvString`: the functions of `netUtil.c` keep to it.
-/
import MessageServer.RequestWire
import MessageServer.Confine

/-! ## Phases -/

/-- The connection that is served: open, to be closed after a failure, closed. -/
inductive ClientPhase
  | opened
  | failed
  | closed
  deriving DecidableEq

/-- The connection to a listening thread. -/
inductive ListenPhase
  | idle
  /-- A socket that has not been connected. -/
  | fresh
  /-- Connected, and nothing has been written. -/
  | ready
  /-- Something of a message has been written. -/
  | message
  /-- The operation code of an acknowledgement has been written. -/
  | ackBegun
  | ackDone
  /-- A write has failed, in an acknowledgement or in a message. -/
  | failed (ack : Bool)
  /-- The socket has been closed in the middle of an acknowledgement. -/
  | stale
  /-- Such a socket has been used again. -/
  | astray
  deriving DecidableEq

/-- The socket that an operation is on. -/
def SrvOp.uses : SrvOp → Option Sock
  | .recv _ => some .client
  | .getpeername => some .client
  | .connect _ _ => some .listener
  | .write sock _ => some sock
  | .close sock => some sock
  | _ => none

/-- Whether a step closes a socket. -/
def SrvOp.isClose : SrvOp → Bool
  | .close _ => true
  | _ => false

/-- `SEND_MESS_ACK` as it is written. -/
def ackCode : Bytes := opSendMessAck ++ [0]

/-- What may be done with the client's socket. -/
def ClientPhase.allows : ClientPhase → SrvOp → Prop
  | .opened, o => o ≠ .close .client
  | .failed, o => o = .close .client
  | .closed, o => o.uses ≠ some .client

/-- How far it has come then. -/
def ClientPhase.next (c : ClientPhase) : srvE.Event → ClientPhase
  | ⟨.recv _, r⟩ => if r.1 < 0 then .failed else c
  | ⟨.write .client _, ok⟩ => bif ok then c else .failed
  | ⟨.close .client, _⟩ => .closed
  | _ => c

/-- What may be done with the socket of a listening thread. -/
def ListenPhase.allows : ListenPhase → SrvOp → Prop
  | .idle, o => o.uses ≠ some .listener
  | .fresh, o => ∃ ip port, o = .connect ip port
  | .ready, o => ∃ bytes, o = .write .listener bytes
  | .message, o => (∃ bytes, o = .write .listener bytes) ∨ o = .close .listener
  | .ackBegun, o => ∃ bytes, o = .write .listener bytes
  | .ackDone, o => o = .close .listener
  | .failed _, o => o = .close .listener
  | .stale, o => (∃ bytes, o = .write .listener bytes) ∨ o = .close .listener
  | .astray, _ => True

/-- How far that has come then. -/
def ListenPhase.next : ListenPhase → srvE.Event → ListenPhase
  | .idle, ⟨.socket, ok⟩ => bif ok then .fresh else .idle
  | .fresh, ⟨.connect _ _, ok⟩ => bif ok then .ready else .idle
  | .ready, ⟨.write .listener bytes, ok⟩ =>
      if bytes = ackCode then bif ok then .ackBegun else .failed true
      else bif ok then .message else .failed false
  | .message, ⟨.write .listener _, ok⟩ => bif ok then .message else .failed false
  | .message, ⟨.close .listener, _⟩ => .idle
  | .ackBegun, ⟨.write .listener _, ok⟩ => bif ok then .ackDone else .failed true
  | .ackDone, ⟨.close .listener, _⟩ => .idle
  | .failed ack, ⟨.close .listener, _⟩ => bif ack then .stale else .idle
  | .stale, ⟨.write .listener _, _⟩ => .astray
  | .stale, ⟨.close .listener, _⟩ => .astray
  | l, _ => l

/-- The phases of both sockets. -/
abbrev SockPhase : Type := ClientPhase × ListenPhase

/-- **The sockets of a thread.** -/
def sockets : Discipline srvE SockPhase where
  allowed ph o := ph.1.allows o ∧ ph.2.allows o
  possible _ _ _ := True
  next ph o x := (ph.1.next ⟨o, x⟩, ph.2.next ⟨o, x⟩)

/-- Nothing is to be closed after a failure, and no session with a listening thread is under way. -/
def AtRest (c : ClientPhase) (ph : SockPhase) : Prop :=
  ph.1 = c ∧ (ph.2 = .idle ∨ ph.2 = .astray)

/-- Nothing is done with the client's socket. -/
def OffClient (o : SrvOp) : Prop := o.uses ≠ some .client

/-! ## The service thread keeps to it -/

section Discipline

variable {c : ClientPhase} {ph : SockPhase} {α : Type}

/-- What is not on the client's socket is allowed while that has not failed. -/
theorem allows_offClient (hc : c ≠ .failed) {o : SrvOp} (ho : OffClient o) : c.allows o := by
  cases c with
  | opened =>
      rintro rfl
      exact ho rfl
  | failed => exact absurd rfl hc
  | closed => exact ho

/-- What is not on the client's socket does not move it. -/
theorem next_offClient {o : SrvOp} (ho : OffClient o) (x : o.Ans) : c.next ⟨o, x⟩ = c := by
  cases o with
  | recv buf => exact absurd rfl ho
  | write sock bytes =>
      cases sock with
      | client => exact absurd rfl ho
      | listener => rfl
  | close sock =>
      cases sock with
      | client => exact absurd rfl ho
      | listener => rfl
  | _ => rfl

/-- Once a thread has gone astray, nothing changes that. -/
theorem stays_astray (hc : c ≠ .failed) : sockets.Stays OffClient (c, .astray) := by
  intro o ho
  refine ⟨⟨allows_offClient hc ho, trivial⟩, fun x => ?_⟩
  show (c.next ⟨o, x⟩, ListenPhase.next .astray ⟨o, x⟩) = _
  rw [next_offClient ho]
  rfl

/-- What uses no socket is not on the client's. -/
theorem offClient_of_none {o : SrvOp} (h : o.uses = none) : OffClient o := by
  rw [OffClient, h]
  simp

/-- What uses the socket of a listening thread is not on the client's. -/
theorem offClient_of_listener {o : SrvOp} (h : o.uses = some .listener) : OffClient o := by
  rw [OffClient, h]
  simp

/-- What is neither on a socket nor opens one. -/
def SrvOp.sockless : SrvOp → Bool
  | .db _ | .uninit | .note _ => true
  | _ => false

/-- What has no socket uses none. -/
theorem uses_of_sockless {o : SrvOp} (h : o.sockless = true) : o.uses = none := by
  cases o with
  | db call => rfl
  | uninit => rfl
  | note n => rfl
  | _ => cases h

/-- It may be done at rest. -/
theorem stays_sockless (hc : c ≠ .failed) (h : AtRest c ph) :
    sockets.Stays (fun o => o.sockless = true) ph := by
  obtain ⟨c', l⟩ := ph
  obtain ⟨rfl, rfl | rfl⟩ := h
  · intro o ho
    have huses := uses_of_sockless ho
    refine ⟨⟨allows_offClient hc (offClient_of_none huses), ?_⟩, fun x => ?_⟩
    · show o.uses ≠ some .listener
      rw [huses]
      simp
    · show (c'.next ⟨o, x⟩, ListenPhase.next .idle ⟨o, x⟩) = _
      rw [next_offClient (offClient_of_none huses)]
      cases o with
      | socket => cases ho
      | _ => rfl
  · exact fun o ho => stays_astray hc o (offClient_of_none (uses_of_sockless ho))

/-- A step that is on no socket. -/
theorem obeys_sockless {Q : SockPhase → α → Prop} {o : SrvOp} {f : o.Ans → Srv α}
    (hc : c ≠ .failed)
    (h : AtRest c ph) (ho : o.sockless = true) (hf : ∀ x, (f x).Obeys sockets Q ph) :
    (@Prog.perform srvE o >>= f).Obeys sockets Q ph :=
  (stays_sockless hc h).bind ho fun x _ => hf x

end Discipline

/-! ### `netUtil.c` -/

section NetUtil

variable {c : ClientPhase} {ph : SockPhase} {l l₁ l₂ l' : ListenPhase}

/-- Only the check behind a failure closes the client's socket. -/
theorem opened_allows {o : SrvOp} (h : o.isClose = false) : ClientPhase.opened.allows o := by
  rintro rfl
  cases h

/-- A new socket may be opened at rest. -/
theorem idle_allows_socket : ListenPhase.idle.allows .socket := by
  simp [ListenPhase.allows, SrvOp.uses]

/-- What is done with the client's socket is no business of the other one. -/
theorem atRest_listen (h : AtRest c ph) {o : SrvOp} (ho : o.uses = some .client) :
    ph.2.allows o ∧ ∀ x, ph.2.next ⟨o, x⟩ = ph.2 := by
  have hnot : o.uses ≠ some .listener := by
    rw [ho]
    simp
  have hsocket : o ≠ .socket := by
    rintro rfl
    cases ho
  rcases h.2 with hidle | hastray
  · rw [hidle]
    refine ⟨hnot, fun x => ?_⟩
    cases o with
    | socket => exact absurd rfl hsocket
    | _ => rfl
  · rw [hastray]
    exact ⟨trivial, fun x => rfl⟩

/-- A step on the client's socket, and the rest. -/
theorem obeys_onClient {α : Type} {Q : SockPhase → α → Prop} {o : SrvOp}
    {f : o.Ans → Srv α} (h : AtRest c ph)
    (ho : o.uses = some .client) (hallows : c.allows o)
    (hf : ∀ x ph', AtRest (c.next ⟨o, x⟩) ph' → (f x).Obeys sockets Q ph') :
    (@Prog.perform srvE o >>= f).Obeys sockets Q ph := by
  obtain ⟨hlisten, hnext⟩ := atRest_listen h ho
  obtain ⟨c', l⟩ := ph
  obtain ⟨rfl, hl⟩ := h
  refine obeys_perform_bind.mpr ⟨⟨hallows, hlisten⟩, fun x _ => hf x _ ⟨rfl, ?_⟩⟩
  show l.next ⟨o, x⟩ = _ ∨ l.next ⟨o, x⟩ = _
  rw [hnext]
  exact hl

/-- What `r` says about the client's socket. -/
def Told (r : ℤ) (ph : SockPhase) : Prop :=
  (r = 0 ∧ AtRest .opened ph) ∨ (r = genErrAny ∧ AtRest .closed ph)

/-- The check behind a call on the client's socket. -/
theorem obeys_close_client {α : Type} {Q : SockPhase → α → Prop} {a : α}
    (h : AtRest .failed ph)
    (hQ : ∀ ph', AtRest .closed ph' → Q ph' a) :
    (close .client >>= fun _ => (pure a : Srv α)).Obeys sockets Q ph :=
  obeys_onClient h rfl rfl fun _ _ h' => hQ _ h'

/-- A string for the client: the thread has told it, or the socket has failed. -/
theorem obeys_sendString_client (h : AtRest .opened ph) (string : Bytes) :
    (sendString .client string).Obeys sockets (fun ph' r => Told r ph') ph := by
  rw [sendString]
  refine obeys_onClient h rfl (opened_allows rfl) fun ok ph' h' => ?_
  cases ok with
  | true => exact Or.inl ⟨rfl, h'⟩
  | false => exact obeys_close_client h' fun _ h'' => Or.inr ⟨rfl, h''⟩

/-- A reply: the thread has told the client, or the socket has failed. -/
theorem obeys_sendServerReply_sockets (h : AtRest .opened ph) (code : UInt8) :
    (sendServerReply code).Obeys sockets (fun ph' r => Told r ph') ph := by
  rw [sendServerReply]
  refine obeys_onClient h rfl (opened_allows rfl) fun ok ph' h' => ?_
  cases ok with
  | true => exact Or.inl ⟨rfl, h'⟩
  | false => exact obeys_close_client h' fun _ h'' => Or.inr ⟨rfl, h''⟩

/-- A string that is received: the thread goes on, or the socket has failed. -/
theorem obeys_recvMember (h : AtRest .opened ph) (mem : Bytes) (offset : ℕ) :
    (recvMember mem offset).Obeys sockets (fun ph' r => Told r.1 ph') ph := by
  rw [recvMember, recvString, obeys_bind]
  refine obeys_onClient h rfl (opened_allows rfl) fun r ph' h' => ?_
  by_cases hneg : r.1 < 0
  · rw [if_pos hneg]
    have hfailed : AtRest .failed ph' := by
      have hnext : ClientPhase.next .opened ⟨.recv (mem.drop offset), r⟩ = .failed :=
        if_pos hneg
      rwa [hnext] at h'
    exact obeys_close_client hfailed fun _ h'' => Or.inr ⟨rfl, h''⟩
  · rw [if_neg hneg]
    have hopened : AtRest .opened ph' := by
      have hnext : ClientPhase.next .opened ⟨.recv (mem.drop offset), r⟩ = .opened :=
        if_neg hneg
      rwa [hnext] at h'
    exact Or.inl ⟨rfl, hopened⟩

/-- `send_string` to a listening thread, by what its write and its check lead to. -/
theorem obeys_sendString_listener (hc : c ≠ .failed) (string : Bytes)
    (hallows : l.allows (.write .listener (string ++ [0])))
    (htrue : l.next ⟨.write .listener (string ++ [0]), true⟩ = l₁)
    (hfalse : l.next ⟨.write .listener (string ++ [0]), false⟩ = l')
    (hclose : l'.allows (.close .listener)) (hclosed : l'.next ⟨.close .listener, ()⟩ = l₂) :
    (sendString .listener string).Obeys sockets
      (fun ph' r => (r = 0 ∧ ph' = (c, l₁)) ∨
          (r = genErrAny ∧ ph' = (c, l₂))) (c, l) := by
  have hoff : ∀ {o : SrvOp}, o.uses = some .listener → c.allows o := fun ho =>
    allows_offClient hc (by rw [OffClient, ho]; simp)
  rw [sendString]
  refine obeys_perform_bind.mpr ⟨⟨hoff rfl, hallows⟩, fun ok _ => ?_⟩
  cases ok with
  | true => exact Or.inl ⟨rfl, congrArg (Prod.mk c) htrue⟩
  | false =>
      refine obeys_perform_bind.mpr ⟨⟨hoff rfl, ?_⟩, fun _ _ => Or.inr ⟨rfl, ?_⟩⟩
      · show (l.next ⟨.write .listener (string ++ [0]), false⟩).allows _
        rw [hfalse]
        exact hclose
      · show (c, (l.next ⟨.write .listener (string ++ [0]), false⟩).next _) = _
        rw [hfalse]
        exact congrArg (Prod.mk c) hclosed

end NetUtil
