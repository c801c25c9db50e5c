/-
# What the services do, step by step

Rules for all executions of the pieces that the services are made of: what the piece
does to the state, and the events that it leaves in the trace.  The state may be the
file system with the connection, or an abstraction of it: the rules ask only that
steps without a library call, and questions to the library, leave it alone.

* `Modest`: such steps;
* `must_db`, `must_read`, `must_userExists`: library calls;
* `must_cltSendMessage`, `must_cltSendMessAck`: a connection to a listener, made with
  the entry that was read for it;
* `must_sendServerReply`, `must_auxSendFirstAck`: replies.
-/
import MessageServer.Schema

variable {T : DbCall → List sysE.Event → Prop} {α S : Type}
  {R : S → (o : SrvOp) → o.Ans → S → Prop}
  {w : S} {Q : List srvE.Event → α → S → Prop}

/-! ## Modest steps -/

/-- Questions to the database. -/
def Asks : SrvOp → Prop
  | .db (.userExists _) => True
  | .db (.ioOpUsrEnt _ .read) => True
  | _ => False

/-- Steps of which only library calls and receives change the state, and no question
does. -/
class Modest (R : S → (o : SrvOp) → o.Ans → S → Prop) : Prop where
  inert : ∀ {w o x w'}, (∀ call, o ≠ .db call) → (∀ buf, o ≠ .recv buf) →
    R w o x w' → w' = w
  asks : ∀ {w o x w'}, Asks o → R w o x w' → w' = w

instance : Modest (SrvStep T) where
  inert := by
    intro w o x w' hdb hrecv hR
    cases o with
    | db call => exact absurd rfl (hdb call)
    | recv buf => exact absurd rfl (hrecv buf)
    | _ => exact hR
  asks := by
    rintro ⟨fs, input⟩ o x ⟨fs', input'⟩ hasks hR
    cases o with
    | db call =>
        obtain ⟨⟨t, hexec, -⟩, hinput⟩ := hR
        obtain rfl : input' = input := hinput
        cases call with
        | userExists v => rw [show fs' = fs from (exec_userExists hexec).1]
        | ioOpUsrEnt e mode =>
            cases mode with
            | read => rw [show fs' = fs from exec_ioOp_read_frame hexec]
            | _ => exact hasks.elim
        | _ => exact hasks.elim
    | _ => exact hasks.elim

/-! ## Single steps -/

/-- A library call. -/
theorem must_db {call : DbCall} {f : call.Ans → Srv α} {fs : FS} {input : List ReadEv}
    {Q : List srvE.Event → α → SrvWorld → Prop}
    (h : ∀ x fs', DbStep T fs call x fs' →
      (f x).Must (SrvStep T) (fun t => Q (⟨SrvOp.db call, x⟩ :: t)) ⟨fs', input⟩) :
    (@Prog.perform srvE (.db call) >>= f).Must (SrvStep T) Q ⟨fs, input⟩ := by
  refine must_perform_bind fun x w' hw => ?_
  obtain ⟨fs', input'⟩ := w'
  obtain ⟨hstep, hinput⟩ := hw
  obtain rfl : input' = input := hinput
  exact h x fs' hstep

variable [Modest R]

/-- A step that is no library call and no receive. -/
theorem must_inert {o : SrvOp} (hdb : ∀ call, o ≠ .db call) (hrecv : ∀ buf, o ≠ .recv buf)
    {f : o.Ans → Srv α} (h : ∀ x, (f x).Must R (fun t => Q (⟨o, x⟩ :: t)) w) :
    (@Prog.perform srvE o >>= f).Must R Q w := by
  refine must_perform_bind fun x w' hR => ?_
  obtain rfl := Modest.inert hdb hrecv hR
  exact h x

/-- The contents of the locals are free. -/
theorem must_uninit {f : Junk → Srv α}
    (h : ∀ junk, (f junk).Must R (fun t => Q (⟨SrvOp.uninit, junk⟩ :: t)) w) :
    (uninit >>= f).Must R Q w :=
  must_inert (by simp) (by simp) h

/-- A read leaves the state as it is. -/
theorem must_read {e : Entry} {f : ℤ × Entry → Srv α}
    (h : ∀ x : ℤ × Entry, R w (.db (.ioOpUsrEnt e .read)) x w → (f x).Must R
      (fun t => Q (⟨SrvOp.db (.ioOpUsrEnt e .read), x⟩ :: t)) w) :
    (callIoOpUsrEnt e .read >>= f).Must R Q w := by
  refine must_perform_bind fun (x : ℤ × Entry) w' hR => ?_
  obtain rfl := Modest.asks (o := .db (.ioOpUsrEnt e .read)) trivial hR
  exact h x hR

/-- So does the test whether a user exists. -/
theorem must_userExists {u : Bytes} {f : ℤ → Srv α}
    (h : ∀ r : ℤ, R w (.db (.userExists u)) r w → (f r).Must R
      (fun t => Q (⟨SrvOp.db (.userExists u), r⟩ :: t)) w) :
    (callUserExists u >>= f).Must R Q w := by
  refine must_perform_bind fun (x : ℤ) w' hR => ?_
  obtain rfl := Modest.asks (o := .db (.userExists u)) trivial hR
  exact h x hR

/-! ## Connections to a listener -/

/-- The steps of a connection to the listener whose address is in an entry. -/
def Contacts (e : Entry) : SrvOp → Prop
  | .socket => True
  | .connect ip port => ip = e.user.ip ∧ port = e.user.port
  | o => OnSock .listener o

theorem OnSock.contacts {e : Entry} (o : SrvOp) (h : OnSock .listener o) : Contacts e o := by
  cases o with
  | socket => trivial
  | connect ip port => exact h.elim
  | _ => exact h

/-- What a step writes to a listener. -/
def toldBy : srvE.Event → Option Bytes
  | ⟨.write .listener bytes, _⟩ => some bytes
  | _ => none

/-- The steps on connections to a listener, with what is written to it. -/
structure Tells (P : SrvOp → Prop) (t : List srvE.Event) (l : List Bytes) : Prop where
  steps : ∀ ev ∈ t, P ev.1
  told : t.filterMap toldBy = l

namespace Tells

variable {P P' : SrvOp → Prop} {t t' : List srvE.Event} {l l' : List Bytes}

theorem nil : Tells P [] [] := ⟨by simp, rfl⟩

theorem append (h : Tells P t l) (h' : Tells P t' l') : Tells P (t ++ t') (l ++ l') := by
  refine ⟨fun ev hev => ?_, ?_⟩
  · rcases List.mem_append.mp hev with hev | hev
    · exact h.steps ev hev
    · exact h'.steps ev hev
  · rw [List.filterMap_append, h.told, h'.told]

theorem mono (h : Tells P t l) (hP : ∀ o, P o → P' o) : Tells P' t l :=
  ⟨fun ev hev => hP _ (h.steps ev hev), h.told⟩

/-- A step that writes nothing to a listener. -/
theorem single {o : SrvOp} {x : o.Ans} (hP : P o) (hno : toldBy ⟨o, x⟩ = none) :
    Tells P [⟨o, x⟩] [] := by
  refine ⟨fun ev hev => ?_, ?_⟩
  · rw [List.mem_singleton.mp hev]
    exact hP
  · exact List.filterMap_cons_none hno

end Tells

/-- A message on the wire. -/
def CltRequest.messageWire (request : CltRequest) : List Bytes :=
  [request.opCode ++ [0], request.message.sender ++ [0], decimal request.message.id.toNat ++ [0],
    request.message.content ++ [0]]

/-- The acknowledgement of a message on the wire. -/
def CltRequest.ackWire (request : CltRequest) : List Bytes :=
  [request.opCode ++ [0], decimal request.message.id.toNat ++ [0]]

section Listener

variable {e : Entry} {request : CltRequest}

/-- A string to the listener. -/
theorem must_tell {string : Bytes} {k : ℤ → Srv α}
    (h : ∀ t r, Tells (OnSock .listener) t [string ++ [0]] →
      (k r).Must R (fun t' => Q (t ++ t')) w) : (sendString .listener string >>= k).Must R Q w := by
  rw [sendString, bind_assoc]
  refine must_inert (by simp) (by simp) fun (ok : Bool) => ?_
  have hwrite : Tells (OnSock .listener) [⟨SrvOp.write .listener (string ++ [0]), ok⟩]
      [string ++ [0]] :=
    ⟨by simp [OnSock], rfl⟩
  cases ok with
  | true => exact h _ 0 hwrite
  | false =>
      rw [if_neg (by simp), bind_assoc]
      refine must_inert (by simp) (by simp) fun _ => ?_
      exact h _ genErrAny (hwrite.append (Tells.single (o := .close .listener) (x := ()) rfl rfl))

/-- A message is written up to some string of it, and to its end when that succeeds. -/
theorem must_cltSendMessageStrings {Q : List srvE.Event → ℤ → S → Prop}
    (h : ∀ t l result, Tells (OnSock .listener) t l → l <+: request.messageWire →
      (result = 0 → l = request.messageWire) → Q t result w) :
    (cltSendMessageStrings request).Must R Q w := by
  have hfailed : ∀ t l, Tells (OnSock .listener) t l → l <+: request.messageWire →
      Q (t ++ []) genErrAny w := by
    intro t l ht hl
    rw [List.append_nil]
    exact h t l _ ht hl fun hzero => absurd hzero (by decide)
  rw [cltSendMessageStrings]
  refine must_tell fun t₁ a h₁ => ?_
  split
  · exact must_ret (hfailed t₁ _ h₁ ⟨_, rfl⟩)
  refine must_tell fun t₂ b h₂ => ?_
  split
  · apply must_ret
    rw [← List.append_assoc]
    exact hfailed _ _ (h₁.append h₂) ⟨_, rfl⟩
  refine must_tell fun t₃ c h₃ => ?_
  split
  · apply must_ret
    rw [← List.append_assoc, ← List.append_assoc]
    exact hfailed _ _ ((h₁.append h₂).append h₃) ⟨_, rfl⟩
  refine must_tell fun t₄ d h₄ => ?_
  have hall := ((h₁.append h₂).append h₃).append h₄
  split
  · apply must_ret
    rw [← List.append_assoc, ← List.append_assoc, ← List.append_assoc]
    exact hfailed _ _ hall ⟨[], rfl⟩
  · refine must_inert (by simp) (by simp) fun _ => must_ret ?_
    rw [← List.append_assoc, ← List.append_assoc, ← List.append_assoc]
    have hclose := hall.append (Tells.single (o := .close .listener) (x := ()) rfl rfl)
    exact h _ _ 0 hclose ⟨[], rfl⟩ fun _ => rfl

/-- An acknowledgement is written to its end. -/
theorem must_cltSendMessAckStrings {Q : List srvE.Event → ℤ → S → Prop}
    (h : ∀ t result, Tells (OnSock .listener) t request.ackWire → Q t result w) :
    (cltSendMessAckStrings request).Must R Q w := by
  rw [cltSendMessAckStrings]
  refine must_tell fun t₁ _ h₁ => must_tell fun t₂ _ h₂ => ?_
  refine must_inert (by simp) (by simp) fun _ => must_ret ?_
  have hclose := (h₁.append h₂).append (Tells.single (o := .close .listener) (x := ()) rfl rfl)
  rw [← List.append_assoc]
  exact h _ 0 hclose

/-- `aux_connect_clt_listen_thread` reads the entry, and connects to the address in it
unless that fails. -/
theorem must_auxConnect {k : ℤ × Entry → Srv α}
    (h : ∀ (x : ℤ × Entry) t result, R w (.db (.ioOpUsrEnt e .read)) x w →
        Tells (Contacts x.2) t [] →
      (x.1 < 0 → result < 0 ∧ t = []) → (k (result, x.2)).Must R
        (fun t' => Q (⟨SrvOp.db (.ioOpUsrEnt e .read), x⟩ :: (t ++ t'))) w) :
    (auxConnectCltListenThread e >>= k).Must R Q w := by
  rw [auxConnectCltListenThread, bind_assoc]
  refine must_read fun x hread => ?_
  split
  · exact h x [] dbmsErrAny hread .nil fun _ => ⟨by decide, rfl⟩
  rename_i hok
  rw [bind_assoc]
  refine must_inert (by simp) (by simp) fun (ok : Bool) => ?_
  have hsocket : Tells (Contacts x.2) [⟨SrvOp.socket, ok⟩] [] := Tells.single trivial rfl
  cases ok with
  | false => exact h x _ genErrAny hread hsocket fun hneg => absurd hneg hok
  | true =>
      rw [if_pos rfl, bind_assoc]
      refine must_inert (by simp) (by simp) fun (connected : Bool) => ?_
      have hconnect :
          Tells (Contacts x.2) [⟨SrvOp.connect x.2.user.ip x.2.user.port, connected⟩] [] :=
        Tells.single ⟨rfl, rfl⟩ rfl
      exact h x _ (if connected then 0 else genErrAny) hread (hsocket.append hconnect)
        fun hneg => absurd hneg hok

omit [Modest R] in
/-- What is sent on the connection, if there is one. -/
theorem must_ifConnected {socket : ℤ} {send : Srv ℤ} {P : List srvE.Event → ℤ → Prop}
    (hsend : send.Must R (fun t result w' => w' = w ∧ P t result) w) {k : ℤ → Srv α}
    (h : ∀ t result, (socket < 0 ∧ result = genErrAny ∧ t = []) ∨
        (0 ≤ socket ∧ P t result) →
      (k result).Must R (fun t' => Q (t ++ t')) w) :
    (ifConnected socket send >>= k).Must R Q w := by
  unfold ifConnected
  split
  · rename_i hneg
    exact h [] genErrAny (Or.inl ⟨hneg, rfl, rfl⟩)
  · rename_i hok
    apply must_bind
    refine hsend.mono fun t result w' hsent => ?_
    obtain ⟨rfl, hsent⟩ := hsent
    exact h t result (Or.inr ⟨not_lt.mp hok, hsent⟩)

/-- **`clt_send_message`**: the entry is read, the message is written to its listener,
and the result is noted. -/
theorem must_cltSendMessage {k : ℤ × Entry → Srv α}
    (h : ∀ (x : ℤ × Entry) t l result, R w (.db (.ioOpUsrEnt e .read)) x w →
        Tells (Contacts x.2) t l →
      l <+: request.messageWire → (result = 0 → l = request.messageWire) →
      (x.1 < 0 → result = genErrAny ∧ t = []) → (k (result, x.2)).Must R
        (fun t' => Q (⟨SrvOp.db (.ioOpUsrEnt e .read), x⟩ :: (t ++
          ⟨SrvOp.note (.cltSendMessage x.2 request.message result), ()⟩ :: t'))) w) :
    (cltSendMessage request e >>= k).Must R Q w := by
  rw [cltSendMessage, bind_assoc]
  refine must_auxConnect fun x t socket hread ht hfailed => ?_
  rw [bind_assoc]
  refine must_ifConnected (P := fun t result => ∃ l, Tells (OnSock .listener) t l ∧
      l <+: request.messageWire ∧ (result = 0 → l = request.messageWire))
    (must_cltSendMessageStrings fun t l result ht hpre hall => ⟨rfl, l, ht, hpre, hall⟩)
    fun t' result hsent => ?_
  rw [bind_assoc]
  refine must_inert (by simp) (by simp) fun _ => ?_
  rcases hsent with ⟨hneg, rfl, rfl⟩ | ⟨hpos, l, ht', hpre, hall⟩
  · exact h x t [] genErrAny hread ht List.nil_prefix (fun hzero => absurd hzero (by decide))
      fun hlt => ⟨rfl, (hfailed hlt).2⟩
  · have hrest := h x (t ++ t') l result hread (ht.append (ht'.mono OnSock.contacts)) hpre hall
      fun hlt => absurd (hfailed hlt).1 (not_lt.mpr hpos)
    simp only [List.append_assoc] at hrest
    exact hrest

/-- **`clt_send_mess_ack`** likewise. -/
theorem must_cltSendMessAck {k : ℤ × Entry → Srv α}
    (h : ∀ (x : ℤ × Entry) t l result, R w (.db (.ioOpUsrEnt e .read)) x w →
        Tells (Contacts x.2) t l →
      (l = [] ∨ l = request.ackWire) → (x.1 < 0 → t = []) → (k (result, x.2)).Must R
        (fun t' => Q (⟨SrvOp.db (.ioOpUsrEnt e .read), x⟩ :: (t ++
          ⟨SrvOp.note (.cltSendMessAck x.2 request.message.id result), ()⟩ :: t'))) w) :
    (cltSendMessAck request e >>= k).Must R Q w := by
  rw [cltSendMessAck, bind_assoc]
  refine must_auxConnect fun x t socket hread ht hfailed => ?_
  rw [bind_assoc]
  refine must_ifConnected (P := fun t _ => Tells (OnSock .listener) t request.ackWire)
    (must_cltSendMessAckStrings fun t result ht => ⟨rfl, ht⟩) fun t' result hsent => ?_
  rw [bind_assoc]
  refine must_inert (by simp) (by simp) fun _ => ?_
  rcases hsent with ⟨hneg, rfl, rfl⟩ | ⟨hpos, ht'⟩
  · exact h x t [] genErrAny hread ht (Or.inl rfl) fun hlt => (hfailed hlt).2
  · have hrest := h x (t ++ t') request.ackWire result hread (ht.append (ht'.mono OnSock.contacts))
      (Or.inr rfl) fun hlt => absurd (hfailed hlt).1 (not_lt.mpr hpos)
    simp only [List.append_assoc] at hrest
    exact hrest

end Listener

/-! ## Replies -/

section Replies

variable {code : UInt8}

/-- A reply is one byte on the client's connection; when that fails, the connection is
closed. -/
theorem must_sendServerReply {k : ℤ → Srv α}
    (h : ∀ (ok : Bool) t r, (∀ ev ∈ t, ev.1 = SrvOp.close .client) →
        (r < 0 ↔ ok = false) →
      (k r).Must R (fun t' => Q (⟨SrvOp.write .client [code], ok⟩ :: (t ++ t'))) w) :
    (sendServerReply code >>= k).Must R Q w := by
  rw [sendServerReply, bind_assoc]
  refine must_inert (by simp) (by simp) fun (ok : Bool) => ?_
  cases ok with
  | true => exact h true [] 0 (by simp) (by simp)
  | false =>
      rw [if_neg (by simp), bind_assoc]
      refine must_inert (by simp) (by simp) fun _ => ?_
      refine h false [⟨SrvOp.close .client, ()⟩] genErrAny ?_ (by decide)
      intro ev hev
      rw [List.mem_singleton.mp hev]

/-- The reply to a sender: the id follows on success. -/
theorem must_auxSendFirstAck {id : UInt32} {k : Unit → Srv α}
    (h : ∀ (ok : Bool) t, (∀ ev ∈ t, ev.1 = SrvOp.close .client ∨
        (code = srvSuccess ∧ ev.1 = SrvOp.write .client (decimal id.toNat ++ [0]))) →
      (k ()).Must R (fun t' => Q (⟨SrvOp.write .client [code], ok⟩ :: (t ++ t'))) w) :
    (auxSendFirstAck code id >>= k).Must R Q w := by
  rw [auxSendFirstAck, bind_assoc]
  refine must_sendServerReply fun ok t r ht _ => ?_
  split
  · exact h ok t fun ev hev => Or.inl (ht ev hev)
  split
  · rename_i hcode
    rw [sendString, bind_assoc, bind_assoc]
    refine must_inert (by simp) (by simp) fun (sent : Bool) => ?_
    cases sent with
    | true =>
        have hrest := h ok (t ++ [⟨SrvOp.write .client (decimal id.toNat ++ [0]), true⟩]) ?_
        · simp only [List.append_assoc] at hrest
          exact hrest
        · intro ev hev
          rcases List.mem_append.mp hev with hev | hev
          · exact Or.inl (ht ev hev)
          · rw [List.mem_singleton.mp hev]
            exact Or.inr ⟨hcode, rfl⟩
    | false =>
        rw [if_neg (by simp), bind_assoc]
        refine must_inert (by simp) (by simp) fun _ => ?_
        have hrest := h ok (t ++ [⟨SrvOp.write .client (decimal id.toNat ++ [0]), false⟩,
          ⟨SrvOp.close .client, ()⟩]) ?_
        · simp only [List.append_assoc] at hrest
          exact hrest
        · intro ev hev
          rcases List.mem_append.mp hev with hev | hev
          · exact Or.inl (ht ev hev)
          rcases List.mem_cons.mp hev with rfl | hev
          · exact Or.inr ⟨hcode, rfl⟩
          · rw [List.mem_singleton.mp hev]
            exact Or.inl rfl
  · exact h ok t fun ev hev => Or.inl (ht ev hev)

end Replies

/-! ## The pieces of `srv_send` -/

/-- The entry with the id of one more message. -/
def Entry.next (e : Entry) : Entry :=
  e.mapUser fun u => { u with lastMsgId := nextMsgId u.lastMsgId }

/-- The entry of a user who counts as disconnected. -/
def Entry.disconnected (e : Entry) : Entry := e.mapUser fun u => { u with status := statusDcn }

section Send

variable {s r c : Bytes} {code : UInt8} {e : Entry}

/-- **`aux_send_init`**: the message is refused, or the recipient's record is rewritten. -/
theorem must_auxSendInit {k : UInt8 × Entry → Srv α}
    (hrefused : ∀ code e t, code ≠ srvSuccess → (∀ ev ∈ t, Asks ev.1) →
      (k (code, e)).Must R (fun t' => Q (t ++ t')) w)
    (hwrite : ∀ (a b : ℤ) (x y : ℤ × Entry) w₁, R w (.db (.userExists s)) a w → 0 < a →
      R w (.db (.userExists r)) b w → 0 < b →
      R w (.db (.ioOpUsrEnt { e with username := r } .read)) x w → 0 ≤ x.1 →
      R w (.db (.ioOpUsrEnt x.2.next .modify)) y w₁ →
      (k (if y.1 < 0 then srvErrSendAny else srvSuccess, x.2.next)).Must R
        (fun t' => Q (⟨SrvOp.db (.userExists s), a⟩ :: ⟨SrvOp.db (.userExists r), b⟩ ::
          ⟨SrvOp.db (.ioOpUsrEnt { e with username := r } .read), x⟩ ::
          ⟨SrvOp.db (.ioOpUsrEnt x.2.next .modify), y⟩ :: t')) w₁) :
    (auxSendInit s r e >>= k).Must R Q w := by
  rw [auxSendInit, bind_assoc]
  refine must_userExists fun (a : ℤ) ha => ?_
  rw [bind_assoc]
  refine must_userExists fun (b : ℤ) hb => ?_
  have hasks : ∀ ev ∈ ([⟨SrvOp.db (.userExists s), a⟩, ⟨SrvOp.db (.userExists r), b⟩] :
      List srvE.Event), Asks ev.1 := by
    intro ev hev
    rcases List.mem_cons.mp hev with rfl | hev
    · trivial
    · rw [List.mem_singleton.mp hev]
      trivial
  split
  · exact hrefused _ _ _ (by decide) hasks
  split
  · exact hrefused _ _ _ (by decide) hasks
  rename_i hne hneg
  rw [bind_assoc]
  -- both users exist as far as the checks tell
  refine must_read fun x hx => ?_
  split
  · refine hrefused _ x.2 [_, _, ⟨SrvOp.db (.ioOpUsrEnt { e with username := r } .read), x⟩]
      (by decide) ?_
    intro ev hev
    rcases List.mem_cons.mp hev with rfl | hev
    · trivial
    rcases List.mem_cons.mp hev with rfl | hev
    · trivial
    · rw [List.mem_singleton.mp hev]
      trivial
  · rename_i hok
    rw [bind_assoc]
    refine must_perform_bind fun (y : ℤ × Entry) w₁ hy => ?_
    refine hwrite a b x y w₁ ha ?_ hb ?_ hx (not_lt.mp hok) hy
    · omega
    · omega

/-- **`aux_send_msg_pass`**: the recipient is not connected, or is sent the message, or
counts as disconnected because that fails. -/
theorem must_auxSendMsgPass {k : UInt8 × Entry × Entry → Srv α}
    (hidle : e.user.status ≠ statusCn →
      (k (code, e, ⟨r, .msg ⟨s, e.user.lastMsgId, c⟩⟩)).Must R Q w)
    (hsent : e.user.status = statusCn → ∀ (x : ℤ × Entry) t,
        R w (.db (.ioOpUsrEnt e .read)) x w →
      Tells (Contacts x.2) t
        (CltRequest.mk opSendMessage ⟨s, e.user.lastMsgId, c⟩).messageWire → 0 ≤ x.1 →
      (k (code, x.2, ⟨r, .msg ⟨s, e.user.lastMsgId, c⟩⟩)).Must R
        (fun t' => Q (⟨SrvOp.db (.ioOpUsrEnt e .read), x⟩ :: (t ++
          ⟨SrvOp.note (.cltSendMessage x.2 ⟨s, e.user.lastMsgId, c⟩ 0), ()⟩ :: t'))) w)
    (hfailed : e.user.status = statusCn → ∀ (x y : ℤ × Entry) t l (result : ℤ) w₁,
      R w (.db (.ioOpUsrEnt e .read)) x w → Tells (Contacts x.2) t l →
      l <+: (CltRequest.mk opSendMessage ⟨s, e.user.lastMsgId, c⟩).messageWire →
      (x.1 < 0 → t = []) → result ≠ 0 →
      R w (.db (.ioOpUsrEnt x.2.disconnected .modify)) y w₁ →
      (k (if y.1 < 0 then srvErrSendAny else code, x.2.disconnected,
        ⟨r, .msg ⟨s, e.user.lastMsgId, c⟩⟩)).Must R
        (fun t' => Q (⟨SrvOp.db (.ioOpUsrEnt e .read), x⟩ :: (t ++
          ⟨SrvOp.note (.cltSendMessage x.2 ⟨s, e.user.lastMsgId, c⟩ result), ()⟩ ::
          ⟨SrvOp.db (.ioOpUsrEnt x.2.disconnected .modify), y⟩ :: t'))) w₁) :
    (auxSendMsgPass s r c code e >>= k).Must R Q w := by
  unfold auxSendMsgPass
  dsimp only
  split
  · rename_i hcn
    rw [bind_assoc]
    refine must_cltSendMessage fun x t l result hx ht hpre hall hneg => ?_
    dsimp only
    split
    · rename_i hzero
      obtain rfl : result = 0 := hzero
      obtain rfl := hall rfl
      refine hsent hcn x t hx ht (not_lt.mp fun hlt => ?_)
      exact absurd (hneg hlt).1 (by decide)
    · rename_i hne
      rw [bind_assoc]
      refine must_perform_bind fun (y : ℤ × Entry) w₁ hy => ?_
      exact hfailed hcn x y t l result w₁ hx ht hpre (fun hlt => (hneg hlt).2) hne hy
  · rename_i hcn
    exact hidle hcn

/-- **The end of `srv_send`**: the reply, and the second acknowledgement to the sender
when the recipient's entry says that he is connected. -/
theorem must_srvSendFinish {recipientEntry msgEntry : Entry}
    {Q : List srvE.Event → Unit → S → Prop}
    (hno : recipientEntry.user.status ≠ statusCn → ∀ (ok : Bool) t,
      (∀ ev ∈ t, ev.1 = SrvOp.close .client ∨
        (code = srvSuccess ∧
            ev.1 = SrvOp.write .client (decimal msgEntry.msg.id.toNat ++ [0]))) →
      Q (⟨SrvOp.write .client [code], ok⟩ :: t) () w)
    (hack : recipientEntry.user.status = statusCn → ∀ (ok : Bool) t,
      (∀ ev ∈ t, ev.1 = SrvOp.close .client ∨
        (code = srvSuccess ∧
            ev.1 = SrvOp.write .client (decimal msgEntry.msg.id.toNat ++ [0]))) →
      ∀ (junk : Junk) (x : ℤ × Entry) t' l (result : ℤ),
      R w (.db (.ioOpUsrEnt ⟨s, .user junk.user⟩ .read)) x w → Tells (Contacts x.2) t' l →
      (l = [] ∨
          l = (CltRequest.mk opSendMessAck ⟨[], recipientEntry.user.lastMsgId, []⟩).ackWire) →
      (x.1 < 0 → t' = []) →
      Q (⟨SrvOp.write .client [code], ok⟩ :: (t ++ ⟨SrvOp.uninit, junk⟩ ::
        ⟨SrvOp.db (.ioOpUsrEnt ⟨s, .user junk.user⟩ .read), x⟩ :: (t' ++
        [⟨SrvOp.note (.cltSendMessAck x.2 recipientEntry.user.lastMsgId result), ()⟩]))) ()
        w) :
    (srvSendFinish s code recipientEntry msgEntry).Must R Q w := by
  rw [srvSendFinish]
  refine must_auxSendFirstAck fun ok t ht => ?_
  split
  · rename_i hcn
    refine must_uninit fun junk => ?_
    refine must_cltSendMessAck fun x t' l result hx ht' hl hneg => must_ret ?_
    exact hack hcn ok t ht junk x t' l result hx ht' hl hneg
  · rename_i hcn
    refine must_ret ?_
    rw [List.append_nil]
    exact hno hcn ok t ht

end Send
