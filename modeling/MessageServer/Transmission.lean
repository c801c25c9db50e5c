/-
# What a client-side service does on the network

The steps of `clt_send_message` and `clt_send_mess_ack` behind the read of the user's record, with
the answers of the calls: a service that fails names the `socket`, the `connect` or the `write` that
has failed.

* `StringsSent`: the strings of a message, up to the first that cannot be written;
* `StringsTried`: the strings of an acknowledgement, whatever becomes of them;
* `CallsAt`: a call at the listener whose address is in an entry;
* `ServiceCall`: the service, which calls nobody when the record was not read;
* `CallsAt.failed_iff`: a call fails if and only if one of its steps does;
* `must_cltSendMessage_call`, `must_cltSendMessAck_call`: the services make such calls.
-/
import MessageServer.Handlers

/-! ## Calls at a listener -/

/-- The strings are written to the listener one by one, and the connection is closed at the end or
at the first write that fails; with whether all are written. -/
inductive StringsSent : List Bytes → Bool → List srvE.Event → Prop
  | all : StringsSent [] true [⟨.close .listener, ()⟩]
  | failed (string : Bytes) (l : List Bytes) :
      StringsSent (string :: l) false
      [⟨.write .listener string, false⟩, ⟨.close .listener, ()⟩]
  | written {string : Bytes} {l : List Bytes} {ok : Bool} {t : List srvE.Event}
      (h : StringsSent l ok t) :
      StringsSent (string :: l) ok (⟨.write .listener string, true⟩ :: t)

/-- Every string is written to the listener, also after a write that fails; the connection is closed
at each of these and at the end. -/
inductive StringsTried : List Bytes → List srvE.Event → Prop
  | all : StringsTried [] [⟨.close .listener, ()⟩]
  | failed {string : Bytes} {l : List Bytes} {t : List srvE.Event} (h : StringsTried l t) :
      StringsTried (string :: l)
        (⟨.write .listener string, false⟩ :: ⟨.close .listener, ()⟩ :: t)
  | written {string : Bytes} {l : List Bytes} {t : List srvE.Event} (h : StringsTried l t) :
      StringsTried (string :: l) (⟨.write .listener string, true⟩ :: t)

/-- A call at the listener whose address is in the entry; once it is connected, `sends` says what is
sent.  With whether the call gets through. -/
inductive CallsAt (e : Entry) (sends : Bool → List srvE.Event → Prop) :
    Bool → List srvE.Event → Prop
  | noSocket : CallsAt e sends false [⟨.socket, false⟩]
  | refused :
      CallsAt e sends false [⟨.socket, true⟩, ⟨.connect e.user.ip e.user.port, false⟩]
  | connected {ok : Bool} {t : List srvE.Event} (h : sends ok t) :
      CallsAt e sends ok (⟨.socket, true⟩ :: ⟨.connect e.user.ip e.user.port, true⟩ :: t)

/-- A client-side service after the read of the user's record, with its result. -/
inductive ServiceCall (read : ℤ × Entry) (sends : Bool → List srvE.Event → Prop) :
    ℤ → List srvE.Event → Prop
  | unread (h : read.1 < 0) : ServiceCall read sends genErrAny []
  | called {ok : Bool} {t : List srvE.Event} (h : 0 ≤ read.1)
      (hcall : CallsAt read.2 sends ok t) :
      ServiceCall read sends (if ok then 0 else genErrAny) t

/-- What a call of an acknowledgement sends: it counts as sent once it is connected. -/
def AckSent (l : List Bytes) (ok : Bool) (t : List srvE.Event) : Prop :=
  ok = true ∧ StringsTried l t

/-- A call on a socket that fails. -/
def FailedCall : srvE.Event → Prop
  | ⟨.socket, ok⟩ => (ok : Bool) = false
  | ⟨.connect _ _, ok⟩ => (ok : Bool) = false
  | ⟨.write .listener _, ok⟩ => (ok : Bool) = false
  | _ => False

section Calls

variable {e : Entry} {x : ℤ × Entry} {l : List Bytes} {ok : Bool} {t : List srvE.Event}
  {result : ℤ}

/-- Strings remain unsent if and only if a write fails. -/
theorem StringsSent.failed_iff (h : StringsSent l ok t) :
    ok = false ↔ ∃ ev ∈ t, FailedCall ev := by
  induction h with
  | all => simp [FailedCall]
  | failed string l => exact iff_of_true rfl ⟨_, List.mem_cons_self, rfl⟩
  | written h ih =>
      rw [ih, List.exists_mem_cons_iff]
      simp [FailedCall]

/-- **A call with a message fails if and only if one of its steps fails.** -/
theorem CallsAt.failed_iff (h : CallsAt e (StringsSent l) ok t) :
    ok = false ↔ ∃ ev ∈ t, FailedCall ev := by
  cases h with
  | noSocket => exact iff_of_true rfl ⟨_, List.mem_cons_self, rfl⟩
  | refused => exact iff_of_true rfl ⟨_, List.mem_cons_of_mem _ List.mem_cons_self, rfl⟩
  | connected h =>
      rw [h.failed_iff, List.exists_mem_cons_iff, List.exists_mem_cons_iff]
      simp [FailedCall]

/-- The service that has read the record makes a call. -/
theorem ServiceCall.of_read {sends : Bool → List srvE.Event → Prop} (hx : 0 ≤ x.1)
    (h : ServiceCall x sends result t) :
    ∃ ok, CallsAt x.2 sends ok t ∧ result = if ok then 0 else genErrAny := by
  cases h with
  | unread hneg => exact absurd hneg (not_lt.mpr hx)
  | @called ok t _ hcall => exact ⟨ok, hcall, rfl⟩

end Calls

/-! ## The services -/

section Services

variable {α S : Type} {R : S → (o : SrvOp) → o.Ans → S → Prop} {w : S}
  {Q : List srvE.Event → α → S → Prop} [Modest R] {e : Entry} {request : CltRequest}
  {string : Bytes}

/-- `send_string` to the listener. -/
theorem must_sendString_listener {k : ℤ → Srv α}
    (hwritten : (k 0).Must R (fun t => Q (⟨SrvOp.write .listener (string ++ [0]), true⟩ :: t))
        w)
    (hfailed : (k genErrAny).Must R
        (fun t => Q (⟨SrvOp.write .listener (string ++ [0]), false⟩ ::
      ⟨SrvOp.close .listener, ()⟩ :: t)) w) :
    (sendString .listener string >>= k).Must R Q w := by
  rw [sendString, bind_assoc]
  refine must_inert (by simp) (by simp) fun (ok : Bool) => ?_
  cases ok with
  | true => exact hwritten
  | false =>
      rw [if_neg (by simp), bind_assoc]
      exact must_inert (by simp) (by simp) fun _ => hfailed

/-- The strings of a message are sent up to the first that cannot be written. -/
theorem must_cltSendMessageStrings_sent {Q : List srvE.Event → ℤ → S → Prop}
    (h : ∀ ok t, StringsSent request.messageWire ok t → Q t (if ok then 0 else genErrAny) w) :
    (cltSendMessageStrings request).Must R Q w := by
  have hneg : genErrAny < 0 := by decide
  have hpos : ¬ (0 : ℤ) < 0 := lt_irrefl 0
  rw [cltSendMessageStrings]
  apply must_sendString_listener
  rotate_left
  · rw [if_pos hneg]
    exact must_ret (h false _ (.failed _ _))
  rw [if_neg hpos]
  apply must_sendString_listener
  rotate_left
  · rw [if_pos hneg]
    exact must_ret (h false _ (.written (.failed _ _)))
  rw [if_neg hpos]
  apply must_sendString_listener
  rotate_left
  · rw [if_pos hneg]
    exact must_ret (h false _ (.written (.written (.failed _ _))))
  rw [if_neg hpos]
  apply must_sendString_listener
  rotate_left
  · rw [if_pos hneg]
    exact must_ret (h false _ (.written (.written (.written (.failed _ _)))))
  rw [if_neg hpos]
  refine must_inert (by simp) (by simp) fun _ => must_ret ?_
  exact h true _ (.written (.written (.written (.written .all))))

/-- The strings of an acknowledgement are all tried. -/
theorem must_cltSendMessAckStrings_tried {Q : List srvE.Event → ℤ → S → Prop}
    (h : ∀ t, StringsTried request.ackWire t → Q t 0 w) :
    (cltSendMessAckStrings request).Must R Q w := by
  rw [cltSendMessAckStrings]
  apply must_sendString_listener
  · apply must_sendString_listener
    · refine must_inert (by simp) (by simp) fun _ => must_ret ?_
      exact h _ (.written (.written .all))
    · refine must_inert (by simp) (by simp) fun _ => must_ret ?_
      exact h _ (.written (.failed .all))
  · apply must_sendString_listener
    · refine must_inert (by simp) (by simp) fun _ => must_ret ?_
      exact h _ (.failed (.written .all))
    · refine must_inert (by simp) (by simp) fun _ => must_ret ?_
      exact h _ (.failed (.failed .all))

/-- `aux_connect_clt_listen_thread`, and what a service sends once it has connected. -/
theorem must_auxConnect_call {sends : Bool → List srvE.Event → Prop} {send : Srv ℤ}
    (hsend : ∀ {Q : List srvE.Event → ℤ → S → Prop},
      (∀ ok t, sends ok t → Q t (if ok then 0 else genErrAny) w) → send.Must R Q w)
    {k : ℤ → ℤ × Entry → Srv α}
    (h : ∀ (x : ℤ × Entry) result t, R w (.db (.ioOpUsrEnt e .read)) x w →
      ServiceCall x sends result t → ∀ socket, (k result (socket, x.2)).Must R
        (fun t' => Q (⟨SrvOp.db (.ioOpUsrEnt e .read), x⟩ :: (t ++ t'))) w) :
    (auxConnectCltListenThread e >>= fun r => ifConnected r.1 send >>= fun result =>
      k result r).Must R Q w := by
  rw [auxConnectCltListenThread, bind_assoc]
  refine must_read fun x hread => ?_
  split
  · rename_i hneg
    exact h x genErrAny [] hread (.unread hneg) dbmsErrAny
  rename_i hok
  have hpos : 0 ≤ x.1 := not_lt.mp hok
  rw [bind_assoc]
  refine must_inert (by simp) (by simp) fun (ok : Bool) => ?_
  cases ok with
  | false => exact h x genErrAny _ hread (.called hpos .noSocket) genErrAny
  | true =>
      rw [if_pos rfl, bind_assoc]
      refine must_inert (by simp) (by simp) fun (connected : Bool) => ?_
      cases connected with
      | false => exact h x genErrAny _ hread (.called hpos .refused) genErrAny
      | true =>
          show (send >>= fun result => k result (0, x.2)).Must R _ w
          apply must_bind
          refine hsend fun ok t ht => ?_
          exact h x _ _ hread (.called hpos (.connected ht)) 0

/-- **`clt_send_message`** makes a call with the message, and notes how it went. -/
theorem must_cltSendMessage_call {k : ℤ × Entry → Srv α}
    (h : ∀ (x : ℤ × Entry) result t, R w (.db (.ioOpUsrEnt e .read)) x w →
      ServiceCall x (StringsSent request.messageWire) result t → (k (result, x.2)).Must R
        (fun t' => Q (⟨SrvOp.db (.ioOpUsrEnt e .read), x⟩ :: (t ++
          ⟨SrvOp.note (.cltSendMessage x.2 request.message result), ()⟩ :: t'))) w) :
    (cltSendMessage request e >>= k).Must R Q w := by
  have hsend : ∀ {Q : List srvE.Event → ℤ → S → Prop},
      (∀ ok t, StringsSent request.messageWire ok t → Q t (if ok then 0 else genErrAny) w) →
      (cltSendMessageStrings request).Must R Q w := fun hQ => must_cltSendMessageStrings_sent hQ
  simp only [cltSendMessage, bind_assoc]
  refine must_auxConnect_call hsend fun x result t hread hcall _ => ?_
  exact must_inert (by simp) (by simp) fun _ => h x result t hread hcall

/-- **`clt_send_mess_ack`** makes a call with the acknowledgement. -/
theorem must_cltSendMessAck_call {k : ℤ × Entry → Srv α}
    (h : ∀ (x : ℤ × Entry) result t, R w (.db (.ioOpUsrEnt e .read)) x w →
      ServiceCall x (AckSent request.ackWire) result t → (k (result, x.2)).Must R
        (fun t' => Q (⟨SrvOp.db (.ioOpUsrEnt e .read), x⟩ :: (t ++
          ⟨SrvOp.note (.cltSendMessAck x.2 request.message.id result), ()⟩ :: t'))) w) :
    (cltSendMessAck request e >>= k).Must R Q w := by
  have hsend : ∀ {Q : List srvE.Event → ℤ → S → Prop},
      (∀ ok t, AckSent request.ackWire ok t → Q t (if ok then 0 else genErrAny) w) →
      (cltSendMessAckStrings request).Must R Q w := by
    intro Q hQ
    exact must_cltSendMessAckStrings_tried fun t ht => hQ true t ⟨rfl, ht⟩
  simp only [cltSendMessAck, bind_assoc]
  refine must_auxConnect_call hsend fun x result t hread hcall _ => ?_
  exact must_inert (by simp) (by simp) fun _ => h x result t hread hcall

end Services
