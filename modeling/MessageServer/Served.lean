/-
# Requests on accounts

What a request does to the account of its user, when no system call fails for a reason
outside the state of the file system: the account afterwards, and the acts of the
service thread on the way.

* `must_body`: the body of every request has one of the outcomes;
* `handles_served`: so has every request that is handled on a kept account.
-/
import MessageServer.Outcomes

/-! ## Bodies on accounts -/

/-- A step of a service thread on the account of `u`. -/
def AccountStep (calm : Prop) (u : Bytes) (a : Account) : (o : SrvOp) → o.Ans → Account → Prop
  | .db call, x, a' => AccountCall calm u a call x a'
  | _, _, a' => a' = a

instance (calm : Prop) (u : Bytes) : Modest (AccountStep calm u) where
  inert := by
    intro a o x a' hdb _ hR
    cases o with
    | db call => exact absurd rfl (hdb call)
    | _ => exact hR
  asks := by
    intro a o x a' hasks hR
    cases o with
    | db call =>
        cases call with
        | userExists v => exact hR.1
        | ioOpUsrEnt e mode =>
            cases mode with
            | read => exact hR.1
            | _ => exact hasks.elim
        | _ => exact hasks.elim
    | _ => exact hasks.elim

/-! ### Steps on accounts -/

section Bodies

variable {u : Bytes} {a : Account} {ud j : Userdata}

/-- Without faults a record that is there is read. -/
theorem AccountStep.read_some {x : ℤ × Entry} {a' : Account}
    (h : AccountStep True u a (.db (.ioOpUsrEnt ⟨u, .user j⟩ .read)) x a')
    (hud : a.record = some ud) :
    x = (dbmsSuccess, ⟨u, .user ud⟩) := by
  rcases h.2 j rfl with ⟨ud', hud', hx⟩ | ⟨-, -, hnone⟩
  · obtain rfl := Option.some.inj (hud'.symm.trans hud)
    exact hx
  · rw [hnone trivial] at hud
    exact absurd hud (by simp)

/-- A record that is not there is not read. -/
theorem AccountStep.read_none {x : ℤ × Entry} {a' : Account}
    (h : AccountStep True u a (.db (.ioOpUsrEnt ⟨u, .user j⟩ .read)) x a')
    (hnone : a.record = none) :
    x.1 < 0 := by
  rcases h.2 j rfl with ⟨ud, hud, -⟩ | ⟨hneg, -⟩
  · rw [hud] at hnone
    exact absurd hnone (by simp)
  · exact hneg

/-- Without faults a record that is there is rewritten. -/
theorem AccountStep.modify_some {x : ℤ × Entry} {a' : Account} (ud' : Userdata)
    (h : AccountStep True u a (.db (.ioOpUsrEnt ⟨u, .user ud'⟩ .modify)) x a')
    (hsome : a.record ≠ none) : x.1 = dbmsSuccess ∧ a' = a.write ud' := by
  obtain ⟨ud'', he, hrewrites⟩ := h
  obtain rfl : ud' = ud'' := by simpa using he
  rcases hrewrites with ⟨hx, ha', -⟩ | ⟨-, -, hnone⟩
  · exact ⟨hx, ha'⟩
  · exact absurd (hnone trivial).2 hsome

/-- To drop what does not wait changes nothing. -/
theorem Account.drop_eq_self {id : UInt32} (h : a.pending id = none) : a.drop id = a := by
  unfold Account.drop
  rw [← h, Function.update_eq_self]

/-! ### The drain -/

/-- **The drain**, by induction on its rounds. -/
theorem must_drainLoop (fuel : ℕ) {m : Message} {e : Entry} (hud : a.record = some ud) :
    (drainLoop fuel ⟨u, .msg m⟩ ⟨u, .user j⟩ e).Must (AccountStep True u)
      (fun t v a' => v ≠ none → Drained a (acts t) a') a := by
  induction fuel generalizing a m j e with
  | zero => exact must_ret fun hv => absurd rfl hv
  | succ fuel ih =>
      rw [drainLoop]
      refine must_perform_bind fun (g : ℤ × Entry) a₁ hg => ?_
      obtain ⟨rfl, m₀, he, hfinds⟩ := hg
      have hsome : a₁.record ≠ none := by rw [hud]; simp
      split
      · rename_i hok
        -- what is found waits, or is what a file without a message leaves
        have hoffer : ∃ m', g.2 = ⟨u, .msg m'⟩ ∧ a₁.Offers m' := by
          rcases hfinds with ⟨hneg, -⟩ | ⟨-, ⟨m', hm', hg'⟩ | ⟨hstray, id, hg'⟩⟩
          · rw [hok] at hneg
            exact absurd hneg (by decide)
          · exact ⟨m', hg', Or.inl hm'⟩
          · exact ⟨_, hg', Or.inr (hstray trivial)⟩
        obtain ⟨m', hm', hoffer⟩ := hoffer
        dsimp only
        rw [hm']
        refine must_cltSendMessage fun x t l result hx ht hpre hall _ => ?_
        obtain rfl := hx.read_some hud
        split
        · rename_i hzero
          obtain rfl : result = 0 := hzero
          obtain rfl := hall rfl
          refine must_perform_bind fun (y : ℤ × Entry) a₂ hy => ?_
          have hdrops : a₂ = a₁.drop m'.id ∧
              (decide (0 ≤ y.1) = false → a₁.pending m'.id = none) := by
            obtain ⟨m'', he'', hdrops⟩ := hy
            obtain rfl : m' = m'' := by simpa using he''
            rcases hdrops with ⟨hpos, rfl⟩ | ⟨hneg, rfl, hnone⟩
            · exact ⟨rfl, fun hfalse => absurd hpos (of_decide_eq_false hfalse)⟩
            · exact ⟨(Account.drop_eq_self (hnone trivial)).symm, fun _ => hnone trivial⟩
          obtain ⟨rfl, hgone⟩ := hdrops
          refine must_cltSendMessAck fun x' t' ack result' hx' ht' hack _ => ?_
          refine (ih (a := a₁.drop m'.id) hud).mono fun t'' v a' hrest hv => ?_
          have hdrained :=
            Drained.sent m' (decide (0 ≤ y.1)) ack result' hoffer hgone hack (hrest hv)
          rw [acts_getPendMsg, acts_read, acts_append, acts_tells ht,
            acts_cltSendMessage, acts_delete,
            acts_read, acts_append, acts_tells ht', acts_cltSendMessAck]
          exact hdrained
        · -- the transmission failed: the record is rewritten, and the drain stops
          rename_i hne
          refine must_perform_bind fun (y : ℤ × Entry) a₂ hy => must_ret fun _ => ?_
          obtain ⟨hok', rfl⟩ := AccountStep.modify_some ud.lost hy hsome
          have hdrained := Drained.failed m' l result hoffer hpre hne hud
          rw [acts_getPendMsg, acts_read, acts_append, acts_tells ht,
            acts_cltSendMessage, acts_modify,
            hok']
          exact hdrained
      · rename_i hbad
        refine must_ret fun _ => Drained.stop fun hstray id => ?_
        rcases hfinds with ⟨-, -, hnone⟩ | ⟨hok, -⟩
        · exact hnone trivial hsome hstray id
        · exact absurd hok hbad

/-- **`aux_connect_send_pend_msgs`** -/
theorem must_auxConnectSendPendMsgs (fuel : ℕ) (m : Message) (a : Account) :
    (auxConnectSendPendMsgs fuel ⟨u, .msg m⟩).Must (AccountStep True u)
      (fun t v a' => v ≠ none → Draining a (acts t) a') a := by
  rw [auxConnectSendPendMsgs]
  refine must_uninit fun junk => must_read fun x hx => ?_
  cases hrec : a.record with
  | none =>
      have hneg := hx.read_none hrec
      rw [if_pos hneg]
      refine must_ret fun _ => ?_
      rw [acts_uninit, acts_read]
      exact Draining.unknown junk hrec
  | some ud =>
      obtain rfl := hx.read_some hrec
      rw [if_neg (show ¬ dbmsSuccess < 0 by decide)]
      refine (must_drainLoop fuel hrec).mono fun t v a' hdrained hv => ?_
      rw [acts_uninit, acts_read]
      exact Draining.known junk (by rw [hrec]; simp) (hdrained hv)

/-- What is left to do once a reply code is known. -/
theorem must_reply {S : Type} {R : S → (o : SrvOp) → o.Ans → S → Prop} [Modest R] {w : S}
    {code : UInt8}
    {Q : List srvE.Event → Unit → S → Prop}
    (h : ∀ t, acts t = [.replied [code]] → Q t () w) :
    (sendServerReply code >>= fun _ => (return () : Srv Unit)).Must R Q w := by
  refine must_sendServerReply fun ok t r ht _ => must_ret (h _ ?_)
  rw [acts_write, List.append_nil, acts_closes ht]

/-! ### `CONNECT`, `DISCONNECT`, `REGISTER` and `UNREGISTER` -/

/-- **The reply to `CONNECT`** is decided from what was read. -/
theorem must_srvConnectReply {port : Bytes} {byte : UInt8} {x : ℤ × Entry}
    (hx : AccountStep True u a (.db (.ioOpUsrEnt ⟨u, .user j⟩ .read)) x a) :
    (srvConnectReply port byte x.1 x.2).Must (AccountStep True u)
      (fun t code a' => Connecting port a (acts t ++ [.replied [code]]) a') a := by
  cases hrec : a.record with
  | none =>
      -- nobody is registered
      have hneg := hx.read_none hrec
      unfold srvConnectReply
      split
      · exact must_ret (Connecting.unknown _ hrec (by decide))
      · exact must_ret (Connecting.unknown _ hrec (by decide))
  | some ud =>
      -- the record is the stored one
      obtain rfl := hx.read_some hrec
      unfold srvConnectReply
      rw [if_neg (show dbmsSuccess ≠ dbmsErrNotExists by decide),
        if_neg (show ¬ dbmsSuccess < 0 by decide)]
      split
      · exact must_ret (Connecting.refused ud _ hrec (by decide))
      rename_i hstatus
      refine must_inert (by simp) (by simp) fun (peer : Option UInt32) => ?_
      dsimp only
      cases hport : strToNum port .int with
      | error err =>
          have hcode : (if peer.isNone = true then srvErrCnAny else
              if (Except.error err : Except _ ℤ).toOption.isNone = true
                then srvErrCnAny else byte) =
                srvErrCnAny := by
            cases peer <;> rfl
          rw [if_neg (by rw [hcode]; simp), hcode]
          apply must_ret
          rw [acts_getpeername]
          exact Connecting.refused ud _ hrec (by decide)
      | ok p =>
          cases peer with
          | none =>
              rw [if_neg (by simp)]
              apply must_ret
              rw [acts_getpeername]
              exact Connecting.refused ud srvErrCnAny hrec (by decide)
          | some ip =>
              simp only [Option.isNone_some, Except.toOption, Bool.false_eq_true, if_false]
              split
              · refine must_perform_bind fun (y : ℤ × Entry) a₁ hy => must_ret ?_
                obtain ⟨hok, rfl⟩ := AccountStep.modify_some (ud.connected ip p) hy
                  (by rw [hrec]; simp)
                rw [acts_getpeername, acts_modify, hok]
                exact Connecting.accepted ud ip p hrec hstatus hport
              · rename_i hbyte
                apply must_ret
                rw [acts_getpeername, not_not.mp hbyte]
                exact Connecting.refused ud _ hrec (by decide)

/-- **`srv_connect`** -/
theorem serves_connect (fuel : ℕ) (port : Bytes) (a : Account) :
    (srvConnectBody fuel u port).Must (AccountStep True u)
      (fun t v a' => v ≠ none → Served u a (.connect u port) (acts t) a') a := by
  rw [srvConnectBody]
  refine must_uninit fun junk => must_read fun x hx => ?_
  apply must_bind
  refine (must_srvConnectReply hx).mono fun t code a₁ hconnecting => ?_
  refine must_sendServerReply fun ok t' r ht' _ => ?_
  apply must_bind
  refine (must_auxConnectSendPendMsgs fuel junk.msg a₁).mono fun t'' v a' hdraining => must_ret ?_
  intro hv
  have hserved :=
    Served.connected (u := u) junk hconnecting (hdraining (by rintro rfl; exact hv rfl))
  rw [acts_uninit, acts_read, acts_append, acts_write, acts_append, acts_closes ht', acts_append]
  simp only [List.append_assoc, List.cons_append, List.nil_append, acts_nil,
    List.append_nil] at hserved ⊢
  exact hserved

/-- **`srv_disconnect`** -/
theorem serves_disconnect (a : Account) :
    (srvDisconnectBody u).Must (AccountStep True u)
      (fun t _ a' => Served u a (.disconnect u) (acts t) a') a := by
  rw [srvDisconnectBody]
  refine must_uninit fun junk => must_read fun x hx => ?_
  apply must_bind
  unfold srvDisconnectReply
  cases hrec : a.record with
  | none =>
      have hneg := hx.read_none hrec
      have hrefused : ∀ code, code ≠ srvSuccess → ∀ t, acts t = [.replied [code]] →
          Served u a (.disconnect u) (acts (⟨SrvOp.uninit, junk⟩ ::
            ⟨SrvOp.db (.ioOpUsrEnt ⟨u, .user junk.user⟩ .read), x⟩ :: ([] ++ t))) a := by
        intro code hcode t ht
        rw [acts_uninit, acts_read, List.nil_append, ht]
        refine Served.notConnected junk code hcode fun ud hud => ?_
        rw [hrec] at hud
        exact absurd hud (by simp)
      split
      · exact must_ret (must_reply (hrefused _ (by decide)))
      · exact must_ret (must_reply (hrefused _ (by decide)))
  | some ud =>
      obtain rfl := hx.read_some hrec
      rw [if_neg (show dbmsSuccess ≠ dbmsErrNotExists by decide),
        if_neg (show ¬ dbmsSuccess < 0 by decide)]
      split
      · rename_i hstatus
        refine must_ret (must_reply fun t ht => ?_)
        rw [acts_uninit, acts_read, List.nil_append, ht]
        refine Served.notConnected junk srvErrDcnUsrNotCn (by decide) fun ud' hud' => ?_
        obtain rfl := Option.some.inj (hrec.symm.trans hud')
        exact hstatus
      · rename_i hstatus
        refine must_perform_bind fun (y : ℤ × Entry) a₁ hy =>
          must_ret (must_reply fun t ht => ?_)
        obtain ⟨hok, rfl⟩ := AccountStep.modify_some ud.left hy (by rw [hrec]; simp)
        rw [acts_uninit, acts_read, List.cons_append, acts_modify, List.nil_append, ht, hok]
        exact Served.disconnected junk ud hrec hstatus

/-- **`srv_register`** -/
theorem serves_register (a : Account) :
    (srvRegisterBody u).Must (AccountStep True u)
      (fun t _ a' => Served u a (.register u) (acts t) a') a := by
  rw [srvRegisterBody]
  refine must_uninit fun junk => must_perform_bind fun (x : ℤ) a₁ hx => must_reply
    fun t ht => ?_
  obtain ⟨ud, he, hopens⟩ := hx
  obtain rfl : { junk.user with lastMsgId := 0 } = ud := by simpa using he
  rw [acts_uninit, acts_creatUsrTbl, ht]
  rcases hopens with ⟨rfl, rfl, hsome⟩ | ⟨rfl, hnone, rfl⟩ | ⟨rfl, -, hrefused⟩
  · rw [if_pos rfl]
    exact Served.alreadyRegistered junk (hsome trivial)
  · rw [if_neg (by decide)]
    exact Served.registered junk hnone
  · obtain ⟨rfl, hnone⟩ := hrefused trivial
    rw [if_neg (by decide)]
    exact Served.unregisterable junk hnone

/-- **`srv_unregister`** -/
theorem serves_unregister (a : Account) :
    (srvUnregisterBody u).Must (AccountStep True u)
      (fun t _ a' => Served u a (.unregister u) (acts t) a') a := by
  rw [srvUnregisterBody]
  refine must_userExists fun (x : ℤ) hx => ?_
  have hone : x = 1 ↔ a.record ≠ none := hx.2 trivial rfl
  apply must_bind
  unfold srvUnregisterReply
  by_cases hrec : a.record = none
  · have hrefused : ∀ code, code ≠ srvSuccess → ∀ t, acts t = [.replied [code]] →
        Served u a (.unregister u) (acts (⟨SrvOp.db (.userExists u), x⟩ :: ([] ++ t))) a := by
      intro code hcode t ht
      rw [acts_userExists, List.nil_append, ht]
      exact Served.notRegistered code hcode hrec
    rw [if_neg fun h => hone.mp h hrec]
    split
    · exact must_ret (must_reply (hrefused _ (by decide)))
    · exact must_ret (must_reply (hrefused _ (by decide)))
  · rw [if_pos (hone.mpr hrec)]
    refine must_perform_bind fun (y : ℤ) a₁ hy => must_ret (must_reply fun t ht => ?_)
    rw [acts_userExists, List.cons_append, acts_delUsrTbl, List.nil_append, ht]
    rcases hy.2 with ⟨hpos, rfl⟩ | ⟨-, -, hnone⟩
    · rw [if_neg (not_lt.mpr hpos)]
      exact Served.unregistered y hpos hrec
    · exact absurd (hnone trivial).2 hrec

/-! ### `SEND` -/

/-- Questions are no acts. -/
theorem acts_asks {t : List srvE.Event} (h : ∀ ev ∈ t, Asks ev.1) : acts t = [] := by
  refine acts_silent fun ev hev => ?_
  obtain ⟨o, x⟩ := ev
  have ho := h _ hev
  cases o with
  | db call =>
      cases call with
      | userExists v => rfl
      | ioOpUsrEnt e mode =>
          cases mode with
          | read => rfl
          | _ => exact ho.elim
      | _ => exact ho.elim
  | _ => exact ho.elim

/-- What is left of the reply to a sender. -/
theorem acts_firstAck {t : List srvE.Event} {code : UInt8} {id : UInt32}
    (h : ∀ ev ∈ t, ev.1 = SrvOp.close .client ∨
      (code = srvSuccess ∧ ev.1 = SrvOp.write .client (decimal id.toNat ++ [0]))) :
    ∀ act ∈ acts t, code = srvSuccess ∧ act = .replied (decimal id.toNat ++ [0]) := by
  intro act hact
  obtain ⟨⟨o, x⟩, hev, heq⟩ := List.mem_filterMap.mp hact
  rcases h _ hev with rfl | ⟨hcode, rfl⟩
  · exact absurd heq (by simp [actOf])
  · exact ⟨hcode, (Option.some.inj heq).symm⟩

/-- **The end of `srv_send`** -/
theorem must_finishing (s : Bytes) (code : UInt8) (ud : Userdata) (m : Message) (a : Account) :
    (srvSendFinish s code ⟨u, .user ud⟩ ⟨u, .msg m⟩).Must (AccountStep True u)
      (fun t _ a' => a' = a ∧ Finishing ud m.id code (acts t)) a := by
  refine must_srvSendFinish (fun hstatus ok t ht => ⟨rfl, ?_⟩)
    (fun hstatus ok t ht junk x t' l result _ ht' hl _ => ⟨rfl, ?_⟩)
  · rw [acts_write]
    exact Finishing.bare _ (acts_firstAck ht) hstatus
  · rw [acts_write, acts_append, acts_uninit, acts_read, acts_append, acts_tells ht',
      acts_cltSendMessAck]
    exact Finishing.acked _ (acts_firstAck ht) junk l result hstatus hl

/-- **The message is passed on**, or not. -/
theorem must_passing {s c : Bytes} {k : UInt8 × Entry × Entry → Srv Unit}
    {Q : List srvE.Event → Unit → Account → Prop} (hud : a.record = some ud)
    (h : ∀ t ud' a₁, Passing a ud ⟨s, ud.lastMsgId, c⟩ (acts t) ud' a₁ →
        a₁.record = some ud' →
      (k (srvSuccess, ⟨u, .user ud'⟩, ⟨u, .msg ⟨s, ud.lastMsgId, c⟩⟩)).Must
      (AccountStep True u)
        (fun t' => Q (t ++ t')) a₁) :
    (auxSendMsgPass s u c srvSuccess ⟨u, .user ud⟩ >>= k).Must (AccountStep True u) Q a := by
  refine must_auxSendMsgPass (fun hstatus => ?_) (fun hstatus x t hx ht hpos => ?_)
    (fun hstatus x y t l result a₁ hx ht hpre hneg hresult hy => ?_)
  · exact h [] ud a (Passing.idle hstatus) hud
  · obtain rfl := hx.read_some hud
    have hrest :=
      h (⟨SrvOp.db (.ioOpUsrEnt ⟨u, .user ud⟩ .read), (dbmsSuccess, ⟨u, .user ud⟩)⟩ ::
      (t ++ [⟨SrvOp.note (.cltSendMessage ⟨u, .user ud⟩ ⟨s, ud.lastMsgId, c⟩ 0), ()⟩]))
        ud a ?_ hud
    · simp only [List.cons_append, List.append_assoc, List.nil_append] at hrest
      exact hrest
    · rw [acts_read, acts_append, acts_tells ht, acts_cltSendMessage]
      exact Passing.sent hstatus
  · obtain rfl := hx.read_some hud
    obtain ⟨hok, rfl⟩ := AccountStep.modify_some ud.lost hy (by rw [hud]; simp)
    rw [if_neg (show ¬ y.1 < 0 by rw [hok]; decide)]
    have hrest :=
      h (⟨SrvOp.db (.ioOpUsrEnt ⟨u, .user ud⟩ .read), (dbmsSuccess, ⟨u, .user ud⟩)⟩ ::
      (t ++
        [⟨SrvOp.note (.cltSendMessage ⟨u, .user ud⟩ ⟨s, ud.lastMsgId, c⟩ result), ()⟩,
        ⟨SrvOp.db (.ioOpUsrEnt ⟨u, .user ud.lost⟩ .modify), y⟩])) ud.lost
          (a.write ud.lost) ?_ rfl
    · simp only [List.cons_append, List.append_assoc, List.nil_append] at hrest
      exact hrest
    · rw [acts_read, acts_append, acts_tells ht, acts_cltSendMessage, acts_modify, hok]
      exact Passing.failed l result hstatus hpre hresult

/-- **`srv_send`** -/
theorem serves_send (s c : Bytes) (a : Account) :
    (srvSendBody s u c).Must (AccountStep True u)
      (fun t _ a' => Served u a (.send s u c) (acts t) a') a := by
  rw [srvSendBody]
  refine must_uninit fun junk => ?_
  refine must_auxSendInit (fun code e t hne hasks => ?_)
    (fun b b' x y a₁ _ _ _ _ hx hpos hy => ?_)
  · rw [if_pos hne]
    refine must_reply fun t' ht' => ?_
    rw [acts_uninit, acts_append, acts_asks hasks, ht']
    exact Served.rejected junk code hne
  obtain ⟨ud, hud, rfl⟩ : ∃ ud, a.record = some ud ∧
      x = (dbmsSuccess, ⟨u, .user ud⟩) := by
    rcases hx.2 junk.user rfl with hread | ⟨hneg, -⟩
    · exact hread
    · exact absurd hneg (not_lt.mpr hpos)
  -- the message has its id when the record is written back
  obtain ⟨hok, rfl⟩ := AccountStep.modify_some ud.next hy (by rw [hud]; simp)
  rw [if_neg (show ¬ y.1 < 0 by rw [hok]; decide),
    if_neg (show ¬ srvSuccess ≠ srvSuccess by decide)]
  refine must_passing (show (a.write ud.next).record = some ud.next from rfl)
    fun t ud' a₁ hpassing hrec => ?_
  have hbefore : ∀ t', acts (⟨SrvOp.uninit, junk⟩ :: ⟨SrvOp.db (.userExists s), b⟩ ::
      ⟨SrvOp.db (.userExists u), b'⟩ ::
      ⟨SrvOp.db (.ioOpUsrEnt ⟨u, .user junk.user⟩ .read),
        (dbmsSuccess, ⟨u, .user ud⟩)⟩ ::
      ⟨SrvOp.db (.ioOpUsrEnt (Entry.next ⟨u, .user ud⟩) .modify), y⟩ :: (t ++ t')) =
        .locals junk :: .wrote ud.next true :: (acts t ++ acts t') := by
    intro t'
    rw [acts_uninit, acts_userExists, acts_userExists, acts_read, acts_modify, acts_append, hok]
    rfl
  dsimp only
  split
  · -- the recipient is not connected any more: the message is stored
    rename_i hstore
    refine must_perform_bind fun (z : ℤ × Entry) a₂ hz => ?_
    obtain ⟨m, he, hstores⟩ := hz
    obtain rfl : (⟨s, ud.next.lastMsgId, c⟩ : Message) = m :=
      EntryData.msg.inj (congrArg Entry.data he)
    refine (must_finishing s _ ud' _ a₂).mono fun t' _ a' hfinishing => ?_
    obtain ⟨rfl, hfinishing⟩ := hfinishing
    rcases hstores with ⟨hz, hfree, rfl⟩ | ⟨hz, rfl, htaken⟩
    · rw [if_neg (by rw [hz]; decide)] at hfinishing
      have hserved :=
        Served.accepted (u := u) junk ud ud' srvSuccess hud hpassing (Shelving.stored hstore hfree)
        hfinishing
      rw [hbefore, acts_create, hz]
      exact hserved
    · rw [if_pos hz] at hfinishing
      have hserved := Served.accepted (u := u) junk ud ud' srvErrSendAny hud hpassing
        (Shelving.taken hstore (htaken trivial (by rw [hrec]; simp))) hfinishing
      rw [hbefore, acts_create, decide_eq_false (not_le.mpr hz)]
      exact hserved
  · -- the message has got through, and nothing is stored
    rename_i hskip
    rw [not_or, not_not] at hskip
    refine (must_finishing s _ ud' _ a₁).mono fun t' _ a' hfinishing => ?_
    obtain ⟨rfl, hfinishing⟩ := hfinishing
    have hserved := Served.accepted (u := u) junk ud ud' srvSuccess hud hpassing
      (Shelving.skipped hskip.1 hskip.2) hfinishing
    rw [hbefore]
    exact hserved

/-! ### Any request -/

/-- **The body of a request** serves it. -/
theorem must_body (fuel : ℕ) (req : Req) (hu : req.user = some u) (a : Account) :
    (req.body fuel).Must (AccountStep True u) (fun t v a' => v ≠ none →
        Served u a req (acts t) a') a := by
  have hfinished : ∀ p : Srv Unit, p.Must (AccountStep True u)
      (fun t _ a' => Served u a req (acts t) a') a →
      (finished p).Must (AccountStep True u) (fun t v a' => v ≠ none →
        Served u a req (acts t) a') a := by
    intro p hp
    refine must_bind (hp.mono fun t _ a' hserved => must_ret fun _ => ?_)
    rw [List.append_nil]
    exact hserved
  cases req with
  | register v =>
      obtain rfl := Option.some.inj hu
      exact hfinished _ (serves_register a)
  | unregister v =>
      obtain rfl := Option.some.inj hu
      exact hfinished _ (serves_unregister a)
  | connect v port =>
      obtain rfl := Option.some.inj hu
      exact serves_connect fuel port a
  | disconnect v =>
      obtain rfl := Option.some.inj hu
      exact hfinished _ (serves_disconnect a)
  | send s r c =>
      obtain rfl := Option.some.inj hu
      exact hfinished _ (serves_send s c a)
  | unknown => exact absurd hu (by simp [Req.user])

end Bodies

/-! ## Requests on kept accounts -/

section Kept

variable {calm : Prop} {fs fs' : FS} {u : Bytes} {a : Account}

/-- What is answered for an entry of the user is an entry of the user. -/
theorem AccountCall.possible (hs : Schema fs) (hfits : FitsBuf maxStrSize u) {call : DbCall}
    (hallowed : (ownNames u).Allowed (.db call)) {x : call.Ans}
    (hstep : DbStep (tidy calm) fs call x fs')
    {a' : Account} (h : AccountCall calm u a call x a') : (ownNames u).Possible (.db call) x := by
  have hposs : (tableNames fs.cwd (fs.table u)).Possible (.db call) x := by
    obtain ⟨t, hexec, ht⟩ := hstep
    exact (dbStep_confined hs (ownNames_allowed hfits hallowed) ⟨t, hexec, ht.1⟩).2
  cases call with
  | getPendMsg e =>
      obtain ⟨-, m, -, hfinds⟩ := h
      rcases hfinds with ⟨-, hx, -⟩ | ⟨-, ⟨m', -, hx⟩ | ⟨-, id, hx⟩⟩
      · exact ⟨u, m, hx, rfl⟩
      · exact ⟨u, m', hx, rfl⟩
      · exact ⟨u, _, hx, rfl⟩
  | ioOpUsrEnt e mode =>
      cases mode with
      | read =>
          rintro v j rfl rfl hgood
          obtain ⟨w, ud, hx, -, hid⟩ := hposs v j rfl ⟨hfits, rfl⟩ hgood
          rcases h.2 j rfl with ⟨ud', -, heq⟩ | ⟨-, heq, -⟩
          · obtain rfl : ud' = ud := by
              rw [heq] at hx
              simpa using congrArg Entry.data hx
            exact ⟨v, ud', by rw [heq], rfl, hid⟩
          · obtain rfl : j = ud := by
              rw [heq] at hx
              simpa using congrArg Entry.data hx
            exact ⟨v, j, heq, rfl, hid⟩
      | _ => trivial
  | _ => trivial

/-- **A confined program** on a file system that keeps an account runs as it does on the
account. -/
theorem exec_account (hkept : fs.Keeps calm u a) (hu : slash ∉ u) (hfits : FitsBuf maxStrSize u)
    {α : Type} {p : Srv α} (hp : p.Obeys (confined (ownNames u)) (fun _ _ => True) ())
    {input : List ReadEv} {t : List srvE.Event} {v : α} {w' : SrvWorld}
    (h : Exec (SrvStep (tidy calm)) p ⟨fs, input⟩ t v w') :
    ∃ a', Exec (AccountStep calm u) p a t v a' ∧ w'.fs.Keeps calm u a' := by
  have hstep : ∀ (w : SrvWorld) (a : Account) (ph : Unit) (o : SrvOp) (x : o.Ans) (w' : SrvWorld),
      w.fs.Keeps calm u a → (confined (ownNames u)).allowed ph o →
        SrvStep (tidy calm) w o x w' →
      (confined (ownNames u)).possible ph o x ∧
        ∃ a', AccountStep calm u a o x a' ∧ w'.fs.Keeps calm u a' := by
    intro w a ph o x w' hkept hallowed hR
    cases o with
    | db call =>
        obtain ⟨a', hcall, hkept'⟩ := keeps_call hkept hu hfits hallowed hR.1
        exact ⟨hcall.possible hkept.schema hfits hallowed hR.1, a', hcall, hkept'⟩
    | recv buf =>
        refine ⟨trivial, a, rfl, ?_⟩
        rw [hR.1]
        exact hkept
    | _ =>
        obtain rfl : w' = w := hR
        exact ⟨trivial, a, rfl, hkept⟩
  obtain ⟨a', -, hexec, hkept', -⟩ := h.simulate_obeys hstep hp hkept
  exact ⟨a', hexec, hkept'⟩

/-- **A request of the user** is served on the account. -/
theorem handles_served (hkept : fs.Keeps True u a) (hu : slash ∉ u) {req : Req} (hfits : req.Fits)
    (huser : req.user = some u) {t : List srvE.Event} (h : Handles noFaults fs req t fs') :
    ∃ a', Served u a req (acts t) a' ∧ fs'.Keeps True u a' := by
  obtain ⟨fuel, hexec⟩ := h
  have hown : ∀ v, req.user = some v → (ownNames u).Same v := by
    intro v hv
    exact Option.some.inj (hv.symm.trans huser)
  have htidy : Exec (SrvStep (tidy True)) (req.body fuel) ⟨fs, []⟩ t (some ()) ⟨fs', []⟩ :=
    hexec.mono fun _ _ _ _ _ hR => hR.mono fun call t ht =>
      ⟨noFaults_untorn call t ht, fun _ => ht⟩
  obtain ⟨a', hrun, hkept'⟩ := exec_account hkept hu ((hfits.user huser).mono (by decide))
    (body_confined fuel hfits hown) htidy
  exact ⟨a', must_body fuel req huser a t (some ()) a' hrun (by simp), hkept'⟩

/-- **A request of somebody else** leaves the account as it is. -/
theorem handles_apart (stray : Bool) (hkept : fs.Keeps calm u a) {req : Req} (hfits : req.Fits)
    (hother : ∀ v, req.user = some v → Apart fs.cwd v u)
    (hstray : stray = false → a.stray = false ∧ ∀ v, req.user = some v →
        Unrelated fs.cwd v u)
    {t : List srvE.Event} (h : Handles untorn fs req t fs') :
    fs'.Keeps calm u { a with stray := stray } := by
  cases hv : req.user with
  | some v =>
      exact (handles_touches hkept.schema hfits hv h).keeps (hother v hv) hkept
        fun hs => ⟨(hstray hs).1, (hstray hs).2 v hv⟩
  | none =>
      have hsame : fs' = fs := by
        cases req with
        | unknown =>
            obtain ⟨fuel, hexec⟩ := h
            exact congrArg SrvWorld.fs (exec_ret_iff.mp hexec).2.2
        | _ => exact absurd hv (by simp [Req.user])
      subst hsame
      exact hkept.frame hkept.schema rfl rfl rfl rfl (fun _ => rfl) fun hs =>
        ⟨(hstray hs).1, fun _ => rfl⟩

end Kept
