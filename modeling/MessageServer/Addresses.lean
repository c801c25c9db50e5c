/-
# Where the server connects to

* `must_body_granted`: a request calls a user at the user's address only;
* `run_calls`: so do all requests of a history, whatever system calls fail.
-/
import MessageServer.AddressThreads

/-! ## Requests on the address -/

section Requests

variable {u v : Bytes} {s s' : Option Address} {ads : List Address}
  {t : List srvE.Event} {req : Req}

/-- A reply, at the end of a thread that calls nobody. -/
theorem must_granted_reply {R : Option Address → (o : SrvOp) → o.Ans → Option Address →
      Prop} [Modest R] {code : UInt8}
    (ht : ∀ ev ∈ t, MakesNone ev.1 ∧ replyOf ev.1 = none)
    (hrecord : ∀ t' ad, reply t' = some code → (∀ ev ∈ t, ev ∈ t') → s = some ad →
        ad ∈ grants u ads (req, t')) :
    (sendServerReply code >>= fun _ => (return () : Srv Unit)).Must R
      (fun t' _ s' => Granted u ads req (t ++ t') s') s := by
  refine must_sendServerReply fun ok t' r ht' _ => must_ret (Granted.of_makesNone (fun ev hev => ?_)
    fun ad had => ?_)
  · rcases List.mem_append.mp hev with hev | hev
    · exact (ht ev hev).1
    · rcases List.mem_cons.mp hev with rfl | hev
      · trivial
      · rw [List.append_nil] at hev
        rw [ht' ev hev]
        trivial
  · refine hrecord _ ad ?_ (fun ev hev => List.mem_append_left _ hev) had
    rw [reply_append fun ev hev => (ht ev hev).2]
    exact reply_cons_some rfl

/-- What is granted when the request has been answered with success. -/
theorem grants_success (huser : req.user = some u) (h : reply t = some srvSuccess) :
    grants u ads (req, t) = req.gives t ads := if_pos ⟨huser, h⟩

theorem grants_failed {code : UInt8} (h : reply t = some code) (hcode : code ≠ srvSuccess) :
    grants u ads (req, t) = ads :=
  grants_refused fun hsuccess => hcode (Option.some.inj (h.symm.trans hsuccess))

/-! ### `REGISTER`, `UNREGISTER` and `DISCONNECT` -/

/-- **`REGISTER`** -/
theorem granted_register (hs : ∀ ad, s = some ad → ad ∈ ads) :
    (srvRegisterBody v).Must (AddressStep u (some v = some u))
      (fun t _ s' => Granted u ads (.register v) t s') s := by
  rw [srvRegisterBody]
  refine must_uninit fun junk => must_perform_bind fun (x : ℤ) s₁ hx => ?_
  refine must_granted_reply (t := [⟨SrvOp.uninit, junk⟩, ⟨SrvOp.db (.creatUsrTbl _), x⟩])
    (by simp [MakesNone, replyOf]) fun t' ad hreply hmem had => ?_
  by_cases hown : some v = some u
  · -- a refusal leaves the account alone
    rcases hx.2 hown with rfl | rfl | ⟨hne, rfl⟩
    · by_cases hcode : (if x = dbmsErrExists then srvErrRegUsrAlreadyReg else srvSuccess) =
        srvSuccess
      · rw [grants_success (show (Req.register v).user = some u from hown) (hcode ▸ hreply)]
        exact List.mem_append_right _ (hs ad had)
      · rw [grants_failed hreply hcode]
        exact hs ad had
    · cases had
    · rw [if_neg hne] at hreply
      rw [grants_success (show (Req.register v).user = some u from hown) hreply]
      obtain rfl := Option.some.inj had
      exact List.mem_append_left _ (mem_leftover (hmem _ List.mem_cons_self))
  · obtain rfl := hx.1 hown
    rw [grants_other (show (Req.register v).user ≠ some u from hown)]
    exact hs ad had

/-- **`UNREGISTER`** -/
theorem granted_unregister (hs : ∀ ad, s = some ad → ad ∈ ads) :
    (srvUnregisterBody v).Must (AddressStep u (some v = some u))
      (fun t _ s' => Granted u ads (.unregister v) t s') s := by
  have hrefused : ∀ (x : ℤ) (code : UInt8), code ≠ srvSuccess →
      (sendServerReply code >>= fun _ => (return () : Srv Unit)).Must
        (AddressStep u (some v = some u))
        (fun t _ s' => Granted u ads (.unregister v) ([⟨SrvOp.db (.userExists v), x⟩] ++ t) s')
          s := by
    intro x code hcode
    refine must_granted_reply (by simp [MakesNone, replyOf]) fun t' ad hreply _ had => ?_
    rw [grants_failed hreply hcode]
    exact hs ad had
  rw [srvUnregisterBody]
  refine must_userExists fun (x : ℤ) hx => ?_
  apply must_bind
  unfold srvUnregisterReply
  split
  · refine must_perform_bind fun (y : ℤ) s₁ hy => must_ret ?_
    refine must_granted_reply
      (t := [⟨SrvOp.db (.userExists v), x⟩, ⟨SrvOp.db (.delUsrTbl v), y⟩])
      (by simp [MakesNone, replyOf]) fun t' ad hreply _ had => ?_
    by_cases hown : some v = some u
    · rcases hy.2 hown with rfl | ⟨rfl, hneg⟩
      · cases had
      · rw [if_pos hneg] at hreply
        rw [grants_failed hreply (by decide)]
        exact hs ad had
    · obtain rfl := hy.1 hown
      rw [grants_other (show (Req.unregister v).user ≠ some u from hown)]
      exact hs ad had
  · split
    · exact must_ret (hrefused x _ (by decide))
    · exact must_ret (hrefused x _ (by decide))

/-- **`DISCONNECT`** -/
theorem granted_disconnect (hs : ∀ ad, s = some ad → ad ∈ ads) :
    (srvDisconnectBody v).Must (AddressStep u (some v = some u))
      (fun t _ s' => Granted u ads (.disconnect v) t s') s := by
  rw [srvDisconnectBody]
  refine must_uninit fun junk => must_read fun x hx => ?_
  have hrefused : ∀ code : UInt8, code ≠ srvSuccess →
      (sendServerReply code >>= fun _ => (return () : Srv Unit)).Must
        (AddressStep u (some v = some u))
        (fun t _ s' => Granted u ads (.disconnect v) ([⟨SrvOp.uninit, junk⟩,
          ⟨SrvOp.db (.ioOpUsrEnt ⟨v, .user junk.user⟩ .read), x⟩] ++ t) s') s := by
    intro code hcode
    refine must_granted_reply (by simp [MakesNone, replyOf]) fun t' ad hreply _ had => ?_
    rw [grants_failed hreply hcode]
    exact hs ad had
  apply must_bind
  unfold srvDisconnectReply
  split
  · exact must_ret (hrefused _ (by decide))
  split
  · exact must_ret (hrefused _ (by decide))
  split
  · exact must_ret (hrefused _ (by decide))
  rename_i hok _
  obtain ⟨w, j, he, -⟩ := knows_of_read hx (fun hown => Option.some.inj hown) hok
  refine must_perform_bind fun (y : ℤ × Entry) s₁ hy => must_ret ?_
  refine must_granted_reply
    (t := [⟨SrvOp.uninit, junk⟩, ⟨SrvOp.db (.ioOpUsrEnt ⟨v, .user junk.user⟩ .read), x⟩,
    ⟨SrvOp.db (.ioOpUsrEnt _ .modify), y⟩]) (by simp [MakesNone, replyOf])
      fun t' ad hreply _ had => ?_
  by_cases hown : some v = some u
  · rcases hy.2 hown with ⟨hy₁, rfl⟩ | ⟨hneg, hcases⟩
    · rw [hy₁, if_neg (by decide), if_neg (by decide)] at hreply
      rw [grants_success (show (Req.disconnect v).user = some u from hown) hreply]
      rw [he] at had
      exact List.mem_singleton.mpr (Option.some.inj had).symm
    · rw [grants_failed hreply (by split_ifs <;> decide)]
      rcases hcases with rfl | rfl
      · exact hs ad had
      · cases had
  · obtain rfl := hy.1 hown
    rw [grants_other (show (Req.disconnect v).user ≠ some u from hown)]
    exact hs ad had

/-! ### `CONNECT` -/

/-- The part of `CONNECT` that decides the reply. -/
theorem must_address_srvConnectReply {port : Bytes} {byte : UInt8} {x : ℤ × Entry} {j : Userdata}
    (hx : AddressStep u (some v = some u) s (.db (.ioOpUsrEnt ⟨v, .user j⟩ .read)) x s) :
    (srvConnectReply port byte x.1 x.2).Must (AddressStep u (some v = some u)) (fun t code s₁ =>
      (∀ ev ∈ t, MakesNone ev.1 ∧ replyOf ev.1 = none) ∧
        ((code ≠ srvSuccess ∧ (s₁ = s ∨ s₁ = none)) ∨
        (code = srvSuccess ∧
            ((v ≠ u ∧ s₁ = s) ∨ (v = u ∧ ∃ ad ∈ heard port t, s₁ = some ad)))))
            s := by
  unfold srvConnectReply
  split
  · exact must_ret ⟨by simp, Or.inl ⟨by decide, Or.inl rfl⟩⟩
  split
  · exact must_ret ⟨by simp, Or.inl ⟨by decide, Or.inl rfl⟩⟩
  split
  · exact must_ret ⟨by simp, Or.inl ⟨by decide, Or.inl rfl⟩⟩
  rename_i hok _
  -- the record has been read, and its user is not connected
  obtain ⟨w, ud, he, -⟩ := knows_of_read hx (fun hown => Option.some.inj hown) hok
  refine must_inert (by simp) (by simp) fun (peer : Option UInt32) => ?_
  have hasked : ∀ ev ∈ ([⟨SrvOp.getpeername, peer⟩] : List srvE.Event), MakesNone ev.1 ∧
      replyOf ev.1 = none := by
    simp [MakesNone, replyOf]
  have hrefused : ((return srvErrCnAny : Srv UInt8)).Must (AddressStep u (some v = some u))
      (fun t code s₁ =>
      (∀ ev ∈ ⟨SrvOp.getpeername, peer⟩ :: t, MakesNone ev.1 ∧ replyOf ev.1 = none) ∧
        ((code ≠ srvSuccess ∧ (s₁ = s ∨ s₁ = none)) ∨
          (code = srvSuccess ∧ ((v ≠ u ∧ s₁ = s) ∨
          (v = u ∧ ∃ ad ∈ heard port (⟨SrvOp.getpeername, peer⟩ :: t), s₁ = some ad)))))
            s :=
    must_ret ⟨hasked, Or.inl ⟨by decide, Or.inl rfl⟩⟩
  dsimp only
  cases hport : strToNum port .int with
  | error err =>
      have hcode : (if peer.isNone = true then srvErrCnAny else
          if (Except.error err : Except _ ℤ).toOption.isNone = true then srvErrCnAny else byte) =
            srvErrCnAny := by
        cases peer <;> rfl
      rw [if_neg (by rw [hcode]; simp), hcode]
      exact hrefused
  | ok p =>
      cases peer with
      | none =>
          rw [if_neg (by simp)]
          exact hrefused
      | some ip =>
          simp only [Option.isNone_some, Except.toOption, Bool.false_eq_true, if_false]
          split
          · refine must_perform_bind fun (y : ℤ × Entry) s₁ hy =>
              must_ret ⟨by simp [MakesNone, replyOf], ?_⟩
            by_cases hown : some v = some u
            · rcases hy.2 hown with ⟨hy₁, rfl⟩ | ⟨hneg, hcases⟩
              · refine Or.inr ⟨by rw [hy₁]; rfl,
                  Or.inr ⟨Option.some.inj hown, _, mem_heard List.mem_cons_self hport, ?_⟩⟩
                rw [he]
                rfl
              · refine Or.inl ⟨?_, hcases⟩
                split
                · decide
                · decide
            · obtain rfl := hy.1 hown
              have hne : v ≠ u := fun heq => hown (congrArg some heq)
              split_ifs
              · exact Or.inl ⟨by decide, Or.inl rfl⟩
              · exact Or.inl ⟨by decide, Or.inl rfl⟩
              · exact Or.inr ⟨rfl, Or.inl ⟨hne, rfl⟩⟩
          · rename_i hbyte
            rw [not_not.mp hbyte]
            exact hrefused

/-- **`CONNECT`** -/
theorem granted_connect (fuel : ℕ) (port : Bytes) (hs : ∀ ad, s = some ad → ad ∈ ads) :
    (srvConnectBody fuel v port).Must (AddressStep u (some v = some u))
      (fun t _ s' => Granted u ads (.connect v port) t s') s := by
  rw [srvConnectBody]
  refine must_uninit fun junk => must_read fun x hx => ?_
  apply must_bind
  refine (must_address_srvConnectReply hx).mono fun t₁ code s₁ hdecided => ?_
  obtain ⟨hquiet, hcases⟩ := hdecided
  refine must_sendServerReply fun ok t₂ r ht₂ _ => ?_
  apply must_bind
  refine (must_atAddress_auxConnectSendPendMsgs fuel junk.msg fun hown => Option.some.inj hown).mono
    fun t₃ v' s' hat => must_ret ?_
  -- before the drain the thread makes no connection
  have hmute : ∀ ev ∈ (⟨SrvOp.uninit, junk⟩ ::
      ⟨SrvOp.db (.ioOpUsrEnt ⟨v, .user junk.user⟩ .read), x⟩ ::
      (t₁ ++ ⟨SrvOp.write .client [code], ok⟩ :: t₂) : List srvE.Event), MakesNone ev.1 := by
    intro ev hev
    rcases List.mem_cons.mp hev with rfl | hev
    · trivial
    rcases List.mem_cons.mp hev with rfl | hev
    · trivial
    rcases List.mem_append.mp hev with hev | hev
    · exact (hquiet ev hev).1
    rcases List.mem_cons.mp hev with rfl | hev
    · trivial
    · rw [ht₂ ev hev]
      trivial
  have hreply :
      reply
      ((⟨SrvOp.uninit, junk⟩ ::
      ⟨SrvOp.db (.ioOpUsrEnt ⟨v, .user junk.user⟩ .read), x⟩ ::
      (t₁ ++ ⟨SrvOp.write .client [code], ok⟩ :: t₂) : List srvE.Event) ++ t₃) =
        some code := by
    rw [List.cons_append, List.cons_append, List.append_assoc]
    refine (reply_cons rfl).trans ((reply_cons rfl).trans ?_)
    exact (reply_append fun ev hev => (hquiet ev hev).2).trans (reply_cons_some rfl)
  have hgranted : Granted u ads (.connect v port) ((⟨SrvOp.uninit, junk⟩ ::
      ⟨SrvOp.db (.ioOpUsrEnt ⟨v, .user junk.user⟩ .read), x⟩ ::
        (t₁ ++ ⟨SrvOp.write .client [code], ok⟩ :: t₂) :
        List srvE.Event) ++ t₃) s' := by
    refine hat.granted hmute fun ad had => ?_
    -- refused, accepted for somebody else, accepted for the user
    rcases hcases with ⟨hcode, hkept⟩ | ⟨rfl, ⟨hne, rfl⟩ | ⟨rfl, ad', hmem, hs₁⟩⟩
    · rw [grants_failed hreply hcode]
      rcases hkept with rfl | rfl
      · exact hs ad had
      · cases had
    · have hother : (Req.connect v port).user ≠ some u := fun heq => hne (Option.some.inj heq)
      rw [grants_other hother]
      exact hs ad had
    · rw [grants_success rfl hreply]
      obtain rfl := Option.some.inj (hs₁.symm.trans had)
      obtain ⟨ev, hev, hgives⟩ := List.mem_filterMap.mp hmem
      refine List.mem_filterMap.mpr ⟨ev, List.mem_append_left _ ?_, hgives⟩
      exact List.mem_cons_of_mem _ (List.mem_cons_of_mem _ (List.mem_append_left _ hev))
  rw [List.append_nil]
  simp only [List.cons_append, List.append_assoc] at hgranted
  exact hgranted

/-! ### Any request -/

/-- **A request calls a user at the user's address only.** -/
theorem must_body_granted (fuel : ℕ) (req : Req) (hs : ∀ ad, s = some ad → ad ∈ ads) :
    (req.body fuel).Must (AddressStep u (req.user = some u))
      (fun t _ s' => Granted u ads req t s') s := by
  have hfinished :
      ∀ {R : Option Address → (o : SrvOp) → o.Ans → Option Address → Prop} {p : Srv Unit},
      p.Must R (fun t _ s' => Granted u ads req t s') s →
        (finished p).Must R (fun t _ s' => Granted u ads req t s') s := by
    intro R p hp
    refine must_bind (hp.mono fun t _ s' hgranted => must_ret ?_)
    rw [List.append_nil]
    exact hgranted
  cases req with
  | register v => exact hfinished (granted_register hs)
  | unregister v => exact hfinished (granted_unregister hs)
  | connect v port => exact granted_connect fuel port hs
  | disconnect v => exact hfinished (granted_disconnect hs)
  | send sender v c =>
      have hsend :=
        must_atAddress_srvSendBody (s := s) sender c
          (fun hown : some v = some u => Option.some.inj hown)
      refine hfinished (hsend.mono fun t _ s' hat => ?_)
      exact hat.granted (t := []) (by simp) fun ad had => by
        rw [grants_send]
        exact hs ad had
  | unknown =>
      refine must_ret (Granted.of_makesNone (by simp) fun ad had => ?_)
      rw [grants_other (by simp [Req.user])]
      exact hs ad had

end Requests

/-! ## Histories -/

/-- A request is handled to its end, and no transfer is torn; other system calls may fail at any
moment.  It is for `u`, or for a user whose table does not meet that of `u`. -/
def HandledBeside (u : Bytes) (fs : FS) (step : Turned) (fs' : FS) : Prop :=
  step.1.Fits ∧ Handles untorn fs step.1 step.2 fs' ∧ ∀ v, step.1.user = some v → v = u ∨
    Apart fs.cwd v u

section Histories

variable {u : Bytes} {fs fs' : FS} {H : List Turned} {step : Turned}

/-- The address in the record of `u` is one that the history has given. -/
def Addressed (u : Bytes) (H : List Turned) (fs : FS) : Prop :=
  ∃ a, fs.Keeps False u a ∧ ∀ ad, a.address = some ad → ad ∈ addresses u H

/-- **The step lemma.** -/
theorem Addressed.handled (h : Addressed u H fs) (hu : slash ∉ u) (hfits : FitsBuf maxStrSize u)
    (hstep : HandledBeside u fs step fs') :
    Addressed u (H ++ [step]) fs' ∧ ∀ ad ∈ calls u none step.2,
      ad ∈ addresses u (H ++ [step]) := by
  obtain ⟨a, hkept, hs⟩ := h
  obtain ⟨hreq, hhandles, hothers⟩ := hstep
  obtain ⟨fuel, a', hexec, hkept'⟩ := exec_address hkept hu hfits hreq hothers hhandles
  have hgranted := must_body_granted fuel step.1 hs _ _ _ hexec
  rw [addresses_snoc]
  refine ⟨⟨a', hkept', fun ad had => ?_⟩, hgranted.called none⟩
  rw [addresses_snoc]
  exact hgranted.record ad had

/-- **The server calls a user at the user's address.**  Over every history from an empty database,
whatever system calls fail, the connections that a request makes for `u` go to an address that the
requests answered so far have given `u`, and so does the one in the record of `u` afterwards. -/
theorem run_calls {fs₀ : FS} (hu : slash ∉ u) (hfits : FitsBuf maxStrSize u)
    (hfresh : fs₀.Fresh)
    (h : Run (HandledBeside u) fs₀ H fs) :
    (∀ H₁ step H₂, H = H₁ ++ step :: H₂ → ∀ ad ∈ calls u none step.2,
        ad ∈ addresses u (H₁ ++ [step])) ∧
      ∀ ud, fs.content (userdataPath u) = Entry.image ⟨u, .user ud⟩ →
        ud.address ∈ addresses u H := by
  suffices hall : (∀ H₁ step H₂, H = H₁ ++ step :: H₂ →
      ∀ ad ∈ calls u none step.2, ad ∈ addresses u (H₁ ++ [step])) ∧ Addressed u H fs by
    refine ⟨hall.1, fun ud hud => ?_⟩
    obtain ⟨a, hkept, hs⟩ := hall.2
    have hcontent := hkept.content_record hu
    rw [hud] at hcontent
    cases hrec : a.record with
    | none =>
        rw [hrec] at hcontent
        exact absurd hcontent (image_ne_nil _)
    | some ud' =>
        rw [hrec] at hcontent
        have hsame := image_inj (fits_user hfits ud) (fits_user hfits ud') hcontent
        obtain rfl : ud = ud' := by simpa using hsame
        exact hs _ (congrArg (Option.map Userdata.address) hrec)
  induction h with
  | nil =>
      refine ⟨fun H₁ step H₂ heq => ?_, ⟨.empty, hfresh.keeps hu, fun ad had => ?_⟩⟩
      · exact absurd heq (by simp)
      · cases had
  | @snoc H fs₁ fs₂ last _ hstep ih =>
      obtain ⟨hbefore, haddressed⟩ := ih
      obtain ⟨haddressed', hcalls⟩ := haddressed.handled hu hfits hstep
      refine ⟨fun H₁ step H₂ heq => ?_, haddressed'⟩
      rcases List.eq_nil_or_concat H₂ with rfl | ⟨H₃, last', rfl⟩
      · obtain ⟨rfl, hlast⟩ := List.append_inj' heq rfl
        obtain rfl := List.singleton_inj.mp hlast
        exact hcalls
      · rw [List.concat_eq_append, ← List.cons_append, ← List.append_assoc] at heq
        obtain ⟨rfl, -⟩ := List.append_inj' heq rfl
        exact hbefore H₁ step H₃ rfl

end Histories

/-! ## A message to a connected user -/

/-- A step of a history without faults. -/
theorem HandledApart.beside {u : Bytes} {fs fs' : FS} {step : Turned}
    (h : HandledApart u fs step fs') :
    HandledBeside u fs step fs' :=
  ⟨h.1.1, h.1.2.untorn, fun v hv => (h.2 v hv).imp_right fun hunrel => hunrel.apart⟩

/-- The local record happens to hold an address. -/
def staleAddress (_ : ℕ) : SrvChoice :=
  { (default : SrvChoice) with junk := ⟨0, ⟨0, 77, 99, 0⟩, default⟩ }

/-- The client is at address 10. -/
def peerTen (_ : ℕ) : SrvChoice := { (default : SrvChoice) with ip := some 10 }

/-- `a`, who has never connected, sends a message to `b`. -/
def sendToTen : Script :=
  [(.register (ascii "a"), staleAddress), (.register (ascii "b"), calm),
    (.connect (ascii "b") (ascii "7000"), peerTen),
      (.send (ascii "a") (ascii "b") (ascii "hi"), calm)]

theorem sendToTen_plays :
    Plays 2 sendToTen emptyDb ∧ (history 2 sendToTen emptyDb).1.length = 4 ∧
    ((history 2 sendToTen emptyDb).1[3]?.map fun step =>
      (calls (ascii "b") none step.2, calls (ascii "a") none step.2)) =
        some ([(10, 7000)], [(77, 99)]) := by
  decide +kernel

theorem sendToTen_run (u : Bytes) (hu : slash ∉ u) :
    Run (HandledBeside u) emptyDb (history 2 sendToTen emptyDb).1
      (history 2 sendToTen emptyDb).2 := by
  have hcalm : ∀ c ∈ sendToTen, ∀ n, (c.2 n).Calm := by
    simp only [sendToTen, List.forall_mem_cons, List.not_mem_nil, false_imp_iff,
      implies_true, and_true]
    exact ⟨fun _ _ => rfl, calm_calm, fun _ _ => rfl, calm_calm⟩
  exact (run_script_apart hu hcalm sendToTen_plays.1 (by decide)).mono fun _ _ _ =>
    HandledApart.beside

/-- The message is for `b` at the address of the `CONNECT`; the acknowledgement for `a`, whom no
`CONNECT` has given an address, goes where the local record of the `REGISTER` has pointed. -/
theorem run_calls_send : ∃ H₁ step, (history 2 sendToTen emptyDb).1 = H₁ ++ [step] ∧
    (10, 7000) ∈ calls (ascii "b") none step.2 ∧ (10, 7000) ∈ addresses (ascii "b")
      (H₁ ++ [step]) ∧
    (77, 99) ∈ calls (ascii "a") none step.2 ∧ (77, 99) ∈ addresses (ascii "a")
      (H₁ ++ [step]) := by
  obtain ⟨-, hlength, hlast⟩ := sendToTen_plays
  obtain ⟨step, hstep, hcalls⟩ := Option.map_eq_some_iff.mp hlast
  obtain ⟨hb, ha⟩ := Prod.mk.inj hcalls
  have hcallsB : (10, 7000) ∈ calls (ascii "b") none step.2 := hb ▸ List.mem_cons_self
  have hcallsA : (77, 99) ∈ calls (ascii "a") none step.2 := ha ▸ List.mem_cons_self
  have hsplit : (history 2 sendToTen emptyDb).1 = (history 2 sendToTen emptyDb).1.take
      3 ++ [step] := by
    obtain ⟨hlt, rfl⟩ := List.getElem?_eq_some_iff.mp hstep
    rw [List.take_concat_get' _ _ hlt]
    exact (List.take_of_length_le hlength.le).symm
  have hrunB :=
    (run_calls (by decide) (by decide) emptyDb_fresh (sendToTen_run (ascii "b") (by decide))).1
  have hrunA :=
    (run_calls (by decide) (by decide) emptyDb_fresh (sendToTen_run (ascii "a") (by decide))).1
  exact ⟨_, step, hsplit, hcallsB, hrunB _ step [] hsplit _ hcallsB, hcallsA,
    hrunA _ step [] hsplit _ hcallsA⟩
