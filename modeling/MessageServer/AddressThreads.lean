/-
# Threads on the address

What the functions of `services.c` do with the address that they have read.

* `AtAddress`: a thread has called the user at the address that it has read, which is there still or
  lost;
* the functions that call a listener, and the drain.
-/
import MessageServer.AddressRecords

/-! ## Threads on the address -/

/-- The thread has called `u` at the address `s` only, which is there still, or is lost. -/
structure AtAddress (u : Bytes) (s : Option Address) (t : List srvE.Event) (s' : Option Address) :
    Prop where
  called : ∀ r, ∀ ad ∈ calls u r t, s = some ad
  kept : s' = s ∨ s' = none

/-- The thread has called `u` at addresses that `u` has after the request, and one of them is in the
record. -/
structure Granted (u : Bytes) (ads : List Address) (req : Req) (t : List srvE.Event)
    (s' : Option Address) : Prop where
  called : ∀ r, ∀ ad ∈ calls u r t, ad ∈ grants u ads (req, t)
  record : ∀ ad, s' = some ad → ad ∈ grants u ads (req, t)

/-- An entry for a record, which is that of `u` as the thread has read it when the thread works for
`u`. -/
def Knows (u : Bytes) (own : Prop) (s : Option Address) (e : Entry) : Prop :=
  ∃ v j, e = ⟨v, .user j⟩ ∧ (own → v = u ∧ s = some j.address)

/-! ### Steps that keep still -/

/-- The steps that make no connection and change no address. -/
def Stills : SrvOp → Prop
  | .connect _ _ => False
  | .db (.ioOpUsrEnt _ .modify) => False
  | .db (.creatUsrTbl _) => False
  | .db (.delUsrTbl _) => False
  | _ => True

theorem Stills.makesNone {o : SrvOp} (h : Stills o) : MakesNone o := by
  cases o with
  | connect ip port => exact h.elim
  | _ => trivial

theorem AddressStep.still {u : Bytes} {own : Prop} {s s' : Option Address} {o : SrvOp} {x : o.Ans}
    (h : AddressStep u own s o x s') (ho : Stills o) : s' = s := by
  cases o with
  | db call =>
      cases call with
      | ioOpUsrEnt e mode =>
          cases mode with
          | read => exact h.1
          | modify => exact ho.elim
          | _ => exact h
      | creatUsrTbl e => exact ho.elim
      | delUsrTbl v => exact ho.elim
      | _ => exact h
  | _ => exact h

section Pieces

variable {u v : Bytes} {own : Prop} {s s₁ s' : Option Address} {t t' : List srvE.Event}
  {ev : srvE.Event} {e : Entry}
  {x : ℤ × Entry} {l : List Bytes} {j : Userdata} {ads : List Address} {req : Req}

theorem AtAddress.of_makesNone (h : ∀ ev ∈ t, MakesNone ev.1) (hkept : s' = s ∨ s' = none) :
    AtAddress u s t s' := by
  refine ⟨fun r ad had => ?_, hkept⟩
  rw [calls_of_makesNone h] at had
  cases had

theorem AtAddress.cons (h : AtAddress u s t s') (hev : MakesNone ev.1) :
    AtAddress u s (ev :: t) s' := by
  refine ⟨fun r ad had => ?_, h.kept⟩
  rw [calls_cons hev] at had
  exact h.called _ ad had

theorem AtAddress.append (h : AtAddress u s t s₁) (h' : AtAddress u s₁ t' s') :
    AtAddress u s (t ++ t') s' := by
  refine ⟨fun r ad had => ?_, ?_⟩
  · rw [calls_append, List.mem_append] at had
    rcases had with had | had
    · exact h.called r ad had
    · -- what is there is what was there
      have hs₁ := h'.called _ ad had
      rcases h.kept with rfl | hnone
      · exact hs₁
      · rw [hnone] at hs₁
        cases hs₁
  · rcases h'.kept with rfl | hnone
    · exact h.kept
    · exact Or.inr hnone

/-- A thread that calls nobody up to some moment, and afterwards at an address that is granted. -/
theorem AtAddress.granted (h : AtAddress u s₁ t' s') (ht : ∀ ev ∈ t, MakesNone ev.1)
    (hs₁ : ∀ ad, s₁ = some ad → ad ∈ grants u ads (req, t ++ t')) :
    Granted u ads req (t ++ t') s' := by
  constructor
  · intro r ad had
    rw [calls_append, calls_of_makesNone ht] at had
    exact hs₁ ad (h.called _ ad had)
  · intro ad had
    rcases h.kept with rfl | hnone
    · exact hs₁ ad had
    · rw [hnone] at had
      cases had

/-- A thread that calls nobody. -/
theorem Granted.of_makesNone (h : ∀ ev ∈ t, MakesNone ev.1)
    (hrecord : ∀ ad, s' = some ad → ad ∈ grants u ads (req, t)) :
    Granted u ads req t s' := by
  refine ⟨fun r ad had => ?_, hrecord⟩
  rw [calls_of_makesNone h] at had
  cases had

/-! ### What a thread knows of the record -/

/-- What is read of a known record is known. -/
theorem Knows.read (h : Knows u own s e)
    (hx : AddressStep u own s (.db (.ioOpUsrEnt e .read)) x s) :
    Knows u own s x.2 := by
  obtain ⟨v, j, rfl, hknown⟩ := h
  obtain ⟨⟨w, ud, hx₂⟩, hown⟩ := hx.2 v j rfl
  by_cases ho : own
  · obtain ⟨rfl, hs⟩ := hknown ho
    rcases hown rfl with ⟨ud', hs', hx'⟩ | ⟨-, hsame⟩
    · exact ⟨v, ud', by rw [hx'], fun _ => ⟨rfl, hs'⟩⟩
    · exact ⟨v, j, hsame, fun _ => ⟨rfl, hs⟩⟩
  · exact ⟨w, ud, hx₂, fun ho' => absurd ho' ho⟩

/-- A record that has been read with success is known. -/
theorem knows_of_read (hx : AddressStep u own s (.db (.ioOpUsrEnt ⟨v, .user j⟩ .read)) x s)
    (hown : own → v = u)
    (hok : ¬ x.1 < 0) : Knows u own s x.2 := by
  obtain ⟨⟨w, ud, hx₂⟩, hcases⟩ := hx.2 v j rfl
  by_cases ho : own
  · rcases hcases (hown ho) with ⟨ud', hs', hx'⟩ | ⟨hneg, -⟩
    · exact ⟨u, ud', by rw [hx'], fun _ => ⟨rfl, hs'⟩⟩
    · exact absurd hneg hok
  · exact ⟨w, ud, hx₂, fun ho' => absurd ho' ho⟩

/-- Writing a known record back with the same address. -/
theorem Knows.write {f : Userdata → Userdata} (h : Knows u own s e)
    (hf : ∀ ud, (f ud).address = ud.address)
    (hy : AddressStep u own s (.db (.ioOpUsrEnt (e.mapUser f) .modify)) x s₁) :
    (s₁ = s ∨ s₁ = none) ∧ (¬ x.1 < 0 → s₁ = s) ∧ Knows u own s (e.mapUser f) := by
  obtain ⟨v, j, rfl, hknown⟩ := h
  have hnext : Knows u own s ⟨v, .user (f j)⟩ :=
    ⟨v, f j, rfl, fun ho => ⟨(hknown ho).1, by rw [hf]; exact (hknown ho).2⟩⟩
  by_cases ho : own
  · rcases hy.2 ho with ⟨-, rfl⟩ | ⟨hneg, hcases⟩
    · have hsame : some (f j).address = s := by rw [hf, (hknown ho).2]
      exact ⟨Or.inl hsame, fun _ => hsame, hnext⟩
    · exact ⟨hcases, fun hok => absurd hneg hok, hnext⟩
  · obtain rfl := hy.1 ho
    exact ⟨Or.inl rfl, fun _ => rfl, hnext⟩

/-- **A connection to a listener** is made at the address that has been read. -/
theorem atAddress_contact (he : ∃ v j, e = ⟨v, .user j⟩)
    (hx : AddressStep u own s (.db (.ioOpUsrEnt e .read)) x s)
    (ht : Tells (Contacts x.2) t l) (hneg : x.1 < 0 → t = []) :
    AtAddress u s (⟨SrvOp.db (.ioOpUsrEnt e .read), x⟩ :: t) s := by
  refine ⟨fun r ad had => ?_, Or.inl rfl⟩
  obtain ⟨v, j, rfl⟩ := he
  rw [calls_cons
    (show MakesNone (SrvOp.db (.ioOpUsrEnt ⟨v, .user j⟩ .read)) from trivial)] at had
  obtain ⟨hreader, rfl⟩ := mem_calls_of_tells ht had
  obtain rfl : v = u := Option.some.inj hreader
  rcases (hx.2 v j rfl).2 rfl with ⟨ud, hs, rfl⟩ | ⟨hlt, -⟩
  · exact hs
  · rw [hneg hlt] at had
    cases had

end Pieces

/-! ### The pieces of a handler -/

section Bodies

variable {u v : Bytes} {own : Prop} {s : Option Address} {e : Entry}
  {ads : List Address} {α : Type}

/-- A step that is no connection, and the rest. -/
theorem must_atAddress_perform {o : SrvOp} (ho : MakesNone o) {f : o.Ans → Srv α}
    (h : ∀ x s₁, AddressStep u own s o x s₁ → (s₁ = s ∨ s₁ = none) ∧
      (f x).Must (AddressStep u own) (fun t _ s' => AtAddress u s₁ t s') s₁) :
    (@Prog.perform srvE o >>= f).Must (AddressStep u own) (fun t _ s' => AtAddress u s t s') s := by
  refine must_perform_bind fun x s₁ hx => ?_
  obtain ⟨hkept, hrest⟩ := h x s₁ hx
  refine hrest.mono fun t _ s' hat => ?_
  have hfirst : AtAddress u s [⟨o, x⟩] s₁ := by
    refine AtAddress.of_makesNone (fun ev hev => ?_) hkept
    rw [List.mem_singleton.mp hev]
    exact ho
  exact hfirst.append hat

/-- A step that leaves the address alone, and the rest. -/
theorem must_atAddress_still {o : SrvOp} (ho : Stills o) {f : o.Ans → Srv α}
    (h : ∀ x, AddressStep u own s o x s →
        (f x).Must (AddressStep u own) (fun t _ s' => AtAddress u s t s') s) :
    (@Prog.perform srvE o >>= f).Must (AddressStep u own) (fun t _ s' => AtAddress u s t s') s := by
  refine must_atAddress_perform ho.makesNone fun x s₁ hx => ?_
  obtain rfl := hx.still ho
  exact ⟨Or.inl rfl, h x hx⟩

/-- A message, and the rest. -/
theorem must_atAddress_cltSendMessage {request : CltRequest} (he : ∃ v j, e = ⟨v, .user j⟩)
    {k : ℤ × Entry → Srv α}
    (h : ∀ (x : ℤ × Entry) result, AddressStep u own s (.db (.ioOpUsrEnt e .read)) x s →
      (k (result, x.2)).Must (AddressStep u own) (fun t _ s' => AtAddress u s t s') s) :
    (cltSendMessage request e >>= k).Must (AddressStep u own)
    (fun t _ s' => AtAddress u s t s') s := by
  refine must_cltSendMessage fun x t l result hx ht _ _ hneg => ?_
  refine (h x result hx).mono fun t' _ s' hat => ?_
  exact (atAddress_contact he hx ht fun hlt => (hneg hlt).2).append (hat.cons trivial)

/-- An acknowledgement, and the rest. -/
theorem must_atAddress_cltSendMessAck {request : CltRequest} (he : ∃ v j, e = ⟨v, .user j⟩)
    {k : ℤ × Entry → Srv α}
    (h : ∀ (x : ℤ × Entry) result, AddressStep u own s (.db (.ioOpUsrEnt e .read)) x s →
      (k (result, x.2)).Must (AddressStep u own) (fun t _ s' => AtAddress u s t s') s) :
    (cltSendMessAck request e >>= k).Must (AddressStep u own)
    (fun t _ s' => AtAddress u s t s') s := by
  refine must_cltSendMessAck fun x t l result hx ht _ hneg => ?_
  refine (h x result hx).mono fun t' _ s' hat => ?_
  exact (atAddress_contact he hx ht hneg).append (hat.cons trivial)

/-! ### The drain and `SEND` -/

/-- **The drain**, by induction on its rounds. -/
theorem must_atAddress_drainLoop (fuel : ℕ) {pendMsgEntry recipientEntry senderEntry : Entry}
    (hknows : Knows u own s recipientEntry) (hsender : ∃ v j, senderEntry = ⟨v, .user j⟩) :
    (drainLoop fuel pendMsgEntry recipientEntry senderEntry).Must (AddressStep u own)
      (fun t _ s' => AtAddress u s t s') s := by
  induction fuel generalizing pendMsgEntry recipientEntry senderEntry with
  | zero => exact must_ret (AtAddress.of_makesNone (by simp) (Or.inl rfl))
  | succ fuel ih =>
      rw [drainLoop]
      refine must_atAddress_still (o := .db (.getPendMsg pendMsgEntry)) trivial
        fun (g : ℤ × Entry) _ => ?_
      split
      · refine must_atAddress_cltSendMessage (hknows.imp fun v => Exists.imp fun j h => h.1)
          fun x result hx => ?_
        have hread := hknows.read hx
        split
        · refine must_atAddress_still (o := .db (.ioOpUsrEnt g.2 .delete)) trivial fun _ _ => ?_
          obtain ⟨w, j, rfl⟩ := hsender
          refine must_atAddress_cltSendMessAck ⟨_, j, rfl⟩ fun x' _ hx' => ?_
          exact ih hread (hx'.2 _ j rfl).1
        · -- the record is written back, with the address that it has
          refine must_atAddress_perform (o := .db (.ioOpUsrEnt (x.2.mapUser _) .modify)) trivial
            fun y s₁ hy => ?_
          obtain ⟨hkept, -, -⟩ :=
            hread.write (f := fun ud => { ud with status := statusDcn }) (fun _ => rfl) hy
          exact ⟨hkept, must_ret (AtAddress.of_makesNone (by simp) (Or.inl rfl))⟩
      · exact must_ret (AtAddress.of_makesNone (by simp) (Or.inl rfl))

/-- **`aux_connect_send_pend_msgs`** -/
theorem must_atAddress_auxConnectSendPendMsgs (fuel : ℕ) (m : Message) (hown : own → v = u) :
    (auxConnectSendPendMsgs fuel ⟨v, .msg m⟩).Must (AddressStep u own)
      (fun t _ s' => AtAddress u s t s') s := by
  rw [auxConnectSendPendMsgs]
  refine must_atAddress_still (o := .uninit) trivial fun junk _ => ?_
  refine must_atAddress_still (o := .db (.ioOpUsrEnt ⟨v, .user junk.user⟩ .read)) trivial
    fun x hx => ?_
  split
  · exact must_ret (AtAddress.of_makesNone (by simp) (Or.inl rfl))
  · rename_i hok
    exact must_atAddress_drainLoop fuel (knows_of_read hx hown hok) ⟨_, _, rfl⟩

/-- **`SEND`** calls nobody at another address. -/
theorem must_atAddress_srvSendBody (sender c : Bytes) (hown : own → v = u) :
    (srvSendBody sender v c).Must (AddressStep u own) (fun t _ s' => AtAddress u s t s') s := by
  have hfinish : ∀ (s : Option Address) (code : UInt8) (recipientEntry msgEntry : Entry),
      (srvSendFinish sender code recipientEntry msgEntry).Must (AddressStep u own)
        (fun t _ s' => AtAddress u s t s') s := by
    intro s code recipientEntry msgEntry
    have hfirst : ∀ (ok : Bool) (t : List srvE.Event),
        (∀ ev ∈ t, ev.1 = SrvOp.close .client ∨
        (code = srvSuccess ∧
          ev.1 = SrvOp.write .client (decimal msgEntry.msg.id.toNat ++ [0]))) →
        AtAddress u s (⟨SrvOp.write .client [code], ok⟩ :: t) s := by
      intro ok t ht
      refine AtAddress.of_makesNone (fun ev hev => ?_) (Or.inl rfl)
      rcases List.mem_cons.mp hev with rfl | hev
      · trivial
      · rcases ht ev hev with h | ⟨-, h⟩
        · rw [h]
          trivial
        · rw [h]
          trivial
    refine must_srvSendFinish (fun _ ok t ht => hfirst ok t ht)
      fun _ ok t ht junk x t' l result hx ht' _ hneg => ?_
    have hack := (atAddress_contact ⟨_, _, rfl⟩ hx ht' hneg).append
      (AtAddress.of_makesNone
        (t := [⟨SrvOp.note (.cltSendMessAck x.2 recipientEntry.user.lastMsgId result), ()⟩])
        (by simp [MakesNone]) (Or.inl rfl))
    have huninit : MakesNone (⟨SrvOp.uninit, junk⟩ : srvE.Event).1 := trivial
    exact (hfirst ok t ht).append (hack.cons huninit)
  have hreply : ∀ (s : Option Address) (code : UInt8),
      (sendServerReply code >>= fun _ => (return () : Srv Unit)).Must
      (AddressStep u own) (fun t _ s' => AtAddress u s t s') s := by
    intro s code
    refine must_sendServerReply fun ok t r ht _ =>
      must_ret (AtAddress.of_makesNone (fun ev hev => ?_) (Or.inl rfl))
    rcases List.mem_cons.mp hev with rfl | hev
    · trivial
    · rw [List.append_nil] at hev
      rw [ht ev hev]
      trivial
  rw [srvSendBody]
  refine must_atAddress_still (o := .uninit) trivial fun junk _ => ?_
  refine must_auxSendInit (fun code e t hne hasks => ?_) fun a b x y s₁ _ _ _ _ hx hpos hy => ?_
  · rw [if_pos hne]
    refine (hreply s code).mono fun t' _ s' hat => ?_
    refine AtAddress.append (AtAddress.of_makesNone (fun ev hev => ?_) (Or.inl rfl)) hat
    have hask := hasks ev hev
    obtain ⟨o, y⟩ := ev
    cases o with
    | connect ip port => exact hask.elim
    | _ => trivial
  have hknows := knows_of_read hx hown (not_lt.mpr hpos)
  obtain ⟨hkept, hsame, hnext⟩ :=
    hknows.write (f := fun ud => { ud with lastMsgId := nextMsgId ud.lastMsgId }) (fun _ => rfl) hy
  have hinit : AtAddress u s [⟨SrvOp.db (.userExists sender), a⟩,
      ⟨SrvOp.db (.userExists v), b⟩,
      ⟨SrvOp.db (.ioOpUsrEnt ⟨v, .user junk.user⟩ .read), x⟩,
        ⟨SrvOp.db (.ioOpUsrEnt x.2.next .modify), y⟩] s₁ :=
    AtAddress.of_makesNone (by simp [MakesNone]) hkept
  refine Prog.Must.mono (Q := fun t _ s' => AtAddress u s₁ t s') ?_ fun t _ s' hat =>
    hinit.append hat
  by_cases hfailed : y.1 < 0
  · rw [if_pos hfailed, if_pos (show srvErrSendAny ≠ srvSuccess by decide)]
    exact hreply s₁ _
  rw [if_neg hfailed, if_neg (show ¬ srvSuccess ≠ srvSuccess by decide)]
  obtain rfl := hsame hfailed
  -- what is left once the message has been passed on
  have hshelve : ∀ (s : Option Address) (p : UInt8 × Entry × Entry),
      (if p.2.1.user.status = statusDcn ∨ junk.byte ≠ srvSuccess then
        callIoOpUsrEnt p.2.2 .create >>= fun w =>
          srvSendFinish sender (if w.1 < 0 then srvErrSendAny else p.1) p.2.1 p.2.2
      else srvSendFinish sender p.1 p.2.1 p.2.2).Must (AddressStep u own) (fun t _ s' =>
        AtAddress u s t s') s := by
    intro s p
    split
    · exact must_atAddress_still (o := .db (.ioOpUsrEnt p.2.2 .create)) trivial fun w _ =>
        hfinish s _ _ _
    · exact hfinish s _ _ _
  have htyped : ∃ w j, x.2.next = ⟨w, .user j⟩ := hnext.imp fun w => Exists.imp fun j h => h.1
  have hnoted : ∀ (e : Entry) (m : Message) (result : ℤ),
      MakesNone (⟨SrvOp.note (.cltSendMessage e m result), ()⟩ : srvE.Event).1 :=
        fun _ _ _ => trivial
  refine must_auxSendMsgPass (fun _ => hshelve _ _) (fun _ x' t hx' ht hpos' => ?_)
    fun _ x' y' t l result s₂ hx' ht _ hneg _ hy' => ?_
  · refine (hshelve _ _).mono fun t' _ s' hat => ?_
    exact (atAddress_contact htyped hx' ht fun hlt => absurd hlt (not_lt.mpr hpos')).append
      (hat.cons (hnoted _ _ _))
  · obtain ⟨hkept', -, -⟩ :=
      (hnext.read hx').write (f := fun ud => { ud with status := statusDcn }) (fun _ => rfl) hy'
    refine (hshelve _ _).mono fun t' _ s' hat => ?_
    have hwrote :
        AtAddress u s₁ [⟨SrvOp.db (.ioOpUsrEnt x'.2.disconnected .modify), y'⟩] s₂ :=
      AtAddress.of_makesNone (by simp [MakesNone]) hkept'
    exact (atAddress_contact htyped hx' ht hneg).append ((hwrote.append hat).cons (hnoted _ _ _))

end Bodies
