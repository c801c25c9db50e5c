/-
# `SEND` requests answered with an error

`srv_send` overwrites its reply code at several places, before and after the message
has been transmitted or stored.

* `SendOutcome`: the reply, the transmission and the stored message of one `SEND`, in
  terms of the library calls that failed;
* `failed_send_iff`: when a `SEND` that is answered with an error has sent nothing.
-/
import MessageServer.Handlers
import MessageServer.FailedConnect

/-! ## What happened to the message -/

/-- The message was transmitted to the recipient. -/
def DeliveredBy : srvE.Event → Prop
  | ⟨.note (.cltSendMessage _ _ result), _⟩ => result = 0
  | _ => False

/-- A `MODIFY` failed. -/
def UnmodifiedBy : srvE.Event → Prop
  | ⟨.db (.ioOpUsrEnt _ .modify), x⟩ => (show ℤ × Entry from x).1 < 0
  | _ => False

/-- A `CREATE` failed. -/
def UncreatedBy : srvE.Event → Prop
  | ⟨.db (.ioOpUsrEnt _ .create), x⟩ => (show ℤ × Entry from x).1 < 0
  | _ => False

/-- A `CREATE` succeeded. -/
def CreatedBy : srvE.Event → Prop
  | ⟨.db (.ioOpUsrEnt _ .create), x⟩ => 0 ≤ (show ℤ × Entry from x).1
  | _ => False

/-- One of the events is such. -/
def Happens (P : srvE.Event → Prop) (t : List srvE.Event) : Prop := ∃ ev ∈ t, P ev

section Happens

variable {P : srvE.Event → Prop} {t t' : List srvE.Event} {ev : srvE.Event}

theorem happens_cons : Happens P (ev :: t) ↔ P ev ∨ Happens P t := by
  simp [Happens]

theorem happens_append : Happens P (t ++ t') ↔ Happens P t ∨ Happens P t' := by
  simp only [Happens, List.mem_append, or_and_right, exists_or]

/-- What no event is does not happen. -/
theorem not_happens (h : ∀ ev ∈ t, ¬ P ev) : ¬ Happens P t :=
  fun ⟨ev, hev, hP⟩ => h ev hev hP

end Happens

/-- A pending message of `r` that was not there. -/
def FS.NewPending (fs fs' : FS) (r : Bytes) : Prop :=
  ∃ id p, fs.locate (pendMsgPath r id) = .ok p ∧ fs.get p = none ∧ fs'.get p ≠ none

/-- A write into a file failed. -/
def WriteFails (t : List sysE.Event) : Prop :=
  FaultIn t fun o => ∃ fd k data, o = .write fd k data

/-- The system calls of the `CREATE` are `calls`; all others may fail at any moment. -/
def createCalls (calls : List sysE.Event) : DbCall → List sysE.Event → Prop
  | .ioOpUsrEnt _ .create, t => t = calls
  | _, _ => True

/-! ## The calls that write -/

section Calls

variable {fs fs' : FS} {T : DbCall → List sysE.Event → Prop}

/-- `MODIFY` rewrites a file, if anything. -/
theorem dbStep_modify_frame {e : Entry} {x : ℤ × Entry}
    (h : DbStep T fs (.ioOpUsrEnt e .modify) x fs') :
    fs' = fs ∨ ∃ p c c', fs.get p = some (.file c) ∧ fs' = fs.put p (.file c') := by
  obtain ⟨t, hexec, -⟩ := h
  by_cases he : e.Typed
  · cases exec_ioOp_write he (Or.inr rfl) hexec with
    | refused code hcode hfree => exact Or.inl rfl
    | written p hloc hfree =>
        obtain ⟨c, hc⟩ : ∃ c, fs.get p = some (.file c) := hfree
        exact Or.inr ⟨p, c, _, hc, rfl⟩
    | torn p k hloc hfree hfault =>
        obtain ⟨c, hc⟩ : ∃ c, fs.get p = some (.file c) := hfree
        exact Or.inr ⟨p, c, _, hc, rfl⟩
  · have htype : e.data.type ≠ entTypeUd ∧ e.data.type ≠ entTypePMsg :=
      ⟨fun h₁ => he (Or.inl h₁), fun h₂ => he (Or.inr h₂)⟩
    left
    change Exec SysStep (dbIoOpUsrEnt fs.depth e .modify) fs t x fs' at hexec
    rw [dbIoOpUsrEnt, if_pos htype] at hexec
    exact (exec_ret_iff.mp hexec).2.2

/-- Where nothing was, `MODIFY` makes nothing, and paths lead where they led. -/
structure FS.SameShape (fs fs' : FS) : Prop where
  absent : ∀ p, fs'.get p = none ↔ fs.get p = none
  locate : ∀ path q, fs'.locate path = .ok q ↔ fs.locate path = .ok q

theorem FS.SameShape.refl (fs : FS) : fs.SameShape fs := ⟨fun _ => Iff.rfl, fun _ _ => Iff.rfl⟩

/-- The same shape, twice. -/
theorem FS.SameShape.trans {fs₁ fs₂ fs₃ : FS} (h : fs₁.SameShape fs₂)
    (h' : fs₂.SameShape fs₃) :
    fs₁.SameShape fs₃ :=
  ⟨fun p => (h'.absent p).trans (h.absent p), fun path q => (h'.locate path q).trans
    (h.locate path q)⟩

/-- A record that is rewritten keeps the shape. -/
theorem sameShape_modify {e : Entry} {x : ℤ × Entry}
    (h : DbStep T fs (.ioOpUsrEnt e .modify) x fs') : fs.SameShape fs' := by
  rcases dbStep_modify_frame h with rfl | ⟨p, c, c', hc, rfl⟩
  · exact FS.SameShape.refl _
  · refine ⟨fun q => ?_, fun path q => FS.locate_put_file hc⟩
    rw [FS.get_put]
    split
    · rename_i heq
      subst heq
      simp [hc]
    · exact Iff.rfl

/-- A `CREATE` either does not get past its `open`, or leaves a file. -/
theorem exec_create_opened {e : Entry} (he : e.Typed) {depth : ℕ} {t : List sysE.Event}
    {x : ℤ × Entry}
    (h : Exec SysStep (dbIoOpUsrEnt depth e .create) fs t x fs') :
    (x.1 < 0 ∧ fs' = fs ∧ ¬ WriteFails t) ∨
      (∃ p, fs.locate (entryPath e) = .ok p ∧ fs.get p = none ∧ fs'.get p ≠ none) ∧
        (x.1 < 0 → WriteFails t) := by
  have hleft : ∀ p c, fs.get p = none → fs' = fs.put p (.file c) → fs'.get p ≠ none := by
    rintro p c hnone rfl
    rw [FS.get_put_self]
    simp
  rcases exec_ioOp_write_opened he (Or.inl rfl) h with
    ⟨err, rfl, rfl, hcode, -, -⟩ | ⟨p, hloc, hfree,
      ⟨hx, hfs'⟩ | ⟨hx, k, hfs', hfault⟩⟩
  · refine Or.inl ⟨hcode, rfl, ?_⟩
    rintro ⟨ev, hev, -, fd, k, data, hop⟩
    rw [List.mem_singleton.mp hev] at hop
    exact absurd hop (by simp)
  · refine Or.inr ⟨⟨p, hloc, hfree, hleft p _ hfree hfs'⟩, fun hneg => ?_⟩
    rw [hx] at hneg
    exact absurd hneg (show ¬ dbmsSuccess < 0 by decide)
  · refine Or.inr ⟨⟨p, hloc, hfree, hleft p _ hfree hfs'⟩, fun _ => hfault.mono
      fun o ho => ?_⟩
    cases o with
    | write fd offset data => exact ⟨fd, offset, data, rfl⟩
    | _ => exact ho.elim

end Calls

/-! ## One `SEND` -/

/-- The steps that neither transmit a message nor write to the database. -/
def Neutral : SrvOp → Prop
  | .db (.ioOpUsrEnt _ mode) => mode = .read
  | .note (.cltSendMessage _ _ _) => False
  | _ => True

/-- Neutral steps are none of the events that count. -/
theorem not_happens_neutral {t : List srvE.Event} (h : ∀ ev ∈ t, Neutral ev.1) :
    ¬ Happens DeliveredBy t ∧ ¬ Happens UnmodifiedBy t ∧ ¬ Happens UncreatedBy t ∧
      ¬ Happens CreatedBy t := by
  have hnone : ∀ ev : srvE.Event, Neutral ev.1 →
      ¬ DeliveredBy ev ∧ ¬ UnmodifiedBy ev ∧ ¬ UncreatedBy ev ∧ ¬ CreatedBy ev := by
    rintro ⟨o, x⟩ ho
    cases o with
    | db call =>
        cases call with
        | ioOpUsrEnt e mode =>
            obtain rfl : mode = .read := ho
            exact ⟨id, id, id, id⟩
        | _ => exact ⟨id, id, id, id⟩
    | note n =>
        cases n with
        | cltSendMessage e m result => exact ho.elim
        | cltSendMessAck e i result => exact ⟨id, id, id, id⟩
    | _ => exact ⟨id, id, id, id⟩
  exact ⟨not_happens fun ev hev => (hnone ev (h ev hev)).1,
    not_happens fun ev hev => (hnone ev (h ev hev)).2.1,
    not_happens fun ev hev => (hnone ev (h ev hev)).2.2.1,
    not_happens fun ev hev => (hnone ev (h ev hev)).2.2.2⟩

/-- The questions to the database are neutral. -/
theorem neutral_asks (o : SrvOp) (h : Asks o) : Neutral o ∧ replyOf o = none := by
  cases o with
  | db call =>
      cases call with
      | ioOpUsrEnt e mode =>
          cases mode with
          | read => exact ⟨rfl, rfl⟩
          | _ => exact h.elim
      | _ => exact ⟨trivial, rfl⟩
  | _ => exact h.elim

/-- Contacts of a listening thread are neutral. -/
theorem neutral_contacts {e : Entry} (o : SrvOp) (h : Contacts e o) :
    Neutral o ∧ replyOf o = none := by
  cases o with
  | write sock bytes =>
      obtain rfl : sock = .listener := h
      exact ⟨trivial, rfl⟩
  | db call => exact (show False from h).elim
  | note n => exact (show False from h).elim
  | _ => exact ⟨trivial, rfl⟩

/-- What a `SEND` to `r` has done: whether the message was stored, and what the reply
says about the calls that failed. -/
structure SendOutcome (fs fs' : FS) (r : Bytes) (calls : List sysE.Event) (t : List srvE.Event) :
    Prop where
  stored : fs.NewPending fs' r ↔ Happens CreatedBy t ∨
    (Happens UncreatedBy t ∧ WriteFails calls)
  success : reply t = some srvSuccess →
    ¬ Happens UncreatedBy t ∧ (Happens CreatedBy t → ¬ Happens UnmodifiedBy t)
  delivered : reply t ≠ some srvSuccess → Happens DeliveredBy t → Happens UncreatedBy t
  created : reply t ≠ some srvSuccess → Happens CreatedBy t → Happens UnmodifiedBy t

section Send

variable {fs fs₁ : FS} {input : List ReadEv} {s r c : Bytes} {code : UInt8}
variable {calls : List sysE.Event}

/-- The end of a `SEND` replies, and does nothing else that counts. -/
theorem must_neutral_finish {T : DbCall → List sysE.Event → Prop} (s : Bytes) (code : UInt8)
    (recipientEntry msgEntry : Entry) :
    (srvSendFinish s code recipientEntry msgEntry).Must (SrvStep T) (fun t _ w => w.fs = fs ∧
      (∀ ev ∈ t, Neutral ev.1) ∧ reply t = some code) ⟨fs, input⟩ := by
  have hclient : ∀ (t : List srvE.Event), (∀ ev ∈ t, ev.1 = SrvOp.close .client ∨
      (code = srvSuccess ∧ ev.1 = SrvOp.write .client (decimal msgEntry.msg.id.toNat ++ [0]))) →
      ∀ ev ∈ t, Neutral ev.1 := by
    intro t ht ev hev
    rcases ht ev hev with heq | ⟨-, heq⟩
    · rw [heq]
      trivial
    · rw [heq]
      trivial
  refine must_srvSendFinish (fun _ ok t ht => ⟨rfl, ?_, reply_cons_some rfl⟩)
    (fun _ ok t ht junk x t' l result _ ht' _ _ => ⟨rfl, ?_, reply_cons_some rfl⟩)
  · intro ev hev
    rcases List.mem_cons.mp hev with rfl | hev
    · trivial
    · exact hclient t ht ev hev
  · intro ev hev
    simp only [List.mem_cons, List.mem_append, List.not_mem_nil, or_false] at hev
    rcases hev with rfl | hev | rfl | rfl | hev | rfl
    · trivial
    · exact hclient t ht ev hev
    · trivial
    · rfl
    · exact (neutral_contacts _ (ht'.steps ev hev)).1
    · trivial

/-! ### What has been passed -/

/-- What the events before the reply say about the calls so far. -/
structure Passed (fs fs₁ : FS) (code : UInt8) (t : List srvE.Event) : Prop where
  shape : fs.SameShape fs₁
  silent : ∀ ev ∈ t, replyOf ev.1 = none
  uncreated : ¬ Happens UncreatedBy t
  created : ¬ Happens CreatedBy t
  success : code = srvSuccess ↔ ¬ Happens UnmodifiedBy t
  delivered : code ≠ srvSuccess → ¬ Happens DeliveredBy t

/-- Nothing has been passed yet. -/
theorem Passed.start : Passed fs fs srvSuccess [] :=
  ⟨FS.SameShape.refl fs, by simp, by simp [Happens], by simp [Happens], by simp [Happens],
    by simp [Happens]⟩

/-- Events that count for nothing. -/
theorem Passed.neutral {t t' : List srvE.Event} (h : Passed fs fs₁ code t)
    (ht' : ∀ ev ∈ t', Neutral ev.1 ∧ replyOf ev.1 = none) :
    Passed fs fs₁ code (t ++ t') := by
  obtain ⟨hdelivered, hunmodified, huncreated, hcreated⟩ :=
    not_happens_neutral fun ev hev => (ht' ev hev).1
  refine ⟨h.shape, ?_, ?_, ?_, ?_, ?_⟩
  · intro ev hev
    rcases List.mem_append.mp hev with hev | hev
    · exact h.silent ev hev
    · exact (ht' ev hev).2
  · simp [happens_append, h.uncreated, huncreated]
  · simp [happens_append, h.created, hcreated]
  · simp [happens_append, h.success, hunmodified]
  · intro hne
    simp [happens_append, h.delivered hne, hdelivered]

/-- A `MODIFY`; when it fails, the message must not have been delivered. -/
theorem Passed.modify {t : List srvE.Event} (h : Passed fs fs₁ code t) {fs₂ : FS} {e : Entry}
    {y : ℤ × Entry} (hshape : fs₁.SameShape fs₂) (hno : ¬ Happens DeliveredBy t) :
    Passed fs fs₂ (if y.1 < 0 then srvErrSendAny else code)
      (t ++ [⟨SrvOp.db (.ioOpUsrEnt e .modify), y⟩]) := by
  have hev : ∀ {P : srvE.Event → Prop},
      Happens P (t ++ [⟨SrvOp.db (.ioOpUsrEnt e .modify), y⟩]) ↔
      Happens P t ∨ P ⟨SrvOp.db (.ioOpUsrEnt e .modify), y⟩ := by
    intro P
    simp [Happens]
  refine ⟨h.shape.trans hshape, ?_, ?_, ?_, ?_, ?_⟩
  · intro ev hmem
    rcases List.mem_append.mp hmem with hmem | hmem
    · exact h.silent ev hmem
    · rw [List.mem_singleton.mp hmem]
      rfl
  · rw [hev]
    exact fun hun => hun.elim h.uncreated id
  · rw [hev]
    exact fun hcr => hcr.elim h.created id
  · rw [hev, not_or, ← h.success]
    by_cases hy : y.1 < 0
    · rw [if_pos hy]
      exact ⟨fun heq => absurd heq (by decide), fun hboth => absurd hy hboth.2⟩
    · rw [if_neg hy]
      exact ⟨fun heq => ⟨heq, hy⟩, fun hboth => hboth.1⟩
  · intro _
    rw [hev]
    exact fun hdel => hdel.elim hno id

/-- The message is delivered, or that fails. -/
theorem Passed.deliver {t : List srvE.Event} (h : Passed fs fs₁ srvSuccess t)
    (e : Entry) (m : Message)
    (result : ℤ) :
    Passed fs fs₁ srvSuccess (t ++ [⟨SrvOp.note (.cltSendMessage e m result), ()⟩]) := by
  have hev : ∀ {P : srvE.Event → Prop},
      ¬ P ⟨SrvOp.note (.cltSendMessage e m result), ()⟩ →
      (Happens P (t ++ [⟨SrvOp.note (.cltSendMessage e m result), ()⟩]) ↔ Happens P t) := by
    intro P hP
    simp [Happens, hP]
  refine ⟨h.shape, ?_, ?_, ?_, ?_, fun hne => absurd rfl hne⟩
  · intro ev hmem
    rcases List.mem_append.mp hmem with hmem | hmem
    · exact h.silent ev hmem
    · rw [List.mem_singleton.mp hmem]
      rfl
  · rw [hev id]
    exact h.uncreated
  · rw [hev id]
    exact h.created
  · rw [hev id]
    exact h.success

/-- A message that has been passed is not stored. -/
theorem Passed.not_new {t : List srvE.Event} (h : Passed fs fs₁ code t) :
    ¬ fs.NewPending fs₁ r := by
  rintro ⟨id, p, -, hnone, hsome⟩
  exact hsome ((h.shape.absent p).mpr hnone)

/-- A `SEND` that stores nothing. -/
theorem Passed.finish {t : List srvE.Event} (h : Passed fs fs₁ code t)
    (recipientEntry msgEntry : Entry) :
    (srvSendFinish s code recipientEntry msgEntry).Must (SrvStep (createCalls calls))
      (fun t' _ w => SendOutcome fs w.fs r calls (t ++ t')) ⟨fs₁, input⟩ := by
  refine (must_neutral_finish s code recipientEntry msgEntry).mono ?_
  rintro t' _ w ⟨rfl, hneutral, hreply⟩
  obtain ⟨hdelivered, hunmodified, huncreated, hcreated⟩ := not_happens_neutral hneutral
  have hcode : reply (t ++ t') = some code := (reply_append h.silent).trans hreply
  refine ⟨?_, ?_, ?_, ?_⟩
  · simp [happens_append, h.created, h.uncreated, hcreated, huncreated, h.not_new]
  · simp [happens_append, h.created, h.uncreated, hcreated, huncreated]
  · rw [hcode]
    intro hne hdel
    rcases happens_append.mp hdel with hdel | hdel
    · exact absurd hdel (h.delivered fun heq => hne (congrArg some heq))
    · exact absurd hdel hdelivered
  · intro _ hcr
    rcases happens_append.mp hcr with hcr | hcr
    · exact absurd hcr h.created
    · exact absurd hcr hcreated

/-- A `SEND` that stores the message, or tries to. -/
theorem Passed.store {t : List srvE.Event} (h : Passed fs fs₁ code t) (recipientEntry : Entry)
    (m : Message) :
    (callIoOpUsrEnt ⟨r, .msg m⟩ .create >>= fun w =>
      srvSendFinish s (if w.1 < 0 then srvErrSendAny else code) recipientEntry ⟨r, .msg m⟩).Must
      (SrvStep (createCalls calls)) (fun t' _ w => SendOutcome fs w.fs r calls (t ++ t'))
      ⟨fs₁, input⟩ := by
  refine must_db fun (x : ℤ × Entry) fs₂ hstep => ?_
  obtain ⟨cs, hexec, rfl⟩ := hstep
  -- the file is made when it can be opened, whatever the write does then
  have hopened := exec_create_opened (typed_msg r m) hexec
  refine (must_neutral_finish s _ recipientEntry ⟨r, .msg m⟩).mono ?_
  rintro t' _ w ⟨rfl, hneutral, hreply⟩
  obtain ⟨hdelivered, hunmodified, huncreated, hcreated⟩ := not_happens_neutral hneutral
  have hcode : reply (t ++ ⟨SrvOp.db (.ioOpUsrEnt ⟨r, .msg m⟩ .create), x⟩ :: t') =
      some (if x.1 < 0 then srvErrSendAny else code) :=
    (reply_append h.silent).trans ((reply_cons rfl).trans hreply)
  have hnew : (∃ p, fs₁.locate (pendMsgPath r m.id) = .ok p ∧ fs₁.get p = none ∧
      w.fs.get p ≠ none) →
      fs.NewPending w.fs r := by
    rintro ⟨p, hp, hnone, hsome⟩
    exact ⟨m.id, p, (h.shape.locate _ _).mp hp, (h.shape.absent p).mp hnone, hsome⟩
  by_cases hx : x.1 < 0
  · -- the call failed, with or without a new file
    have hun :
        Happens UncreatedBy (t ++ ⟨SrvOp.db (.ioOpUsrEnt ⟨r, .msg m⟩ .create), x⟩ :: t') :=
      happens_append.mpr (Or.inr (happens_cons.mpr (Or.inl hx)))
    have hnot :
        ¬ Happens CreatedBy (t ++ ⟨SrvOp.db (.ioOpUsrEnt ⟨r, .msg m⟩ .create),
        x⟩ :: t') := by
      rw [happens_append, happens_cons]
      rintro (hcr | hcr | hcr)
      · exact h.created hcr
      · exact absurd hx (not_lt.mpr hcr)
      · exact hcreated hcr
    rw [if_pos hx] at hcode
    refine ⟨⟨fun hpending => Or.inr ⟨hun, ?_⟩, ?_⟩, ?_, fun _ _ => hun,
      fun _ hcr => absurd hcr hnot⟩
    · rcases hopened with ⟨-, rfl, -⟩ | ⟨-, hfails⟩
      · exact absurd hpending h.not_new
      · exact hfails hx
    · rintro (hcr | ⟨-, hfails⟩)
      · exact absurd hcr hnot
      · rcases hopened with ⟨-, -, hno⟩ | ⟨hmade, -⟩
        · exact absurd hfails hno
        · exact hnew hmade
    · rw [hcode]
      intro heq
      exact absurd (Option.some.inj heq) (by decide)
  · -- the message has been stored
    have hcr :
        Happens CreatedBy (t ++ ⟨SrvOp.db (.ioOpUsrEnt ⟨r, .msg m⟩ .create), x⟩ :: t') :=
      happens_append.mpr (Or.inr (happens_cons.mpr (Or.inl (not_lt.mp hx))))
    have hnot :
        ¬ Happens UncreatedBy (t ++ ⟨SrvOp.db (.ioOpUsrEnt ⟨r, .msg m⟩ .create),
        x⟩ :: t') := by
      rw [happens_append, happens_cons]
      rintro (hun | hun | hun)
      · exact h.uncreated hun
      · exact hx hun
      · exact huncreated hun
    have hiff : ∀ {P : srvE.Event → Prop},
        ¬ P ⟨SrvOp.db (.ioOpUsrEnt ⟨r, .msg m⟩ .create), x⟩ → ¬ Happens P t' →
        (Happens P (t ++ ⟨SrvOp.db (.ioOpUsrEnt ⟨r, .msg m⟩ .create), x⟩ :: t') ↔
          Happens P t) := by
      intro P hev ht'
      rw [happens_append, happens_cons]
      tauto
    rw [if_neg hx] at hcode
    refine ⟨⟨fun _ => Or.inl hcr, fun _ => ?_⟩, ?_, ?_, ?_⟩
    · rcases hopened with ⟨hneg, -, -⟩ | ⟨hmade, -⟩
      · exact absurd hneg hx
      · exact hnew hmade
    · rw [hcode, hiff id hunmodified]
      intro heq
      exact ⟨hnot, fun _ => h.success.mp (Option.some.inj heq)⟩
    · rw [hcode, hiff id hdelivered]
      intro hne hdel
      exact absurd hdel (h.delivered fun heq => hne (congrArg some heq))
    · rw [hcode, hiff id hunmodified]
      intro hne _
      by_contra hno
      exact hne (congrArg some (h.success.mpr hno))

/-! ### A refusal, and the whole request -/

/-- A `SEND` that is refused before the message is passed on. -/
theorem must_refuse {T : DbCall → List sysE.Event → Prop} {t : List srvE.Event}
    (hshape : fs.SameShape fs₁) (hsilent : ∀ ev ∈ t, replyOf ev.1 = none)
    (hne : code ≠ srvSuccess)
    (hdelivered : ¬ Happens DeliveredBy t) (huncreated : ¬ Happens UncreatedBy t)
    (hcreated : ¬ Happens CreatedBy t) :
    (sendServerReply code >>= fun _ => (return () : Srv Unit)).Must (SrvStep T)
      (fun t' _ w => SendOutcome fs w.fs r calls (t ++ t')) ⟨fs₁, input⟩ := by
  refine must_sendServerReply fun ok t' _ ht' _ => must_ret ?_
  have hneutral : ∀ ev ∈ (⟨SrvOp.write .client [code], ok⟩ :: (t' ++ []) : List srvE.Event),
      Neutral ev.1 := by
    intro ev hev
    rcases List.mem_cons.mp hev with rfl | hev
    · trivial
    · rw [List.append_nil] at hev
      rw [ht' ev hev]
      trivial
  obtain ⟨hdelivered', -, huncreated', hcreated'⟩ := not_happens_neutral hneutral
  have hreply : reply (t ++ ⟨SrvOp.write .client [code], ok⟩ :: (t' ++ [])) = some code :=
    (reply_append hsilent).trans (reply_cons_some rfl)
  have hnone : ∀ {P : srvE.Event → Prop}, ¬ Happens P t →
      ¬ Happens P (⟨SrvOp.write .client [code], ok⟩ :: (t' ++ [])) →
      ¬ Happens P (t ++ ⟨SrvOp.write .client [code], ok⟩ :: (t' ++ [])) := by
    intro P h h'
    rw [happens_append]
    exact fun hor => hor.elim h h'
  have hcr := hnone hcreated hcreated'
  have hun := hnone huncreated huncreated'
  refine ⟨⟨?_, ?_⟩, ?_, fun _ hdel => absurd hdel (hnone hdelivered hdelivered'),
    fun _ hmade => absurd hmade hcr⟩
  · rintro ⟨id, p, -, hfree, hsome⟩
    exact absurd ((hshape.absent p).mpr hfree) hsome
  · rintro (hmade | ⟨hfailed, -⟩)
    · exact absurd hmade hcr
    · exact absurd hfailed hun
  · rw [hreply]
    intro heq
    exact absurd (Option.some.inj heq) hne

/-- **What a `SEND` has done**, whatever fails. -/
theorem must_srvSendBody (fs : FS) (input : List ReadEv) (s r c : Bytes) :
    (srvSendBody s r c).Must (SrvStep (createCalls calls))
      (fun t _ w => SendOutcome fs w.fs r calls t) ⟨fs, input⟩ := by
  rw [srvSendBody]
  refine must_uninit fun junk => ?_
  -- from the reply code and the events so far to the end
  have hfinish : ∀ {fs₁ : FS} {code : UInt8} {t : List srvE.Event} {e : Entry} {m : Message},
      Passed fs fs₁ code t → (if e.user.status = statusDcn ∨ junk.byte ≠ srvSuccess then
        callIoOpUsrEnt ⟨r, .msg m⟩ .create >>= fun w =>
          srvSendFinish s (if w.1 < 0 then srvErrSendAny else code) e ⟨r, .msg m⟩
      else srvSendFinish s code e ⟨r, .msg m⟩).Must (SrvStep (createCalls calls))
        (fun t' _ w => SendOutcome fs w.fs r calls (t ++ t')) ⟨fs₁, input⟩ := by
    intro fs₁ code t e m hpassed
    split
    · exact hpassed.store e m
    · exact hpassed.finish e _
  refine must_auxSendInit (fun code e t hne hasks => ?_)
    (fun a b x y w₁ ha hapos hb hbpos hx hxpos hy => ?_)
  · have hneutral : ∀ ev ∈ (⟨SrvOp.uninit, junk⟩ :: t : List srvE.Event),
        Neutral ev.1 ∧ replyOf ev.1 = none := by
      intro ev hev
      rcases List.mem_cons.mp hev with rfl | hev
      · exact ⟨trivial, rfl⟩
      · exact neutral_asks _ (hasks ev hev)
    obtain ⟨hdelivered, -, huncreated, hcreated⟩ :=
      not_happens_neutral fun ev hev => (hneutral ev hev).1
    rw [if_pos hne]
    exact must_refuse (FS.SameShape.refl fs) (fun ev hev => (hneutral ev hev).2) hne hdelivered
      huncreated hcreated
  obtain ⟨fs₁, input₁⟩ := w₁
  obtain ⟨hy, hinput⟩ := hy
  obtain rfl : input₁ = input := hinput
  have hasked : ∀ ev ∈ ([⟨SrvOp.uninit, junk⟩, ⟨SrvOp.db (.userExists s), a⟩,
      ⟨SrvOp.db (.userExists r), b⟩,
        ⟨SrvOp.db (.ioOpUsrEnt ⟨r, .user junk.user⟩ .read), x⟩] :
      List srvE.Event), Neutral ev.1 ∧ replyOf ev.1 = none := by
    intro ev hev
    simp only [List.mem_cons, List.not_mem_nil, or_false] at hev
    rcases hev with rfl | rfl | rfl | rfl <;> exact ⟨by trivial, rfl⟩
  have hbefore := (not_happens_neutral fun ev hev => (hasked ev hev).1).1
  have hstart := (Passed.start.neutral hasked).modify (e := x.2.next) (y := y) (sameShape_modify hy)
    hbefore
  by_cases hfailed : y.1 < 0
  · -- the recipient's record could not be written
    have hne : srvErrSendAny ≠ srvSuccess := by decide
    rw [if_pos hfailed] at hstart ⊢
    rw [if_pos hne]
    exact must_refuse hstart.shape hstart.silent hne (hstart.delivered hne) hstart.uncreated
      hstart.created
  rw [if_neg hfailed] at hstart ⊢
  rw [if_neg (show ¬ srvSuccess ≠ srvSuccess by decide)]
  have hcontacts : ∀ (x₁ : ℤ × Entry) t l, Tells (Contacts x₁.2) t l →
      ∀ ev ∈ (⟨SrvOp.db (.ioOpUsrEnt x.2.next .read), x₁⟩ :: t : List srvE.Event),
        Neutral ev.1 ∧ replyOf ev.1 = none := by
    intro x₁ t l ht ev hev
    rcases List.mem_cons.mp hev with rfl | hev
    · exact ⟨rfl, rfl⟩
    · exact neutral_contacts _ (ht.steps ev hev)
  refine must_auxSendMsgPass (fun _ => ?_) (fun _ x₁ t hx₁ ht hpos => ?_)
    (fun _ x₁ y₁ t l result w₂ hx₁ ht hpre hneg hresult hy₁ => ?_)
  · exact hfinish hstart
  · have hdone := hfinish (m := ⟨s, x.2.next.user.lastMsgId, c⟩) (e := x₁.2)
      ((hstart.neutral (hcontacts x₁ t _ ht)).deliver x₁.2 ⟨s,
        x.2.next.user.lastMsgId, c⟩ 0)
    simp only [List.append_assoc, List.cons_append, List.nil_append] at hdone
    exact hdone
  · obtain ⟨fs₂, input₂⟩ := w₂
    obtain ⟨hy₁, hinput⟩ := hy₁
    obtain rfl : input₂ = input₁ := hinput
    have hno :
        ¬ Happens DeliveredBy ((([⟨SrvOp.uninit, junk⟩, ⟨SrvOp.db (.userExists s), a⟩,
        ⟨SrvOp.db (.userExists r), b⟩,
          ⟨SrvOp.db (.ioOpUsrEnt ⟨r, .user junk.user⟩ .read), x⟩] ++
        [⟨SrvOp.db (.ioOpUsrEnt x.2.next .modify), y⟩]) ++
        (⟨SrvOp.db (.ioOpUsrEnt x.2.next .read), x₁⟩ :: t)) ++
        [⟨SrvOp.note (.cltSendMessage x₁.2 ⟨s, x.2.next.user.lastMsgId, c⟩ result),
          ()⟩]) := by
      rw [happens_append, happens_append, happens_append]
      rintro (((hdel | hdel) | hdel) | hdel)
      · exact hbefore hdel
      · exact not_happens (fun ev hev => by rw [List.mem_singleton.mp hev]; exact id) hdel
      · exact (not_happens_neutral fun ev hev => (hcontacts x₁ t l ht ev hev).1).1 hdel
      · exact not_happens (fun ev hev => by rw [List.mem_singleton.mp hev]; exact hresult) hdel
    have hdone := hfinish (m := ⟨s, x.2.next.user.lastMsgId, c⟩) (e := x₁.2.disconnected)
      (((hstart.neutral (hcontacts x₁ t l ht)).deliver x₁.2 ⟨s, x.2.next.user.lastMsgId, c⟩
        result).modify (e := x₁.2.disconnected) (y := y₁) (sameShape_modify hy₁) hno)
    simp only [List.append_assoc, List.cons_append, List.nil_append] at hdone
    exact hdone

end Send

/-- **`SEND` requests answered with an error.**  Over every database, whatever fails and
whatever the locals hold: a `SEND` that is not answered with success has neither
transmitted the message nor left a copy of it, if and only if no `CREATE` fails behind
the transmission or half-way, and no `CREATE` succeeds behind a failed `MODIFY`. -/
theorem failed_send_iff (calls : List sysE.Event) (fs : FS) (input : List ReadEv) (s r c : Bytes)
    (t : List srvE.Event) (a : Unit) (w' : SrvWorld)
    (h : Exec (SrvStep (createCalls calls)) (srvSendBody s r c) ⟨fs, input⟩ t a w') :
    (reply t ≠ some srvSuccess → ¬ Happens DeliveredBy t ∧ ¬ fs.NewPending w'.fs r) ↔
      ¬ (Happens UncreatedBy t ∧ (Happens DeliveredBy t ∨ WriteFails calls)) ∧
        ¬ (Happens UnmodifiedBy t ∧ Happens CreatedBy t) := by
  have hout : SendOutcome fs w'.fs r calls t := must_srvSendBody fs input s r c t a w' h
  constructor
  · intro hclaim
    refine ⟨?_, ?_⟩
    · rintro ⟨huncreated, hwrong⟩
      have hne : reply t ≠ some srvSuccess := fun heq => (hout.success heq).1 huncreated
      obtain ⟨hdelivered, hnew⟩ := hclaim hne
      rcases hwrong with hdel | hfails
      · exact hdelivered hdel
      · exact hnew (hout.stored.mpr (Or.inr ⟨huncreated, hfails⟩))
    · rintro ⟨hunmodified, hcreated⟩
      have hne : reply t ≠ some srvSuccess := fun heq => (hout.success heq).2 hcreated hunmodified
      exact (hclaim hne).2 (hout.stored.mpr (Or.inl hcreated))
  · rintro ⟨hfirst, hsecond⟩ hne
    refine ⟨fun hdel => ?_, fun hnew => ?_⟩
    · exact hfirst ⟨hout.delivered hne hdel, Or.inl hdel⟩
    · rcases hout.stored.mp hnew with hcreated | ⟨huncreated, hfails⟩
      · exact hsecond ⟨hout.created hne hcreated, hcreated⟩
      · exact hfirst ⟨huncreated, Or.inr hfails⟩

/-! ### A recipient who is not registered -/

/-- A `SEND` from `a` to a user `c` who does not exist. -/
def sendUnknown : List srvE.Event × Unit × SrvWorld :=
  (srvSendBody (ascii "a") (ascii "c") (ascii "hi")).run srvApply calm ⟨registeredAB, []⟩

/-- The condition at a recipient who is not registered. -/
theorem failed_send_iff_unknown :
    (reply sendUnknown.1 ≠ some srvSuccess →
      ¬ Happens DeliveredBy sendUnknown.1 ∧ ¬ registeredAB.NewPending sendUnknown.2.2.fs
        (ascii "c")) ↔
      ¬ (Happens UncreatedBy sendUnknown.1 ∧
          (Happens DeliveredBy sendUnknown.1 ∨ WriteFails [])) ∧
        ¬ (Happens UnmodifiedBy sendUnknown.1 ∧ Happens CreatedBy sendUnknown.1) := by
  refine failed_send_iff [] registeredAB [] (ascii "a") (ascii "c") (ascii "hi") _
    sendUnknown.2.1 _ ?_
  have hasks : ∀ o ∈ sendUnknown.1.map Sigma.fst,
      ¬ ∃ e, o = SrvOp.db (.ioOpUsrEnt e .create) := by
    have hops : sendUnknown.1.map Sigma.fst = [.uninit, .db (.userExists (ascii "a")),
        .db (.userExists (ascii "c")), .write .client [srvErrSendUsrNotExists]] := by decide +kernel
    rw [hops]
    intro o ho
    simp only [List.mem_cons, List.not_mem_nil, or_false] at ho
    rcases ho with rfl | rfl | rfl | rfl <;> simp
  refine (exec_srvRun calm calm_calm (srvSendBody (ascii "a") (ascii "c") (ascii "hi"))
    ⟨registeredAB, []⟩).mono fun w o x w' hmem hstep => ?_
  cases o with
  | db call =>
      refine ⟨?_, hstep.2⟩
      obtain ⟨t, hexec, -⟩ := hstep.1
      refine ⟨t, hexec, ?_⟩
      cases call with
      | ioOpUsrEnt e mode =>
          cases mode with
          | create => exact absurd ⟨e, rfl⟩ (hasks _ (List.mem_map.mpr ⟨_, hmem, rfl⟩))
          | _ => trivial
      | _ => trivial
  | _ => exact hstep

/-! ### A disk that is full -/

/-- `b` is connected. -/
def connectedB : FS := (Req.connect (ascii "b") (ascii "7000")).run calm 1 registeredAB

/-- The database where `b` is connected is reachable. -/
theorem connectedB_reachable : Reachable connectedB := by
  obtain ⟨fs₀, reqs, hfresh, hrun⟩ := registeredAB_reachable
  have hfits : (Req.connect (ascii "b") (ascii "7000")).Fits := by decide
  have hends : (Req.connect (ascii "b") (ascii "7000")).Ends calm 1 registeredAB := by
    decide +kernel
  exact ⟨fs₀, _, hfresh, hrun.snoc (requestStep_run hfits hends)⟩

/-- The uninitialised reply code is 1, and the `open` of the `CREATE` behind the
transmission fails. -/
def fullDisk (n : ℕ) : SrvChoice :=
  if n = 0 then { (default : SrvChoice) with junk := ⟨1, default, default⟩ }
  else if n = 14
    then { (default : SrvChoice) with sys := fun _ => { (default : SysChoice) with fail := true } }
  else default

/-- **A `SEND` answered with an error was transmitted.**  The recipient is connected and
gets the message; then it is stored because of the uninitialised reply code, which fails,
and the sender is told that the message was not sent. -/
theorem not_failed_send_sends_nothing :
    ¬ ∀ (fs : FS) (s r c : Bytes) (t : List srvE.Event) (a : Unit) (w' : SrvWorld),
      Reachable fs →
      Exec (SrvStep anyFaults) (srvSendBody s r c) ⟨fs, []⟩ t a w' →
      reply t ≠ some srvSuccess → ¬ Happens DeliveredBy t ∧ ¬ fs.NewPending w'.fs r := by
  intro h
  have hexec := exec_srvRunWith (T := anyFaults) fullDisk (fun _ _ _ => trivial)
    (srvSendBody (ascii "a") (ascii "b") (ascii "hi")) ⟨connectedB, []⟩
  have hdelivered := (h connectedB _ _ _ _ _ _ connectedB_reachable hexec (by decide +kernel)).1
  have hnote : SrvOp.note (.cltSendMessage ⟨ascii "b", .user ⟨statusCn, 0, 7000, 1⟩⟩
      ⟨ascii "a", 1, ascii "hi"⟩ 0) ∈
        ((srvSendBody (ascii "a") (ascii "b") (ascii "hi")).run srvApply
        fullDisk ⟨connectedB, []⟩).1.map Sigma.fst := by decide +kernel
  obtain ⟨⟨o, x⟩, hmem, rfl⟩ := List.mem_map.mp hnote
  exact hdelivered ⟨_, hmem, rfl⟩
