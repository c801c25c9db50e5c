/-
# Messages told apart by their ids

The id of a message comes from the counter in the record of its recipient, and the second
acknowledgement, which carries the id and nothing else, goes to the sender.

* `CounterMove`: what a request does to the counter;
* `Tallied`: the ids that have been given for a user, after any sequence of requests;
* `ids_distinct`: messages to one recipient have different ids;
* `not_ids_distinct`: messages to two recipients may have the same one.
-/
import MessageServer.Numbering

/-! ## What a request does to the counter -/

/-- A request that fits the buffers is handled; system calls may fail, but no transfer is torn. -/
def HandledUntorn (fs : FS) (step : Turned) (fs' : FS) : Prop :=
  step.1.Fits ∧ Handles untorn fs step.1 step.2 fs'

/-- No table is deleted, not even in part. -/
def DeletesNothing (t : List srvE.Event) : Prop := ∀ ev ∈ t, ∀ v, ev.1 ≠ .db (.delUsrTbl v)

/-- The id that a request has given. -/
def givenId : Turned → Option UInt32
  | (.send _ _ _, t) => messageId t
  | _ => none

/-- What a request for the table does to the counter: it keeps it, or sets up a record in a new
table, or gives the next id. -/
inductive CounterMove (isNew : Prop) (r r' : Option Entry) (step : Turned) : Prop
  | kept (hid : givenId step = none)
      (hr : ∀ e', r' = some e' → ∃ e, r = some e ∧ e'.user.lastMsgId = e.user.lastMsgId)
  | opened (hnew : isNew) (hid : givenId step = none)
      (hr : ∀ e', r' = some e' → e'.user.lastMsgId = 0)
  | given (e : Entry) (he : r = some e) (hid : givenId step = some (nextMsgId e.user.lastMsgId))
      (hr : ∀ e', r' = some e' → e'.user.lastMsgId = nextMsgId e.user.lastMsgId)

/-- The steps that leave the record alone. -/
def Spares : SrvOp → Prop
  | .db (.ioOpUsrEnt _ .modify) => False
  | .db (.creatUsrTbl _) => False
  | .db (.delUsrTbl _) => False
  | _ => True

/-! ### Steps that spare the record -/

section Requests

variable {fs fs' : FS} {u : Bytes} {r : Option Entry} {step : Turned}

/-- A step that spares the record leaves it. -/
theorem RecordStep.spared {C : Confinement} {r' : Option Entry} {o : SrvOp} {x : o.Ans}
    (ho : Spares o)
    (h : RecordStep C r o x r') : r' = r := by
  cases o with
  | db call =>
      cases call with
      | creatUsrTbl e => exact ho.elim
      | delUsrTbl v => exact ho.elim
      | ioOpUsrEnt e mode =>
          cases mode with
          | read => exact h.1
          | modify => exact ho.elim
          | _ => exact h
      | _ => exact h
  | _ => exact h

/-- So does a piece of such steps. -/
theorem exec_spared {C : Confinement} {r' : Option Entry} {α : Type} {p : Srv α}
    {t : List srvE.Event} {a : α}
    (h : Exec (RecordStep C) p r t a r') (ht : ∀ ev ∈ t, Spares ev.1) : r' = r := by
  have hstay : Exec (fun s (_ : SrvOp) _ s' => s' = s) p r t a r' :=
    h.mono fun _ _ _ _ hmem hstep => hstep.spared (ht _ hmem)
  exact hstay.invariant (I := (· = r)) (fun _ _ _ _ hsame hs => hsame.trans hs) rfl

/-- What leaves the database alone spares the record. -/
theorem Inert.spares (o : SrvOp) (h : Inert o) : Spares o := by
  cases o with
  | db call => exact h.elim
  | _ => trivial

/-- The reply at the end of a service. -/
theorem performs_reply (code : UInt8) :
    ((sendServerReply code >>= fun _ => return ()) : Srv Unit).Performs Inert :=
  (performs_sendServerReply code).bind fun _ => trivial

/-! ### The requests -/

/-- `REGISTER` and the record. -/
theorem exec_register_record {C : Confinement} {v : Bytes} {r' : Option Entry}
    {t : List srvE.Event} {a : Unit}
    (h : Exec (RecordStep C) (srvRegisterBody v) r t a r') :
    r' = r ∨ (r = none ∧ ∃ e, e.user.lastMsgId = 0 ∧ r' = some e) := by
  rw [srvRegisterBody] at h
  obtain ⟨junk, r₁, t₁, hr₁, hrest, rfl⟩ := exec_perform_bind_iff.mp h
  obtain rfl : r₁ = r := hr₁
  obtain ⟨x, r₂, t₂, hcreate, hreply, rfl⟩ := exec_perform_bind_iff.mp hrest
  obtain rfl :=
    exec_spared hreply fun ev hev => Inert.spares _ (hreply.performs (performs_reply _) ev hev)
  rcases hcreate with hsame | ⟨hnone, hnew⟩
  · exact Or.inl hsame
  · exact Or.inr ⟨hnone, _, rfl, hnew⟩

/-- `REGISTER` changes nothing when there is a table. -/
theorem exec_register_table {T : DbCall → List sysE.Event → Prop} (hs : Schema fs) {v : Bytes}
    {w w' : SrvWorld}
    (hw : w.fs = fs) {t : List srvE.Event} {a : Unit}
    (h : Exec (SrvStep T) (srvRegisterBody v) w t a w') :
    w'.fs = fs ∨ fs.get (fs.table v) = none := by
  rw [srvRegisterBody] at h
  obtain ⟨junk, w₁, t₁, hw₁, hrest, rfl⟩ := exec_perform_bind_iff.mp h
  obtain rfl : w₁ = w := hw₁
  obtain ⟨x, w₂, t₂, hcreate, hreply, rfl⟩ := exec_perform_bind_iff.mp hrest
  rw [exec_inert (performs_reply _) hreply]
  obtain ⟨⟨calls, hexec, -⟩, -⟩ := hcreate
  rw [hw] at hexec
  generalize w₂.fs = fs₂ at hexec
  have hplace : ∀ L, fs.locate (userTablePath v) = .ok L → L = fs.table v :=
    fun L hL => locate_eq_lexical hL
  cases exec_creatUsrTbl hs.tree hexec with
  | found L hL => exact Or.inl rfl
  | refused hno => exact Or.inl rfl
  | table L hL hnew hbroken => exact Or.inr (hplace L hL ▸ hnew)
  | record L hL hnew hbroken c hc => exact Or.inr (hplace L hL ▸ hnew)
  | complete L hL hnew code hr => exact Or.inr (hplace L hL ▸ hnew)

/-- `UNREGISTER` does nothing but delete tables. -/
theorem performs_srvUnregisterBody (v : Bytes) :
    (srvUnregisterBody v).Performs fun o => Spares o ∨ ∃ w, o = SrvOp.db (.delUsrTbl w) := by
  have hreply : ∀ code, ((sendServerReply code >>= fun _ => return ()) : Srv Unit).Performs
      fun o => Spares o ∨ ∃ w, o = SrvOp.db (.delUsrTbl w) := by
    exact fun code => (performs_reply code).mono fun o ho => Or.inl ho.spares
  rw [srvUnregisterBody]
  refine Prog.performs_perform_bind.mpr ⟨Or.inl trivial, fun userExists => ?_⟩
  unfold srvUnregisterReply
  split
  · exact Prog.performs_perform_bind.mpr ⟨Or.inr ⟨v, rfl⟩, fun result => hreply _⟩
  split
  · exact hreply _
  · exact hreply _

/-- **A request for the table of `u`.** -/
theorem HandledUntorn.counts (h : HandledUntorn fs step fs') (hstays : DeletesNothing step.2)
    {v : Bytes} (hv : step.1.user = some v) (htable : fs.table v = fs.table u)
    (hcounts : fs.Counts u r) :
    ∃ r', fs'.Counts u r' ∧ CounterMove (fs.get (fs.table u) = none) r r' step := by
  obtain ⟨hfits, fuel, hexec⟩ := h
  obtain ⟨req, t⟩ := step
  have hsame : ∀ w, req.user = some w → (tableNames fs.cwd (fs.table u)).Same w := by
    intro w hw
    obtain rfl := Option.some.inj (hv.symm.trans hw)
    exact ⟨(hfits.user hv).mono (by decide), htable⟩
  obtain ⟨r', hrun, hcounts'⟩ :=
    exec_counts hcounts (body_confined fuel hfits hsame) rfl hexec hstays
  cases req with
  | register w =>
      obtain rfl := Option.some.inj hv
      obtain ⟨t₁, a, r₁, t₂, hbody, hend, rfl⟩ := exec_bind_iff.mp hrun
      obtain ⟨-, -, rfl⟩ := exec_ret_iff.mp hend
      obtain ⟨t₃, b, w₁, t₄, hbody', hend', -⟩ := exec_bind_iff.mp hexec
      obtain ⟨-, -, rfl⟩ := exec_ret_iff.mp hend'
      rcases exec_register_record hbody with rfl | ⟨rfl, e, he, rfl⟩
      · exact ⟨_, hcounts', .kept rfl fun e' he' => ⟨e', he', rfl⟩⟩
      rcases exec_register_table hcounts.schema rfl hbody' with hfs | hnew
      · obtain rfl : fs' = fs := hfs
        exact ⟨none, hcounts, .kept rfl fun e' he' => ⟨e', he', rfl⟩⟩
      · refine ⟨_, hcounts', .opened (htable ▸ hnew) rfl fun e' he' => ?_⟩
        rw [← Option.some.inj he']
        exact he
  | unregister w =>
      obtain ⟨t₁, a, r₁, t₂, hbody, hend, rfl⟩ := exec_bind_iff.mp hrun
      obtain ⟨-, -, rfl⟩ := exec_ret_iff.mp hend
      obtain rfl := exec_spared hbody fun ev hev => by
        refine (hbody.performs (performs_srvUnregisterBody w) ev hev).resolve_right ?_
        rintro ⟨w', hw'⟩
        exact hstays ev (List.mem_append_left _ hev) w' hw'
      exact ⟨_, hcounts', .kept rfl fun e' he' => ⟨e', he', rfl⟩⟩
  | connect w port =>
      exact ⟨r', hcounts',
        .kept rfl (exec_keeping (obeys_keeping_srvConnectBody fuel (hsame w rfl) port) hrun)⟩
  | disconnect w =>
      obtain ⟨t₁, a, r₁, t₂, hbody, hend, rfl⟩ := exec_bind_iff.mp hrun
      obtain ⟨-, -, rfl⟩ := exec_ret_iff.mp hend
      exact ⟨_, hcounts',
        .kept rfl (exec_keeping (obeys_keeping_srvDisconnectBody (hsame w rfl)) hbody)⟩
  | send s w c =>
      obtain ⟨t₁, a, r₁, t₂, hbody, hend, rfl⟩ := exec_bind_iff.mp hrun
      obtain ⟨rfl, -, rfl⟩ := exec_ret_iff.mp hend
      rw [List.append_nil]
      cases exec_numbering (hsame w rfl) hbody with
      | refused hr hsilent =>
          exact ⟨_, hcounts', .kept hsilent.id fun e' he' => ⟨e', hr e' he', rfl⟩⟩
      | given e he hr hid habout => exact ⟨_, hcounts', .given e he hid hr⟩
  | unknown => exact absurd hv (by simp [Req.user])

/-- **Any request**: tables stay, and so does the record of `u`, unless the request is for its
table. -/
theorem HandledUntorn.places (h : HandledUntorn fs step fs') (hs : Schema fs)
    (hstays : DeletesNothing step.2)
    (u : Bytes) :
    fs'.cwd = fs.cwd ∧ Schema fs' ∧
    (fs'.get (fs.table u) = none → fs.get (fs.table u) = none) ∧
      ((∀ v, step.1.user = some v → fs.table v ≠ fs.table u) →
        fs'.get (fs.table u ++ [userdataEntry]) = fs.get (fs.table u ++ [userdataEntry])) := by
  obtain ⟨hfits, fuel, hexec⟩ := h
  obtain ⟨req, t⟩ := step
  have hs' : Schema fs' := RequestStep.schema hs ⟨hfits, t, fuel, hexec⟩
  cases hv : req.user with
  | none =>
      cases req with
      | unknown =>
          obtain ⟨-, -, hw⟩ := exec_ret_iff.mp hexec
          obtain rfl : fs' = fs := congrArg SrvWorld.fs hw
          exact ⟨rfl, hs', id, fun _ => rfl⟩
      | _ => exact absurd hv (by simp [Req.user])
  | some v =>
      have hkeep : ∀ fs₁ call (x : DbCall.Ans call) fs₂, Schema fs₁ →
          (fs₁.cwd = fs.cwd ∧ (fs₁.get (fs.table u) = none → fs.get (fs.table u) = none) ∧
            (fs.table v ≠ fs.table u →
              fs₁.get (fs.table u ++ [userdataEntry]) =
                fs.get (fs.table u ++ [userdataEntry]))) →
          ¬ call.Wipes → (tableNames fs₁.cwd (fs.table v)).Allowed (.db call) →
            DbStep untorn fs₁ call x fs₂ →
          (fs₂.cwd = fs.cwd ∧ (fs₂.get (fs.table u) = none → fs.get (fs.table u) = none) ∧
            (fs.table v ≠ fs.table u →
              fs₂.get (fs.table u ++ [userdataEntry]) =
                fs.get (fs.table u ++ [userdataEntry]))) := by
        rintro fs₁ call x fs₂ hs₁ ⟨hcwd, hnone, hplace⟩ hkept hallowed hstep
        have htable : ∀ w, fs₁.table w = fs.table w := by
          intro w
          rw [FS.table, FS.table, hcwd]
        have hchange := dbStep_change hs₁ hallowed hstep
        rw [← htable v] at hchange
        refine ⟨(dbStep_confined hs₁ hallowed hstep).1.cwd.trans hcwd, fun hn => ?_,
          fun hne => ?_⟩
        · exact hnone ((hchange _).table_place (htable u).symm hkept hn)
        · rcases (hchange _).record_place (u := u) (by rw [htable]) hkept with hsame | ⟨heq, -⟩
          · exact hsame.trans (hplace hne)
          · rw [htable, htable] at heq
            exact absurd heq hne
      have hend :=
        exec_confined hs ⟨rfl, id, fun _ => rfl⟩ hkeep (body_confined fuel hfits fun w hw => by
        obtain rfl := Option.some.inj (hv.symm.trans hw)
        exact ⟨(hfits.user hv).mono (by decide), rfl⟩) rfl hexec fun ev hev call hcall => by
          rintro ⟨w, rfl⟩
          exact hstays ev hev w hcall
      exact ⟨hend.1, hs', hend.2.1, fun hne => hend.2.2 (hne v rfl)⟩

end Requests

/-! ## The ids of a history -/

/-- The id that a request has given for the table of `u`. -/
def givenFor (fs : FS) (u : Bytes) (step : Turned) : Option UInt32 :=
  if step.1.user.map fs.table = some (fs.table u) then givenId step else none

/-- A request is a `SEND`. -/
def Req.isSend : Req → Bool
  | .send _ _ _ => true
  | _ => false

/-- How many requests are a `SEND`. -/
def sendCount (H : List Turned) : ℕ := H.countP fun step => step.1.isSend

/-- The ids that history `H` has given for the table of `u` increase, and the counter in the record
is behind none of them. -/
structure Tallied (u : Bytes) (H : List Turned) (fs : FS) : Prop where
  counts : ∃ r, fs.Counts u r ∧ ∀ e, r = some e →
    (∀ id ∈ H.filterMap (givenFor fs u), id ≤ e.user.lastMsgId) ∧
    e.user.lastMsgId.toNat ≤ sendCount H
  increasing : (H.filterMap (givenFor fs u)).Pairwise (· < ·)
  noTable : fs.get (fs.table u) = none → H.filterMap (givenFor fs u) = []

/-- A message that was accepted has an id, and the thread names it by this id only. -/
def Identified (step : Turned) : Prop :=
  ∀ s r c, step.1 = .send s r c → Accepted step.2 →
    ∃ id, messageId step.2 = some id ∧ ∀ act ∈ acts step.2, act.About (· = ⟨s, id, c⟩)

/-! ### The tally of a history -/

section Histories

variable {fs fs' fs₀ : FS} {u : Bytes} {step : Turned} {H : List Turned}

/-- The tally of a fresh database. -/
theorem FS.Fresh.tallied (h : fs.Fresh) (u : Bytes) : Tallied u [] fs :=
  ⟨⟨none, h.counts u, fun e he => absurd he (by simp)⟩, List.Pairwise.nil, fun _ => rfl⟩

/-- One more request that gives an id. -/
theorem sendCount_snoc (h : givenId step ≠ none) : sendCount (H ++ [step]) = sendCount H + 1 := by
  obtain ⟨req, t⟩ := step
  rw [sendCount, List.countP_append]
  cases req with
  | send s r c => rfl
  | _ => exact absurd rfl h

/-- The count never goes down. -/
theorem sendCount_le (H : List Turned) (step : Turned) :
    sendCount H ≤ sendCount (H ++ [step]) := by
  rw [sendCount, sendCount, List.countP_append]
  exact Nat.le_add_right _ _

/-- A user who has a record has a table. -/
theorem FS.Counts.table {e : Entry} (h : fs.Counts u (some e)) : fs.get (fs.table u) ≠ none := by
  intro hnone
  rcases h with hrecords | ⟨habsurd, -⟩
  · have hstores := hrecords.stores
    rw [FS.Stores, hrecords.schema.tree.none_below hnone] at hstores
    exact absurd hstores (by simp)
  · exact absurd habsurd (by simp)

/-- **One request.** -/
theorem Tallied.turn (h : Tallied u H fs) (hstep : HandledUntorn fs step fs')
    (hstays : DeletesNothing step.2) (hfew : sendCount (H ++ [step]) < 2 ^ 32 - 1) :
    Tallied u (H ++ [step]) fs' := by
  obtain ⟨r, hcounts, hlast⟩ := h.counts
  obtain ⟨hcwd, hs', hnone, hplace⟩ := hstep.places hcounts.schema hstays u
  have htable : ∀ w, fs'.table w = fs.table w := by
    intro w
    rw [FS.table, FS.table, hcwd]
  have hgiven : givenFor fs' u = givenFor fs u := by
    funext step
    rw [givenFor, givenFor, htable, funext htable]
  have hmore := sendCount_le H step
  have hids : (H ++ [step]).filterMap (givenFor fs' u) =
      H.filterMap (givenFor fs u) ++ (givenFor fs u step).toList := by
    rw [hgiven, List.filterMap_append]
    cases hstep : givenFor fs u step with
    | none => simp [hstep]
    | some id => simp [hstep]
  -- no id is given
  have hquiet : givenFor fs u step = none → (∃ r', fs'.Counts u r' ∧ ∀ e', r' = some e' →
      (∀ id ∈ H.filterMap (givenFor fs u), id ≤ e'.user.lastMsgId) ∧
        e'.user.lastMsgId.toNat ≤ sendCount (H ++ [step])) → Tallied u (H ++ [step]) fs' := by
    intro hno hcount
    have hsame : (H ++ [step]).filterMap (givenFor fs' u) = H.filterMap (givenFor fs u) := by
      rw [hids, hno]
      exact List.append_nil _
    refine ⟨?_, ?_, fun hn => ?_⟩
    · rw [hsame]
      exact hcount
    · rw [hsame]
      exact h.increasing
    · rw [hsame]
      rw [htable] at hn
      exact h.noTable (hnone hn)
  by_cases hown : step.1.user.map fs.table = some (fs.table u)
  · obtain ⟨v, hv, hvu⟩ := Option.map_eq_some_iff.mp hown
    have hid : givenFor fs u step = givenId step := if_pos hown
    obtain ⟨r', hcounts', hmove⟩ := hstep.counts hstays hv hvu hcounts
    cases hmove with
    | kept hno hr =>
        refine hquiet (hid.trans hno) ⟨r', hcounts', fun e' he' => ?_⟩
        obtain ⟨e, he, hcount⟩ := hr e' he'
        rw [hcount]
        exact ⟨(hlast e he).1, (hlast e he).2.trans hmore⟩
    | opened hnew hno hr =>
        refine hquiet (hid.trans hno) ⟨r', hcounts', fun e' he' => ?_⟩
        rw [hr e' he', h.noTable hnew]
        exact ⟨by simp, Nat.zero_le _⟩
    | given e he hnext hr =>
        obtain ⟨hbelow, hcount⟩ := hlast e he
        have hone : sendCount (H ++ [step]) = sendCount H + 1 :=
          sendCount_snoc (by rw [hnext]; simp)
        have hmax : msgIdMaxValue.toNat = 2 ^ 32 - 1 := rfl
        have hlt : e.user.lastMsgId < msgIdMaxValue := by
          rw [UInt32.lt_iff_toNat_lt]
          omega
        have hnat : (nextMsgId e.user.lastMsgId).toNat = e.user.lastMsgId.toNat + 1 := by
          rw [toNat_nextMsgId hlt]
          exact Nat.mod_eq_of_lt (by omega)
        have hmem : ∀ id ∈ H.filterMap (givenFor fs u), id < nextMsgId e.user.lastMsgId := by
          intro id hmem
          have hle := UInt32.le_iff_toNat_le.mp (hbelow id hmem)
          rw [UInt32.lt_iff_toNat_lt, hnat]
          omega
        rw [hid, hnext] at hids
        refine ⟨⟨r', hcounts', fun e' he' => ?_⟩, ?_, fun hn => ?_⟩
        · rw [hr e' he', hids]
          refine ⟨fun id hid' => ?_, by omega⟩
          rcases List.mem_append.mp hid' with hold | hnew
          · exact UInt32.le_of_lt (hmem id hold)
          · rw [List.mem_singleton.mp hnew]
            exact UInt32.le_refl _
        · rw [hids]
          refine List.pairwise_append.mpr ⟨h.increasing, List.pairwise_singleton _ _,
            fun id hid' id' hnew => ?_⟩
          rw [List.mem_singleton.mp hnew]
          exact hmem id hid'
        · rw [htable] at hn
          subst he
          exact absurd (hnone hn) hcounts.table
  · have hother : ∀ v, step.1.user = some v → fs.table v ≠ fs.table u := by
      rintro v hv heq
      exact hown (by rw [hv]; exact congrArg some heq)
    have hget := hplace hother
    refine hquiet (if_neg hown)
      ⟨r, ?_, fun e he => ⟨(hlast e he).1, (hlast e he).2.trans hmore⟩⟩
    rcases hcounts with hrecords | ⟨hr, -, hdir⟩
    · exact Or.inl (hrecords.same hs' hcwd hget)
    · refine Or.inr ⟨hr, hs', ?_⟩
      rw [htable, hget]
      exact hdir

/-- A message that is accepted has an id. -/
theorem HandledUntorn.identified (h : HandledUntorn fs step fs') (hstays : DeletesNothing step.2)
    (htallied : ∀ u, Tallied u H fs) : Identified step := by
  obtain ⟨req, t⟩ := step
  rintro s r c hreq haccepted
  obtain rfl : req = .send s r c := hreq
  obtain ⟨rec, hcounts, -⟩ := (htallied r).counts
  obtain ⟨hfits, fuel, hexec⟩ := h
  have hr : (tableNames fs.cwd (fs.table r)).Same r := ⟨hfits.2.1.mono (by decide), rfl⟩
  obtain ⟨r', hrun, -⟩ := exec_counts hcounts (body_confined fuel hfits fun w hw => by
    obtain rfl := Option.some.inj hw
    exact hr) rfl hexec hstays
  obtain ⟨t₁, a, r₁, t₂, hbody, hend, rfl⟩ := exec_bind_iff.mp hrun
  obtain ⟨rfl, -, rfl⟩ := exec_ret_iff.mp hend
  rw [List.append_nil] at haccepted ⊢
  cases exec_numbering hr hbody with
  | refused hr hsilent => exact absurd haccepted hsilent.reply
  | given e he hr hid habout => exact ⟨_, hid, habout⟩

/-- **The run lemma.** -/
theorem run_tallied (hfresh : fs₀.Fresh) (h : Run HandledUntorn fs₀ H fs)
    (hstays : ∀ step ∈ H, DeletesNothing step.2) (hfew : sendCount H < 2 ^ 32 - 1) :
    (∀ u, Tallied u H fs) ∧ ∀ step ∈ H, Identified step := by
  induction h with
  | nil => exact ⟨fun u => hfresh.tallied u, by simp⟩
  | @snoc H fs fs' step _ hstep ih =>
      have hlast : DeletesNothing step.2 := hstays step (by simp)
      obtain ⟨htallied, hall⟩ := ih (fun step hmem => hstays step (List.mem_append_left _ hmem))
        ((sendCount_le H step).trans_lt hfew)
      refine ⟨fun u => (htallied u).turn hstep hlast hfew, fun step' hmem => ?_⟩
      rcases List.mem_append.mp hmem with hold | hnew
      · exact hall step' hold
      · rw [List.mem_singleton.mp hnew]
        exact hstep.identified hlast htallied

/-! ### Different ids -/

/-- Any two accepted requests `P` of the history have given different ids. -/
def IdsDistinct (P : Req → Prop) (H : List Turned) : Prop :=
  H.Pairwise fun step step' => P step.1 → P step'.1 → Accepted step.2 → Accepted step'.2 →
    messageId step.2 ≠ messageId step'.2

/-- **An id tells apart the messages of one sender to one recipient.**  Requests are handled one
at a time, fewer than `MSG_ID_MAX_VALUE` of them are a `SEND`, and nobody is unregistered. -/
theorem ids_distinct (hfresh : fs₀.Fresh) (h : Run HandledUntorn fs₀ H fs)
    (hstays : ∀ step ∈ H, DeletesNothing step.2) (hfew : sendCount H < 2 ^ 32 - 1) :
    (∀ step ∈ H, Identified step) ∧
      ∀ s r, IdsDistinct (fun req => ∃ c, req = .send s r c) H := by
  obtain ⟨htallied, hall⟩ := run_tallied hfresh h hstays hfew
  refine ⟨hall, fun s r => ?_⟩
  have hincreasing := List.pairwise_filterMap.mp (htallied r).increasing
  refine hincreasing.imp_of_mem ?_
  rintro ⟨req, t⟩ ⟨req', t'⟩ hmem hmem' hlt ⟨c, hreq⟩ ⟨c', hreq'⟩ hacc hacc' heq
  obtain rfl : req = .send s r c := hreq
  obtain rfl : req' = .send s r c' := hreq'
  obtain ⟨id, hid, -⟩ := hall _ hmem s r c rfl hacc
  have hgiven : givenFor fs r (.send s r c, t) = some id := (if_pos rfl).trans hid
  have hgiven' : givenFor fs r (.send s r c', t') = some id :=
    (if_pos rfl).trans (heq.symm.trans hid)
  exact absurd rfl (UInt32.ne_of_lt (hlt id hgiven id hgiven'))

end Histories

/-! ## The same id twice -/

instance (t : List srvE.Event) : Decidable (DeletesNothing t) :=
  decidable_of_iff (t.all fun ev => match ev.1 with | .db (.delUsrTbl _) => false | _ => true) <| by
    rw [List.all_eq_true]
    refine forall₂_congr fun ev _ => ?_
    obtain ⟨o, x⟩ := ev
    cases o with
    | db call => cases call <;> simp
    | _ => simp

/-- Two messages from `a` to `b`. -/
def sendTwice : List Req :=
  [.register (ascii "a"), .register (ascii "b"), .send (ascii "a") (ascii "b") (ascii "hi"),
    .send (ascii "a") (ascii "b") (ascii "ho")]

/-- Two messages to one user. -/
theorem sendTwice_plays : Plays 1 (calmly sendTwice) emptyDb ∧
    (∀ step ∈ (history 1 (calmly sendTwice) emptyDb).1, DeletesNothing step.2) ∧
    sendCount (history 1 (calmly sendTwice) emptyDb).1 = 2 := by
  decide +kernel

/-- The law at these two messages. -/
theorem ids_distinct_sendTwice :
    (∀ step ∈ (history 1 (calmly sendTwice) emptyDb).1, Identified step) ∧
      ∀ s r, IdsDistinct (fun req => ∃ c, req = .send s r c)
        (history 1 (calmly sendTwice) emptyDb).1 :=
  ids_distinct emptyDb_fresh
    ((run_calmly sendTwice_plays.1).mono fun _ _ _ h => ⟨h.1, h.2.untorn⟩)
    sendTwice_plays.2.1 (by rw [sendTwice_plays.2.2]; decide)

/-- Two messages from `a`, one to `b` and one to `c`. -/
def sendBoth : List Req :=
  [.register (ascii "a"), .register (ascii "b"), .register (ascii "c"),
    .send (ascii "a") (ascii "b") (ascii "hi"), .send (ascii "a") (ascii "c") (ascii "ho")]

/-- The second transfer of a write fails behind one byte. -/
def shortWrite : ℕ → SysChoice
  | 1 => { (default : SysChoice) with count := 0 }
  | 2 => { (default : SysChoice) with fail := true }
  | _ => default

/-- The third step of a service is a library call whose write is torn. -/
def tearing : ℕ → SrvChoice
  | 2 => { (default : SrvChoice) with sys := shortWrite }
  | _ => default

/-- Two messages from `a` to `b`; in between `b` connects, and disconnects with a torn write. -/
def sendAroundTear : Script :=
  [(.register (ascii "a"), calm), (.register (ascii "b"), calm),
    (.send (ascii "a") (ascii "b") (ascii "hi"), calm), (.connect (ascii "b") (ascii "7000"), calm),
    (.disconnect (ascii "b"), tearing), (.send (ascii "a") (ascii "b") (ascii "ho"), calm)]

/-- The history has two accepted requests, in these places, with one id. -/
def Repeats (H : List Turned) (i j : ℕ) (req req' : Req) : Prop :=
  ∃ hi : i < H.length, ∃ hj : j < H.length, H[i].1 = req ∧ H[j].1 = req' ∧
    Accepted H[i].2 ∧
    Accepted H[j].2 ∧ messageId H[i].2 = messageId H[j].2

instance (H : List Turned) (i j : ℕ) (req req' : Req) : Decidable (Repeats H i j req req') :=
  inferInstanceAs (Decidable (∃ hi : i < H.length, ∃ hj : j < H.length, H[i].1 = req ∧
    H[j].1 = req' ∧
    Accepted H[i].2 ∧ Accepted H[j].2 ∧ messageId H[i].2 = messageId H[j].2))

/-- A repeated id breaks the law. -/
theorem Repeats.not_distinct {P : Req → Prop} {H : List Turned} {i j : ℕ} {req req' : Req}
    (h : Repeats H i j req req') (hij : i < j) (hreq : P req) (hreq' : P req') :
    ¬ IdsDistinct P H := by
  intro hdistinct
  obtain ⟨hi, hj, rfl, rfl, hacc, hacc', heq⟩ := h
  exact List.pairwise_iff_getElem.mp hdistinct i j hi hj hij hreq hreq' hacc hacc' heq

/-- Messages to two users get the same id. -/
theorem sendBoth_repeats : Plays 1 (calmly sendBoth) emptyDb ∧
    (∀ step ∈ (history 1 (calmly sendBoth) emptyDb).1, DeletesNothing step.2) ∧
    sendCount (history 1 (calmly sendBoth) emptyDb).1 = 2 ∧
    Repeats (history 1 (calmly sendBoth) emptyDb).1 3 4
      (.send (ascii "a") (ascii "b") (ascii "hi"))
        (.send (ascii "a") (ascii "c") (ascii "ho")) := by
  decide +kernel

/-- A torn record gives an id again. -/
theorem sendAroundTear_repeats : Plays 3 sendAroundTear emptyDb ∧
    (∀ step ∈ (history 3 sendAroundTear emptyDb).1, DeletesNothing step.2) ∧
    sendCount (history 3 sendAroundTear emptyDb).1 = 2 ∧
    Repeats (history 3 sendAroundTear emptyDb).1 2 5
      (.send (ascii "a") (ascii "b") (ascii "hi"))
        (.send (ascii "a") (ascii "b") (ascii "ho")) := by
  decide +kernel

/-- **One id for two messages.**  The first messages to two recipients have the same id, and when
the record is torn, so do two messages to one recipient. -/
theorem not_ids_distinct :
    (¬ ∀ (fs₀ fs : FS) (H : List Turned), fs₀.Fresh → Run Handled fs₀ H fs →
      (∀ step ∈ H, DeletesNothing step.2) → sendCount H < 2 ^ 32 - 1 →
      ∀ s, IdsDistinct (fun req => ∃ r c, req = .send s r c) H) ∧
    ¬ ∀ (fs₀ fs : FS) (H : List Turned), fs₀.Fresh →
      Run (fun fs step fs' => step.1.Fits ∧ Handles anyFaults fs step.1 step.2 fs') fs₀ H fs →
      (∀ step ∈ H, DeletesNothing step.2) → sendCount H < 2 ^ 32 - 1 →
      ∀ s r, IdsDistinct (fun req => ∃ c, req = .send s r c) H := by
  constructor
  · intro h
    obtain ⟨hplays, hstays, hcount, hrepeats⟩ := sendBoth_repeats
    refine hrepeats.not_distinct (by decide) ⟨_, _, rfl⟩ ⟨_, _, rfl⟩
      (h emptyDb _ _ emptyDb_fresh (run_calmly hplays) hstays ?_ (ascii "a"))
    rw [hcount]
    decide
  · intro h
    obtain ⟨hplays, hstays, hcount, hrepeats⟩ := sendAroundTear_repeats
    refine hrepeats.not_distinct (by decide) ⟨_, rfl⟩ ⟨_, rfl⟩
      (h emptyDb _ _ emptyDb_fresh (run_history (fun _ _ _ _ _ => trivial) hplays) hstays ?_
        (ascii "a") (ascii "b"))
    rw [hcount]
    decide
