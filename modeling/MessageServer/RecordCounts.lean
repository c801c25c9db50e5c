/-
# The counter in a record

A service thread that works for a user, alone on the database, and the counter in the record of
the user.

* `FS.Counts`: the record of a user, as far as it counts;
* `exec_counts`: a program on the database is one on the record;
* `keeping`, `exec_keeping`: `CONNECT` and `DISCONNECT` keep the counter.
-/
import MessageServer.Footprint
import MessageServer.FirstAck
import MessageServer.Counter

/-! ## The record of a user -/

/-- What stands in the place of the record of `u`: an entry, nothing that can be read, or a
directory that is not the server's. -/
def FS.Counts (fs : FS) (u : Bytes) (r : Option Entry) : Prop :=
  fs.Records u r ∨ (r = none ∧ Schema fs ∧ fs.get (fs.table u ++ [userdataEntry]) = some .dir)

section Record

variable {fs fs' : FS} {u : Bytes} {r : Option Entry}

/-- The database is well formed. -/
theorem FS.Counts.schema (h : fs.Counts u r) : Schema fs := by
  rcases h with hrecords | ⟨-, hs, -⟩
  · exact hrecords.schema
  · exact hs

/-- At first there is no record. -/
theorem FS.Fresh.counts (h : fs.Fresh) (u : Bytes) : fs.Counts u none := by
  cases hget : fs.get (fs.table u ++ [userdataEntry]) with
  | none => exact Or.inl ⟨h.schema, Or.inl hget, fun e he => absurd he (by simp)⟩
  | some n =>
      cases n with
      | dir => exact Or.inr ⟨rfl, h.schema, hget⟩
      | file c => exact absurd hget (h.noUserdata _ c)

/-! ### Calls on the record -/

/-- What happens to the place of the record of `u`, when no table is deleted: nothing, unless the
call is for the table of `u`, and there is a record or there was no table. -/
theorem Change.record_place {v : Bytes} {call : DbCall} {n : Option Node} {q : Location}
    (h : Change fs (fs.table v) call q n) (hq : q = fs.table u ++ [userdataEntry])
    (hstays : ¬ call.Wipes) :
    n = fs.get q ∨
      (fs.table v = fs.table u ∧ ((∃ c, fs.get q = some (.file c)) ∨
      fs.get (fs.table u) = none)) := by
  obtain ⟨p, b, htable⟩ := lexical_userTablePath fs.cwd v
  cases h with
  | same => exact Or.inl rfl
  | erased _ hcall _ => exact absurd hcall hstays
  | dropped id => exact absurd hq (msgFile_ne_userdata _ _ _)
  | table hnew =>
      rw [FS.table, htable] at hq
      have hlast := congrArg List.getLast? (List.singleton_inj.mp (List.append_inj' hq rfl).2)
      rw [getLast?_append_tableSuffix] at hlast
      exact absurd hlast (by decide)
  | pending hnew => exact absurd (List.singleton_inj.mp (List.append_inj' hq rfl).2) (by decide)
  | record c hc hold =>
      have hsame := (List.append_inj' hq rfl).1
      refine Or.inr ⟨hsame, ?_⟩
      rwa [hsame] at hold ⊢
  | message w m hfits c hc => exact absurd hq (msgFile_ne_userdata _ _ _)

/-- A table stays, when no table is deleted. -/
theorem Change.table_place {v : Bytes} {call : DbCall} {n : Option Node} {q : Location}
    (h : Change fs (fs.table v) call q n) (hq : q = fs.table u) (hstays : ¬ call.Wipes)
    (hn : n = none) :
    fs.get q = none := by
  cases h with
  | same => exact hn
  | erased _ hcall _ => exact absurd hcall hstays
  | dropped id =>
      obtain ⟨p, b, htable⟩ := lexical_userTablePath fs.cwd u
      exact absurd (htable.symm.trans hq.symm) (ne_msgFile (getLast?_append_tableSuffix b) _ _)
  | table hnew => exact absurd hn (by simp)
  | pending hnew => exact absurd hn (by simp)
  | record c hc hold => exact absurd hn (by simp)
  | message w m hfits c hc => exact absurd hn (by simp)

/-- No call makes anything of a directory in the place of the record. -/
theorem dirRecord_call (hdir : fs.get (fs.table u ++ [userdataEntry]) = some .dir)
    {call : DbCall} (hallowed : (tableNames fs.cwd (fs.table u)).Allowed (.db call)) {x : call.Ans}
    (hstep : DbStep untorn fs call x fs') :
    RecordStep (tableNames fs.cwd (fs.table u)) none (.db call) x none := by
  obtain ⟨t, hexec, hun⟩ := id hstep
  have hplace : ∀ {v : Bytes} {p : Location}, NameOf fs.cwd (fs.table u) v →
      fs.locate (userdataPath v) = .ok p → p = fs.table u ++ [userdataEntry] := by
    intro v p hv hp
    obtain ⟨L, hL, rfl⟩ := locate_userdataPath.mp hp
    rw [hL.nameOf rfl hv]
  have hnot : ∀ {v : Bytes} {p : Location} {c : Bytes}, NameOf fs.cwd (fs.table u) v →
      fs.locate (userdataPath v) = .ok p → fs.get p ≠ some (.file c) := by
    intro v p c hv hp hfile
    rw [hplace hv hp, hdir] at hfile
    exact absurd hfile (by simp)
  cases call with
  | creatUsrTbl e => exact Or.inl rfl
  | delUsrTbl v => exact Or.inl rfl
  | ioOpUsrEnt e mode =>
      cases mode with
      | read =>
          refine ⟨rfl, ?_⟩
          rintro v j rfl hv
          obtain ⟨-, hread⟩ := exec_ioOp_read (typed_user v j) hexec
          rcases hread.code with hok | hneg
          · obtain ⟨p, hp⟩ := FS.exists_fileAt (hread.success hok).1
            exact absurd hp.2 (hnot hv hp.1)
          · exact Or.inr ⟨hneg, hread.ofUntorn hun hneg⟩
      | modify =>
          obtain ⟨v, ud, rfl, hv, -⟩ := id hallowed
          have hno : ∀ p, fs.locate (userdataPath v) = .ok p → ¬ fs.Writable .modify p := by
            rintro p hp ⟨c, hc⟩
            exact hnot hv hp hc
          cases exec_ioOp_write (typed_user v ud) (Or.inr rfl) hexec with
          | refused code hcode hfree => exact Or.inr ⟨hcode, Or.inl rfl⟩
          | written p hp hfree => exact absurd hfree (hno p hp)
          | torn p k hp hfree hfault => exact absurd hfree (hno p hp)
      | _ => rfl
  | _ => rfl

/-- **A call for a name of the table** does to the database what it does to the record. -/
theorem counts_call (h : fs.Counts u r) {call : DbCall} (hstays : ¬ call.Wipes)
    (hallowed : (tableNames fs.cwd (fs.table u)).Allowed (.db call)) {x : call.Ans}
    (hstep : DbStep untorn fs call x fs') :
    ∃ r', RecordStep (tableNames fs.cwd (fs.table u)) r (.db call) x r' ∧ fs'.Counts u r' := by
  rcases h with hrecords | ⟨rfl, hs, hdir⟩
  · obtain ⟨r', hrecord, hrecords'⟩ := records_call hrecords hallowed hstep
    exact ⟨r', hrecord, Or.inl hrecords'⟩
  · have htouch := (dbStep_confined hs hallowed hstep).1
    refine ⟨none, dirRecord_call hdir hallowed hstep, Or.inr ⟨rfl, htouch.schema, ?_⟩⟩
    have htable : fs'.table u = fs.table u := by rw [FS.table, FS.table, htouch.cwd]
    rw [htable]
    rcases (dbStep_change (L := fs.table u) hs hallowed hstep _).record_place rfl
      hstays with hsame | ⟨-, hfile | hnone⟩
    · exact hsame.trans hdir
    · obtain ⟨c, hc⟩ := hfile
      rw [hdir] at hc
      exact absurd hc (by simp)
    · rw [hs.tree.none_below hnone] at hdir
      exact absurd hdir (by simp)

/-- **A program that keeps to the table of `u`** does to the database what it does to the record. -/
theorem exec_counts {α : Type} {p : Srv α} (h : fs.Counts u r)
    (hp : p.Obeys (confined (tableNames fs.cwd (fs.table u))) (fun _ _ => True) ())
    {w w' : SrvWorld}
    (hw : w.fs = fs) {t : List srvE.Event} {a : α} (hexec : Exec (SrvStep untorn) p w t a w')
    (hstays : ∀ ev ∈ t, ∀ v, ev.1 ≠ .db (.delUsrTbl v)) :
    ∃ r', Exec (RecordStep (tableNames fs.cwd (fs.table u))) p r t a r' ∧
      w'.fs.Counts u r' := by
  have hexec' : Exec (fun w (o : SrvOp) x w' => (∀ v, o ≠ .db (.delUsrTbl v)) ∧
      SrvStep untorn w o x w') p
      w t a w' :=
    hexec.mono fun _ _ _ _ hmem hstep => ⟨hstays _ hmem, hstep⟩
  have hmatch : ∀ (w : SrvWorld) (r : Option Entry) (ph : Unit) (o : SrvOp) (x : o.Ans)
      (w' : SrvWorld),
      (w.fs.cwd = fs.cwd ∧ w.fs.Counts u r) →
      (confined (tableNames fs.cwd (fs.table u))).allowed ph o →
      ((∀ v, o ≠ .db (.delUsrTbl v)) ∧ SrvStep untorn w o x w') →
      (confined (tableNames fs.cwd (fs.table u))).possible ph o x ∧
        ∃ r', RecordStep (tableNames fs.cwd (fs.table u)) r o x r' ∧ w'.fs.cwd = fs.cwd ∧
          w'.fs.Counts u r' := by
    rintro w r ph o x w' ⟨hcwd, hcounts⟩ hallowed ⟨hno, hR⟩
    have htable : w.fs.table u = fs.table u := by rw [FS.table, FS.table, hcwd]
    have hfree : w'.fs = w.fs → w'.fs.cwd = fs.cwd ∧ w'.fs.Counts u r := by
      intro heq
      rw [heq]
      exact ⟨hcwd, hcounts⟩
    cases o with
    | db call =>
        have hallowed' : (tableNames w.fs.cwd (w.fs.table u)).Allowed (.db call) := by
          rw [hcwd, htable]
          exact hallowed
        have hkept : ¬ call.Wipes := by
          rintro ⟨v, rfl⟩
          exact hno v rfl
        obtain ⟨htouch, hposs⟩ := dbStep_confined hcounts.schema hallowed' hR.1
        obtain ⟨r', hrecord, hcounts'⟩ := counts_call hcounts hkept hallowed' hR.1
        rw [hcwd, htable] at hposs hrecord
        exact ⟨hposs, r', hrecord, htouch.cwd.trans hcwd, hcounts'⟩
    | recv buf => exact ⟨trivial, r, rfl, hfree hR.1⟩
    | _ => exact ⟨trivial, r, rfl, hfree (congrArg SrvWorld.fs hR)⟩
  have hstart : w.fs.cwd = fs.cwd ∧ w.fs.Counts u r := by
    rw [hw]
    exact ⟨rfl, h⟩
  obtain ⟨r', -, hrun, ⟨-, hcounts'⟩, -⟩ := hexec'.simulate_obeys
    (B := fun w r _ => w.fs.cwd = fs.cwd ∧ w.fs.Counts u r) hmatch hp hstart
  exact ⟨r', hrun, hcounts'⟩

end Record

/-! ## The counter in the other services -/

/-- An entry of the class with the counter `n`. -/
def Confinement.HasCount (C : Confinement) (n : UInt32) (e : Entry) : Prop :=
  ∃ v ud, e = ⟨v, .user ud⟩ ∧ C.Same v ∧ ud.lastMsgId = n

/-- What reading an entry of the class gives: one with the counter, or nothing. -/
def Confinement.ReadsCount (C : Confinement) (n : UInt32) (e : Entry) (x : ℤ × Entry) : Prop :=
  ∀ v ud, e = ⟨v, .user ud⟩ → C.Same v → (0 ≤ x.1 ∧ C.HasCount n x.2) ∨
    (x.1 < 0 ∧ x.2 = e)

/-- The discipline of `CONNECT` and `DISCONNECT`: behind its first successful `READ` a thread
knows the counter, and it writes no other one. -/
def keeping (C : Confinement) : Discipline srvE (Option UInt32) where
  allowed
    | ph, .db (.ioOpUsrEnt e .modify) => ∃ n, ph = some n ∧ C.HasCount n e
    | none, .db (.ioOpUsrEnt e .read) => ∃ v ud, e = ⟨v, .user ud⟩ ∧ C.Same v
    | _, .db (.creatUsrTbl _) => False
    | _, .db (.delUsrTbl _) => False
    | _, _ => True
  possible
    | ph, .db (.ioOpUsrEnt e .read), x => C.ReadsCount (ph.getD x.2.user.lastMsgId) e x
    | _, _, _ => True
  next
    | none, .db (.ioOpUsrEnt _ .read), x => if 0 ≤ x.1 then some x.2.user.lastMsgId else none
    | ph, _, _ => ph

section Keeping

variable {C : Confinement} {n : UInt32} {ph : Option UInt32}

/-- A change of other fields keeps the count. -/
theorem Confinement.HasCount.mapUser {e : Entry} (h : C.HasCount n e) {f : Userdata → Userdata}
    (hf : ∀ ud, (f ud).lastMsgId = ud.lastMsgId) : C.HasCount n (e.mapUser f) := by
  obtain ⟨v, ud, rfl, hv, hn⟩ := h
  exact ⟨v, f ud, rfl, hv, (hf ud).trans hn⟩

/-- So does a read. -/
theorem Confinement.ReadsCount.keeps {e : Entry} {x : ℤ × Entry} (h : C.ReadsCount n e x)
    (he : C.HasCount n e) : C.HasCount n x.2 := by
  obtain ⟨v, ud, rfl, hv, hn⟩ := id he
  rcases h v ud rfl hv with ⟨-, hcount⟩ | ⟨-, hsame⟩
  · exact hcount
  · rw [hsame]
    exact he

/-- A step that leaves the database alone keeps what the thread knows. -/
theorem keeping_inert (o : SrvOp) (ho : Inert o) :
    (keeping C).allowed ph o ∧ ∀ x, (keeping C).next ph o x = ph := by
  cases o with
  | db call => exact ho.elim
  | note n => exact ho.elim
  | _ => cases ph <;> exact ⟨trivial, fun _ => rfl⟩

/-- So does a piece of such steps. -/
theorem obeys_keeping_inert {α : Type} {p : Srv α} (hp : p.Performs Inert)
    {Q : Option UInt32 → α → Prop}
    (hQ : ∀ a, Q ph a) : p.Obeys (keeping C) Q ph :=
  obeys_of_performs keeping_inert hp hQ

/-! ### The pieces of the services -/

/-- The connection to a listening thread keeps the count of its entry. -/
theorem obeys_keeping_auxConnect (e : Entry) :
    (auxConnectCltListenThread e).Obeys (keeping C)
      (fun ph r => ph = some n ∧ (C.HasCount n e → C.HasCount n r.2)) (some n) := by
  rw [auxConnectCltListenThread]
  refine obeys_perform_bind.mpr ⟨trivial, fun (r : ℤ × Entry) hr => ?_⟩
  have hcount : some n = some n ∧ (C.HasCount n e → C.HasCount n r.2) :=
    ⟨rfl, fun he => hr.keeps he⟩
  split
  · exact hcount
  refine obeys_perform_bind.mpr ⟨trivial, fun ok _ => ?_⟩
  cases ok with
  | false => exact hcount
  | true => exact obeys_perform_bind.mpr ⟨trivial, fun _ _ => hcount⟩

/-- A transmission keeps the count of its entry. -/
theorem obeys_keeping_cltSendMessage (request : CltRequest) (e : Entry) :
    (cltSendMessage request e).Obeys (keeping C)
      (fun ph r => ph = some n ∧ (C.HasCount n e → C.HasCount n r.2)) (some n) := by
  rw [cltSendMessage, obeys_bind]
  refine (obeys_keeping_auxConnect e).mono ?_
  rintro ph r ⟨rfl, hr⟩
  rw [obeys_bind]
  refine obeys_keeping_inert (performs_ifConnected (onSock_cltSendMessageStrings _))
    fun result => ?_
  exact obeys_perform_bind.mpr ⟨trivial, fun _ _ => ⟨rfl, hr⟩⟩

/-- An acknowledgement keeps what the thread knows. -/
theorem obeys_keeping_cltSendMessAck (request : CltRequest) (e : Entry) :
    (cltSendMessAck request e).Obeys (keeping C) (fun ph _ => ph = some n) (some n) := by
  rw [cltSendMessAck, obeys_bind]
  refine (obeys_keeping_auxConnect (n := n) e).mono ?_
  rintro ph r ⟨rfl, -⟩
  rw [obeys_bind]
  refine obeys_keeping_inert (performs_ifConnected (onSock_cltSendMessAckStrings _))
    fun result => ?_
  exact obeys_perform_bind.mpr ⟨trivial, fun _ _ => rfl⟩

/-- The drain, by induction on its rounds. -/
theorem obeys_keeping_drainLoop (fuel : ℕ) (pendMsgEntry : Entry) {recipientEntry : Entry}
    (senderEntry : Entry) (h : C.HasCount n recipientEntry) :
    (drainLoop fuel pendMsgEntry recipientEntry senderEntry).Obeys (keeping C) (fun _ _ => True)
      (some n) := by
  induction fuel generalizing pendMsgEntry recipientEntry senderEntry with
  | zero => trivial
  | succ fuel ih =>
      rw [drainLoop]
      refine obeys_perform_bind.mpr ⟨trivial, fun g _ => ?_⟩
      split
      · rw [obeys_bind]
        refine (obeys_keeping_cltSendMessage _ _).mono ?_
        rintro ph r ⟨rfl, hr⟩
        split
        · refine obeys_perform_bind.mpr ⟨trivial, fun _ _ => ?_⟩
          rw [obeys_bind]
          refine (obeys_keeping_cltSendMessAck _ _).mono ?_
          rintro ph a rfl
          exact ih _ _ (hr h)
        · exact obeys_perform_bind.mpr ⟨⟨n, rfl, (hr h).mapUser fun _ => rfl⟩,
            fun _ _ => trivial⟩
      · trivial

/-- Behind a `READ` that succeeds the counter is known. -/
theorem obeys_keeping_read_bind {α : Type} {v : Bytes} {ud : Userdata} (hv : C.Same v)
    {f : ℤ × Entry → Srv α} {Q : Option UInt32 → α → Prop}
    (h : ∀ x ph', (0 ≤ x.1 → ∃ n, ph' = some n ∧ C.HasCount n x.2) →
        (f x).Obeys (keeping C) Q ph') :
    (callIoOpUsrEnt ⟨v, .user ud⟩ .read >>= f).Obeys (keeping C) Q ph := by
  have hallowed : (keeping C).allowed ph (.db (.ioOpUsrEnt ⟨v, .user ud⟩ .read)) := by
    cases ph with
    | none => exact ⟨v, ud, rfl, hv⟩
    | some n => trivial
  refine obeys_perform_bind.mpr ⟨hallowed, fun (x : ℤ × Entry) hx => h x _ fun hpos => ?_⟩
  have hcount := ((hx : C.ReadsCount _ _ _) v ud rfl hv).resolve_right fun hneg =>
    not_lt.mpr hpos hneg.1
  cases ph with
  | none => exact ⟨_, if_pos hpos, hcount.2⟩
  | some n => exact ⟨n, rfl, hcount.2⟩

/-- The drain writes back the count that it has read. -/
theorem obeys_keeping_auxConnectSendPendMsgs (fuel : ℕ) {u : Bytes} (m : Message)
    (hu : C.Same u) :
    (auxConnectSendPendMsgs fuel ⟨u, .msg m⟩).Obeys (keeping C) (fun _ _ => True) ph := by
  rw [auxConnectSendPendMsgs]
  refine obeys_perform_bind.mpr ⟨(keeping_inert .uninit trivial).1, fun junk _ => ?_⟩
  refine obeys_keeping_read_bind hu fun x ph' hx => ?_
  split
  · trivial
  · rename_i hpos
    obtain ⟨n, rfl, hcount⟩ := hx (not_lt.mp hpos)
    exact obeys_keeping_drainLoop _ _ _ hcount

/-! ### The services -/

/-- The reply of `CONNECT` writes back the count that it has read. -/
theorem obeys_keeping_srvConnectReply (port : Bytes) (reply : UInt8) (ioResult : ℤ) {e : Entry}
    (he : 0 ≤ ioResult → ∃ n, ph = some n ∧ C.HasCount n e) :
    (srvConnectReply port reply ioResult e).Obeys (keeping C) (fun _ _ => True) ph := by
  unfold srvConnectReply
  split
  · trivial
  split
  · trivial
  rename_i hpos
  split
  · trivial
  refine obeys_perform_bind.mpr ⟨(keeping_inert .getpeername trivial).1, fun peer _ => ?_⟩
  rw [(keeping_inert .getpeername trivial).2]
  -- whatever the reply code is by now
  generalize (if peer.isNone then srvErrCnAny
    else if (strToNum port .int).toOption.isNone then srvErrCnAny else reply) = code
  simp only
  split
  · obtain ⟨n, rfl, hcount⟩ := he (not_lt.mp hpos)
    exact obeys_perform_bind.mpr ⟨⟨n, rfl, hcount.mapUser fun _ => rfl⟩, fun _ _ => trivial⟩
  · trivial

/-- `CONNECT` writes back the count that it has read. -/
theorem obeys_keeping_srvConnectBody (fuel : ℕ) {u : Bytes} (hu : C.Same u) (port : Bytes) :
    (srvConnectBody fuel u port).Obeys (keeping C) (fun _ _ => True) ph := by
  rw [srvConnectBody]
  refine obeys_perform_bind.mpr ⟨(keeping_inert .uninit trivial).1, fun junk _ => ?_⟩
  refine obeys_keeping_read_bind hu fun x ph' hx => ?_
  rw [obeys_bind]
  refine (obeys_keeping_srvConnectReply port junk.byte x.1 hx).mono fun _ code _ => ?_
  rw [obeys_bind]
  refine obeys_keeping_inert (performs_sendServerReply _) fun _ => ?_
  rw [obeys_bind]
  exact (obeys_keeping_auxConnectSendPendMsgs fuel _ hu).mono fun _ _ _ => trivial

/-- `DISCONNECT` writes back the count that it has read. -/
theorem obeys_keeping_srvDisconnectBody {u : Bytes} (hu : C.Same u) :
    (srvDisconnectBody u).Obeys (keeping C) (fun _ _ => True) ph := by
  rw [srvDisconnectBody]
  refine obeys_perform_bind.mpr ⟨(keeping_inert .uninit trivial).1, fun junk _ => ?_⟩
  refine obeys_keeping_read_bind hu fun x ph' hx => ?_
  have hrest : ∀ code, ((sendServerReply code >>= fun _ => return ()) : Srv Unit).Obeys
      (keeping C) (fun _ _ => True) ph' := by
    intro code
    rw [obeys_bind]
    exact obeys_keeping_inert (performs_sendServerReply _) fun _ => trivial
  rw [obeys_bind]
  unfold srvDisconnectReply
  split
  · exact hrest _
  split
  · exact hrest _
  rename_i hpos
  split
  · exact hrest _
  · obtain ⟨n, rfl, hcount⟩ := hx (not_lt.mp hpos)
    exact obeys_perform_bind.mpr ⟨⟨n, rfl, hcount.mapUser fun _ => rfl⟩, fun w _ => hrest _⟩

/-! ### The count is kept -/

/-- What is known of the record, which was `r₀` at first. -/
def KeptCount (r₀ r : Option Entry) : Option UInt32 → Prop
  | none => r = r₀
  | some n => (∃ e, r₀ = some e ∧ e.user.lastMsgId = n) ∧ ∀ e, r = some e →
      e.user.lastMsgId = n

/-- What reading finds has the counter. -/
theorem RecordStep.readsCount {r r' : Option Entry} {e : Entry} {x : ℤ × Entry}
    (h : RecordStep C r (.db (.ioOpUsrEnt e .read)) x r')
    (hcount : ∀ e, r = some e → e.user.lastMsgId = n) :
    r' = r ∧ C.ReadsCount n e x := by
  refine ⟨h.1, fun v ud he hv => ?_⟩
  rcases h.2 v ud he hv with ⟨hok, hsome, v', ud', hentry, hv', -⟩ | hfailed
  · refine Or.inl ⟨by rw [hok]; decide, v', ud', hentry, hv', ?_⟩
    rw [← hcount x.2 hsome, hentry]
    rfl
  · exact Or.inr hfailed

/-- What reading under a name of the table finds is the record. -/
theorem RecordStep.reads_own {r r' : Option Entry} {v : Bytes} {ud : Userdata} {x : ℤ × Entry}
    (hv : C.Same v)
    (h : RecordStep C r (.db (.ioOpUsrEnt ⟨v, .user ud⟩ .read)) x r') :
    r' = r ∧ C.ReadsCount x.2.user.lastMsgId ⟨v, .user ud⟩ x ∧
      ((0 ≤ x.1 ∧ r = some x.2) ∨ x.1 < 0) := by
  rcases h.2 v ud rfl hv with ⟨hok, hsome, -⟩ | hfailed
  · have hcount : ∀ e, r = some e → e.user.lastMsgId = x.2.user.lastMsgId := by
      intro e he
      rw [Option.some.inj (he.symm.trans hsome)]
    obtain ⟨hr, hreads⟩ := RecordStep.readsCount h hcount
    exact ⟨hr, hreads, Or.inl ⟨by rw [hok]; decide, hsome⟩⟩
  · exact ⟨h.1, fun _ _ _ _ => Or.inr hfailed, Or.inr hfailed.1⟩

/-- One step of a thread that numbers nothing. -/
theorem KeptCount.step {r₀ r r' : Option Entry} {o : SrvOp} {x : o.Ans} (h : KeptCount r₀ r ph)
    (hallowed : (keeping C).allowed ph o) (hstep : RecordStep C r o x r') :
    (keeping C).possible ph o x ∧ KeptCount r₀ r' ((keeping C).next ph o x) := by
  have hsame : ∀ {o : SrvOp} {x : o.Ans}, r' = r → (keeping C).next ph o x = ph →
      KeptCount r₀ r' ((keeping C).next ph o x) := by
    intro o x hr hnext
    rw [hr, hnext]
    exact h
  cases o with
  | db call =>
      cases call with
      | userExists v => exact ⟨by cases ph <;> trivial, hsame hstep (by cases ph <;> rfl)⟩
      | getPendMsg e => exact ⟨by cases ph <;> trivial, hsame hstep (by cases ph <;> rfl)⟩
      | creatUsrTbl e => cases ph <;> exact hallowed.elim
      | delUsrTbl v => cases ph <;> exact hallowed.elim
      | ioOpUsrEnt e mode =>
          cases mode with
          | read =>
              cases ph with
              | none =>
                  obtain ⟨v, ud, rfl, hv⟩ := hallowed
                  obtain ⟨hr, hreads, hread⟩ := hstep.reads_own hv
                  refine ⟨hreads, ?_⟩
                  show KeptCount r₀ r' (if 0 ≤ x.1 then some x.2.user.lastMsgId else none)
                  rcases hread with ⟨hpos, hsome⟩ | hneg
                  · rw [if_pos hpos]
                    refine ⟨⟨x.2, h.symm.trans hsome, rfl⟩, fun e he => ?_⟩
                    rw [Option.some.inj (he.symm.trans (hr.trans hsome))]
                  · rw [if_neg (not_le.mpr hneg)]
                    exact hr.trans h
              | some n =>
                  obtain ⟨hr, hreads⟩ := RecordStep.readsCount hstep h.2
                  exact ⟨hreads, hsame hr rfl⟩
          | modify =>
              obtain ⟨n, rfl, hcount⟩ := hallowed
              refine ⟨trivial, h.1, fun e' he' => ?_⟩
              rcases hstep with ⟨-, hr⟩ | ⟨-, hr | hr⟩
              · obtain ⟨v, ud, rfl, -, hn⟩ := hcount
                rw [← Option.some.inj (hr.symm.trans he')]
                exact hn
              · exact h.2 e' (hr.symm.trans he')
              · rw [hr] at he'
                exact absurd he' (by simp)
          | create => exact ⟨by cases ph <;> trivial, hsame hstep (by cases ph <;> rfl)⟩
          | delete => exact ⟨by cases ph <;> trivial, hsame hstep (by cases ph <;> rfl)⟩
          | overwrite => exact ⟨by cases ph <;> trivial, hsame hstep (by cases ph <;> rfl)⟩
  | _ => exact ⟨by cases ph <;> trivial, hsame hstep (by cases ph <;> rfl)⟩

/-- **What keeps the counter keeps it**: a record that is there afterwards was there before, with
the same counter. -/
theorem exec_keeping {α : Type} {p : Srv α} (hp : p.Obeys (keeping C) (fun _ _ => True) none)
    {r r' : Option Entry} {t : List srvE.Event} {a : α}
    (h : Exec (RecordStep C) p r t a r') (e' : Entry)
    (he' : r' = some e') : ∃ e, r = some e ∧ e'.user.lastMsgId = e.user.lastMsgId := by
  obtain ⟨ph, hend, -⟩ := h.obeys (I := KeptCount r)
    (fun _ _ _ _ _ hinv hallowed hstep => hinv.step hallowed hstep) hp rfl
  cases ph with
  | none =>
      obtain rfl : r' = r := hend
      exact ⟨e', he', rfl⟩
  | some n =>
      obtain ⟨⟨e, he, hcount⟩, hlast⟩ := hend
      exact ⟨e, he, (hlast e' he').trans hcount.symm⟩

end Keeping
