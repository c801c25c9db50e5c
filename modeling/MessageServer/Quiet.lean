/-
# Requests without effect

A request is without effect when it leaves the database as it is and transmits
nothing to a listener.

* `quietly fs`: the discipline of steps without effect on `fs`;
* `exec_quiet`: a program that obeys it has no effect, whatever fails;
* `Drains fs u`: `CONNECT` finds a message of `u` to send.  Then the drain may
  transmit (`may_transmit_drain`), and otherwise it has no effect
  (`quiet_auxConnectSendPendMsgs`).
-/
import MessageServer.Executions

/-! ## Effects -/

/-- Bytes reach a client's listener. -/
def sentEvent (bytes : Bytes) : srvE.Event := ⟨SrvOp.write .listener bytes, (true : Bool)⟩

/-- Something is transmitted to a listener. -/
def Transmits (t : List srvE.Event) : Prop := ∃ bytes, sentEvent bytes ∈ t

/-- The same working directory, directories and files. -/
structure FS.Same (fs fs' : FS) : Prop where
  cwd : fs'.cwd = fs.cwd
  nodes : ∀ q, fs'.get q = fs.get q

theorem FS.Same.refl (fs : FS) : fs.Same fs := ⟨rfl, fun _ => rfl⟩

/-- No step changes the database or writes to a listener. -/
def quietly (fs : FS) : Discipline srvE Unit where
  allowed := fun _ o =>
    match o with
    | .db call => ∀ x fs', DbStep anyFaults fs call x fs' → fs' = fs
    | .write .listener _ => False
    | _ => True
  possible := fun _ o x =>
    match o, x with
    | .db call, x => ∃ fs', DbStep anyFaults fs call x fs'
    | _, _ => True
  next := fun _ _ _ => ()

theorem quietly_step {fs : FS} {w w' : SrvWorld} {ph : Unit} {o : SrvOp} {x : o.Ans}
    (hw : w.fs = fs) (hallowed : (quietly fs).allowed ph o) (hR : SrvStep anyFaults w o x w') :
    (quietly fs).possible ph o x ∧ w'.fs = fs := by
  obtain rfl := hw
  cases o with
  | db call => exact ⟨⟨_, hR.1⟩, hallowed _ _ hR.1⟩
  | recv buf => exact ⟨trivial, hR.1⟩
  | getpeername => exact ⟨trivial, congrArg SrvWorld.fs hR⟩
  | socket => exact ⟨trivial, congrArg SrvWorld.fs hR⟩
  | connect ip port => exact ⟨trivial, congrArg SrvWorld.fs hR⟩
  | write sock bytes => exact ⟨trivial, congrArg SrvWorld.fs hR⟩
  | close sock => exact ⟨trivial, congrArg SrvWorld.fs hR⟩
  | uninit => exact ⟨trivial, congrArg SrvWorld.fs hR⟩
  | note n => exact ⟨trivial, congrArg SrvWorld.fs hR⟩

/-- **A quiet program has no effect**, whatever fails. -/
theorem exec_quiet {α : Type} {fs : FS} {p : Srv α} {Q : Unit → α → Prop}
    (hp : p.Obeys (quietly fs) Q ()) {w w' : SrvWorld} (hw : w.fs = fs)
    {t : List srvE.Event} {a : α}
    (h : Exec (SrvStep anyFaults) p w t a w') : w'.fs = fs ∧ ¬ Transmits t ∧ Q () a := by
  obtain ⟨_, hfs, hQ⟩ := Exec.obeys (I := fun w _ => w.fs = fs)
    (fun _ _ _ _ _ hw hallowed hR => quietly_step hw hallowed hR) h hp hw
  refine ⟨hfs, ?_, hQ⟩
  rintro ⟨bytes, hsent⟩
  obtain ⟨_, hallowed⟩ := Exec.allowed (I := fun w _ => w.fs = fs)
    (fun _ _ _ _ _ hw hallowed hR => quietly_step hw hallowed hR) h hp hw _ hsent
  exact hallowed

section Quiet

variable {fs : FS}

theorem quiet_sendServerReply (code : UInt8) {Q : Unit → ℤ → Prop} (hQ : ∀ r, Q () r) :
    (sendServerReply code).Obeys (quietly fs) Q () := by
  rw [sendServerReply]
  refine obeys_perform_bind.mpr ⟨trivial, fun ok _ => ?_⟩
  cases ok with
  | true => exact hQ _
  | false => exact obeys_perform_bind.mpr ⟨trivial, fun _ _ => hQ _⟩

/-- Reading is quiet. -/
theorem quiet_read {α : Type} {e : Entry} {f : ℤ × Entry → Srv α} {Q : Unit → α → Prop}
    (hf : ∀ r, DbStep anyFaults fs (.ioOpUsrEnt e .read) r fs →
      (f r).Obeys (quietly fs) Q ()) : (callIoOpUsrEnt e .read >>= f).Obeys (quietly fs) Q () := by
  refine obeys_perform_bind.mpr ⟨fun x fs' hstep => ?_, fun r hr => ?_⟩
  · obtain ⟨t, hexec, -⟩ := hstep
    exact exec_ioOp_read_frame hexec
  · obtain ⟨fs', hstep⟩ := hr
    obtain rfl : fs' = fs := by
      obtain ⟨t, hexec, -⟩ := hstep
      exact exec_ioOp_read_frame hexec
    exact hf r hstep

theorem quiet_userExists {α : Type} {u : Bytes} {f : ℤ → Srv α} {Q : Unit → α → Prop}
    (hf : ∀ r, r = 1 ∧ (∃ p, fs.DirAt (userTablePath u) p) ∨ r ≤ 0 →
      (f r).Obeys (quietly fs) Q ()) : (callUserExists u >>= f).Obeys (quietly fs) Q () := by
  refine obeys_perform_bind.mpr ⟨fun x fs' hstep => ?_, fun r hr => ?_⟩
  · obtain ⟨t, hexec, -⟩ := hstep
    exact (exec_userExists hexec).1
  · obtain ⟨fs', t, hexec, -⟩ := hr
    obtain ⟨-, hr⟩ := exec_userExists hexec
    exact hf r (hr.imp_right And.left)

end Quiet

/-! ## The record of a user -/

/-- The userdata file of `u` holds record `ud` under the name `u'`, and `u'` leads to
this file again. -/
structure FS.KnownAs (fs : FS) (u u' : Bytes) (ud : Userdata) : Prop where
  fits : FitsBuf maxStrSize u'
  content : fs.content (userdataPath u) = Entry.image ⟨u', .user ud⟩
  again : fs.content (userdataPath u') = Entry.image ⟨u', .user ud⟩

/-- A name that leads to no userdata file. -/
def FS.Lost (fs : FS) (u : Bytes) : Prop := ∀ q, fs.locate (userdataPath u) ≠ .ok q

/-- A pending message of `u` whose name reads as a number. -/
def FS.Numeric (fs : FS) (u : Bytes) : Prop :=
  ∃ p, fs.DirAt (pendTablePath u) p ∧ ∃ d ∈ fs.children p, ∃ id,
    strToNum d.name .uint = .ok id

/-- `CONNECT` of `u` finds a message to send. -/
def FS.Drains (fs : FS) (u : Bytes) : Prop := (∃ u' ud, fs.KnownAs u u' ud) ∧ fs.Numeric u

/-- The record that a name leads to: its own name leads there too, or nowhere. -/
theorem Schema.place_or_lost {fs : FS} (hs : Schema fs) {u : Bytes}
    (hne : fs.content (userdataPath u) ≠ []) :
    ∃ u' ud, fs.content (userdataPath u) = Entry.image ⟨u', .user ud⟩ ∧
      FitsBuf maxStrSize u' ∧
      ud.lastMsgId < msgIdMaxValue ∧
      ((∃ p, fs.FileAt (userdataPath u) p (Entry.image ⟨u', .user ud⟩) ∧
        fs.FileAt (userdataPath u') p (Entry.image ⟨u', .user ud⟩)) ∨ fs.Lost u') := by
  obtain ⟨u', ud, hc, hu', hid⟩ := hs.read_userdata hne
  refine ⟨u', ud, hc, hu'.1, hid, ?_⟩
  by_cases hlost : fs.Lost u'
  · exact Or.inr hlost
  · left
    obtain ⟨q, hq⟩ : ∃ q, fs.locate (userdataPath u') = .ok q := by
      unfold FS.Lost at hlost
      push Not at hlost
      exact hlost
    obtain ⟨L', hL', rfl⟩ := locate_userdataPath.mp hq
    obtain ⟨q', hq', hget⟩ := FS.exists_fileAt hne
    obtain ⟨L, hL, rfl⟩ := locate_userdataPath.mp hq'
    -- both names lead to the table of `u`
    obtain rfl : L' = L := by
      rw [hL'.nameOf rfl hu', ← locate_eq_lexical hL.1]
    rw [hc] at hget
    exact ⟨_, ⟨hq', hget⟩, hq, hget⟩

/-- A record is known under its name, or its name is lost. -/
theorem Schema.known_or_lost {fs : FS} (hs : Schema fs) {u : Bytes}
    (hne : fs.content (userdataPath u) ≠ []) :
    ∃ u' ud, fs.content (userdataPath u) = Entry.image ⟨u', .user ud⟩ ∧
      FitsBuf maxStrSize u' ∧
      ud.lastMsgId < msgIdMaxValue ∧ (fs.KnownAs u u' ud ∨ fs.Lost u') := by
  obtain ⟨u', ud, hc, hfits, hid, ⟨p, -, hp⟩ | hlost⟩ := hs.place_or_lost hne
  · exact ⟨u', ud, hc, hfits, hid, Or.inl ⟨hfits, hc, hp.content⟩⟩
  · exact ⟨u', ud, hc, hfits, hid, Or.inr hlost⟩

theorem FS.Lost.content {fs : FS} {u : Bytes} (h : fs.Lost u) :
    fs.content (userdataPath u) = [] := by
  by_contra hne
  obtain ⟨q, hq, -⟩ := FS.exists_fileAt hne
  exact h q hq

/-- Reading an empty file, or none, gives nothing. -/
theorem ReadOutcome.of_nil {fs : FS} {e : Entry} {t : List sysE.Event} {r : ℤ × Entry}
    (h : ReadOutcome fs e t r) (hnil : fs.content (entryPath e) = []) : r.1 < 0 ∧ r.2 = e := by
  constructor
  · rcases h.code with hok | hneg
    · exact absurd hnil (h.success hok).1
    · exact hneg
  · obtain ⟨k, hr⟩ := h.overlay
    rw [hr, hnil, List.take_nil]
    rfl

/-- Reading a record. -/
theorem ReadOutcome.of_image {fs : FS} {e e' : Entry} {t : List sysE.Event} {r : ℤ × Entry}
    (h : ReadOutcome fs e t r) (hc : fs.content (entryPath e) = e'.image) (hfits : e'.Fits) :
    r.1 < 0 ∨ (r.1 = dbmsSuccess ∧ r.2 = e') := by
  rcases h.code with hok | hneg
  · right
    refine ⟨hok, ?_⟩
    rw [(h.success hok).2, hc, overlay_image hfits]
  · exact Or.inl hneg

/-! ## The drain without effect -/

section Quiet

variable {fs : FS}

/-- Writing under a lost name is refused. -/
theorem quiet_modify_lost {α : Type} {u : Bytes} {ud : Userdata} (hlost : fs.Lost u)
    {f : ℤ × Entry → Srv α} {Q : Unit → α → Prop}
    (hf : ∀ r : ℤ × Entry, r.1 < 0 → (f r).Obeys (quietly fs) Q ()) :
    (callIoOpUsrEnt ⟨u, .user ud⟩ .modify >>= f).Obeys (quietly fs) Q () := by
  have hwrite : ∀ x fs', DbStep anyFaults fs (.ioOpUsrEnt ⟨u, .user ud⟩ .modify) x fs' →
      fs' = fs ∧ x.1 < 0 := by
    rintro x fs' ⟨t, hexec, -⟩
    cases exec_ioOp_write (typed_user u ud) (Or.inr rfl) hexec with
    | refused code hcode hfree => exact ⟨rfl, hcode⟩
    | written p hloc hfree => exact absurd hloc (hlost p)
    | torn p k hloc hfree hfault => exact absurd hloc (hlost p)
  refine obeys_perform_bind.mpr ⟨fun x fs' hstep => (hwrite x fs' hstep).1, fun r hr => ?_⟩
  obtain ⟨fs', hstep⟩ := hr
  exact hf r (hwrite r fs' hstep).2

/-- A message for a lost name is not sent. -/
theorem quiet_cltSendMessage_lost (request : CltRequest) {u : Bytes} {ud : Userdata}
    (hlost : fs.Lost u) : (cltSendMessage request ⟨u, .user ud⟩).Obeys (quietly fs)
      (fun _ r => r = (genErrAny, ⟨u, .user ud⟩)) () := by
  rw [cltSendMessage, obeys_bind, auxConnectCltListenThread]
  refine quiet_read fun r hr => ?_
  obtain ⟨t, hexec, -⟩ := hr
  obtain ⟨-, hread⟩ := exec_ioOp_read (typed_user u ud) hexec
  obtain ⟨hneg, heq⟩ := hread.of_nil hlost.content
  rw [if_pos hneg, heq]
  simp only [Prog.pure_eq, obeys_ret]
  rw [ifConnected, if_pos dbmsErrAny_neg]
  exact obeys_perform_bind.mpr ⟨trivial, fun _ _ => rfl⟩

/-- **The drain has no effect** when `CONNECT` finds no message to send. -/
theorem quiet_auxConnectSendPendMsgs (hs : Schema fs) {u : Bytes}
    (hno : ¬ fs.Drains u) (fuel : ℕ) (m : Message) :
    (auxConnectSendPendMsgs fuel ⟨u, .msg m⟩).Obeys (quietly fs) (fun _ _ => True) () := by
  rw [auxConnectSendPendMsgs]
  refine obeys_perform_bind.mpr ⟨trivial, fun junk _ => ?_⟩
  refine quiet_read fun r hr => ?_
  obtain ⟨t, hexec, -⟩ := hr
  obtain ⟨-, hread⟩ := exec_ioOp_read (typed_user u junk.user) hexec
  split
  · trivial
  rename_i hpos
  have hok : r.1 = dbmsSuccess := hread.code.resolve_right hpos
  obtain ⟨u', ud, hc, hu', -, hknown⟩ := hs.known_or_lost (hread.success hok).1
  obtain ⟨-, hr⟩ := (hread.of_image hc (fits_user hu' ud)).resolve_left hpos
  rw [hr]
  cases fuel with
  | zero => trivial
  | succ fuel =>
      rw [drainLoop]
      refine obeys_perform_bind.mpr ⟨fun x fs' hstep => ?_, fun g hg => ?_⟩
      · obtain ⟨t', hexec', -⟩ := hstep
        exact (exec_getPendMsg hs.tree hexec').1
      obtain ⟨fs', t', hexec', -⟩ := hg
      obtain ⟨-, hpend⟩ := exec_getPendMsg hs.tree hexec'
      split
      · rename_i hfound
        have hnum : fs.Numeric u := by
          cases hpend with
          | nothing code hcode hempty =>
              obtain rfl : code = dbmsSuccess := hfound
              exact absurd hcode (by decide)
          | found p hp d hd id hid r' hr' => exact ⟨p, hp, d, hd, id, hid⟩
        have hlost : fs.Lost u' := hknown.resolve_left fun hk => hno ⟨⟨u', ud, hk⟩, hnum⟩
        simp only
        rw [obeys_bind]
        refine (quiet_cltSendMessage_lost _ hlost).mono fun _ s hsent => ?_
        rw [hsent, if_neg (show genErrAny ≠ 0 by decide)]
        exact quiet_modify_lost hlost fun _ _ => trivial
      · trivial

end Quiet

/-! ## The drain that transmits -/

section Loud

variable {fs : FS} {input : List ReadEv}

/-- A READ of a file without faults. -/
theorem may_read {e e' : Entry} (he : e.Typed) (hc : fs.content (entryPath e) = e'.image)
    (hfits : e'.Fits) : DbStep noFaults fs (.ioOpUsrEnt e .read) (dbmsSuccess, e') fs := by
  obtain ⟨t, r, fs', hexec, ht⟩ := exec_noFault (dbIoOpUsrEnt fs.depth e .read) fs
  obtain ⟨rfl, hread⟩ := exec_ioOp_read he hexec
  have hok := hread.ofNoFault ht (by rw [hc]; exact image_ne_nil e')
  have hr : r = (dbmsSuccess, e') := by
    rcases hread.of_image hc hfits with hneg | ⟨-, hr⟩
    · rw [hok] at hneg
      exact absurd hneg (by decide)
    · exact Prod.ext hok hr
  exact ⟨t, hr ▸ hexec, ht⟩

/-- A `MODIFY` of a userdata entry without faults. -/
theorem dbStep_modify {fs' : FS} {u : Bytes} {ud : Userdata} {r : ℤ × Entry}
    (h : DbStep noFaults fs (.ioOpUsrEnt ⟨u, .user ud⟩ .modify) r fs') :
    (r.1 < 0 ∧ fs' = fs ∧ ∀ p c, ¬ fs.FileAt (userdataPath u) p c) ∨
      (r.1 = dbmsSuccess ∧ ∃ p c, fs.FileAt (userdataPath u) p c ∧
        fs' = fs.put p (.file (Entry.image ⟨u, .user ud⟩))) := by
  obtain ⟨t, hexec, ht⟩ := h
  cases exec_ioOp_write (typed_user u ud) (Or.inr rfl) hexec with
  | refused code hcode hfree =>
      exact Or.inl ⟨hcode, rfl, fun p c hp => hfree ht p hp.1 ⟨c, hp.2⟩⟩
  | written p hloc hfree =>
      obtain ⟨c, hc⟩ : ∃ c, fs.get p = some (.file c) := hfree
      exact Or.inr ⟨rfl, p, c, ⟨hloc, hc⟩, rfl⟩
  | torn p k hloc hfree hfault => exact absurd ht hfault.not_noFault

/-- A `CREATE` or `MODIFY` where writing is allowed, without faults. -/
theorem may_write {e : Entry} (he : e.Typed) {mode : Mode}
    (hmode : mode = .create ∨ mode = .modify)
    {p : Location} (hloc : fs.locate (entryPath e) = .ok p) (hfree : fs.Writable mode p) :
    DbStep noFaults fs (.ioOpUsrEnt e mode) (dbmsSuccess, e) (fs.put p (.file e.image)) := by
  obtain ⟨t, r, fs', hexec, ht⟩ := exec_noFault (dbIoOpUsrEnt fs.depth e mode) fs
  have hr : r = (dbmsSuccess, e) ∧ fs' = fs.put p (.file e.image) := by
    cases exec_ioOp_write he hmode hexec with
    | refused code hcode hno => exact absurd hfree (hno ht p hloc)
    | written q hq hwritable =>
        obtain rfl : q = p := Except.ok.inj (hq.symm.trans hloc)
        exact ⟨rfl, rfl⟩
    | torn q k hq hwritable hfault => exact absurd ht hfault.not_noFault
  obtain ⟨rfl, rfl⟩ := hr
  exact ⟨t, hexec, ht⟩

/-- Listing a directory with one of its entries in front. -/
def inFront (d : Dirent) (l : List Dirent) : List Dirent := if d ∈ l then d :: l.erase d else l

theorem inFront_perm (d : Dirent) (l : List Dirent) : (inFront d l).Perm l := by
  unfold inFront
  split
  · rename_i hmem
    exact (List.perm_cons_erase hmem).symm
  · exact List.Perm.refl l

/-- The choice that lists an entry in front. -/
def frontChoice (d : Dirent) : SysChoice := ⟨false, 4096, inFront d, inFront_perm d⟩

/-- A numeric child is found when the directory lists it first. -/
theorem may_getPendMsg (hs : Schema fs) {u : Bytes} (hnum : fs.Numeric u) (m : Message) :
    ∃ e, DbStep noFaults fs (.getPendMsg ⟨u, .msg m⟩) (dbmsSuccess, e) fs := by
  obtain ⟨p, hp, d, hd, id, hid⟩ := hnum
  obtain ⟨n, hn, -⟩ := FS.mem_children.mp hd
  have hplain := (hs.tree.plain p d.name n hn).1
  let l : List Dirent := inFront d (⟨dot, true⟩ :: ⟨dotdot, true⟩ :: fs.children p)
  have hlisted : d ∈ (⟨dot, true⟩ :: ⟨dotdot, true⟩ :: fs.children p : List Dirent) :=
    List.mem_cons_of_mem _ (List.mem_cons_of_mem _ hd)
  have hfirst : firstEntry l = some d := by
    unfold l inFront
    rw [if_pos hlisted, firstEntry, List.find?_cons_of_pos]
    simp [hplain.notDot, hplain.notDotdot]
  have hopen : SysStep fs (.opendir (pendTablePath u)) (.ok l) fs := by
    have hlist : (fs.opendir (pendTablePath u)).map (inFront d) = .ok l := by
      rw [hp.opendir]
      rfl
    refine ⟨frontChoice d, trivial, ?_⟩
    rw [sysStep_of_not_fail rfl]
    exact congrArg (fun x => (x, fs)) hlist
  -- the READ of the message may do what it likes
  obtain ⟨t, r, fs', hexec, ht⟩ := exec_noFault
    (dbIoOpUsrEnt fs.depth ⟨u, .msg { m with id := id.toNat.toUInt32 }⟩ .read) fs
  obtain rfl := exec_ioOp_read_frame hexec
  have hclose : SysStep fs' .closedir () fs' := ⟨default, trivial, rfl⟩
  have hdir : Exec SysStep (openDirectory (pendTablePath u) .read) fs'
      [⟨SysOp.opendir (pendTablePath u), .ok l⟩] (dbmsSuccess, l) fs' := by
    rw [openDirectory, if_neg (by decide)]
    exact Exec.call hopen (Exec.ret _ _)
  refine ⟨r.2, [⟨SysOp.opendir (pendTablePath u), .ok l⟩] ++
    (t ++ [⟨SysOp.closedir, ()⟩]), ?_, ?_⟩
  · change Exec SysStep (dbGetPendMsg fs'.depth ⟨u, .msg m⟩) fs' _ _ fs'
    rw [dbGetPendMsg, if_neg (by simp [EntryData.type])]
    refine exec_bind_iff.mpr ⟨_, _, fs', _, hdir, ?_, rfl⟩
    rw [if_neg (by simp [dbmsSuccess])]
    simp only [hfirst, hid, mapMsg_mk]
    exact exec_bind_iff.mpr ⟨t, r, fs', _, hexec, Exec.call hclose (Exec.ret _ _), rfl⟩
  · intro e he
    rw [List.singleton_append, List.mem_cons] at he
    rcases he with rfl | he
    · exact fun hfault => absurd (Option.some.inj hfault) (by simp)
    rcases List.mem_append.mp he with he | he
    · exact ht e he
    · rw [List.mem_singleton.mp he]
      simp [Faulted, SysOp.failed]

/-- Choose how a library call goes. -/
theorem may_db_bind {T : DbCall → List sysE.Event → Prop} {α : Type}
    {Q : List srvE.Event → α → SrvWorld → Prop} {call : DbCall}
    {f : call.Ans → Srv α} {fs' : FS}
    {x : call.Ans} (hstep : DbStep T fs call x fs')
    (h : (f x).May (SrvStep T) (fun t => Q (⟨SrvOp.db call, x⟩ :: t)) ⟨fs', input⟩) :
    (@Prog.perform srvE (.db call) >>= f).May (SrvStep T) Q ⟨fs, input⟩ :=
  may_perform_bind x (⟨hstep, rfl⟩ : SrvStep T ⟨fs, input⟩ (.db call) x ⟨fs', input⟩) h

/-- A message for a known name can be transmitted in part. -/
theorem may_cltSendMessage (message : Message) {u : Bytes} {ud ud' : Userdata} {u' : Bytes}
    (hu' : FitsBuf maxStrSize u')
    (hc : fs.content (userdataPath u) = Entry.image ⟨u', .user ud'⟩) :
    (cltSendMessage ⟨opSendMessage, message⟩ ⟨u, .user ud⟩).May (SrvStep noFaults)
      (fun t r w => Transmits t ∧ r.1 = genErrAny ∧ w = ⟨fs, input⟩) ⟨fs, input⟩ := by
  have hread := may_read (e := ⟨u, .user ud⟩) (typed_user u ud) hc (fits_user hu' ud')
  rw [cltSendMessage]
  refine may_bind ?_
  rw [auxConnectCltListenThread]
  refine may_db_bind hread ?_
  rw [if_neg (by simp [dbmsSuccess])]
  refine may_perform_bind true rfl ?_
  refine may_perform_bind true rfl ?_
  refine may_ret ?_
  rw [if_pos rfl, ifConnected, if_neg (show ¬ (0 : ℤ) < 0 by decide), cltSendMessageStrings]
  -- the first string gets through, the second does not
  refine may_bind (may_bind ?_)
  rw [sendString]
  refine may_perform_bind true rfl (may_ret ?_)
  rw [if_neg (by decide)]
  refine may_bind ?_
  rw [sendString]
  refine may_perform_bind false rfl (may_perform_bind () rfl (may_ret ?_))
  rw [if_pos (by decide)]
  refine may_ret (may_perform_bind () rfl (may_ret ⟨⟨opSendMessage ++ [0], ?_⟩, rfl, rfl⟩))
  simp [sentEvent]

/-- **The drain may transmit** when `CONNECT` finds a message to send. -/
theorem may_transmit_drain (hs : Schema fs) {u : Bytes} (hdrains : fs.Drains u) (m : Message) :
    (auxConnectSendPendMsgs 1 ⟨u, .msg m⟩).May (SrvStep noFaults)
      (fun t r w => Transmits t ∧ r ≠ none ∧ w.input = input) ⟨fs, input⟩ := by
  obtain ⟨⟨u', ud, hknown⟩, hnum⟩ := hdrains
  obtain ⟨g, hg⟩ := may_getPendMsg hs hnum m
  rw [auxConnectSendPendMsgs]
  refine may_perform_bind (default : Junk) rfl ?_
  refine may_db_bind (may_read (typed_user _ _) hknown.content (fits_user hknown.fits ud)) ?_
  rw [if_neg (by simp [dbmsSuccess]), drainLoop]
  refine may_db_bind hg ?_
  rw [if_pos rfl]
  refine may_bind ((may_cltSendMessage _ hknown.fits hknown.again).mono ?_)
  rintro t r w ⟨hsent, hr, rfl⟩
  rw [if_neg (by rw [hr]; decide)]
  obtain ⟨x, fs', hstep⟩ := dbStep_exists fs
    (.ioOpUsrEnt (r.2.mapUser fun u => { u with status := statusDcn }) .modify)
  refine may_db_bind hstep (may_ret ⟨?_, by simp, rfl⟩)
  obtain ⟨bytes, hmem⟩ := hsent
  exact ⟨bytes, List.mem_cons_of_mem _ (List.mem_cons_of_mem _ (List.mem_cons_of_mem _
    (List.mem_append_left _ hmem)))⟩

end Loud
