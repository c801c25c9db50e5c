/-
# Tables are whole or absent

Any system call may fail at any moment, also in the middle of a transfer.  `REGISTER` makes a table
in three steps and `UNREGISTER` takes it apart; no other request makes or removes any of its three
parts, whatever names the records that it reads hold.

* `whole_call`: what a library call keeps;
* `run_whole`: while the calls are careful, the table is whole or absent after every request;
* `not_run_whole`: a `REGISTER` that is broken off.
-/
import MessageServer.TableTags

/-! ## Calls on entries -/

/-- Names and ids do not matter. -/
def anyNames : Confinement where
  Same := fun _ => True
  Good := fun _ => True
  zero := trivial
  next := fun _ => trivial

section Entries

variable {fs fs' : FS} {u : Bytes} {e : Entry} {depth : ℕ} {t : List sysE.Event}
  {r : ℤ × Entry}

/-- A record that is rewritten is there still. -/
theorem whole_modify (h : Tagged fs) (he : anyNames.User e)
    (hexec : Exec SysStep (dbIoOpUsrEnt depth e .modify) fs t r fs') : KeepsWhole u fs fs' := by
  obtain ⟨w, ud, rfl, -, -⟩ := he
  have hput : ∀ p c, fs.locate (userdataPath w) = .ok p → fs.Writable .modify p →
      TagAt entTypeUd c →
      KeepsWhole u fs (fs.put p (.file c)) := by
    intro p c hp hfree hc
    obtain ⟨old, hold⟩ : ∃ c, fs.get p = some (.file c) := hfree
    obtain ⟨L, -, rfl⟩ := locate_userdataPath.mp hp
    exact ⟨rfl, h.put (h.tree.put_file hold) (Or.inl ⟨L, rfl, hc⟩),
      fun hw => hw.put_file (by rw [hold]; simp) c⟩
  have htag := tagAt_image ⟨w, .user ud⟩
  cases exec_ioOp_write (typed_user _ _) (Or.inr rfl) hexec with
  | refused code hcode hfree => exact KeepsWhole.refl h
  | written p hloc hfree => exact hput p _ hloc hfree htag
  | torn p k hloc hfree hfault => exact hput p _ hloc hfree (htag.take k)

/-- A table stays whole when a message is stored. -/
theorem whole_create (h : Tagged fs) (he : anyNames.Msg e)
    (hexec : Exec SysStep (dbIoOpUsrEnt depth e .create) fs t r fs') : KeepsWhole u fs fs' := by
  obtain ⟨w, m, rfl, -⟩ := he
  have hput : ∀ p c, fs.locate (pendMsgPath w m.id) = .ok p → fs.get p = none →
      TagAt entTypePMsg c →
      KeepsWhole u fs (fs.put p (.file c)) := by
    intro p c hp hnew hc
    obtain ⟨L, hL, hdir, hlen, rfl⟩ := locate_pendMsgPath.mp hp
    refine ⟨rfl, h.put ?_ (Or.inr ⟨L, _, rfl, hc⟩),
      fun hw => hw.put_file (by rw [hnew]; simp) c⟩
    rw [msgFile_eq] at hnew ⊢
    exact h.tree.put_new _ hdir hnew (plain_decimal _) hlen
  have htag := tagAt_image ⟨w, .msg m⟩
  cases exec_ioOp_write (typed_msg _ _) (Or.inl rfl) hexec with
  | refused code hcode hfree => exact KeepsWhole.refl h
  | written p hloc hfree => exact hput p _ hloc hfree htag
  | torn p k hloc hfree hfault => exact hput p _ hloc hfree (htag.take k)

/-- `DELETE` takes a message away, whatever its user is called. -/
theorem whole_delete (h : Tagged fs) (he : anyNames.Msg e)
    (hexec : Exec SysStep (dbIoOpUsrEnt depth e .delete) fs t r fs') : KeepsWhole u fs fs' := by
  obtain ⟨w, m, rfl, -⟩ := he
  obtain ⟨htree, herased, -⟩ := exec_ioOp_delete h.tree (typed_msg _ _) hexec
  change ErasedAt _ (lexical fs.cwd (pendMsgPath w m.id)) t fs fs' at herased
  rw [lexical_pendMsgPath] at herased
  -- nothing is below the place of a message, and no part of the table has such a place
  have hfile : ∀ names n, names ≠ [] →
      fs.get (msgFile (fs.table w) m.id.toNat ++ names) ≠ some n := by
    intro names n hne hn
    obtain ⟨c, names, rfl⟩ := List.exists_cons_of_ne_nil hne
    obtain ⟨c', hc', -⟩ := h.message _ _ _ (h.tree.dir_of_below _ c names hn)
    cases hc'
  have hstay : ∀ q, (∀ L n, q ≠ msgFile L n) → fs'.get q ≠ none ∨ fs.get q = none := by
    intro q hq
    rcases herased.frame q with heq | ⟨names, rfl, -, -⟩
    · cases hget : fs.get q with
      | none => exact Or.inr rfl
      | some n =>
          left
          rw [heq, hget]
          simp
    · right
      by_contra hne
      obtain ⟨n, hn⟩ := Option.ne_none_iff_exists'.mp hne
      by_cases hnil : names = []
      · subst hnil
        exact hq _ _ (List.append_nil _)
      · exact hfile names n hnil hn
  exact ⟨herased.cwd, h.erased htree herased, fun hw => hw.erased herased
    (hstay _ fun L n heq => msgFile_ne_userdata L _ n heq.symm)
      (hstay _ (ne_msgFile (by decide)))⟩

/-- What is answered for an entry is an entry of the same kind. -/
theorem tagged_read {w : Bytes} {j : Userdata} (h : Tagged fs)
    (hexec : Exec SysStep (dbIoOpUsrEnt depth ⟨w, .user j⟩ .read) fs t r fs') :
    anyNames.User r.2 := by
  obtain ⟨-, hread⟩ := exec_ioOp_read (typed_user _ _) hexec
  obtain ⟨k, hk⟩ := hread.overlay
  obtain ⟨w', ud, heq⟩ := overlay_user (w := w) (j := j) ((h.content_userdata w).take k)
  exact ⟨w', ud, hk.trans heq, trivial, trivial⟩

/-- The search for a message changes nothing, and finds a message. -/
theorem tagged_getPendMsg (h : Tagged fs) (he : anyNames.Msg e)
    (hexec : Exec SysStep (dbGetPendMsg depth e) fs t r fs') : fs' = fs ∧ anyNames.Msg r.2 := by
  obtain ⟨w, m, rfl, -⟩ := he
  obtain ⟨rfl, hpend⟩ := exec_getPendMsg h.tree hexec
  refine ⟨rfl, ?_⟩
  cases hpend with
  | nothing code hcode hempty => exact ⟨w, m, rfl, trivial⟩
  | found p hp d hd id hid r hread =>
      obtain ⟨k, hk⟩ := hread.overlay
      obtain ⟨w', m', heq⟩ := overlay_msg (w := w) (m := { m with id := id.toNat.toUInt32 })
        ((h.content_message w id.toNat.toUInt32).take k)
      exact ⟨w', m', hk.trans heq, trivial⟩

end Entries

/-! ## Tables that are made and removed -/

section Tables

variable {fs fs' : FS} {u v : Bytes} {depth : ℕ} {t : List sysE.Event} {r : ℤ}

/-- The table of a user apart. -/
theorem FS.Whole.apart (h : fs.Whole u) (hapart : Apart fs.cwd v u) (hcwd : fs'.cwd = fs.cwd)
    (hframe : ∀ q, ¬ fs.table v <+: q → fs'.get q = fs.get q) : fs'.Whole u := by
  have htrail : ∀ q ∈ trail fs.cwd (pendTablePath u), ¬ fs.table v <+: q := hapart
  have hpend : fs.table u ++ [pendMsgsTable] ∈ trail fs.cwd (pendTablePath u) := by
    have hlex := lexical_mem_trail fs.cwd (pendTablePath u)
    rwa [pendTablePath, lexical_append _ _ plain_pendMsgsTable] at hlex
  have htable : fs.table u ∈ trail fs.cwd (pendTablePath u) :=
    trail_append (lexical_mem_trail fs.cwd (userTablePath u))
  apply h.of_same hcwd
  · exact hframe _ (htrail _ htable)
  · exact hframe _ (not_prefix_append (htrail _ htable) (by decide))
  · exact hframe _ (htrail _ hpend)

/-- The three puts of a new table, each where nothing is. -/
theorem Tagged.table (h : Tagged fs) {L : Location} (hL : fs.locate (userTablePath v) = .ok L)
    (hnew : fs.get L = none) : Tagged (fs.put L .dir) := by
  obtain ⟨p, b, rfl, hb, hp, hlen⟩ := locate_userTablePath hL
  exact h.put (h.tree.put_new _ hp hnew (plain_append_tableSuffix hb) hlen)
    (ne_msgFile (getLast?_append_tableSuffix b))

/-- A new table with its record keeps the tags. -/
theorem Tagged.record (h : Tagged fs) {L : Location} (hL : fs.locate (userTablePath v) = .ok L)
    (hnew : fs.get L = none) {c : Bytes} (hc : TagAt entTypeUd c) :
    Tagged ((fs.put L .dir).put (L ++ [userdataEntry]) (.file c)) := by
  have htable := h.table hL hnew
  refine htable.put (htable.tree.put_new _ (FS.get_put_self _ _ _) ?_ plain_userdataEntry
    length_userdataEntry) (Or.inl ⟨L, rfl, hc⟩)
  rw [FS.get_put_of_ne _ _ (ne_append_singleton L _).symm]
  exact h.tree.none_below hnew _

/-- A new table with its directory of messages keeps the tags. -/
theorem Tagged.withTable (h : Tagged fs) {L : Location} (hL : fs.locate (userTablePath v) = .ok L)
    (hnew : fs.get L = none) {c : Bytes} (hc : TagAt entTypeUd c) : Tagged (fs.withTable L c) := by
  have hrecord := h.record hL hnew hc
  refine hrecord.put (hrecord.tree.put_new _ ?_ ?_ plain_pendMsgsTable length_pendMsgsTable)
    (ne_msgFile (by decide))
  · rw [FS.get_put_of_ne _ _ (ne_append_singleton L _), FS.get_put_self]
  · rw [FS.get_put_of_ne _ _ (userdataEntry_ne_pendMsgsTable L),
      FS.get_put_of_ne _ _ (ne_append_singleton L _).symm]
    exact h.tree.none_below hnew _

/-! ### The creation of a table -/

/-- A table that is made completely. -/
theorem whole_withTable (fs : FS) (u c : Bytes) : (fs.withTable (fs.table u) c).Whole u := by
  intro _
  refine ⟨⟨c, ?_⟩, FS.get_put_self _ _ _⟩
  show (fs.withTable (fs.table u) c).get (fs.table u ++ [userdataEntry]) = _
  rw [FS.withTable, FS.get_put_of_ne _ _ (userdataEntry_ne_pendMsgsTable _).symm]
  exact FS.get_put_self _ _ _

/-- `REGISTER` makes the table of `u`, or one apart. -/
theorem whole_creatUsrTbl (h : Tagged fs) {ud : Userdata}
    (hexec : Exec SysStep (dbCreatUsrTbl depth ⟨v, .user ud⟩) fs t r fs')
    (hv : v = u ∨ Apart fs.cwd v u) (hcare : v = u → ¬ BrokenOff u t) :
    KeepsWhole u fs fs' := by
  have htag := tagAt_image ⟨v, .user ud⟩
  -- what is put at and below the place of the table
  have hkeeps : ∀ {L : Location} {fs' : FS}, fs.locate (userTablePath v) = .ok L →
      BrokenOff v t →
      fs'.cwd = fs.cwd → Tagged fs' → (∀ q, ¬ L <+: q → fs'.get q = fs.get q) →
        KeepsWhole u fs fs' := by
    intro L fs' hL hbroken hcwd htagged hframe
    rcases hv with rfl | hapart
    · exact absurd hbroken (hcare rfl)
    · obtain rfl := locate_eq_lexical hL
      exact ⟨hcwd, htagged, fun hw => hw.apart hapart hcwd hframe⟩
  have houtside : ∀ {L q p : Location} {n : Node} (fs₁ : FS), L <+: p → ¬ L <+: q →
      (fs₁.put p n).get q = fs₁.get q := by
    intro L q p n fs₁ hp hq
    apply FS.get_put_of_ne
    rintro rfl
    exact hq hp
  cases exec_creatUsrTbl h.tree hexec with
  | found L hL => exact KeepsWhole.refl h
  | refused hno => exact KeepsWhole.refl h
  | table L hL hnew hbroken =>
      exact hkeeps hL hbroken rfl (h.table hL hnew) fun q hq => houtside _ List.prefix_rfl hq
  | record L hL hnew hbroken c hc =>
      refine hkeeps hL hbroken rfl (h.record hL hnew ?_) fun q hq => ?_
      · rcases hc with rfl | ⟨k, rfl, -⟩
        · exact htag
        · exact htag.take k
      · rw [houtside _ (List.prefix_append _ _) hq, houtside _ List.prefix_rfl hq]
  | complete L hL hnew r hr =>
      have htagged := h.withTable hL hnew htag
      refine ⟨rfl, htagged, fun hw => ?_⟩
      obtain rfl := locate_eq_lexical hL
      rcases hv with rfl | hapart
      · exact whole_withTable fs v _
      · refine hw.apart hapart rfl fun q hq => ?_
        have hq' : ¬ lexical fs.cwd (userTablePath v) <+: q := hq
        rw [FS.withTable, houtside _ (List.prefix_append _ _) hq',
          houtside _ (List.prefix_append _ _) hq',
          houtside _ List.prefix_rfl hq']

/-! ### The removal of a table -/

/-- A call that failed has removed nothing. -/
theorem Faulted.ne_removedEvent {e : sysE.Event} (h : Faulted e) (path : Bytes) :
    e ≠ removedEvent path := by
  rintro rfl
  cases h

/-- A removal before a fault behind which nothing is removed. -/
theorem LateFault.tornDown {path : Bytes} (h : LateFault t) (hmem : removedEvent path ∈ t)
    (hpath : path = userdataPath u ∨ path = pendTablePath u) : TornDown u t := by
  obtain ⟨t₁, e, t₂, rfl, he, hlast⟩ := h
  rcases List.mem_append.mp hmem with hmem | hmem
  · obtain ⟨s₁, s₂, rfl⟩ := List.append_of_mem hmem
    exact ⟨path, s₁, s₂, e, t₂, hpath, by simp, he, hlast⟩
  · rcases List.mem_cons.mp hmem with heq | hmem
    · exact absurd heq.symm (he.ne_removedEvent path)
    · exact absurd hmem (hlast path)

/-- `UNREGISTER` removes the table of `u`, or one apart. -/
theorem whole_delUsrTbl (h : Tagged fs) (hu : slash ∉ u)
    (hexec : Exec SysStep (dbDelUsrTbl fs.depth v) fs t r fs')
    (hv : v = u ∨ Apart fs.cwd v u) (hcare : v = u → ¬ TornDown u t) :
    KeepsWhole u fs fs' := by
  rw [dbDelUsrTbl] at hexec
  obtain ⟨t₁, r₁, fs₁, t₂, h₁, h₂, rfl⟩ := exec_bind_iff.mp hexec
  obtain ⟨rfl, rfl, rfl⟩ := exec_ret_iff.mp h₂
  rw [List.append_nil] at hcare
  obtain ⟨htree, herased, hok⟩ := exec_removeRecursive _ _ _ _ _ _ h.tree h₁
  refine ⟨herased.cwd, h.erased htree herased, fun hw => ?_⟩
  rcases hv with rfl | hapart
  · by_cases hdir : fs.get (fs.table v) = some .dir
    · have hsteady := h.tree.steady_table hu hdir
      have hplace : fs'.table v = fs.table v := by rw [FS.table, FS.table, herased.cwd]
      rcases removeRecursive_progress _ _ _ _ _ _ _ h.tree hsteady
        (removable_userTablePath hsteady.locate) hdir (h.tree.height _) h₁ with hpos | hlate
      · -- the table is gone
        intro hdir'
        have hgone : fs'.get (fs.table v) = none := (hok hpos).2.1
        rw [hplace, hgone] at hdir'
        cases hdir'
      · -- neither part of it was removed before the fault
        have hstay : ∀ c, (descend (userTablePath v) [c] = userdataPath v ∨
            descend (userTablePath v) [c] = pendTablePath v) →
            fs'.get (fs.table v ++ [c]) ≠ none ∨ fs.get (fs.table v ++ [c]) = none := by
          intro c hc
          rcases herased.frame (fs.table v ++ [c]) with heq | ⟨names, hnames, -, hmem⟩
          · rw [heq, or_comm]
            exact em _
          · obtain rfl := List.append_cancel_left hnames
            exact absurd (hlate.tornDown hmem hc) (hcare rfl)
        exact hw.erased herased (hstay _ (Or.inl rfl)) (hstay _ (Or.inr rfl))
    · intro hdir'
      rw [FS.table, herased.cwd] at hdir'
      rcases herased.frame (fs.table v) with heq | ⟨_, _, hnone, _⟩
      · exact absurd (heq.symm.trans hdir') hdir
      · exact absurd (hnone.symm.trans hdir') (by simp)
  · refine hw.apart hapart herased.cwd fun q hq => ?_
    rcases herased.frame q with heq | ⟨names, rfl, -, -⟩
    · exact heq
    · exact absurd (List.prefix_append _ _) hq

end Tables

/-! ## Requests -/

/-- The user whose table a request may make or remove. -/
def Req.builds : Req → Option Bytes
  | .register v => some v
  | .unregister v => some v
  | _ => none

/-- The steps that make or remove tables of the users in `Ok` only. -/
def BuildsFor (Ok : Bytes → Prop) : SrvOp → Prop
  | .db (.creatUsrTbl e) => Ok e.username
  | .db (.delUsrTbl v) => Ok v
  | _ => True

section Bodies

/-- A step that leaves tables alone builds for nobody. -/
theorem KeepsTables.buildsFor {Ok : Bytes → Prop} (o : SrvOp) (h : KeepsTables o) :
    BuildsFor Ok o := by
  cases o with
  | db call =>
      cases call with
      | creatUsrTbl e => exact h.elim
      | delUsrTbl v => exact h.elim
      | _ => trivial
  | _ => trivial

/-- A reply leaves tables alone. -/
theorem keepsTables_reply (code : UInt8) :
    ((sendServerReply code >>= fun _ => return ()) : Srv Unit).Performs KeepsTables :=
  ((onSock_sendServerReply code).mono OnSock.keepsTables).bind fun _ => trivial

/-- The drain makes and removes no table, by induction on its rounds. -/
theorem keepsTables_drainLoop (fuel : ℕ) (pendMsgEntry recipientEntry senderEntry : Entry) :
    (drainLoop fuel pendMsgEntry recipientEntry senderEntry).Performs KeepsTables := by
  induction fuel generalizing pendMsgEntry recipientEntry senderEntry with
  | zero => trivial
  | succ fuel ih =>
      rw [drainLoop]
      refine Prog.performs_perform_bind.mpr ⟨trivial, fun (g : ℤ × Entry) => ?_⟩
      split
      · refine (keepsTables_cltSend (onSock_cltSendMessageStrings _)
          fun r => .cltSendMessage r.2 _).bind fun r => ?_
        split
        · refine Prog.performs_perform_bind.mpr ⟨trivial, fun _ => ?_⟩
          exact (keepsTables_cltSend (onSock_cltSendMessAckStrings _)
            fun r => .cltSendMessAck r.2 _).bind fun a => ih _ _ _
        · exact Prog.performs_perform_bind.mpr ⟨trivial, fun _ => trivial⟩
      · trivial

/-- `CONNECT` leaves tables alone. -/
theorem keepsTables_srvConnectBody (fuel : ℕ) (v port : Bytes) :
    (srvConnectBody fuel v port).Performs KeepsTables := by
  rw [srvConnectBody]
  refine Prog.performs_perform_bind.mpr ⟨trivial, fun junk => ?_⟩
  refine Prog.performs_perform_bind.mpr ⟨trivial, fun r => ?_⟩
  refine ((plain_srvConnectReply _ _ _ _).mono fun _ => Plain.keepsTables).bind fun code => ?_
  refine ((onSock_sendServerReply code).mono OnSock.keepsTables).bind fun _ => ?_
  rw [auxConnectSendPendMsgs]
  refine Prog.Performs.bind ?_ fun _ => trivial
  refine Prog.performs_perform_bind.mpr ⟨trivial, fun junk => ?_⟩
  refine Prog.performs_perform_bind.mpr ⟨trivial, fun r => ?_⟩
  split
  · trivial
  · exact keepsTables_drainLoop fuel _ _ _

/-- The end of a handler adds no step. -/
theorem performs_finished {P : SrvOp → Prop} {p : Srv Unit} (h : p.Performs P) :
    (finished p).Performs P :=
  h.bind fun _ => trivial

/-- **Only `REGISTER` makes tables, and only `UNREGISTER` removes them**, those of their users. -/
theorem body_buildsFor (fuel : ℕ) (req : Req) :
    (req.body fuel).Performs (BuildsFor fun v => req.builds = some v) := by
  cases req with
  | register v =>
      refine performs_finished ?_
      rw [srvRegisterBody]
      refine Prog.performs_perform_bind.mpr ⟨trivial, fun junk => ?_⟩
      refine Prog.performs_perform_bind.mpr ⟨rfl, fun result => ?_⟩
      exact (keepsTables_reply _).mono KeepsTables.buildsFor
  | unregister v =>
      refine performs_finished ?_
      rw [srvUnregisterBody]
      refine Prog.performs_perform_bind.mpr ⟨trivial, fun userExists => ?_⟩
      refine Prog.Performs.bind ?_ fun code => (keepsTables_reply code).mono KeepsTables.buildsFor
      unfold srvUnregisterReply
      split
      · exact Prog.performs_perform_bind.mpr ⟨rfl, fun result => trivial⟩
      split
      · trivial
      · trivial
  | connect v port => exact (keepsTables_srvConnectBody fuel v port).mono KeepsTables.buildsFor
  | disconnect v =>
      exact performs_finished ((keepsTables_srvDisconnectBody v).mono KeepsTables.buildsFor)
  | send s r c =>
      exact performs_finished ((keepsTables_srvSendBody s r c).mono KeepsTables.buildsFor)
  | unknown => trivial

end Bodies

/-! ### One request -/

section Steps

variable {fs fs' : FS} {u : Bytes}

/-- **A library call** that makes or removes no table but that of `u`, or one apart. -/
theorem whole_call (h : Tagged fs) (hu : slash ∉ u) {call : DbCall} {x : call.Ans}
    (hallowed : anyNames.Allowed (.db call))
    (hbuilds : BuildsFor (fun v => v = u ∨ Apart fs.cwd v u) (.db call))
    (hstep : DbStep (careful u) fs call x fs') :
    KeepsWhole u fs fs' ∧ anyNames.Possible (.db call) x := by
  obtain ⟨t, hexec, hcare⟩ := hstep
  cases call with
  | userExists v =>
      obtain ⟨rfl, -⟩ := exec_userExists hexec
      exact ⟨KeepsWhole.refl h, trivial⟩
  | getPendMsg e =>
      obtain ⟨rfl, hmsg⟩ := tagged_getPendMsg h hallowed hexec
      exact ⟨KeepsWhole.refl h, hmsg⟩
  | creatUsrTbl e =>
      obtain ⟨v, ud, rfl, -, -⟩ := hallowed
      exact ⟨whole_creatUsrTbl h hexec hbuilds hcare, trivial⟩
  | delUsrTbl v => exact ⟨whole_delUsrTbl h hu hexec hbuilds hcare, trivial⟩
  | ioOpUsrEnt e mode =>
      cases mode with
      | read =>
          obtain rfl := exec_ioOp_read_frame hexec
          refine ⟨KeepsWhole.refl h, ?_⟩
          rintro v ud rfl - -
          exact tagged_read h hexec
      | create =>
          obtain ⟨v, m, rfl, -, -⟩ := hallowed
          exact ⟨whole_create h ⟨v, m, rfl, trivial⟩ hexec, trivial⟩
      | modify => exact ⟨whole_modify h hallowed hexec, trivial⟩
      | delete => exact ⟨whole_delete h hallowed hexec, trivial⟩
      | overwrite =>
          obtain rfl := exec_ioOp_overwrite hexec
          exact ⟨KeepsWhole.refl h, trivial⟩

/-- A request is handled to its end, while any call may fail, unless the table of `u` is half made
or half removed then.  Nobody is registered or unregistered whose table meets that of `u`, but
`u`. -/
def HandledCareful (u : Bytes) (fs : FS) (step : Turned) (fs' : FS) : Prop :=
  step.1.Fits ∧ Handles (careful u) fs step.1 step.2 fs' ∧
    ∀ v, step.1.builds = some v → v = u ∨ Apart fs.cwd v u

/-- **The step lemma.** -/
theorem HandledCareful.keeps {step : Turned} (hstep : HandledCareful u fs step fs')
    (hu : slash ∉ u) (h : Tagged fs) :
    KeepsWhole u fs fs' := by
  obtain ⟨hfits, ⟨fuel, hexec⟩, hbuilds⟩ := hstep
  have hperf := hexec.performs (body_buildsFor fuel step.1)
  have hobeys := body_confined (C := anyNames) fuel hfits fun _ _ => trivial
  have hexec' : Exec (fun w o x w' => BuildsFor (fun v => step.1.builds = some v) o ∧
      SrvStep (careful u) w o x w')
      (step.1.body fuel) ⟨fs, []⟩ step.2 (some ()) ⟨fs', []⟩ :=
    hexec.mono fun _ o x _ hmem hR => ⟨hperf ⟨o, x⟩ hmem, hR⟩
  have hkeep : ∀ (w : SrvWorld) (ph : Unit) (o : SrvOp) (x : o.Ans) (w' : SrvWorld),
      KeepsWhole u fs w.fs →
      (confined anyNames).allowed ph o → BuildsFor (fun v => step.1.builds = some v) o ∧
        SrvStep (careful u) w o x w' →
      (confined anyNames).possible ph o x ∧ KeepsWhole u fs w'.fs := by
    rintro w ph o x w' hw hallowed ⟨hbuild, hR⟩
    have hfree : w'.fs = w.fs → KeepsWhole u fs w'.fs := fun heq => by rwa [heq]
    cases o with
    | db call =>
        have hbuild' : BuildsFor (fun v => v = u ∨ Apart w.fs.cwd v u) (.db call) := by
          rw [hw.cwd]
          cases call with
          | creatUsrTbl e => exact hbuilds _ hbuild
          | delUsrTbl v => exact hbuilds _ hbuild
          | _ => trivial
        obtain ⟨hkeep, hposs⟩ := whole_call hw.tagged hu hallowed hbuild' hR.1
        exact ⟨hposs, hw.trans hkeep⟩
    | recv buf => exact ⟨trivial, hfree hR.1⟩
    | _ => exact ⟨trivial, hfree (congrArg SrvWorld.fs hR)⟩
  obtain ⟨-, hend, -⟩ :=
    Exec.obeys (I := fun w _ => KeepsWhole u fs w.fs) hkeep hexec' hobeys (KeepsWhole.refl h)
  exact hend

/-- **Tables are whole or absent**, after every request of every history, whatever calls fail, as
long as none fails while the table is half made or half removed. -/
theorem run_whole {fs₀ : FS} {H : List Turned} (hu : slash ∉ u) (hfresh : fs₀.Fresh)
    (h : Run (HandledCareful u) fs₀ H fs) : fs.Whole u := by
  have hkept : fs.cwd = fs₀.cwd ∧ Tagged fs ∧ fs.Whole u := by
    refine Run.invariant (I := fun _ fs => fs.cwd = fs₀.cwd ∧ Tagged fs ∧ fs.Whole u) h ?_ ?_
    · refine ⟨rfl, hfresh.tagged, fun hdir => ?_⟩
      rw [FS.table, lexical_noSlash _ hu] at hdir
      have hnone := hfresh.empty (u ++ tableSuffix)
      rw [List.append_assoc] at hnone
      exact absurd (hnone.symm.trans hdir) (by simp)
    · rintro _ fs₁ step fs₂ ⟨hcwd, htagged, hwhole⟩ hstep
      have hkeeps := hstep.keeps hu htagged
      exact ⟨hkeeps.cwd.trans hcwd, hkeeps.tagged, hkeeps.whole hwhole⟩
  exact hkept.2.2

end Steps

/-! ## Registrations that succeed, and one that is broken off -/

/-- A table is torn down by a call that fails. -/
theorem TornDown.not_noFault {u : Bytes} {t : List sysE.Event} (h : TornDown u t) :
    ¬ NoFault t := by
  obtain ⟨_, t₁, t₂, e, t₃, -, rfl, he, -⟩ := h
  intro hno
  exact hno e (by simp) he

/-- Calls that do not fail are careful. -/
theorem careful_of_noFault (u : Bytes) (call : DbCall) {t : List sysE.Event} (h : NoFault t) :
    careful u call t := by
  cases call with
  | creatUsrTbl e => exact fun _ hbroken => hbroken.not_noFault h
  | delUsrTbl v => exact fun _ htorn => htorn.not_noFault h
  | _ => trivial

/-- A request that is handled in the environment in which everything succeeds. -/
theorem HandledCareful.of_turned {u v : Bytes} {req : Req} {fs : FS} (hfits : req.Fits)
    (hends : req.Ends calm 1 fs) (hu : slash ∉ u) (hv : slash ∉ v)
    (hbuilds : req.builds = some v) :
    HandledCareful u fs (turned req fs) (req.run calm 1 fs) := by
  refine ⟨hfits, handles_runWith (fun n call fs => ?_) hends, fun w hw => ?_⟩
  · exact careful_of_noFault u call
      (exec_sysRun (calm n).sys (calm_calm n) (call.prog fs.depth) fs).2
  · obtain rfl := Option.some.inj (hbuilds.symm.trans hw)
    by_cases heq : v = u
    · exact Or.inl heq
    · exact Or.inr (apart_of_noSlash _ hv hu heq)

/-- The table of `b` behind its `REGISTER`. -/
theorem run_whole_register : registeredAB.Whole (ascii "b") := by
  have hA : HandledCareful (ascii "b") emptyDb (turned (.register (ascii "a")) emptyDb)
      registeredA :=
    HandledCareful.of_turned (by decide) (by decide +kernel) (by decide) (by decide) rfl
  have hB : HandledCareful (ascii "b") registeredA (turned (.register (ascii "b")) registeredA)
      registeredAB :=
    HandledCareful.of_turned (by decide) (by decide +kernel) (by decide) (by decide) rfl
  exact run_whole (by decide) emptyDb_fresh ((Run.single hA).snoc hB)

/-- The third system call of every library call fails. -/
def thirdFails (_ : ℕ) : SrvChoice :=
  { (default : SrvChoice) with
      sys := fun k => if k = 2 then { (default : SysChoice) with fail := true } else default }

/-- **A `REGISTER` that is broken off** leaves a table without a record. -/
theorem not_run_whole :
    ¬ ∀ (u : Bytes) (fs₀ fs : FS) (H : List Turned), slash ∉ u → fs₀.Fresh →
      Run (fun fs step fs' => step.1.Fits ∧ Handles anyFaults fs step.1 step.2 fs') fs₀ H fs →
        fs.Whole u := by
  intro h
  have hends : (Req.register (ascii "b")).Ends thirdFails 1 emptyDb := by decide +kernel
  have hhandles := handles_runWith (T := anyFaults) (fun _ _ _ => trivial) hends
  have hwhole := h (ascii "b") emptyDb _ _ (by decide) emptyDb_fresh
    (Run.single (a := (Req.register (ascii "b"), _)) ⟨by decide, hhandles⟩)
  obtain ⟨⟨c, hc⟩, -⟩ := hwhole (by decide +kernel)
  have hnone : ((Req.register (ascii "b")).run thirdFails 1 emptyDb).get
      (((Req.register (ascii "b")).run thirdFails 1 emptyDb).table (ascii "b") ++ [userdataEntry]) =
        none := by
    decide +kernel
  exact absurd (hnone.symm.trans hc) (by simp)
