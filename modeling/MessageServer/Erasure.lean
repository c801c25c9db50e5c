/-
# What is left of a user who was unregistered

* `FS.Vacant`: the place of the user's table is free;
* `must_vacant`: then a request that names the user is answered that the user does not exist;
* `Forgotten`: the law of a history that follows an `UNREGISTER`;
* `run_forgotten`: so it is while no other user's table meets the user's;
* `not_run_forgotten`: the table of `./b` does.
-/
import MessageServer.Counter
import MessageServer.EntryStore
import MessageServer.Interleaving

/-! ## A free place -/

/-- There is no table of `u`, and one could be made. -/
structure FS.Vacant (fs : FS) (u : Bytes) : Prop where
  noSlash : slash ∉ u
  short : (u ++ tableSuffix).length ≤ nameMax
  root : fs.get fs.cwd = some .dir
  users : fs.get (fs.cwd ++ [dbDir]) = some .dir
  table : fs.get (fs.table u) = none

/-- The answer to a request that names the user as one who does not exist. -/
def Req.notExists (u : Bytes) : Req → Option UInt8
  | .unregister v => if v = u then some srvErrUnregUsrNotExists else none
  | .connect v _ => if v = u then some srvErrCnUsrNotExists else none
  | .disconnect v => if v = u then some srvErrDcnUsrNotExists else none
  | .send s r _ => if s = u ∨ r = u then some srvErrSendUsrNotExists else none
  | _ => none

/-- A service thread replies with this code and nothing else. -/
def RepliesOnly (t : List srvE.Event) (code : UInt8) : Prop :=
  ∀ bytes, Act.replied bytes ∈ acts t ↔ bytes = [code]

section Vacant

variable {fs fs' : FS} {u : Bytes}

theorem repliesOnly_single {t : List srvE.Event} {code : UInt8} (l l' : List Act)
    (hl : ∀ bytes, Act.replied bytes ∉ l) (hl' : ∀ bytes, Act.replied bytes ∉ l')
    (h : acts t = l ++ .replied [code] :: l') : RepliesOnly t code := by
  intro bytes
  rw [h, List.mem_append, List.mem_cons, or_iff_right (hl bytes), or_iff_left (hl' bytes),
    Act.replied.injEq]

/-! ### Calls that find nothing -/

/-- A vacant place is located. -/
theorem FS.Vacant.locate (h : fs.Vacant u) : fs.locate (userTablePath u) = .ok (fs.table u) :=
  locate_table h.noSlash h.root h.users h.short

/-- **The user does not exist**: `db_user_exists` answers so. -/
theorem FS.Vacant.userExists (h : fs.Vacant u) {x : ℤ}
    (hstep : DbStep noFaults fs (.userExists u) x fs') :
    x = 0 := by
  obtain ⟨t, hexec, ht⟩ := hstep
  have hopen : fs.opendir (userTablePath u) = .error .enoent := by
    rw [FS.opendir, h.locate]
    simp only [h.table]
  change Exec SysStep (dbUserExists u) fs t x fs' at hexec
  rw [dbUserExists, openDirectory, if_neg (by decide)] at hexec
  obtain ⟨t₁, r, fs₁, t₂, h₁, h₂, rfl⟩ := exec_bind_iff.mp hexec
  obtain ⟨y, fs₂, t₃, hcall, hrest, rfl⟩ := exec_perform_bind_iff.mp h₁
  obtain ⟨rfl, rfl | ⟨err, herr, rfl⟩ | ⟨l, l', hl, -, -⟩⟩ := hcall.opendir
  · exact absurd rfl (ht _ List.mem_cons_self)
  · rw [hopen] at herr
    cases herr
    simp only [if_true, reduceCtorEq, or_self, if_false] at hrest
    obtain ⟨-, rfl, -⟩ := exec_ret_iff.mp hrest
    rw [if_pos rfl] at h₂
    exact (exec_ret_iff.mp h₂).2.1
  · rw [hopen] at hl
    cases hl

/-- **The user has no record**: a `READ` answers so. -/
theorem FS.Vacant.read (h : fs.Vacant u) {j : Userdata} {x : ℤ × Entry}
    (hstep : DbStep noFaults fs (.ioOpUsrEnt ⟨u, .user j⟩ .read) x fs') :
    x = (dbmsErrNotExists, ⟨u, .user j⟩) := by
  obtain ⟨t, hexec, ht⟩ := hstep
  have hopen : fs.openFile (userdataPath u) .rdonly = .error .enoent := by
    have hloc : fs.locate (userdataPath u) = .error .enoent := by
      rw [userdataPath, FS.locate_append _ (userTablePath_ne_nil u) plain_userdataEntry.noSlash,
        h.locate]
      simp only [bind, Except.bind, FS.enter, h.table]
    rw [FS.openFile, hloc]
  exact (exec_ioOp_open_error (typed_user u j) (by decide) rfl hopen hexec ht).2

variable {input : List ReadEv}

/-! ### Requests that find nobody -/

theorem must_finished {p : Srv Unit} {P : List srvE.Event → Prop}
    (h : p.Must (SrvStep noFaults) (fun t _ _ => P t) ⟨fs, input⟩) :
    (finished p).Must (SrvStep noFaults) (fun t _ _ => P t) ⟨fs, input⟩ := by
  refine must_bind (h.mono fun t _ w' ht => must_ret ?_)
  rw [List.append_nil]
  exact ht

theorem FS.Vacant.unregister (h : fs.Vacant u) :
    (srvUnregisterBody u).Must (SrvStep noFaults)
      (fun t _ _ => RepliesOnly t srvErrUnregUsrNotExists) ⟨fs, input⟩ := by
  rw [srvUnregisterBody]
  refine must_userExists fun (x : ℤ) hx => ?_
  obtain rfl := h.userExists hx.1
  apply must_bind
  rw [srvUnregisterReply, if_neg (by decide), if_pos rfl]
  refine must_ret (must_reply fun t ht => repliesOnly_single [] [] (by simp) (by simp) ?_)
  rw [acts_userExists, List.nil_append, ht]
  rfl

theorem FS.Vacant.disconnect (h : fs.Vacant u) :
    (srvDisconnectBody u).Must (SrvStep noFaults)
      (fun t _ _ => RepliesOnly t srvErrDcnUsrNotExists) ⟨fs, input⟩ := by
  rw [srvDisconnectBody]
  refine must_uninit fun junk => must_read fun x hx => ?_
  obtain rfl := h.read hx.1
  apply must_bind
  rw [srvDisconnectReply, if_pos rfl]
  refine must_ret (must_reply fun t ht => repliesOnly_single [.locals junk] []
    (by simp) (by simp) ?_)
  rw [acts_uninit, acts_read, List.nil_append, ht]
  rfl

theorem FS.Vacant.connect (h : fs.Vacant u) (fuel : ℕ) (port : Bytes) :
    (srvConnectBody fuel u port).Must (SrvStep noFaults)
      (fun t _ _ => RepliesOnly t srvErrCnUsrNotExists) ⟨fs, input⟩ := by
  rw [srvConnectBody]
  refine must_uninit fun junk => must_read fun x hx => ?_
  obtain rfl := h.read hx.1
  apply must_bind
  rw [srvConnectReply, if_pos rfl]
  refine must_ret (must_sendServerReply fun ok t r ht _ => ?_)
  apply must_bind
  rw [auxConnectSendPendMsgs]
  -- the drain is tried all the same, and finds no record
  refine must_uninit fun junk' => must_read fun y hy => ?_
  obtain rfl := h.read hy.1
  rw [if_pos (show dbmsErrNotExists < 0 by decide)]
  refine must_ret (must_ret (repliesOnly_single [.locals junk] [.locals junk']
    (by simp) (by simp) ?_))
  rw [acts_uninit, acts_read, List.nil_append, acts_write, acts_append, acts_closes ht]
  rfl

theorem FS.Vacant.send (h : fs.Vacant u) {s r : Bytes} (c : Bytes) (hnames : s = u ∨ r = u) :
    (srvSendBody s r c).Must (SrvStep noFaults)
      (fun t _ _ => RepliesOnly t srvErrSendUsrNotExists) ⟨fs, input⟩ := by
  rw [srvSendBody]
  refine must_uninit fun junk => ?_
  apply must_bind
  rw [auxSendInit]
  refine must_userExists fun (x : ℤ) hx => must_userExists fun (y : ℤ) hy => ?_
  have hnone : x = 0 ∨ y = 0 := by
    rcases hnames with rfl | rfl
    · exact Or.inl (h.userExists hx.1)
    · exact Or.inr (h.userExists hy.1)
  rw [if_pos hnone]
  apply must_ret
  rw [if_pos (show srvErrSendUsrNotExists ≠ srvSuccess by decide)]
  refine must_reply fun t ht => repliesOnly_single [.locals junk] [] (by simp) (by simp) ?_
  rw [acts_uninit, List.cons_append, List.cons_append, acts_userExists, acts_userExists,
    List.nil_append, ht]
  rfl

/-- **A request that names the user** is answered that the user does not exist. -/
theorem must_vacant (h : fs.Vacant u) (fuel : ℕ) {req : Req} {code : UInt8}
    (hcode : req.notExists u = some code) :
    (req.body fuel).Must (SrvStep noFaults) (fun t _ _ => RepliesOnly t code) ⟨fs, input⟩ := by
  cases req with
  | register v => cases hcode
  | unknown => cases hcode
  | unregister v =>
      obtain ⟨rfl, heq⟩ := Option.ite_none_right_eq_some.mp hcode
      cases heq
      exact must_finished h.unregister
  | connect v port =>
      obtain ⟨rfl, heq⟩ := Option.ite_none_right_eq_some.mp hcode
      cases heq
      exact h.connect fuel port
  | disconnect v =>
      obtain ⟨rfl, heq⟩ := Option.ite_none_right_eq_some.mp hcode
      cases heq
      exact must_finished h.disconnect
  | send s r c =>
      obtain ⟨hnames, heq⟩ := Option.ite_none_right_eq_some.mp hcode
      cases heq
      exact must_finished (h.send c hnames)

end Vacant

/-! ## The directory of all tables -/

/-- Requests of users apart, and of `u`, leave the directory of all tables. -/
theorem HandledApart.users {u : Bytes} {fs fs' : FS} {step : Turned}
    (h : HandledApart u fs step fs')
    (hs : Schema fs) (hu : slash ∉ u) (hdb : fs.get (fs.cwd ++ [dbDir]) = some .dir) :
    fs'.get (fs'.cwd ++ [dbDir]) = some .dir := by
  obtain ⟨⟨hfits, hhandles⟩, hothers⟩ := h
  cases hv : step.1.user with
  | none =>
      obtain ⟨req, t⟩ := step
      cases req with
      | unknown =>
          obtain ⟨fuel, hexec⟩ := hhandles
          rwa [show fs' = fs from congrArg SrvWorld.fs (exec_ret_iff.mp hexec).2.2]
      | _ => cases hv
  | some v =>
      have htouches := handles_touches hs hfits hv hhandles.untorn
      rw [htouches.cwd, htouches.frame _ ?_, hdb]
      intro hpre
      have htable : fs.cwd ++ [dbDir] <+: fs.table u := by
        rw [table_eq fs hu]
        exact List.prefix_append _ _
      rcases hothers v hv with rfl | hunrel
      · have hlen := hpre.length_le
        rw [show lexical fs.cwd (userTablePath v) = fs.table v from rfl, length_table fs hu] at hlen
        simp at hlen
      · exact hunrel.apart _ (trail_append (lexical_mem_trail fs.cwd (userTablePath u)))
          (hpre.trans htable)

/-! ## After an `UNREGISTER` -/

/-- **The law of a forgotten user**: history `H` follows an `UNREGISTER` of `u`. -/
structure Forgotten (u : Bytes) (H : List Turned) : Prop where
  /-- Until `u` is registered again, requests that name `u` are answered that there is no such
  user. -/
  absent : ∀ H₁ step H₂, H = H₁ ++ step :: H₂ →
    (∀ s ∈ H₁, s.1 ≠ .register u) →
    ∀ code, step.1.notExists u = some code → RepliesOnly step.2 code
  /-- The first message that is accepted for `u` has id 1. -/
  first : ∀ m, (admitted u H).head? = some m → m.id = 1
  /-- Only messages that were accepted since are transmitted to `u`. -/
  names : ∀ H' step H'', H = H' ++ step :: H'' → step.1.user = some u →
    Names (Nameable u H' step) (acts step.2)

/-! ### What grows again -/

section Forgetting

variable {u : Bytes} {a a' : Account} {H : List Turned} {step : Turned}

/-- What the account holds after such a history. -/
structure Regrown (u : Bytes) (H : List Turned) (a : Account) : Prop where
  stray : a.stray = false
  pending : ∀ id m, a.pending id = some m → m ∈ admitted u H
  zero : admitted u H = [] → ∀ ud, a.record = some ud → ud.lastMsgId = 0
  gone : (∀ s ∈ H, s.1 ≠ .register u) → a.record = none
  first : ∀ m, (admitted u H).head? = some m → m.id = 1
  names : ∀ H' step H'', H = H' ++ step :: H'' → step.1.user = some u →
    Names (Nameable u H' step) (acts step.2)

/-- Nothing is left. -/
theorem regrown_empty : Regrown u [] .empty where
  stray := rfl
  pending := by
    intro id m hm
    cases hm
  zero := by
    intro _ ud hud
    cases hud
  gone := fun _ => rfl
  first := by
    intro m hm
    cases hm
  names := by
    intro H' step H'' hH
    exact absurd hH (by simp)

/-- What one request may do to the account. -/
structure Regrows (u : Bytes) (a : Account) (step : Turned) (a' : Account) : Prop where
  pending : ∀ id m, a'.pending id = some m → a.pending id = some m ∨
    admittedIn u step = some m
  zero : admittedIn u step = none → (∀ ud, a.record = some ud → ud.lastMsgId = 0) →
    ∀ ud, a'.record = some ud → ud.lastMsgId = 0
  gone : step.1 ≠ .register u → a.record = none → a'.record = none
  first : ∀ m, admittedIn u step = some m →
    (∀ ud, a.record = some ud → ud.lastMsgId = 0) → m.id = 1

/-- A request to which there is no record: nothing changes, but for a `REGISTER`. -/
theorem Served.of_none {req : Req} {t : List srvE.Event} (h : Served u a req (acts t) a')
    (hnone : a.record = none) : admittedIn u (req, t) = none ∧
      (a' = a ∨ ∃ ud, req = .register u ∧ a' = .new ud ∧ ud.lastMsgId = 0) := by
  generalize hl : acts t = l at h
  cases h with
  | registered junk _ => exact ⟨rfl, Or.inr ⟨_, rfl, rfl, rfl⟩⟩
  | unregistered result hresult hsome => exact absurd hnone hsome
  | disconnected junk ud hud hstatus => rw [hnone] at hud; cases hud
  | connected junk hconnecting hdraining =>
      refine ⟨rfl, Or.inl ?_⟩
      cases hconnecting with
      | unknown code _ hcode =>
          cases hdraining with
          | unknown junk' _ => rfl
          | known junk' hsome _ => exact absurd hnone hsome
      | refused ud code hud hcode => rw [hnone] at hud; cases hud
      | accepted ud ip p hud hstatus hport => rw [hnone] at hud; cases hud
  | rejected junk code hcode =>
      refine ⟨?_, Or.inl rfl⟩
      rw [admittedIn_own, hl]
      rfl
  | accepted junk ud ud' code hud hpassing hshelving hfinishing => rw [hnone] at hud; cases hud
  | _ => exact ⟨rfl, Or.inl rfl⟩

/-- A successful `UNREGISTER` leaves nothing. -/
theorem Served.of_unregisters {req : Req} {t : List srvE.Event} (h : Served u a req (acts t) a')
    (hun : Unregisters u (req, t)) : admittedIn u (req, t) = none ∧ a' = .empty := by
  obtain ⟨rfl, hreply⟩ := hun
  refine ⟨rfl, ?_⟩
  generalize hl : acts t = l at h
  cases h with
  | unregistered result hresult hsome => rfl
  | notRegistered code hcode hnone =>
      rw [hl] at hreply
      simp only [List.mem_singleton, Act.replied.injEq, List.cons.injEq, and_true] at hreply
      exact absurd hreply.symm hcode

/-- What a request of `u` does. -/
theorem Served.regrows {req : Req} {t : List srvE.Event} (h : Served u a req (acts t) a') :
    Regrows u a (req, t) a' := by
  cases hrec : a.record with
  | none =>
      obtain ⟨hnot, rfl | ⟨ud, rfl, rfl, hud⟩⟩ := h.of_none hrec
      · refine ⟨fun id m hm => Or.inl hm, fun _ hzero => hzero, fun _ hnone => hnone,
          fun m hm => ?_⟩
        rw [hnot] at hm
        cases hm
      · refine ⟨fun id m hm => (by cases hm), fun _ _ ud' hud' => ?_, fun hne => absurd rfl hne,
          fun m hm => ?_⟩
        · obtain rfl := Option.some.inj hud'
          exact hud
        · rw [hnot] at hm
          cases hm
  | some ud =>
      have hgone : req ≠ .register u → a.record = none → a'.record = none := by
        intro _ hnone
        rw [hrec] at hnone
        cases hnone
      by_cases hun : Unregisters u (req, t)
      · obtain ⟨hnot, rfl⟩ := h.of_unregisters hun
        refine ⟨fun id m hm => (by cases hm), fun _ _ ud' hud' => (by cases hud'), hgone,
          fun m hm => ?_⟩
        rw [hnot] at hm
        cases hm
      rcases h.counts hrec hun with ⟨hnot, hless⟩ | ⟨m, hm, hid, -, hpending⟩
      · refine ⟨fun id m hm => Or.inl (hless.pending id m hm), fun _ hzero ud' hud' => ?_, hgone,
          fun m hm => ?_⟩
        · obtain ⟨ud'', hud'', hsame⟩ := hless.count ud hrec
          obtain rfl := Option.some.inj (hud''.symm.trans hud')
          rw [hsame, hzero ud hrec]
        · rw [hnot] at hm
          cases hm
      · refine ⟨fun id m' hm' => ?_, fun hnot => ?_, hgone, fun m' hm' hzero => ?_⟩
        · rcases hpending id m' hm' with rfl | hold
          · exact Or.inr hm
          · exact Or.inl hold
        · rw [hnot] at hm
          cases hm
        · obtain rfl := Option.some.inj (hm.symm.trans hm')
          rw [hid, hzero ud hrec]
          decide

/-- A request of another user. -/
theorem regrows_other (huser : step.1.user ≠ some u) (stray : Bool) :
    Regrows u a step { a with stray := stray } := by
  refine ⟨fun id m hm => Or.inl hm, fun _ hzero => hzero, fun _ hnone => hnone, fun m hm => ?_⟩
  rw [admittedIn_other huser] at hm
  cases hm

/-! ### Histories behind the request -/

/-- **One more request** after a user was forgotten. -/
theorem Regrown.snoc (h : Regrown u H a) (hstep : Regrows u a step a') (hstray : a'.stray = false)
    (hnames : step.1.user = some u → Names (Nameable u H step) (acts step.2)) :
    Regrown u (H ++ [step]) a' := by
  have hmore : admitted u (H ++ [step]) = admitted u H ++ (admittedIn u step).toList :=
    admitted_snoc
  refine ⟨hstray, fun id m hm => ?_, fun hnil => ?_, fun hno => ?_, fun m hm => ?_,
    forall_split_snoc.mpr ⟨h.names, hnames⟩⟩
  · rw [hmore, List.mem_append]
    rcases hstep.pending id m hm with hold | hnew
    · exact Or.inl (h.pending id m hold)
    · exact Or.inr (by rw [hnew]; exact List.mem_singleton_self m)
  · rw [hmore, List.append_eq_nil_iff] at hnil
    apply hstep.zero ?_ (h.zero hnil.1)
    cases hin : admittedIn u step with
    | none => rfl
    | some m => rw [hin] at hnil; exact absurd hnil.2 (by simp)
  · exact hstep.gone (hno step (by simp)) (h.gone fun s hs => hno s (List.mem_append_left _ hs))
  · rw [hmore] at hm
    cases hnil : admitted u H with
    | nil =>
        rw [hnil, List.nil_append] at hm
        exact hstep.first m (by simpa using hm) (h.zero hnil)
    | cons m' ms =>
        apply h.first m
        rw [hnil] at hm ⊢
        exact hm

theorem Regrown.turn (h : Regrown u H a) (hturn : Turn True u a step a') :
    Regrown u (H ++ [step]) a' := by
  have hstray := hturn.stray trivial h.stray
  rcases hturn with ⟨huser, hserved⟩ | ⟨huser, stray, -, rfl⟩
  · exact h.snoc hserved.regrows hstray fun _ => hserved.names h.stray h.pending
  · exact h.snoc (regrows_other huser stray) hstray fun heq => absurd heq huser

/-- **A user who was unregistered is forgotten**, in every history from an empty database in
which no request is for another user whose table meets that of `u`. -/
theorem run_forgotten {fs₀ fs₁ fs₂ fs : FS} {H₀ : List Turned} {t : List srvE.Event}
    (hu : slash ∉ u)
    (hlen : (u ++ tableSuffix).length ≤ nameMax) (hfresh : fs₀.Fresh)
    (h₀ : Run (HandledApart u) fs₀ H₀ fs₁)
    (hunreg : HandledApart u fs₁ (.unregister u, t) fs₂)
    (hok : Act.replied [srvSuccess] ∈ acts t)
    (h : Run (HandledApart u) fs₂ H fs) : Forgotten u H := by
  -- the account and the directory of all tables, after any requests
  have hkeeps : ∀ {fs fs' : FS} {a : Account} {step : Turned}, fs.Keeps True u a →
      fs.get (fs.cwd ++ [dbDir]) = some .dir → HandledApart u fs step fs' →
      ∃ a', Turn True u a step a' ∧ fs'.Keeps True u a' ∧
        fs'.get (fs'.cwd ++ [dbDir]) = some .dir := by
    intro fs fs' a step hkept hdb hstep
    obtain ⟨a', hturn, hkept'⟩ := hstep.1.turn True hu hkept hstep.elsewhere.2
    exact ⟨a', hturn, hkept', hstep.users hkept.schema hu hdb⟩
  have hbefore : ∃ a₁, fs₁.Keeps True u a₁ ∧
      fs₁.get (fs₁.cwd ++ [dbDir]) = some .dir := by
    clear hunreg
    induction h₀ with
    | nil => exact ⟨_, hfresh.keeps hu, hfresh.users⟩
    | snoc _ hstep ih =>
        obtain ⟨a, hkept, hdb⟩ := ih
        obtain ⟨a', -, hkept', hdb'⟩ := hkeeps hkept hdb hstep
        exact ⟨a', hkept', hdb'⟩
  obtain ⟨a₁, hkept₁, hdb₁⟩ := hbefore
  obtain ⟨a₂, hturn, hkept₂, hdb₂⟩ := hkeeps hkept₁ hdb₁ hunreg
  have hempty : a₂ = .empty := by
    rcases hturn with ⟨-, hserved⟩ | ⟨huser, -⟩
    · exact (hserved.of_unregisters ⟨rfl, hok⟩).2
    · exact absurd rfl huser
  subst hempty
  suffices hrun : (∃ a, Regrown u H a ∧ fs.Keeps True u a ∧
      fs.get (fs.cwd ++ [dbDir]) = some .dir) ∧
      ∀ H₁ step H₂, H = H₁ ++ step :: H₂ → (∀ s ∈ H₁, s.1 ≠ .register u) →
        ∀ code, step.1.notExists u = some code → RepliesOnly step.2 code by
    obtain ⟨⟨a, hregrown, -, -⟩, habsent⟩ := hrun
    exact ⟨habsent, hregrown.first, hregrown.names⟩
  clear hunreg hturn hok
  induction h with
  | nil =>
      exact ⟨⟨_, regrown_empty, hkept₂, hdb₂⟩,
        fun H₁ step H₂ hH => absurd hH (by simp)⟩
  | snoc _ hstep ih =>
      obtain ⟨⟨a, hregrown, hkept, hdb⟩, habsent⟩ := ih
      obtain ⟨a', hturn, hkept', hdb'⟩ := hkeeps hkept hdb hstep
      refine ⟨⟨a', hregrown.turn hturn, hkept', hdb'⟩,
        forall_split_snoc.mpr ⟨habsent, fun hno code hcode => ?_⟩⟩
      have hvacant : FS.Vacant _ u := ⟨hu, hlen, hkept.schema.tree.parent _ _ _ hdb, hdb,
        hkept.absent trivial (hregrown.gone hno)⟩
      obtain ⟨fuel, hexec⟩ := hstep.1.2
      exact must_vacant hvacant fuel hcode _ _ _ hexec

end Forgetting

/-! ## One user -/

/-- `b` was registered and unregistered. -/
def removedB : FS :=
  (Req.unregister (ascii "b")).run calm 1 ((Req.register (ascii "b")).run calm 1 emptyDb)

/-- Every request of a run of `b` alone. -/
theorem handledApart_b (req : Req) (fs : FS) (h : req.Fits ∧ req.Ends calm 1 fs)
    (huser : req.user = some (ascii "b")) :
    HandledApart (ascii "b") fs (turned req fs) (req.run calm 1 fs) :=
  HandledApart.of_noSlash (handled_turned req fs h.1 h.2) (by decide) (by decide) huser

/-- The thread replies with `code`. -/
def replies (t : List srvE.Event) (code : UInt8) : Bool :=
  (acts t).any fun
    | .replied bytes => bytes = [code]
    | _ => false

theorem replies_iff {t : List srvE.Event} {code : UInt8} :
    replies t code = true ↔ Act.replied [code] ∈ acts t := by
  rw [replies, List.any_eq_true]
  constructor
  · rintro ⟨act, hact, heq⟩
    cases act with
    | replied bytes => rwa [of_decide_eq_true heq] at hact
    | _ => cases heq
  · exact fun hact => ⟨_, hact, decide_eq_true rfl⟩

/-- `b` has been told that there is no `b`, and has registered again. -/
def againB : FS :=
  (Req.register (ascii "b")).run calm 1 ((Req.disconnect (ascii "b")).run calm 1 removedB)

/-- Requests after the `UNREGISTER` of `b`; the last one is a message. -/
def historyB : List Turned :=
  [turned (.disconnect (ascii "b")) removedB,
    turned (.register (ascii "b")) ((Req.disconnect (ascii "b")).run calm 1 removedB),
    turned (.send (ascii "b") (ascii "b") (ascii "hi")) againB]

/-- `b` is unregistered and forgotten; the first message since then is accepted with id 1. -/
theorem run_forgotten_b : Forgotten (ascii "b") historyB ∧
    admitted (ascii "b") historyB = [⟨ascii "b", 1, ascii "hi"⟩] := by
  have hreg := handledApart_b (.register (ascii "b")) emptyDb (by decide +kernel) rfl
  have hunreg := handledApart_b (.unregister (ascii "b"))
    ((Req.register (ascii "b")).run calm 1 emptyDb) (by decide +kernel) rfl
  have hdcn := handledApart_b (.disconnect (ascii "b")) removedB (by decide +kernel) rfl
  have hagain := handledApart_b (.register (ascii "b"))
    ((Req.disconnect (ascii "b")).run calm 1 removedB) (by decide +kernel) rfl
  have hsend := handledApart_b (.send (ascii "b") (ascii "b") (ascii "hi")) againB
    (by decide +kernel) rfl
  constructor
  · exact run_forgotten (by decide) (by decide) emptyDb_fresh (Run.single hreg) hunreg
      (replies_iff.mp (by decide +kernel)) (((Run.single hdcn).snoc hagain).snoc hsend)
  · decide +kernel

/-- **Another name brings the user back.**  Once `./b` is registered, `b` is no longer told that
there is no such user. -/
theorem not_run_forgotten :
    ¬ ∀ (u : Bytes) (fs₀ fs₁ fs₂ fs : FS) (H₀ H : List Turned) (t : List srvE.Event),
      slash ∉ u →
      (u ++ tableSuffix).length ≤ nameMax → fs₀.Fresh → Run Handled fs₀ H₀ fs₁ →
      Handled fs₁ (.unregister u, t) fs₂ → Act.replied [srvSuccess] ∈ acts t →
        Run Handled fs₂ H fs →
      Forgotten u H := by
  intro h
  have hhandled : ∀ (req : Req) (fs : FS), req.Fits ∧ req.Ends calm 1 fs →
      Handled fs (turned req fs) (req.run calm 1 fs) := fun _ _ h => handled_turned _ _ h.1 h.2
  have hreg := hhandled (.register (ascii "b")) emptyDb (by decide +kernel)
  have hunreg := hhandled (.unregister (ascii "b"))
    ((Req.register (ascii "b")).run calm 1 emptyDb) (by decide +kernel)
  have halias := hhandled (.register (ascii "./b")) removedB (by decide +kernel)
  have hdcn := hhandled (.disconnect (ascii "b"))
    ((Req.register (ascii "./b")).run calm 1 removedB) (by decide +kernel)
  have hforgotten :=
    h (ascii "b") _ _ _ _ _ _ _ (by decide) (by decide) emptyDb_fresh (Run.single hreg)
    hunreg (replies_iff.mp (by decide +kernel)) ((Run.single halias).snoc hdcn)
  have honly := hforgotten.absent [_] _ [] rfl (fun s hs => by
    rw [List.mem_singleton.mp hs]
    exact show Req.register (ascii "./b") ≠ .register (ascii "b") by decide) _ rfl
  have hreply := replies_iff.mpr ((honly _).mpr rfl)
  exact absurd hreply (by decide +kernel)
