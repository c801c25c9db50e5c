/-
# Failed `CONNECT` requests

`srv_connect` runs the drain of pending messages whatever it has replied.  A
`CONNECT` that is answered with an error has no effect exactly when the drain finds
no message to send.
-/
import MessageServer.Quiet
import MessageServer.Isolation

/-! ## Replies -/

/-- The reply byte of a step, if it is one. -/
def replyOf : SrvOp → Option UInt8
  | .write .client [code] => some code
  | _ => none

/-- The first reply byte of a thread. -/
def reply (t : List srvE.Event) : Option UInt8 := t.findSome? fun e => replyOf e.1

theorem reply_append {t t' : List srvE.Event} (h : ∀ e ∈ t, replyOf e.1 = none) :
    reply (t ++ t') = reply t' := by
  rw [reply, List.findSome?_append, List.findSome?_eq_none_iff.mpr h]
  rfl

theorem reply_cons {o : SrvOp} {x : o.Ans} {t : List srvE.Event} (h : replyOf o = none) :
    reply (⟨o, x⟩ :: t) = reply t := by
  rw [reply, List.findSome?_cons, h]
  rfl

theorem reply_cons_some {o : SrvOp} {x : o.Ans} {t : List srvE.Event} {code : UInt8}
    (h : replyOf o = some code) : reply (⟨o, x⟩ :: t) = some code := by
  rw [reply, List.findSome?_cons, h]

theorem reply_snoc {t : List srvE.Event} {o : SrvOp} {x : o.Ans} :
    reply (t ++ [⟨o, x⟩]) = (reply t).or (replyOf o) := by
  rw [reply, reply, List.findSome?_append]
  cases t.findSome? fun e => replyOf e.1 with
  | none => cases h : replyOf o <;> simp [h]
  | some code => rfl

/-- Sending a reply. -/
theorem exec_sendServerReply {T : DbCall → List sysE.Event → Prop} {code : UInt8}
    {w w' : SrvWorld}
    {t : List srvE.Event} {r : ℤ} (h : Exec (SrvStep T) (sendServerReply code) w t r w') :
    w' = w ∧ ¬ Transmits t ∧ ∀ t', reply (t ++ t') = some code := by
  rw [sendServerReply] at h
  obtain ⟨ok, w₁, t', rfl, hrest, rfl⟩ := exec_perform_bind_iff.mp h
  have hreply : ∀ t'', reply (⟨SrvOp.write .client [code], ok⟩ :: t' ++ t'') = some code :=
    fun t'' => reply_cons_some rfl
  cases ok with
  | true =>
      obtain ⟨rfl, rfl, rfl⟩ := exec_ret_iff.mp hrest
      refine ⟨rfl, ?_, hreply⟩
      rintro ⟨bytes, hmem⟩
      exact absurd (congrArg Sigma.fst (List.mem_singleton.mp hmem)) (by simp [sentEvent])
  | false =>
      obtain ⟨x, w₂, t₂, rfl, hrest', rfl⟩ := exec_perform_bind_iff.mp hrest
      obtain ⟨rfl, rfl, rfl⟩ := exec_ret_iff.mp hrest'
      refine ⟨rfl, ?_, hreply⟩
      rintro ⟨bytes, hmem⟩
      rcases List.mem_cons.mp hmem with heq | hmem
      · exact absurd (congrArg Sigma.fst heq) (by simp [sentEvent])
      · exact absurd (congrArg Sigma.fst (List.mem_singleton.mp hmem)) (by simp [sentEvent])

/-- A reply can be sent. -/
theorem may_sendServerReply {T : DbCall → List sysE.Event → Prop} {code : UInt8} {w : SrvWorld}
    {Q : List srvE.Event → ℤ → SrvWorld → Prop}
    (hQ : Q [⟨SrvOp.write .client [code], (true : Bool)⟩] 0 w) :
    (sendServerReply code).May (SrvStep T) Q w := by
  rw [sendServerReply]
  exact may_perform_bind true rfl (may_ret hQ)

/-! ## The part that decides the reply -/

/-- Database calls and the peer's address. -/
def Deciding : SrvOp → Prop
  | .db _ => True
  | .getpeername => True
  | _ => False

theorem performs_srvConnectReply (port : Bytes) (code : UInt8) (ioResult : ℤ) (e : Entry) :
    (srvConnectReply port code ioResult e).Performs Deciding := by
  unfold srvConnectReply
  split
  · trivial
  split
  · trivial
  split
  · trivial
  · refine Prog.performs_perform_bind.mpr ⟨trivial, fun peer => ?_⟩
    generalize (if peer.isNone then srvErrCnAny
      else if (strToNum port .int).toOption.isNone then srvErrCnAny else code) = code₁
    simp only
    split
    · exact Prog.performs_perform_bind.mpr ⟨trivial, fun _ => trivial⟩
    · trivial

/-- What decides the reply neither replies nor transmits. -/
theorem deciding_silent {t : List srvE.Event} (h : ∀ e ∈ t, Deciding e.1) :
    (∀ e ∈ t, replyOf e.1 = none) ∧ ¬ Transmits t := by
  constructor
  · rintro ⟨o, x⟩ he
    have hd : Deciding o := h _ he
    cases o with
    | db call => rfl
    | getpeername => rfl
    | _ => exact hd.elim
  · rintro ⟨bytes, hmem⟩
    exact h _ hmem

/-- Without faults, a `CONNECT` that is not answered with success has written
nothing. -/
theorem exec_srvConnectReply {port : Bytes} {code : UInt8} {ioResult : ℤ} {u : Bytes}
    {ud : Userdata}
    {w w' : SrvWorld} {t : List srvE.Event} {c : UInt8}
    (h : Exec (SrvStep noFaults) (srvConnectReply port code ioResult ⟨u, .user ud⟩) w t c w') :
    c = srvSuccess ∨ w'.fs = w.fs := by
  unfold srvConnectReply at h
  split at h
  · exact Or.inr (congrArg SrvWorld.fs (exec_ret_iff.mp h).2.2)
  split at h
  · exact Or.inr (congrArg SrvWorld.fs (exec_ret_iff.mp h).2.2)
  split at h
  · exact Or.inr (congrArg SrvWorld.fs (exec_ret_iff.mp h).2.2)
  · obtain ⟨peer, w₁, t₁, rfl, hrest, rfl⟩ := exec_perform_bind_iff.mp h
    generalize (if peer.isNone then srvErrCnAny
      else if (strToNum port .int).toOption.isNone then srvErrCnAny else code) = code₁ at hrest
    simp only at hrest
    split at hrest
    · obtain ⟨r, w₂, t₂, ⟨hstep, -⟩, hend, rfl⟩ := exec_perform_bind_iff.mp hrest
      obtain ⟨rfl, rfl, rfl⟩ := exec_ret_iff.mp hend
      rcases dbStep_modify hstep with ⟨-, hfs, -⟩ | ⟨hok, -⟩
      · exact Or.inr hfs
      · left
        rw [hok, if_neg (by decide), if_neg (by decide)]
    · exact Or.inr (congrArg SrvWorld.fs (exec_ret_iff.mp hrest).2.2)

/-- A `CONNECT` can be refused after its record has been read. -/
theorem may_srvConnectReply_fail {T : DbCall → List sysE.Event → Prop} (port : Bytes)
    (code : UInt8)
    (e : Entry) (w : SrvWorld) :
    (srvConnectReply port code dbmsSuccess e).May (SrvStep T)
      (fun _ c w' => w' = w ∧ c ≠ srvSuccess) w := by
  unfold srvConnectReply
  rw [if_neg (by decide), if_neg (by decide)]
  split
  · exact may_ret ⟨rfl, by decide⟩
  · refine may_perform_bind (none : Option UInt32) rfl ?_
    simp only [Option.isNone_none, if_true, ne_eq, not_true_eq_false, if_false]
    exact may_ret ⟨rfl, by decide⟩

/-! ## The effect of a failed `CONNECT` -/

section Connect

variable {fs : FS} {u port : Bytes}

/-- A failed `CONNECT` that finds nothing to send has no effect. -/
theorem failed_connect_quiet (hs : Schema fs) (hno : ¬ fs.Drains u)
    {t : List srvE.Event} {fs' : FS} (h : Handles noFaults fs (.connect u port) t fs')
    (hreply : reply t ≠ some srvSuccess) : fs' = fs ∧ ¬ Transmits t := by
  obtain ⟨fuel, h⟩ := h
  change Exec (SrvStep noFaults) (srvConnectBody fuel u port) _ _ _ _ at h
  rw [srvConnectBody] at h
  obtain ⟨junk, w₁, t₁, rfl, h₁, rfl⟩ := exec_perform_bind_iff.mp h
  obtain ⟨r, w₂, t₂, ⟨hread, hinput⟩, h₂, rfl⟩ := exec_perform_bind_iff.mp h₁
  obtain ⟨t₃, c, w₃, t₄, h₃, h₄, rfl⟩ := exec_bind_iff.mp h₂
  obtain ⟨t₅, n, w₄, t₆, h₅, h₆, rfl⟩ := exec_bind_iff.mp h₄
  obtain ⟨t₇, d, w₅, t₈, h₇, h₈, rfl⟩ := exec_bind_iff.mp h₆
  obtain ⟨rfl, -, hw⟩ := exec_ret_iff.mp h₈
  obtain ⟨hsilent₃, hnot₃⟩ :=
    deciding_silent (h₃.performs (performs_srvConnectReply _ _ _ _))
  obtain ⟨rfl, hnot₅, hcode⟩ := exec_sendServerReply h₅
  rw [reply_cons rfl, reply_cons rfl, reply_append hsilent₃, hcode] at hreply
  -- nothing was written before the reply
  have hfs₂ : w₂.fs = fs := by
    obtain ⟨t, hexec, -⟩ := hread
    exact exec_ioOp_read_frame hexec
  obtain ⟨u', ud, hr⟩ := exists_user_of_read hs hread.untorn
  rw [hr] at h₃
  have hfs₃ : w₄.fs = fs := by
    rcases exec_srvConnectReply h₃ with hok | hsame
    · exact absurd (congrArg some hok) hreply
    · rw [hsame, hfs₂]
  obtain ⟨hfs', hnot₇, -⟩ :=
    exec_quiet (quiet_auxConnectSendPendMsgs hs hno fuel junk.msg) hfs₃
    (exec_anyFaults h₇)
  refine ⟨?_, ?_⟩
  · have heq := congrArg SrvWorld.fs hw
    rw [hfs'] at heq
    exact heq
  · rintro ⟨bytes, hmem⟩
    simp only [List.mem_cons, List.mem_append, List.append_nil] at hmem
    rcases hmem with heq | heq | hmem | hmem | hmem
    · exact absurd (congrArg Sigma.fst heq) (by simp [sentEvent])
    · exact absurd (congrArg Sigma.fst heq) (by simp [sentEvent])
    · exact hnot₃ ⟨bytes, hmem⟩
    · exact hnot₅ ⟨bytes, hmem⟩
    · exact hnot₇ ⟨bytes, hmem⟩

/-- A `CONNECT` that finds a message to send can fail and transmit it. -/
theorem may_connect_loud (hs : Schema fs) (hdrains : fs.Drains u) (port : Bytes)
    (input : List ReadEv) :
    (srvConnectBody 1 u port).May (SrvStep noFaults)
      (fun t r w => r = some () ∧ w.input = input ∧ reply t ≠ some srvSuccess ∧ Transmits t)
      ⟨fs, input⟩ := by
  obtain ⟨⟨u', ud, hknown⟩, -⟩ := id hdrains
  rw [srvConnectBody]
  refine may_perform_bind (default : Junk) rfl ?_
  refine may_db_bind (may_read (typed_user _ _) hknown.content (fits_user hknown.fits ud)) ?_
  obtain ⟨t₁, c, w₁, hexec₁, rfl, hc⟩ := may_srvConnectReply_fail (T := noFaults) port
    (default : Junk).byte ⟨u', .user ud⟩ ⟨fs, input⟩
  obtain ⟨hsilent, -⟩ := deciding_silent (hexec₁.performs (performs_srvConnectReply _ _ _ _))
  refine may_bind ?_
  refine ⟨t₁, c, _, hexec₁, ?_⟩
  refine may_bind (may_sendServerReply ?_)
  refine may_bind ((may_transmit_drain hs hdrains _).mono ?_)
  rintro t r w ⟨⟨bytes, hsent⟩, hr, hw⟩
  obtain ⟨n, rfl⟩ := Option.ne_none_iff_exists'.mp hr
  refine may_ret ⟨rfl, hw, ?_, bytes, ?_⟩
  · have hcode := (reply_append hsilent).trans (reply_cons_some (o := .write .client [c])
      (x := true) (t := t ++ []) rfl)
    intro heq
    exact hc (Option.some.inj (((reply_cons rfl).trans ((reply_cons rfl).trans hcode)).symm.trans
      heq))
  · simp [hsent]

/-- **Failed `CONNECT` requests.**  In every reachable database, a `CONNECT` that is
not answered with success leaves the database as it is and transmits nothing, whatever
the network does, if and only if the drain finds no message of the user to send. -/
theorem failed_connect_no_effect_iff (hreach : Reachable fs) (u port : Bytes) :
    (∀ t fs', Handles noFaults fs (.connect u port) t fs' → reply t ≠ some srvSuccess →
      fs.Same fs' ∧ ¬ Transmits t) ↔ ¬ fs.Drains u := by
  constructor
  · intro h hdrains
    obtain ⟨t, r, ⟨fs', input⟩, hexec, rfl, hinput, hreply, hsent⟩ :=
      may_connect_loud hreach.schema hdrains port []
    obtain rfl : input = [] := hinput
    exact (h t fs' ⟨1, hexec⟩ hreply).2 hsent
  · intro hno t fs' h hreply
    obtain ⟨rfl, hnot⟩ := failed_connect_quiet hreach.schema hno h hreply
    exact ⟨FS.Same.refl _, hnot⟩

end Connect

/-! ## A stored message -/

/-- The database after the registration of `a`. -/
def registeredA : FS := (Req.register (ascii "a")).run calm 1 emptyDb

/-- Two registered users. -/
def registeredAB : FS :=
  (Req.register (ascii "b")).run calm 1 ((Req.register (ascii "a")).run calm 1 emptyDb)

/-- A message from `a` is stored for `b`. -/
def pendingAB : FS := (Req.send (ascii "a") (ascii "b") (ascii "hi")).run calm 1 registeredAB

theorem registeredA_reachable : Reachable registeredA := by
  have hfits : (Req.register (ascii "a")).Fits := by decide
  have hends : (Req.register (ascii "a")).Ends calm 1 emptyDb := by decide +kernel
  exact ⟨emptyDb, _, emptyDb_fresh, Run.single (requestStep_run hfits hends)⟩

theorem registeredAB_reachable : Reachable registeredAB := by
  obtain ⟨fs₀, reqs, hfresh, hrun⟩ := registeredA_reachable
  have hfits : (Req.register (ascii "b")).Fits := by decide
  have hends : (Req.register (ascii "b")).Ends calm 1 registeredA := by decide +kernel
  exact ⟨fs₀, _, hfresh, hrun.snoc (requestStep_run hfits hends)⟩

theorem pendingAB_reachable : Reachable pendingAB := by
  obtain ⟨fs₀, reqs, hfresh, hrun⟩ := registeredAB_reachable
  have hfits : (Req.send (ascii "a") (ascii "b") (ascii "hi")).Fits := by decide
  have hends : (Req.send (ascii "a") (ascii "b") (ascii "hi")).Ends calm 1 registeredAB := by
    decide +kernel
  exact ⟨fs₀, _, hfresh, hrun.snoc (requestStep_run hfits hends)⟩

/-- Nothing is stored for `a`, so a failed `CONNECT` of `a` has no effect. -/
theorem failed_connect_no_effect_iff_pendingAB :
    (∀ t fs', Handles noFaults pendingAB (.connect (ascii "a") (ascii "7000")) t fs' →
      reply t ≠ some srvSuccess → pendingAB.Same fs' ∧ ¬ Transmits t) ↔
        ¬ pendingAB.Drains (ascii "a") :=
  failed_connect_no_effect_iff pendingAB_reachable _ _

/-- **A failed `CONNECT` has an effect.**  `CONNECT b` with a port that is no number is
refused, and the message stored for `b` is sent to a stale address and deleted. -/
theorem not_failed_connect_no_effect :
    ¬ ∀ (fs fs' : FS) (u port : Bytes) (t : List srvE.Event), Reachable fs →
      (Req.connect u port).Fits → slash ∉ u → Handles noFaults fs (.connect u port) t fs' →
      reply t ≠ some srvSuccess → fs.Same fs' ∧ ¬ Transmits t := by
  intro h
  have hfits : (Req.connect (ascii "b") (ascii "x")).Fits := by decide
  have hends : (Req.connect (ascii "b") (ascii "x")).Ends calm 3 pendingAB := by decide +kernel
  obtain ⟨hsame, -⟩ :=
    h pendingAB _ (ascii "b") (ascii "x") _ pendingAB_reachable hfits (by decide)
    (handles_run calm_calm hends) (by decide +kernel)
  have hfile := hsame.nodes (msgFile [dbDir, ascii "b-table"] 1)
  revert hfile
  decide +kernel
