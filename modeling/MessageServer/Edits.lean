/-
# Edits of a shared record

Any number of service threads handle `SEND`, `CONNECT` and `DISCONNECT` for one user, each library
call an atomic step.

* `edits_atomic`: as long as no thread writes back a record that has been rewritten since the thread
  read it, the record is what the edits make of it one after another;
* `edits_session`: so a `SEND` changes no session, and a session changes no message id.
-/
import MessageServer.EditHistories

/-! ## Runs -/

section Runs

variable {ι : Type} [DecidableEq ι] {fuel : ι → ℕ} {reqs : ι → Req} {u : Bytes}
  {t : List (ι × srvE.Event)}
  {ps : ι → Srv (Option Unit)} {fs₀ fs : FS} {a₀ : Account} {ud₀ ud : Userdata}

/-- **Threads for one user run on the account** of this user. -/
theorem interleave_account (hu : slash ∉ u) (hkept : fs₀.Keeps True u a₀)
    (hfits : ∀ i, (reqs i).Fits)
    (huser : ∀ i, (reqs i).user = some u)
    (h : Interleave CalmStep fs₀ (fun i => (reqs i).body (fuel i)) t fs ps) :
    ∃ a, Interleave (AccountStep True u) a₀ (fun i => (reqs i).body (fuel i)) t a ps ∧
      fs.Keeps True u a := by
  have hconfined : ∀ i, ((reqs i).body (fuel i)).Obeys (confined (ownNames u))
      (fun _ _ => True) () :=
    fun i => body_confined (fuel i) (hfits i) fun v hv => Option.some.inj (hv.symm.trans (huser i))
  refine h.simulate (D := fun _ => confined (ownNames u)) (B := fun s a => s.Keeps True u a) ?_
    hconfined hkept
  intro i s a ph o x s' hkept hallowed hstep
  obtain ⟨hposs, -, a', hcall, hkept'⟩ :=
    hstep.own hkept hu (((hfits i).user (huser i)).mono (by decide)) hallowed
  exact ⟨hposs, a', hcall, hkept'⟩

/-- **The run lemma.** -/
theorem edited_run (hud : a₀.record = some ud₀)
    (hedits : ∀ i, (reqs i).EditsOf u) {a : Account}
    (h : Interleave (AccountStep True u) a₀ (fun i => (reqs i).body (fuel i)) t a ps)
    (hunraced : Unraced t) :
    ∃ ud phs, a.record = some ud ∧ Edited reqs ud₀ t ud phs := by
  have hkeep : ∀ t a phs i o x a', (a.record ≠ none ∧
        (Unraced t → ∃ ud, a.record = some ud ∧ Edited reqs ud₀ t ud phs)) →
      (editing u (reqs i)).allowed (phs i) o → AccountStep True u a o x a' →
      (editing u (reqs i)).possible (phs i) o x ∧ a'.record ≠ none ∧
        (Unraced (t ++ [(i, ⟨o, x⟩)]) → ∃ ud, a'.record = some ud ∧
          Edited reqs ud₀ (t ++ [(i, ⟨o, x⟩)]) ud
          (Function.update phs i ((editing u (reqs i)).next (phs i) o x))) := by
    rintro t a phs i o x a' ⟨hsome, hinv⟩ hallowed hstep
    obtain ⟨ud, hud⟩ := Option.ne_none_iff_exists'.mp hsome
    obtain ⟨hposs, hsome'⟩ := editing_possible hud hallowed hstep
    refine ⟨hposs, hsome', fun hunraced => ?_⟩
    obtain ⟨ud, hud, hedited⟩ := hinv hunraced.of_append
    exact hedited.step hud hallowed hstep hunraced
  obtain ⟨phs, ⟨-, hinv⟩, -⟩ := h.invariant (D := fun i => editing u (reqs i)) hkeep
    (fun i => obeys_editing (fuel i) (hedits i))
      ⟨by simp [hud], fun _ => ⟨ud₀, hud, edited_start⟩⟩
  obtain ⟨ud, hrecord, hedited⟩ := hinv hunraced
  exact ⟨ud, phs, hrecord, hedited⟩

/-- **Edits are atomic.**  Any number of threads handle `SEND`, `CONNECT` and `DISCONNECT` for a
user who is registered, and no system call fails for a reason outside the state of the file system.
When no thread writes the record back after another one has rewritten it since this thread read it,
the record is what the edits make of it one after another, in the order in which they were written;
and a request that is answered with success has made its own edit among them, of the record as it
was then. -/
theorem edits_atomic (hu : slash ∉ u) (hkept : fs₀.Keeps True u a₀)
    (hud : a₀.record = some ud₀)
    (hfits : ∀ i, (reqs i).Fits) (hedits : ∀ i, (reqs i).EditsOf u)
    (h : Interleave CalmStep fs₀ (fun i => (reqs i).body (fuel i)) t fs ps)
    (hunraced : Unraced t) :
    ∃ ud, fs.Stores u ⟨u, .user ud⟩ ∧ Run (EditStep reqs t) ud₀ (writings t) ud ∧
      ∀ i, reply (threadEvents i t) = some srvSuccess →
        ∃ p, WroteAt reqs ud₀ t i p ∧ Edit (reqs i) (PeerIs t i) False p.1 p.2 := by
  obtain ⟨a, hrun, hkept'⟩ := interleave_account hu hkept hfits (fun i => (hedits i).user) h
  obtain ⟨ud, phs, hrecord, hedited⟩ := edited_run hud hedits hrun hunraced
  -- the record in the file is the one of the account
  have hfiled := hkept'.record
  rw [hrecord] at hfiled
  exact ⟨ud, hfiled, hedited.run, hedited.replied⟩

/-! ## Sessions and message ids -/

/-- The fields of a session. -/
def Userdata.session (ud : Userdata) : UInt8 × UInt32 × UInt16 := (ud.status, ud.ip, ud.port)

omit [DecidableEq ι] in
/-- The edit of a `SEND` whose message gets through, and any other edit of a thread whose messages
do. -/
theorem EditStep.parts {w : ι × Userdata} {ud' : Userdata} (h : EditStep reqs t ud w ud')
    (hdelivered : ¬ Misses t w.1) :
    ud' = w.2 ∧ if (reqs w.1).isSend then ud'.session = ud.session ∧
      ud'.lastMsgId = nextMsgId ud.lastMsgId
      else Edit (reqs w.1) (PeerIs t w.1) False ud ud' ∧ ud'.lastMsgId = ud.lastMsgId := by
  obtain ⟨rfl, hedit⟩ := h
  refine ⟨rfl, ?_⟩
  generalize hreq : reqs w.1 = req at hedit
  generalize w.2 = ud' at hedit
  cases hedit with
  | numbered heq =>
      rw [heq]
      exact ⟨rfl, rfl⟩
  | connected heq hpeer hport hstatus =>
      rw [heq]
      exact ⟨.connected rfl hpeer hport hstatus, rfl⟩
  | left heq hstatus =>
      rw [heq]
      exact ⟨.left rfl hstatus, rfl⟩
  | lost hfailed => exact absurd hfailed hdelivered

/-- The edits of sessions among those that have been written. -/
def sessionEdits (reqs : ι → Req) (ws : List (ι × Userdata)) : List (ι × Userdata) :=
  ws.filter fun w => !(reqs w.1).isSend

omit [DecidableEq ι] in
/-- **Sessions and message ids do not meet**: over a run of edits the session is that of the last
edit which is none of a `SEND`, and the id goes up with every edit of a `SEND`. -/
theorem run_edits {ws : List (ι × Userdata)} (h : Run (EditStep reqs t) ud₀ ws ud)
    (hdelivered : ∀ i, ¬ Misses t i) :
    ud.session = ((sessionEdits reqs ws).getLast?.map fun w => w.2.session).getD ud₀.session ∧
      ud.lastMsgId = nextMsgId^[ws.countP fun w => (reqs w.1).isSend] ud₀.lastMsgId ∧
      ∀ w ∈ sessionEdits reqs ws, ∃ ud, Edit (reqs w.1) (PeerIs t w.1) False ud w.2 := by
  induction h with
  | nil => exact ⟨rfl, rfl, fun w hw => absurd hw List.not_mem_nil⟩
  | @snoc ws ud ud' w _ hstep ih =>
      obtain ⟨hsession, hid, hedits⟩ := ih
      obtain ⟨rfl, hparts⟩ := hstep.parts (hdelivered w.1)
      rw [sessionEdits] at hsession hedits ⊢
      rw [List.filter_append, List.countP_append]
      cases hsend : (reqs w.1).isSend with
      | true =>
          rw [hsend] at hparts
          obtain ⟨hsame, hnext⟩ := hparts
          have hnone : [w].filter (fun w => !(reqs w.1).isSend) = [] := by simp [hsend]
          have hone : [w].countP (fun w => (reqs w.1).isSend) = 1 := by simp [hsend]
          rw [hnone, hone, List.append_nil, Function.iterate_succ_apply', ← hid]
          exact ⟨hsame.trans hsession, hnext, hedits⟩
      | false =>
          rw [hsend] at hparts
          obtain ⟨hedit, hsame⟩ := hparts
          have hone : [w].filter (fun w => !(reqs w.1).isSend) = [w] := by simp [hsend]
          have hnone : [w].countP (fun w => (reqs w.1).isSend) = 0 := by simp [hsend]
          rw [hone, hnone, Nat.add_zero, List.getLast?_concat]
          refine ⟨rfl, hsame.trans hid, fun w' hw' => ?_⟩
          rcases List.mem_append.mp hw' with hw' | hw'
          · exact hedits w' hw'
          · rw [List.mem_singleton.mp hw']
            exact ⟨ud, hedit⟩

/-- **A `SEND` changes no session.**  Under the same conditions, and when every message that is sent
gets through, the last message id goes up by one for each `SEND` that has numbered its message; and
when all requests but one are `SEND`s, and this one is answered with success, the session is the one
that it has written, with the address that `getpeername` gave it and its port. -/
theorem edits_session (hu : slash ∉ u) (hkept : fs₀.Keeps True u a₀)
    (hud : a₀.record = some ud₀)
    (hfits : ∀ i, (reqs i).Fits) (hedits : ∀ i, (reqs i).EditsOf u)
    (h : Interleave CalmStep fs₀ (fun i => (reqs i).body (fuel i)) t fs ps) (hunraced : Unraced t)
    (hdelivered : AllDelivered t) :
    ∃ ud, fs.Stores u ⟨u, .user ud⟩ ∧
      ud.lastMsgId = nextMsgId^[(writings t).countP fun w => (reqs w.1).isSend] ud₀.lastMsgId ∧
      ∀ i, (∀ j, (reqs j).isSend = false ↔ j = i) →
        reply (threadEvents i t) = some srvSuccess →
        ∃ before ud', (i, ud') ∈ writings t ∧ Edit (reqs i) (PeerIs t i) False before ud' ∧
          ud.session = ud'.session := by
  obtain ⟨a, hrun, hkept'⟩ := interleave_account hu hkept hfits (fun i => (hedits i).user) h
  obtain ⟨ud, phs, hrecord, hedited⟩ := edited_run hud hedits hrun hunraced
  have hstored := hkept'.record
  rw [hrecord] at hstored
  obtain ⟨hsession, hid, hown⟩ := run_edits hedited.run fun i => hdelivered.not_misses
  refine ⟨ud, hstored, hid, fun i halone hreply => ?_⟩
  have hnot : (reqs i).isSend = false := (halone i).mpr rfl
  -- the thread has written, so that there is a last edit of a session, which is its own
  have hsome : sessionEdits reqs (writings t) ≠ [] := by
    obtain ⟨p, hwrote, -⟩ := hedited.replied i hreply
    exact List.ne_nil_of_mem (List.mem_filter.mpr ⟨hwrote.mem, by rw [hnot]; rfl⟩)
  obtain ⟨w, hlast⟩ := List.getLast?_isSome.mpr hsome |> Option.isSome_iff_exists.mp
  have hw : w ∈ sessionEdits reqs (writings t) := List.mem_of_getLast? hlast
  obtain rfl : w.1 = i := (halone w.1).mp (by simpa using (List.mem_filter.mp hw).2)
  rw [hlast] at hsession
  obtain ⟨before, hedit⟩ := hown w hw
  exact ⟨before, w.2, (List.mem_filter.mp hw).1, hedit, hsession⟩

end Runs

/-! ## A session amid a message -/

/-- `b` connects while a message is sent to `b`. -/
def connectAmidSend : Bool → Req
  | true => .connect (ascii "b") (ascii "7000")
  | false => .send (ascii "a") (ascii "b") (ascii "hi")

theorem connectAmidSend_fits (i : Bool) :
    (connectAmidSend i).Fits ∧ (connectAmidSend i).EditsOf (ascii "b") := by
  cases i <;> decide

/-- A step at which no message fails to get through. -/
def getsThrough : srvE.Event → Bool
  | ⟨.note (.cltSendMessage _ _ result), _⟩ => result == 0
  | _ => true

theorem allDelivered_of_getsThrough {t : List (Bool × srvE.Event)}
    (h : t.all (fun ev => getsThrough ev.2) = true) : AllDelivered t :=
  fun _ _ _ _ hmem => eq_of_beq (List.all_eq_true.mp h _ hmem)

/-- The `CONNECT` reads the record behind the rewriting by the `SEND`. -/
def behindSend : List Bool := List.replicate 5 false ++ List.replicate 5 true ++ byTurns

/-- The `CONNECT` is done between the reading and the rewriting by the `SEND`. -/
def insideSend : List Bool := List.replicate 4 false ++ List.replicate 5 true ++ byTurns

theorem behindSend_keeps : Unraced (atWork connectAmidSend behindSend).1 ∧
    (atWork connectAmidSend behindSend).1.all (fun ev => getsThrough ev.2) = true ∧
    reply (threadEvents true (atWork connectAmidSend behindSend).1) = some srvSuccess ∧
    reply (threadEvents false (atWork connectAmidSend behindSend).1) = some srvSuccess := by
  decide +kernel

/-- The record of `b` when `a` and `b` have been registered. -/
theorem registeredAB_record : ∃ a ud, registeredAB.Keeps True (ascii "b") a ∧
    a.record = some ud := by
  obtain ⟨a, hkept⟩ := registeredAB_keeps
  have hcontent := hkept.content_record (by decide)
  cases hud : a.record with
  | some ud => exact ⟨a, ud, hkept, hud⟩
  | none =>
      rw [hud] at hcontent
      have hne : registeredAB.content (userdataPath (ascii "b")) ≠ [] := by decide +kernel
      exact absurd hcontent hne

theorem edits_atomic_behindSend :
    ∃ ud₀ ud, (atWork connectAmidSend behindSend).2.1.Stores (ascii "b")
      ⟨ascii "b", .user ud⟩ ∧
    Run (EditStep connectAmidSend (atWork connectAmidSend behindSend).1) ud₀
      (writings (atWork connectAmidSend behindSend).1) ud ∧
    (∃ p, WroteAt connectAmidSend ud₀ (atWork connectAmidSend behindSend).1 true p) ∧
    ∃ p, WroteAt connectAmidSend ud₀ (atWork connectAmidSend behindSend).1 false p := by
  obtain ⟨a, ud₀, hkept, hud⟩ := registeredAB_record
  obtain ⟨ud, hstored, hrun, hreplied⟩ := edits_atomic (by decide) hkept hud
    (fun i => (connectAmidSend_fits i).1) (fun i => (connectAmidSend_fits i).2)
    (interleave_atWork connectAmidSend behindSend) behindSend_keeps.1
  obtain ⟨-, -, hconnect, hsend⟩ := behindSend_keeps
  obtain ⟨p, hp, -⟩ := hreplied true hconnect
  obtain ⟨q, hq, -⟩ := hreplied false hsend
  exact ⟨ud₀, ud, hstored, hrun, ⟨p, hp⟩, q, hq⟩

theorem edits_session_behindSend : ∃ ud before ud',
    (atWork connectAmidSend behindSend).2.1.Stores (ascii "b") ⟨ascii "b", .user ud⟩ ∧
      (true, ud') ∈ writings (atWork connectAmidSend behindSend).1 ∧
      Edit (connectAmidSend true) (PeerIs (atWork connectAmidSend behindSend).1 true) False
        before ud' ∧
      ud.session = ud'.session := by
  obtain ⟨a, ud₀, hkept, hud⟩ := registeredAB_record
  obtain ⟨ud, hstored, -, hsession⟩ :=
    edits_session (by decide) hkept hud (fun i => (connectAmidSend_fits i).1)
    (fun i => (connectAmidSend_fits i).2) (interleave_atWork connectAmidSend behindSend)
      behindSend_keeps.1
    (allDelivered_of_getsThrough behindSend_keeps.2.1)
  obtain ⟨before, ud', hwrote, hedit, heq⟩ := hsession true (by decide) behindSend_keeps.2.2.1
  exact ⟨ud, before, ud', hstored, hwrote, hedit, heq⟩

theorem insideSend_replies :
    (atWork connectAmidSend insideSend).1.all (fun ev => getsThrough ev.2) = true ∧
      reply (threadEvents true (atWork connectAmidSend insideSend).1) = some srvSuccess ∧
      (atWork connectAmidSend insideSend).2.1.get
        ((atWork connectAmidSend insideSend).2.1.table (ascii "b") ++
          [userdataEntry]) =
        some (.file
            (Entry.image ⟨ascii "b", .user { (default : Userdata) with lastMsgId := 1 }⟩)) := by
  decide +kernel

/-- **A `CONNECT` that is undone**: it is answered with success, and the `SEND` writes back the
record that it has read before. -/
theorem not_edits_session :
    ∃ t fs ps, Interleave CalmStep registeredAB (fun i => (connectAmidSend i).body 2) t fs ps ∧
    AllDelivered t ∧ reply (threadEvents true t) = some srvSuccess ∧
    ∃ ud, fs.Stores (ascii "b") ⟨ascii "b", .user ud⟩ ∧ ud.status = statusDcn := by
  obtain ⟨hthrough, hreply, hstored⟩ := insideSend_replies
  exact ⟨_, _, _, interleave_atWork connectAmidSend insideSend,
    allDelivered_of_getsThrough hthrough, hreply, _,
    hstored, by decide⟩
