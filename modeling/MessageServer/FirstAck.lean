/-
# The first acknowledgement before the second

* `SendFacts`: what a thread has done, from where it is;
* `NotTooSoon`: nobody fetches the message before it has been answered for;
* `acked_after_reply`: the second acknowledgement comes later, as long as nobody fetches the
  message too soon, and no step of the thread fails that it does not look at;
* `not_acked_after_reply`: a drain between storing the message and replying.
-/
import MessageServer.SendPhases

/-! ## The invariant of the thread -/

/-- What the history of a thread says in each phase. -/
def PhaseFacts (evs : List srvE.Event) : Sending → Prop
  | .starting => messageId evs = none
  | .passing id status good => messageId evs = some id ∧
      (status = statusCn → lastStatus evs = some statusCn) ∧
        (good = false → status ≠ statusCn)
  | .replied id status => messageId evs = some id ∧
      (status = statusCn → lastStatus evs = some statusCn) ∧ toldEvent [srvSuccess] ∈ evs
  | .answered id => messageId evs = some id ∧ toldEvent [srvSuccess] ∈ evs ∧
      toldEvent (decimal id.toNat ++ [0]) ∈ evs
  | .failed status => status ≠ statusCn
  | .ended => True

/-- What the history of a thread says. -/
structure SendFacts (sender recipient content : Bytes) (evs : List srvE.Event) (ph : Sending) :
    Prop where
  acks : ∀ before ev after, evs = before ++ ev :: after → isSecondAck ev = true →
    Answered before
  stored : ∀ entry, storedEntry evs = some entry →
    ∃ id, messageId evs = some id ∧ entry = ⟨recipient, .msg ⟨sender, id, content⟩⟩
  phase : PhaseFacts evs ph

section Steps

variable {sender recipient content : Bytes} {evs : List srvE.Event} {ev : srvE.Event}
  {ph ph' : Sending}

/-- The facts before the first step. -/
theorem sendFacts_start : SendFacts sender recipient content [] .starting :=
  ⟨fun before ev after heq => absurd heq (by simp),
    fun entry h => absurd h (by simp [storedEntry]), rfl⟩

/-- A step that stores nothing and is no acknowledgement. -/
theorem SendFacts.snoc (h : SendFacts sender recipient content evs ph)
    (hstore : storesEntry ev = none)
    (hack : isSecondAck ev = false) (hph : PhaseFacts (evs ++ [ev]) ph') :
    SendFacts sender recipient content (evs ++ [ev]) ph' := by
  refine ⟨forall_split_snoc.mpr ⟨h.acks, fun hev => absurd hev (by simp [hack])⟩,
    fun entry hentry => ?_, hph⟩
  rw [storedEntry_snoc, hstore, Option.or_none] at hentry
  obtain ⟨id, hid, heq⟩ := h.stored entry hentry
  exact ⟨id, messageId_append hid _, heq⟩

/-- A step that says nothing. -/
theorem PhaseFacts.quiet (h : PhaseFacts evs ph) (hid : givesId ev = none)
    (hstatus : ∀ status, statusNext status ev = status) : PhaseFacts (evs ++ [ev]) ph := by
  have hmessage : messageId (evs ++ [ev]) = messageId evs := by
    rw [messageId_snoc, hid, Option.or_none]
  have hlast : lastStatus (evs ++ [ev]) = lastStatus evs := by rw [lastStatus_snoc, hstatus]
  cases ph with
  | starting => exact hmessage.trans h
  | passing id status good =>
      obtain ⟨hsome, hcn, hgood⟩ := h
      exact ⟨hmessage.trans hsome, fun hs => hlast.trans (hcn hs), hgood⟩
  | replied id status =>
      obtain ⟨hsome, hcn, htold⟩ := h
      exact ⟨hmessage.trans hsome, fun hs => hlast.trans (hcn hs), List.mem_append_left _ htold⟩
  | answered id =>
      obtain ⟨hsome, hcode, htold⟩ := h
      exact ⟨hmessage.trans hsome, List.mem_append_left _ hcode, List.mem_append_left _ htold⟩
  | failed status => exact h
  | ended => trivial

/-- A step that talks to a listener. -/
theorem SendFacts.talk {o : SrvOp} {x : o.Ans} (h : SendFacts sender recipient content evs ph)
    (hph : ph.Talkative) (ho : Talks o) : SendFacts sender recipient content (evs ++ [⟨o, x⟩])
      ((sending sender recipient content).next ph o x) := by
  rw [(hph.talks _ ho).2]
  cases o with
  | db call => exact ho.elim
  | note n => exact ho.elim
  | _ => exact h.snoc rfl rfl (h.phase.quiet rfl fun _ => rfl)

/-- The reply is written, or not. -/
theorem PhaseFacts.reply {id : UInt32} {status code : UInt8} {good ok : Bool}
    (h : PhaseFacts evs (.passing id status good)) (hcode : code = srvSuccess ↔ good = true)
    (hwell : spoils ⟨.write .client [code], ok⟩ = true → lastStatus evs ≠ some statusCn) :
    PhaseFacts (evs ++ [⟨.write .client [code], ok⟩])
      (Sending.afterReply id status code ok) := by
  obtain ⟨hid, hcn, hgood⟩ := h
  by_cases hsuccess : code = srvSuccess
  · cases ok with
    | true =>
        rw [Sending.afterReply, if_pos ⟨rfl, hsuccess⟩, hsuccess]
        refine ⟨messageId_append hid _, fun hs => ?_,
          List.mem_append_right _ (List.mem_singleton.mpr rfl)⟩
        rw [lastStatus_snoc]
        exact hcn hs
    | false =>
        rw [Sending.afterReply, if_neg (by simp)]
        exact fun hs => hwell (by rw [hsuccess]; rfl) (hcn hs)
  · rw [Sending.afterReply, if_neg fun h => hsuccess h.2]
    exact hgood (Bool.eq_false_iff.mpr fun hg => hsuccess (hcode.mpr hg))

/-- The id is written, or not. -/
theorem PhaseFacts.told {id : UInt32} {status : UInt8} {ok : Bool}
    (h : PhaseFacts evs (.replied id status))
    (hwell : spoils ⟨.write .client (decimal id.toNat ++ [0]), ok⟩ = true →
        lastStatus evs ≠ some statusCn) :
    PhaseFacts (evs ++ [⟨.write .client (decimal id.toNat ++ [0]), ok⟩])
      (Sending.afterId id status ok) := by
  obtain ⟨hid, hcn, htold⟩ := h
  cases ok with
  | true => exact ⟨messageId_append hid _, List.mem_append_left _ htold,
      List.mem_append_right _ (List.mem_singleton.mpr rfl)⟩
  | false =>
      intro hs
      obtain ⟨c, cs, hdecimal⟩ := List.exists_cons_of_ne_nil (decimal_ne_nil id.toNat)
      refine hwell ?_ (hcn hs)
      rw [hdecimal]
      cases cs <;> rfl

/-- **The step lemma.** -/
theorem SendFacts.step {o : SrvOp} {x : o.Ans} (h : SendFacts sender recipient content evs ph)
    (hwell : spoils ⟨o, x⟩ = true → lastStatus evs ≠ some statusCn)
    (hallowed : (sending sender recipient content).allowed ph o) :
    SendFacts sender recipient content (evs ++ [⟨o, x⟩])
      ((sending sender recipient content).next ph o x) := by
  have hphase := h.phase
  cases ph with
  | starting =>
      -- no id has been given yet
      have hnone : messageId evs = none := hphase
      have htalk : Sending.starting.Talkative := fun _ _ => by simp
      rcases hallowed with ho | ⟨v, rfl⟩ | ⟨u, ud, rfl⟩ | ⟨e, rfl⟩ |
        ⟨code, hcode, rfl⟩
      · exact h.talk htalk ho
      · exact h.snoc rfl rfl (hphase.quiet rfl fun _ => rfl)
      · apply h.snoc rfl rfl
        show messageId _ = none
        rw [messageId_snoc, hnone]
        rfl
      · show SendFacts _ _ _ _ (if 0 ≤ x.1 then _ else _)
        split
        · rename_i hx
          apply h.snoc rfl rfl
          refine ⟨?_, fun hs => ?_, fun hgood => absurd hgood (by simp)⟩
          · rw [messageId_snoc, hnone, givesId, if_pos hx]
            rfl
          · rw [lastStatus_snoc, ← hs]
            rfl
        · rename_i hx
          apply h.snoc rfl rfl
          show messageId _ = none
          rw [messageId_snoc, hnone, givesId, if_neg hx]
          rfl
      · exact h.snoc rfl rfl trivial
  | passing id status good =>
      have htalk : (Sending.passing id status good).Talkative := fun _ _ => by simp
      obtain ⟨hid, hcn, hgood⟩ := hphase
      rcases hallowed with ho | ⟨rfl, u, ud, rfl⟩ | ⟨rfl, e, rfl⟩ |
        ⟨e, m, result, rfl⟩ | rfl | ⟨code, hcode, rfl⟩
      · exact h.talk htalk ho
      · apply h.snoc rfl rfl
        refine ⟨messageId_append hid _, fun hs => ?_, fun hgood => absurd hgood (by simp)⟩
        rw [lastStatus_snoc, ← hs]
        rfl
      · apply h.snoc rfl rfl
        exact ⟨messageId_append hid _, fun hs => absurd hs (by decide), fun _ => by decide⟩
      · exact h.snoc rfl rfl (h.phase.quiet rfl fun _ => rfl)
      · -- the message is stored, or not
        refine ⟨forall_split_snoc.mpr ⟨h.acks, fun hev => absurd hev (by simp [isSecondAck])⟩,
          fun entry hentry => ?_, messageId_append hid _, fun hs => ?_, fun hbad => ?_⟩
        · rw [storedEntry_snoc] at hentry
          cases hstored : storedEntry evs with
          | some entry' =>
              rw [hstored] at hentry
              obtain rfl := Option.some.inj hentry
              obtain ⟨id', hid', heq⟩ := h.stored _ hstored
              exact ⟨id', messageId_append hid' _, heq⟩
          | none =>
              rw [hstored, Option.none_or, storesEntry] at hentry
              split at hentry
              · exact ⟨id, messageId_append hid _, (Option.some.inj hentry).symm⟩
              · exact absurd hentry (by simp)
        · rw [lastStatus_snoc]
          exact hcn hs
        · rcases Bool.and_eq_false_iff.mp hbad with hbad | hneg
          · exact hgood hbad
          · exact fun hs => hwell (decide_eq_true (not_le.mp (of_decide_eq_false hneg))) (hcn hs)
      · exact h.snoc rfl rfl (PhaseFacts.reply h.phase hcode hwell)
  | replied id status =>
      obtain rfl : o = .write .client (decimal id.toNat ++ [0]) := hallowed
      exact h.snoc rfl rfl (PhaseFacts.told h.phase hwell)
  | answered id =>
      have htalk : (Sending.answered id).Talkative := fun _ _ => by simp
      obtain ⟨hid, hcode, htold⟩ := hphase
      -- the sender has the answer, so the second acknowledgement may follow
      have hanswered : Answered evs := ⟨id, hid, hcode, htold⟩
      rcases hallowed with ho | ⟨u, ud, rfl⟩ | ⟨e, id', result, rfl⟩
      · exact h.talk htalk ho
      · exact h.snoc rfl rfl
          ⟨messageId_append hid _, List.mem_append_left _ hcode, List.mem_append_left _ htold⟩
      · refine ⟨forall_split_snoc.mpr ⟨h.acks, fun _ => hanswered⟩, fun entry hentry => ?_,
          messageId_append hid _, List.mem_append_left _ hcode, List.mem_append_left _ htold⟩
        rw [storedEntry_snoc] at hentry
        obtain ⟨id', hid', heq⟩ := h.stored entry (by simpa [storesEntry] using hentry)
        exact ⟨id', messageId_append hid' _, heq⟩
  | failed status =>
      have htalk : (Sending.failed status).Talkative := fun _ _ => by simp
      rcases hallowed with ho | ⟨hs, -⟩
      · exact h.talk htalk ho
      · exact absurd hs hphase
  | ended =>
      have htalk : Sending.ended.Talkative := fun _ _ => by simp
      exact h.talk htalk hallowed

end Steps

/-! ## Runs -/

/-- One step of a thread on a database as the server keeps it. -/
structure KeptStep (fs : FS) (o : SrvOp) (x : o.Ans) (fs' : FS) : Prop where
  step : SharedStep fs o x fs'
  schema : Schema fs

section Runs

variable {ι : Type} [DecidableEq ι] {fuel : ι → ℕ} {reqs : ι → Req}
  {t : List (ι × srvE.Event)}
  {ps : ι → Srv (Option Unit)} {fs₀ fs : FS} {k : ι}

/-- **An interleaving of requests** keeps the schema. -/
theorem interleave_kept (hs : Schema fs₀) (hfits : ∀ i, (reqs i).Fits)
    (h : Interleave SharedStep fs₀ (fun i => (reqs i).body (fuel i)) t fs ps) :
    Interleave KeptStep fs₀ (fun i => (reqs i).body (fuel i)) t fs ps := by
  have hmatch : ∀ i s s₂ (ph : Unit) o x s', (s₂ = s ∧ Schema s ∧ s.cwd = fs₀.cwd) →
      (confined (tableNames fs₀.cwd ((reqs i).table fs₀.cwd))).allowed ph o →
        SharedStep s o x s' →
      (confined (tableNames fs₀.cwd ((reqs i).table fs₀.cwd))).possible ph o x ∧
        ∃ s₂', KeptStep s₂ o x s₂' ∧ s₂' = s' ∧ Schema s' ∧ s'.cwd = fs₀.cwd := by
    rintro i s _ ⟨⟩ o x s' ⟨rfl, hs, hcwd⟩ hallowed hstep
    have hkept : KeptStep _ o x s' := ⟨hstep, hs⟩
    cases o with
    | db call =>
        rw [← hcwd] at hallowed
        obtain ⟨htouch, hposs⟩ := dbStep_confined hs hallowed hstep
        rw [hcwd] at hposs
        exact ⟨hposs, s', hkept, rfl, htouch.schema, htouch.cwd.trans hcwd⟩
    | _ =>
        obtain rfl : s' = _ := hstep
        exact ⟨trivial, _, hkept, rfl, hs, hcwd⟩
  obtain ⟨s, hrun, rfl, -⟩ := h.simulate
    (D := fun i => confined (tableNames fs₀.cwd ((reqs i).table fs₀.cwd))) hmatch
    (fun i => (hfits i).confined (fuel i)) ⟨rfl, hs, rfl⟩
  exact hrun

/-- The discipline that allows everything. -/
def anything : Discipline srvE Sending where
  allowed _ _ := True
  possible _ _ _ := True
  next ph _ _ := ph

/-- Every program obeys the discipline that asks for nothing. -/
theorem obeys_anything {α : Type} (p : Srv α) (ph : Sending) :
    p.Obeys anything (fun _ _ => True) ph := by
  induction p with
  | ret a => trivial
  | call o k ih => exact ⟨trivial, fun x _ => ih x⟩

/-- **The run lemma.** -/
theorem sendFacts_run {sender recipient content : Bytes}
    (hk : reqs k = .send sender recipient content)
    (h : Interleave KeptStep fs₀ (fun i => (reqs i).body (fuel i)) t fs ps)
    (hwell : SentWell (threadEvents k t)) :
    ∃ ph, SendFacts sender recipient content (threadEvents k t) ph := by
  have hobeys : ∀ i, ((reqs i).body (fuel i)).Obeys
      (if i = k then sending sender recipient content else anything) (fun _ _ => True)
        .starting := by
    intro i
    by_cases hi : i = k
    · rw [if_pos hi, hi, hk, Req.body, finished, obeys_bind]
      exact (obeys_sending sender recipient content).mono fun _ _ _ => trivial
    · rw [if_neg hi]
      exact obeys_anything _ _
  have hkeep : ∀ (t : List (ι × srvE.Event)) fs (phs : ι → Sending) i o x fs',
      (SentWell (threadEvents k t) →
        SendFacts sender recipient content (threadEvents k t) (phs k)) →
      (if i = k then sending sender recipient content else anything).allowed (phs i) o →
      KeptStep fs o x fs' →
      (if i = k then sending sender recipient content else anything).possible (phs i) o x ∧
        (SentWell (threadEvents k (t ++ [(i, ⟨o, x⟩)])) →
          SendFacts sender recipient content (threadEvents k (t ++ [(i, ⟨o, x⟩)]))
            (Function.update phs i
              ((if i = k then sending sender recipient content else anything).next (phs i)
                o x) k)) := by
    intro t fs phs i o x fs' hinv hallowed hstep
    by_cases hi : i = k
    · subst hi
      simp only [if_true] at hallowed ⊢
      constructor
      · -- a userdata entry is read as one
        cases o with
        | db call =>
            cases call with
            | ioOpUsrEnt e mode =>
                obtain ⟨u, d⟩ := e
                cases d with
                | user ud =>
                    cases mode with
                    | read => exact exists_user_of_read hstep.schema hstep.step
                    | _ => trivial
                | _ => trivial
            | _ => trivial
        | _ => trivial
      · intro hwell
        rw [threadEvents_snoc_self] at hwell ⊢
        rw [Function.update_self]
        obtain ⟨hbefore, hlast⟩ := forall_split_snoc.mp hwell
        exact (hinv hbefore).step hlast hallowed
    · rw [if_neg hi] at hallowed ⊢
      refine ⟨trivial, fun hwell => ?_⟩
      rw [threadEvents_snoc_of_ne hi] at hwell ⊢
      rw [Function.update_of_ne (Ne.symm hi)]
      exact hinv hwell
  obtain ⟨phs, hinv, -⟩ := h.invariant
    (D := fun i => if i = k then sending sender recipient content else anything)
    (I := fun t _ phs => SentWell (threadEvents k t) →
      SendFacts sender recipient content (threadEvents k t) (phs k)) hkeep hobeys
        fun _ => sendFacts_start
  exact ⟨phs k, hinv hwell⟩

/-- Nobody fetches the message that thread `k` has stored before the reply that carries its id
has been written. -/
def NotTooSoon (k : ι) (t : List (ι × srvE.Event)) : Prop :=
  ∀ before ev after, t = before ++ ev :: after →
    ∀ entry, storedEntry (threadEvents k before) = some entry →
    fetchedEntry ev.2 = some entry → Answered (threadEvents k before)

/-- The condition on the runs, step by step. -/
theorem notTooSoon_iff :
    NotTooSoon k t ↔ ∀ n, ∀ hn : n < t.length,
      ∀ entry ∈ storedEntry (threadEvents k (t.take n)),
      fetchedEntry t[n].2 = some entry → Answered (threadEvents k (t.take n)) :=
  forall_split_iff (P := fun before ev => ∀ entry, storedEntry (threadEvents k before) =
    some entry →
    fetchedEntry ev.2 = some entry → Answered (threadEvents k before))

instance (k : ι) (t : List (ι × srvE.Event)) : Decidable (NotTooSoon k t) :=
  decidable_of_iff _ notTooSoon_iff.symm

/-- The latest message that thread `j` has fetched is the one that thread `k` has stored. -/
def HasFetched (k j : ι) (t : List (ι × srvE.Event)) : Prop :=
  ∃ before ev after entry, t = before ++ (j, ev) :: after ∧
    storedEntry (threadEvents k before) = some entry ∧ fetchedEntry ev = some entry ∧
    ∀ ev' ∈ threadEvents j after, fetchedEntry ev' = none

/-- Every second acknowledgement of the message of thread `k`, its own or that of a thread that
carries the message, comes behind the reply that carries the id.  A stored message is the one
that was to be sent, under the id of the reply. -/
structure AckedAfterReply (sender recipient content : Bytes) (k : ι)
    (t : List (ι × srvE.Event)) : Prop where
  own : ∀ before ev after, threadEvents k t = before ++ ev :: after → isSecondAck ev = true →
    Answered before
  drain : ∀ before j ev after, t = before ++ (j, ev) :: after → isSecondAck ev = true →
    HasFetched k j before →
    Answered (threadEvents k before)
  stored : ∀ entry, storedEntry (threadEvents k t) = some entry →
    ∃ id, messageId (threadEvents k t) = some id ∧
    entry = ⟨recipient, .msg ⟨sender, id, content⟩⟩

/-- **First the reply, then the second acknowledgement.**  One thread handles `SEND`, any number
of others handle any requests.  In every state that is reached when nobody fetches the message
before the reply with its id has been written, and storing the message and replying do not fail
while the recipient counts as connected. -/
theorem acked_after_reply {sender recipient content : Bytes} (hreach : Reachable fs₀)
    (hfits : ∀ i, (reqs i).Fits) (hk : reqs k = .send sender recipient content)
    (h : Interleave SharedStep fs₀ (fun i => (reqs i).body (fuel i)) t fs ps)
    (hwell : SentWell (threadEvents k t)) (hsoon : NotTooSoon k t) :
    AckedAfterReply sender recipient content k t := by
  obtain ⟨ph, hfacts⟩ := sendFacts_run hk (interleave_kept hreach.schema hfits h) hwell
  refine ⟨hfacts.acks, ?_, hfacts.stored⟩
  rintro before j ev after rfl hack ⟨before', ev', after', entry, rfl, hstored, hfetched, -⟩
  have hanswered : Answered (threadEvents k before') := by
    apply hsoon before' (j, ev') (after' ++ (j, ev) :: after) ?_ entry hstored hfetched
    rw [List.append_assoc]
    rfl
  rw [threadEvents_append]
  exact hanswered.append _

end Runs

/-! ## A message and a drain -/

/-- Two registered users, of whom `a` is connected. -/
def connectedA : FS := (Req.connect (ascii "a") (ascii "7000")).run calm 1 registeredAB

/-- The database where `a` is connected is reachable. -/
theorem connectedA_reachable : Reachable connectedA := by
  obtain ⟨fs₀, reqs, hfresh, hrun⟩ := registeredAB_reachable
  have hfits : (Req.connect (ascii "a") (ascii "7000")).Fits := by decide
  have hends : (Req.connect (ascii "a") (ascii "7000")).Ends calm 1 registeredAB := by
    decide +kernel
  exact ⟨fs₀, _, hfresh, hrun.snoc (requestStep_run hfits hends)⟩

/-- One thread sends a message from `a` to `b`, the other one connects `b`. -/
def sendAndConnect : Bool → Req
  | true => .send (ascii "a") (ascii "b") (ascii "hi")
  | false => .connect (ascii "b") (ascii "7001")

/-- The two threads take the given turns. -/
def sendConnect (turns : List Bool) :
    List (Bool × srvE.Event) × FS × (Bool → Srv (Option Unit)) :=
  schedule (fun (_ : Unit) => sharedApply) (turns.map fun i => (i, ())) connectedA
    fun i => (sendAndConnect i).body 2

/-- A `SEND` and a `CONNECT` as an interleaving. -/
theorem interleave_sendConnect (turns : List Bool) :
    Interleave SharedStep connectedA (fun i => (sendAndConnect i).body 2) (sendConnect turns).1
      (sendConnect turns).2.1 (sendConnect turns).2.2 :=
  interleave_schedule (fun _ o fs => sharedStep_apply o fs) _ _ _

theorem sendAndConnect_fits (i : Bool) : (sendAndConnect i).Fits := by
  cases i <;> decide

/-- The sender is answered, then the recipient connects. -/
def answerFirst : List Bool := List.replicate 8 true ++ List.replicate 30 false

/-- The recipient connects when the message is stored. -/
def drainFirst : List Bool := List.replicate 6 true ++ List.replicate 30 false

/-- The run that answers first meets the conditions. -/
theorem answerFirst_keeps : SentWell (threadEvents true (sendConnect answerFirst).1) ∧
    NotTooSoon true (sendConnect answerFirst).1 := by
  decide +kernel

/-- The law at this run. -/
theorem acked_after_reply_answerFirst :
    AckedAfterReply (ascii "a") (ascii "b") (ascii "hi") true (sendConnect answerFirst).1 :=
  acked_after_reply connectedA_reachable sendAndConnect_fits rfl
    (interleave_sendConnect answerFirst)
    answerFirst_keeps.1 answerFirst_keeps.2

/-- The second acknowledgement, in front of it the fetching, and no reply so far. -/
theorem drainFirst_acks :
    ∃ hack : 30 < (sendConnect drainFirst).1.length,
      ∃ hfetch : 13 < ((sendConnect drainFirst).1.take 30).length,
        ((sendConnect drainFirst).1[30].1 = false ∧
            isSecondAck (sendConnect drainFirst).1[30].2 = true) ∧
        (((sendConnect drainFirst).1.take 30)[13].1 = false ∧
          storedEntry (threadEvents true (((sendConnect drainFirst).1.take 30).take 13)) =
            some ⟨ascii "b", .msg ⟨ascii "a", 1, ascii "hi"⟩⟩ ∧
          fetchedEntry ((sendConnect drainFirst).1.take 30)[13].2 =
            some ⟨ascii "b", .msg ⟨ascii "a", 1, ascii "hi"⟩⟩ ∧
          ∀ ev ∈ threadEvents false (((sendConnect drainFirst).1.take 30).drop 14),
            fetchedEntry ev = none) ∧
        ¬ Answered (threadEvents true ((sendConnect drainFirst).1.take 30)) := by
  decide +kernel

/-- **The second acknowledgement first.**  The message is stored, another thread drains it and
acknowledges it, and the sender has not been answered. -/
theorem not_acked_after_reply :
    ¬ ∀ (ι : Type) [DecidableEq ι] (fuel : ι → ℕ) (reqs : ι → Req) (k : ι)
      (s r c : Bytes) (fs₀ fs : FS)
        (t : List (ι × srvE.Event)) (ps : ι → Srv (Option Unit)), Reachable fs₀ →
          (∀ i, (reqs i).Fits) →
      reqs k = .send s r c →
        Interleave SharedStep fs₀ (fun i => (reqs i).body (fuel i)) t fs ps →
      AckedAfterReply s r c k t := by
  intro h
  have hacked := h Bool (fun _ => 2) sendAndConnect true _ _ _ connectedA _ _ _ connectedA_reachable
    sendAndConnect_fits rfl (interleave_sendConnect drainFirst)
  obtain ⟨hack, hfetch, ⟨hthread, hnote⟩, ⟨hdrain, hstored, hfetched, hlatest⟩,
      hunanswered⟩ := drainFirst_acks
  have hhas : HasFetched true false ((sendConnect drainFirst).1.take 30) :=
    ⟨_, _, _, _, cut_at_thread hfetch hdrain, hstored, hfetched, hlatest⟩
  exact hunanswered (hacked.drain _ _ _ _ (cut_at_thread hack hthread) hnote hhas)
