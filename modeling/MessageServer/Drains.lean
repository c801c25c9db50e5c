/-
# Concurrent drains

* `OneDrain`: what the threads and the table tell of one message;
* `drained_once`: as long as the drains stay apart, each message is sent and acknowledged
  at most once;
* `not_drained_once`: two threads that both fetch a message first.
-/
import MessageServer.DrainSteps

/-! ## The invariant -/

/-- What the threads and table `L` tell of message `n`. -/
structure OneDrain {ι : Type} [DecidableEq ι] (L : Location) (n : UInt32)
    (t : List (ι × srvE.Event)) (fs : FS)
    (phs : ι → Drain) : Prop where
  numbered : fs.Numbered L
  alone : ∀ i j, (phs i).msg = some n → (phs j).msg = some n → i = j
  unsent : ∀ i, phs i = .held n → sends n t = 0
  unacked : ∀ i, (phs i).msg = some n → acks n t = 0
  fresh : fs.get (msgFile L n.toNat) ≠ none → acks n t = 0 ∧
    ((∀ i, phs i ≠ .sent n) → sends n t = 0)
  gone : ∀ i, phs i = .dropped n → fs.get (msgFile L n.toNat) = none
  holds : ∀ i, phs i = .held n ∨ phs i = .sent n → holding i t = some n
  once : sends n t ≤ 1 ∧ acks n t ≤ 1

/-! ### Steps that fetch nothing -/

section Invariant

variable {ι : Type} [DecidableEq ι] {L : Location} {n : UInt32}
  {t : List (ι × srvE.Event)} {fs fs' : FS}
  {phs : ι → Drain} {i : ι} {ev : srvE.Event} {ph' : Drain}

/-- The invariant at the start. -/
theorem oneDrain_start (h : fs.Numbered L) : OneDrain L n ([] : List (ι × srvE.Event)) fs
    fun _ => .idle := by
  refine ⟨h, ?_, ?_, ?_, ?_, ?_, ?_, by simp [sends, acks]⟩ <;> simp [Drain.msg, sends, acks]

/-- Removals keep the files numbered. -/
theorem FS.Numbered.shrink (h : fs.Numbered L)
    (hshrink : ∀ q, fs.get q = none → fs'.get q = none) :
    fs'.Numbered L := by
  intro name node hnode id hid
  obtain ⟨node', hnode'⟩ : ∃ node', fs.get (L ++ [pendMsgsTable] ++ [name]) = some node' := by
    apply Option.ne_none_iff_exists'.mp
    intro hnone
    rw [hshrink _ hnone] at hnode
    exact absurd hnode (by simp)
  exact h name node' hnode' id hid

/-- A thread that was with message `n` before its step, or is not with it afterwards. -/
theorem update_msg (hph : ph'.msg = some n → ph' = phs i) {j : ι}
    (hj : (Function.update phs i ph' j).msg = some n) : Function.update phs i ph' j = phs j := by
  by_cases hne : j = i
  · subst hne
    rw [Function.update_self] at hj ⊢
    exact hph hj
  · exact Function.update_of_ne hne _ _

/-- A step that has nothing to do with message `n`. -/
theorem OneDrain.pass (h : OneDrain L n t fs phs) (hsend : isSend n ev = false)
    (hack : isAck n ev = false)
    (hshrink : ∀ q, fs.get q = none → fs'.get q = none) (hi : phs i = .sent n → ph' = .sent n)
    (hph : ph'.msg = some n → ph' = phs i ∧ holdsNext (some n) ev = some n) :
    OneDrain L n (t ++ [(i, ev)]) fs' (Function.update phs i ph') := by
  have hsends : sends n (t ++ [(i, ev)]) = sends n t := by
    rw [sends_snoc, hsend]
    rfl
  have hacks : acks n (t ++ [(i, ev)]) = acks n t := by
    rw [acks_snoc, hack]
    rfl
  have hsame : ∀ {j}, (Function.update phs i ph' j).msg = some n →
      Function.update phs i ph' j = phs j :=
    update_msg fun hmsg => (hph hmsg).1
  refine ⟨h.numbered.shrink hshrink, fun j k hj hk => ?_, fun j hj => ?_, fun j hj => ?_,
    fun hthere => ?_,
    fun j hj => ?_, fun j hj => ?_, by rw [hsends, hacks]; exact h.once⟩
  · rw [hsame hj] at hj
    rw [hsame hk] at hk
    exact h.alone j k hj hk
  · rw [hsame (by rw [hj]; rfl)] at hj
    rw [hsends]
    exact h.unsent j hj
  · rw [hsame hj] at hj
    rw [hacks]
    exact h.unacked j hj
  · rw [hsends, hacks]
    have hthere' : fs.get (msgFile L n.toNat) ≠ none := fun hnone => hthere (hshrink _ hnone)
    refine ⟨(h.fresh hthere').1, fun hnobody => (h.fresh hthere').2 fun j hj => hnobody j ?_⟩
    by_cases hne : j = i
    · subst hne
      rw [Function.update_self]
      exact hi hj
    · rw [Function.update_of_ne hne]
      exact hj
  · rw [hsame (by rw [hj]; rfl)] at hj
    exact hshrink _ (h.gone j hj)
  · have hmsg : (Function.update phs i ph' j).msg = some n := by
      rcases hj with hj | hj <;> rw [hj] <;> rfl
    rw [hsame hmsg] at hj
    by_cases hne : j = i
    · subst hne
      rw [Function.update_self] at hmsg
      rw [holding_self, h.holds j hj]
      exact (hph hmsg).2
    · rw [holding_of_ne (Ne.symm hne)]
      exact h.holds j hj

/-- Behind a step of a thread that is the only one with message `n`. -/
theorem update_alone (h : ∀ j, (phs j).msg = some n → j = i) {j : ι}
    (hj : (Function.update phs i ph' j).msg = some n) : j = i := by
  by_contra hne
  rw [Function.update_of_ne hne] at hj
  exact hne (h j hj)

/-! ### A message is fetched -/

/-- A thread fetches the message. -/
theorem OneDrain.take {e : Entry} {x : ℤ × Entry} (h : OneDrain L n t fs phs)
    (hi : phs i = .idle)
    (hx : x.1 = dbmsSuccess) (hid : x.2.msg.id = n) (hthere : fs.get (msgFile L n.toNat) ≠ none)
    (hapart : ∀ j, j ≠ i → holding j t ≠ some n) :
    OneDrain L n (t ++ [(i, ⟨.db (.getPendMsg e), x⟩)]) fs
      (Function.update phs i (.held n)) := by
  have hnobody : ∀ j, (phs j).msg ≠ some n := by
    intro j hj
    have hne : j ≠ i := by
      rintro rfl
      rw [hi] at hj
      exact absurd hj (by simp [Drain.msg])
    cases hph : phs j with
    | held id =>
        rw [hph] at hj
        obtain rfl := Option.some.inj hj
        exact hapart j hne (h.holds j (Or.inl hph))
    | sent id =>
        rw [hph] at hj
        obtain rfl := Option.some.inj hj
        exact hapart j hne (h.holds j (Or.inr hph))
    | dropped id =>
        rw [hph] at hj
        obtain rfl := Option.some.inj hj
        exact hthere (h.gone j hph)
    | _ =>
        rw [hph] at hj
        exact absurd hj (by simp [Drain.msg])
  -- the file is still there, so nobody has sent the message
  have hunsent : sends n t = 0 := by
    apply (h.fresh hthere).2
    intro j hj
    exact hnobody j (by rw [hj]; rfl)
  have hme : ∀ {j}, (Function.update phs i (.held n) j).msg = some n → j = i :=
    update_alone fun j hj => absurd hj (hnobody j)
  have hsends : sends n (t ++ [(i, ⟨.db (.getPendMsg e), x⟩)]) = sends n t := by
    rw [sends_snoc]
    rfl
  have hacks : acks n (t ++ [(i, ⟨.db (.getPendMsg e), x⟩)]) = acks n t := by
    rw [acks_snoc]
    rfl
  refine ⟨h.numbered, fun j k hj hk => (hme hj).trans (hme hk).symm,
    fun _ _ => by rw [hsends, hunsent],
    fun _ _ => by rw [hacks]; exact (h.fresh hthere).1, fun _ => ?_, fun j hj => ?_, fun j hj => ?_,
    by rw [hsends, hacks]; exact h.once⟩
  · rw [hsends, hacks]
    exact ⟨(h.fresh hthere).1, fun _ => hunsent⟩
  · obtain rfl := hme (by rw [hj]; rfl)
    rw [Function.update_self] at hj
    exact absurd hj (by simp)
  · obtain rfl : j = i := by
      apply hme
      rcases hj with hj | hj <;> rw [hj] <;> rfl
    rw [holding_self]
    show (if x.1 = dbmsSuccess then some x.2.msg.id else none) = some n
    rw [if_pos hx, hid]

/-! ### A message is sent -/

/-- The thread sends the message that it has fetched. -/
theorem OneDrain.send {e : Entry} {m : Message} (h : OneDrain L n t fs phs) (hi : phs i = .held n)
    (hid : m.id = n) :
    OneDrain L n (t ++ [(i, ⟨.note (.cltSendMessage e m 0), ()⟩)]) fs
      (Function.update phs i (.sent n)) := by
  have hmsg : (phs i).msg = some n := by
    rw [hi]
    rfl
  have hme : ∀ {j}, (Function.update phs i (.sent n) j).msg = some n → j = i :=
    update_alone fun j hj => h.alone j i hj hmsg
  have hsends : sends n (t ++ [(i, ⟨.note (.cltSendMessage e m 0), ()⟩)]) = 1 := by
    rw [sends_snoc, h.unsent i hi]
    show 0 + (if decide (m.id = n) = true then 1 else 0) = 1
    rw [decide_eq_true hid]
    rfl
  have hacks : acks n (t ++ [(i, ⟨.note (.cltSendMessage e m 0), ()⟩)]) = acks n t := by
    rw [acks_snoc]
    rfl
  have hunacked := h.unacked i hmsg
  refine ⟨h.numbered, fun j k hj hk => (hme hj).trans (hme hk).symm, fun j hj => ?_,
    fun _ _ => by
      rw [hacks, hunacked], fun _ => ⟨by rw [hacks, hunacked], fun hnobody => ?_⟩,
      fun j hj => ?_,
    fun j hj => ?_, by rw [hsends, hacks, hunacked]; omega⟩
  · obtain rfl := hme (by rw [hj]; rfl)
    rw [Function.update_self] at hj
    exact absurd hj (by simp)
  · exact absurd (Function.update_self i _ phs) (hnobody i)
  · obtain rfl := hme (by rw [hj]; rfl)
    rw [Function.update_self] at hj
    exact absurd hj (by simp)
  · obtain rfl : j = i := by
      apply hme
      rcases hj with hj | hj <;> rw [hj] <;> rfl
    rw [holding_self, h.holds j (Or.inl hi)]
    rfl

/-! ### A message is dropped and acknowledged -/

/-- The thread deletes the message that it has sent. -/
theorem OneDrain.drop {e : Entry} {x : ℤ × Entry} (h : OneDrain L n t fs phs)
    (hi : phs i = .sent n)
    (hshrink : ∀ q, fs.get q = none → fs'.get q = none)
    (hgone : fs'.get (msgFile L n.toNat) = none) :
    OneDrain L n (t ++ [(i, ⟨.db (.ioOpUsrEnt e .delete), x⟩)]) fs'
      (Function.update phs i (.dropped n)) := by
  have hmsg : (phs i).msg = some n := by
    rw [hi]
    rfl
  have hme : ∀ {j}, (Function.update phs i (.dropped n) j).msg = some n → j = i :=
    update_alone fun j hj => h.alone j i hj hmsg
  have hsends : sends n (t ++ [(i, ⟨.db (.ioOpUsrEnt e .delete), x⟩)]) = sends n t := by
    rw [sends_snoc]
    rfl
  have hacks : acks n (t ++ [(i, ⟨.db (.ioOpUsrEnt e .delete), x⟩)]) = acks n t := by
    rw [acks_snoc]
    rfl
  have hother : ∀ {j ph}, Function.update phs i (.dropped n) j = ph → ph.msg = some n →
      ph = .dropped n := by
    intro j ph hj hph
    obtain rfl := hme (by rw [hj, hph])
    rw [← hj, Function.update_self]
  refine ⟨h.numbered.shrink hshrink, fun j k hj hk => (hme hj).trans (hme hk).symm,
    fun j hj => absurd (hother hj rfl) (by simp), fun _ _ => by rw [hacks]; exact h.unacked i hmsg,
    fun hthere => absurd hgone hthere, fun _ _ => hgone, ?_, by rw [hsends, hacks]; exact h.once⟩
  rintro j (hj | hj)
  · exact absurd (hother hj rfl) (by simp)
  · exact absurd (hother hj rfl) (by simp)

/-- The thread acknowledges the message that it has deleted. -/
theorem OneDrain.ack {e : Entry} {result : ℤ} (h : OneDrain L n t fs phs)
    (hi : phs i = .dropped n) :
    OneDrain L n (t ++ [(i, ⟨.note (.cltSendMessAck e n result), ()⟩)]) fs
      (Function.update phs i .idle) := by
  have hmsg : (phs i).msg = some n := by
    rw [hi]
    rfl
  have hnobody : ∀ j, (Function.update phs i .idle j).msg ≠ some n := by
    intro j hj
    obtain rfl := update_alone (fun j hj => h.alone j i hj hmsg) hj
    rw [Function.update_self] at hj
    exact absurd hj (by simp [Drain.msg])
  have hsends : sends n (t ++ [(i, ⟨.note (.cltSendMessAck e n result), ()⟩)]) = sends n t := by
    rw [sends_snoc]
    rfl
  have hacks : acks n (t ++ [(i, ⟨.note (.cltSendMessAck e n result), ()⟩)]) = 1 := by
    rw [acks_snoc, h.unacked i hmsg]
    show 0 + (if decide (n = n) = true then 1 else 0) = 1
    rw [decide_eq_true rfl]
    rfl
  refine ⟨h.numbered, fun j k hj => absurd hj (hnobody j),
    fun j hj => absurd (by rw [hj]; rfl) (hnobody j),
    fun j hj => absurd hj (hnobody j), fun hthere => absurd (h.gone i hi) hthere,
    fun j hj => absurd (by rw [hj]; rfl) (hnobody j), ?_, by
      rw [hsends, hacks]; exact ⟨h.once.1, le_rfl⟩⟩
  rintro j (hj | hj)
  · exact absurd (by rw [hj]; rfl) (hnobody j)
  · exact absurd (by rw [hj]; rfl) (hnobody j)

/-- **The step lemma.** -/
theorem OneDrain.step {cwd : Location} {o : SrvOp} {x : o.Ans} (h : OneDrain L n t fs phs)
    (hsucceeds : Succeeds (t ++ [(i, ⟨o, x⟩)])) (hapart : DrainsApart (t ++ [(i, ⟨o, x⟩)]))
    (hallowed : draining.allowed (phs i) o) (hstep : ConfinedStep cwd L fs o x fs') :
    OneDrain L n (t ++ [(i, ⟨o, x⟩)]) fs'
      (Function.update phs i (draining.next (phs i) o x)) := by
  have hlast : ∀ ev : srvE.Event, (i, ev) ∈ t ++ [(i, ev)] :=
    fun ev => List.mem_append_right _ (List.mem_singleton.mpr rfl)
  -- a step that has nothing to do with any message
  have hplain : Plain o → (phs i).Free →
      OneDrain L n (t ++ [(i, ⟨o, x⟩)]) fs'
        (Function.update phs i (draining.next (phs i) o x)) := by
    intro ho hfree
    rw [(hfree.plain _ ho).2]
    have hquiet : isSend n ⟨o, x⟩ = false ∧ isAck n ⟨o, x⟩ = false ∧
        holdsNext (some n) ⟨o, x⟩ = some n := by
      cases o with
      | db call =>
          cases call with
          | ioOpUsrEnt e mode =>
              cases mode with
              | read => exact ⟨rfl, rfl, rfl⟩
              | modify => exact ⟨rfl, rfl, rfl⟩
              | _ => exact ho.elim
          | _ => exact ho.elim
      | note n => exact ho.elim
      | _ => exact ⟨rfl, rfl, rfl⟩
    exact h.pass hquiet.1 hquiet.2.1 (fun q hq => hstep.shrinks (Or.inl ho) hq)
      (fun hi => absurd hi (hfree n)) fun _ => ⟨rfl, hquiet.2.2⟩
  cases hph : phs i with
  | idle =>
      rw [hph] at hallowed hplain
      rcases hallowed with ho | ⟨e, rfl⟩
      · exact hplain ho fun _ => by simp
      obtain rfl : fs' = fs := by
        obtain ⟨u, m, rfl, -⟩ := hstep.allowed
        obtain ⟨c, hexec, -⟩ := hstep.step
        exact (exec_getPendMsg hstep.schema.tree hexec).1
      show OneDrain L n _ fs' (Function.update phs i (if x.1 = dbmsSuccess then _ else _))
      split
      · rename_i hx
        by_cases hid : x.2.msg.id = n
        · have hthere := hstep.fetch h.numbered hx
          rw [hid] at hthere ⊢
          refine h.take hph hx hid hthere fun j hj => hapart t i _ [] n rfl ?_ j hj
          show (if x.1 = dbmsSuccess then some x.2.msg.id else none) = some n
          rw [if_pos hx, hid]
        · refine h.pass rfl rfl (fun _ hq => hq) (fun hi => ?_) fun hmsg =>
            absurd (Option.some.inj hmsg) hid
          exact absurd (hph.symm.trans hi) (by simp)
      · refine h.pass rfl rfl (fun _ hq => hq) (fun hi => ?_) fun hmsg =>
          absurd hmsg (by simp [Drain.msg])
        exact absurd (hph.symm.trans hi) (by simp)
  | held id =>
      rw [hph] at hallowed hplain
      rcases hallowed with ho | ⟨e, m, result, rfl, hid⟩
      · exact hplain ho fun _ => by simp
      obtain rfl : result = 0 := hsucceeds.2 i e m result (hlast _)
      obtain rfl : fs' = fs := hstep.step
      show OneDrain L n _ fs' (Function.update phs i (.sent id))
      by_cases hn : id = n
      · subst hn
        exact h.send hph hid
      · refine h.pass (decide_eq_false (by rwa [hid])) rfl (fun _ hq => hq) (fun hi => ?_)
          fun hmsg => absurd (Option.some.inj hmsg) hn
        exact absurd (hph.symm.trans hi) (by simp)
  | sent id =>
      rw [hph] at hallowed
      obtain ⟨e, rfl, hid⟩ := hallowed
      have hshrink : ∀ q, fs.get q = none → fs'.get q = none :=
        fun q hq => hstep.shrinks (Or.inr (Or.inr (Or.inl ⟨e, rfl⟩))) hq
      show OneDrain L n _ fs' (Function.update phs i (.dropped id))
      by_cases hn : id = n
      · subst hn
        have hgone := hstep.drop (hsucceeds.1 i e x (hlast _))
        rw [hid] at hgone
        exact h.drop hph hshrink hgone
      · refine h.pass rfl rfl hshrink (fun hi => ?_) fun hmsg => absurd (Option.some.inj hmsg) hn
        exact absurd (Drain.sent.inj (hph.symm.trans hi)) hn
  | dropped id =>
      rw [hph] at hallowed hplain
      rcases hallowed with ho | ⟨e, result, rfl⟩
      · exact hplain ho fun _ => by simp
      obtain rfl : fs' = fs := hstep.step
      show OneDrain L n _ fs' (Function.update phs i .idle)
      by_cases hn : id = n
      · subst hn
        exact h.ack hph
      · refine h.pass rfl (decide_eq_false hn) (fun _ hq => hq) (fun hi => ?_)
          fun hmsg => absurd hmsg (by simp [Drain.msg])
        exact absurd (hph.symm.trans hi) (by simp)
  | ended =>
      rw [hph] at hallowed hplain
      exact hplain hallowed fun _ => by simp

end Invariant

/-! ## Runs -/

section Runs

variable {ι : Type} [DecidableEq ι] {fuel : ι → ℕ} {u : Bytes} {port : ι → Bytes}
  {t : List (ι × srvE.Event)} {ps : ι → Srv (Option Unit)}

/-- **The run lemma.** -/
theorem oneDrain_run {cwd L : Location} {fs₀ fs : FS} (hnum : fs₀.Numbered L) (n : UInt32)
    (h : Interleave (ConfinedStep cwd L) fs₀ (fun i => srvConnectBody (fuel i) u (port i)) t fs
        ps)
    (hsucceeds : Succeeds t) (hapart : DrainsApart t) : ∃ phs, OneDrain L n t fs phs := by
  have hkeep : ∀ (t : List (ι × srvE.Event)) fs phs i o x fs',
      (Succeeds t → DrainsApart t → OneDrain L n t fs phs) →
      draining.allowed (phs i) o → ConfinedStep cwd L fs o x fs' →
      True ∧ (Succeeds (t ++ [(i, ⟨o, x⟩)]) → DrainsApart (t ++ [(i, ⟨o, x⟩)]) →
        OneDrain L n (t ++ [(i, ⟨o, x⟩)]) fs'
          (Function.update phs i (draining.next (phs i) o x))) := by
    intro t fs phs i o x fs' hinv hallowed hstep
    exact ⟨trivial, fun hsucceeds hapart =>
      (hinv hsucceeds.of_append hapart.of_append).step hsucceeds hapart hallowed hstep⟩
  obtain ⟨phs, hinv, -⟩ := h.invariant (D := fun _ => draining)
    (I := fun t fs phs => Succeeds t → DrainsApart t → OneDrain L n t fs phs) hkeep
    (fun i => obeys_draining (fuel i) u (port i)) fun _ _ => oneDrain_start hnum
  exact ⟨phs, hinv hsucceeds hapart⟩

/-- **Every message once.**  Any number of threads handle `CONNECT u`, all deletions and
sendings succeed.  In every state that is reached when no thread fetches a message that another
one has fetched and not yet deleted, each message is sent and acknowledged at most once. -/
theorem drained_once {fs₀ fs : FS} (hreach : Reachable fs₀) (hu : FitsBuf maxStrSize u)
    (h : Interleave SharedStep fs₀ (fun i => srvConnectBody (fuel i) u (port i)) t fs ps)
    (hsucceeds : Succeeds t) (hnum : fs₀.Numbered (fs₀.table u)) (hapart : DrainsApart t)
    (n : UInt32) :
    sends n t ≤ 1 ∧ acks n t ≤ 1 := by
  have hname : NameOf fs₀.cwd (fs₀.table u) u := ⟨hu, rfl⟩
  have hrun := interleave_confined hreach.schema hreach.labelled
    (fun i => obeys_srvConnectBody (fuel i) (C := tableNames fs₀.cwd (fs₀.table u))
      hname (port i)) h
  obtain ⟨phs, hinv⟩ := oneDrain_run hnum n hrun hsucceeds hapart
  exact hinv.once

end Runs

/-! ## Two drains -/

/-- Two threads connect `b`, for whom a message from `a` waits, and take the given turns. -/
def twoDrain (turns : List Bool) :
    List (Bool × srvE.Event) × FS × (Bool → Srv (Option Unit)) :=
  schedule (fun (_ : Unit) => sharedApply) (turns.map fun i => (i, ())) pendingAB
    fun _ => srvConnectBody 2 (ascii "b") (ascii "7000")

/-- The two drains as an interleaving. -/
theorem interleave_twoDrain (turns : List Bool) :
    Interleave SharedStep pendingAB (fun _ => srvConnectBody 2 (ascii "b") (ascii "7000"))
      (twoDrain turns).1 (twoDrain turns).2.1 (twoDrain turns).2.2 :=
  interleave_schedule (fun _ o fs => sharedStep_apply o fs) _ _ _

/-- One thread drains, then the other. -/
def drainInTurn : List Bool := List.replicate 26 true ++ List.replicate 6 false

/-- Both threads fetch the message and send it, before one of them deletes it. -/
def bothFetch : List Bool :=
  List.replicate 8 true ++ List.replicate 15 false ++ List.replicate 9 true

/-- Whether a deletion or a sending succeeds. -/
def worked : srvE.Event → Bool
  | ⟨.db (.ioOpUsrEnt _ .delete), x⟩ => decide (0 ≤ x.1)
  | ⟨.note (.cltSendMessage _ _ result), _⟩ => decide (result = 0)
  | _ => true

/-- A run succeeds when each of its steps has worked. -/
theorem succeeds_of_worked {ι : Type} {t : List (ι × srvE.Event)}
    (h : t.all (fun ev => worked ev.2) = true) :
    Succeeds t :=
  ⟨fun _ _ _ hmem => of_decide_eq_true (List.all_eq_true.mp h _ hmem),
    fun _ _ _ _ hmem => of_decide_eq_true (List.all_eq_true.mp h _ hmem)⟩

/-- The one message that waits is filed under its id. -/
theorem pendingAB_numbered : pendingAB.Numbered (pendingAB.table (ascii "b")) := by
  intro name n hn id hid
  have hall : ∀ d ∈ pendingAB.children (pendingAB.table (ascii "b") ++ [pendMsgsTable]),
      d.name = decimal (1 : UInt32).toNat := by decide +kernel
  obtain ⟨d, hd, rfl⟩ :
      ∃ d ∈ pendingAB.children (pendingAB.table (ascii "b") ++ [pendMsgsTable]),
      d.name = name := ⟨⟨name, _⟩, FS.mem_children.mpr ⟨n, hn, rfl⟩, rfl⟩
  exact ⟨1, hall d hd⟩

/-- Drains in turn meet the condition. -/
theorem drainInTurn_keeps : (twoDrain drainInTurn).1.all (fun ev => worked ev.2) = true ∧
    DrainsApart (twoDrain drainInTurn).1 := by
  decide +kernel

/-- The law at drains in turn. -/
theorem drained_once_drainInTurn :
    sends 1 (twoDrain drainInTurn).1 ≤ 1 ∧ acks 1 (twoDrain drainInTurn).1 ≤ 1 :=
  drained_once pendingAB_reachable (by decide) (interleave_twoDrain drainInTurn)
    (succeeds_of_worked drainInTurn_keeps.1) pendingAB_numbered drainInTurn_keeps.2 1

/-- Nothing fails, and the message is sent twice. -/
theorem bothFetch_sends : (twoDrain bothFetch).1.all (fun ev => worked ev.2) = true ∧
    sends 1 (twoDrain bothFetch).1 = 2 := by
  decide +kernel

/-- **A message twice.**  One thread fetches the message; the other one, which is answered
that `b` is connected already, fetches it too; both send it. -/
theorem not_drained_once :
    ¬ ∀ (ι : Type) [DecidableEq ι] (fuel : ι → ℕ) (u : Bytes) (port : ι → Bytes)
      (fs₀ fs : FS)
        (t : List (ι × srvE.Event)) (ps : ι → Srv (Option Unit)), Reachable fs₀ →
          FitsBuf maxStrSize u →
      Interleave SharedStep fs₀ (fun i => srvConnectBody (fuel i) u (port i)) t fs ps →
        Succeeds t →
      ∀ n, sends n t ≤ 1 ∧ acks n t ≤ 1 := by
  intro h
  have honce :=
    h Bool (fun _ => 2) (ascii "b") (fun _ => ascii "7000") pendingAB _ _ _ pendingAB_reachable
    (by decide) (interleave_twoDrain bothFetch) (succeeds_of_worked bothFetch_sends.1) 1
  rw [bothFetch_sends.2] at honce
  exact absurd honce.1 (by decide)
