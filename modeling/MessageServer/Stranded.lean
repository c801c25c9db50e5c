/-
# Pending messages of a connected user

* `FS.Stands`: the database is as the status and the steps tell;
* `none_stranded`: when no request is in progress, a connected user has no pending message, as
  long as every step that may leave one behind falls while a drain is still to come;
* `not_none_stranded`: a message that is stored behind the drain.
-/
import MessageServer.Standings

/-! ## The status and the messages on the database -/

/-- The database is as the status and the waiting say. -/
structure FS.Stands (fs : FS) (u : Bytes) (s : Standing) : Prop where
  record : ∃ e, fs.Records u (some e) ∧ e.user.status = s.status
  clear : s.waiting = false → fs.Mailless u

section Database

variable {cwd : Location} {fs fs' : FS} {u : Bytes} {s : Standing} {o : SrvOp} {x : o.Ans}

/-- No message waits when no name in the directory is taken. -/
theorem FS.mailless_iff :
    fs.Mailless u ↔ ∀ name, fs.get (fs.table u ++ [pendMsgsTable] ++ [name]) = none := by
  rw [FS.Mailless, List.eq_nil_iff_forall_not_mem]
  constructor
  · intro h name
    cases hget : fs.get (fs.table u ++ [pendMsgsTable] ++ [name]) with
    | none => rfl
    | some n => exact absurd (FS.mem_children.mpr ⟨n, hget, rfl⟩) (h ⟨name, _⟩)
  · intro h d hd
    obtain ⟨n, hn, -⟩ := FS.mem_children.mp hd
    rw [h d.name] at hn
    cases hn

/-- What makes nothing new leaves no message behind. -/
theorem FS.Mailless.shrink (h : fs.Mailless u) (hcwd : fs'.cwd = fs.cwd)
    (hshrink : ∀ q, fs.get q = none → fs'.get q = none) : fs'.Mailless u := by
  rw [FS.mailless_iff] at h ⊢
  intro name
  apply hshrink
  rw [FS.table, hcwd]
  exact h name

/-- A step of a thread that makes no table, removes none and stores no message makes nothing new. -/
theorem ConfinedStep.none_of_none {L : Location} (h : ConfinedStep cwd L fs o x fs')
    (ho : KeepsTables o)
    (hcreate : ∀ e, o ≠ .db (.ioOpUsrEnt e .create)) {q : Location} (hq : fs.get q = none) :
    fs'.get q = none := by
  cases o with
  | db call =>
      cases call with
      | userExists v =>
          obtain ⟨t, hexec, -⟩ := h.step
          rw [(exec_userExists hexec).1, hq]
      | getPendMsg e => exact h.shrinks (Or.inr (Or.inl ⟨e, rfl⟩)) hq
      | ioOpUsrEnt e mode =>
          cases mode with
          | create => exact absurd rfl (hcreate e)
          | delete => exact h.shrinks (Or.inr (Or.inr (Or.inl ⟨e, rfl⟩))) hq
          | overwrite =>
              obtain ⟨t, hexec, -⟩ := h.step
              rw [exec_ioOp_overwrite hexec, hq]
          | read => exact h.shrinks (Or.inl trivial) hq
          | modify => exact h.modify hq
      | _ => exact ho.elim
  | note n => exact h.shrinks (Or.inr (Or.inr (Or.inr ⟨n, rfl⟩))) hq
  | _ => exact h.shrinks (Or.inl trivial) hq

/-- The record behind a step. -/
theorem ConfinedStep.status (h : ConfinedStep cwd (lexical cwd (userTablePath u)) fs o x fs')
    (ho : KeepsTables o)
    (hworks : works ⟨o, x⟩ = true)
    (hrecord : ∃ e, fs.Records u (some e) ∧ e.user.status = s.status) :
    ∃ e, fs'.Records u (some e) ∧ e.user.status = (s.next ⟨o, x⟩).status := by
  obtain rfl := h.root
  obtain ⟨e, hrec, hstatus⟩ := hrecord
  cases o with
  | db call =>
      obtain ⟨r, hstep, hrec'⟩ := records_call hrec h.allowed h.step
      have hsame : r = some e → (s.next ⟨.db call, x⟩).status = s.status →
          ∃ e, fs'.Records u (some e) ∧ e.user.status = (s.next ⟨.db call, x⟩).status := by
        rintro rfl heq
        exact ⟨e, hrec', hstatus.trans heq.symm⟩
      cases call with
      | ioOpUsrEnt e' mode =>
          cases mode with
          | modify =>
              have hok : 0 ≤ x.1 := of_decide_eq_true hworks
              rcases hstep with ⟨-, rfl⟩ | ⟨hneg, -⟩
              · exact ⟨e', hrec', rfl⟩
              · omega
          | read => exact hsame hstep.1 rfl
          | _ => exact hsame hstep rfl
      | creatUsrTbl _ => exact ho.elim
      | delUsrTbl _ => exact ho.elim
      | _ => exact hsame hstep rfl
  | _ =>
      obtain rfl : fs' = fs := h.step
      exact ⟨e, hrec, hstatus⟩

/-- A search that finds no message. -/
theorem ConfinedStep.mailless (h : ConfinedStep cwd (lexical cwd (userTablePath u)) fs o x fs')
    (hnone : findsNone ⟨o, x⟩ = true) : fs'.Mailless u := by
  obtain rfl := h.root
  cases o with
  | db call =>
      cases call with
      | getPendMsg e =>
          have hcode : x.1 = dbmsErrNotExists := of_decide_eq_true hnone
          obtain ⟨v, m, rfl, hv⟩ := h.allowed
          obtain ⟨t, hexec, -⟩ := h.step
          obtain rfl : fs' = fs := (exec_getPendMsg h.schema.tree hexec).1
          rcases exec_getPendMsg_picked h.schema.tree hexec with ⟨-, -, hempty⟩ |
            ⟨id, -, hx, -⟩
          · obtain ⟨P, hP, hnil⟩ := hempty hcode
            obtain ⟨L, hL, rfl⟩ := locate_pendTablePath.mp hP.1
            rwa [hL.nameOf rfl hv] at hnil
          · rw [hx] at hcode
            exact absurd hcode (show dbmsSuccess ≠ dbmsErrNotExists by decide)
      | _ => cases hnone
  | _ => cases hnone

/-- Where no message waits after a step, none did before, and the step has stored none. -/
theorem Standing.waiting_of_next {s : Standing} {ev : srvE.Event} (hnone : findsNone ev = false)
    (hnext : (s.next ev).waiting = false) :
    s.waiting = false ∧ ∀ e, ev.1 ≠ .db (.ioOpUsrEnt e .create) := by
  obtain ⟨o, x⟩ := ev
  cases o with
  | db call =>
      cases call with
      | ioOpUsrEnt e mode =>
          cases mode with
          | create => cases hnext
          | _ => exact ⟨hnext, nofun⟩
      | getPendMsg e =>
          have hsome : ¬ x.1 = dbmsErrNotExists := of_decide_eq_false hnone
          have hwaiting : (s.waiting && decide (x.1 ≠ dbmsErrNotExists)) = false := hnext
          rw [decide_eq_true hsome, Bool.and_true] at hwaiting
          exact ⟨hwaiting, nofun⟩
      | _ => exact ⟨hnext, nofun⟩
  | _ => exact ⟨hnext, nofun⟩

/-- **The step lemma** for the database. -/
theorem FS.Stands.step (h : fs.Stands u s)
    (hstep : ConfinedStep cwd (lexical cwd (userTablePath u)) fs o x fs')
    (ho : KeepsTables o) (hworks : works ⟨o, x⟩ = true) : fs'.Stands u (s.next ⟨o, x⟩) := by
  constructor
  · exact hstep.status ho hworks h.record
  · intro hwaiting
    cases hnone : findsNone ⟨o, x⟩ with
    | true => exact hstep.mailless hnone
    | false =>
        obtain ⟨hbefore, hcreate⟩ := Standing.waiting_of_next hnone hwaiting
        have hcwd : fs'.cwd = fs.cwd := by
          cases o with
          | db call =>
              have hallowed := hstep.allowed
              rw [← hstep.root] at hallowed
              exact (dbStep_confined hstep.schema hallowed hstep.step).1.cwd
          | _ => rw [show fs' = fs from hstep.step]
        exact (h.clear hbefore).shrink hcwd fun q hq => hstep.none_of_none ho hcreate hq

end Database

/-! ## Runs -/

section Runs

variable {ι : Type} [DecidableEq ι] {fuel : ι → ℕ} {reqs : ι → Req} {u : Bytes}
  {t : List (ι × srvE.Event)}
  {ps : ι → Srv (Option Unit)} {fs₀ fs : FS} {s : Standing}

/-- What the threads and the database tell. -/
structure Watched (reqs : ι → Req) (u : Bytes) (s : Standing)
    (t : List (ι × srvE.Event)) (fs : FS)
    (phs : ι → Emptying) : Prop where
  stages : ∀ i, phs i = (reqs i).stage (threadEvents i t)
  stands : fs.Stands u (standing s t)
  tended : DrainToCome reqs s t → Tended reqs s t

/-- **The step lemma.** -/
theorem Watched.step {cwd : Location} {phs : ι → Emptying} {i : ι} {o : SrvOp}
    {x : o.Ans} {fs' : FS}
    (h : Watched reqs u s t fs phs) (hallowed : emptying.allowed (phs i) o)
    (hstep : ConfinedStep cwd (lexical cwd (userTablePath u)) fs o x fs')
    (hworks : works ⟨o, x⟩ = true) :
    Watched reqs u s (t ++ [(i, ⟨o, x⟩)]) fs'
      (Function.update phs i (emptying.next (phs i) o x)) := by
  have hstage := h.stages i
  constructor
  · intro j
    by_cases hj : j = i
    · subst hj
      rw [hstage] at hallowed
      rw [Function.update_self, threadEvents_snoc_self, hstage]
      exact Req.stage_snoc x hallowed
    · rw [Function.update_of_ne hj, threadEvents_snoc_of_ne (Ne.symm hj)]
      exact h.stages j
  · rw [standing_snoc]
    exact h.stands.step hstep hallowed.2 hworks
  · intro hcome
    apply (h.tended hcome.of_append).step hcome
    -- a thread that is at its end takes no step
    intro hconnects
    rw [hstage, Req.stage, if_pos hconnects] at hallowed
    by_contra hsome
    rw [if_pos (Bool.not_eq_false _ ▸ hsome)] at hallowed
    exact hallowed.1 rfl

/-- **The run lemma.** -/
theorem watched_run {cwd : Location} (hconcerns : ∀ i, (reqs i).Concerns u)
    (hstands : fs₀.Stands u s)
    (h0 : s.status = statusCn → s.waiting = false)
    (h : Interleave (fun fs o x fs' => ConfinedStep cwd (lexical cwd (userTablePath u))
        fs o x fs' ∧
      works ⟨o, x⟩ = true) fs₀ (fun i => (reqs i).body (fuel i)) t fs ps) :
    ∃ phs, Watched reqs u s t fs phs ∧ ∀ i, (ps i).Obeys emptying Emptied (phs i) := by
  apply h.invariant (D := fun _ => emptying) (I := Watched reqs u s)
    (fun t fs phs i o x fs' hinv hallowed hstep => ⟨hstep.2,
      hinv.step hallowed hstep.1 hstep.2⟩)
    (fun i => (hconcerns i).obeys (fuel i))
  constructor
  · exact fun i => rfl
  · exact hstands
  · intro _ hstatus hwaiting
    rw [show (standing s []).waiting = s.waiting from rfl, h0 hstatus] at hwaiting
    cases hwaiting

/-- **No pending message of a connected user.**  Any number of threads handle `SEND`, `CONNECT` and
`DISCONNECT` for `u`, who is registered, and every step succeeds.  In every state that is reached in
which no request is in progress and `u` is connected, no message waits for `u`, as long as every
step that may leave a message behind has fallen while a drain was still to come. -/
theorem none_stranded (hreach : Reachable fs₀) (hfits : ∀ i, (reqs i).Fits)
    (hconcerns : ∀ i, (reqs i).Concerns u)
    {v : Bytes} (hv : FitsBuf maxStrSize v) {ud : Userdata}
    (hstored : fs₀.Stores u ⟨v, .user ud⟩)
    (h0 : fs₀.Connected u → fs₀.Mailless u)
    (h : Interleave SharedStep fs₀ (fun i => (reqs i).body (fuel i)) t fs ps)
    (hworks : ∀ e ∈ t, works e.2 = true)
    (hcome : DrainToCome reqs ⟨ud.status, !decide (fs₀.Mailless u)⟩ t) (hidle : AllIdle t ps)
    (hconnected : fs.Connected u) : fs.Mailless u := by
  have htable : ∀ i, (reqs i).table fs₀.cwd = fs₀.table u := by
    intro i
    have hi := hconcerns i
    cases hreq : reqs i with
    | connect w port =>
        rw [hreq] at hi
        obtain rfl : w = u := hi
        rfl
    | disconnect w =>
        rw [hreq] at hi
        obtain rfl : w = u := hi
        rfl
    | send s r c =>
        rw [hreq] at hi
        obtain rfl : r = u := hi
        rfl
    | _ =>
        rw [hreq] at hi
        exact hi.elim
  have hconfined : ∀ i, ((reqs i).body (fuel i)).Obeys
      (confined (tableNames fs₀.cwd (fs₀.table u)))
      (fun _ _ => True) () := by
    intro i
    rw [← htable i]
    exact (hfits i).confined (fuel i)
  have hrun := (interleave_confined hreach.schema hreach.labelled hconfined h).restrict
    (P := fun ev => works ev = true) hworks
  have hstands : fs₀.Stands u ⟨ud.status, !decide (fs₀.Mailless u)⟩ := by
    constructor
    · exact ⟨_, hstored.records hreach.schema hv, rfl⟩
    · intro (hclear : (!decide (fs₀.Mailless u)) = false)
      rw [Bool.not_eq_false', decide_eq_true_eq] at hclear
      exact hclear
  have hstart : ud.status = statusCn → (!decide (fs₀.Mailless u)) = false := by
    intro hstatus
    rw [Bool.not_eq_false', decide_eq_true_eq]
    exact h0 ⟨v, ud, hv, hstored, hstatus⟩
  obtain ⟨phs, hwatched, hobeys⟩ := watched_run hconcerns hstands hstart hrun
  -- the status that has been written is the one in the record
  obtain ⟨e, hrec, hstatus⟩ := hwatched.stands.record
  obtain ⟨w, ud', hw, hstores, hcn⟩ := hconnected
  obtain rfl : e = ⟨w, .user ud'⟩ := by
    obtain ⟨w', ud'', rfl, hw', -⟩ := hrec.own e rfl
    have hsame := hrec.stores.symm.trans hstores
    exact image_inj (fits_user hw'.1 ud'') (fits_user hw ud')
      (Node.file.inj (Option.some.inj hsame))
  apply hwatched.stands.clear
  by_contra hwaiting
  obtain ⟨j, hconnects, hbegun, hnone⟩ := hwatched.tended hcome (hstatus.symm.trans hcn)
    (Bool.not_eq_false _ ▸ hwaiting)
  -- the drain that is to come is in progress
  have hended := (hidle j).resolve_left hbegun
  have hj := hobeys j
  rw [hended, hwatched.stages j, Req.stage, if_pos hconnects, hnone] at hj
  exact hj nofun rfl

end Runs

/-! ## A message behind the drain -/

/-- Both requests work for `b`. -/
theorem sendAndConnect_concerns (i : Bool) : (sendAndConnect i).Concerns (ascii "b") := by
  cases i <;> rfl

instance (fs : FS) (u : Bytes) (e : Entry) : Decidable (fs.Stores u e) :=
  inferInstanceAs (Decidable (fs.get (fs.table u ++ [userdataEntry]) = some (.file e.image)))

/-- The record of `b` behind the message and the `CONNECT`. -/
def connectedB7001 : Userdata := { (default : Userdata).connected 0 7001 with lastMsgId := 1 }

/-- Both threads have come to their ends, every step has succeeded, and `b` is connected. -/
def BothEnd (turns : List Bool) : Prop :=
  (∀ e ∈ (sendConnect turns).1, works e.2 = true) ∧
    (∀ i, ((sendConnect turns).2.2 i).returned = some (some ())) ∧
    (sendConnect turns).2.1.Stores (ascii "b") ⟨ascii "b", .user connectedB7001⟩

instance (turns : List Bool) : Decidable (BothEnd turns) :=
  inferInstanceAs (Decidable (_ ∧ _ ∧ _))

/-- At the end nothing is in progress. -/
theorem BothEnd.idle {turns : List Bool} (h : BothEnd turns) :
    AllIdle (sendConnect turns).1 (sendConnect turns).2.2 :=
  fun i => Or.inr (Prog.eq_ret_of_returned (h.2.1 i))

/-- At the end `b` is connected. -/
theorem BothEnd.connected {turns : List Bool} (h : BothEnd turns) :
    (sendConnect turns).2.1.Connected (ascii "b") :=
  ⟨ascii "b", connectedB7001, by decide, h.2.2, rfl⟩

/-- At the start `b` is registered, and no message waits. -/
theorem connectedA_b : connectedA.Stores (ascii "b") ⟨ascii "b", .user default⟩ ∧
    connectedA.Mailless (ascii "b") := by
  decide +kernel

/-- In this order the message is stored before the drain has come to its end. -/
theorem answerFirst_drains : BothEnd answerFirst ∧
    DrainToCome sendAndConnect ⟨0, !decide (connectedA.Mailless (ascii "b"))⟩
      (sendConnect answerFirst).1 := by
  decide +kernel

/-- No message waits at its end. -/
theorem none_stranded_answerFirst : (sendConnect answerFirst).2.1.Mailless (ascii "b") :=
  none_stranded connectedA_reachable sendAndConnect_fits sendAndConnect_concerns (by decide)
    connectedA_b.1
    (fun _ => connectedA_b.2) (interleave_sendConnect answerFirst) answerFirst_drains.1.1
    answerFirst_drains.2 answerFirst_drains.1.idle answerFirst_drains.1.connected

/-- The recipient connects when the sender has read that it is not connected. -/
def storeLast : List Bool :=
  List.replicate 5 true ++ List.replicate 30 false ++ List.replicate 10 true

/-- Every step succeeds, no request is in progress, `b` is connected, and a message waits. -/
theorem storeLast_strands :
    BothEnd storeLast ∧ ¬ (sendConnect storeLast).2.1.Mailless (ascii "b") := by
  decide +kernel

/-- **A stranded message.**  The sender reads that `b` is not connected; `b` connects, and the drain
finds nothing; then the sender stores the message. -/
theorem not_none_stranded :
    ¬ ∀ (ι : Type) [DecidableEq ι] (fuel : ι → ℕ) (reqs : ι → Req) (u v : Bytes)
      (ud : Userdata) (fs₀ fs : FS)
        (t : List (ι × srvE.Event)) (ps : ι → Srv (Option Unit)), Reachable fs₀ →
          (∀ i, (reqs i).Fits) →
      (∀ i, (reqs i).Concerns u) → FitsBuf maxStrSize v → fs₀.Stores u ⟨v, .user ud⟩ →
      (fs₀.Connected u → fs₀.Mailless u) →
      Interleave SharedStep fs₀ (fun i => (reqs i).body (fuel i)) t fs ps →
        (∀ e ∈ t, works e.2 = true) →
      AllIdle t ps → fs.Connected u → fs.Mailless u := by
  intro h
  obtain ⟨hend, hwaits⟩ := storeLast_strands
  apply hwaits
  exact h Bool (fun _ => 2) sendAndConnect (ascii "b") (ascii "b") default connectedA _ _ _
    connectedA_reachable
    sendAndConnect_fits sendAndConnect_concerns (by decide) connectedA_b.1 (fun _ => connectedA_b.2)
    (interleave_sendConnect storeLast) hend.1 hend.idle hend.connected
