/-
# Histories of edits

The writes to one record by any number of threads, one after another.

* `writings`, `WroteAt`: the writes of a run, and the record before and after one of them;
* `Edited`: the invariant: the record is what the writes have made of it, and each thread knows what
  it has read and written.
-/
import MessageServer.Editing

/-! ## Histories of edits -/

section Histories

variable {ι : Type}

/-- The record that a step writes back. -/
def writtenBy : srvE.Event → Option Userdata
  | ⟨.db (.ioOpUsrEnt e .modify), x⟩ => if 0 ≤ x.1 then some e.user else none
  | _ => none

/-- The threads with the records that they have written back, in this order. -/
def writings (t : List (ι × srvE.Event)) : List (ι × Userdata) :=
  t.filterMap fun e => (writtenBy e.2).map (e.1, ·)

/-- A message that thread `i` has sent has not got through. -/
def Misses (t : List (ι × srvE.Event)) (i : ι) : Prop :=
  ∃ e m result, (i, (⟨.note (.cltSendMessage e m result), ()⟩ : srvE.Event)) ∈ t ∧
    result ≠ 0

/-- A thread edits the record in one step. -/
def EditStep (reqs : ι → Req) (t : List (ι × srvE.Event)) (ud : Userdata) (w : ι × Userdata)
    (ud' : Userdata) : Prop :=
  ud' = w.2 ∧ Edit (reqs w.1) (PeerIs t w.1) (Misses t w.1) ud w.2

/-- Thread `i` has made `p.2` of the record `p.1`, which the writings before had made of `ud₀`. -/
def WroteAt (reqs : ι → Req) (ud₀ : Userdata) (t : List (ι × srvE.Event)) (i : ι)
    (p : Userdata × Userdata) : Prop :=
  ∃ before after, writings t = before ++ (i, p.2) :: after ∧
    Run (EditStep reqs t) ud₀ before p.1

variable {reqs : ι → Req} {t t' : List (ι × srvE.Event)} {i j : ι} {ev : srvE.Event}

/-! ### Writings -/

theorem writings_append : writings (t ++ t') = writings t ++ writings t' := List.filterMap_append

theorem writings_snoc :
    writings (t ++ [(i, ev)]) = writings t ++ ((writtenBy ev).map (i, ·)).toList := by
  rw [writings, List.filterMap_append]
  cases h : writtenBy ev <;> simp [writings, h]

theorem writings_snoc_none (h : writtenBy ev = none) : writings (t ++ [(i, ev)]) = writings t := by
  rw [writings_snoc, h]
  exact List.append_nil _

theorem Misses.append (h : Misses t i) : Misses (t ++ t') i := by
  obtain ⟨e, m, result, hmem, hresult⟩ := h
  exact ⟨e, m, result, List.mem_append_left _ hmem, hresult⟩

theorem AllDelivered.not_misses (h : AllDelivered t) : ¬ Misses t i := by
  rintro ⟨e, m, result, hmem, hresult⟩
  exact hresult (h i e m result hmem)

theorem EditStep.append {ud ud' : Userdata} {w : ι × Userdata} (h : EditStep reqs t ud w ud') :
    EditStep reqs (t ++ t') ud w ud' :=
  ⟨h.1, h.2.mono (fun _ hpeer => List.mem_append_left _ hpeer) Misses.append⟩

theorem WroteAt.append {ud₀ : Userdata} {p : Userdata × Userdata}
    (h : WroteAt reqs ud₀ t i p) :
    WroteAt reqs ud₀ (t ++ t') i p := by
  obtain ⟨before, after, hsplit, hrun⟩ := h
  refine ⟨before, after ++ writings t', ?_, hrun.mono fun _ _ _ hstep => hstep.append⟩
  rw [writings_append, hsplit, List.append_assoc, List.cons_append]

theorem WroteAt.mem {ud₀ : Userdata} {p : Userdata × Userdata} (h : WroteAt reqs ud₀ t i p) :
    (i, p.2) ∈ writings t := by
  obtain ⟨before, after, hsplit, -⟩ := h
  rw [hsplit]
  exact List.mem_append_right _ List.mem_cons_self

/-- A step that writes nothing back. -/
theorem recordAct_of_writtenBy (h : writtenBy ev = none) : recordAct ev ≠ some (.write true) := by
  obtain ⟨o, x⟩ := ev
  cases o with
  | db call =>
      cases call with
      | ioOpUsrEnt e mode =>
          cases mode with
          | modify =>
              have hneg : ¬ 0 ≤ x.1 := by
                intro hpos
                have hsome : writtenBy ⟨.db (.ioOpUsrEnt e .modify), x⟩ = some e.user :=
                  if_pos hpos
                rw [hsome] at h
                cases h
              simpa [recordAct] using hneg
          | _ => simp [recordAct]
      | _ => simp [recordAct]
  | _ => simp [recordAct]

variable [DecidableEq ι]

/-! ### What has been edited -/

/-- What the threads have made of the record `ud₀`, and what they know of it. -/
structure Edited (reqs : ι → Req) (ud₀ : Userdata) (t : List (ι × srvE.Event))
    (ud : Userdata)
    (phs : ι → Editor) : Prop where
  run : Run (EditStep reqs t) ud₀ (writings t) ud
  known : ∀ i ud', (phs i).known = some ud' → overtaken i (recordActs t) = false → ud' = ud
  peer : ∀ i ip, (phs i).peer = some ip → PeerIs t i ip
  failed : ∀ i, (phs i).failed = true → Misses t i
  wrote : ∀ i, ∀ p ∈ (phs i).wrote, WroteAt reqs ud₀ t i p
  replied : ∀ i, reply (threadEvents i t) = some srvSuccess →
    ∃ p, WroteAt reqs ud₀ t i p ∧ Edit (reqs i) (PeerIs t i) False p.1 p.2

variable {ud₀ ud : Userdata} {phs : ι → Editor} {ph' : Editor}

theorem edited_start : Edited reqs ud₀ [] ud₀ fun _ => .start where
  run := .nil
  known := fun _ _ hknown => by cases hknown
  peer := fun _ _ hpeer => by cases hpeer
  failed := fun _ hfailed => by cases hfailed
  wrote := fun _ _ hwrote => absurd hwrote List.not_mem_nil
  replied := fun _ hreply => by cases hreply

/-- The replies behind one more step. -/
theorem Edited.replied_snoc {ev : srvE.Event} (h : Edited reqs ud₀ t ud phs)
    (hreply : replyOf ev.1 = some srvSuccess → (phs i).HasEdited (reqs i)) (j : ι)
    (hj : reply (threadEvents j (t ++ [(i, ev)])) = some srvSuccess) :
    ∃ p, WroteAt reqs ud₀ (t ++ [(i, ev)]) j p ∧
      Edit (reqs j) (PeerIs (t ++ [(i, ev)]) j) False p.1 p.2 := by
  have hpeers : ∀ j ip, PeerIs t j ip → PeerIs (t ++ [(i, ev)]) j ip :=
    fun _ _ hpeer => List.mem_append_left _ hpeer
  have hbefore : reply (threadEvents j t) = some srvSuccess →
      ∃ p, WroteAt reqs ud₀ (t ++ [(i, ev)]) j p ∧
      Edit (reqs j) (PeerIs (t ++ [(i, ev)]) j) False p.1 p.2 := by
    intro hj
    obtain ⟨p, hwrote, hedit⟩ := h.replied j hj
    exact ⟨p, hwrote.append, hedit.mono (hpeers j) id⟩
  by_cases hji : j = i
  · subst hji
    obtain ⟨o, x⟩ := ev
    rw [reply_own] at hj
    cases hfirst : reply (threadEvents j t) with
    | none =>
        rw [hfirst, Option.none_or] at hj
        obtain ⟨p, hp, hedit⟩ := hreply hj
        exact ⟨p, (h.wrote j p hp).append,
          hedit.mono (fun ip hip => hpeers j ip (h.peer j ip hip)) id⟩
    | some code =>
        rw [hfirst, Option.some_or] at hj
        exact hbefore (hfirst.trans hj)
  · rw [reply_other (Ne.symm hji)] at hj
    exact hbefore hj

/-! ### Steps that write nothing, and writes -/

/-- A step that writes nothing back. -/
theorem Edited.pass (h : Edited reqs ud₀ t ud phs) (hev : writtenBy ev = none)
    (hknown : (recordAct ev = none ∧ ph'.known = (phs i).known) ∨
        ∀ ud', ph'.known = some ud' → ud' = ud)
    (hpeer : ∀ ip, ph'.peer = some ip → (phs i).peer = some ip ∨ PeerIs (t ++ [(i, ev)]) i ip)
    (hfailed : ph'.failed = true → (phs i).failed = true ∨ Misses (t ++ [(i, ev)]) i)
    (hwrote : ph'.wrote = (phs i).wrote)
    (hreply : replyOf ev.1 = some srvSuccess → (phs i).HasEdited (reqs i)) :
    Edited reqs ud₀ (t ++ [(i, ev)]) ud (Function.update phs i ph') := by
  have hsame : writings (t ++ [(i, ev)]) = writings t := writings_snoc_none hev
  refine ⟨?_, fun j ud' hj hover => ?_, fun j ip hj => ?_, fun j hj => ?_, fun j p hj => ?_, ?_⟩
  · rw [hsame]
    exact h.run.mono fun _ _ _ hstep => hstep.append
  · by_cases hji : j = i
    · subst hji
      rw [Function.update_self] at hj
      rcases hknown with ⟨hact, heq⟩ | hknown
      · rw [recordActs_snoc_none hact] at hover
        exact h.known j ud' (heq ▸ hj) hover
      · exact hknown ud' hj
    · rw [Function.update_of_ne hji] at hj
      rw [overtaken_quiet (recordAct_of_writtenBy hev) hji] at hover
      exact h.known j ud' hj hover
  · by_cases hji : j = i
    · subst hji
      rw [Function.update_self] at hj
      exact (hpeer ip hj).elim (fun hold => List.mem_append_left _ (h.peer j ip hold)) id
    · rw [Function.update_of_ne hji] at hj
      exact List.mem_append_left _ (h.peer j ip hj)
  · by_cases hji : j = i
    · subst hji
      rw [Function.update_self] at hj
      exact (hfailed hj).elim (fun hold => (h.failed j hold).append) id
    · rw [Function.update_of_ne hji] at hj
      exact (h.failed j hj).append
  · by_cases hji : j = i
    · subst hji
      rw [Function.update_self, hwrote] at hj
      exact (h.wrote j p hj).append
    · rw [Function.update_of_ne hji] at hj
      exact (h.wrote j p hj).append
  · exact h.replied_snoc hreply

/-- A step that writes the record back. -/
theorem Edited.write {e : Entry} {x : ℤ × Entry} {ud' : Userdata}
    (h : Edited reqs ud₀ t ud phs)
    (hunraced : Unraced (t ++ [(i, ⟨.db (.ioOpUsrEnt e .modify), x⟩)])) (hx : x.1 = dbmsSuccess)
    (hknown : (phs i).known = some ud') (hedit : Edit (reqs i) (fun ip => (phs i).peer = some ip)
      ((phs i).failed = true) ud' e.user) :
    Edited reqs ud₀ (t ++ [(i, ⟨.db (.ioOpUsrEnt e .modify), x⟩)]) e.user
      (Function.update phs i ((phs i).write e.user)) := by
  have hpos : 0 ≤ x.1 := by rw [hx]; decide
  have hact : recordAct ⟨.db (.ioOpUsrEnt e .modify), x⟩ = some (.write true) :=
    congrArg (fun b => some (RecordAct.write b)) (decide_eq_true hpos)
  have hwritten : writings (t ++ [(i, ⟨.db (.ioOpUsrEnt e .modify), x⟩)]) = writings t ++
      [(i, e.user)] := by
    have hby : writtenBy ⟨.db (.ioOpUsrEnt e .modify), x⟩ = some e.user := if_pos hpos
    rw [writings_snoc, hby]
    rfl
  -- what the thread has read is what stands there
  obtain rfl : ud' = ud := h.known i ud' hknown (hunraced.not_overtaken hact)
  refine ⟨?_, fun j ud' hj hover => ?_, fun j ip hj => ?_, fun j hj => ?_, fun j p hj => ?_, ?_⟩
  · rw [hwritten]
    refine (h.run.mono fun _ _ _ hstep => hstep.append).snoc ⟨rfl, hedit.mono (fun ip hip => ?_)
      fun hfailed => ?_⟩
    · exact List.mem_append_left _ (h.peer i ip hip)
    · exact (h.failed i hfailed).append
  · by_cases hji : j = i
    · subst hji
      rw [Function.update_self] at hj
      cases hj
    · rw [overtaken_write hact hji] at hover
      cases hover
  · have hold : (phs j).peer = some ip := by
      by_cases hji : j = i
      · subst hji
        rwa [Function.update_self] at hj
      · rwa [Function.update_of_ne hji] at hj
    exact List.mem_append_left _ (h.peer j ip hold)
  · have hold : (phs j).failed = true := by
      by_cases hji : j = i
      · subst hji
        rwa [Function.update_self] at hj
      · rwa [Function.update_of_ne hji] at hj
    exact (h.failed j hold).append
  · by_cases hji : j = i
    · subst hji
      rw [Function.update_self] at hj
      rcases List.mem_append.mp hj with hj | hj
      · exact (h.wrote j p hj).append
      · -- the record that has just been written
        rw [hknown, Option.toList_some, List.map_singleton, List.mem_singleton] at hj
        rw [hj]
        exact ⟨writings t, [], hwritten, h.run.mono fun _ _ _ hstep => hstep.append⟩
    · rw [Function.update_of_ne hji] at hj
      exact (h.wrote j p hj).append
  · exact h.replied_snoc fun hnone => by cases hnone

variable {u : Bytes} {a a' : Account} {o : SrvOp} {x : o.Ans}

/-! ### Any step -/

/-- A record that is there is read and written back, and stays there. -/
theorem editing_possible {req : Req} {ph : Editor} (hud : a.record = some ud)
    (hallowed : (editing u req).allowed ph o)
    (hstep : AccountStep True u a o x a') :
    (editing u req).possible ph o x ∧ a'.record ≠ none := by
  have hsome : a.record ≠ none := by simp [hud]
  have hquiet : a' = a → a'.record ≠ none := fun heq => heq ▸ hsome
  cases o with
  | db call =>
      cases call with
      | ioOpUsrEnt e mode =>
          cases mode with
          | read =>
              refine ⟨?_, hquiet hstep.1⟩
              rintro j rfl
              exact ⟨ud, hstep.read_some hud⟩
          | modify =>
              obtain ⟨_, ud', -, rfl, -⟩ := hallowed
              obtain ⟨hx, rfl⟩ := hstep.modify_some ud' hsome
              exact ⟨hx, by simp [Account.write]⟩
          | create =>
              obtain ⟨m, -, hstores⟩ := hstep
              refine ⟨trivial, ?_⟩
              rcases hstores with ⟨-, -, rfl⟩ | ⟨-, rfl, -⟩
              · exact hsome
              · exact hsome
          | delete =>
              obtain ⟨m, -, hdrops⟩ := hstep
              refine ⟨trivial, ?_⟩
              rcases hdrops with ⟨-, rfl⟩ | ⟨-, rfl, -⟩
              · exact hsome
              · exact hsome
          | overwrite => exact ⟨trivial, hquiet hstep⟩
      | userExists v => exact ⟨trivial, hquiet hstep.1⟩
      | getPendMsg e => exact ⟨trivial, hquiet hstep.1⟩
      | creatUsrTbl e => exact hallowed.elim
      | delUsrTbl v => exact hallowed.elim
  | _ => exact ⟨trivial, hquiet hstep⟩

/-- **The step lemma.** -/
theorem Edited.step (h : Edited reqs ud₀ t ud phs) (hud : a.record = some ud)
    (hallowed : (editing u (reqs i)).allowed (phs i) o) (hstep : AccountStep True u a o x a')
    (hunraced : Unraced (t ++ [(i, ⟨o, x⟩)])) :
    ∃ ud', a'.record = some ud' ∧ Edited reqs ud₀ (t ++ [(i, ⟨o, x⟩)]) ud'
      (Function.update phs i ((editing u (reqs i)).next (phs i) o x)) := by
  have hlast : (i, (⟨o, x⟩ : srvE.Event)) ∈ t ++ [(i, ⟨o, x⟩)] :=
    List.mem_append_right _ List.mem_cons_self
  -- a step at which the thread neither reads, nor writes back, nor replies
  have hidle : a'.record = a.record → writtenBy ⟨o, x⟩ = none →
      recordAct ⟨o, x⟩ = none → replyOf o = none →
      (editing u (reqs i)).next (phs i) o x = phs i → ∃ ud', a'.record = some ud' ∧
        Edited reqs ud₀ (t ++ [(i, ⟨o, x⟩)]) ud'
          (Function.update phs i ((editing u (reqs i)).next (phs i) o x)) := by
    intro hrecord hwritten hact hreply hnext
    refine ⟨ud, hrecord.trans hud, h.pass hwritten (Or.inl ⟨hact, by rw [hnext]⟩)
      (fun ip hip => Or.inl ?_)
      (fun hfailed => Or.inl ?_) (by rw [hnext]) fun hsuccess => ?_⟩
    · rwa [hnext] at hip
    · rwa [hnext] at hfailed
    · rw [hreply] at hsuccess
      cases hsuccess
  cases o with
  | db call =>
      cases call with
      | ioOpUsrEnt e mode =>
          cases mode with
          | read =>
              obtain rfl := hstep.1
              refine ⟨ud, hud, h.pass rfl (Or.inr fun ud' hud' => ?_) (fun ip => Or.inl)
                (fun hf => Or.inl hf) rfl
                fun hsuccess => by cases hsuccess⟩
              obtain hud' : (if e = ⟨u, .user e.user⟩ then some x.2.user else none) =
                  some ud' := hud'
              split at hud'
              · rename_i heq
                rw [heq] at hstep
                rw [hstep.read_some hud] at hud'
                exact (Option.some.inj hud').symm
              · cases hud'
          | modify =>
              obtain ⟨ud', ud'', hknown, rfl, hedit⟩ := hallowed
              obtain ⟨hx, rfl⟩ := hstep.modify_some ud'' (by simp [hud])
              exact ⟨ud'', rfl, h.write hunraced hx hknown hedit⟩
          | create =>
              obtain ⟨m, -, hstores⟩ := hstep
              rcases hstores with ⟨-, -, rfl⟩ | ⟨-, rfl, -⟩
              · exact hidle rfl rfl rfl rfl rfl
              · exact hidle rfl rfl rfl rfl rfl
          | delete =>
              obtain ⟨m, -, hdrops⟩ := hstep
              rcases hdrops with ⟨-, rfl⟩ | ⟨-, rfl, -⟩
              · exact hidle rfl rfl rfl rfl rfl
              · exact hidle rfl rfl rfl rfl rfl
          | overwrite =>
              obtain rfl : a' = a := hstep
              exact hidle rfl rfl rfl rfl rfl
      | userExists v =>
          obtain rfl := hstep.1
          exact hidle rfl rfl rfl rfl rfl
      | getPendMsg e =>
          obtain rfl := hstep.1
          exact hidle rfl rfl rfl rfl rfl
      | creatUsrTbl e => exact hallowed.elim
      | delUsrTbl v => exact hallowed.elim
  | getpeername =>
      obtain rfl : a' = a := hstep
      refine ⟨ud, hud, h.pass rfl (Or.inl ⟨rfl, rfl⟩) (fun ip hip => Or.inr ?_)
        (fun hf => Or.inl hf) rfl
        fun hsuccess => by cases hsuccess⟩
      obtain rfl : x = some ip := hip
      exact hlast
  | note n =>
      obtain rfl : a' = a := hstep
      cases n with
      | cltSendMessAck e id result => exact hidle rfl rfl rfl rfl rfl
      | cltSendMessage e m result =>
          refine ⟨ud, hud, h.pass rfl (Or.inl ⟨rfl, rfl⟩) (fun ip hip => Or.inl hip)
            (fun hf => ?_) rfl
            fun hsuccess => by cases hsuccess⟩
          obtain hf : ((phs i).failed || decide (result ≠ 0)) = true := hf
          rw [Bool.or_eq_true, decide_eq_true_eq] at hf
          exact hf.imp_right fun hresult => ⟨e, m, result, hlast, hresult⟩
  | write sock bytes =>
      obtain rfl : a' = a := hstep
      cases sock with
      | listener => exact hidle rfl rfl rfl rfl rfl
      | client =>
          refine ⟨ud, hud, h.pass rfl (Or.inl ⟨rfl, rfl⟩) (fun ip hip => Or.inl hip)
            (fun hf => Or.inl hf) rfl
            fun hsuccess => hallowed ?_⟩
          unfold replyOf at hsuccess
          split at hsuccess
          · rename_i code heq
            cases heq
            rw [Option.some.inj hsuccess]
          · cases hsuccess
  | _ =>
      obtain rfl : a' = a := hstep
      exact hidle rfl rfl rfl rfl rfl

end Histories
