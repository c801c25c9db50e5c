/-
# Concurrent sessions

Any number of service threads handle `CONNECT` for one user, each library call an atomic step.

* `OneHolder`: what the threads that have rewritten the record know of it;
* `one_session`: at most one of them is answered with success, and the record is its own,
  as long as no thread rewrites a record that has been rewritten since it read it;
* `not_one_session`: two threads that both read the record first.
-/
import MessageServer.SessionMoves

/-! ## The invariant -/

section Invariant

variable {ι : Type}

/-- Every message that a drain has sent got through. -/
def AllDelivered (t : List (ι × srvE.Event)) : Prop :=
  ∀ i e m result, (i, (⟨.note (.cltSendMessage e m result), ()⟩ : srvE.Event)) ∈ t →
    result = 0

/-- Thread `i` was given this address of its peer. -/
def PeerIs (t : List (ι × srvE.Event)) (i : ι) (ip : UInt32) : Prop :=
  (i, (⟨.getpeername, (some ip : Option UInt32)⟩ : srvE.Event)) ∈ t

/-- The record has the status of a connected user, the address of the peer of thread `i`
and the port of its request. -/
def HeldBy (port : ι → Bytes) (t : List (ι × srvE.Event)) (i : ι) (e : Entry) : Prop :=
  ∃ (v : Bytes) (ud : Userdata) (ip : UInt32) (p : ℤ),
    e = ⟨v, .user (ud.connected ip p)⟩ ∧ PeerIs t i ip ∧ strToNum (port i) .int = .ok p

variable {port : ι → Bytes} {t : List (ι × srvE.Event)} {i : ι}

/-- An entry that a thread holds is held on. -/
theorem HeldBy.append {e : Entry} (h : HeldBy port t i e) (t' : List (ι × srvE.Event)) :
    HeldBy port (t ++ t') i e := by
  obtain ⟨v, ud, ip, p, he, hpeer, hport⟩ := h
  exact ⟨v, ud, ip, p, he, List.mem_append_left _ hpeer, hport⟩

/-- A record that is held says that the user is connected. -/
theorem HeldBy.status {e : Entry} (h : HeldBy port t i e) : e.user.status = statusCn := by
  obtain ⟨v, ud, ip, p, rfl, -⟩ := h
  rfl

variable [DecidableEq ι]

/-- What the threads have written and will write. -/
structure OneHolder (port : ι → Bytes) (t : List (ι × srvE.Event)) (r : Option Entry)
    (phs : ι → Session) :
    Prop where
  kept : ∀ i, phs i ≠ .lost
  replied : ∀ i, reply (threadEvents i t) = some srvSuccess → ∃ e, phs i = .won e
  alone : ∀ i j, (phs i).entry ≠ none → (phs j).entry ≠ none → i = j
  stored : ∀ i e, (phs i).entry = some e → r = some e ∧ HeldBy port t i e
  user : ∀ i e peer, phs i = .looked e peer → ∃ v ud, e = ⟨v, .user ud⟩
  peer : ∀ i e ip, phs i = .looked e (some ip) → PeerIs t i ip
  late : ∀ i e peer j, phs i = .looked e peer → (phs j).entry ≠ none →
    overtaken i (recordActs t) = true

variable {r r' : Option Entry} {phs : ι → Session} {j : ι}

/-! ### What one more step changes -/

/-- Another thread's step does not undo that a thread is overtaken. -/
theorem overtaken_other {ev : srvE.Event} (hne : j ≠ i) (h : overtaken i (recordActs t) = true) :
    overtaken i (recordActs (t ++ [(j, ev)])) = true := by
  cases hact : recordAct ev with
  | none =>
      rw [recordActs_snoc_none hact]
      exact h
  | some act =>
      rw [recordActs_snoc hact, overtaken_snoc, h]
      cases act with
      | read => exact if_neg hne
      | write ok =>
          cases ok with
          | true => exact if_neg hne
          | false => rfl

/-- A step of another thread is no reply of this one. -/
theorem reply_other {ev : srvE.Event} (hne : j ≠ i) :
    reply (threadEvents i (t ++ [(j, ev)])) = reply (threadEvents i t) := by
  rw [threadEvents_snoc_of_ne hne]

/-- The first reply stays the reply. -/
theorem reply_own {o : SrvOp} {x : o.Ans} :
    reply (threadEvents i (t ++ [(i, ⟨o, x⟩)])) = (reply (threadEvents i t)).or
      (replyOf o) := by
  rw [threadEvents_snoc_self, reply_snoc]

/-- The invariant at the start. -/
theorem oneHolder_start : OneHolder port [] r fun _ => .start where
  kept := by simp
  replied := by simp [threadEvents, reply]
  alone := by simp [Session.entry]
  stored := by simp [Session.entry]
  user := by simp
  peer := by simp
  late := by simp

/-- The replies after a step that is no reply, or a reply of success of a thread that has
won. -/
theorem OneHolder.replied_snoc {ph' : Session} {ev : srvE.Event} (h : OneHolder port t r phs)
    (hwon : ∀ e, phs i = .won e → ph' = .won e)
    (hreply : replyOf ev.1 = some srvSuccess → ∃ e, ph' = .won e)
    (hj : reply (threadEvents j (t ++ [(i, ev)])) = some srvSuccess) :
    ∃ e, Function.update phs i ph' j = .won e := by
  by_cases hji : j = i
  · subst hji
    rw [Function.update_self]
    obtain ⟨o, x⟩ := ev
    rw [reply_own] at hj
    cases hold : reply (threadEvents j t) with
    | none =>
        rw [hold, Option.none_or] at hj
        exact hreply hj
    | some code =>
        rw [hold, Option.some_or] at hj
        obtain ⟨e, he⟩ := h.replied j (hold.trans hj)
        exact ⟨e, hwon e he⟩
  · rw [reply_other (Ne.symm hji)] at hj
    rw [Function.update_of_ne hji]
    exact h.replied j hj

/-! ### Steps of the holder, and of others -/

/-- No thread behind a `READ` that is not overtaken sees the user connected by another. -/
theorem OneHolder.none_of_fresh {e : Entry} {peer : Option UInt32} (h : OneHolder port t r phs)
    (hi : phs i = .looked e peer) (hfresh : overtaken i (recordActs t) = false) (j : ι) :
    (phs j).entry = none := by
  by_contra hj
  have hlate := h.late i e peer j hi hj
  rw [hfresh] at hlate
  exact absurd hlate (by simp)

/-- A step that rewrites no record and takes nothing back. -/
theorem OneHolder.pass {ph' : Session} {ev : srvE.Event} (h : OneHolder port t r phs)
    (hentry : ph'.entry = (phs i).entry) (hlost : ph' ≠ .lost)
    (hwon : ∀ e, phs i = .won e → ph' = .won e)
    (hreply : replyOf ev.1 = some srvSuccess → ∃ e, ph' = .won e)
    (hlooked : ∀ e peer, ph' = .looked e peer → (∃ v ud, e = ⟨v, .user ud⟩) ∧
      (∀ ip, peer = some ip → PeerIs (t ++ [(i, ev)]) i ip) ∧
      ∀ j, (phs j).entry ≠ none → overtaken i (recordActs (t ++ [(i, ev)])) = true) :
    OneHolder port (t ++ [(i, ev)]) r (Function.update phs i ph') := by
  have hsame : ∀ j, (Function.update phs i ph' j).entry = (phs j).entry := by
    intro j
    by_cases hj : j = i
    · subst hj
      rw [Function.update_self, hentry]
    · rw [Function.update_of_ne hj]
  refine ⟨fun j hj => ?_, fun j hj => h.replied_snoc hwon hreply hj, fun j k hj hk => ?_,
    fun j e he => ?_,
    fun j e peer hj => ?_, fun j e ip hj => ?_, fun j e peer k hj hk => ?_⟩
  · rcases update_eq_iff.mp hj with ⟨-, hph⟩ | ⟨-, hph⟩
    · exact hlost hph
    · exact h.kept j hph
  · rw [hsame] at hj hk
    exact h.alone j k hj hk
  · rw [hsame] at he
    obtain ⟨hr, hheld⟩ := h.stored j e he
    exact ⟨hr, hheld.append _⟩
  · rcases update_eq_iff.mp hj with ⟨-, hph⟩ | ⟨-, hph⟩
    · exact (hlooked e peer hph).1
    · exact h.user j e peer hph
  · rcases update_eq_iff.mp hj with ⟨rfl, hph⟩ | ⟨-, hph⟩
    · exact (hlooked e _ hph).2.1 ip rfl
    · exact List.mem_append_left _ (h.peer j e ip hph)
  · rw [hsame] at hk
    rcases update_eq_iff.mp hj with ⟨rfl, hph⟩ | ⟨hne, hph⟩
    · exact (hlooked e peer hph).2.2 k hk
    · exact overtaken_other (Ne.symm hne) (h.late j e peer k hph hk)

/-- A thread makes the user connected: no other thread has. -/
theorem OneHolder.write {e e' : Entry} {peer : Option UInt32} {ev : srvE.Event}
    (h : OneHolder port t r phs)
    (hi : phs i = .looked e peer) (hfresh : overtaken i (recordActs t) = false)
    (hact : recordAct ev = some (.write true)) (hreply : replyOf ev.1 = none)
    (hheld : HeldBy port (t ++ [(i, ev)]) i e') :
    OneHolder port (t ++ [(i, ev)]) (some e') (Function.update phs i (.wrote e')) := by
  have hentry : ∀ j, (Function.update phs i (.wrote e') j).entry ≠ none → j = i := by
    intro j hj
    by_contra hne
    rw [Function.update_of_ne hne] at hj
    exact hj (h.none_of_fresh hi hfresh j)
  have hother : ∀ {j e peer}, Function.update phs i (.wrote e') j = .looked e peer →
      j ≠ i ∧ phs j = .looked e peer := by
    intro j e peer hj
    exact (update_eq_iff.mp hj).resolve_left (by simp)
  refine ⟨fun j hj => ?_, fun j hj => h.replied_snoc (by simp [hi]) (by simp [hreply]) hj,
    fun j k hj hk => (hentry j hj).trans (hentry k hk).symm, fun j e he => ?_,
    fun j e peer hj => h.user j e peer (hother hj).2,
    fun j e ip hj => List.mem_append_left _ (h.peer j e ip (hother hj).2),
      fun j e peer k hj hk => ?_⟩
  · exact h.kept j ((update_eq_iff.mp hj).resolve_left (by simp)).2
  · obtain rfl := hentry j (by rw [he]; simp)
    rw [Function.update_self] at he
    obtain rfl : e' = e := Option.some.inj he
    exact ⟨rfl, hheld⟩
  · rw [recordActs_snoc hact, overtaken_snoc]
    exact if_neg (Ne.symm (hother hj).1)

/-- A `MODIFY` that fails, when no thread has made the user connected. -/
theorem OneHolder.fail {e : Entry} {peer : Option UInt32} {ev : srvE.Event}
    (h : OneHolder port t r phs)
    (hi : phs i = .looked e peer) (hfresh : overtaken i (recordActs t) = false)
    (hreply : replyOf ev.1 = none) :
    OneHolder port (t ++ [(i, ev)]) r' (Function.update phs i .refused) := by
  have hnone : ∀ j, (Function.update phs i .refused j).entry = none := by
    intro j
    by_cases hj : j = i
    · subst hj
      rw [Function.update_self]
      rfl
    · rw [Function.update_of_ne hj]
      exact h.none_of_fresh hi hfresh j
  have hother : ∀ {j e peer}, Function.update phs i .refused j = .looked e peer →
      phs j = .looked e peer := by
    intro j e peer hj
    exact ((update_eq_iff.mp hj).resolve_left (by simp)).2
  refine ⟨fun j hj => ?_, fun j hj => h.replied_snoc (by simp [hi]) (by simp [hreply]) hj,
    fun j k hj => absurd (hnone j) hj, fun j e he => ?_, fun j e peer hj =>
      h.user j e peer (hother hj),
    fun j e ip hj => List.mem_append_left _ (h.peer j e ip (hother hj)),
    fun j e peer k hj hk => absurd (hnone k) hk⟩
  · exact h.kept j ((update_eq_iff.mp hj).resolve_left (by simp)).2
  · rw [hnone j] at he
    exact absurd he (by simp)

/-- **The step lemma.** -/
theorem OneHolder.step {u : Bytes} {o : SrvOp} {x : o.Ans} {ph' : Session}
    (h : OneHolder port t r phs)
    (hdelivered : AllDelivered (t ++ [(i, ⟨o, x⟩)]))
    (hunraced : Unraced (t ++ [(i, ⟨o, x⟩)]))
    (hmove : SessionMove u (port i) r r' (phs i) o x ph') :
    OneHolder port (t ++ [(i, ⟨o, x⟩)]) r' (Function.update phs i ph') := by
  have hlast : ∀ ev : srvE.Event, (i, ev) ∈ t ++ [(i, ev)] :=
    fun ev => List.mem_append_right _ (List.mem_singleton.mpr rfl)
  generalize hph : phs i = ph at hmove
  cases hmove with
  | pass hr hentry hlost hlooked hwon hreply =>
      subst hr
      exact h.pass (by rw [hph, hentry]) hlost (by rw [hph]; exact hwon) hreply
        fun e peer he => absurd he (hlooked e peer)
  | @look j x hstart hr hread hstatus huser =>
      subst hr
      refine h.pass (by rw [hph, hstart]; rfl) (by simp) (by simp [hph, hstart]) (by simp [replyOf])
        fun e peer he => ?_
      obtain ⟨rfl, rfl⟩ := Session.looked.inj he
      refine ⟨huser, by simp, fun k hk => ?_⟩
      -- the record that was read says that the user is not connected
      obtain ⟨e, he⟩ := Option.ne_none_iff_exists'.mp hk
      obtain ⟨hr, hheld⟩ := h.stored k e he
      rw [hread] at hr
      rw [← Option.some.inj hr] at hheld
      exact absurd hheld.status hstatus
  | @ask e peer x hlooked hr =>
      subst hr
      have hi : phs i = .looked e peer := hph.trans hlooked
      refine h.pass (by rw [hi]; rfl) (by simp) (by simp [hi]) (by simp [replyOf])
        fun e' peer' he => ?_
      obtain ⟨rfl, rfl⟩ := Session.looked.inj he
      refine ⟨h.user i e peer hi, ?_, fun k hk => ?_⟩
      · rintro ip rfl
        exact hlast _
      · rw [recordActs_snoc_none rfl]
        exact h.late i e peer k hi hk
  | @write e ip p x hlooked hport hr hx =>
      have hi : phs i = .looked e (some ip) := hph.trans hlooked
      have hact :
          recordAct ⟨.db (.ioOpUsrEnt (e.mapUser fun ud => ud.connected ip p) .modify), x⟩ =
          some (.write true) := by
        show some (RecordAct.write (decide (0 ≤ x.1))) = _
        rw [decide_eq_true hx]
      obtain ⟨v, ud, rfl⟩ := h.user i e _ hi
      rw [hr]
      refine h.write hi (hunraced.not_overtaken hact) hact rfl ⟨v, ud, ip, p, rfl, ?_, hport⟩
      exact List.mem_append_left _ (h.peer i _ ip hi)
  | @fail e e' peer x hlooked hx =>
      have hi : phs i = .looked e peer := hph.trans hlooked
      have hact : recordAct ⟨.db (.ioOpUsrEnt e' .modify), x⟩ =
          some (.write (decide (0 ≤ x.1))) := rfl
      exact h.fail hi (hunraced.not_overtaken hact) rfl
  | @lose e m result x hresult => exact absurd (hdelivered i e m result (hlast _)) hresult

end Invariant

/-! ## Runs -/

/-- At most one thread is answered with success; then the record of `u` says that the user
is connected, with the address of this thread's peer and the port of its request. -/
structure OneSession {ι : Type} [DecidableEq ι] (u : Bytes) (port : ι → Bytes)
    (t : List (ι × srvE.Event))
    (fs : FS) : Prop where
  once : ∀ i j, reply (threadEvents i t) = some srvSuccess →
    reply (threadEvents j t) = some srvSuccess →
    i = j
  stored : ∀ i, reply (threadEvents i t) = some srvSuccess → ∃ e, fs.Stores u e ∧
    HeldBy port t i e

section Runs

variable {ι : Type} [DecidableEq ι] {fuel : ι → ℕ} {u : Bytes} {port : ι → Bytes}
  {t : List (ι × srvE.Event)} {ps : ι → Srv (Option Unit)}

/-- **The run lemma.** -/
theorem oneHolder_run {C : Confinement} (hu : C.Same u) {r r' : Option Entry}
    (h : Interleave (RecordStep C) r (fun i => srvConnectBody (fuel i) u (port i)) t r' ps)
    (hdelivered : AllDelivered t) (hunraced : Unraced t) : ∃ phs, OneHolder port t r' phs := by
  have hkeep : ∀ t r phs i o x r', (AllDelivered t → Unraced t → OneHolder port t r phs) →
      (session u (port i)).allowed (phs i) o → RecordStep C r o x r' →
      True ∧ (AllDelivered (t ++ [(i, ⟨o, x⟩)]) → Unraced (t ++ [(i, ⟨o, x⟩)]) →
        OneHolder port (t ++ [(i, ⟨o, x⟩)]) r'
          (Function.update phs i ((session u (port i)).next (phs i) o x))) := by
    intro t r phs i o x r' hinv hallowed hstep
    refine ⟨trivial, fun hdelivered hunraced => ?_⟩
    have hbefore : OneHolder port t r phs := by
      apply hinv
      · exact fun j e m result hmem => hdelivered j e m result (List.mem_append_left _ hmem)
      · exact hunraced.of_append
    exact hbefore.step hdelivered hunraced (sessionMove hu (hbefore.kept i) hallowed hstep)
  obtain ⟨phs, hinv, -⟩ := h.invariant (D := fun i => session u (port i))
    (I := fun t r phs => AllDelivered t → Unraced t → OneHolder port t r phs) hkeep
    (fun i => obeys_session (fuel i) u (port i)) fun _ _ => oneHolder_start
  exact ⟨phs, hinv hdelivered hunraced⟩

/-- **One session for a user.**  Any number of threads handle `CONNECT u`, and every message
that a drain sends gets through.  In every state that is reached when no thread rewrites the
record after another one has rewritten it since this thread read it, at most one thread is
answered with success, and the record is what this one has made it. -/
theorem one_session {fs₀ fs : FS} (hreach : Reachable fs₀)
    (hu : FitsBuf maxStrSize u) {v : Bytes}
    (hv : FitsBuf maxStrSize v) {ud : Userdata} (hstored : fs₀.Stores u ⟨v, .user ud⟩)
    (h : Interleave SharedStep fs₀ (fun i => srvConnectBody (fuel i) u (port i)) t fs ps)
    (hdelivered : AllDelivered t) (hunraced : Unraced t) : OneSession u port t fs := by
  have hname : NameOf fs₀.cwd (fs₀.table u) u := ⟨hu, rfl⟩
  obtain ⟨r, hrun, -, hrecords⟩ := interleave_record (hstored.records hreach.schema hv)
    (fun i => obeys_srvConnectBody (fuel i) hname (port i)) h
  obtain ⟨phs, hinv⟩ :=
    oneHolder_run (C := tableNames fs₀.cwd (fs₀.table u)) hname hrun hdelivered hunraced
  refine ⟨fun i j hi hj => ?_, fun i hi => ?_⟩
  · obtain ⟨e, he⟩ := hinv.replied i hi
    obtain ⟨e', he'⟩ := hinv.replied j hj
    apply hinv.alone i j
    · rw [he]
      simp [Session.entry]
    · rw [he']
      simp [Session.entry]
  · obtain ⟨e, he⟩ := hinv.replied i hi
    obtain ⟨rfl, hheld⟩ := hinv.stored i e (by rw [he]; rfl)
    exact ⟨e, hrecords.stores, hheld⟩

end Runs

/-! ## Two sessions -/

/-- A step at which a transmission ends. -/
def isNote : SrvOp → Bool
  | .note _ => true
  | _ => false

/-- A step of a thread when nothing fails. -/
def sharedApply (o : SrvOp) (fs : FS) : o.Ans × FS :=
  ((srvApply default o ⟨fs, []⟩).1, (srvApply default o ⟨fs, []⟩).2.fs)

/-- The computed step is a step. -/
theorem sharedStep_apply (o : SrvOp) (fs : FS) :
    SharedStep fs o (sharedApply o fs).1 (sharedApply o fs).2 := by
  cases o with
  | db call => exact DbStep.untorn (srvApply_calm (fun _ => rfl) (.db call) ⟨fs, []⟩).1
  | _ => rfl

/-- Two threads connect `a`, and take the given turns. -/
def twoConnect (turns : List Bool) :
    List (Bool × srvE.Event) × FS × (Bool → Srv (Option Unit)) :=
  schedule (fun (_ : Unit) => sharedApply) (turns.map fun i => (i, ())) registeredA
    fun _ => srvConnectBody 1 (ascii "a") (ascii "7000")

/-- Two `CONNECT`s as an interleaving. -/
theorem interleave_twoConnect (turns : List Bool) :
    Interleave SharedStep registeredA (fun _ => srvConnectBody 1 (ascii "a") (ascii "7000"))
      (twoConnect turns).1 (twoConnect turns).2.1 (twoConnect turns).2.2 :=
  interleave_schedule (fun _ o fs => sharedStep_apply o fs) _ _ _

/-- One thread connects after the other. -/
def oneThenOther : List Bool := List.replicate 8 true ++ List.replicate 6 false

/-- Both threads read the record before one of them rewrites it. -/
def bothRead : List Bool :=
  [true, true, false, false] ++ List.replicate 6 true ++ List.replicate 6 false

/-- The record of `a`. -/
theorem registeredA_stores : registeredA.Stores (ascii "a") ⟨ascii "a", .user default⟩ := by
  show registeredA.get _ = _
  decide +kernel

/-- No message is sent. -/
theorem allDelivered_twoConnect {turns : List Bool}
    (h : (twoConnect turns).1.all (fun ev => !isNote ev.2.1) = true) :
    AllDelivered (twoConnect turns).1 :=
  fun _ _ _ _ hmem => absurd (List.all_eq_true.mp h _ hmem) (by simp [isNote])

/-- One request after the other meets the conditions. -/
theorem oneThenOther_keeps : (twoConnect oneThenOther).1.all (fun ev => !isNote ev.2.1) = true ∧
    Unraced (twoConnect oneThenOther).1 := by
  decide +kernel

/-- The law at this run. -/
theorem one_session_oneThenOther :
    OneSession (ascii "a") (fun _ => ascii "7000") (twoConnect oneThenOther).1
      (twoConnect oneThenOther).2.1 :=
  one_session registeredA_reachable (by decide) (v := ascii "a") (by decide) registeredA_stores
    (interleave_twoConnect oneThenOther) (allDelivered_twoConnect oneThenOther_keeps.1)
      oneThenOther_keeps.2

/-- Nothing is sent, and both threads are answered with success. -/
theorem bothRead_wins : (twoConnect bothRead).1.all (fun ev => !isNote ev.2.1) = true ∧
    ∀ i, reply (threadEvents i (twoConnect bothRead).1) = some srvSuccess := by
  decide +kernel

/-- **Two sessions.**  Both threads read that the user is not connected; each rewrites the
record and is answered with success. -/
theorem not_one_session :
    ¬ ∀ (ι : Type) [DecidableEq ι] (fuel : ι → ℕ) (u : Bytes) (port : ι → Bytes)
      (fs₀ fs : FS) (v : Bytes)
        (ud : Userdata) (t : List (ι × srvE.Event)) (ps : ι → Srv (Option Unit)),
          Reachable fs₀ →
      FitsBuf maxStrSize u → FitsBuf maxStrSize v → fs₀.Stores u ⟨v, .user ud⟩ →
        ud.status ≠ statusCn →
      Interleave SharedStep fs₀ (fun i => srvConnectBody (fuel i) u (port i)) t fs ps →
        AllDelivered t →
      OneSession u port t fs := by
  intro h
  have hone :=
    h Bool (fun _ => 1) (ascii "a") (fun _ => ascii "7000") registeredA _ (ascii "a") default _ _
    registeredA_reachable (by decide) (by decide) registeredA_stores (by decide)
    (interleave_twoConnect bothRead) (allDelivered_twoConnect bothRead_wins.1)
  exact absurd (hone.once true false (bothRead_wins.2 true) (bothRead_wins.2 false)) (by decide)
