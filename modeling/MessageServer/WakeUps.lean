/-
# Wake-ups of the service threads

The main thread signals only when it puts a connection into an empty queue.

* `ConnServer.LostWakeup`: a thread sleeps on a filled queue, and nobody is on the way to it;
* `no_lostWakeup`: no thread is left so while the pool keeps up with the queue;
* `exists_lostWakeup`: a step at which it does not keep up leads on to a lost wake-up.
-/
import MessageServer.ConnQueue

/-! ## Wake-ups of the service threads -/

section WakeUps

variable {ι : Type} [DecidableEq ι] [Fintype ι]

/-- A connection is queued, a service thread sleeps un-signalled, and nobody is on
the way to take the connection. -/
def ConnServer.LostWakeup (s : ConnServer ι) : Prop :=
  0 < s.connQSize ∧ (∃ i, s.workers i = .waiting) ∧
    ∀ i, s.workers i = .waiting ∨ ∃ clientSocket, s.workers i = .serving clientSocket

/-- The service threads that will look at the queue next. -/
def ConnServer.comers (s : ConnServer ι) : Finset ι :=
  Finset.univ.filter fun i => s.workers i = .ready ∨ s.workers i = .woken

/-! ### Who is on the way -/

omit [DecidableEq ι] in
theorem mem_comers {s : ConnServer ι} {i : ι} :
    i ∈ s.comers ↔ s.workers i = .ready ∨ s.workers i = .woken := by
  simp [ConnServer.comers]

/-- The condition on a step: a connection is put behind others, while a thread
sleeps, only when the threads on the way outnumber the connections already there. -/
def ConnServer.KeepsUp (s : ConnServer ι) : ConnAction ι → Prop
  | .enqueue _ =>
      0 < s.connQSize → s.connQSize ≠ maxConnBacklog → (∃ i, s.workers i = .waiting) →
        s.connQSize < s.comers.card
  | _ => True

instance (s : ConnServer ι) : (a : ConnAction ι) → Decidable (s.KeepsUp a)
  | .enqueue _ => inferInstanceAs (Decidable (_ → _ → _ → _))
  | .accept _ => isTrue trivial
  | .wakeMain => isTrue trivial
  | .dequeue _ => isTrue trivial
  | .finish _ => isTrue trivial
  | .wake _ => isTrue trivial

instance (s : ConnServer ι) : Decidable s.LostWakeup :=
  decidable_of_iff
    (0 < s.connQSize ∧ (∃ i, s.workers i = .waiting) ∧ ∀ i, i ∉ s.comers) <| by
      refine and_congr_right fun _ => and_congr_right fun _ => forall_congr' fun i => ?_
      rw [mem_comers]
      cases s.workers i <;> simp

/-- While a thread sleeps, every queued connection has a thread on the way. -/
def ConnServer.Covered (s : ConnServer ι) : Prop :=
  (∃ i, s.workers i = .waiting) → s.connQSize ≤ s.comers.card

/-- A thread that comes to the queue is one more. -/
theorem card_comers_arrive (s s' : ConnServer ι) {i : ι} {w : WorkerState}
    (hs' : s'.workers = Function.update s.workers i w) (hw : w = .ready ∨ w = .woken)
    (hi : i ∉ s.comers) : s'.comers.card = s.comers.card + 1 := by
  have hset : s'.comers = insert i s.comers := by
    ext j
    rw [Finset.mem_insert, mem_comers, mem_comers, hs']
    by_cases hj : j = i
    · subst hj
      simp [hw]
    · simp [hj]
  rw [hset, Finset.card_insert_of_notMem hi]

/-- A thread that leaves for a connection, or for the wait, is one less. -/
theorem card_comers_leave (s s' : ConnServer ι) {i : ι} {w : WorkerState}
    (hs' : s'.workers = Function.update s.workers i w) (hw : w ≠ .ready ∧ w ≠ .woken)
    (hi : i ∈ s.comers) : s'.comers.card + 1 = s.comers.card := by
  have hset : s'.comers = s.comers.erase i := by
    ext j
    rw [Finset.mem_erase, mem_comers, mem_comers, hs']
    by_cases hj : j = i
    · subst hj
      simp [hw.1, hw.2]
    · simp [hj]
  rw [hset, Finset.card_erase_add_one hi]

/-! ### Workers that cover the queue -/

omit [DecidableEq ι] in
/-- A state in which the threads on the way cover the queue has lost no wake-up. -/
theorem ConnServer.Covered.not_lostWakeup {s : ConnServer ι} (h : s.Covered) :
    ¬ s.LostWakeup := by
  rintro ⟨hpos, hwait, hall⟩
  have hcard := h hwait
  have hne : s.comers.Nonempty := by
    rw [← Finset.card_pos]
    omega
  obtain ⟨i, hi⟩ := hne
  rcases mem_comers.mp hi with hi | hi
  · rcases hall i with hi' | ⟨c, hi'⟩ <;> rw [hi] at hi' <;> simp at hi'
  · rcases hall i with hi' | ⟨c, hi'⟩ <;> rw [hi] at hi' <;> simp at hi'

/-- Every step that meets the condition keeps the cover. -/
theorem ConnServer.Covered.step {s s' : ConnServer ι} {a : ConnAction ι} (h : s.Covered)
    (hfifo : s.Fifo) (hok : s.KeepsUp a) (hstep : ConnStep s a s') : s'.Covered := by
  -- one case for each line of the two loops
  cases connStep_cases hstep with
  | accept clientSd _ => exact h
  | full clientSd _ _ => exact h
  | push clientSd _ hsize hquiet =>
      rintro ⟨i, hi⟩
      -- no signal, so the queue was not empty and the workers on the way cover it
      have hwait : ∃ i, s.workers i = .waiting := ⟨i, hi⟩
      have hcomers : (s.push clientSd).comers = s.comers := rfl
      have hpos : 0 < s.connQSize := by
        have hne : ¬ s.connQSize + 1 = 1 := fun hone => hquiet ⟨hone, hwait⟩
        have hnonneg := hfifo.size_nonneg
        omega
      have hlt : s.connQSize < s.comers.card := hok hpos hsize hwait
      rw [hcomers]
      simp only [ConnServer.push]
      omega
  | pushSignal clientSd i _ _ hone hi =>
      intro _
      -- one more worker is on the way
      have hi' : i ∉ s.comers := by simp [mem_comers, hi]
      have hcard := card_comers_arrive s
        { s.push clientSd with workers := Function.update s.workers i .woken } rfl
        (Or.inr rfl) hi'
      rw [hcard]
      simp only [ConnServer.push]
      omega
  | wakeMain clientSd _ => exact h
  | sleep i _ hsize =>
      intro _
      simp only [hsize]
      omega
  | pop i hi hsize =>
      rintro ⟨j, hj⟩
      have hwait : ∃ i, s.workers i = .waiting := by
        refine ⟨j, ?_⟩
        have hne : j ≠ i := by
          rintro rfl
          simp [ConnServer.pop] at hj
        simpa [ConnServer.pop, hne] using hj
      -- the worker that pops leaves both counts
      have hcard := card_comers_leave s (s.pop i) rfl (by simp) (mem_comers.mpr hi)
      have hcov := h hwait
      simp only [ConnServer.pop] at hcard ⊢
      omega
  | finish i c hi =>
      rintro ⟨j, hj⟩
      have hwait : ∃ i, s.workers i = .waiting := by
        refine ⟨j, ?_⟩
        have hne : j ≠ i := by
          rintro rfl
          simp at hj
        simpa [hne] using hj
      have hi' : i ∉ s.comers := by simp [mem_comers, hi]
      have hcard := card_comers_arrive s
        { s with workers := Function.update s.workers i .ready } rfl (Or.inl rfl) hi'
      have hcov := h hwait
      simp only [hcard]
      omega
  | wake i hi =>
      intro _
      have hi' : i ∉ s.comers := by simp [mem_comers, hi]
      have hcard := card_comers_arrive s
        { s with workers := Function.update s.workers i .woken } rfl (Or.inr rfl) hi'
      have hcov := h ⟨i, hi⟩
      simp only [hcard]
      omega

/-- When connections outnumber the threads on the way and a thread sleeps, the
threads on the way can all leave with a connection, and the wake-up is lost. -/
theorem exists_lostWakeup {s : ConnServer ι} (hwait : ∃ i, s.workers i = .waiting)
    (hcard : s.comers.card < s.connQSize) :
    ∃ acts s', Run ConnStep s acts s' ∧ s'.LostWakeup := by
  induction hn : s.comers.card generalizing s with
  | zero =>
      refine ⟨[], s, Run.nil, by omega, hwait, fun i => ?_⟩
      have hi : i ∉ s.comers := by
        rw [Finset.card_eq_zero.mp hn]
        simp
      cases hw : s.workers i with
      | ready => exact absurd (mem_comers.mpr (Or.inl hw)) hi
      | waiting => exact Or.inl rfl
      | woken => exact absurd (mem_comers.mpr (Or.inr hw)) hi
      | serving c => exact Or.inr ⟨c, rfl⟩
  | succ n ih =>
      obtain ⟨i, hi⟩ : s.comers.Nonempty := by
        rw [← Finset.card_pos]
        omega
      have hready := mem_comers.mp hi
      have hsize : s.connQSize ≠ 0 := by omega
      have hstep : ConnStep s (.dequeue i) (s.pop i) := by
        simp [ConnStep, ConnServer.step, hready, ConnServer.dequeue, hsize]
      have hleave := card_comers_leave s (s.pop i) rfl (by simp) hi
      obtain ⟨j, hj⟩ := hwait
      have hne : j ≠ i := by
        rintro rfl
        simp [hj] at hready
      obtain ⟨acts, s', hrun, hlost⟩ := ih (s := s.pop i)
        ⟨j, by simpa [ConnServer.pop, hne] using hj⟩
        (by simp only [ConnServer.pop] at hleave ⊢; omega) (by omega)
      exact ⟨_, s', (Run.single hstep).append hrun, hlost⟩

/-- **When no wake-up is lost.**  A run whose enqueues all keep up never loses a
wake-up; and an enqueue that does not keep up can be continued to a state in which
one is lost. -/
theorem no_lostWakeup {acts : List (ConnAction ι)} {s : ConnServer ι}
    (h : Run (fun s a s' => s.KeepsUp a ∧ ConnStep s a s') (ConnServer.initial ι) acts s) :
    ¬ s.LostWakeup ∧
      ∀ a s', ConnStep s a s' → ¬ s.KeepsUp a →
        ∃ more s'', Run ConnStep s' more s'' ∧ s''.LostWakeup := by
  constructor
  · have hinv : s.Fifo ∧ s.Covered := by
      refine h.invariant (I := fun _ s => s.Fifo ∧ s.Covered) ⟨fifo_initial, ?_⟩ ?_
      · rintro ⟨i, hi⟩
        simp [ConnServer.initial] at hi
      · rintro _ s a s' ⟨hfifo, hcov⟩ ⟨hok, hstep⟩
        exact ⟨hfifo.step hstep, hcov.step hfifo hok hstep⟩
    exact hinv.2.not_lostWakeup
  · intro a s' hstep hbad
    cases connStep_cases hstep with
    | full clientSd _ hsize => exact absurd (fun _ hne => absurd hsize hne) hbad
    | push clientSd _ _ _ =>
        simp only [ConnServer.KeepsUp, not_forall, not_lt] at hbad
        obtain ⟨_, _, hwait, hle⟩ := hbad
        have hcomers : (s.push clientSd).comers = s.comers := rfl
        refine exists_lostWakeup (s := s.push clientSd) hwait ?_
        rw [hcomers]
        simp only [ConnServer.push]
        omega
    | pushSignal clientSd i _ _ hone _ =>
        simp only [ConnServer.KeepsUp, not_forall, not_lt] at hbad
        obtain ⟨hpos, _⟩ := hbad
        omega
    | accept _ _ => exact absurd trivial hbad
    | wakeMain _ _ => exact absurd trivial hbad
    | sleep _ _ _ => exact absurd trivial hbad
    | pop _ _ _ => exact absurd trivial hbad
    | finish _ _ _ => exact absurd trivial hbad
    | wake _ _ => exact absurd trivial hbad

end WakeUps

/-! ### A pool that keeps up, and one that does not -/

/-- Two connections are queued for two threads on the way, while a third sleeps. -/
theorem no_lostWakeup_two_queued :
    ∃ s : ConnServer (Fin 3), s.connQSize = 2 ∧ s.workers 1 = .waiting ∧ ¬ s.LostWakeup := by
  obtain ⟨s, hs, hsize, hwait⟩ : ∃ s ∈ List.foldlM
      (fun (s : ConnServer (Fin 3)) a => if s.KeepsUp a then s.step a else none)
      (ConnServer.initial (Fin 3))
      [.dequeue 0, .dequeue 1, .accept 7, .enqueue (some 0), .accept 8, .enqueue none],
      s.connQSize = 2 ∧ s.workers 1 = .waiting := by decide
  refine ⟨s, hsize, hwait, (no_lostWakeup ((run_of_foldlM hs).mono ?_)).1⟩
  intro s a s' h
  exact Option.ite_none_right_eq_some.mp h

/-- The pool of five threads is asleep; a second connection arrives before the
thread woken for the first one has taken it. -/
theorem exists_lostWakeup_pool :
    ∃ acts s, Run ConnStep (ConnServer.initial (Fin 5)) acts s ∧ s.LostWakeup := by
  obtain ⟨s, hrun, hlost⟩ := exists_run_of_steps
    [.dequeue 0, .dequeue 1, .dequeue 2, .dequeue 3, .dequeue 4, .accept 7,
      .enqueue (some 0), .accept 8, .enqueue none, .dequeue 0]
    (P := fun s : ConnServer (Fin 5) => s.LostWakeup) (by decide)
  exact ⟨_, s, hrun, hlost⟩
