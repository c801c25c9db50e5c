/-
# The connection queue (`server.c`)

The main thread puts accepted sockets into the circular array `conn_q`; the service
threads take them out.  A section between `lock` (or the return from `wait`) and
`unlock` (or `wait`) is one atomic step.  A thread that waits on a condition
variable is un-signalled until a signal, or a spurious wake-up, makes it one of the
threads that will take the mutex again.  A signal with waiting threads wakes one of
them, any one.

* `connQueue_fifo`: the queue is a bounded FIFO, and the main thread never sleeps
  on a queue with a free slot.
-/
import MessageServer.Transition
import Mathlib.Data.Fintype.Card
import Mathlib.Data.Int.ModEq
import Mathlib.Data.List.OfFn
import Mathlib.Tactic.Linarith

/-! ## State -/

/-- `MAX_CONN_BACKLOG` -/
def maxConnBacklog : ℤ := 10

/-- Where the main thread stands: before `accept`, with a socket that it has to
enqueue, or in the wait for a free slot. -/
inductive MainState
  | accepting
  | holding (clientSd : ℤ)
  | waiting (clientSd : ℤ)
  | woken (clientSd : ℤ)
  deriving DecidableEq, Repr

/-- Where a service thread stands: before the lock, in the wait for a connection,
or serving one. -/
inductive WorkerState
  | ready
  | waiting
  | woken
  | serving (clientSocket : ℤ)
  deriving DecidableEq, Repr

/-- The shared variables, `producer_pos` of the main thread, the threads, and two
histories: the sockets accepted, and the sockets handed to service threads. -/
structure ConnServer (ι : Type) where
  connQ : ℤ → ℤ
  connQSize : ℤ
  serviceThPos : ℤ
  producerPos : ℤ
  main : MainState
  workers : ι → WorkerState
  accepted : List ℤ
  handed : List ℤ

/-- The server when the thread pool has been created. -/
def ConnServer.initial (ι : Type) : ConnServer ι where
  connQ := fun _ => 0
  connQSize := 0
  serviceThPos := 0
  producerPos := 0
  main := .accepting
  workers := fun _ => .ready
  accepted := []
  handed := []

/-- The steps.  `enqueue` names the service thread that its signal wakes. -/
inductive ConnAction (ι : Type)
  | accept (clientSd : ℤ)
  | enqueue (woken : Option ι)
  | wakeMain
  | dequeue (i : ι)
  | finish (i : ι)
  | wake (i : ι)
  deriving DecidableEq, Repr

/-! ## Steps -/

/-- `pthread_cond_signal(&cond_conn_q_not_full)` -/
def MainState.signal : MainState → MainState
  | .waiting clientSd => .woken clientSd
  | m => m

/-- The socket that the main thread has accepted and not yet enqueued. -/
def MainState.held : MainState → List ℤ
  | .accepting => []
  | .holding clientSd => [clientSd]
  | .waiting clientSd => [clientSd]
  | .woken clientSd => [clientSd]

section Steps

variable {ι : Type} [DecidableEq ι] [Fintype ι]

/-- `pthread_cond_signal(&cond_conn_q_not_empty)`, sent when the size is 1: it wakes
one of the waiting threads, if there is one. -/
def ConnServer.signalNotEmpty (s : ConnServer ι) : Option ι → Option (ConnServer ι)
  | none => if s.connQSize = 1 ∧ ∃ i, s.workers i = .waiting then none else some s
  | some i =>
      if s.connQSize = 1 ∧ s.workers i = .waiting then
        some { s with workers := Function.update s.workers i .woken }
      else none

/-! ### The producer and the workers -/

/-- The assignments of the enqueue section. -/
def ConnServer.push (s : ConnServer ι) (clientSd : ℤ) : ConnServer ι :=
  { s with
    connQ := Function.update s.connQ s.producerPos clientSd
    producerPos := (s.producerPos + 1).tmod maxConnBacklog
    connQSize := s.connQSize + 1
    main := .accepting }

/-- The enqueue section of the main thread. -/
def ConnServer.enqueue (s : ConnServer ι) (clientSd : ℤ) (woken : Option ι) :
    Option (ConnServer ι) :=
  if s.connQSize = maxConnBacklog then
    if woken = none then some { s with main := .waiting clientSd } else none
  else (s.push clientSd).signalNotEmpty woken

/-- The assignments of the dequeue section, and its signal. -/
def ConnServer.pop (s : ConnServer ι) (i : ι) : ConnServer ι :=
  { s with
    serviceThPos := (s.serviceThPos + 1).tmod maxConnBacklog
    connQSize := s.connQSize - 1
    main := if s.connQSize - 1 = maxConnBacklog - 1 then s.main.signal else s.main
    workers := Function.update s.workers i (.serving (s.connQ s.serviceThPos))
    handed := s.handed ++ [s.connQ s.serviceThPos] }

/-- The dequeue section of a service thread. -/
def ConnServer.dequeue (s : ConnServer ι) (i : ι) : ConnServer ι :=
  if s.connQSize = 0 then { s with workers := Function.update s.workers i .waiting }
  else s.pop i

/-- One step, if it is possible. -/
def ConnServer.step (s : ConnServer ι) : ConnAction ι → Option (ConnServer ι)
  | .accept clientSd =>
      if s.main = .accepting then
        some { s with main := .holding clientSd, accepted := s.accepted ++ [clientSd] }
      else none
  | .enqueue woken =>
      match s.main with
      | .holding clientSd => s.enqueue clientSd woken
      | .woken clientSd => s.enqueue clientSd woken
      | _ => none
  | .wakeMain =>
      match s.main with
      | .waiting clientSd => some { s with main := .woken clientSd }
      | _ => none
  | .dequeue i =>
      if s.workers i = .ready ∨ s.workers i = .woken then some (s.dequeue i) else none
  | .finish i =>
      match s.workers i with
      | .serving _ => some { s with workers := Function.update s.workers i .ready }
      | _ => none
  | .wake i =>
      if s.workers i = .waiting then
        some { s with workers := Function.update s.workers i .woken }
      else none

/-- The steps as a relation. -/
def ConnStep (s : ConnServer ι) (a : ConnAction ι) (s' : ConnServer ι) : Prop :=
  s.step a = some s'

/-! ### The cases of a step -/

/-- What a step can do. -/
inductive ConnCase (s : ConnServer ι) : ConnAction ι → ConnServer ι → Prop
  | accept (clientSd : ℤ) (hmain : s.main = .accepting) :
      ConnCase s (.accept clientSd)
        { s with main := .holding clientSd, accepted := s.accepted ++ [clientSd] }
  | full (clientSd : ℤ) (hheld : s.main.held = [clientSd])
      (hsize : s.connQSize = maxConnBacklog) :
      ConnCase s (.enqueue none) { s with main := .waiting clientSd }
  | push (clientSd : ℤ) (hheld : s.main.held = [clientSd])
      (hsize : s.connQSize ≠ maxConnBacklog)
      (hquiet : ¬ (s.connQSize + 1 = 1 ∧ ∃ i, s.workers i = .waiting)) :
      ConnCase s (.enqueue none) (s.push clientSd)
  | pushSignal (clientSd : ℤ) (i : ι) (hheld : s.main.held = [clientSd])
      (hsize : s.connQSize ≠ maxConnBacklog) (hone : s.connQSize + 1 = 1)
      (hi : s.workers i = .waiting) :
      ConnCase s (.enqueue (some i))
        { s.push clientSd with workers := Function.update s.workers i .woken }
  | wakeMain (clientSd : ℤ) (hmain : s.main = .waiting clientSd) :
      ConnCase s .wakeMain { s with main := .woken clientSd }
  | sleep (i : ι) (hi : s.workers i = .ready ∨ s.workers i = .woken)
      (hsize : s.connQSize = 0) :
      ConnCase s (.dequeue i) { s with workers := Function.update s.workers i .waiting }
  | pop (i : ι) (hi : s.workers i = .ready ∨ s.workers i = .woken)
      (hsize : s.connQSize ≠ 0) : ConnCase s (.dequeue i) (s.pop i)
  | finish (i : ι) (clientSocket : ℤ) (hi : s.workers i = .serving clientSocket) :
      ConnCase s (.finish i) { s with workers := Function.update s.workers i .ready }
  | wake (i : ι) (hi : s.workers i = .waiting) :
      ConnCase s (.wake i) { s with workers := Function.update s.workers i .woken }

theorem enqueue_cases {s s' : ConnServer ι} {clientSd : ℤ} {woken : Option ι}
    (hheld : s.main.held = [clientSd]) (h : s.enqueue clientSd woken = some s') :
    ConnCase s (.enqueue woken) s' := by
  unfold ConnServer.enqueue at h
  split at h
  · rename_i hsize
    obtain ⟨rfl, h⟩ := Option.ite_none_right_eq_some.mp h
    obtain rfl := Option.some.inj h
    exact ConnCase.full clientSd hheld hsize
  · rename_i hsize
    cases woken with
    | none =>
        obtain ⟨hquiet, h⟩ := Option.ite_none_left_eq_some.mp h
        obtain rfl := Option.some.inj h
        exact ConnCase.push clientSd hheld hsize hquiet
    | some i =>
        obtain ⟨⟨hone, hi⟩, h⟩ := Option.ite_none_right_eq_some.mp h
        obtain rfl := Option.some.inj h
        exact ConnCase.pushSignal clientSd i hheld hsize hone hi

/-- A step is one of the cases. -/
theorem connStep_cases {s s' : ConnServer ι} {a : ConnAction ι} (h : ConnStep s a s') :
    ConnCase s a s' := by
  unfold ConnStep at h
  cases a with
  | accept clientSd =>
      obtain ⟨hmain, h⟩ := Option.ite_none_right_eq_some.mp h
      obtain rfl := Option.some.inj h
      exact ConnCase.accept clientSd hmain
  | enqueue woken =>
      simp only [ConnServer.step] at h
      split at h
      · rename_i clientSd hmain
        exact enqueue_cases (by rw [hmain]; rfl) h
      · rename_i clientSd hmain
        exact enqueue_cases (by rw [hmain]; rfl) h
      · exact absurd h (by simp)
  | wakeMain =>
      simp only [ConnServer.step] at h
      split at h
      · rename_i clientSd hmain
        obtain rfl := Option.some.inj h
        exact ConnCase.wakeMain clientSd hmain
      · exact absurd h (by simp)
  | dequeue i =>
      obtain ⟨hi, h⟩ := Option.ite_none_right_eq_some.mp h
      obtain rfl := Option.some.inj h
      unfold ConnServer.dequeue
      split
      · rename_i hsize
        exact ConnCase.sleep i hi hsize
      · rename_i hsize
        exact ConnCase.pop i hi hsize
  | finish i =>
      simp only [ConnServer.step] at h
      split at h
      · rename_i clientSocket hi
        obtain rfl := Option.some.inj h
        exact ConnCase.finish i clientSocket hi
      · exact absurd h (by simp)
  | wake i =>
      obtain ⟨hi, h⟩ := Option.ite_none_right_eq_some.mp h
      obtain rfl := Option.some.inj h
      exact ConnCase.wake i hi

end Steps

/-! ## The queue is a bounded FIFO -/

section Fifo

variable {ι : Type}

/-- The queue, oldest connection first. -/
def ConnServer.contents (s : ConnServer ι) : List ℤ :=
  (List.range s.connQSize.toNat).map fun k : ℕ => s.connQ ((s.serviceThPos + k) % maxConnBacklog)

/-- The invariant that links the two positions, the size, the array and the
histories. -/
structure ConnServer.Fifo (s : ConnServer ι) : Prop where
  size_nonneg : 0 ≤ s.connQSize
  size_le : s.connQSize ≤ maxConnBacklog
  pos_nonneg : 0 ≤ s.serviceThPos
  pos_lt : s.serviceThPos < maxConnBacklog
  producer_eq : s.producerPos = (s.serviceThPos + s.connQSize) % maxConnBacklog
  history : s.accepted = s.handed ++ (s.contents ++ s.main.held)
  full_of_waiting : ∀ clientSd, s.main = .waiting clientSd → s.connQSize = maxConnBacklog

/-! ### Positions in the ring -/

/-- The next position; the remainder of a non-negative number is the one of C. -/
theorem tmod_maxConnBacklog {p : ℤ} (hp : 0 ≤ p) :
    (p + 1).tmod maxConnBacklog = (p + 1) % maxConnBacklog :=
  Int.tmod_eq_emod_of_nonneg (by omega)

theorem held_signal (m : MainState) : m.signal.held = m.held := by
  cases m <;> rfl

/-- The slots of the queue differ from the one the producer writes next. -/
theorem slot_ne_producer {p size : ℤ} {k : ℕ} (hk : (k : ℤ) < size) (hsize : size < 10) :
    (p + k) % 10 ≠ (p + size) % 10 := by
  omega

/-- Enqueueing appends to the contents. -/
theorem contents_push {s : ConnServer ι} (h : s.Fifo) (hsize : s.connQSize ≠ maxConnBacklog)
    (clientSd : ℤ) : (s.push clientSd).contents = s.contents ++ [clientSd] := by
  have hlt : s.connQSize < maxConnBacklog := lt_of_le_of_ne h.size_le hsize
  obtain ⟨n, hn⟩ := Int.eq_ofNat_of_zero_le h.size_nonneg
  have hnat : (s.connQSize + 1).toNat = n + 1 := by omega
  have hnat' : s.connQSize.toNat = n := by omega
  simp only [ConnServer.contents, ConnServer.push, hnat, hnat', List.range_succ, List.map_append,
    List.map_cons, List.map_nil]
  congr 1
  · refine List.map_congr_left fun k hk => ?_
    rw [h.producer_eq]
    refine Function.update_of_ne (slot_ne_producer ?_ hlt) _ _
    rw [List.mem_range] at hk
    omega
  · rw [h.producer_eq, hn]
    simp

/-- Dequeueing takes the first of the contents. -/
theorem contents_pop [DecidableEq ι] {s : ConnServer ι} (h : s.Fifo)
    (hsize : s.connQSize ≠ 0) (i : ι) :
    s.contents = s.connQ s.serviceThPos :: (s.pop i).contents := by
  have hpos : 0 < s.connQSize := lt_of_le_of_ne h.size_nonneg (Ne.symm hsize)
  have hnat : s.connQSize.toNat = (s.connQSize - 1).toNat + 1 := by omega
  have hfirst : (s.serviceThPos + (0 : ℕ)) % maxConnBacklog = s.serviceThPos := by
    rw [Nat.cast_zero, add_zero]
    exact Int.emod_eq_of_lt h.pos_nonneg h.pos_lt
  simp only [ConnServer.contents, ConnServer.pop]
  rw [hnat, List.range_succ_eq_map, List.map_cons, List.map_map, hfirst]
  congr 1
  refine List.map_congr_left fun k _ => ?_
  simp only [Function.comp, tmod_maxConnBacklog h.pos_nonneg]
  congr 1
  simp only [maxConnBacklog]
  push_cast
  omega

/-! ### The invariant -/

theorem fifo_initial : (ConnServer.initial ι).Fifo where
  size_nonneg := le_refl _
  size_le := by simp [ConnServer.initial, maxConnBacklog]
  pos_nonneg := le_refl _
  pos_lt := by simp [ConnServer.initial, maxConnBacklog]
  producer_eq := rfl
  history := rfl
  full_of_waiting := by
    intro clientSd h
    exact absurd h (by simp [ConnServer.initial])

/-- Changing only where service threads stand keeps the invariant. -/
theorem ConnServer.Fifo.workers {s : ConnServer ι} (h : s.Fifo) (workers : ι → WorkerState) :
    ({ s with workers := workers } : ConnServer ι).Fifo :=
  ⟨h.size_nonneg, h.size_le, h.pos_nonneg, h.pos_lt, h.producer_eq, h.history,
    h.full_of_waiting⟩

theorem ConnServer.Fifo.push {s : ConnServer ι} (h : s.Fifo) {clientSd : ℤ}
    (hheld : s.main.held = [clientSd]) (hsize : s.connQSize ≠ maxConnBacklog) :
    (s.push clientSd).Fifo := by
  have hlt : s.connQSize < maxConnBacklog := lt_of_le_of_ne h.size_le hsize
  have hnonneg := h.size_nonneg
  have hpos := h.pos_nonneg
  refine ⟨?_, ?_, hpos, h.pos_lt, ?_, ?_, ?_⟩
  · simp only [ConnServer.push]
    omega
  · simp only [ConnServer.push]
    omega
  · have hprod := h.producer_eq
    have hprod_nonneg : 0 ≤ s.producerPos := by
      rw [hprod]
      exact Int.emod_nonneg _ (by decide)
    simp only [ConnServer.push, tmod_maxConnBacklog hprod_nonneg]
    simp only [maxConnBacklog] at hprod ⊢
    omega
  · rw [contents_push h hsize]
    have hhist := h.history
    rw [hheld] at hhist
    simpa [ConnServer.push, MainState.held] using hhist
  · intro sd hmain
    simp [ConnServer.push] at hmain

theorem ConnServer.Fifo.pop [DecidableEq ι] {s : ConnServer ι} (h : s.Fifo)
    (hsize : s.connQSize ≠ 0) (i : ι) :
    (s.pop i).Fifo := by
  have hpos : 0 < s.connQSize := lt_of_le_of_ne h.size_nonneg (Ne.symm hsize)
  have hle := h.size_le
  have hp := h.pos_nonneg
  have hmod := tmod_maxConnBacklog hp
  have hmain : (s.pop i).main.held = s.main.held := by
    simp only [ConnServer.pop]
    split
    · exact held_signal s.main
    · rfl
  refine ⟨?_, ?_, ?_, ?_, ?_, ?_, ?_⟩
  · simp only [ConnServer.pop]
    omega
  · simp only [ConnServer.pop]
    omega
  · simp only [ConnServer.pop, hmod]
    exact Int.emod_nonneg _ (by decide)
  · simp only [ConnServer.pop, hmod]
    exact Int.emod_lt_of_pos _ (by decide)
  · have hprod := h.producer_eq
    simp only [ConnServer.pop, hmod]
    simp only [maxConnBacklog] at hprod ⊢
    omega
  · have hhist := h.history
    rw [contents_pop h hsize i] at hhist
    rw [hmain]
    simpa [ConnServer.pop] using hhist
  · -- a main thread that waits sleeps on a full queue, so the signal has reached it
    intro sd hwait
    simp only [ConnServer.pop] at hwait
    split at hwait
    · cases hm : s.main <;> rw [hm] at hwait <;> simp [MainState.signal] at hwait
    · rename_i hne
      exact absurd (h.full_of_waiting sd hwait) (by omega)

/-- Every step keeps the invariant. -/
theorem ConnServer.Fifo.step [DecidableEq ι] [Fintype ι] {s s' : ConnServer ι}
    {a : ConnAction ι} (h : s.Fifo)
    (hstep : ConnStep s a s') : s'.Fifo := by
  cases connStep_cases hstep with
  | accept clientSd hmain =>
      refine { h with history := ?_, full_of_waiting := ?_ }
      · have hhist := h.history
        simp only [hmain, MainState.held, List.append_nil] at hhist
        simp [hhist, MainState.held, ConnServer.contents]
      · intro sd hwait
        simp at hwait
  | full clientSd hheld hsize =>
      refine { h with history := ?_, full_of_waiting := ?_ }
      · have hhist := h.history
        rw [hheld] at hhist
        exact hhist
      · intro _ _
        exact hsize
  | push clientSd hheld hsize _ => exact h.push hheld hsize
  | pushSignal clientSd i hheld hsize _ _ => exact (h.push hheld hsize).workers _
  | wakeMain clientSd hmain =>
      refine { h with history := ?_, full_of_waiting := ?_ }
      · have hhist := h.history
        rw [hmain] at hhist
        exact hhist
      · intro sd hwait
        simp at hwait
  | sleep i _ _ => exact h.workers _
  | pop i _ hsize => exact h.pop hsize i
  | finish i _ _ => exact h.workers _
  | wake i _ => exact h.workers _

/-- **The connection queue is a correct bounded FIFO.**  In every reachable state
the size and the positions are in range and fit together; the accepted sockets are
those handed to service threads, then the queue, then the one the main thread still
holds; and the main thread is not asleep, un-signalled, on a queue with a free
slot. -/
theorem connQueue_fifo [DecidableEq ι] [Fintype ι] {acts : List (ConnAction ι)}
    {s : ConnServer ι}
    (h : Run ConnStep (ConnServer.initial ι) acts s) :
    (0 ≤ s.connQSize ∧ s.connQSize ≤ maxConnBacklog) ∧
      s.producerPos ≡ s.serviceThPos + s.connQSize [ZMOD maxConnBacklog] ∧
      (0 ≤ s.serviceThPos ∧ s.serviceThPos < maxConnBacklog) ∧
      (0 ≤ s.producerPos ∧ s.producerPos < maxConnBacklog) ∧
      s.accepted = s.handed ++ (s.contents ++ s.main.held) ∧
      s.contents.length = s.connQSize ∧
      ¬ (s.connQSize < maxConnBacklog ∧ ∃ clientSd, s.main = .waiting clientSd) := by
  have hinv : s.Fifo := h.invariant (I := fun _ s => s.Fifo) fifo_initial
    fun _ _ _ _ hs hstep => hs.step hstep
  have hprod := hinv.producer_eq
  have hnonneg := hinv.size_nonneg
  refine ⟨⟨hinv.size_nonneg, hinv.size_le⟩, ?_,
    ⟨hinv.pos_nonneg, hinv.pos_lt⟩, ⟨?_, ?_⟩,
    hinv.history, ?_, ?_⟩
  · rw [hprod]
    exact Int.mod_modEq _ _
  · rw [hprod]
    exact Int.emod_nonneg _ (by decide)
  · rw [hprod]
    exact Int.emod_lt_of_pos _ (by decide)
  · simp only [ConnServer.contents, List.length_map, List.length_range]
    omega
  · rintro ⟨hlt, sd, hwait⟩
    have := hinv.full_of_waiting sd hwait
    omega

end Fifo

/-! ### A run of the queue -/

/-- A computed run from the start, with what it shows of the state it ends in. -/
theorem exists_run_of_steps {n : ℕ} (acts : List (ConnAction (Fin n)))
    {P : ConnServer (Fin n) → Prop}
    (h : ∃ s ∈ acts.foldlM ConnServer.step (ConnServer.initial (Fin n)), P s) :
    ∃ s, Run ConnStep (ConnServer.initial (Fin n)) acts s ∧ P s := by
  obtain ⟨s, hs, hP⟩ := h
  exact ⟨s, run_of_foldlM hs, hP⟩

/-- One connection is served while the next one waits in the queue. -/
theorem connQueue_fifo_served_queued :
    ∃ s : ConnServer (Fin 2), s.handed = [7] ∧ s.contents = [8] ∧
      s.accepted = s.handed ++ (s.contents ++ s.main.held) := by
  obtain ⟨s, hrun, hhanded, hcontents⟩ := exists_run_of_steps
    [.accept 7, .enqueue none, .dequeue 0, .accept 8, .enqueue none]
    (P := fun s : ConnServer (Fin 2) => s.handed = [7] ∧ s.contents = [8]) (by decide)
  exact ⟨s, hhanded, hcontents, (connQueue_fifo hrun).2.2.2.2.1⟩
