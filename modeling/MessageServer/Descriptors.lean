/-
# The descriptors of the process

The sockets of all connections are descriptors of the one process: a number that has been closed may
be the next one that any thread gets.

* `Descriptors`, `Process`, `ProcessStep`: any number of connections served at the same time;
* `connectionEvents`: what the thread of one connection has done;
* what the connections hold, from the phases of their threads.
-/
import MessageServer.SocketHistory
import MessageServer.Interleaving
import MessageServer.Leases

/-! ## Descriptors -/

/-- The descriptors that are sockets of the connections `ι`, and the two variables of each. -/
structure Descriptors (ι : Type) where
  table : Leases ι
  client : ι → Option ℕ
  listener : ι → Option ℕ

/-- The descriptor of connection `i` for a socket. -/
def Descriptors.fd {ι : Type} (d : Descriptors ι) (i : ι) : Sock → Option ℕ
  | .client => d.client i
  | .listener => d.listener i

/-- `close`, on whatever has this number. -/
def Descriptors.closed {ι : Type} (d : Descriptors ι) (n : Option ℕ) : Descriptors ι :=
  { d with table := n.elim d.table d.table.remove }

/-- What a step of connection `i` does to the descriptors: a new socket may get any free number. -/
inductive Descriptors.Step {ι : Type} [DecidableEq ι] (d : Descriptors ι) (i : ι) :
    srvE.Event → Descriptors ι → Prop
  | socket {n : ℕ} (hfree : d.table.Free n) :
      Step d i ⟨.socket, true⟩
      ⟨d.table.add i n hfree, d.client, Function.update d.listener i (some n)⟩
  | close (sock : Sock) : Step d i ⟨.close sock, ()⟩ (d.closed (d.fd i sock))
  | other {e : srvE.Event} (hsocket : e ≠ ⟨.socket, true⟩)
      (hclose : ∀ sock, e.1 ≠ .close sock) : Step d i e d

/-- The connections that are served, with what is left of their service threads. -/
structure Process (ι : Type) where
  descriptors : Descriptors ι
  left : ι → Option (Srv (Option Unit))

/-- Nothing has been accepted. -/
def Process.start (ι : Type) : Process ι :=
  ⟨⟨.none, fun _ => none, fun _ => none⟩, fun _ => none⟩

/-- What happens to a connection: it is accepted, or its service thread takes a step. -/
abbrev ProcessLabel (ι : Type) : Type := ι × Option srvE.Event

/-- A connection is accepted on a free descriptor, or a service thread takes a step; whatever is
answered may be answered. -/
inductive ProcessStep {ι : Type} [DecidableEq ι] (s : Process ι) :
    ProcessLabel ι → Process ι → Prop
  | accepted {i : ι} {n fuel : ℕ} {mem : Bytes} (hnew : s.left i = none)
      (hfree : s.descriptors.table.Free n) :
      ProcessStep s (i, none)
        ⟨⟨s.descriptors.table.add i n hfree, Function.update s.descriptors.client i (some n),
            s.descriptors.listener⟩,
          Function.update s.left i (some (serviceThreadMem fuel mem))⟩
  | did {i : ι} {o : SrvOp} {k : o.Ans → Srv (Option Unit)} {x : o.Ans} {d : Descriptors ι}
      (hleft : s.left i = some (.call o k)) (hstep : s.descriptors.Step i ⟨o, x⟩ d) :
      ProcessStep s (i, some ⟨o, x⟩) ⟨d, Function.update s.left i (some (k x))⟩

/-- What a step is on is an open descriptor of the connection itself. -/
def Process.OnOwn {ι : Type} (s : Process ι) (l : ProcessLabel ι) : Prop :=
  ∀ e sock, l.2 = some e → e.1.uses = some sock →
    ∃ n, s.descriptors.fd l.1 sock = some n ∧ s.descriptors.table.Owns l.1 n

/-- What the service thread of connection `i` has done. -/
def connectionEvents {ι : Type} [DecidableEq ι] (i : ι) (L : List (ProcessLabel ι)) :
    List srvE.Event :=
  L.filterMap fun l => if l.1 = i then l.2 else none

/-- A run with the labels `L` to `s` has stood, before each of its steps, where the step is on an
open descriptor of its own connection. -/
def OwnsThroughout {ι : Type} [DecidableEq ι] (L : List (ProcessLabel ι)) (s : Process ι) :
    Prop :=
  ∀ L₁ l L₂ s₁ s₂, L = L₁ ++ l :: L₂ →
    Run ProcessStep (Process.start ι) L₁ s₁ →
    ProcessStep s₁ l s₂ → Run ProcessStep s₂ L₂ s → s₁.OnOwn l

section Events

variable {ι : Type} [DecidableEq ι] {i j : ι} {L : List (ProcessLabel ι)}

theorem connectionEvents_accepted :
    connectionEvents i (L ++ [(j, none)]) = connectionEvents i L := by
  rw [connectionEvents, List.filterMap_append]
  by_cases hj : j = i <;> simp [connectionEvents, hj]

theorem connectionEvents_self {e : srvE.Event} :
    connectionEvents i (L ++ [(i, some e)]) = connectionEvents i L ++ [e] := by
  rw [connectionEvents, List.filterMap_append]
  simp [connectionEvents]

theorem connectionEvents_of_ne {e : srvE.Event} (h : j ≠ i) :
    connectionEvents i (L ++ [(j, some e)]) = connectionEvents i L := by
  rw [connectionEvents, List.filterMap_append]
  simp [connectionEvents, h]

end Events

/-! ### What the connections hold -/

/-- What connection `i` has open, by the phases it is in and what it has done. -/
structure Holds {ι : Type} [DecidableEq ι] (d : Descriptors ι) (i : ι) (ph : SockPhase)
    (evs : List srvE.Event) :
    Prop where
  client : ph.1 ≠ .closed → ∃ n, d.client i = some n ∧ d.table.Owns i n
  listener : ph.2.has = true → ∃ n, d.listener i = some n ∧ d.table.Owns i n ∧
    (ph.1 ≠ .closed → d.client i ≠ some n)
  stale : ph.2 = .stale → ∃ n, d.listener i = some n ∧ ¬ d.table.Owns i n
  count : d.table.count i =
    (if ph.1 = .closed then 0 else 1) + (if ph.2.has = true then 1 else 0) + evs.countP isUnreached

section Holding

variable {ι : Type} [DecidableEq ι] {d d' : Descriptors ι} {i j : ι} {ph : SockPhase}
  {evs : List srvE.Event}
  {o : SrvOp} {x : o.Ans}

/-- An allowed step is on a descriptor of its own. -/
theorem Holds.owns (h : Holds d i ph evs) (hallowed : sockets.allowed ph o)
    (hstale : ph.2 ≠ .stale)
    (hastray : ph.2 ≠ .astray) {sock : Sock} (huses : o.uses = some sock) :
    ∃ n, d.fd i sock = some n ∧ d.table.Owns i n := by
  obtain ⟨hclient, hlisten⟩ := hallowed
  cases sock with
  | client =>
      refine h.client fun hclosed => ?_
      rw [hclosed] at hclient
      exact hclient huses
  | listener =>
      have hhas : ph.2.has = true := by
        cases hl : ph.2 with
        | idle =>
            rw [hl] at hlisten
            exact absurd huses hlisten
        | stale => exact absurd hl hstale
        | astray => exact absurd hl hastray
        | _ => rfl
      obtain ⟨n, hfd, howns, -⟩ := h.listener hhas
      exact ⟨n, hfd, howns⟩

/-- A socket that has been closed is not used again by a step that is on a descriptor of its own. -/
theorem Holds.not_stale (h : Holds d i ph evs) (hallowed : sockets.allowed ph o)
    (hown : ∀ sock, o.uses = some sock → ∃ n, d.fd i sock = some n ∧ d.table.Owns i n) :
    ph.2 ≠ .stale := by
  intro hstale
  obtain ⟨n, hfd, hnot⟩ := h.stale hstale
  have huses : o.uses = some .listener := by
    have hlisten := hallowed.2
    rw [hstale] at hlisten
    rcases hlisten with ⟨bytes, rfl⟩ | rfl <;> rfl
  obtain ⟨m, hm, howns⟩ := hown .listener huses
  obtain rfl : n = m := Option.some.inj (hfd.symm.trans hm)
  exact hnot howns

/-- Nothing changes for `j`. -/
structure SameFor (j : ι) (d d' : Descriptors ι) : Prop where
  client : d'.client j = d.client j
  listener : d'.listener j = d.listener j
  owns : ∀ n, d'.table.Owns j n ↔ d.table.Owns j n
  count : d'.table.count j = d.table.count j

theorem Holds.same (h : Holds d j ph evs) (hsame : SameFor j d d') : Holds d' j ph evs := by
  refine ⟨fun hc => ?_, fun hl => ?_, fun hs => ?_, ?_⟩
  · rw [hsame.client]
    simp only [hsame.owns]
    exact h.client hc
  · rw [hsame.client, hsame.listener]
    simp only [hsame.owns]
    exact h.listener hl
  · rw [hsame.listener]
    simp only [hsame.owns]
    exact h.stale hs
  · rw [hsame.count]
    exact h.count

/-! ### What concerns another connection only -/

theorem sameFor_add {n : ℕ} {hfree : d.table.Free n} {client listener : ι → Option ℕ}
    (hne : i ≠ j)
    (hclient : client j = d.client j) (hlistener : listener j = d.listener j) :
    SameFor j d ⟨d.table.add i n hfree, client, listener⟩ := by
  have hcount : (d.table.add i n hfree).count j = d.table.count j := Leases.count_add_of_ne hne
  refine ⟨hclient, hlistener, fun m => ?_, hcount⟩
  show (d.table.add i n hfree).Owns j m ↔ _
  rw [Leases.owns_add]
  exact or_iff_right fun h => hne h.2.symm

/-- What is closed is held for nobody else. -/
theorem sameFor_closed {n : ℕ} (hne : i ≠ j) (howns : d.table.Owns i n) :
    SameFor j d (d.closed (some n)) := by
  refine ⟨rfl, rfl, fun m => ?_, Leases.count_remove_of_ne howns hne⟩
  show (d.table.remove n).Owns j m ↔ _
  rw [Leases.owns_remove]
  refine and_iff_left_of_imp fun hm heq => ?_
  subst heq
  exact hne (howns.unique hm)

/-- A step on a descriptor of its own changes nothing for others. -/
theorem Descriptors.Step.sameFor (h : d.Step i ⟨o, x⟩ d') (hne : i ≠ j)
    (hown : ∀ sock, o.uses = some sock → ∃ n, d.fd i sock = some n ∧ d.table.Owns i n) :
    SameFor j d d' := by
  cases h with
  | socket hfree => exact sameFor_add hne rfl (Function.update_of_ne hne.symm _ _)
  | close sock =>
      obtain ⟨n, hfd, howns⟩ := hown sock rfl
      rw [hfd]
      exact sameFor_closed hne howns
  | other hsocket hclose => exact ⟨rfl, rfl, fun _ => Iff.rfl, rfl⟩

/-! ### Moves of the own connection -/

theorem next_closed_iff {c : ClientPhase} (h : c.allows o) :
    c.next ⟨o, x⟩ = .closed ↔ c = .closed ∨ o = .close .client := by
  cases c with
  | opened =>
      refine iff_of_false ?_ (not_or.mpr ⟨nofun, h⟩)
      cases o with
      | recv buf =>
          show (if (x : ℤ × Bytes).1 < 0 then ClientPhase.failed else .opened) ≠ .closed
          split <;> exact nofun
      | write sock bytes => cases sock <;> cases x <;> exact nofun
      | close sock =>
          cases sock with
          | client => exact absurd rfl h
          | listener => exact nofun
      | _ => exact nofun
  | failed =>
      obtain rfl : o = .close .client := h
      exact iff_of_true rfl (Or.inr rfl)
  | closed => exact iff_of_true (next_offClient h x) (Or.inl rfl)

theorem ListenMove.of_socket {l l' : ListenPhase} (h : ListenMove l ⟨.socket, true⟩ l') :
    l = .idle ∧ l' = .fresh := by
  cases h with
  | off ho hsocket => exact absurd rfl hsocket
  | socket => exact ⟨rfl, rfl⟩

theorem ListenMove.of_close {l l' : ListenPhase} (h : ListenMove l ⟨.close .listener, ()⟩ l') :
    l.has = true ∧ l'.has = false := by
  cases h with
  | off ho hsocket => exact absurd rfl ho
  | _ => exact ⟨rfl, rfl⟩

theorem ListenMove.of_close_client {l l' : ListenPhase}
    (h : ListenMove l ⟨.close .client, ()⟩ l') :
    l.has = false ∧ l'.has = false ∧ l' ≠ .stale := by
  cases h with
  | off ho hsocket => exact ⟨rfl, rfl, nofun⟩

/-- What is open behind any other step. -/
theorem ListenMove.has_add {l l' : ListenPhase} {e : srvE.Event} (h : ListenMove l e l')
    (hsocket : e ≠ ⟨.socket, true⟩) (hclose : e.1 ≠ .close .listener) :
    l' ≠ .stale ∧ (l'.has = true → l.has = true) ∧
      (if l'.has = true then 1 else 0) + (if isUnreached e = true then 1 else 0) =
        (if l.has = true then 1 else 0) := by
  cases h with
  | @off o x ho _ =>
      have hun : isUnreached ⟨o, x⟩ = false := by
        cases o with
        | connect ip port => exact absurd rfl ho
        | _ => rfl
      refine ⟨nofun, id, ?_⟩
      rw [hun]
      rfl
  | socket => exact absurd rfl hsocket
  | sent => exact absurd rfl hclose
  | acked => exact absurd rfl hclose
  | dropped => exact absurd rfl hclose
  | lost => exact absurd rfl hclose
  | noSocket => exact ⟨nofun, id, rfl⟩
  | unreached ip port => exact ⟨nofun, nofun, rfl⟩
  | _ => exact ⟨nofun, fun _ => rfl, rfl⟩

/-- **What a connection holds behind a step on a descriptor of its own.** -/
theorem Holds.step (h : Holds d i ph evs) (hallowed : sockets.allowed ph o)
    (hstale : ph.2 ≠ .stale)
    (hastray : ph.2 ≠ .astray) (hstep : d.Step i ⟨o, x⟩ d') :
    Holds d' i (sockets.next ph o x) (evs ++ [⟨o, x⟩]) := by
  have hmoved : ListenMove ph.2 ⟨o, x⟩ (ph.2.next ⟨o, x⟩) :=
    listenMove_next hallowed.2 hstale hastray
  have hclosed := next_closed_iff (x := x) hallowed.1
  have hcount := h.count
  obtain ⟨c, l⟩ := ph
  change Holds d' i (c.next ⟨o, x⟩, l.next ⟨o, x⟩) _
  simp only at hmoved hclosed hcount
  have hevs : ∀ {e : srvE.Event}, isUnreached e = false →
      (evs ++ [e]).countP isUnreached = evs.countP isUnreached := by
    intro e he
    rw [List.countP_append, List.countP_singleton, he]
    rfl
  cases hstep with
  | @socket n hfree =>
      -- a new socket is another number than that of the client's
      obtain ⟨rfl, hfresh⟩ := hmoved.of_socket
      have hclient : c ≠ .closed → ∃ m, d.client i = some m ∧ d.table.Owns i m := h.client
      rw [hfresh]
      refine ⟨fun hc => ?_, fun _ => ⟨n, Function.update_self .., ?_, fun hc heq => ?_⟩,
        nofun, ?_⟩
      · obtain ⟨m, hfd, howns⟩ := hclient hc
        exact ⟨m, hfd, howns.add hfree⟩
      · exact Leases.owns_added hfree
      · obtain ⟨m, hfd, howns⟩ := hclient hc
        obtain rfl := Option.some.inj (hfd.symm.trans heq)
        exact howns.not_free hfree
      · show (d.table.add i n hfree).count i = _
        have hidle : (if ListenPhase.idle.has = true then 1 else 0) = 0 := rfl
        have hopen : (if ListenPhase.fresh.has = true then 1 else 0) = 1 := rfl
        rw [hidle] at hcount
        rw [Leases.count_add_self, hcount, hevs rfl, hopen]
        show _ = (if c = .closed then 0 else 1) + 1 + _
        omega
  | close sock =>
      cases sock with
      | client =>
          -- the client's socket is closed when it has failed
          have hc : c = .failed := by
            cases c with
            | opened => exact absurd rfl hallowed.1
            | failed => rfl
            | closed => exact absurd rfl hallowed.1
          subst hc
          obtain ⟨hhas, hhas', hnot⟩ := hmoved.of_close_client
          obtain ⟨n, hfd, howns⟩ := h.client nofun
          have hremove := Leases.count_remove_self howns
          have hfd' : d.fd i .client = some n := hfd
          rw [hfd']
          refine ⟨fun hc => absurd rfl hc, fun hl => ?_, fun hs => absurd hs hnot, ?_⟩
          · rw [hhas'] at hl
            cases hl
          · show (d.table.remove n).count i = _
            have hnext : ClientPhase.next .failed ⟨.close .client, ()⟩ = .closed := rfl
            rw [if_neg nofun, hhas, if_neg Bool.false_ne_true] at hcount
            rw [hevs rfl, hhas', if_neg Bool.false_ne_true, if_pos hnext]
            omega
      | listener =>
          -- the first close of the listening socket leaves a stale number behind
          obtain ⟨hhas, hhas'⟩ := hmoved.of_close
          obtain ⟨n, hfd, howns, hdiffer⟩ := h.listener hhas
          have hremove := Leases.count_remove_self howns
          have hfd' : d.fd i .listener = some n := hfd
          rw [hfd']
          refine ⟨fun hc => ?_, fun hl => ?_, fun _ => ⟨n, hfd, fun hown => ?_⟩, ?_⟩
          · obtain ⟨m, hm, hown⟩ := h.client hc
            refine ⟨m, hm, Leases.owns_remove.mpr ⟨hown, fun heq => ?_⟩⟩
            subst heq
            exact hdiffer hc hm
          · rw [hhas'] at hl
            cases hl
          · exact (Leases.owns_remove.mp hown).2 rfl
          · show (d.table.remove n).count i = _
            rw [hhas, if_pos rfl] at hcount
            rw [hevs rfl, hhas', if_neg Bool.false_ne_true]
            show _ = (if c = .closed then 0 else 1) + 0 + _
            omega
  | other hsocket hclose =>
      -- no other step touches the table
      obtain ⟨hnot, hhas, hadd⟩ := hmoved.has_add hsocket (hclose .listener)
      have hsame : c.next ⟨o, x⟩ = .closed ↔ c = .closed := by
        rw [hclosed]
        exact or_iff_left (hclose .client)
      refine ⟨fun hc => h.client fun heq => hc (hsame.mpr heq), fun hl => ?_,
        fun hs => absurd hs hnot, ?_⟩
      · obtain ⟨n, hfd, howns, hdiffer⟩ := h.listener (hhas hl)
        exact ⟨n, hfd, howns, fun hc => hdiffer fun heq => hc (hsame.mpr heq)⟩
      · rw [hcount, List.countP_append, List.countP_singleton]
        simp only [hsame]
        omega

end Holding
