/-
# What a thread has done to its sockets

The events of a thread tell how far it has come with its two sockets.

* `AckFails`: a write of an acknowledgement to a listening thread has failed;
* `clientFails`, `isUnreached`: a failure on the client's own socket, a listener that was not
  reached;
* the lemmas that read the phase of a thread off its events.
-/
import MessageServer.SocketServices

/-! ## What a thread has done -/

/-- The last thing that was done is a connection to a listening thread. -/
def Connected (evs : List srvE.Event) : Prop :=
  ∃ ip port, [(⟨.connect ip port, true⟩ : srvE.Event)] <:+ evs

/-- The last thing that was done is to write `SEND_MESS_ACK` on a new connection. -/
def Acking (evs : List srvE.Event) : Prop :=
  ∃ ip port,
    [⟨.connect ip port, true⟩, (⟨.write .listener ackCode, true⟩ : srvE.Event)] <:+ evs

/-- A write of an acknowledgement fails: that of its operation code, or the one behind. -/
def AckFails (evs : List srvE.Event) : Prop :=
  ∃ ip port,
    [⟨.connect ip port, true⟩, (⟨.write .listener ackCode, false⟩ : srvE.Event)] <:+:
      evs ∨
    ∃ bytes, [⟨.connect ip port, true⟩, ⟨.write .listener ackCode, true⟩,
      (⟨.write .listener bytes, false⟩ : srvE.Event)] <:+: evs

/-- Something fails on the client's socket. -/
def clientFails : srvE.Event → Bool
  | ⟨.recv _, r⟩ => decide (r.1 < 0)
  | ⟨.write .client _, ok⟩ => !ok
  | _ => false

/-- A listening thread is not reached. -/
def isUnreached : srvE.Event → Bool
  | ⟨.connect _ _, ok⟩ => !ok
  | _ => false

section Histories

variable {evs : List srvE.Event} {e : srvE.Event}

/-- Two lists end in the same way. -/
theorem snoc_suffix_snoc {α : Type} {l l' : List α} {b c : α} :
    l ++ [b] <:+ l' ++ [c] ↔ b = c ∧ l <:+ l' := by
  rw [List.suffix_concat_iff]
  constructor
  · rintro (hnil | ⟨t, heq, ht⟩)
    · exact absurd hnil (by simp)
    · obtain ⟨rfl, hb⟩ := List.append_inj' heq rfl
      exact ⟨List.singleton_inj.mp hb, ht⟩
  · rintro ⟨rfl, h⟩
    exact Or.inr ⟨l, rfl, h⟩

/-- The last two of a list with one more. -/
theorem pair_suffix_snoc {α : Type} {l : List α} {a b c : α} :
    [a, b] <:+ l ++ [c] ↔ b = c ∧ [a] <:+ l :=
  snoc_suffix_snoc (l := [a])

/-- The last three of a list with one more. -/
theorem triple_suffix_snoc {α : Type} {l : List α} {a a' b c : α} :
    [a, a', b] <:+ l ++ [c] ↔ b = c ∧ [a, a'] <:+ l := snoc_suffix_snoc (l := [a, a'])

/-- A connection has just been made when the last step has made it. -/
theorem connected_snoc :
    Connected (evs ++ [e]) ↔ ∃ ip port, e = ⟨.connect ip port, true⟩ := by
  simp only [Connected, List.singleton_suffix_append_singleton_iff, eq_comm]

/-- An acknowledgement has just been begun behind a new connection. -/
theorem acking_snoc : Acking (evs ++ [e]) ↔ Connected evs ∧
    e = ⟨.write .listener ackCode, true⟩ := by
  constructor
  · rintro ⟨ip, port, h⟩
    obtain ⟨rfl, hlast⟩ := pair_suffix_snoc.mp h
    exact ⟨⟨ip, port, hlast⟩, rfl⟩
  · rintro ⟨⟨ip, port, h⟩, rfl⟩
    exact ⟨ip, port, pair_suffix_snoc.mpr ⟨rfl, h⟩⟩

/-- A further step fails an acknowledgement in one of two ways. -/
theorem ackFails_snoc : AckFails (evs ++ [e]) ↔ AckFails evs ∨
    (Connected evs ∧ e = ⟨.write .listener ackCode, false⟩) ∨
    (Acking evs ∧ ∃ bytes, e = ⟨.write .listener bytes, false⟩) := by
  constructor
  · rintro ⟨ip, port, h | ⟨bytes, h⟩⟩
    · rcases List.infix_concat_iff.mp h with h | h
      · obtain ⟨rfl, hlast⟩ := pair_suffix_snoc.mp h
        exact Or.inr (Or.inl ⟨⟨ip, port, hlast⟩, rfl⟩)
      · exact Or.inl ⟨ip, port, Or.inl h⟩
    · rcases List.infix_concat_iff.mp h with h | h
      · obtain ⟨rfl, hlast⟩ := triple_suffix_snoc.mp h
        exact Or.inr (Or.inr ⟨⟨ip, port, hlast⟩, bytes, rfl⟩)
      · exact Or.inl ⟨ip, port, Or.inr ⟨bytes, h⟩⟩
  · rintro (⟨ip, port, h | ⟨bytes, h⟩⟩ | ⟨⟨ip, port, h⟩,
      rfl⟩ | ⟨⟨ip, port, h⟩, bytes, rfl⟩)
    · exact ⟨ip, port, Or.inl (List.infix_concat_iff.mpr (Or.inr h))⟩
    · exact ⟨ip, port, Or.inr ⟨bytes, List.infix_concat_iff.mpr (Or.inr h)⟩⟩
    · refine ⟨ip, port, Or.inl (List.infix_concat_iff.mpr (Or.inl ?_))⟩
      exact pair_suffix_snoc.mpr ⟨rfl, h⟩
    · refine ⟨ip, port, Or.inr ⟨bytes, List.infix_concat_iff.mpr (Or.inl ?_)⟩⟩
      exact triple_suffix_snoc.mpr ⟨rfl, h⟩

end Histories

/-! ### The phases and what has been done -/

/-- A socket is open. -/
def ListenPhase.has : ListenPhase → Bool
  | .idle | .stale | .astray => false
  | _ => true

/-- A thread in this phase has failed to write an acknowledgement. -/
def ListenPhase.Lost (l : ListenPhase) : Prop := l = .failed true ∨ l = .stale

/-- What the phases say about what a thread has done, as long as it has not gone astray. -/
structure Tracked (evs : List srvE.Event) (ph : SockPhase) : Prop where
  client : ph.1 = .opened ↔ ∀ e ∈ evs, clientFails e = false
  ready : ph.2 = .ready ↔ Connected evs
  ackBegun : ph.2 = .ackBegun ↔ Acking evs
  lost : ph.2.Lost ↔ AckFails evs

section Tracking

variable {evs : List srvE.Event} {c : ClientPhase} {l l' : ListenPhase} {ph : SockPhase}
  {o : SrvOp} {x : o.Ans}
  {e : srvE.Event}

/-- Nothing has been done. -/
theorem Tracked.start : Tracked [] (.opened, .idle) := by
  refine ⟨by simp, ?_, ?_, ?_⟩
  · simp [Connected]
  · simp [Acking]
  · simp [AckFails, ListenPhase.Lost]

/-- The client's socket stays open while nothing fails on it. -/
theorem next_opened_iff (h : c.allows o) : c.next ⟨o, x⟩ = .opened ↔ c = .opened ∧
    clientFails ⟨o, x⟩ = false := by
  cases c with
  | opened =>
      cases o with
      | recv buf =>
          show (if (x : ℤ × Bytes).1 < 0 then ClientPhase.failed else .opened) = .opened ↔
            _ ∧ decide _ = false
          split <;> simp_all
      | write sock bytes => cases sock <;> cases x <;> simp [ClientPhase.next, clientFails]
      | close sock =>
          cases sock with
          | client => exact absurd rfl h
          | listener => simp [ClientPhase.next, clientFails]
      | _ => simp [ClientPhase.next, clientFails]
  | failed =>
      obtain rfl : o = .close .client := h
      simp [ClientPhase.next]
  | closed =>
      have hsame : ClientPhase.next .closed ⟨o, x⟩ = .closed := next_offClient h x
      simp [hsame]

/-! ### The moves of a listening socket -/

/-- **The steps of the other socket**, until it is used after it has been closed. -/
inductive ListenMove : ListenPhase → srvE.Event → ListenPhase → Prop
  | off {o : SrvOp} {x : o.Ans} (ho : o.uses ≠ some .listener) (hsocket : o ≠ .socket) :
      ListenMove .idle ⟨o, x⟩ .idle
  | noSocket : ListenMove .idle ⟨.socket, false⟩ .idle
  | socket : ListenMove .idle ⟨.socket, true⟩ .fresh
  | unreached (ip : UInt32) (port : UInt16) : ListenMove .fresh ⟨.connect ip port, false⟩ .idle
  | connected (ip : UInt32) (port : UInt16) : ListenMove .fresh ⟨.connect ip port, true⟩ .ready
  | ackBegun : ListenMove .ready ⟨.write .listener ackCode, true⟩ .ackBegun
  | ackNotBegun : ListenMove .ready ⟨.write .listener ackCode, false⟩ (.failed true)
  | begun {bytes : Bytes} (hcode : bytes ≠ ackCode) :
      ListenMove .ready ⟨.write .listener bytes, true⟩ .message
  | notBegun {bytes : Bytes} (hcode : bytes ≠ ackCode) :
      ListenMove .ready ⟨.write .listener bytes, false⟩ (.failed false)
  | written (bytes : Bytes) : ListenMove .message ⟨.write .listener bytes, true⟩ .message
  | notWritten (bytes : Bytes) :
      ListenMove .message ⟨.write .listener bytes, false⟩ (.failed false)
  | sent : ListenMove .message ⟨.close .listener, ()⟩ .idle
  | ackWritten (bytes : Bytes) : ListenMove .ackBegun ⟨.write .listener bytes, true⟩ .ackDone
  | ackNotWritten (bytes : Bytes) :
      ListenMove .ackBegun ⟨.write .listener bytes, false⟩ (.failed true)
  | acked : ListenMove .ackDone ⟨.close .listener, ()⟩ .idle
  | dropped : ListenMove (.failed false) ⟨.close .listener, ()⟩ .idle
  | lost : ListenMove (.failed true) ⟨.close .listener, ()⟩ .stale

/-- An allowed step is a move of the phase. -/
theorem listenMove_next (h : l.allows o) (hstale : l ≠ .stale) (hastray : l ≠ .astray) :
    ListenMove l ⟨o, x⟩ (l.next ⟨o, x⟩) := by
  cases l with
  | idle =>
      cases o with
      | socket =>
          cases x with
          | true => exact ListenMove.socket
          | false => exact ListenMove.noSocket
      | _ => exact ListenMove.off h nofun
  | fresh =>
      obtain ⟨ip, port, rfl⟩ := h
      cases x with
      | true => exact ListenMove.connected ip port
      | false => exact ListenMove.unreached ip port
  | ready =>
      obtain ⟨bytes, rfl⟩ := h
      by_cases hcode : bytes = ackCode
      · subst hcode
        cases x with
        | true => exact ListenMove.ackBegun
        | false => exact ListenMove.ackNotBegun
      · simp only [ListenPhase.next, if_neg hcode]
        cases x with
        | true => exact ListenMove.begun hcode
        | false => exact ListenMove.notBegun hcode
  | message =>
      rcases h with ⟨bytes, rfl⟩ | rfl
      · cases x with
        | true => exact ListenMove.written bytes
        | false => exact ListenMove.notWritten bytes
      · exact ListenMove.sent
  | ackBegun =>
      obtain ⟨bytes, rfl⟩ := h
      cases x with
      | true => exact ListenMove.ackWritten bytes
      | false => exact ListenMove.ackNotWritten bytes
  | ackDone =>
      obtain rfl : o = .close .listener := h
      exact ListenMove.acked
  | failed ack =>
      obtain rfl : o = .close .listener := h
      cases ack with
      | true => exact ListenMove.lost
      | false => exact ListenMove.dropped
  | stale => exact absurd rfl hstale
  | astray => exact absurd rfl hastray

/-- A move to a connection that is ready. -/
theorem ListenMove.ready_iff (h : ListenMove l e l') :
    l' = .ready ↔ ∃ ip port, e = ⟨.connect ip port, true⟩ := by
  cases h with
  | off ho hsocket =>
      refine ⟨nofun, ?_⟩
      rintro ⟨ip, port, heq⟩
      cases heq
      exact absurd rfl ho
  | connected ip port => exact ⟨fun _ => ⟨ip, port, rfl⟩, fun _ => rfl⟩
  | _ => exact ⟨nofun, fun ⟨_, _, heq⟩ => nomatch heq⟩

/-- A move to an acknowledgement that has been begun. -/
theorem ListenMove.ackBegun_iff (h : ListenMove l e l') :
    l' = .ackBegun ↔ l = .ready ∧ e = ⟨.write .listener ackCode, true⟩ := by
  cases h with
  | ackBegun => exact ⟨fun _ => ⟨rfl, rfl⟩, fun _ => rfl⟩
  | begun hcode =>
      refine ⟨nofun, ?_⟩
      rintro ⟨-, heq⟩
      cases heq
      exact absurd rfl hcode
  | notBegun hcode => exact ⟨nofun, fun ⟨_, heq⟩ => nomatch heq⟩
  | ackNotBegun => exact ⟨nofun, fun ⟨_, heq⟩ => nomatch heq⟩
  | _ => exact ⟨nofun, fun ⟨hready, _⟩ => nomatch hready⟩

/-- A move to one that is lost. -/
theorem ListenMove.lost_iff (h : ListenMove l e l') :
    l'.Lost ↔ l.Lost ∨ (l = .ready ∧ e = ⟨.write .listener ackCode, false⟩) ∨
      (l = .ackBegun ∧ ∃ bytes, e = ⟨.write .listener bytes, false⟩) := by
  have hnot : ∀ {l₁ l₂ : ListenPhase}, ¬ l₂.Lost → ¬ l₁.Lost →
      (l₁ ≠ .ready ∨ e ≠ ⟨.write .listener ackCode, false⟩) →
      (l₁ ≠ .ackBegun ∨ ∀ bytes, e ≠ ⟨.write .listener bytes, false⟩) →
      (l₂.Lost ↔ l₁.Lost ∨ (l₁ = .ready ∧ e = ⟨.write .listener ackCode, false⟩) ∨
        (l₁ = .ackBegun ∧ ∃ bytes, e = ⟨.write .listener bytes, false⟩)) := by
    intro l₁ l₂ h₂ h₁ hready hack
    refine ⟨fun h => absurd h h₂, ?_⟩
    rintro (h | ⟨rfl, rfl⟩ | ⟨rfl, bytes, rfl⟩)
    · exact absurd h h₁
    · exact absurd rfl (hready.resolve_left fun h => h rfl)
    · exact absurd rfl (hack.resolve_left (fun h => h rfl) bytes)
  have hidle : ∀ {l₁ : ListenPhase}, l₁ ≠ .failed true → l₁ ≠ .stale →
      ¬ l₁.Lost := fun h h' hlost =>
    hlost.elim h h'
  cases h with
  | ackNotBegun => exact ⟨fun _ => Or.inr (Or.inl ⟨rfl, rfl⟩), fun _ => Or.inl rfl⟩
  | ackNotWritten bytes =>
      exact ⟨fun _ => Or.inr (Or.inr ⟨rfl, bytes, rfl⟩), fun _ => Or.inl rfl⟩
  | lost => exact ⟨fun _ => Or.inl (Or.inl rfl), fun _ => Or.inr rfl⟩
  | ackBegun => exact hnot (hidle nofun nofun) (hidle nofun nofun) (Or.inr nofun) (Or.inl nofun)
  | begun hcode => exact hnot (hidle nofun nofun) (hidle nofun nofun) (Or.inr nofun) (Or.inl nofun)
  | notBegun hcode =>
      refine hnot (hidle nofun nofun) (hidle nofun nofun) (Or.inr fun heq => ?_) (Or.inl nofun)
      cases heq
      exact hcode rfl
  | ackWritten bytes =>
      exact hnot (hidle nofun nofun) (hidle nofun nofun) (Or.inl nofun) (Or.inr fun _ => nofun)
  | _ => exact hnot (hidle nofun nofun) (hidle nofun nofun) (Or.inl nofun) (Or.inl nofun)

/-- What the phases say goes on to be so. -/
theorem Tracked.snoc (h : Tracked evs ph) (hallowed : sockets.allowed ph o)
    (hstale : ph.2 ≠ .stale)
    (hastray : ph.2 ≠ .astray) : Tracked (evs ++ [⟨o, x⟩]) (sockets.next ph o x) := by
  obtain ⟨hclient, hlisten⟩ := hallowed
  have hmoved : ListenMove ph.2 ⟨o, x⟩ (ph.2.next ⟨o, x⟩) :=
    listenMove_next hlisten hstale hastray
  refine ⟨?_, hmoved.ready_iff.trans connected_snoc.symm, ?_, ?_⟩
  · show ph.1.next ⟨o, x⟩ = .opened ↔ _
    rw [next_opened_iff hclient, h.client]
    simp [or_imp, forall_and]
  · refine hmoved.ackBegun_iff.trans ?_
    rw [acking_snoc, h.ready]
  · refine hmoved.lost_iff.trans ?_
    rw [ackFails_snoc, h.lost, h.ready, h.ackBegun]

/-- No move of the discipline leads astray. -/
theorem ListenMove.ne_astray (h : ListenMove l e l') : l' ≠ .astray := by
  cases h <;> exact nofun

end Tracking
