/-
# The life of a listening thread

`listen_and_accept` takes one connection after another.  The `finally` block closes the
connection, and the listening socket when `connected` is `False`.

* `ListenEv`, `listenLoop`: what the thread does with its sockets, on any sequence of connections;
* `Connection`: a connection with NUL-terminated ASCII strings, enough for its op code;
* `StaysAlive`: the thread serves until it is told to stop, and then closes its socket;
* `staysAlive_iff`: it does so unless an unknown op code comes first.
-/
import MessageServer.Client

/-! ## `listen_and_accept` -/

/-- What the thread does: accepting a connection, a branch with what it shows, closing. -/
inductive ListenEv
  | accept
  | dispatch (branch : ListenBranch)
  | closeConnection
  | closeSocket
  deriving DecidableEq

/-- How the `try` block is left. -/
inductive TryEnd
  /-- At its end, with the value of `connected`. -/
  | through (connected : Bool)
  /-- By `break`. -/
  | broken
  /-- By an exception that is no `socket.error`. -/
  | raised
  /-- Not at all: `receive_string` does not come back. -/
  | stuck
  deriving DecidableEq

/-- Where the thread is then. -/
inductive ListenEnd
  | accepting
  | returned
  | raised
  | receiving
  deriving DecidableEq

/-- The `try` block, on a connection that is closed behind these bytes.  `receive_string` catches
every `socket.error` itself. -/
def tryBlock (bs : Bytes) : List ListenEv × TryEnd :=
  match listenAndAccept bs with
  | .got .endListenThread _ => ([.dispatch .endListenThread], .through false)
  | .got .invalidOperation _ => ([.dispatch .invalidOperation], .broken)
  | .got branch _ => ([.dispatch branch], .through true)
  | .undecodable => ([], .raised)
  | .endless => ([], .stuck)

/-- The `finally` block. -/
def finallyBlock (connected : Bool) : List ListenEv :=
  if connected then [.closeConnection] else [.closeConnection, .closeSocket]

/-- The loop of `listen_and_accept`, on the connections that come. -/
def listenLoop : List Bytes → List ListenEv × ListenEnd
  | [] => ([], .accepting)
  | bs :: rest =>
      let block := tryBlock bs
      match block.2 with
      | .through true =>
          let r := listenLoop rest
          (.accept :: (block.1 ++ finallyBlock true ++ r.1), r.2)
      | .through false => (.accept :: (block.1 ++ finallyBlock false), .returned)
      | .broken => (.accept :: (block.1 ++ finallyBlock true), .returned)
      | .raised => (.accept :: (block.1 ++ finallyBlock true), .raised)
      | .stuck => (.accept :: block.1, .receiving)

/-! ## Connections -/

/-- The strings that a branch reads behind the op code. -/
def neededFields (opCode : PyStr) : ℕ :=
  if opCode = "SEND_MESSAGE".toList then 3 else if opCode = "SEND_MESS_ACK".toList then 1 else 0

/-- A connection that carries NUL-terminated ASCII strings, enough for its op code. -/
structure Connection where
  opCode : Bytes
  fields : List Bytes
  ascii : ∀ f ∈ opCode :: fields, AsciiText f
  enough : neededFields (asciiStr opCode) ≤ fields.length

namespace Connection

/-- What the connection carries. -/
def bytes (c : Connection) : Bytes := nulTerminated (c.opCode :: c.fields)

/-- The first string. -/
def first (c : Connection) : PyStr := asciiStr c.opCode

/-- The thread is told to stop. -/
def ends (c : Connection) : Bool := c.first = "END_LISTEN_THREAD".toList

/-- An op code of the server. -/
def known (c : Connection) : Bool :=
  c.first = "SEND_MESSAGE".toList || c.first = "SEND_MESS_ACK".toList

/-- The branch for the strings, with what it shows. -/
def branch (c : Connection) : ListenBranch :=
  if c.first = "SEND_MESSAGE".toList then
    .message (asciiStr (c.fields.getD 0 [])) (asciiStr (c.fields.getD 1 []))
      (asciiStr (c.fields.getD 2 []))
  else if c.first = "SEND_MESS_ACK".toList then .messageAck (asciiStr (c.fields.getD 0 []))
  else if c.first = "END_LISTEN_THREAD".toList then .endListenThread
  else .invalidOperation

end Connection

/-- Accepting, processing and closing every connection. -/
def served (conns : List Connection) : List ListenEv :=
  conns.flatMap fun c => [.accept, .dispatch c.branch, .closeConnection]

/-- **The thread stays alive until it is told to stop.**  Without `END_LISTEN_THREAD` every
connection is processed and closed, and the thread accepts on an open socket; with it the thread
returns behind the first one, and the socket is closed. -/
structure StaysAlive (conns : List Connection) (r : List ListenEv × ListenEnd) : Prop where
  alive : (∀ c ∈ conns, c.ends = false) →
    r.2 = .accepting ∧ ListenEv.closeSocket ∉ r.1 ∧ r.1 = served conns
  told : ∀ before c after, conns = before ++ c :: after → (∀ b ∈ before, b.ends = false) →
    c.ends = true → r.2 = .returned ∧
      r.1 = served before ++ [.accept, .dispatch .endListenThread, .closeConnection, .closeSocket]

/-! ## One connection -/

section Loop

variable {c : Connection} {rest : List Bytes} {conns : List Connection}

theorem three_of_length {α : Type} {l : List α} (h : 3 ≤ l.length) :
    ∃ a b c rest, l = a :: b :: c :: rest := by
  obtain ⟨a, l, rfl⟩ := List.exists_cons_of_length_pos (by omega : 0 < l.length)
  rw [List.length_cons] at h
  obtain ⟨b, l, rfl⟩ := List.exists_cons_of_length_pos (by omega : 0 < l.length)
  rw [List.length_cons] at h
  obtain ⟨c, rest, rfl⟩ := List.exists_cons_of_length_pos (by omega : 0 < l.length)
  exact ⟨a, b, c, rest, rfl⟩

/-- **One iteration** takes the branch for the strings. -/
theorem listenAndAccept_bytes (c : Connection) :
    ∃ rest, listenAndAccept c.bytes = .got c.branch rest := by
  obtain ⟨opCode, fields, hascii, henough⟩ := c
  have hop : receiveString (opCode ++ 0 :: nulTerminated fields) =
      .got (asciiStr opCode) (nulTerminated fields) :=
    receiveString_append (hascii _ List.mem_cons_self) _
  have hfield : ∀ f ∈ fields, ∀ bs, receiveString (f ++ 0 :: bs) = .got (asciiStr f) bs :=
    fun f hf bs => receiveString_append (hascii f (List.mem_cons_of_mem _ hf)) bs
  have hbytes : Connection.bytes ⟨opCode, fields, hascii, henough⟩ = opCode ++ 0 ::
      nulTerminated fields := rfl
  rw [hbytes, listenAndAccept, hop]
  show ∃ rest, (if asciiStr opCode = _ then _ else _) = Received.got (Connection.branch _) rest
  unfold neededFields at henough
  unfold Connection.branch Connection.first
  by_cases hmessage : asciiStr opCode = "SEND_MESSAGE".toList
  · rw [if_pos hmessage] at henough
    simp only [if_pos hmessage]
    obtain ⟨u, id, m, fs, rfl⟩ := three_of_length henough
    have hu := hfield u (by simp) (nulTerminated (id :: m :: fs))
    have hid := hfield id (by simp) (nulTerminated (m :: fs))
    have hm := hfield m (by simp) (nulTerminated fs)
    refine ⟨nulTerminated fs, ?_⟩
    simp only [nulTerminated] at hu hid hm ⊢
    rw [hu]
    simp only [Received.andThen]
    rw [hid]
    simp only
    rw [hm]
    rfl
  · simp only [if_neg hmessage] at henough ⊢
    by_cases hack : asciiStr opCode = "SEND_MESS_ACK".toList
    · rw [if_pos hack] at henough
      simp only [if_pos hack]
      obtain ⟨id, fs, rfl⟩ := List.exists_cons_of_length_pos henough
      have hid := hfield id (by simp) (nulTerminated fs)
      refine ⟨nulTerminated fs, ?_⟩
      simp only [nulTerminated] at hid ⊢
      rw [hid]
      rfl
    · simp only [if_neg hack]
      split
      · exact ⟨_, rfl⟩
      · exact ⟨_, rfl⟩

theorem Connection.known_iff : c.known = true ↔
    c.first = "SEND_MESSAGE".toList ∨ c.first = "SEND_MESS_ACK".toList := by
  rw [Connection.known, Bool.or_eq_true, decide_eq_true_iff, decide_eq_true_iff]

/-- No op code of the server tells the thread to stop. -/
theorem Connection.not_ends (h : c.known = true) : c.ends = false := by
  rw [Connection.ends, decide_eq_false_iff_not]
  intro hend
  rcases Connection.known_iff.mp h with hop | hop
  · exact absurd (hop.symm.trans hend) (by decide)
  · exact absurd (hop.symm.trans hend) (by decide)

/-- An op code of the server: the thread goes on. -/
theorem listenLoop_known (h : c.known = true) (rest : List Bytes) : listenLoop (c.bytes :: rest) =
    (served [c] ++ (listenLoop rest).1, (listenLoop rest).2) := by
  obtain ⟨left, hgot⟩ := listenAndAccept_bytes c
  have hblock : tryBlock c.bytes = ([.dispatch c.branch], .through true) := by
    rw [tryBlock, hgot]
    unfold Connection.branch
    rcases Connection.known_iff.mp h with hop | hop
    · rw [if_pos hop]
    · rw [if_neg (by rw [hop]; decide), if_pos hop]
  rw [listenLoop, hblock]
  rfl

/-- `END_LISTEN_THREAD`: the thread returns, its socket is closed. -/
theorem listenLoop_ends (h : c.ends = true) (rest : List Bytes) : listenLoop (c.bytes :: rest) =
    ([.accept, .dispatch .endListenThread, .closeConnection, .closeSocket], .returned) := by
  have hop : c.first = "END_LISTEN_THREAD".toList := of_decide_eq_true h
  obtain ⟨left, hgot⟩ := listenAndAccept_bytes c
  have hbranch : c.branch = .endListenThread := by
    rw [Connection.branch, if_neg (by rw [hop]; decide), if_neg (by rw [hop]; decide), if_pos hop]
  have hblock : tryBlock c.bytes = ([.dispatch .endListenThread], .through false) := by
    rw [tryBlock, hgot, hbranch]
  rw [listenLoop, hblock]
  rfl

/-- Any other op code: the thread returns, its socket is open. -/
theorem listenLoop_unknown (hknown : c.known = false) (hends : c.ends = false) (rest : List Bytes) :
    listenLoop (c.bytes :: rest) =
      ([.accept, .dispatch .invalidOperation, .closeConnection], .returned) := by
  obtain ⟨left, hgot⟩ := listenAndAccept_bytes c
  rw [Connection.known, Bool.or_eq_false_iff, decide_eq_false_iff_not,
    decide_eq_false_iff_not] at hknown
  have hbranch : c.branch = .invalidOperation := by
    rw [Connection.branch, if_neg hknown.1, if_neg hknown.2, if_neg (of_decide_eq_false hends)]
  have hblock : tryBlock c.bytes = ([.dispatch .invalidOperation], .broken) := by
    rw [tryBlock, hgot, hbranch]
  rw [listenLoop, hblock]
  rfl

/-! ## Any number of connections -/

theorem served_append (conns conns' : List Connection) :
    served (conns ++ conns') = served conns ++ served conns' := List.flatMap_append

theorem closeSocket_not_mem_served : ListenEv.closeSocket ∉ served conns := by
  intro h
  obtain ⟨c, -, hmem⟩ := List.mem_flatMap.mp h
  exact absurd hmem (by simp)

/-- Connections with op codes of the server, by induction on them. -/
theorem listenLoop_append (h : ∀ c ∈ conns, c.known = true) (rest : List Bytes) :
    listenLoop (conns.map Connection.bytes ++ rest) =
      (served conns ++ (listenLoop rest).1, (listenLoop rest).2) := by
  induction conns with
  | nil => rfl
  | cons c conns ih =>
      rw [List.map_cons, List.cons_append, listenLoop_known (h c List.mem_cons_self),
        ih fun c hc => h c (List.mem_cons_of_mem _ hc), ← List.append_assoc, ← served_append]
      rfl

/-- The connections in front of the first `END_LISTEN_THREAD`. -/
theorem takeWhile_ends {before after : List Connection} (hbefore : ∀ b ∈ before, b.ends = false)
    (hc : c.ends = true) : (before ++ c :: after).takeWhile (fun c => !c.ends) = before := by
  rw [List.takeWhile_append_of_pos fun b hb => by rw [hbefore b hb]; rfl,
    List.takeWhile_cons_of_neg (by simp [hc]), List.append_nil]

/-- Connections with op codes of the server, and then `c`. -/
theorem listenLoop_split {before : List Connection} (h : ∀ b ∈ before, b.known = true)
    (c : Connection)
    (after : List Connection) : listenLoop ((before ++ c :: after).map Connection.bytes) =
      (served before ++ (listenLoop (c.bytes :: after.map Connection.bytes)).1,
        (listenLoop (c.bytes :: after.map Connection.bytes)).2) := by
  rw [List.map_append, List.map_cons]
  exact listenLoop_append h _

/-- Without any other op code the thread goes on. -/
theorem staysAlive_of_known (h : ∀ c ∈ conns, c.known = true) :
    StaysAlive conns (listenLoop (conns.map Connection.bytes)) := by
  have hloop : listenLoop (conns.map Connection.bytes) = (served conns, .accepting) := by
    have happend := listenLoop_append h []
    rw [List.append_nil] at happend
    exact happend.trans (Prod.ext (List.append_nil _) rfl)
  rw [hloop]
  constructor
  · exact fun _ => ⟨rfl, closeSocket_not_mem_served, rfl⟩
  · intro before c after heq _ hends
    have hc : c.known = true := h c (by rw [heq]; exact List.mem_append_right _ List.mem_cons_self)
    exact absurd hends (by rw [Connection.not_ends hc]; exact Bool.false_ne_true)

/-- `END_LISTEN_THREAD` behind op codes of the server. -/
theorem staysAlive_of_told {before after : List Connection} (h : ∀ b ∈ before, b.known = true)
    (hends : c.ends = true) :
    StaysAlive (before ++ c :: after)
      (listenLoop ((before ++ c :: after).map Connection.bytes)) := by
  have hgo : ∀ b ∈ before, b.ends = false := fun b hb => Connection.not_ends (h b hb)
  rw [listenLoop_split h, listenLoop_ends hends]
  constructor
  · intro hno
    rw [hno c (List.mem_append_right _ List.mem_cons_self)] at hends
    exact absurd hends Bool.false_ne_true
  · intro before' c' after' heq hgo' hends'
    -- there is only one first `END_LISTEN_THREAD`
    have hsame : before = before' := by
      rw [← takeWhile_ends hgo hends, heq, takeWhile_ends hgo' hends']
    rw [hsame]
    exact ⟨rfl, rfl⟩

/-- The socket is not closed behind an unknown op code. -/
theorem closeSocket_not_mem_unknown {before : List Connection} : ListenEv.closeSocket ∉
    served before ++ [.accept, .dispatch .invalidOperation, .closeConnection] := by
  rw [List.mem_append, not_or]
  constructor
  · exact closeSocket_not_mem_served
  · simp

/-- An unknown op code behind op codes of the server. -/
theorem not_staysAlive_of_unknown {before after : List Connection}
    (h : ∀ b ∈ before, b.known = true)
    (hc : c.known = false) (hends : c.ends = false) :
    ¬ StaysAlive (before ++ c :: after)
      (listenLoop ((before ++ c :: after).map Connection.bytes)) := by
  rw [listenLoop_split h, listenLoop_unknown hc hends]
  intro halive
  cases hfind : (before ++ c :: after).find? Connection.ends with
  | none =>
      have hnone : ∀ d ∈ before ++ c :: after, d.ends = false :=
        fun d hd => Bool.eq_false_of_not_eq_true (List.find?_eq_none.mp hfind d hd)
      have hend : ListenEnd.returned = .accepting := (halive.alive hnone).1
      cases hend
  | some e =>
      -- the thread should have gone on, and closed its socket at `e`
      obtain ⟨he, front, back, heq, hfront⟩ := List.find?_eq_some_iff_append.mp hfind
      have hfront' : ∀ b ∈ front, b.ends = false := fun b hb => by simpa using hfront b hb
      obtain ⟨-, hevents⟩ := halive.told front e back heq hfront' he
      have hlast : ListenEv.closeSocket ∈
          served front ++ [.accept, .dispatch .endListenThread, .closeConnection, .closeSocket] :=
        List.mem_append_right _ (by simp)
      rw [← hevents] at hlast
      exact closeSocket_not_mem_unknown hlast

/-- **When the listening thread stays alive**: the connections in front of the first
`END_LISTEN_THREAD` all begin with an op code of the server. -/
theorem staysAlive_iff (conns : List Connection) :
    StaysAlive conns (listenLoop (conns.map Connection.bytes)) ↔
      ∀ c ∈ conns.takeWhile (fun c => !c.ends), c.known = true := by
  cases hfind : conns.find? fun c => !c.known with
  | none =>
      have hall : ∀ c ∈ conns, c.known = true := fun c hc => by
        simpa using List.find?_eq_none.mp hfind c hc
      apply iff_of_true
      · exact staysAlive_of_known hall
      · exact fun c hc => hall c ((List.takeWhile_sublist _).subset hc)
  | some c =>
      -- the first connection that does not begin with an op code of the server
      obtain ⟨hunknown, before, after, rfl, hbefore⟩ := List.find?_eq_some_iff_append.mp hfind
      have hc : c.known = false := by simpa using hunknown
      have hknown : ∀ b ∈ before, b.known = true := fun b hb => by simpa using hbefore b hb
      have hgo : ∀ b ∈ before, b.ends = false := fun b hb => Connection.not_ends (hknown b hb)
      by_cases hends : c.ends = true
      · rw [takeWhile_ends hgo hends]
        exact iff_of_true (staysAlive_of_told hknown hends) hknown
      · have hends := Bool.eq_false_of_not_eq_true hends
        apply iff_of_false
        · exact not_staysAlive_of_unknown hknown hc hends
        · intro h
          have hmem : c ∈ (before ++ c :: after).takeWhile (fun c => !c.ends) := by
            rw [List.takeWhile_append_of_pos fun b hb => by rw [hgo b hb]; rfl,
              List.takeWhile_cons_of_pos (by rw [hends]; rfl)]
            exact List.mem_append_right _ List.mem_cons_self
          rw [h c hmem] at hc
          exact Bool.false_ne_true hc.symm

/-- A connection with an unknown op code. -/
def helloConnection : Connection := ⟨ascii "HELLO", [], by decide, by decide⟩

/-- **A thread that ends.**  An unknown op code, and the thread returns with its socket open. -/
theorem not_staysAlive :
    ¬ ∀ conns : List Connection, StaysAlive conns (listenLoop (conns.map Connection.bytes)) := by
  intro h
  have hmem : helloConnection ∈ [helloConnection].takeWhile fun c => !c.ends :=
    List.mem_singleton_self _
  have hknown := (staysAlive_iff [helloConnection]).mp (h _) helloConnection hmem
  exact absurd hknown (by decide)

end Loop
