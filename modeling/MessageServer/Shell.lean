/-
# The shell of the client

`Client.shell` reads lines until one of them is `QUIT`, and takes every exception for a line that
failed.

* `command`: what the shell makes of a line, for any `str.upper`;
* `command_iff`: which lines are calls, and which line ends the shell;
* `ClientProcess.turn`, `ClientProcess.shell`: the loop;
* `shell_unreachable`: the loop against a server that cannot be reached;
* `ShellStep`, `run_shell_left`: the loop against a server that answers, up to its end.
-/
import MessageServer.AgreementRuns

/-! ## Lists split at a separator -/

section Splitting

variable {α : Type} [DecidableEq α] {sep : α} {l w : List α} {ws : List (List α)}

/-- No piece has the separator. -/
theorem not_mem_of_mem_splitOn (h : w ∈ l.splitOn sep) : sep ∉ w := by
  induction l generalizing w with
  | nil =>
      rw [List.splitOn_nil, List.mem_singleton] at h
      rw [h]
      exact List.not_mem_nil
  | cons x l ih =>
      obtain ⟨piece, pieces, hpieces⟩ := List.exists_cons_of_ne_nil (List.splitOn_ne_nil sep l)
      rw [List.splitOn_cons_eq_if_modifyHead, hpieces] at h
      rw [hpieces] at ih
      by_cases hx : x = sep
      · rw [if_pos (beq_iff_eq.mpr hx)] at h
        rcases List.mem_cons.mp h with rfl | h
        · exact List.not_mem_nil
        · exact ih h
      · rw [if_neg (by simpa using hx), List.modifyHead_cons] at h
        rcases List.mem_cons.mp h with rfl | h
        · rw [List.mem_cons, not_or]
          exact ⟨fun heq => hx heq.symm, ih List.mem_cons_self⟩
        · exact ih (List.mem_cons_of_mem _ h)

/-- The pieces of a list are those without the separator that join to it. -/
theorem splitOn_eq_iff : l.splitOn sep = ws ↔ ws ≠ [] ∧ (∀ w ∈ ws, sep ∉ w) ∧
    [sep].intercalate ws = l := by
  constructor
  · rintro rfl
    exact ⟨List.splitOn_ne_nil sep l, fun w hw => not_mem_of_mem_splitOn hw,
      List.intercalate_splitOn sep⟩
  · rintro ⟨hne, hsep, rfl⟩
    exact List.splitOn_intercalate sep hsep hne

omit [DecidableEq α] in

/-- One word is joined with nothing. -/
theorem intercalate_singleton' : [sep].intercalate [w] = w := by
  simp [List.intercalate]

omit [DecidableEq α] in

/-- One more word is joined behind the separator. -/
theorem intercalate_cons_of_ne (h : ws ≠ []) :
    [sep].intercalate (w :: ws) = w ++ sep :: [sep].intercalate ws := by
  obtain ⟨v, vs, rfl⟩ := List.exists_cons_of_ne_nil h
  simp [List.intercalate]

/-- One separator. -/
theorem splitOn_eq_pair {v : List α} : l.splitOn sep = [w, v] ↔ sep ∉ w ∧ sep ∉ v ∧
    l = w ++ sep :: v := by
  rw [splitOn_eq_iff, intercalate_cons_of_ne (List.cons_ne_nil _ _), intercalate_singleton']
  simp only [ne_eq, reduceCtorEq, not_false_eq_true, List.forall_mem_cons, List.not_mem_nil,
    IsEmpty.forall_iff,
    implies_true, and_true, true_and, and_assoc, eq_comm (a := l)]

/-- Two separators or more, of which the first two matter. -/
theorem splitOn_two {v text : List α} :
    (∃ us, us ≠ [] ∧ l.splitOn sep = w :: v :: us ∧ [sep].intercalate us = text) ↔
      sep ∉ w ∧ sep ∉ v ∧ l = w ++ sep :: (v ++ sep :: text) := by
  constructor
  · rintro ⟨us, hus, hl, rfl⟩
    obtain ⟨-, hsep, rfl⟩ := splitOn_eq_iff.mp hl
    refine ⟨hsep w (by simp), hsep v (by simp), ?_⟩
    rw [intercalate_cons_of_ne (List.cons_ne_nil _ _), intercalate_cons_of_ne hus]
  · rintro ⟨hw, hv, rfl⟩
    refine ⟨text.splitOn sep, List.splitOn_ne_nil sep text, ?_, List.intercalate_splitOn sep⟩
    rw [List.splitOn_append_cons_self_of_not_mem hw, List.splitOn_append_cons_self_of_not_mem hv]

end Splitting

/-! ## Lines -/

/-- What the shell makes of a line. -/
inductive Command
  | call (call : ClientCall)
  | quit
  /-- A line at which it only prints. -/
  | printed (text : PyStr)
  /-- A line of no words. -/
  | ignored

/-- A command with one user name. -/
def withUser (call : PyStr → ClientCall) (usage : PyStr) : List PyStr → Command
  | [user] => .call (call user)
  | _ => .printed usage

/-- One line of `shell`; `upper` is `str.upper`. -/
def command (upper : PyStr → PyStr) (line : PyStr) : Command :=
  match line.splitOn ' ' with
  | [] => .ignored
  | word :: args =>
      if upper word = "REGISTER".toList then
        withUser .register "Syntax error. Usage: REGISTER <userName>".toList args
      else if upper word = "UNREGISTER".toList then
        withUser .unregister "Syntax error. Usage: UNREGISTER <userName>".toList args
      else if upper word = "CONNECT".toList then
        withUser .connect "Syntax error. Usage: CONNECT <userName>".toList args
      else if upper word = "DISCONNECT".toList then
        withUser .disconnect "Syntax error. Usage: DISCONNECT <userName>".toList args
      else if upper word = "SEND".toList then
        match args with
        -- the first two words removed
        | recipient :: text :: texts => .call (.send recipient ([' '].intercalate (text :: texts)))
        | _ => .printed "Syntax error. Usage: SEND <userName> <message>".toList
      else if upper word = "QUIT".toList then
        match args with
        | [] => .quit
        | _ => .printed "Syntax error. Use: QUIT".toList
      else .printed ("Error: command ".toList ++ upper word ++ " not valid.".toList)

/-- The first word of a call. -/
def ClientCall.keyword : ClientCall → PyStr
  | .register _ => "REGISTER".toList
  | .unregister _ => "UNREGISTER".toList
  | .connect _ => "CONNECT".toList
  | .disconnect _ => "DISCONNECT".toList
  | .send _ _ => "SEND".toList

/-- The words of a call behind the first. -/
def ClientCall.operands : ClientCall → PyStr
  | .register user => user
  | .unregister user => user
  | .connect user => user
  | .disconnect user => user
  | .send recipient message => recipient ++ ' ' :: message

section Lines

variable {upper : PyStr → PyStr} {line : PyStr} {word user usage : PyStr} {args : List PyStr}
  {call : ClientCall}

/-- The words that a call has behind the first. -/
def ClientCall.Takes (args : List PyStr) : ClientCall → Prop
  | .register user => args = [user]
  | .unregister user => args = [user]
  | .connect user => args = [user]
  | .disconnect user => args = [user]
  | .send recipient message => ∃ texts, texts ≠ [] ∧ args = recipient :: texts ∧
      [' '].intercalate texts = message

/-! ### What a line is -/

/-- A command with one operand makes its call. -/
theorem withUser_eq_call {make : PyStr → ClientCall} :
    withUser make usage args = .call call ↔ ∃ user, args = [user] ∧ make user = call := by
  unfold withUser
  split
  · rename_i user
    simp
  · rename_i hnot
    simp only [reduceCtorEq, false_iff, not_exists, not_and]
    exact fun user heq => absurd heq (hnot user)

/-- It is not the end of the session. -/
theorem withUser_ne_quit {make : PyStr → ClientCall} : withUser make usage args ≠ .quit := by
  unfold withUser
  split <;> simp

/-- The words of a call. -/
theorem command_eq_call : command upper line = .call call ↔
    ∃ word args, line.splitOn ' ' = word :: args ∧ upper word = call.keyword ∧
      call.Takes args := by
  constructor
  · intro h
    unfold command at h
    split at h
    · cases h
    rename_i word args hwords
    refine ⟨word, args, hwords, ?_⟩
    split_ifs at h with hregister hunregister hconnect hdisconnect hsend hquit
    · obtain ⟨user, rfl, rfl⟩ := withUser_eq_call.mp h
      exact ⟨hregister, rfl⟩
    · obtain ⟨user, rfl, rfl⟩ := withUser_eq_call.mp h
      exact ⟨hunregister, rfl⟩
    · obtain ⟨user, rfl, rfl⟩ := withUser_eq_call.mp h
      exact ⟨hconnect, rfl⟩
    · obtain ⟨user, rfl, rfl⟩ := withUser_eq_call.mp h
      exact ⟨hdisconnect, rfl⟩
    · split at h
      · rename_i recipient text texts
        cases h
        exact ⟨hsend, text :: texts, List.cons_ne_nil _ _, rfl, rfl⟩
      · cases h
    · split at h <;> cases h
  · rintro ⟨word, args, hwords, hkeyword, htakes⟩
    unfold command
    rw [hwords]
    dsimp only
    rw [hkeyword]
    cases call with
    | register user =>
        obtain rfl : args = [user] := htakes
        rfl
    | unregister user =>
        obtain rfl : args = [user] := htakes
        rfl
    | connect user =>
        obtain rfl : args = [user] := htakes
        rfl
    | disconnect user =>
        obtain rfl : args = [user] := htakes
        rfl
    | send recipient message =>
        obtain ⟨texts, hne, rfl, rfl⟩ := htakes
        obtain ⟨text, texts, rfl⟩ := List.exists_cons_of_ne_nil hne
        rfl

/-- The words of the last line. -/
theorem command_eq_quit : command upper line = .quit ↔ line.splitOn ' ' = [line] ∧
    upper line = "QUIT".toList := by
  constructor
  · intro h
    unfold command at h
    split at h
    · cases h
    rename_i word args hwords
    split_ifs at h with hregister hunregister hconnect hdisconnect hsend hquit
    · exact absurd h withUser_ne_quit
    · exact absurd h withUser_ne_quit
    · exact absurd h withUser_ne_quit
    · exact absurd h withUser_ne_quit
    · split at h <;> cases h
    · split at h
      · obtain ⟨-, -, hline⟩ := splitOn_eq_iff.mp hwords
        rw [intercalate_singleton'] at hline
        rw [hline] at hwords hquit
        exact ⟨hwords, hquit⟩
      · cases h
  · rintro ⟨hwords, hkeyword⟩
    unfold command
    rw [hwords]
    dsimp only
    rw [hkeyword]
    rfl

/-- **The lines that the shell acts on.**  The text of `SEND` is the rest of the line, with its
blanks. -/
theorem command_iff (upper : PyStr → PyStr) (line : PyStr) :
    (∀ call, command upper line = .call call ↔ ' ' ∉ call.account ∧
      ∃ word, ' ' ∉ word ∧ upper word = call.keyword ∧
        line = word ++ ' ' :: call.operands) ∧
    (command upper line = .quit ↔ ' ' ∉ line ∧ upper line = "QUIT".toList) := by
  have hnamed : ∀ (keyword user : PyStr),
      (∃ word args, line.splitOn ' ' = word :: args ∧ upper word = keyword ∧
        args = [user]) ↔
        ' ' ∉ user ∧ ∃ word, ' ' ∉ word ∧ upper word = keyword ∧
          line = word ++ ' ' :: user := by
    intro keyword user
    constructor
    · rintro ⟨word, args, hwords, hkeyword, rfl⟩
      obtain ⟨hword, huser, hline⟩ := splitOn_eq_pair.mp hwords
      exact ⟨huser, word, hword, hkeyword, hline⟩
    · rintro ⟨huser, word, hword, hkeyword, hline⟩
      exact ⟨word, [user], splitOn_eq_pair.mpr ⟨hword, huser, hline⟩, hkeyword, rfl⟩
  constructor
  · intro call
    rw [command_eq_call]
    cases call with
    | register user => exact hnamed _ user
    | unregister user => exact hnamed _ user
    | connect user => exact hnamed _ user
    | disconnect user => exact hnamed _ user
    | send recipient message =>
        constructor
        · rintro ⟨word, args, hwords, hkeyword, texts, hne, rfl, htext⟩
          obtain ⟨hword, hrecipient, hline⟩ := splitOn_two.mp ⟨texts, hne, hwords, htext⟩
          exact ⟨hrecipient, word, hword, hkeyword, hline⟩
        · rintro ⟨hrecipient, word, hword, hkeyword, hline⟩
          obtain ⟨texts, hne, hwords, htext⟩ := splitOn_two.mpr ⟨hword, hrecipient, hline⟩
          exact ⟨word, recipient :: texts, hwords, hkeyword, texts, hne, rfl, htext⟩
  · rw [command_eq_quit]
    refine and_congr_left fun _ =>
      ⟨fun h => not_mem_of_mem_splitOn (h ▸ List.mem_cons_self), ?_⟩
    exact List.splitOn_eq_singleton

end Lines

/-! ## The loop -/

/-- Where the loop is. -/
inductive ShellState
  | running
  /-- Behind the `break`. -/
  | left
  /-- In a call that does not return. -/
  | waiting
  deriving DecidableEq

/-- What `input` returns, `none` when it raises an exception, and the network as the line meets
it. -/
structure ShellTurn where
  line : Option PyStr
  net : Network

/-- Where the loop is behind a call, when it would be at `done` had the call returned. -/
def Outcome.shellState {α : Type} (done : ShellState) : Outcome α → ShellState
  | .returned _ => done
  -- `except Exception`
  | .raised => .running
  | .blocked => .waiting

/-- One turn of the loop of `shell`. -/
def ClientProcess.shellTurn (upper : PyStr → PyStr) (self : ClientProcess) (turn : ShellTurn) :
    ShellState × ClientProcess :=
  match turn.line.map (command upper) with
  | some (.call call) =>
      let result := call.process turn.net self
      (result.1.shellState .running, result.2)
  | some .quit =>
      match self.client.connectedUser with
      | some user =>
          if self.client.hasUser then
            let result := self.disconnect turn.net user
            (result.1.shellState .left, result.2)
          else (.left, self)
      | none => (.left, self)
  | some (.printed _) => (.running, self)
  | some .ignored => (.running, self)
  | none => (.running, self)

/-- `Client.shell` -/
def ClientProcess.shell (upper : PyStr → PyStr) (self : ClientProcess) :
    List ShellTurn → ShellState × ClientProcess
  | [] => (.running, self)
  | turn :: turns =>
      match self.shellTurn upper turn with
      | (.running, self') => self'.shell upper turns
      | result => result

/-! ## A server that cannot be reached -/

/-- The line is `QUIT`. -/
def ShellTurn.quits (upper : PyStr → PyStr) (turn : ShellTurn) : Bool :=
  match turn.line.map (command upper) with
  | some .quit => true
  | _ => false

/-- The call starts a listening thread. -/
def ClientCall.listens (net : Network) (client : Client) : ClientCall → Bool
  | .connect user => !client.hasOtherUser user && net.listening.isSome
  | _ => false

/-- The line starts a listening thread. -/
def ShellTurn.listens (upper : PyStr → PyStr) (client : Client) (turn : ShellTurn) : Bool :=
  match turn.line.map (command upper) with
  | some (.call call) => call.listens turn.net client
  | _ => false

/-! ### Calls without a server -/

section Unreachable

variable {upper : PyStr → PyStr} {self : ClientProcess} {turn : ShellTurn}
  {turns : List ShellTurn} {net : Network}

/-- A call that does not attempt to connect returns, or raises an exception, and leaves
everything. -/
theorem ClientCall.process_idle {call : ClientCall} (hattempts : call.attempts net self = false) :
    (call.process net self).2 = self ∧ (call.process net self).1 ≠ .blocked := by
  cases call with
  | register user => cases hattempts
  | unregister user => cases hattempts
  | connect user =>
      unfold ClientCall.attempts at hattempts
      simp only [ClientCall.process, ClientProcess.connect]
      cases hother : self.client.hasOtherUser user with
      | true => simp
      | false =>
          simp only [hother, Bool.not_false, Bool.true_and, Option.isSome_eq_false_iff,
            Option.isNone_iff_eq_none] at hattempts
          rw [hattempts]
          simp
  | disconnect user =>
      unfold ClientCall.attempts at hattempts
      simp only [ClientCall.process, ClientProcess.disconnect]
      rw [Bool.not_eq_false'] at hattempts
      rw [hattempts]
      simp
  | send recipient message =>
      unfold ClientCall.attempts at hattempts
      rw [Option.isSome_eq_false_iff, Option.isNone_iff_eq_none] at hattempts
      simp [ClientCall.process, ClientProcess.send, hattempts]

/-- A call without a server does not block, and leaves the client and a listening thread. -/
theorem ClientCall.process_down (self : ClientProcess) (hdown : net.connects = false)
    (call : ClientCall) :
    (call.process net self).1 ≠ .blocked ∧ (call.process net self).2.client = self.client ∧
      (call.process net self).2.listening.length =
        self.listening.length + (call.listens net self.client).toNat := by
  cases hattempts : call.attempts net self with
  | true =>
      rw [ClientCall.process_unreachable hdown call hattempts]
      refine ⟨by simp, ?_⟩
      cases call with
      | connect user =>
          have hguard : (!self.client.hasOtherUser user && net.listening.isSome) = true := hattempts
          rw [ClientCall.listens, hguard]
          rw [Bool.and_eq_true, Option.isSome_iff_exists] at hguard
          obtain ⟨-, port, hport⟩ := hguard
          simp [ClientCall.leaves, hport, ClientProcess.startThread]
      | _ => exact ⟨rfl, rfl⟩
  | false =>
      obtain ⟨hself, hblocked⟩ := ClientCall.process_idle hattempts
      rw [hself]
      refine ⟨hblocked, rfl, ?_⟩
      cases call with
      | connect user =>
          have hguard : (!self.client.hasOtherUser user && net.listening.isSome) = false :=
            hattempts
          rw [ClientCall.listens, hguard]
          rfl
      | _ => rfl

/-- A call that returns leaves the shell running. -/
theorem shellState_running {α : Type} {outcome : Outcome α} (h : outcome ≠ .blocked) :
    outcome.shellState .running = .running := by
  cases outcome with
  | blocked => exact absurd rfl h
  | _ => rfl

/-- One turn without a server. -/
theorem shellTurn_unreachable (upper : PyStr → PyStr) (self : ClientProcess)
    (hdown : turn.net.connects = false) :
    (self.shellTurn upper turn).1 = (if self.client.hasUser = false ∧ turn.quits upper = true
        then .left else .running) ∧
      (self.shellTurn upper turn).2.client = self.client ∧
      (self.shellTurn upper turn).2.listening.length =
        self.listening.length + (turn.listens upper self.client).toNat := by
  unfold ClientProcess.shellTurn ShellTurn.quits ShellTurn.listens
  cases hline : turn.line.map (command upper) with
  | none => simp
  | some c =>
      cases c with
      | call call =>
          obtain ⟨hblocked, hrest⟩ := ClientCall.process_down self hdown call
          exact ⟨by simp [shellState_running hblocked], hrest⟩
      | quit =>
          cases huser : self.client.connectedUser with
          | none => simp [Client.hasUser, huser]
          | some user =>
              cases hhas : self.client.hasUser with
              | false => simp
              | true =>
                  have hattempts : (ClientCall.disconnect user).attempts turn.net self = true := by
                    simp [ClientCall.attempts, Client.hasOtherUser, huser]
                  have hraised := ClientCall.process_unreachable hdown _ hattempts
                  simp only [ClientCall.process, ClientCall.leaves] at hraised
                  simp [hraised, Outcome.shellState]
      | printed text => simp
      | ignored => simp

/-- **Without a server the shell of a connected client does not come to an end**: `QUIT` is one more
call that fails.  Each `CONNECT` of its user is one more listening thread. -/
theorem shell_unreachable (upper : PyStr → PyStr) (self : ClientProcess)
    (hdown : ∀ turn ∈ turns, turn.net.connects = false) :
    ((self.shell upper turns).1 = .left ↔ self.client.hasUser = false ∧ ∃ turn ∈ turns,
        turn.quits upper = true) ∧
      (self.shell upper turns).1 ≠ .waiting ∧
        (self.shell upper turns).2.client = self.client ∧
      (self.client.hasUser = true → (self.shell upper turns).2.listening.length =
        self.listening.length + turns.countP (ShellTurn.listens upper self.client)) := by
  induction turns generalizing self with
  | nil => simp [ClientProcess.shell]
  | cons turn turns ih =>
      obtain ⟨hstate, hclient, hthreads⟩ :=
        shellTurn_unreachable upper self (hdown turn List.mem_cons_self)
      generalize hturn : self.shellTurn upper turn = result at hstate hclient hthreads
      obtain ⟨state, next⟩ := result
      dsimp only at hstate hclient hthreads
      obtain ⟨hleft, hwaiting, hkept, hcount⟩ :=
        ih next fun turn hmem => hdown turn (List.mem_cons_of_mem _ hmem)
      rw [hclient] at hleft hkept hcount
      by_cases hends : self.client.hasUser = false ∧ turn.quits upper = true
      · rw [if_pos hends] at hstate
        obtain rfl := hstate
        simp [ClientProcess.shell, hturn, hends, hclient]
      · rw [if_neg hends] at hstate
        obtain rfl := hstate
        simp only [ClientProcess.shell, hturn]
        refine ⟨?_, hwaiting, hkept, fun hhas => ?_⟩
        · rw [hleft]
          refine and_congr_right fun hnone => ?_
          have hquits : turn.quits upper ≠ true := fun hquits => hends ⟨hnone, hquits⟩
          simp [hquits]
        · rw [hcount hhas, hthreads, List.countP_cons]
          cases turn.listens upper self.client with
          | true =>
              simp only [Bool.toNat_true, if_true]
              omega
          | false => simp

end Unreachable

/-! ### A session without a server -/

/-- A client that has connected `a`, at a port where a thread of its own listens. -/
def connectedClient : ClientProcess :=
  ⟨⟨some ['a'], some 50000⟩, some 0, [⟨0, 50000⟩], 1⟩

/-- `str.upper`, of letters of the alphabet. -/
def upperAscii (s : PyStr) : PyStr := s.map Char.toUpper

/-- A session without a server. -/
theorem shell_unreachable_quit :
    let result := connectedClient.shell upperAscii
      [⟨some "quit".toList, refusing⟩, ⟨some "connect a".toList, refusing⟩,
        ⟨some "quit".toList, refusing⟩]
    result.1 ≠ .left ∧ result.2.client.connectedUser = some ['a'] ∧
      result.2.listening.length = 2 := by
  have hdown : ∀ turn ∈ [(⟨some "quit".toList, refusing⟩ : ShellTurn),
      ⟨some "connect a".toList, refusing⟩, ⟨some "quit".toList, refusing⟩],
      turn.net.connects = false := by
    simp [refusing]
  obtain ⟨hleft, -, hclient, hthreads⟩ := shell_unreachable upperAscii connectedClient hdown
  refine ⟨fun h => absurd (hleft.mp h).1 (by decide), by rw [hclient]; rfl, ?_⟩
  rw [hthreads (by decide)]
  decide +kernel

/-! ## A server that answers -/

/-- The shell of a client, and the database of the server. -/
structure ShellSession where
  joint : Joint
  state : ShellState

/-- One line, `none` when `input` raises an exception, at which every call returns. -/
inductive ShellStep (upper : PyStr → PyStr) (s : ShellSession) (line : Option PyStr) :
    ShellSession → Prop
  | called {call : ClientCall} {joint' : Joint} (hrunning : s.state = .running)
      (hline : line.map (command upper) = some (.call call))
      (hstep : JointStep s.joint call joint') :
      ShellStep upper s line ⟨joint', .running⟩
  | quit {user : PyStr} {joint' : Joint} (hrunning : s.state = .running)
      (hline : line.map (command upper) = some .quit)
      (huser : s.joint.client.client.connectedUser = some user)
      (hstep : JointStep s.joint (.disconnect user) joint') :
      ShellStep upper s line ⟨joint', .left⟩
  | quitAlone (hrunning : s.state = .running) (hline : line.map (command upper) = some .quit)
      (hnone : s.joint.client.client.connectedUser = none) :
      ShellStep upper s line ⟨s.joint, .left⟩
  | printed {text : PyStr} (hrunning : s.state = .running)
      (hline : line.map (command upper) = some (.printed text)) : ShellStep upper s line s
  | ignored (hrunning : s.state = .running) (hline : line.map (command upper) = some .ignored) :
      ShellStep upper s line s
  | ended (hrunning : s.state = .running) (hline : line = none) : ShellStep upper s line s

/-- The line unregisters somebody who is registered, and is not the connected user. -/
def ForeignLine (upper : PyStr → PyStr) (s : ShellSession) (line : Option PyStr) : Prop :=
  ∃ call, line.map (command upper) = some (.call call) ∧ Foreign s.joint call

section Sessions

variable {upper : PyStr → PyStr} {s s' : ShellSession} {line : Option PyStr}
  {j j' : Joint} {u : PyStr}

/-- The call behind a step returns. -/
theorem JointStep.exists_process {call : ClientCall} (h : JointStep j call j') :
    ∃ net code, call.Proper net ∧ call.process net j.client = (.returned code, j'.client) := by
  cases h with
  | refused hworks hproper hop hprocess => exact ⟨_, _, hproper, hprocess⟩
  | served hworks hproper hop hmem hevs hthread hwell hserver hprocess =>
      exact ⟨_, _, hproper, hprocess⟩

/-- **A step of the session is a turn of the loop.** -/
theorem ShellStep.turn (h : ShellStep upper s line s') :
    ∃ net, s.joint.client.shellTurn upper ⟨line, net⟩ = (s'.state, s'.joint.client) := by
  unfold ClientProcess.shellTurn
  cases h with
  | called hrunning hline hstep =>
      obtain ⟨net, code, -, hprocess⟩ := hstep.exists_process
      exact ⟨net, by simp [hline, hprocess, Outcome.shellState]⟩
  | quit hrunning hline huser hstep =>
      obtain ⟨net, code, hproper, hprocess⟩ := hstep.exists_process
      have hhas : s.joint.client.client.hasUser = true := by
        have hne : _ ≠ [] := hproper.1.2.1
        rw [Client.hasUser, huser]
        simpa [ClientCall.account] using hne
      simp only [ClientCall.process] at hprocess
      exact ⟨net, by simp [hline, huser, hhas, hprocess, Outcome.shellState]⟩
  | quitAlone hrunning hline hnone => exact ⟨refusing, by simp [hline, hnone]⟩
  | printed hrunning hline => exact ⟨refusing, by simp [hline, hrunning]⟩
  | ignored hrunning hline => exact ⟨refusing, by simp [hline, hrunning]⟩
  | ended hrunning hline => exact ⟨refusing, by simp [hline, hrunning]⟩

/-- A client that disconnects its user has no user afterwards. -/
theorem JointStep.disconnects (h : InStep j) (huser : j.client.client.connectedUser = some u)
    (hstep : JointStep j (.disconnect u) j') : j'.client.client.connectedUser = none := by
  have hother : j.client.client.hasOtherUser u = false := by simp [Client.hasOtherUser, huser]
  rcases hstep.moves h with ⟨-, net, hop⟩ | ⟨net, op, code, hm⟩
  · simp [ClientCall.op, hother] at hop
  · have hasks := hm.asks
    simp only [ClientCall.op, hother, Bool.false_eq_true, if_false] at hasks
    obtain rfl := Option.some.inj hasks
    -- the server has the user connected, so that it cannot refuse
    have hcode : code = srvSuccess := by
      obtain ⟨a, a', -, hfollows, -, hreported⟩ := hm.own
      obtain ⟨ud, hud, hcn, -⟩ := hfollows.connected huser
      generalize a'.record = rec at hreported
      cases hreported with
      | disconnected ud hud hstatus => rfl
      | notDisconnected code hne hdcn =>
          exact absurd ((hdcn ud hud).symm.trans hcn) statusDcn_ne_statusCn
    have hclient := hm.client
    rw [ClientCall.after, if_pos hcode] at hclient
    rw [(Prod.mk.inj hclient).1]

/-- The client and the server agree, and a shell that has been left has nobody connected. -/
structure InSession (s : ShellSession) : Prop where
  inStep : InStep s.joint
  left : s.state = .left → s.joint.client.client.connectedUser = none

/-- A `DISCONNECT` unregisters nobody. -/
theorem not_foreign_disconnect : ¬ Foreign j (.disconnect u) := by
  rintro ⟨_, _, heq, -⟩
  cases heq

/-- One line keeps the invariant of the session. -/
theorem ShellStep.inSession (h : InSession s) (hstep : ShellStep upper s line s')
    (hforeign : ¬ ForeignLine upper s line) : InSession s' := by
  cases hstep with
  | called hrunning hline hstep =>
      refine ⟨hstep.inStep h.inStep fun hforeign' => hforeign ⟨_, hline, hforeign'⟩,
        fun hleft => ?_⟩
      cases hleft
  | quit hrunning hline huser hstep =>
      exact ⟨hstep.inStep h.inStep not_foreign_disconnect,
        fun _ => hstep.disconnects h.inStep huser⟩
  | quitAlone hrunning hline hnone => exact ⟨h.inStep, fun _ => hnone⟩
  | printed hrunning hline => exact h
  | ignored hrunning hline => exact h
  | ended hrunning hline => exact h

/-- Nobody is connected, and no thread listens. -/
structure LoggedOut (j : Joint) : Prop where
  record : ∀ u, UserName u → ∀ port, ¬ j.fs.ConnectedAt u port
  threads : j.client.listening = []

/-- At the end nobody is connected. -/
theorem InSession.loggedOut (h : InSession s) (hleft : s.state = .left) : LoggedOut s.joint := by
  have hagrees := h.inStep.agrees
  have hnone := h.left hleft
  constructor
  · intro u hu port hconnected
    have huser := ((hagrees.record u hu port).mp hconnected).1
    rw [hnone] at huser
    cases huser
  · have hthreads := hagrees.threads
    rw [if_pos hnone] at hthreads
    exact List.map_eq_nil_iff.mp hthreads

end Sessions

/-! ### A session -/

/-- `a` has left. -/
def jointLeft : Joint := jointConnected.play 50001 (.disconnect ['a']) (.disconnect ['a'])

/-- The `DISCONNECT` at the end. -/
theorem step_jointLeft : JointStep jointConnected (.disconnect ['a']) jointLeft := by
  have hclient : jointConnected.client = connectedClient := by decide +kernel
  have hop : (ClientCall.disconnect ['a']).op (answering 50001 []) jointConnected.client.client =
      some (.disconnect ['a']) := by
    rw [hclient]
    rfl
  exact Joint.step_play ⟨by decide, nofun⟩ (by decide +kernel) hop (by decide +kernel)
