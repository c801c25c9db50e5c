/-
# The client with its server

One client and its server, joined by the bytes on the connection: a call writes its request,
a service thread reads it and handles it, and the client reads what the thread writes.

* `Joint`, `JointStep`: a client with the database of its server, and one call;
* what the thread makes of the bytes that the client writes;
* `ClientCall.process_after`: what the client makes of the reply.
-/
import MessageServer.WireSessions
import MessageServer.Unreachable

/-! ## The joint system -/

/-- A client, and the database of its server. -/
structure Joint where
  client : ClientProcess
  fs : FS

/-- The operation that a call writes to the server, when it gets as far. -/
def ClientCall.op (net : Network) (self : Client) : ClientCall → Option ClientOp
  | .register user => some (.register user)
  | .unregister user => some (.unregister user)
  | .connect user =>
      if self.hasOtherUser user then none
      else net.listening.map fun port => .connect user (toString port).toList
  | .disconnect user => if self.hasOtherUser user then none else some (.disconnect user)
  | .send recipient message =>
      match self.connectedUser, net.remove message with
      | some user, some text => some (.send user recipient text)
      | _, _ => none

/-- The user whose account a call is about. -/
def ClientCall.account : ClientCall → PyStr
  | .register user => user
  | .unregister user => user
  | .connect user => user
  | .disconnect user => user
  | .send recipient _ => recipient

/-- The strings of a call can be carried. -/
def ClientCall.Proper (net : Network) (call : ClientCall) : Prop :=
  UserName call.account ∧ ∀ recipient message text, call = .send recipient message →
    net.remove message = some text → FieldValue text

/-- Every system call of the client succeeds; a new listening socket gets a port that no other
listening socket has. -/
structure Network.Works (net : Network) (before : ClientProcess) : Prop where
  port : ∃ port, net.listening = some port ∧ 0 < port ∧ port < 65536 ∧
    ∀ l ∈ before.listening, l.port ≠ port
  connects : net.connects = true
  sends : ∀ n, net.sends n = true
  endConnects : ∀ port, net.endConnects port = true
  endSends : ∀ n, net.endSends n = true

/-- The thread writes all that it writes, every message that it sends gets through, and a new user
is recorded as disconnected. -/
structure ServedWell (op : ClientOp) (t : List srvE.Event) : Prop where
  written : Written t
  sent : AllSent (acts t)
  clean : ∀ v junk, op = .register v → Act.locals junk ∈ acts t →
    junk.user.status = statusDcn

/-- One call of the client.  It returns without a request, or a service thread reads the bytes that
it writes, handles them, and writes the bytes that it reads. -/
inductive JointStep (s : Joint) (call : ClientCall) : Joint → Prop
  | refused {net : Network} {code : ℕ} {self' : ClientProcess} (hworks : net.Works s.client)
      (hproper : call.Proper net) (hop : call.op net s.client.client = none)
      (hprocess : call.process net s.client = (.returned code, self')) :
      JointStep s call ⟨self', s.fs⟩
  | served {net : Network} {op : ClientOp} {fuel : ℕ} {mem : Bytes} {evs : List ReadEv}
      {t : List srvE.Event}
      {w : SrvWorld} {code : ℕ} {self' : ClientProcess} (hworks : net.Works s.client)
      (hproper : call.Proper net)
      (hop : call.op net s.client.client = some op) (hmem : mem.length = sizeofRequest)
      (hevs : Delivers evs op.writes.bytes)
      (hthread : Exec (SrvStep noFaults) (serviceThreadMem fuel mem) ⟨s.fs, evs⟩ t (some ()) w)
      (hwell : ServedWell op t) (hserver : net.server.bytes = sentToClient t)
      (hprocess : call.process net s.client = (.returned code, self')) :
      JointStep s call ⟨self', w.fs⟩

/-! ## What the thread makes of the bytes -/

/-- A connection on which nothing but interruptions comes is one at its end. -/
theorem readLine_interrupted {evs : List ReadEv} (h : Delivers evs []) (buf : Bytes) :
    readLine evs buf maxMsgSize = readLine [] buf maxMsgSize := by
  have hloop : ∀ line, readLineLoop maxMsgSize evs line = readLineLoop maxMsgSize [] line := by
    intro line
    induction evs with
    | nil => rfl
    | cons ev evs ih =>
        unfold Delivers at h
        by_cases hev : ev = .eintr
        · subst hev
          exact ih (by simpa [Delivers] using h)
        · rw [List.filter_cons_of_pos (by simpa using hev)] at h
          exact absurd h (by simp [stream])
  rw [readLine, readLine, if_neg (by decide), if_neg (by decide), hloop]

/-- The same database, with nothing but interruptions left on one connection and nothing on the
other. -/
structure Interrupted (w w' : SrvWorld) : Prop where
  fs : w.fs = w'.fs
  input : Delivers w.input []
  ended : w'.input = []

/-- What is left on the connection may as well not be there. -/
theorem exec_interrupted {T : DbCall → List sysE.Event → Prop} {α : Type}
    {p : Srv α} {fs : FS}
    {evs : List ReadEv} {t : List srvE.Event} {a : α} {w : SrvWorld}
    (h : Exec (SrvStep T) p ⟨fs, evs⟩ t a w)
    (hevs : Delivers evs []) :
    Exec (SrvStep T) p ⟨fs, []⟩ t a ⟨w.fs, []⟩ := by
  have hsame : ∀ (w₁ w₂ : SrvWorld) (o : SrvOp) (x : o.Ans) w₁', Interrupted w₁ w₂ →
      SrvStep T w₁ o x w₁' →
      ∃ w₂', SrvStep T w₂ o x w₂' ∧ Interrupted w₁' w₂' := by
    rintro w₁ ⟨fs₂, input₂⟩ o x w₁' ⟨hfs, hinput, hended⟩ hstep
    obtain rfl : w₁.fs = fs₂ := hfs
    obtain rfl : input₂ = [] := hended
    cases o with
    | db call =>
        exact ⟨⟨w₁'.fs, []⟩, ⟨hstep.1, rfl⟩, rfl, hstep.2.symm ▸ hinput, rfl⟩
    | recv buf =>
        obtain ⟨hfs, hread⟩ := hstep
        rw [readLine_interrupted hinput] at hread
        have hleft : w₁'.input = [] := (congrArg (fun r => r.2.2) hread).symm
        rw [hleft] at hread
        refine ⟨⟨w₁.fs, []⟩, ⟨rfl, hread⟩, hfs, ?_, rfl⟩
        rw [hleft]
        rfl
    | _ =>
        obtain rfl : w₁' = w₁ := hstep
        exact ⟨⟨w₁'.fs, []⟩, rfl, rfl, hinput, rfl⟩
  have hstart : Interrupted ⟨fs, evs⟩ ⟨fs, []⟩ := ⟨rfl, hevs, rfl⟩
  obtain ⟨⟨fs₂, input₂⟩, hexec, hfs, -, hended⟩ := h.simulate hsame hstart
  obtain rfl : w.fs = fs₂ := hfs
  obtain rfl : input₂ = [] := hended
  exact hexec

theorem ClientOp.req_fits {op : ClientOp} (h : ∀ s ∈ op.fields, FieldValue s) :
    op.req.Fits := by
  have hfits : ∀ s ∈ op.fields, FitsBuf maxMsgSize (received255 (asciiBytes s)) := fun s hs =>
    ⟨(h s hs).isLine.noNul, lt_of_le_of_lt (length_received255 _) (by decide)⟩
  cases op with
  | register user => exact hfits _ (by simp [fields])
  | unregister user => exact hfits _ (by simp [fields])
  | connect user port => exact ⟨hfits user (by simp [fields]), hfits port (by simp [fields])⟩
  | disconnect user => exact hfits _ (by simp [fields])
  | send user recipient message =>
      exact ⟨hfits user (by simp [fields]), hfits recipient (by simp [fields]),
        hfits message (by simp [fields])⟩

theorem acts_receives {t : List srvE.Event} (h : ∀ e ∈ t, IsRecv e) : acts t = [] := by
  refine acts_silent fun e he => ?_
  obtain ⟨buf, hbuf⟩ := h e he
  obtain ⟨o, x⟩ := e
  obtain rfl : o = .recv buf := hbuf
  rfl

/-- **The bytes of an operation are handled as its request.** -/
theorem handled_of_thread {op : ClientOp} {fuel : ℕ} {mem : Bytes} {evs : List ReadEv}
    {t : List srvE.Event}
    {fs : FS} {w : SrvWorld} (hop : ∀ s ∈ op.fields, FieldValue s)
    (hmem : mem.length = sizeofRequest)
    (hevs : Delivers evs op.writes.bytes)
    (h : Exec (SrvStep noFaults) (serviceThreadMem fuel mem) ⟨fs, evs⟩ t (some ()) w) :
    ∃ t', Handled fs (op.req, t') w.fs ∧ acts t' = acts t := by
  obtain ⟨-, t₀, evs', ht₀, hmore, hexec⟩ :=
    serviceThread_decodes noFaults fuel fs hmem op hop (by rwa [List.append_nil])
  obtain ⟨t', rfl, hbody⟩ := (hexec _ _ _).mp h
  refine ⟨t', ⟨ClientOp.req_fits hop, fuel, exec_interrupted hbody hmore⟩, ?_⟩
  rw [acts_append, acts_receives ht₀, List.nil_append]

/-! ## What the client makes of the reply -/

section Replies

variable {net : Network} {self self' : ClientProcess} {code : UInt8} {rest : Bytes} {c : ℕ}

/-- The first byte is the error code. -/
theorem requestReply_returned {raises : Bool} {anyCode : ℕ} {r : ℕ × Option ServerEnd}
    (h : requestReply net raises anyCode = .returned r) (hbytes : net.server.bytes = code :: rest) :
    r.1 = code.toNat := by
  unfold requestReply connectSocket withSocket at h
  cases hconnects : net.connects with
  | false =>
      rw [hconnects] at h
      cases h
  | true =>
      rw [hconnects] at h
      cases raises with
      | true => cases h
      | false =>
          simp only [Bool.false_eq_true, if_false, if_true,
            ServerEnd.receiveServerErrorCode, hbytes] at h
          rw [← Outcome.returned.inj h]

theorem toNat_eq_success : code.toNat = ecSuccess ↔ code = srvSuccess :=
  ⟨fun h => UInt8.toNat_inj.mp h, fun h => h ▸ rfl⟩

/-! ### The client behind a call -/

theorem ports_endThread (hworks : net.Works self) (p : ClientProcess) (port : Option ℕ) :
    (p.endThread net port).listening.map ListenThread.port =
      (p.listening.map ListenThread.port).filter fun q => some q ≠ port := by
  unfold ClientProcess.endThread
  cases port with
  | none =>
      rw [if_neg (by simp [Network.stops]), List.filter_eq_self.mpr (by simp)]
  | some q =>
      rw [if_pos (by simp [Network.stops, hworks.endConnects, hworks.endSends]), List.filter_map]
      rfl

/-- The client and its listening ports behind a call that has read `code`. -/
def ClientCall.after (net : Network) (self : Client) (ports : List ℕ) (code : UInt8) :
    ClientCall → Client × List ℕ
  | .unregister _ =>
      if code = srvSuccess ∧ self.hasUser then
        ({ self with connectedUser := none }, ports.filter fun q => some q ≠ self.listeningPort)
      else (self, ports)
  | .connect user =>
      if code = srvSuccess then (⟨some user, net.listening⟩, net.listening.toList ++ ports)
        else (self, ports)
  | .disconnect _ =>
      if code = srvSuccess then
        ({ self with connectedUser := none }, ports.filter fun q => some q ≠ self.listeningPort)
      else (self, ports)
  | _ => (self, ports)

/-- **What a call that returns makes of the client.** -/
theorem ClientCall.process_after {call : ClientCall} {op : ClientOp} (hworks : net.Works self)
    (hop : call.op net self.client = some op)
    (hprocess : call.process net self = (.returned c, self'))
    (hbytes : net.server.bytes = code :: rest) :
    (self'.client, self'.listening.map ListenThread.port) =
      call.after net self.client (self.listening.map ListenThread.port) code := by
  have hsuccess : code.toNat = ecSuccess ↔ code = srvSuccess := toNat_eq_success
  cases call with
  | register user =>
      simp only [process, ClientProcess.register] at hprocess
      split at hprocess
      · obtain rfl := (Prod.mk.inj hprocess).2
        rfl
      · cases hprocess
      · cases hprocess
  | unregister user =>
      simp only [process, ClientProcess.unregister] at hprocess
      split at hprocess
      · rename_i r hr
        simp only [requestReply_returned hr hbytes, hsuccess] at hprocess
        by_cases hcode : code = srvSuccess
        · rw [if_pos hcode] at hprocess
          by_cases huser : self.client.hasUser = true
          · rw [if_pos huser] at hprocess
            obtain rfl := (Prod.mk.inj hprocess).2
            rw [after, if_pos ⟨hcode, huser⟩, client_endThread, ports_endThread hworks]
          · rw [if_neg huser] at hprocess
            obtain rfl := (Prod.mk.inj hprocess).2
            rw [after, if_neg fun h => huser h.2]
        · rw [if_neg hcode] at hprocess
          obtain rfl := (Prod.mk.inj hprocess).2
          rw [after, if_neg fun h => hcode h.1]
      · cases hprocess
      · cases hprocess
  | connect user =>
      -- the thread for the new port is started before the reply
      obtain ⟨port, hport, -, -, hfresh⟩ := hworks.port
      simp only [ClientCall.op] at hop
      simp only [process, ClientProcess.connect] at hprocess
      by_cases hother : self.client.hasOtherUser user = true
      · rw [if_pos hother] at hop
        cases hop
      rw [if_neg hother, hport] at hprocess
      simp only at hprocess
      split at hprocess
      · rename_i r hr
        simp only [requestReply_returned hr hbytes, hsuccess] at hprocess
        by_cases hcode : code = srvSuccess
        · rw [if_pos hcode] at hprocess
          obtain rfl := (Prod.mk.inj hprocess).2
          rw [after, if_pos hcode, hport]
          rfl
        · rw [if_neg hcode] at hprocess
          obtain rfl := (Prod.mk.inj hprocess).2
          rw [after, if_neg hcode, client_endThread, ports_endThread hworks, client_startThread]
          -- a refused connection ends the new thread again, and no other
          have hports : (self.startThread port).listening.map ListenThread.port =
              port :: self.listening.map ListenThread.port := rfl
          rw [hports, List.filter_cons_of_neg (by simp), List.filter_eq_self.mpr]
          intro q hq
          obtain ⟨l, hl, rfl⟩ := List.mem_map.mp hq
          simpa using hfresh l hl
      · cases hprocess
      · cases hprocess
  | disconnect user =>
      simp only [ClientCall.op] at hop
      simp only [process, ClientProcess.disconnect] at hprocess
      by_cases hother : self.client.hasOtherUser user = true
      · rw [if_pos hother] at hop
        cases hop
      rw [if_neg hother] at hprocess
      split at hprocess
      · rename_i r hr
        simp only [requestReply_returned hr hbytes, hsuccess] at hprocess
        by_cases hcode : code = srvSuccess
        · rw [if_pos hcode] at hprocess
          obtain rfl := (Prod.mk.inj hprocess).2
          rw [after, if_pos hcode, client_endThread, ports_endThread hworks]
        · rw [if_neg hcode] at hprocess
          obtain rfl := (Prod.mk.inj hprocess).2
          rw [after, if_neg hcode]
      · cases hprocess
      · cases hprocess
  | send recipient message =>
      simp only [process, ClientProcess.send] at hprocess
      split at hprocess
      · cases hprocess
      · split at hprocess
        · split at hprocess
          · split at hprocess
            · obtain rfl := (Prod.mk.inj hprocess).2
              rfl
            · cases hprocess
          · obtain rfl := (Prod.mk.inj hprocess).2
            rfl
        · cases hprocess
        · cases hprocess

/-- A call that returns without a request leaves the client as it is. -/
theorem ClientCall.process_refused {call : ClientCall} (hworks : net.Works self)
    (hop : call.op net self.client = none)
    (hprocess : call.process net self = (.returned c, self')) :
    self' = self := by
  obtain ⟨port, hport, -⟩ := hworks.port
  cases call with
  | register user => cases hop
  | unregister user => cases hop
  | connect user =>
      simp only [ClientCall.op, hport] at hop
      simp only [process, ClientProcess.connect] at hprocess
      split at hprocess
      · exact (Prod.mk.inj hprocess).2.symm
      · rename_i hother
        rw [if_neg hother] at hop
        cases hop
  | disconnect user =>
      simp only [ClientCall.op] at hop
      simp only [process, ClientProcess.disconnect] at hprocess
      split at hprocess
      · exact (Prod.mk.inj hprocess).2.symm
      · rename_i hother
        rw [if_neg hother] at hop
        cases hop
  | send recipient message =>
      simp only [process, ClientProcess.send] at hprocess
      split at hprocess
      · cases hprocess
      · split at hprocess
        · split at hprocess
          · split at hprocess
            · exact (Prod.mk.inj hprocess).2.symm
            · cases hprocess
          · exact (Prod.mk.inj hprocess).2.symm
        · cases hprocess
        · cases hprocess

end Replies
