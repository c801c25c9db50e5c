/-
# Requests

A request as the service thread works on it after its fields are received, and how
it comes out of the bytes on the connection.

* `Req`, `Req.body`: the requests, and what the server does with each;
* `received`: the request that a service thread makes of a stream of bytes and the
  old contents of its `request_t`;
* `exec_serviceThread`: a service thread on a stream receives that request and goes
  on with its body.
-/
import MessageServer.Services

/-! ## Requests -/

/-- A request with its fields. -/
inductive Req
  | register (username : Bytes)
  | unregister (username : Bytes)
  | connect (username port : Bytes)
  | disconnect (username : Bytes)
  | send (sender recipient content : Bytes)
  | unknown
  deriving DecidableEq, Repr

/-- What the server does with a request whose fields are received. -/
def Req.body (fuel : ℕ) : Req → Srv (Option Unit)
  | .register username => finished (srvRegisterBody username)
  | .unregister username => finished (srvUnregisterBody username)
  | .connect username port => srvConnectBody fuel username port
  | .disconnect username => finished (srvDisconnectBody username)
  | .send sender recipient content => finished (srvSendBody sender recipient content)
  | .unknown => return some ()

/-! ## Fields -/

/-- One field off a stream that ends: the C string in the buffer afterwards, and
what is left.  When the stream ends at once, the buffer keeps what it held. -/
def receiveField (bs buf : Bytes) : Bytes × Bytes :=
  let line := bs.takeWhile (fun b => !isTerminator b)
  let rest := bs.dropWhile (fun b => !isTerminator b)
  (if line = [] ∧ rest = [] then cstr buf else line.take (maxMsgSize - 1), rest.tail)

/-- The request that comes out of a stream of bytes. -/
def received (request : Request) (bs : Bytes) : Req :=
  let o := receiveField bs request.opCode
  if o.1 = opRegister then .register (receiveField o.2 request.username).1
  else if o.1 = opUnregister then .unregister (receiveField o.2 request.username).1
  else if o.1 = opConnect then
    let u := receiveField o.2 request.username
    .connect u.1 (receiveField u.2 request.clientPort).1
  else if o.1 = opDisconnect then .disconnect (receiveField o.2 request.username).1
  else if o.1 = opSend then
    let s := receiveField o.2 request.clientPort
    let r := receiveField s.2 request.username
    .send s.1 r.1 (receiveField r.2 request.content).1
  else .unknown

/-- The loop of `read_line` on a stream of bytes. -/
theorem readLineLoop_stream (n : ℕ) (bs line : Bytes) (hline : line.length ≤ n - 1) :
    readLineLoop n (stream bs) line =
      let pre := bs.takeWhile (fun b => !isTerminator b)
      let rest := bs.dropWhile (fun b => !isTerminator b)
      let stored := (line ++ pre).take (n - 1)
      if stored = [] ∧ rest = [] then ⟨0, [], false, []⟩
      else ⟨stored.length, stored, true, stream rest.tail⟩ := by
  induction bs generalizing line with
  | nil =>
      have htake : line.take (n - 1) = line := List.take_of_length_le hline
      simp only [stream, List.map_nil, readLineLoop, List.takeWhile_nil, List.dropWhile_nil,
        List.append_nil, htake, and_true, List.tail_nil]
      by_cases hnil : line = []
      · rw [if_pos hnil, if_pos hnil, hnil]
      · rw [if_neg hnil, if_neg hnil]
  | cons b bs ih =>
      rw [stream, List.map_cons, readLineLoop]
      by_cases hb : isTerminator b = true
      · have htake : line.take (n - 1) = line := List.take_of_length_le hline
        simp [hb, htake, stream]
      · have hnot : isTerminator b = false := by simpa using hb
        have hstep : (if line.length < n - 1 then readLineLoop n (stream bs) (line ++ [b])
            else readLineLoop n (stream bs) line) =
            readLineLoop n (stream bs) ((line ++ [b]).take (n - 1)) := by
          split
          · rw [List.take_of_length_le (by simp; omega)]
          · rename_i hlt
            rw [List.take_append_of_le_length (by omega), List.take_of_length_le hline]
        have hpre : ((line ++ [b]).take (n - 1) ++ bs.takeWhile fun b => !isTerminator b).take
            (n - 1) =
            (line ++ b :: bs.takeWhile fun b => !isTerminator b).take (n - 1) := by
          rcases Nat.lt_or_ge line.length (n - 1) with hlt | hge
          · rw [List.take_of_length_le (l := line ++ [b]) (by simp; omega), List.append_assoc]
            rfl
          · rw [List.take_append_of_le_length (show n - 1 ≤ line.length by omega),
              List.take_of_length_le hline,
              List.take_append_of_le_length (by omega), List.take_append_of_le_length (by omega)]
        change (if isTerminator b = true then _ else if line.length < n - 1 then
          readLineLoop n (stream bs) (line ++ [b]) else readLineLoop n (stream bs) line) = _
        rw [if_neg hb, hstep, ih _ (by rw [List.length_take]; omega)]
        simp only [List.takeWhile_cons, List.dropWhile_cons, hnot, Bool.not_false, if_true, hpre]

/-- `read_line` on a stream of bytes gives the field. -/
theorem readLine_stream (bs buf : Bytes) :
    ∃ n buf', readLine (stream bs) buf maxMsgSize = (n, buf', stream (receiveField bs buf).2) ∧
      0 ≤ n ∧ cstr buf' = (receiveField bs buf).1 := by
  rw [readLine, if_neg (by decide), readLineLoop_stream _ _ _ (by simp)]
  simp only [List.nil_append, receiveField]
  have hnil : ((bs.takeWhile fun b => !isTerminator b).take (maxMsgSize - 1) = [] ↔
      (bs.takeWhile fun b => !isTerminator b) = []) := by
    rw [List.take_eq_nil_iff]
    exact or_iff_right (by decide)
  simp only [hnil]
  split
  · rename_i h
    refine ⟨0, buf, ?_, le_rfl, rfl⟩
    rw [h.2]
    rfl
  · refine ⟨_, _, rfl, Int.natCast_nonneg _, ?_⟩
    have hnul : (0 : UInt8) ∉ (bs.takeWhile fun b => !isTerminator b).take (maxMsgSize - 1) := by
      intro hmem
      have hterm := List.mem_takeWhile_imp (List.mem_of_mem_take hmem)
      simp [isTerminator] at hterm
    simp only [LineResult.buffer, if_true, List.append_assoc]
    exact cstr_append_zero hnul

/-! ## From the stream to the body -/

/-- A receive on the connection. -/
def IsRecv (e : srvE.Event) : Prop := ∃ buf, e.1 = SrvOp.recv buf

/-- Receiving a field is one step. -/
theorem exec_recvString {T : DbCall → List sysE.Event → Prop} {α : Type} (fs : FS)
    (bs buf : Bytes)
    (f : ℤ × Bytes → Srv α) :
    ∃ ev r, IsRecv ev ∧ r.1 = 0 ∧ cstr r.2 = (receiveField bs buf).1 ∧
      ∀ t v w', Exec (SrvStep T) (recvString buf >>= f) ⟨fs, stream bs⟩ t v w' ↔
        ∃ t', t = ev :: t' ∧
          Exec (SrvStep T) (f r) ⟨fs, stream (receiveField bs buf).2⟩ t' v w' := by
  obtain ⟨n, buf', hread, hn, hbuf⟩ := readLine_stream bs buf
  refine ⟨⟨SrvOp.recv buf, (n, buf')⟩, (0, buf'), ⟨buf, rfl⟩, rfl, hbuf,
    fun t v w' => ?_⟩
  rw [recvString, bind_assoc]
  constructor
  · intro h
    obtain ⟨x, s', t', ⟨hfs, hx⟩, hrest, rfl⟩ := exec_perform_bind_iff.mp h
    obtain ⟨fs', input'⟩ := s'
    obtain rfl : fs' = fs := hfs
    rw [hread, Prod.mk.injEq, Prod.mk.injEq] at hx
    obtain ⟨h₁, h₂, rfl⟩ := hx
    obtain ⟨x₁, x₂⟩ := x
    obtain rfl : n = x₁ := h₁
    obtain rfl : buf' = x₂ := h₂
    rw [if_neg (not_lt.mpr hn)] at hrest
    exact ⟨t', rfl, hrest⟩
  · rintro ⟨t', rfl, hrest⟩
    refine exec_perform_bind_iff.mpr
      ⟨(n, buf'), ⟨fs, stream (receiveField bs buf).2⟩, t', ⟨rfl, hread⟩, ?_, rfl⟩
    rw [if_neg (not_lt.mpr hn)]
    exact hrest

/-- Two programs with the same executions up to receives in front. -/
def ReceivesThen (T : DbCall → List sysE.Event → Prop) {α : Type} (fs : FS) (p : Srv α)
    (bs : Bytes) (q : Srv α) : Prop :=
  ∃ t₀ rest, (∀ e ∈ t₀, IsRecv e) ∧ ∀ t v w',
    Exec (SrvStep T) p ⟨fs, stream bs⟩ t v w' ↔
      ∃ t', t = t₀ ++ t' ∧ Exec (SrvStep T) q ⟨fs, stream rest⟩ t' v w'

theorem ReceivesThen.refl {T : DbCall → List sysE.Event → Prop} {α : Type}
    (fs : FS) (p : Srv α)
    (bs : Bytes) : ReceivesThen T fs p bs p :=
  ⟨[],
    bs, by simp, fun t v w' => ⟨fun h => ⟨t, rfl, h⟩, fun ⟨_, ht, h⟩ => ht ▸ h⟩⟩

/-- Receiving one more field. -/
theorem ReceivesThen.recv {T : DbCall → List sysE.Event → Prop} {α : Type} {fs : FS}
    {bs buf : Bytes} {f : ℤ × Bytes → Srv α} {q : Srv α}
    (h : ∀ r : ℤ × Bytes, r.1 = 0 → cstr r.2 = (receiveField bs buf).1 →
      ReceivesThen T fs (f r) (receiveField bs buf).2 q) :
    ReceivesThen T fs (recvString buf >>= f) bs q := by
  obtain ⟨ev, r, hev, hr, hfield, hexec⟩ := exec_recvString (T := T) fs bs buf f
  obtain ⟨t₀, rest, ht₀, hq⟩ := h r hr hfield
  refine ⟨ev :: t₀, rest, ?_, fun t v w' => ?_⟩
  · intro e he
    rcases List.mem_cons.mp he with rfl | he
    · exact hev
    · exact ht₀ e he
  · rw [hexec]
    constructor
    · rintro ⟨t', rfl, h'⟩
      obtain ⟨t'', rfl, h''⟩ := (hq _ _ _).mp h'
      exact ⟨t'', rfl, h''⟩
    · rintro ⟨t'', rfl, h''⟩
      exact ⟨t₀ ++ t'', rfl, (hq _ _ _).mpr ⟨t'', rfl, h''⟩⟩

/-- A service with one field. -/
theorem receivesThen_username {T : DbCall → List sysE.Event → Prop} {fs : FS} {bs buf : Bytes}
    (body : Bytes → Srv Unit) :
    ReceivesThen T fs (finished (recvString buf >>= fun u =>
      if u.1 < 0 then return () else body (cstr u.2))) bs
        (finished (body (receiveField bs buf).1)) := by
  rw [finished, bind_assoc]
  refine ReceivesThen.recv fun r hr hfield => ?_
  rw [if_neg (by rw [hr]; decide), hfield]
  exact ReceivesThen.refl fs _ _

/-- **A service thread on a stream** receives a request and goes on with its body. -/
theorem serviceThread_receives (T : DbCall → List sysE.Event → Prop) (fuel : ℕ)
    (request : Request)
    (fs : FS) (bs : Bytes) :
    ReceivesThen T fs (serviceThread fuel request) bs ((received request bs).body fuel) := by
  rw [serviceThread]
  refine ReceivesThen.recv fun o ho hop => ?_
  rw [if_neg (by rw [ho]; decide)]
  simp only [hop]
  unfold received
  by_cases h₁ : (receiveField bs request.opCode).1 = opRegister
  · simp only [if_pos h₁]
    exact receivesThen_username srvRegisterBody
  by_cases h₂ : (receiveField bs request.opCode).1 = opUnregister
  · simp only [if_neg h₁, if_pos h₂]
    exact receivesThen_username srvUnregisterBody
  by_cases h₃ : (receiveField bs request.opCode).1 = opConnect
  · simp only [if_neg h₁, if_neg h₂, if_pos h₃]
    refine ReceivesThen.recv fun u hu huser => ?_
    rw [if_neg (by rw [hu]; decide)]
    refine ReceivesThen.recv fun p hp hport => ?_
    rw [if_neg (by rw [hp]; decide), huser, hport]
    exact ReceivesThen.refl fs _ _
  by_cases h₄ : (receiveField bs request.opCode).1 = opDisconnect
  · simp only [if_neg h₁, if_neg h₂, if_neg h₃, if_pos h₄]
    exact receivesThen_username srvDisconnectBody
  by_cases h₅ : (receiveField bs request.opCode).1 = opSend
  · simp only [if_neg h₁, if_neg h₂, if_neg h₃, if_neg h₄, if_pos h₅]
    rw [finished, srvSend, bind_assoc]
    refine ReceivesThen.recv fun s hs hsender => ?_
    rw [if_neg (by rw [hs]; decide), bind_assoc]
    refine ReceivesThen.recv fun r hr hrecipient => ?_
    rw [if_neg (by rw [hr]; decide), bind_assoc]
    refine ReceivesThen.recv fun c hc hcontent => ?_
    rw [if_neg (by rw [hc]; decide), hsender, hrecipient, hcontent]
    exact ReceivesThen.refl fs _ _
  · simp only [if_neg h₁, if_neg h₂, if_neg h₃, if_neg h₄, if_neg h₅]
    exact ReceivesThen.refl fs _ _
