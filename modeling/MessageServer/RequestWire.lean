/-
# Requests on the wire

A client writes a request as strings with a NUL behind each; the service thread
receives them into the members of one `request_t`, some of which share the union.
Here `request_t` is a piece of memory and a member is an offset in it, so that a
string received into one member may overwrite another.

* `Delivers`: a connection that carries given bytes, with interruptions anywhere;
* `HoldsAt`, `store`: C strings in memory;
* `serviceThreadMem`: the service thread on a `request_t` in memory;
* `serviceThread_decodes`: it makes of an operation's bytes the request of that
  operation, and leaves nothing behind.
-/
import MessageServer.Client
import MessageServer.Requests

/-! ## Connections with interruptions -/

/-- The results of reading a connection that carries `bs`: each byte once, in order,
with interruptions by signals anywhere. -/
def Delivers (evs : List ReadEv) (bs : Bytes) : Prop := evs.filter (· ≠ .eintr) = stream bs

instance (evs : List ReadEv) (bs : Bytes) : Decidable (Delivers evs bs) :=
  inferInstanceAs (Decidable (_ = _))

theorem delivers_stream (bs : Bytes) : Delivers (stream bs) bs := by
  unfold Delivers
  rw [List.filter_eq_self]
  intro e he
  obtain ⟨b, -, rfl⟩ := List.mem_map.mp he
  rfl

/-- A string that `read_line` does not cut. -/
def IsLine (f : Bytes) : Prop := ∀ b ∈ f, isTerminator b = false

instance (f : Bytes) : Decidable (IsLine f) := List.decidableBAll _ f

/-- The loop of `read_line` reads up to the terminator behind a string, whatever
interrupts it, and stores as much of the string as there is room for. -/
theorem readLineLoop_delivers {n : ℕ} {f rest line : Bytes} {b : UInt8} (hf : IsLine f)
    (hb : isTerminator b = true) (hline : line.length ≤ n - 1) {evs : List ReadEv}
    (h : Delivers evs (f ++ b :: rest)) :
    ∃ evs', Delivers evs' rest ∧ readLineLoop n evs line =
      ⟨((line ++ f).take (n - 1)).length, (line ++ f).take (n - 1), true, evs'⟩ := by
  induction evs generalizing f line with
  | nil =>
      have hnil : stream (f ++ b :: rest) = [] := h.symm
      exact absurd hnil (by simp [stream])
  | cons e evs ih =>
      by_cases he : e = .eintr
      · subst he
        have h' : Delivers evs (f ++ b :: rest) := by
          rw [Delivers, List.filter_cons_of_neg (by simp)] at h
          exact h
        obtain ⟨evs', hrest, heq⟩ := ih hf hline h'
        exact ⟨evs', hrest, heq⟩
      · rw [Delivers, List.filter_cons_of_pos (by simpa using he)] at h
        cases f with
        | nil =>
            rw [List.nil_append, stream, List.map_cons, List.cons.injEq] at h
            obtain ⟨rfl, hrest⟩ := h
            refine ⟨evs, hrest, ?_⟩
            rw [readLineLoop, if_pos hb, List.append_nil, List.take_of_length_le hline]
        | cons c f =>
            rw [List.cons_append, stream, List.map_cons, List.cons.injEq] at h
            obtain ⟨rfl, hrest⟩ := h
            -- a byte of the line, for which there may be room
            have hc : isTerminator c = false := hf c List.mem_cons_self
            have hf' : IsLine f := fun d hd => hf d (List.mem_cons_of_mem _ hd)
            rw [readLineLoop, if_neg (by rw [hc]; simp)]
            by_cases hlt : line.length < n - 1
            · have hlen : (line ++ [c]).length ≤ n - 1 := by
                rw [List.length_append, List.length_singleton]
                omega
              rw [if_pos hlt]
              obtain ⟨evs', hrest', heq⟩ := ih hf' hlen hrest
              refine ⟨evs', hrest', ?_⟩
              rw [heq, List.append_assoc]
              rfl
            · -- no room is left: the byte is dropped
              rw [if_neg hlt]
              obtain ⟨evs', hrest', heq⟩ := ih hf' hline hrest
              refine ⟨evs', hrest', ?_⟩
              have htake : ∀ s : Bytes, (line ++ s).take (n - 1) = line := by
                intro s
                rw [List.take_append_of_le_length (by omega), List.take_of_length_le hline]
              rw [heq, htake, htake]

/-! ## C strings in memory -/

/-- The C string `s` stands in memory at an offset. -/
def HoldsAt (mem : Bytes) (offset : ℕ) (s : Bytes) : Prop :=
  0 ∉ s ∧ ∃ rest, mem.drop offset = s ++ 0 :: rest

/-- The C string at an offset. -/
def member (mem : Bytes) (offset : ℕ) : Bytes := cstr (mem.drop offset)

/-- Write a C string with its NUL at an offset. -/
def store (mem : Bytes) (offset : ℕ) (s : Bytes) : Bytes :=
  mem.take offset ++ (s ++ 0 :: mem.drop (offset + (s.length + 1)))

section Memory

variable {mem s s' : Bytes} {offset offset' : ℕ}

theorem member_of_holdsAt (h : HoldsAt mem offset s) : member mem offset = s := by
  obtain ⟨hs, rest, heq⟩ := h
  rw [member, heq]
  exact cstr_append_zero hs

theorem length_store (h : offset + (s.length + 1) ≤ mem.length) :
    (store mem offset s).length = mem.length := by
  simp only [store, List.length_append, List.length_take, List.length_cons, List.length_drop]
  omega

theorem holdsAt_store (hs : 0 ∉ s) (h : offset ≤ mem.length) :
    HoldsAt (store mem offset s) offset s := by
  refine ⟨hs, mem.drop (offset + (s.length + 1)), ?_⟩
  rw [store, List.drop_left' (by rw [List.length_take]; omega)]

/-- A string that ends before the offset stays. -/
theorem HoldsAt.store_above (h : HoldsAt mem offset' s')
    (hle : offset' + (s'.length + 1) ≤ offset) : HoldsAt (store mem offset s) offset' s' := by
  obtain ⟨hs', rest, heq⟩ := h
  refine ⟨hs', rest.take (offset - (offset' + (s'.length + 1))) ++
    (s ++ 0 :: mem.drop (offset + (s.length + 1))), ?_⟩
  have hlen := congrArg List.length heq
  rw [List.length_drop, List.length_append, List.length_cons] at hlen
  rw [store, List.drop_append_of_le_length (by rw [List.length_take]; omega), List.drop_take, heq]
  have hsplit : (s' ++ 0 :: rest).take (offset - offset') =
      s' ++ 0 :: rest.take (offset - (offset' + (s'.length + 1))) := by
    have hsub : offset - offset' = s'.length + ((offset - (offset' + (s'.length + 1))) + 1) := by
      omega
    rw [hsub, List.take_append, List.take_of_length_le (by omega), Nat.add_sub_cancel_left,
      List.take_succ_cons]
  rw [hsplit, List.append_assoc]
  rfl

/-- A string that starts behind what is written stays. -/
theorem HoldsAt.store_below (h : HoldsAt mem offset' s')
    (hle : offset + (s.length + 1) ≤ offset') : HoldsAt (store mem offset s) offset' s' := by
  obtain ⟨hs', rest, heq⟩ := h
  refine ⟨hs', rest, ?_⟩
  have hlen := congrArg List.length heq
  rw [List.length_drop, List.length_append, List.length_cons] at hlen
  have hsplit : store mem offset s =
      (mem.take offset ++ (s ++ [0])) ++ mem.drop (offset + (s.length + 1)) := by
    simp [store]
  have hpre : (mem.take offset ++ (s ++ [0])).length = offset + (s.length + 1) := by
    simp only [List.length_append, List.length_take, List.length_singleton]
    omega
  rw [hsplit, List.drop_append, List.drop_eq_nil_of_le (by omega), hpre, List.nil_append,
    List.drop_drop, Nat.add_sub_cancel' hle, heq]

end Memory

/-! ## The service thread on memory -/

/-- The offset of `op_code` in `request_t`. -/
def opCodeAt : ℕ := 0
/-- The offset of `username`, which is that of `recipient`. -/
def usernameAt : ℕ := 512
/-- The offset of `client_port`, which is that of `message.sender`. -/
def clientPortAt : ℕ := 1024
/-- The offset of `message.content`, behind `message.sender` and `message.id`. -/
def contentAt : ℕ := 1540
/-- `sizeof(request_t)` -/
def sizeofRequest : ℕ := 1796

/-- `recv_string` into a member of `request_t`: the result and the memory. -/
def recvMember (mem : Bytes) (offset : ℕ) : Srv (ℤ × Bytes) := do
  let r ← recvString (mem.drop offset)
  return (r.1, mem.take offset ++ r.2)

/-- A service with the field `username`. -/
def srvUsernameMem (body : Bytes → Srv Unit) (mem : Bytes) : Srv Unit := do
  let u ← recvMember mem usernameAt
  if u.1 < 0 then return () else body (member u.2 usernameAt)

/-- `srv_register` -/
def srvRegisterMem (mem : Bytes) : Srv Unit := srvUsernameMem srvRegisterBody mem

/-- `srv_unregister` -/
def srvUnregisterMem (mem : Bytes) : Srv Unit := srvUsernameMem srvUnregisterBody mem

/-- `srv_disconnect` -/
def srvDisconnectMem (mem : Bytes) : Srv Unit := srvUsernameMem srvDisconnectBody mem

/-- `srv_connect` -/
def srvConnectMem (fuel : ℕ) (mem : Bytes) : Srv (Option Unit) := do
  let u ← recvMember mem usernameAt
  if u.1 < 0 then return some ()
  else do
    let p ← recvMember u.2 clientPortAt
    if p.1 < 0 then return some ()
    else srvConnectBody fuel (member p.2 usernameAt) (member p.2 clientPortAt)

/-- `srv_send` -/
def srvSendMem (mem : Bytes) : Srv Unit := do
  let s ← recvMember mem clientPortAt
  if s.1 < 0 then return ()
  else do
    let r ← recvMember s.2 usernameAt
    if r.1 < 0 then return ()
    else do
      let c ← recvMember r.2 contentAt
      if c.1 < 0 then return ()
      else srvSendBody (member c.2 clientPortAt) (member c.2 usernameAt) (member c.2 contentAt)

/-- The service that `service_thread` selects. -/
def dispatchMem (fuel : ℕ) (opCode mem : Bytes) : Srv (Option Unit) :=
  if opCode = opRegister then finished (srvRegisterMem mem)
  else if opCode = opUnregister then finished (srvUnregisterMem mem)
  else if opCode = opConnect then srvConnectMem fuel mem
  else if opCode = opDisconnect then finished (srvDisconnectMem mem)
  else if opCode = opSend then finished (srvSendMem mem)
  else return some ()

/-- What `service_thread` does with a dequeued connection. -/
def serviceThreadMem (fuel : ℕ) (mem : Bytes) : Srv (Option Unit) := do
  let o ← recvMember mem opCodeAt
  if o.1 = -1 then return some () else dispatchMem fuel (member o.2 opCodeAt) o.2

/-! ## Receiving -/

/-- What a member holds of a field that was written: the first 255 bytes. -/
def received255 (f : Bytes) : Bytes := f.take (maxMsgSize - 1)

theorem length_received255 (f : Bytes) : (received255 f).length ≤ 255 :=
  List.length_take_le _ _

theorem IsLine.noNul {f : Bytes} (h : IsLine f) : (0 : UInt8) ∉ received255 f := by
  intro hmem
  have hterm := h _ (List.mem_of_mem_take hmem)
  exact absurd hterm (by decide)

/-- On a connection, program `p` performs receives and goes on as program `q`, with
`more` left to read. -/
def LeadsTo (T : DbCall → List sysE.Event → Prop) {α : Type} (fs : FS) (p : Srv α)
    (evs : List ReadEv) (more : Bytes) (q : Srv α) : Prop :=
  ∃ t₀ evs', (∀ e ∈ t₀, IsRecv e) ∧ Delivers evs' more ∧ ∀ t v w',
    Exec (SrvStep T) p ⟨fs, evs⟩ t v w' ↔
      ∃ t', t = t₀ ++ t' ∧ Exec (SrvStep T) q ⟨fs, evs'⟩ t' v w'

section Receiving

variable {T : DbCall → List sysE.Event → Prop} {α : Type} {fs : FS}

theorem LeadsTo.refl (p : Srv α) {evs : List ReadEv} {more : Bytes} (h : Delivers evs more) :
    LeadsTo T fs p evs more p :=
  ⟨[],
    evs, by simp, h, fun t v w' => ⟨fun h => ⟨t, rfl, h⟩, fun ⟨_, ht, h⟩ => ht ▸ h⟩⟩

/-- Receiving a field into a member. -/
theorem exec_recvMember (mem : Bytes) {f rest : Bytes} {b : UInt8} (hf : IsLine f)
    (hb : isTerminator b = true) (offset : ℕ) {evs : List ReadEv}
    (h : Delivers evs (f ++ b :: rest)) (k : ℤ × Bytes → Srv α) :
    ∃ ev evs', IsRecv ev ∧ Delivers evs' rest ∧ ∀ t v w',
      Exec (SrvStep T) (recvMember mem offset >>= k) ⟨fs, evs⟩ t v w' ↔
        ∃ t', t = ev :: t' ∧
          Exec (SrvStep T) (k (0, store mem offset (received255 f))) ⟨fs, evs'⟩ t' v w' := by
  obtain ⟨evs', hrest, hloop⟩ :=
    readLineLoop_delivers hf hb (show ([] : Bytes).length ≤ maxMsgSize - 1 from Nat.zero_le _) h
  rw [List.nil_append] at hloop
  have hread : readLine evs (mem.drop offset) maxMsgSize = (((received255 f).length : ℤ),
      received255 f ++ 0 :: mem.drop (offset + ((received255 f).length + 1)), evs') := by
    rw [readLine, if_neg (by decide), hloop]
    simp [LineResult.buffer, received255, List.drop_drop]
  refine ⟨⟨SrvOp.recv (mem.drop offset), (((received255 f).length : ℤ),
    received255 f ++ 0 :: mem.drop (offset + ((received255 f).length + 1)))⟩, evs',
      ⟨_, rfl⟩, hrest,
    fun t v w' => ?_⟩
  rw [recvMember, recvString, bind_assoc, bind_assoc]
  constructor
  · intro hexec
    obtain ⟨⟨x₁, x₂⟩, ⟨fs', input'⟩, t', ⟨hfs, hx⟩, hk, rfl⟩ :=
      exec_perform_bind_iff.mp hexec
    obtain rfl : fs' = fs := hfs
    rw [hread, Prod.mk.injEq, Prod.mk.injEq] at hx
    obtain ⟨rfl, rfl, rfl⟩ := hx
    rw [if_neg (not_lt.mpr (Int.natCast_nonneg _))] at hk
    exact ⟨t', rfl, hk⟩
  · rintro ⟨t', rfl, hk⟩
    refine exec_perform_bind_iff.mpr ⟨_, ⟨fs, evs'⟩, t', ⟨rfl, hread⟩, ?_, rfl⟩
    rw [if_neg (not_lt.mpr (Int.natCast_nonneg _))]
    exact hk

/-- Receiving one more field. -/
theorem LeadsTo.recv {f rest mem more : Bytes} {b : UInt8} (hf : IsLine f)
    (hb : isTerminator b = true) (offset : ℕ) {evs : List ReadEv}
    (h : Delivers evs (f ++ b :: rest)) {k : ℤ × Bytes → Srv α} {q : Srv α}
    (hk : ∀ evs', Delivers evs' rest →
      LeadsTo T fs (k (0, store mem offset (received255 f))) evs' more q) :
    LeadsTo T fs (recvMember mem offset >>= k) evs more q := by
  obtain ⟨ev, evs₁, hev, hrest, hexec⟩ := exec_recvMember mem hf hb offset h k
  obtain ⟨t₀, evs₂, ht₀, hmore, hq⟩ := hk evs₁ hrest
  refine ⟨ev :: t₀, evs₂, ?_, hmore, fun t v w' => ?_⟩
  · intro e he
    rcases List.mem_cons.mp he with rfl | he
    · exact hev
    · exact ht₀ e he
  · rw [hexec]
    constructor
    · rintro ⟨t', rfl, h'⟩
      obtain ⟨t'', rfl, h''⟩ := (hq _ _ _).mp h'
      exact ⟨t'', rfl, h''⟩
    · rintro ⟨t'', rfl, h''⟩
      exact ⟨t₀ ++ t'', rfl, (hq _ _ _).mpr ⟨t'', rfl, h''⟩⟩

end Receiving

/-! ## The client's requests -/

/-- A field value that the wire format can carry: ASCII without NUL and newline. -/
def FieldValue (s : PyStr) : Prop := ∀ c ∈ s, c.toNat < 128 ∧ c.toNat ≠ 0 ∧ c.toNat ≠ 10

instance (s : PyStr) : Decidable (FieldValue s) := List.decidableBAll _ s

/-- The request that the server makes of an operation: the first 255 bytes of each
field. -/
def ClientOp.req : ClientOp → Req
  | .register user => .register (received255 (asciiBytes user))
  | .unregister user => .unregister (received255 (asciiBytes user))
  | .connect user listeningPort =>
      .connect (received255 (asciiBytes user)) (received255 (asciiBytes listeningPort))
  | .disconnect user => .disconnect (received255 (asciiBytes user))
  | .send connectedUser recipient message =>
      .send (received255 (asciiBytes connectedUser)) (received255 (asciiBytes recipient))
        (received255 (asciiBytes message))

theorem FieldValue.isAscii {s : PyStr} (h : FieldValue s) : IsAscii s := fun c hc => (h c hc).1

theorem FieldValue.isLine {s : PyStr} (h : FieldValue s) : IsLine (asciiBytes s) := by
  intro b hb
  obtain ⟨c, hc, rfl⟩ := List.mem_map.mp hb
  obtain ⟨hascii, hnul, hnewline⟩ := h c hc
  have hb : c.toNat.toUInt8.toNat = c.toNat := by
    simp only [Nat.toUInt8, UInt8.toNat_ofNat']
    omega
  unfold isTerminator
  rw [Bool.or_eq_false_iff, decide_eq_false_iff_not, decide_eq_false_iff_not]
  constructor
  · intro heq
    rw [heq] at hb
    exact hnewline hb.symm
  · intro heq
    rw [heq] at hb
    exact hnul hb.symm

/-- A field that the wire carries is exact when it has at most 255 bytes. -/
theorem received255_of_length {s : PyStr} (h : s.length ≤ 255) :
    received255 (asciiBytes s) = asciiBytes s := by
  refine List.take_of_length_le ?_
  rw [asciiBytes, List.length_map]
  exact h

/-! ### The decoding of each request -/

section Decoding

variable {T : DbCall → List sysE.Event → Prop} {fs : FS} {evs : List ReadEv} {mem more : Bytes}

/-- The operation code selects the service. -/
theorem leadsTo_dispatch {fuel : ℕ} {code rest : Bytes} (hcode : IsLine code)
    (hshort : received255 code = code) (h : Delivers evs (code ++ 0 :: rest))
    {q : Srv (Option Unit)} (hq : ∀ evs', Delivers evs' rest →
      LeadsTo T fs (dispatchMem fuel code (store mem opCodeAt code)) evs' more q) :
    LeadsTo T fs (serviceThreadMem fuel mem) evs more q := by
  rw [serviceThreadMem]
  refine LeadsTo.recv hcode rfl opCodeAt h fun evs' hrest => ?_
  have hnul : (0 : UInt8) ∉ code := hshort ▸ hcode.noNul
  dsimp only
  rw [hshort, if_neg (by decide), member_of_holdsAt
    (holdsAt_store hnul (show opCodeAt ≤ mem.length from Nat.zero_le _))]
  exact hq evs' hrest

/-- A service with one field. -/
theorem leadsTo_username (body : Bytes → Srv Unit) {u : Bytes} (hu : IsLine u)
    (hmem : usernameAt ≤ mem.length) (h : Delivers evs (u ++ 0 :: more)) :
    LeadsTo T fs (finished (srvUsernameMem body mem)) evs more
      (finished (body (received255 u))) := by
  rw [finished, srvUsernameMem, bind_assoc]
  refine LeadsTo.recv hu rfl usernameAt h fun evs' hmore => ?_
  dsimp only
  rw [if_neg (by decide), member_of_holdsAt (holdsAt_store hu.noNul hmem)]
  exact LeadsTo.refl _ hmore

/-- `srv_connect` receives two fields side by side. -/
theorem leadsTo_connect (fuel : ℕ) {u p : Bytes} (hu : IsLine u) (hp : IsLine p)
    (hmem : mem.length = sizeofRequest) (h : Delivers evs (u ++ 0 :: (p ++ 0 :: more))) :
    LeadsTo T fs (srvConnectMem fuel mem) evs more
      (srvConnectBody fuel (received255 u) (received255 p)) := by
  have hlu := length_received255 u
  have hlen : (store mem usernameAt (received255 u)).length = sizeofRequest := by
    rw [length_store (by rw [hmem, usernameAt, sizeofRequest]; omega), hmem]
  rw [srvConnectMem]
  refine LeadsTo.recv hu rfl usernameAt h fun evs₁ h₁ => ?_
  dsimp only
  rw [if_neg (by decide)]
  refine LeadsTo.recv hp rfl clientPortAt h₁ fun evs₂ h₂ => ?_
  have hstored := holdsAt_store hu.noNul (show usernameAt ≤ mem.length by rw [hmem]; decide)
  dsimp only
  rw [if_neg (by decide),
    member_of_holdsAt (hstored.store_above (by rw [usernameAt, clientPortAt]; omega)),
    member_of_holdsAt (holdsAt_store hp.noNul (by rw [hlen]; decide))]
  exact LeadsTo.refl _ h₂

/-- `srv_send` receives the sender behind the recipient, and the recipient after the
sender. -/
theorem leadsTo_send {s r c : Bytes} {b : UInt8} (hs : IsLine s) (hr : IsLine r) (hc : IsLine c)
    (hb : isTerminator b = true) (hmem : mem.length = sizeofRequest)
    (h : Delivers evs (s ++ 0 :: (r ++ 0 :: (c ++ b :: more)))) :
    LeadsTo T fs (finished (srvSendMem mem)) evs more
      (finished (srvSendBody (received255 s) (received255 r) (received255 c))) := by
  have hls := length_received255 s
  have hlr := length_received255 r
  have hlen₁ : (store mem clientPortAt (received255 s)).length = sizeofRequest := by
    rw [length_store (by rw [hmem, clientPortAt, sizeofRequest]; omega), hmem]
  have hlen₂ :
      (store (store mem clientPortAt (received255 s)) usernameAt (received255 r)).length =
      sizeofRequest := by
    rw [length_store (by rw [hlen₁, usernameAt, sizeofRequest]; omega), hlen₁]
  rw [finished, srvSendMem, bind_assoc]
  refine LeadsTo.recv hs rfl clientPortAt h fun evs₁ h₁ => ?_
  dsimp only
  rw [if_neg (by decide), bind_assoc]
  refine LeadsTo.recv hr rfl usernameAt h₁ fun evs₂ h₂ => ?_
  dsimp only
  rw [if_neg (by decide), bind_assoc]
  refine LeadsTo.recv hc hb contentAt h₂ fun evs₃ h₃ => ?_
  -- the three strings stand apart
  have hsender := ((holdsAt_store hs.noNul (show clientPortAt ≤ mem.length by rw [hmem]; decide)
    ).store_below (show usernameAt + ((received255 r).length + 1) ≤ clientPortAt by
      rw [usernameAt, clientPortAt]; omega)).store_above
    (show clientPortAt + ((received255 s).length + 1) ≤ contentAt by
      rw [clientPortAt, contentAt]; omega) (s := received255 c)
  have hrecipient := (holdsAt_store hr.noNul
    (show usernameAt ≤ (store mem clientPortAt (received255 s)).length by rw [hlen₁]; decide)
    ).store_above (show usernameAt + ((received255 r).length + 1) ≤ contentAt by
      rw [usernameAt, contentAt]; omega) (s := received255 c)
  dsimp only
  rw [if_neg (by decide), member_of_holdsAt hsender, member_of_holdsAt hrecipient,
    member_of_holdsAt (holdsAt_store hc.noNul (by rw [hlen₂]; decide))]
  exact LeadsTo.refl _ h₃

/-! ### The service thread decodes them -/

/-- **Requests on the wire.**  Whatever the memory of `request_t` held, and however
the bytes of an operation are interrupted on the way, the service thread receives them
and goes on with the handler of that operation on the first 255 bytes of each field;
what follows on the connection is left there. -/
theorem serviceThread_decodes (T : DbCall → List sysE.Event → Prop) (fuel : ℕ) (fs : FS)
    (hmem : mem.length = sizeofRequest) (op : ClientOp) (hop : ∀ s ∈ op.fields, FieldValue s)
    (h : Delivers evs (op.writes.bytes ++ more)) :
    op.writes.raised = false ∧
      LeadsTo T fs (serviceThreadMem fuel mem) evs more (op.req.body fuel) := by
  have hwrites := writes_eq op fun s hs => (hop s hs).isAscii
  rw [hwrites] at h
  refine ⟨by rw [hwrites], ?_⟩
  have hline : ∀ s ∈ op.fields, IsLine (asciiBytes s) := fun s hs => (hop s hs).isLine
  have hlen : ∀ {code : Bytes}, code.length ≤ 10 →
      (store mem opCodeAt code).length = sizeofRequest := by
    intro code hcode
    rw [length_store (by rw [hmem, opCodeAt, sizeofRequest]; omega), hmem]
  have huser : ∀ {code : Bytes}, code.length ≤ 10 →
      usernameAt ≤ (store mem opCodeAt code).length := by
    intro code hcode
    rw [hlen hcode]
    decide
  simp only [List.map_cons, nulTerminated, List.append_assoc, List.cons_append] at h
  -- one request of the client after the other
  cases op with
  | register u =>
      simp only [ClientOp.fields, List.map_cons, List.map_nil, nulTerminated, List.append_assoc,
        List.cons_append, List.nil_append] at h
      refine leadsTo_dispatch (show IsLine opRegister by decide) (by decide) h fun evs' hrest => ?_
      rw [dispatchMem, if_pos rfl]
      exact leadsTo_username srvRegisterBody (hline u List.mem_cons_self) (huser (by decide)) hrest
  | unregister u =>
      simp only [ClientOp.fields, List.map_cons, List.map_nil, nulTerminated, List.append_assoc,
        List.cons_append, List.nil_append] at h
      refine leadsTo_dispatch (show IsLine opUnregister by decide) (by decide) h
        fun evs' hrest => ?_
      rw [dispatchMem, if_neg (by decide), if_pos rfl]
      exact leadsTo_username srvUnregisterBody (hline u List.mem_cons_self)
        (huser (by decide)) hrest
  | connect u p =>
      simp only [ClientOp.fields, List.map_cons, List.map_nil, nulTerminated, List.append_assoc,
        List.cons_append, List.nil_append] at h
      refine leadsTo_dispatch (show IsLine opConnect by decide) (by decide) h fun evs' hrest => ?_
      rw [dispatchMem, if_neg (by decide), if_neg (by decide), if_pos rfl]
      exact leadsTo_connect fuel (hline u List.mem_cons_self)
        (hline p (List.mem_cons_of_mem _ List.mem_cons_self)) (hlen (by decide)) hrest
  | disconnect u =>
      simp only [ClientOp.fields, List.map_cons, List.map_nil, nulTerminated, List.append_assoc,
        List.cons_append, List.nil_append] at h
      refine leadsTo_dispatch (show IsLine opDisconnect by decide) (by decide) h
        fun evs' hrest => ?_
      rw [dispatchMem, if_neg (by decide), if_neg (by decide), if_neg (by decide), if_pos rfl]
      exact leadsTo_username srvDisconnectBody (hline u List.mem_cons_self)
        (huser (by decide)) hrest
  | send s r m =>
      simp only [ClientOp.fields, List.map_cons, List.map_nil, nulTerminated, List.append_assoc,
        List.cons_append, List.nil_append] at h
      refine leadsTo_dispatch (show IsLine opSend by decide) (by decide) h fun evs' hrest => ?_
      rw [dispatchMem, if_neg (by decide), if_neg (by decide), if_neg (by decide),
        if_neg (by decide), if_pos rfl]
      exact leadsTo_send (hline s List.mem_cons_self)
        (hline r (List.mem_cons_of_mem _ List.mem_cons_self))
        (hline m (List.mem_cons_of_mem _ (List.mem_cons_of_mem _ List.mem_cons_self)))
        rfl (hlen (by decide)) hrest

end Decoding

/-- `CONNECT` of `a`, interrupted before its first byte, into cleared memory. -/
theorem serviceThread_decodes_connect :
    (ClientOp.connect ['a'] ['7', '0']).writes.raised = false ∧
      LeadsTo anyFaults ⟨[], ∅⟩ (serviceThreadMem 1 (List.replicate sizeofRequest 0))
        (.eintr :: stream (ClientOp.connect ['a'] ['7', '0']).writes.bytes) []
        ((Req.connect (ascii "a") (ascii "70")).body 1) :=
  serviceThread_decodes anyFaults 1 ⟨[], ∅⟩ List.length_replicate (.connect ['a'] ['7', '0'])
    (by decide) (by decide)
