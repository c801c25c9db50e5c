/-
# What the server writes to a client

The server writes a string with `write_bytes`, which calls `write` until nothing is
left; each call may move any part of what is left.  Here the writes of a service
thread are these loops, and what reaches a client is what the calls moved.

* `splitWrites`: every write of a service thread as the loop of `write_bytes`;
* `exec_writeAll`: the calls of a loop that does not fail move the buffer exactly;
* `client_decodes`: the client reads back the messages, the acknowledgements and the
  replies.
-/
import MessageServer.Client
import MessageServer.Isolation

/-! ## `write_bytes` on a socket -/

/-- The steps of a service thread, with single calls of `write`. -/
inductive NetOp
  | step (o : SrvOp)
  | writeCall (sock : Sock) (buffer : Bytes)

/-- A call of `write` answers the number of bytes it moved, or -1. -/
def NetOp.Ans : NetOp → Type
  | .step o => o.Ans
  | .writeCall _ _ => ℤ

/-- The signature of a service thread with single calls of `write`. -/
abbrev netE : Effects := ⟨NetOp, NetOp.Ans⟩

abbrev writeCall (sock : Sock) (buffer : Bytes) : Prog netE ℤ :=
  @Prog.perform netE (NetOp.writeCall sock buffer)

/-- The loop of `write_bytes`: `buffer` is left to write, `total` is written. -/
def sockWriteLoop (sock : Sock) : ℕ → Bytes → ℤ → Prog netE ℤ
  | 0, _, total => return total
  | fuel + 1, buffer, total => do
      let n ← writeCall sock buffer
      if 0 < (buffer.length : ℤ) - n ∧ 0 ≤ n then
        sockWriteLoop sock fuel (buffer.drop n.toNat) (total + n)
      else if n < 0 then return genErrAny
      else return total + n

/-- `write_bytes` on a socket -/
def writeAll (sock : Sock) (bytes : Bytes) : Prog netE ℤ :=
  if bytes = [] then return genErrInvArgs else sockWriteLoop sock bytes.length bytes 0

/-- Every write as the loop of `write_bytes`. -/
def splitWrites : (o : SrvOp) → Prog netE o.Ans
  | .write sock bytes => do
      let n ← writeAll sock bytes
      return decide (0 ≤ n)
  | .recv buf => @Prog.perform netE (.step (.recv buf))
  | .db call => @Prog.perform netE (.step (.db call))
  | .getpeername => @Prog.perform netE (.step .getpeername)
  | .socket => @Prog.perform netE (.step .socket)
  | .connect ip port => @Prog.perform netE (.step (.connect ip port))
  | .close sock => @Prog.perform netE (.step (.close sock))
  | .uninit => @Prog.perform netE (.step .uninit)
  | .note n => @Prog.perform netE (.step (.note n))

/-- What `write` may answer for a buffer of a given length: -1, or the number of bytes
that it moved, which is at least one. -/
def WriteResult (len : ℕ) (n : ℤ) : Prop := n = -1 ∨ (1 ≤ n ∧ n ≤ len)

/-- A step of a service thread, or one call of `write`. -/
def NetStep (T : DbCall → List sysE.Event → Prop) (w : SrvWorld) :
    (o : NetOp) → o.Ans → SrvWorld → Prop
  | .step o, x, w' => SrvStep T w o x w'
  | .writeCall _ buffer, n, w' => WriteResult buffer.length n ∧ w' = w

/-- What a step moved to a socket. -/
def movedBy (sock : Sock) : netE.Event → Bytes
  | ⟨.writeCall s buffer, n⟩ => if s = sock then buffer.take (Int.toNat n) else []
  | ⟨.step _, _⟩ => []

/-- What a thread transmitted on a socket. -/
def transmitted (sock : Sock) (t : List netE.Event) : Bytes := t.flatMap (movedBy sock)

/-- A call of `write` that failed. -/
def failedWrite : netE.Event → Bool
  | ⟨.writeCall _ _, n⟩ => decide ((show ℤ from n) = -1)
  | ⟨.step _, _⟩ => false

/-- No call of `write` failed. -/
def AllWritten (t : List netE.Event) : Prop := ∀ e ∈ t, failedWrite e = false

instance (t : List netE.Event) : Decidable (AllWritten t) :=
  inferInstanceAs (Decidable (∀ e ∈ t, _))

/-! ### What is transmitted -/

@[simp] theorem transmitted_nil (sock : Sock) : transmitted sock [] = [] := rfl

theorem transmitted_cons (sock : Sock) (e : netE.Event) (t : List netE.Event) :
    transmitted sock (e :: t) = movedBy sock e ++ transmitted sock t := rfl

theorem transmitted_append (sock : Sock) (t t' : List netE.Event) :
    transmitted sock (t ++ t') = transmitted sock t ++ transmitted sock t' :=
  List.flatMap_append

theorem AllWritten.of_append_left {t t' : List netE.Event} (h : AllWritten (t ++ t')) :
    AllWritten t := fun e hmem => h e (List.mem_append_left _ hmem)

theorem AllWritten.of_append_right {t t' : List netE.Event} (h : AllWritten (t ++ t')) :
    AllWritten t' := fun e hmem => h e (List.mem_append_right _ hmem)

theorem AllWritten.of_cons {e : netE.Event} {t : List netE.Event} (h : AllWritten (e :: t)) :
    AllWritten t := fun e hmem => h e (List.mem_cons_of_mem _ hmem)

/-! ### The loop -/

section Writing

variable {T : DbCall → List sysE.Event → Prop} {w w' : SrvWorld} {t : List netE.Event}

/-- The loop moves what is left, and returns how much has been written; or a call
failed. -/
theorem exec_sockWriteLoop {sock : Sock} (fuel : ℕ) {buffer : Bytes} {total : ℤ} {r : ℤ}
    (hne : buffer ≠ []) (hfuel : buffer.length ≤ fuel)
    (h : Exec (NetStep T) (sockWriteLoop sock fuel buffer total) w t r w') :
    w' = w ∧ (∀ s ≠ sock, transmitted s t = []) ∧
      ((r = total + buffer.length ∧ transmitted sock t = buffer) ∨
          (r = genErrAny ∧ ¬ AllWritten t)) := by
  induction fuel generalizing buffer total t with
  | zero =>
      have hlen := List.length_pos_iff.mpr hne
      omega
  | succ fuel ih =>
      rw [sockWriteLoop] at h
      obtain ⟨(n : ℤ), w₁, t₁, ⟨hn, rfl⟩, hrest, rfl⟩ := exec_perform_bind_iff.mp h
      have hother : ∀ s ≠ sock, movedBy s ⟨NetOp.writeCall sock buffer, n⟩ = [] := by
        intro s hs
        exact if_neg (Ne.symm hs)
      have hself : movedBy sock ⟨NetOp.writeCall sock buffer, n⟩ = buffer.take (Int.toNat n) :=
        if_pos rfl
      -- the write fails, or moves some of what is left
      rcases hn with rfl | ⟨hpos, hle⟩
      · rw [if_neg (fun hmore => absurd hmore.2 (by decide)), if_pos (by decide)] at hrest
        obtain ⟨rfl, rfl, rfl⟩ := exec_ret_iff.mp hrest
        refine ⟨rfl, fun s hs => ?_, Or.inr ⟨rfl, fun hall => ?_⟩⟩
        · rw [transmitted_cons, hother s hs]
          rfl
        · exact absurd (hall _ List.mem_cons_self) (by simp [failedWrite])
      · split at hrest
        · rename_i hmore
          have hdrop : buffer.drop (Int.toNat n) ≠ [] := by
            rw [ne_eq, List.drop_eq_nil_iff]
            omega
          have hlen : (buffer.drop (Int.toNat n)).length ≤ fuel := by
            rw [List.length_drop]
            omega
          obtain ⟨rfl, hsilent, hres⟩ := ih hdrop hlen hrest
          refine ⟨rfl, fun s hs => ?_, ?_⟩
          · rw [transmitted_cons, hother s hs, hsilent s hs]
            rfl
          · rcases hres with ⟨rfl, hall⟩ | ⟨rfl, hfail⟩
            · left
              constructor
              · rw [List.length_drop]
                omega
              · rw [transmitted_cons, hself, hall, List.take_append_drop]
            · exact Or.inr ⟨rfl, fun hall => hfail hall.of_cons⟩
        · -- the last write has moved all that was left
          rename_i hdone
          rw [if_neg (by omega)] at hrest
          obtain ⟨rfl, rfl, rfl⟩ := exec_ret_iff.mp hrest
          have hn : n = (buffer.length : ℤ) := by omega
          refine ⟨rfl, fun s hs => ?_, Or.inl ⟨by rw [hn], ?_⟩⟩
          · rw [transmitted_cons, hother s hs]
            rfl
          · rw [transmitted_cons, hself, hn, Int.toNat_natCast, List.take_length]
            exact List.append_nil _

/-- **`write_bytes`** moves the buffer, however `write` splits it, or a call failed. -/
theorem exec_writeAll {sock : Sock} {bytes : Bytes} (hne : bytes ≠ []) {r : ℤ}
    (h : Exec (NetStep T) (writeAll sock bytes) w t r w') :
    w' = w ∧ (∀ s ≠ sock, transmitted s t = []) ∧
      ((0 ≤ r ∧ transmitted sock t = bytes) ∨ (r < 0 ∧ ¬ AllWritten t)) := by
  rw [writeAll, if_neg hne] at h
  obtain ⟨hw, hsilent, hres⟩ := exec_sockWriteLoop bytes.length hne le_rfl h
  refine ⟨hw, hsilent, ?_⟩
  rcases hres with ⟨rfl, hall⟩ | ⟨rfl, hfail⟩
  · exact Or.inl ⟨by omega, hall⟩
  · exact Or.inr ⟨by decide, hfail⟩

end Writing

/-! ## Strings and steps that write nothing -/

/-- A step that is no write. -/
def Unwritten : SrvOp → Prop
  | .write _ _ => False
  | _ => True

section Strings

variable {T : DbCall → List sysE.Event → Prop} {w w' : SrvWorld} {t : List netE.Event}

/-- Steps that are no writes transmit nothing. -/
theorem exec_unwritten {α : Type} {p : Srv α} (hp : p.Performs Unwritten) {a : α}
    (h : Exec (NetStep T) (p.interp splitWrites) w t a w') : ∀ sock, transmitted sock t = [] := by
  induction p generalizing w t with
  | ret b =>
      obtain ⟨rfl, -, -⟩ := exec_ret_iff.mp h
      exact fun sock => rfl
  | call o k ih =>
      have hstep : ∀ o' : NetOp, o' = .step o → ∀ {x : o'.Ans} {t' : List netE.Event},
          (∀ sock, transmitted sock t' = []) →
            ∀ sock, transmitted sock (⟨o', x⟩ :: t') = [] := by
        rintro _ rfl x t' ht' sock
        rw [transmitted_cons, ht' sock]
        rfl
      have ho : Unwritten o := hp.1
      cases o with
      | write sock bytes => exact ho.elim
      | _ =>
          obtain ⟨x, w₁, t₁, -, hrest, rfl⟩ := exec_perform_bind_iff.mp h
          exact hstep _ rfl (ih _ (hp.2 _) hrest)

/-- **`send_string`** transmits the string with its NUL, or a call of `write` failed. -/
theorem exec_sendString {sock : Sock} {string : Bytes} {r : ℤ}
    (h : Exec (NetStep T) ((sendString sock string).interp splitWrites) w t r w') :
    (∀ s ≠ sock, transmitted s t = []) ∧
      ((r = 0 ∧ transmitted sock t = string ++ [0]) ∨ (r < 0 ∧ ¬ AllWritten t)) := by
  rw [sendString] at h
  obtain ⟨t₁, ok, w₁, t₂, h₁, h₂, rfl⟩ := exec_interp_perform_bind_iff.mp h
  obtain ⟨t₃, n, w₂, t₄, hwrite, hret, rfl⟩ := exec_bind_iff.mp h₁
  obtain ⟨rfl, rfl, rfl⟩ := exec_ret_iff.mp hret
  obtain ⟨-, hsilent, hres⟩ := exec_writeAll (by simp) hwrite
  rw [List.append_nil]
  rcases hres with ⟨hpos, hall⟩ | ⟨hneg, hfail⟩
  · rw [decide_eq_true hpos] at h₂
    obtain ⟨rfl, rfl, rfl⟩ := exec_ret_iff.mp h₂
    rw [List.append_nil]
    exact ⟨hsilent, Or.inl ⟨rfl, hall⟩⟩
  · rw [decide_eq_false (not_le.mpr hneg)] at h₂
    have hclose : ((close sock >>= fun _ => return genErrAny) : Srv ℤ).Performs Unwritten :=
      Prog.performs_perform_bind.mpr ⟨trivial, fun _ => trivial⟩
    have hnothing := exec_unwritten hclose h₂
    obtain ⟨x, w₃, t₅, -, hend, rfl⟩ := exec_perform_bind_iff.mp h₂
    obtain ⟨-, rfl, -⟩ := exec_ret_iff.mp hend
    refine ⟨fun s hs => ?_, Or.inr ⟨by decide, fun hall => hfail hall.of_append_left⟩⟩
    rw [transmitted_append, hsilent s hs, hnothing s]
    rfl

/-- **`send_server_reply`** transmits its byte, or a call of `write` failed. -/
theorem exec_sendReplyByte {code : UInt8} {r : ℤ}
    (h : Exec (NetStep T) ((sendServerReply code).interp splitWrites) w t r w') :
    (r = 0 ∧ transmitted .client t = [code]) ∨ (r < 0 ∧ ¬ AllWritten t) := by
  rw [sendServerReply] at h
  obtain ⟨t₁, ok, w₁, t₂, h₁, h₂, rfl⟩ := exec_interp_perform_bind_iff.mp h
  obtain ⟨t₃, n, w₂, t₄, hwrite, hret, rfl⟩ := exec_bind_iff.mp h₁
  obtain ⟨rfl, rfl, rfl⟩ := exec_ret_iff.mp hret
  obtain ⟨-, -, hres⟩ := exec_writeAll (by simp) hwrite
  rw [List.append_nil]
  rcases hres with ⟨hpos, hall⟩ | ⟨hneg, hfail⟩
  · rw [decide_eq_true hpos] at h₂
    obtain ⟨rfl, rfl, rfl⟩ := exec_ret_iff.mp h₂
    rw [List.append_nil]
    exact Or.inl ⟨rfl, hall⟩
  · rw [decide_eq_false (not_le.mpr hneg)] at h₂
    obtain ⟨x, w₃, t₅, -, hend, rfl⟩ := exec_perform_bind_iff.mp h₂
    obtain ⟨-, rfl, -⟩ := exec_ret_iff.mp hend
    exact Or.inr ⟨by decide, fun hall => hfail hall.of_append_left⟩

end Strings

/-! ## Decoding at the client -/

/-- The bytes of `SEND_MESSAGE`. -/
def messageBytes (m : Message) : Bytes :=
  nulTerminated [opSendMessage, m.sender, decimal m.id.toNat, m.content]

/-- The bytes of `SEND_MESS_ACK`. -/
def messAckBytes (id : UInt32) : Bytes := nulTerminated [opSendMessAck, decimal id.toNat]

/-- The bytes of a reply of `srv_send`: the code, and the id behind `SRV_SUCCESS`. -/
def replyBytes (code : UInt8) (id : UInt32) : Bytes :=
  code :: (if code = srvSuccess then decimal id.toNat ++ [0] else [])

/-! ### What the server writes -/

section Decoding

variable {T : DbCall → List sysE.Event → Prop} {w w' : SrvWorld} {t : List netE.Event}

/-- A string, and what goes on behind it when it is sent. -/
theorem exec_sendString_bind {sock : Sock} {string : Bytes} {k : Srv ℤ} {r : ℤ}
    (h : Exec (NetStep T) ((sendString sock string >>= fun n =>
      if n < 0 then return genErrAny else k).interp splitWrites) w t r w') :
    r = genErrAny ∨ ∃ t₁ t₂ w₁, Exec (NetStep T) (k.interp splitWrites) w₁ t₂ r w' ∧
      transmitted sock t = string ++ 0 :: transmitted sock t₂ ∧ t = t₁ ++ t₂ := by
  rw [Prog.interp_bind] at h
  obtain ⟨t₁, n, w₁, t₂, hsend, hrest, rfl⟩ := exec_bind_iff.mp h
  rcases (exec_sendString hsend).2 with ⟨rfl, hsent⟩ | ⟨hneg, -⟩
  · rw [if_neg (by decide)] at hrest
    refine Or.inr ⟨t₁, t₂, w₁, hrest, ?_, rfl⟩
    rw [transmitted_append, hsent, List.append_assoc]
    rfl
  · rw [if_pos hneg] at hrest
    exact Or.inl (exec_ret_iff.mp hrest).2.1

/-- Closing the connection writes nothing. -/
theorem exec_close_silent {sock : Sock} {a r : ℤ}
    (h : Exec (NetStep T) ((close sock >>= fun _ => (return a : Srv ℤ)).interp splitWrites) w t r
        w') :
    r = a ∧ ∀ s, transmitted s t = [] := by
  have hclose : (close sock >>= fun _ => (return a : Srv ℤ)).Performs Unwritten :=
    Prog.performs_perform_bind.mpr ⟨trivial, fun _ => trivial⟩
  refine ⟨?_, exec_unwritten hclose h⟩
  obtain ⟨x, w₁, t₁, -, hend, rfl⟩ := exec_perform_bind_iff.mp h
  exact (exec_ret_iff.mp hend).2.1

/-- The sends of `clt_send_message`. -/
theorem exec_cltSendMessageStrings {m : Message} {r : ℤ}
    (h : Exec (NetStep T) ((cltSendMessageStrings ⟨opSendMessage, m⟩).interp splitWrites) w t r
        w') :
    (r = 0 ∧ transmitted .listener t = messageBytes m) ∨ r = genErrAny := by
  rw [cltSendMessageStrings] at h
  rcases exec_sendString_bind h with hr | ⟨-, t₁, w₁, h₁, hsent₁, -⟩
  · exact Or.inr hr
  rcases exec_sendString_bind h₁ with hr | ⟨-, t₂, w₂, h₂, hsent₂, -⟩
  · exact Or.inr hr
  rcases exec_sendString_bind h₂ with hr | ⟨-, t₃, w₃, h₃, hsent₃, -⟩
  · exact Or.inr hr
  rcases exec_sendString_bind h₃ with hr | ⟨-, t₄, w₄, h₄, hsent₄, -⟩
  · exact Or.inr hr
  obtain ⟨rfl, hnothing⟩ := exec_close_silent h₄
  left
  refine ⟨rfl, ?_⟩
  rw [hsent₁, hsent₂, hsent₃, hsent₄, hnothing]
  rfl

/-- Connecting to a listener writes nothing. -/
theorem performs_unwritten_auxConnect (e : Entry) :
    (auxConnectCltListenThread e).Performs Unwritten := by
  rw [auxConnectCltListenThread]
  refine Prog.performs_perform_bind.mpr ⟨trivial, fun r => ?_⟩
  split
  · trivial
  refine Prog.performs_perform_bind.mpr ⟨trivial, fun ok => ?_⟩
  cases ok with
  | false => trivial
  | true => exact Prog.performs_perform_bind.mpr ⟨trivial, fun _ => trivial⟩

/-- **`clt_send_message`** transmits the message when it succeeds. -/
theorem exec_cltSendMessage {m : Message} {e : Entry} {r : ℤ × Entry}
    (h : Exec (NetStep T) ((cltSendMessage ⟨opSendMessage, m⟩ e).interp splitWrites) w t r w')
    (hr : r.1 = 0) : transmitted .listener t = messageBytes m := by
  rw [cltSendMessage, Prog.interp_bind] at h
  obtain ⟨t₁, a, w₁, u₁, ha, h₁, rfl⟩ := exec_bind_iff.mp h
  rw [Prog.interp_bind] at h₁
  obtain ⟨t₂, result, w₂, u₂, hsend, h₂, rfl⟩ := exec_bind_iff.mp h₁
  obtain ⟨x, w₃, u₃, -, hend, rfl⟩ := exec_perform_bind_iff.mp h₂
  obtain ⟨rfl, rfl, -⟩ := exec_ret_iff.mp hend
  have hnone := exec_unwritten (performs_unwritten_auxConnect e) ha .listener
  have hnote : transmitted .listener ([⟨NetOp.step (.note (.cltSendMessage a.2 m result)), x⟩] :
      List netE.Event) = [] := rfl
  rw [transmitted_append, transmitted_append, hnone, hnote, List.nil_append, List.append_nil]
  obtain rfl : result = 0 := hr
  unfold ifConnected at hsend
  split at hsend
  · exact absurd (exec_ret_iff.mp hsend).2.1 (by decide)
  · rcases exec_cltSendMessageStrings hsend with ⟨-, hall⟩ | hneg
    · exact hall
    · exact absurd hneg (by decide)

/-- **`clt_send_mess_ack`** transmits the acknowledgement when it succeeds and no
write fails. -/
theorem exec_cltSendMessAck {sender content : Bytes} {id : UInt32} {e : Entry} {r : ℤ × Entry}
    (h : Exec (NetStep T)
      ((cltSendMessAck ⟨opSendMessAck, ⟨sender, id, content⟩⟩ e).interp splitWrites) w t r
      w')
    (hr : r.1 = 0) (hall : AllWritten t) : transmitted .listener t = messAckBytes id := by
  rw [cltSendMessAck, Prog.interp_bind] at h
  obtain ⟨t₁, a, w₁, u₁, ha, h₁, rfl⟩ := exec_bind_iff.mp h
  rw [Prog.interp_bind] at h₁
  obtain ⟨t₂, result, w₂, u₂, hsend, h₂, rfl⟩ := exec_bind_iff.mp h₁
  obtain ⟨x, w₃, u₃, -, hend, rfl⟩ := exec_perform_bind_iff.mp h₂
  obtain ⟨rfl, rfl, -⟩ := exec_ret_iff.mp hend
  have hnone := exec_unwritten (performs_unwritten_auxConnect e) ha .listener
  have hnote :
      transmitted .listener ([⟨NetOp.step (.note (.cltSendMessAck a.2 id result)), x⟩] :
      List netE.Event) = [] := rfl
  rw [transmitted_append, transmitted_append, hnone, hnote, List.nil_append, List.append_nil]
  obtain rfl : result = 0 := hr
  unfold ifConnected at hsend
  split at hsend
  · exact absurd (exec_ret_iff.mp hsend).2.1 (by decide)
  · have hall₂ : AllWritten t₂ := hall.of_append_right.of_append_left
    rw [cltSendMessAckStrings, Prog.interp_bind] at hsend
    obtain ⟨t₃, b, w₄, u₄, hb, h₃, rfl⟩ := exec_bind_iff.mp hsend
    rw [Prog.interp_bind] at h₃
    obtain ⟨t₄, c, w₅, u₅, hc, h₄, rfl⟩ := exec_bind_iff.mp h₃
    obtain ⟨-, hnothing⟩ := exec_close_silent h₄
    rcases (exec_sendString hb).2 with ⟨-, hsent₃⟩ | ⟨-, hfail⟩
    swap
    · exact absurd hall₂.of_append_left hfail
    rcases (exec_sendString hc).2 with ⟨-, hsent₄⟩ | ⟨-, hfail⟩
    swap
    · exact absurd hall₂.of_append_right.of_append_left hfail
    rw [transmitted_append, transmitted_append, hsent₃, hsent₄, hnothing]
    simp only [messAckBytes, nulTerminated, List.append_assoc, List.cons_append, List.nil_append]

/-- **`aux_send_first_ack`** transmits the reply when no write fails. -/
theorem exec_auxSendFirstAck {code : UInt8} {id : UInt32} {r : Unit}
    (h : Exec (NetStep T) ((auxSendFirstAck code id).interp splitWrites) w t r w')
    (hall : AllWritten t) : transmitted .client t = replyBytes code id := by
  rw [auxSendFirstAck, Prog.interp_bind] at h
  obtain ⟨t₁, n, w₁, t₂, hbyte, hrest, rfl⟩ := exec_bind_iff.mp h
  rcases exec_sendReplyByte hbyte with ⟨rfl, hcode⟩ | ⟨-, hfail⟩
  swap
  · exact absurd hall.of_append_left hfail
  rw [if_neg (by decide)] at hrest
  rw [transmitted_append, hcode, replyBytes]
  split at hrest
  · rename_i hok
    rw [if_pos hok]
    rw [Prog.interp_bind] at hrest
    obtain ⟨t₃, m, w₂, t₄, hstring, hend, rfl⟩ := exec_bind_iff.mp hrest
    obtain ⟨rfl, -, -⟩ := exec_ret_iff.mp hend
    rcases (exec_sendString hstring).2 with ⟨-, hid⟩ | ⟨-, hfail⟩
    · rw [List.append_nil, hid]
      rfl
    · exact absurd hall.of_append_right.of_append_left hfail
  · rename_i hno
    obtain ⟨rfl, -, -⟩ := exec_ret_iff.mp hrest
    rw [if_neg hno]
    rfl

end Decoding

/-! ### What the client makes of it -/

/-- Printed numbers are ASCII. -/
theorem asciiText_decimal (n : ℕ) : AsciiText (decimal n) := by
  intro b hb
  have hdigit := isDigit_of_mem_decimal hb
  simp only [isDigit, Bool.and_eq_true, decide_eq_true_eq, UInt8.le_iff_toNat_le] at hdigit
  have h57 : (57 : UInt8).toNat = 57 := rfl
  have h48 : (48 : UInt8).toNat = 48 := rfl
  refine ⟨by omega, ?_⟩
  rintro rfl
  have h0 : (0 : UInt8).toNat = 0 := rfl
  omega

/-- The client reads a message back. -/
theorem listenAndAccept_messageBytes {m : Message} (hs : AsciiText m.sender)
    (hc : AsciiText m.content) (rest : Bytes) :
    listenAndAccept (messageBytes m ++ rest) = .got (.message (asciiStr m.sender)
      (asciiStr (decimal m.id.toNat)) (asciiStr m.content)) rest := by
  have hop : AsciiText opSendMessage := by decide
  have hbranch : asciiStr opSendMessage = "SEND_MESSAGE".toList := by decide
  rw [listenAndAccept, messageBytes]
  simp only [nulTerminated, List.append_assoc, List.cons_append, List.nil_append]
  rw [receiveString_append hop]
  simp only [Received.andThen]
  rw [if_pos hbranch, receiveString_append hs]
  simp only
  rw [receiveString_append (asciiText_decimal _)]
  simp only
  rw [receiveString_append hc]

/-- The client reads an acknowledgement back. -/
theorem listenAndAccept_messAckBytes (id : UInt32) (rest : Bytes) :
    listenAndAccept (messAckBytes id ++ rest) =
      .got (.messageAck (asciiStr (decimal id.toNat))) rest := by
  have hop : AsciiText opSendMessAck := by decide
  have hother : asciiStr opSendMessAck ≠ "SEND_MESSAGE".toList := by decide
  have hbranch : asciiStr opSendMessAck = "SEND_MESS_ACK".toList := by decide
  rw [listenAndAccept, messAckBytes]
  simp only [nulTerminated, List.append_assoc, List.cons_append, List.nil_append]
  rw [receiveString_append hop]
  simp only [Received.andThen]
  rw [if_neg hother, if_pos hbranch, receiveString_append (asciiText_decimal _)]

/-- The client reads a reply back. -/
theorem receiveSendReply_replyBytes (code : UInt8) (id : UInt32) (rest : Bytes) :
    receiveSendReply (replyBytes code id ++ rest) = .got (code.toNat,
      if code = srvSuccess then some (asciiStr (decimal id.toNat)) else none) rest := by
  rw [replyBytes]
  by_cases hcode : code = srvSuccess
  · subst hcode
    rw [if_pos rfl, if_pos rfl]
    have hstring := receiveString_append (asciiText_decimal id.toNat) rest
    change (receiveString (decimal id.toNat ++ [0] ++ rest)).andThen _ = _
    rw [List.append_assoc]
    change (receiveString (decimal id.toNat ++ 0 :: rest)).andThen _ = _
    rw [hstring]
    rfl
  · rw [if_neg hcode, if_neg hcode]
    have hne : code.toNat ≠ ecSuccess := fun heq => hcode (UInt8.toNat_inj.mp heq)
    exact if_neg hne

/-- **What the server writes to a client.**  However `write` splits them, the bytes of
`clt_send_message`, of `clt_send_mess_ack` and of the reply of `srv_send` are read back
by the client as the message, the acknowledgement and the reply that were sent, and
exactly these bytes are consumed. -/
theorem client_decodes (T : DbCall → List sysE.Event → Prop) :
    (∀ (m : Message) (e : Entry) w t (r : ℤ × Entry) w', AsciiText m.sender →
        AsciiText m.content →
      Exec (NetStep T) ((cltSendMessage ⟨opSendMessage, m⟩ e).interp splitWrites) w t r w' →
      r.1 = 0 → ∀ rest, listenAndAccept (transmitted .listener t ++ rest) = .got
        (.message (asciiStr m.sender) (asciiStr (decimal m.id.toNat)) (asciiStr m.content))
          rest) ∧
    (∀ (m : Message) (e : Entry) w t (r : ℤ × Entry) w',
      Exec (NetStep T) ((cltSendMessAck ⟨opSendMessAck, m⟩ e).interp splitWrites) w t r w' →
      r.1 = 0 → AllWritten t → ∀ rest, listenAndAccept (transmitted .listener t ++ rest) =
        .got (.messageAck (asciiStr (decimal m.id.toNat))) rest) ∧
    (∀ (code : UInt8) (id : UInt32) w t (r : Unit) w',
      Exec (NetStep T) ((auxSendFirstAck code id).interp splitWrites) w t r w' →
      AllWritten t → ∀ rest, receiveSendReply (transmitted .client t ++ rest) = .got
        (code.toNat, if code = srvSuccess then some (asciiStr (decimal id.toNat))
            else none) rest) := by
  refine ⟨fun m e w t r w' hs hc h hr rest => ?_, fun m e w t r w' h hr hall rest => ?_,
    fun code id w t r w' h hall rest => ?_⟩
  · rw [exec_cltSendMessage h hr]
    exact listenAndAccept_messageBytes hs hc rest
  · rw [exec_cltSendMessAck h hr hall]
    exact listenAndAccept_messAckBytes _ rest
  · rw [exec_auxSendFirstAck h hall]
    exact receiveSendReply_replyBytes _ _ rest

/-! ### Writes of one byte each -/

/-- A run in which every call of `write` moves a single byte. -/
def bytewise (c : SrvChoice) : (o : NetOp) → SrvWorld → o.Ans × SrvWorld
  | .step o, w => srvApply c o w
  | .writeCall _ buffer, w => ((if buffer = [] then -1 else 1 : ℤ), w)

theorem exec_bytewise (env : ℕ → SrvChoice) (henv : ∀ n, (env n).Calm) {α : Type}
    (p : Prog netE α)
    (w : SrvWorld) : Exec (NetStep noFaults) p w (p.run bytewise env w).1
      (p.run bytewise env w).2.1 (p.run bytewise env w).2.2 := by
  refine (exec_run bytewise SrvChoice.Calm env henv p w).mono fun w o x w' _ hstep => ?_
  obtain ⟨c, hc, heq⟩ := hstep
  obtain ⟨rfl, rfl⟩ := Prod.mk.inj heq
  cases o with
  | step o => exact srvApply_calm hc o w
  | writeCall sock buffer =>
      refine ⟨?_, rfl⟩
      change WriteResult buffer.length (if buffer = [] then -1 else 1)
      by_cases hnil : buffer = []
      · rw [if_pos hnil]
        exact Or.inl rfl
      · have hlen := List.length_pos_iff.mpr hnil
        rw [if_neg hnil]
        exact Or.inr ⟨le_rfl, by omega⟩

/-- A message for `v`, an acknowledgement and a reply, all written byte by byte. -/
theorem client_decodes_bytewise :
    (listenAndAccept
        (transmitted .listener (((cltSendMessage ⟨opSendMessage, ⟨ascii "a", 7, ascii "hi"⟩⟩
        ⟨ascii "v", .user default⟩).interp splitWrites).run bytewise calm ⟨registeredV,
          []⟩).1 ++ []) =
      .got (.message (asciiStr (ascii "a")) (asciiStr (decimal 7)) (asciiStr (ascii "hi"))) []) ∧
    (listenAndAccept (transmitted .listener (((cltSendMessAck ⟨opSendMessAck, ⟨[], 7, []⟩⟩
        ⟨ascii "v", .user default⟩).interp splitWrites).run bytewise calm ⟨registeredV,
          []⟩).1 ++ []) =
      .got (.messageAck (asciiStr (decimal 7))) []) ∧
    (receiveSendReply (transmitted .client (((auxSendFirstAck srvSuccess 7).interp splitWrites).run
        bytewise calm ⟨registeredV, []⟩).1 ++ []) =
      .got (0, some (asciiStr (decimal 7))) []) :=
  have h := client_decodes noFaults
  ⟨h.1 ⟨ascii "a", 7, ascii "hi"⟩ _ _ _ _ _ (by decide) (by decide)
    (exec_bytewise calm calm_calm _ _)
      (by decide +kernel) [],
    h.2.1 ⟨[], 7, []⟩ _ _ _ _ _ (exec_bytewise calm calm_calm _ _) (by decide +kernel)
      (by decide +kernel) [],
    h.2.2 srvSuccess 7 _ _ _ _ (exec_bytewise calm calm_calm _ _) (by decide +kernel) []⟩
