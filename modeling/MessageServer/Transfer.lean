/-
# Transfers of whole entries

`read_bytes` and `write_bytes` move their bytes in pieces of any size.  Every piece
but the first may fail with the transfer half done; such an event is **torn**.

* `exec_readBytes`: the bytes of the file, or an error with a part of them;
* `exec_writeBytes`: the file holds the buffer, or after an error a part of it.
-/
import MessageServer.Dbms

/-! ## Torn transfers -/

/-- A transfer that fails after a part of it has been done. -/
def TornTransfer (e : sysE.Event) : Prop :=
  Faulted e ∧
    match e.1 with
    | .read _ offset _ => offset ≠ 0
    | .write _ offset _ => offset ≠ 0
    | _ => False

/-- A trace in which no transfer is torn. -/
def Untorn (t : List sysE.Event) : Prop := ∀ e ∈ t, ¬ TornTransfer e

/-- Where nothing fails nothing is torn. -/
theorem NoFault.untorn {t : List sysE.Event} (h : NoFault t) : Untorn t :=
  fun e he htorn => h e he htorn.1

theorem NoFault.of_append_right {t t' : List sysE.Event} (h : NoFault (t ++ t')) : NoFault t' :=
  fun e he => h e (List.mem_append_right _ he)

theorem NoFault.of_append_left {t t' : List sysE.Event} (h : NoFault (t ++ t')) : NoFault t :=
  fun e he => h e (List.mem_append_left _ he)

theorem NoFault.of_cons {t : List sysE.Event} {e : sysE.Event} (h : NoFault (e :: t)) :
    NoFault t :=
  fun e' he' => h e' (List.mem_cons_of_mem _ he')

/-- A failed event somewhere in a trace. -/
def FaultIn (t : List sysE.Event) (P : SysOp → Prop) : Prop := ∃ e ∈ t, Faulted e ∧ P e.1

/-- A fault of a kind is a fault. -/
theorem FaultIn.not_noFault {t : List sysE.Event} {P : SysOp → Prop} (h : FaultIn t P) :
    ¬ NoFault t := by
  obtain ⟨e, he, hfault, _⟩ := h
  exact fun ht => ht e he hfault

theorem FaultIn.cons {t : List sysE.Event} {P : SysOp → Prop} {e : sysE.Event}
    (h : FaultIn t P) : FaultIn (e :: t) P := by
  obtain ⟨e', he', hfault⟩ := h
  exact ⟨e', List.mem_cons_of_mem _ he', hfault⟩

theorem FaultIn.append_left {t t' : List sysE.Event} {P : SysOp → Prop} (h : FaultIn t P) :
    FaultIn (t ++ t') P := by
  obtain ⟨e', he', hfault⟩ := h
  exact ⟨e', List.mem_append_left _ he', hfault⟩

theorem FaultIn.append_right {t t' : List sysE.Event} {P : SysOp → Prop} (h : FaultIn t' P) :
    FaultIn (t ++ t') P := by
  obtain ⟨e', he', hfault⟩ := h
  exact ⟨e', List.mem_append_right _ he', hfault⟩

/-- A fault of a weaker kind. -/
theorem FaultIn.mono {t : List sysE.Event} {P Q : SysOp → Prop} (h : FaultIn t P)
    (hPQ : ∀ o, P o → Q o) : FaultIn t Q := by
  obtain ⟨e, he, hfault, hP⟩ := h
  exact ⟨e, he, hfault, hPQ _ hP⟩

/-- The reads of a descriptor at an offset. -/
def ReadAtOffset (offset : ℕ) : SysOp → Prop
  | .read _ o _ => o = offset
  | _ => False

/-- The writes of a descriptor at an offset. -/
def WriteAtOffset (offset : ℕ) : SysOp → Prop
  | .write _ o _ => o = offset
  | _ => False

/-- Without torn transfers a read fails at its start only. -/
theorem FaultIn.read_eq_zero {t : List sysE.Event} {k : ℕ} (h : FaultIn t (ReadAtOffset k))
    (ht : Untorn t) : k = 0 := by
  obtain ⟨⟨o, x⟩, he, hfault, hP⟩ := h
  cases o with
  | read fd offset count =>
      obtain rfl : offset = k := hP
      by_contra hne
      exact ht _ he ⟨hfault, hne⟩
  | _ => exact hP.elim

/-- An untorn write that fails has written nothing. -/
theorem FaultIn.write_eq_zero {t : List sysE.Event} {k : ℕ} (h : FaultIn t (WriteAtOffset k))
    (ht : Untorn t) : k = 0 := by
  obtain ⟨⟨o, x⟩, he, hfault, hP⟩ := h
  cases o with
  | write fd offset data =>
      obtain rfl : offset = k := hP
      by_contra hne
      exact ht _ he ⟨hfault, hne⟩
  | _ => exact hP.elim

/-! ## Reading -/

/-- The loop of `read_bytes` on a file with content `c`, of which it has got the
first bytes. -/
theorem exec_readLoop {fs fs' : FS} {fd : Location} {c : Bytes} (hfd : fs.get fd = some (.file c))
    (fuel left : ℕ) (got : Bytes) (hgot : got = c.take got.length) (hfuel : left ≤ fuel)
    {t : List sysE.Event} {r : ℤ × Bytes}
    (h : Exec SysStep (readLoop fd fuel left got) fs t r fs') :
    fs' = fs ∧
      ((r.1 = (c.take (got.length + left)).length ∧ r.2 = c.take (got.length + left)) ∨
        (r.1 = genErrAny ∧ r.2 = c.take r.2.length ∧ FaultIn t (ReadAtOffset r.2.length))) := by
  induction fuel generalizing left got t with
  | zero =>
      obtain rfl : left = 0 := by omega
      obtain ⟨rfl, rfl, rfl⟩ := exec_ret_iff.mp h
      refine ⟨rfl, Or.inl ?_⟩
      rw [Nat.add_zero, ← hgot]
      exact ⟨rfl, rfl⟩
  | succ fuel ih =>
      rw [readLoop] at h
      obtain ⟨x, fs₁, t', hstep, hrest, rfl⟩ := exec_perform_bind_iff.mp h
      obtain ⟨rfl, rfl | ⟨n, hn, hpos, rfl⟩⟩ := hstep.read
      · obtain ⟨rfl, rfl, rfl⟩ := exec_ret_iff.mp hrest
        exact ⟨rfl, Or.inr ⟨rfl, hgot, _, List.mem_cons_self, rfl, rfl⟩⟩
      · have hread : fs₁.readAt fd got.length n = .ok ((c.drop got.length).take n) := by
          rw [FS.readAt, hfd]
        have happend : got ++ (c.drop got.length).take n = c.take (got.length + n) := by
          conv_lhs => rw [hgot]
          rw [List.length_take, List.take_add]
          rcases Nat.le_total got.length c.length with hle | hle
          · rw [Nat.min_eq_left hle]
          · rw [List.drop_eq_nil_of_le hle, List.drop_eq_nil_of_le (by omega)]
        simp only [hread] at hrest
        split at hrest
        · rename_i hmore
          rw [happend] at hrest
          have hlen : (c.take (got.length + n)).length =
              got.length + ((c.drop got.length).take n).length := by
            rw [← happend, List.length_append]
          have hself : c.take (got.length + n) = c.take (c.take (got.length + n)).length := by
            rw [List.length_take]
            rcases Nat.le_total (got.length + n) c.length with hle | hle
            · rw [Nat.min_eq_left hle]
            · rw [Nat.min_eq_right hle, List.take_of_length_le hle, List.take_length]
          obtain ⟨rfl, hr⟩ := ih _ _ hself
            (by have := List.length_pos_iff.mpr hmore.2; omega) hrest
          refine ⟨rfl, ?_⟩
          have hsum : (c.take (got.length + n)).length +
              (left - ((c.drop got.length).take n).length) = got.length + left := by
            rw [hlen]
            omega
          rw [hsum] at hr
          rcases hr with hr | ⟨hcode, htake, hfault⟩
          · exact Or.inl hr
          · exact Or.inr ⟨hcode, htake, hfault.cons⟩
        · rename_i hdone
          obtain ⟨rfl, rfl, rfl⟩ := exec_ret_iff.mp hrest
          refine ⟨rfl, Or.inl ?_⟩
          have hall : c.take (got.length + n) = c.take (got.length + left) := by
            rcases Nat.lt_or_ge ((c.drop got.length).take n).length left with hlt | hge
            · -- fewer bytes than asked for, and none: the end of the file
              have hnil : (c.drop got.length).take n = [] := by
                by_contra hne
                exact hdone ⟨hlt, hne⟩
              have hend : c.length ≤ got.length := by
                rw [List.length_take, List.length_drop] at hlt
                rw [List.take_eq_nil_iff, List.drop_eq_nil_iff] at hnil
                rcases hnil with hn0 | hle
                · omega
                · exact hle
              rw [List.take_of_length_le (by omega), List.take_of_length_le (by omega)]
            · rw [List.length_take] at hge
              have : n = left := by omega
              rw [this]
          rw [happend, hall]
          exact ⟨rfl, rfl⟩

/-- `read_bytes` on a file: its bytes, or an error with a part of them. -/
theorem exec_readBytes {fs fs' : FS} {fd : Location} {c : Bytes}
    (hfd : fs.get fd = some (.file c)) {len : ℕ} (hlen : len ≠ 0) {t : List sysE.Event}
    {r : ℤ × Bytes} (h : Exec SysStep (readBytes fd len) fs t r fs') :
    fs' = fs ∧
      ((r.1 = (c.take len).length ∧ r.2 = c.take len) ∨
        (r.1 = genErrAny ∧ r.2 = c.take r.2.length ∧ FaultIn t (ReadAtOffset r.2.length))) := by
  rw [readBytes, if_neg hlen] at h
  have hloop := exec_readLoop hfd len len [] rfl le_rfl h
  simpa using hloop

/-! ## Writing -/

/-- A file is written over. -/
theorem FS.put_put (fs : FS) (p : Location) (n n' : Node) :
    (fs.put p n).put p n' = fs.put p n' := by
  simp [FS.put, AList.insert_insert]

/-- A write at the end of what has been written. -/
theorem writeAt_end (fs : FS) (fd : Location) (c data : Bytes) :
    (fs.put fd (.file c)).writeAt fd c.length data = fs.put fd (.file (c ++ data)) := by
  rw [FS.writeAt, FS.get_put_self]
  simp only [FS.put_put, List.take_length]
  rw [List.drop_eq_nil_of_le (by omega), List.append_nil]

/-- The loop of `write_bytes`: `total` bytes of `buf` are in the file, the rest is
left to write. -/
theorem exec_writeLoop {fs fs' : FS} {fd : Location} {buf : Bytes} (fuel total : ℕ)
    (htotal : total ≤ buf.length) (hfuel : buf.length - total ≤ fuel)
    {t : List sysE.Event} {r : ℤ}
    (h : Exec SysStep (writeLoop fd fuel (buf.drop total) total)
      (fs.put fd (.file (buf.take total))) t r fs') :
    (r = buf.length ∧ fs' = fs.put fd (.file buf)) ∨
      (r = genErrAny ∧ ∃ k, k ≤ buf.length ∧ fs' = fs.put fd (.file (buf.take k)) ∧
        FaultIn t (WriteAtOffset k)) := by
  induction fuel generalizing total t with
  | zero =>
      obtain rfl : total = buf.length := by omega
      obtain ⟨rfl, rfl, rfl⟩ := exec_ret_iff.mp h
      rw [List.take_length]
      exact Or.inl ⟨rfl, rfl⟩
  | succ fuel ih =>
      rw [writeLoop] at h
      obtain ⟨x, fs₁, t', hstep, hrest, rfl⟩ := exec_perform_bind_iff.mp h
      -- a failed write leaves what has been written so far
      rcases hstep.write with ⟨rfl, rfl⟩ | ⟨n, hn, hpos, rfl, rfl⟩
      · obtain ⟨rfl, rfl, rfl⟩ := exec_ret_iff.mp hrest
        exact Or.inr ⟨rfl, total, htotal, rfl, _, List.mem_cons_self, rfl, rfl⟩
      · rw [List.length_drop] at hn
        have hfs : (fs.put fd (.file (buf.take total))).writeAt fd total
            ((buf.drop total).take n) = fs.put fd (.file (buf.take (total + n))) := by
          have hend := writeAt_end fs fd (buf.take total) ((buf.drop total).take n)
          rw [List.length_take, Nat.min_eq_left htotal] at hend
          rw [hend, List.take_add]
        simp only [hfs, List.length_drop, List.drop_drop] at hrest
        split at hrest
        · rename_i hmore
          have hne : buf.drop total ≠ [] := by
            intro hnil
            rw [List.drop_eq_nil_iff] at hnil
            omega
          have hn0 := hpos hne
          rcases ih (total + n) (by omega) (by omega) hrest with hr | ⟨hr, k, hk, hfs', hfault⟩
          · exact Or.inl hr
          · exact Or.inr ⟨hr, k, hk, hfs', hfault.cons⟩
        · rename_i hdone
          obtain ⟨rfl, rfl, rfl⟩ := exec_ret_iff.mp hrest
          have hsum : total + n = buf.length := by omega
          rw [hsum, List.take_length]
          exact Or.inl ⟨rfl, rfl⟩

/-- `write_bytes` into an empty file: the buffer, or after an error a part of it. -/
theorem exec_writeBytes {fs fs' : FS} {fd : Location} {buf : Bytes} (hbuf : buf ≠ [])
    {t : List sysE.Event} {r : ℤ}
    (h : Exec SysStep (writeBytes fd buf) (fs.put fd (.file [])) t r fs') :
    (r = buf.length ∧ fs' = fs.put fd (.file buf)) ∨
      (r = genErrAny ∧ ∃ k, k ≤ buf.length ∧ fs' = fs.put fd (.file (buf.take k)) ∧
        FaultIn t (WriteAtOffset k)) := by
  rw [writeBytes, if_neg hbuf] at h
  exact exec_writeLoop buf.length 0 (Nat.zero_le _) le_rfl h
