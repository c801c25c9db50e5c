/-
# The transfers of the library

On files, the library writes and reads by the loops of `write_bytes` and `read_bytes`.

* `replay`: the results that the calls of a run have given;
* `exec_writeBytes_transfer`, `exec_readBytes_transfer`: the library runs these loops.
-/
import MessageServer.TransferLoops

/-! ## On files -/

/-- The result of a call of `write` or `read` on a file. -/
def callResult : sysE.Event → ℤ
  | ⟨.write _ _ _, .ok n⟩ => (n : ℕ)
  | ⟨.read _ _ _, .ok bs⟩ => (bs : Bytes).length
  | _ => -1

/-- The results one after the other, whatever is asked for. -/
def replay (results : List ℤ) (calls : List IoStep) (_ : ℤ) : ℤ :=
  results.getD calls.length (-1)

section Files

variable {results rest : List ℤ} {calls : List IoStep} {fs fs' : FS} {fd : Location}
  {t : List sysE.Event}

/-- The next result, and those behind it. -/
theorem replay_eq {n : ℤ} (h : results.drop calls.length = n :: rest) (count : ℤ) (c : IoStep) :
    replay results calls count = n ∧ results.drop (calls ++ [c]).length = rest := by
  have hlt : calls.length < results.length := by
    by_contra hge
    rw [List.drop_eq_nil_of_le (by omega)] at h
    cases h
  rw [List.drop_eq_getElem_cons hlt] at h
  obtain ⟨hn, hrest⟩ := List.cons.inj h
  constructor
  · rw [replay, List.getD_eq_getElem?_getD, List.getElem?_eq_getElem hlt, hn]
    rfl
  · rw [List.length_append, List.length_singleton, hrest]

/-- The variables after a call that has moved `n` bytes. -/
theorem loopVars_add {left n : ℕ} (hle : n ≤ left) (last : ℤ) (total pos : ℕ) :
    (⟨last, left, total, pos⟩ : LoopVars).add n =
      ⟨n, (left - n : ℕ), (total + n : ℕ), (pos + n : ℕ)⟩ := by
  rw [LoopVars.add, LoopVars.mk.injEq]
  refine ⟨rfl, ?_, ?_, ?_⟩
  · exact (Int.ofNat_sub hle).symm
  · exact (Int.natCast_add total n).symm
  · exact (Int.natCast_add pos n).symm

/-! ### The loops of the library -/

/-- The loop of `write_bytes` on a file is the loop with the results of its calls. -/
theorem exec_writeLoop_transfer (calls : List IoStep) {fuel total : ℕ} {buffer : Bytes}
    {r last : ℤ}
    (hfuel : buffer.length ≤ fuel) (hne : buffer ≠ [])
    (hresults : results.drop calls.length = t.map callResult)
    (h : Exec SysStep (writeLoop fd fuel buffer total) fs t r fs') :
    ∃ s calls', transferLoop (replay results) (fun n => 0 ≤ n) fuel
      ⟨last, buffer.length, total, total⟩ calls = some (s, calls') ∧ s.returned = r := by
  induction fuel generalizing buffer total last calls fs t with
  | zero => exact absurd (List.length_eq_zero_iff.mp (Nat.le_zero.mp hfuel)) hne
  | succ fuel ih =>
      rw [writeLoop] at h
      obtain ⟨x, fs₁, t', hstep, hrest, rfl⟩ := exec_perform_bind_iff.mp h
      obtain ⟨hn, hdrop⟩ := replay_eq hresults buffer.length
        ⟨total, buffer.length, callResult ⟨.write fd total buffer, x⟩⟩
      rw [transferLoop]
      simp only [hn]
      rcases hstep.write with ⟨rfl, -⟩ | ⟨n, hle, hpos, rfl, -⟩
      · obtain ⟨-, rfl, -⟩ := exec_ret_iff.mp hrest
        exact ⟨_, _, if_neg fun hgo => absurd hgo.2 (Bool.false_ne_true), rfl⟩
      · have hresult : callResult ⟨.write fd total buffer, .ok n⟩ = (n : ℕ) := rfl
        rw [hresult] at hdrop ⊢
        rw [loopVars_add hle]
        simp only at hrest
        split at hrest
        · rename_i hmore
          have hleft : (0 : ℤ) < (buffer.length - n : ℕ) := by omega
          rw [if_pos ⟨hleft, decide_eq_true (Int.natCast_nonneg n)⟩, ← List.length_drop]
          have hone : 0 < n := hpos hne
          apply ih _ ?_ ?_ hdrop hrest
          · rw [List.length_drop]
            omega
          · intro hnil
            rw [List.drop_eq_nil_iff] at hnil
            omega
        · obtain ⟨-, rfl, -⟩ := exec_ret_iff.mp hrest
          refine ⟨_, _, if_neg fun hgo => ?_, returned_of_nonneg (Int.natCast_nonneg n)⟩
          have hleft : (0 : ℤ) < (buffer.length - n : ℕ) := hgo.1
          omega

/-- A read gives no more than it is asked for. -/
theorem length_le_of_read {offset count : ℕ} {bs : Bytes}
    (h : SysStep fs (.read fd offset count) (.ok bs) fs') :
    bs.length ≤ count := by
  obtain ⟨-, herr | ⟨n, hn, -, hbs⟩⟩ := h.read
  · cases herr
  · rw [FS.readAt] at hbs
    split at hbs
    · cases hbs
    · rw [Except.ok.inj hbs]
      exact (List.length_take_le _ _).trans hn
    · rw [Except.ok.inj hbs]
      exact Nat.zero_le count

/-- The loop of `read_bytes` on a file is the loop with the results of its calls. -/
theorem exec_readLoop_transfer (calls : List IoStep) {fuel left : ℕ} {got : Bytes}
    {r : ℤ × Bytes} {last : ℤ}
    (hfuel : left ≤ fuel) (hpos : 0 < left)
    (hresults : results.drop calls.length = t.map callResult)
    (h : Exec SysStep (readLoop fd fuel left got) fs t r fs') :
    ∃ s calls', transferLoop (replay results) (fun n => 0 < n) fuel
      ⟨last, left, got.length, got.length⟩ calls = some (s, calls') ∧ s.returned = r.1 := by
  induction fuel generalizing left got last calls fs t with
  | zero => omega
  | succ fuel ih =>
      rw [readLoop] at h
      obtain ⟨x, fs₁, t', hstep, hrest, rfl⟩ := exec_perform_bind_iff.mp h
      obtain ⟨hn, hdrop⟩ := replay_eq hresults left
        ⟨got.length, left, callResult ⟨.read fd got.length left, x⟩⟩
      rw [transferLoop]
      simp only [hn]
      cases x with
      | error e =>
          obtain ⟨-, rfl, -⟩ := exec_ret_iff.mp hrest
          exact ⟨_, _, if_neg fun hgo => absurd hgo.2 (Bool.false_ne_true), rfl⟩
      | ok bs =>
          have hle : bs.length ≤ left := length_le_of_read hstep
          have hresult : callResult ⟨.read fd got.length left, .ok bs⟩ = (bs.length : ℕ) :=
            rfl
          rw [hresult] at hdrop ⊢
          rw [loopVars_add hle, ← List.length_append]
          simp only at hrest
          split at hrest
          · rename_i hmore
            have hone : 0 < bs.length := List.length_pos_iff.mpr hmore.2
            have hleft : (0 : ℤ) < (left - bs.length : ℕ) := by omega
            rw [if_pos ⟨hleft, decide_eq_true (by omega)⟩]
            exact ih _ (by omega) (by omega) hdrop hrest
          · rename_i hdone
            obtain ⟨-, rfl, -⟩ := exec_ret_iff.mp hrest
            refine ⟨_, _, if_neg fun hgo => hdone ?_, returned_of_nonneg (Int.natCast_nonneg _)⟩
            have hleft : (0 : ℤ) < (left - bs.length : ℕ) := hgo.1
            have hone : (0 : ℤ) < bs.length := of_decide_eq_true hgo.2
            exact ⟨by omega, List.length_pos_iff.mp (by omega)⟩

/-- **`write_bytes` on a file** returns what the loop returns on the results of its calls. -/
theorem exec_writeBytes_transfer {buffer : Bytes} {r : ℤ}
    (h : Exec SysStep (writeBytes fd buffer) fs t r fs')
    (last : ℤ) : ∃ calls,
      writeBytesOn (replay (t.map callResult)) buffer.length last buffer.length =
        some (r, calls) := by
  rw [writeBytes] at h
  rw [writeBytesOn]
  split at h
  · rename_i hnil
    obtain ⟨-, rfl, -⟩ := exec_ret_iff.mp h
    rw [hnil]
    exact ⟨[], rfl⟩
  · rename_i hne
    have hlen : 0 < buffer.length := List.length_pos_iff.mpr hne
    have hstart : LoopVars.start last buffer.length = ⟨last, buffer.length, (0 : ℕ),
        (0 : ℕ)⟩ := rfl
    obtain ⟨s, calls, hloop, hs⟩ := exec_writeLoop_transfer [] le_rfl hne rfl h
    rw [if_neg (by omega), hstart, hloop]
    exact ⟨calls, congrArg (fun r => some (r, calls)) hs⟩

/-- **`read_bytes` on a file** returns what the loop returns on the results of its calls. -/
theorem exec_readBytes_transfer {len : ℕ} {r : ℤ × Bytes}
    (h : Exec SysStep (readBytes fd len) fs t r fs')
    (last : ℤ) : ∃ calls, readBytesOn (replay (t.map callResult)) len last len =
      some (r.1, calls) := by
  rw [readBytes] at h
  rw [readBytesOn]
  split at h
  · rename_i hzero
    obtain ⟨-, rfl, -⟩ := exec_ret_iff.mp h
    rw [hzero]
    exact ⟨[], rfl⟩
  · rename_i hne
    have hstart : LoopVars.start last len = ⟨last, len, ([] : Bytes).length,
        ([] : Bytes).length⟩ := rfl
    obtain ⟨s, calls, hloop, hs⟩ :=
      exec_readLoop_transfer [] le_rfl (Nat.pos_of_ne_zero hne) rfl h
    rw [if_neg (by omega), hstart, hloop]
    exact ⟨calls, congrArg (fun r => some (r, calls)) hs⟩

end Files
