/-
# How often `receive_string` receives

On a connection that is closed behind its bytes, `recv` gives nothing, again and again, and the
loop of `receive_string` only looks for the NUL.

* `receiveStringIn`: the loop with a bound on the calls of `recv`;
* `receiveStringIn_eq`: one call for each byte and one more decide everything;
* `endsWell_iff`: the streams that it comes back from as it should.
-/
import MessageServer.ClientReply
import MessageServer.Entry

/-! ## Counting the calls -/

/-- `recv(1)` on a connection that is closed behind these bytes. -/
def recvOne : Bytes → Option UInt8 × Bytes
  | [] => (none, [])
  | b :: rest => (some b, rest)

/-- How `receive_string` comes back: with a text, or with the exception of `decode()`. -/
inductive StringEnd
  | text (string : PyStr)
  | undecodable
  deriving DecidableEq

/-- The loop of `receive_string` as far as it gets with so many calls of `recv`. -/
def receiveStringIn : ℕ → Bytes → PyStr → Option StringEnd
  | 0, _, _ => none
  | n + 1, bs, string =>
      match recvOne bs with
      -- `b''` is not `b'\0'`, and decoding it adds nothing
      | (none, rest) => receiveStringIn n rest string
      | (some b, rest) =>
          if b = 0 then some (.text string)
          else
            match decodeByte b with
            | some c => receiveStringIn n rest (string ++ [c])
            | none => some .undecodable

/-- How the loop comes back, if it does. -/
def Received.stringEnd : Received PyStr → Option StringEnd
  | .got string _ => some (.text string)
  | .undecodable => some .undecodable
  | .endless => none

/-- It comes back after at most one call for each byte and one more, with the text before the
first NUL, or else with an error. -/
def EndsWell (bs : Bytes) : Prop :=
  ∃ n ≤ bs.length + 1, ∃ r, receiveStringIn n bs [] = some r ∧
    (0 ∈ bs → ∃ string, r = .text string ∧ asciiBytes string = cstr bs) ∧
    (0 ∉ bs → r = .undecodable)

section Counting

variable {n : ℕ} {bs : Bytes} {string : PyStr} {r : StringEnd}

/-- At the end of the connection the loop goes round and round. -/
theorem receiveStringIn_nil : receiveStringIn n [] string = none := by
  induction n with
  | zero => rfl
  | succ n ih => exact ih

/-- More calls do not change how the loop has come back. -/
theorem receiveStringIn_succ (h : receiveStringIn n bs string = some r) :
    receiveStringIn (n + 1) bs string = some r := by
  induction n generalizing bs string with
  | zero => cases h
  | succ n ih =>
      cases bs with
      | nil =>
          rw [receiveStringIn_nil] at h
          cases h
      | cons b rest =>
          rw [receiveStringIn, recvOne] at h ⊢
          simp only at h ⊢
          split
          · rename_i hb
            rw [if_pos hb] at h
            exact h
          · rename_i hb
            rw [if_neg hb] at h
            cases hc : decodeByte b with
            | none =>
                rw [hc] at h
                exact h
            | some c =>
                rw [hc] at h
                exact ih h

theorem receiveStringIn_mono {m : ℕ} (hle : n ≤ m) (h : receiveStringIn n bs string = some r) :
    receiveStringIn m bs string = some r := by
  induction m, hle using Nat.le_induction with
  | base => exact h
  | succ m _ ih => exact receiveStringIn_succ ih

/-- **One call for each byte and one more** decide how the loop comes back. -/
theorem receiveStringIn_eq (hn : bs.length < n) :
    receiveStringIn n bs string = (receiveStringLoop bs string).stringEnd := by
  induction bs generalizing n string with
  | nil => exact receiveStringIn_nil
  | cons b rest ih =>
      obtain ⟨m, rfl⟩ : ∃ m, n = m + 1 := ⟨n - 1, by omega⟩
      have hm : rest.length < m := by
        rw [List.length_cons] at hn
        omega
      rw [receiveStringIn, recvOne, receiveStringLoop]
      simp only
      split
      · rfl
      · cases decodeByte b with
        | none => rfl
        | some c => exact ih hm

theorem endsWell_eq : EndsWell bs ↔ ∃ r, (receiveStringLoop bs []).stringEnd = some r ∧
    (0 ∈ bs → ∃ string, r = .text string ∧ asciiBytes string = cstr bs) ∧
    (0 ∉ bs → r = .undecodable) := by
  rw [← receiveStringIn_eq (Nat.lt_succ_self _)]
  constructor
  · rintro ⟨n, hn, r, hr, hspec⟩
    exact ⟨r, receiveStringIn_mono hn hr, hspec⟩
  · rintro ⟨r, hr, hspec⟩
    exact ⟨_, le_rfl, r, hr, hspec⟩

end Counting

/-! ## Which streams end -/

section Ends

variable {bs rest : Bytes}

theorem asciiBytes_asciiStr (h : AsciiText bs) : asciiBytes (asciiStr bs) = bs := by
  rw [asciiBytes, asciiStr, List.map_map]
  refine (List.map_congr_left fun b hb => ?_).trans (List.map_id bs)
  have hlt := (h b hb).1
  have hchar : (Char.ofNat b.toNat).toNat = b.toNat := by
    have hvalid : b.toNat.isValidChar := Or.inl (by omega)
    rw [Char.ofNat, dif_pos hvalid]
    rfl
  show (Char.ofNat b.toNat).toNat.toUInt8 = b
  rw [hchar]
  exact UInt8.ofNat_toNat

/-- A stream with a NUL is the text before the first one, and the rest. -/
theorem cstr_cut (h : (0 : UInt8) ∈ bs) : ∃ rest, bs = cstr bs ++ 0 :: rest := by
  have hsplit := List.takeWhile_append_dropWhile (p := (· ≠ (0 : UInt8))) (l := bs)
  cases hdrop : bs.dropWhile (· ≠ (0 : UInt8)) with
  | nil =>
      rw [List.dropWhile_eq_nil_iff] at hdrop
      exact absurd (hdrop 0 h) (by simp)
  | cons b rest =>
      have hb : b = 0 := by
        have hhead := List.head?_dropWhile_not (· ≠ (0 : UInt8)) bs
        rw [hdrop] at hhead
        simpa using hhead
      refine ⟨rest, ?_⟩
      rw [← hb, ← hdrop]
      exact hsplit.symm

/-- **When `receive_string` ends as it should**: with a NUL behind ASCII bytes, or without a NUL
when some byte is not ASCII. -/
theorem endsWell_iff (bs : Bytes) :
    EndsWell bs ↔ ((0 : UInt8) ∈ bs ∧ AsciiText (cstr bs)) ∨
      ((0 : UInt8) ∉ bs ∧ ∃ b ∈ bs, 128 ≤ b.toNat) := by
  rw [endsWell_eq]
  cases hloop : receiveStringLoop bs [] with
  | got string rest =>
      obtain ⟨text, htext, hbs⟩ := receiveStringLoop_got hloop
      have hstring : asciiStr text = string := by
        rw [hbs, receiveStringLoop_append htext] at hloop
        cases hloop
        rfl
      have hmem : (0 : UInt8) ∈ bs := by
        rw [hbs]
        exact List.mem_append_right _ List.mem_cons_self
      -- the string ends before the first NUL
      have hcut : cstr bs = text := by
        rw [hbs]
        exact cstr_append_zero fun h0 => (htext 0 h0).2 rfl
      refine iff_of_true ⟨_, rfl, fun _ => ⟨string, rfl, ?_⟩, fun hno => absurd hmem hno⟩
        (Or.inl ⟨hmem, by rw [hcut]; exact htext⟩)
      rw [hcut, ← hstring]
      exact asciiBytes_asciiStr htext
  | undecodable =>
      constructor
      · rintro ⟨r, hr, hspec, -⟩
        obtain rfl := Option.some.inj hr
        by_cases hmem : (0 : UInt8) ∈ bs
        · obtain ⟨string, hstring, -⟩ := hspec hmem
          cases hstring
        · refine Or.inr ⟨hmem, ?_⟩
          by_contra hascii
          have htext : AsciiText bs := fun b hb =>
            ⟨not_le.mp fun hle => hascii ⟨b, hb, hle⟩, fun h0 => hmem (h0 ▸ hb)⟩
          rw [receiveStringLoop_eq_endless.mpr htext] at hloop
          cases hloop
      · rintro (⟨hmem, htext⟩ | ⟨hno, -⟩)
        · obtain ⟨rest, hbs⟩ := cstr_cut hmem
          rw [hbs, receiveStringLoop_append htext] at hloop
          cases hloop
        · exact ⟨_, rfl, fun hmem => absurd hmem hno, fun _ => rfl⟩
  | endless =>
      -- no NUL and no byte that cannot be decoded: the loop goes on at the end of the stream
      have htext := receiveStringLoop_eq_endless.mp hloop
      refine iff_of_false ?_ ?_
      · rintro ⟨r, hr, -⟩
        cases hr
      · rintro (⟨hmem, -⟩ | ⟨-, b, hb, hlarge⟩)
        · exact (htext 0 hmem).2 rfl
        · have hsmall := (htext b hb).1
          omega

/-- **Round and round.**  The connection is closed before the NUL. -/
theorem not_endsWell : ¬ ∀ bs : Bytes, EndsWell bs := by
  intro h
  rcases (endsWell_iff (ascii "SEND")).mp (h _) with ⟨hmem, -⟩ | ⟨-, b, hb, hlarge⟩
  · exact absurd hmem (by decide)
  · have hall : (ascii "SEND").all (fun b => b.toNat < 128) = true := by decide
    have hlt : b.toNat < 128 := of_decide_eq_true (List.all_eq_true.mp hall b hb)
    omega

end Ends
