/-
# What `read_line` leaves in the buffer

Every caller takes a result of `read_line` that is not negative for a C string in the buffer.

* `lineBytes`, `afterLine`: the line on the connection, and what is behind it;
* `readLineLoop_line`, `readLineLoop_error`: what the loop makes of every connection;
* `readLine_valid_iff`: the buffer holds the line, unless nothing was stored before the end of
  file.
-/
import MessageServer.NetUtil

/-! ## The line -/

/-- A byte that ends the line has been read. -/
def endsLine : ReadEv → Bool
  | .byte b => isTerminator b
  | _ => false

/-- The byte that has been read. -/
def ReadEv.byte? : ReadEv → Option UInt8
  | .byte b => some b
  | _ => none

/-- What is read before the first NUL, newline or end of file. -/
def beforeEnd (input : List ReadEv) : List ReadEv := input.takeWhile fun ev => !endsLine ev

/-- The bytes before the first NUL, newline or end of file. -/
def lineBytes (input : List ReadEv) : Bytes := (beforeEnd input).filterMap ReadEv.byte?

/-- What is left behind the terminator. -/
def afterLine (input : List ReadEv) : List ReadEv := (input.dropWhile fun ev => !endsLine ev).tail

/-- What a caller takes for granted when `n` is returned. -/
structure ValidLine (input : List ReadEv) (buf : Bytes) (bufSpace n : ℕ) (buf' : Bytes)
    (rest : List ReadEv) : Prop where
  short : n ≤ bufSpace - 1
  count : n = min (lineBytes input).length (bufSpace - 1)
  line : buf'.take n = (lineBytes input).take (bufSpace - 1)
  nul : buf'[n]? = some 0
  consumed : rest = afterLine input
  beyond : buf'.drop bufSpace = buf.drop bufSpace
  size : buf'.length = buf.length

/-! ## The loop -/

section Loop

variable {n : ℕ} {ev : ReadEv} {input : List ReadEv} {line : Bytes}

theorem beforeEnd_cons (h : endsLine ev = false) :
    beforeEnd (ev :: input) = ev :: beforeEnd input :=
  List.takeWhile_cons_of_pos (by simp [h])

theorem beforeEnd_end (h : endsLine ev = true) : beforeEnd (ev :: input) = [] :=
  List.takeWhile_cons_of_neg (by simp [h])

theorem afterLine_cons (h : endsLine ev = false) : afterLine (ev :: input) = afterLine input := by
  rw [afterLine, List.dropWhile_cons_of_pos (by simp [h])]
  rfl

theorem afterLine_end (h : endsLine ev = true) : afterLine (ev :: input) = input := by
  rw [afterLine, List.dropWhile_cons_of_neg (by simp [h])]
  rfl

/-- Nothing is left when no terminator comes. -/
theorem afterLine_of_not_any (h : input.any endsLine = false) : afterLine input = [] := by
  induction input with
  | nil => rfl
  | cons ev input ih =>
      rw [List.any_cons, Bool.or_eq_false_iff] at h
      rw [afterLine_cons h.1]
      exact ih h.2

/-- An error before the end of the line is returned. -/
theorem readLineLoop_error (h : ReadEv.err ∈ beforeEnd input) (line : Bytes) :
    (readLineLoop n input line).result = genErrAny := by
  induction input generalizing line with
  | nil => exact absurd h List.not_mem_nil
  | cons ev input ih =>
      cases ev with
      | err => rfl
      | eintr =>
          rw [beforeEnd_cons rfl] at h
          exact ih ((List.mem_cons.mp h).resolve_left (by simp)) line
      | byte b =>
          have hend : endsLine (.byte b) = false := by
            by_contra hb
            rw [beforeEnd_end (Bool.eq_true_of_not_eq_false hb)] at h
            exact absurd h List.not_mem_nil
          rw [beforeEnd_cons hend] at h
          have hrest := (List.mem_cons.mp h).resolve_left (by simp)
          have hb : isTerminator b = false := hend
          rw [readLineLoop, hb, if_neg (by simp)]
          split
          · exact ih hrest _
          · exact ih hrest _

/-- What the loop leaves when the line is `line`. -/
def lineResult (input : List ReadEv) (line : Bytes) : LineResult :=
  if input.any endsLine ∨ line ≠ [] then ⟨line.length, line, true, afterLine input⟩
  else ⟨0, [], false, []⟩

/-- Without an error the loop stores what there is room for. -/
theorem readLineLoop_line (h : ReadEv.err ∉ beforeEnd input) (hline : line.length ≤ n - 1) :
    readLineLoop n input line =
      lineResult input (line ++ (lineBytes input).take (n - 1 - line.length)) := by
  induction input generalizing line with
  | nil =>
      rw [readLineLoop, lineResult, show lineBytes [] = [] from rfl, List.take_nil, List.append_nil]
      by_cases hnil : line = []
      · rw [if_pos hnil, if_neg (by simp [hnil]), hnil]
      · rw [if_neg hnil, if_pos (Or.inr hnil)]
        rfl
  | cons ev input ih =>
      by_cases hend : endsLine ev = true
      · cases ev with
        | byte b =>
            have hb : isTerminator b = true := hend
            rw [readLineLoop, if_pos hb, lineResult, afterLine_end hend, lineBytes,
              beforeEnd_end hend,
              List.filterMap_nil, List.take_nil, List.append_nil,
              if_pos (Or.inl (by rw [List.any_cons, hend, Bool.true_or]))]
        | _ => exact absurd hend (by simp [endsLine])
      · have hgo := Bool.eq_false_of_not_eq_true hend
        rw [beforeEnd_cons hgo, List.mem_cons, not_or] at h
        -- what comes first is no terminator
        have hresult : ∀ l, lineResult (ev :: input) l = lineResult input l := by
          intro l
          rw [lineResult, lineResult, afterLine_cons hgo, List.any_cons, hgo, Bool.false_or]
        rw [hresult, lineBytes, beforeEnd_cons hgo]
        cases ev with
        | err => exact absurd rfl h.1
        | eintr =>
            rw [readLineLoop, ih h.2 hline]
            rfl
        | byte b =>
            have hb : isTerminator b = false := hgo
            rw [readLineLoop, hb, if_neg (by simp)]
            show _ = lineResult input (line ++ (b :: lineBytes input).take (n - 1 - line.length))
            split
            · rename_i hroom
              have hlen : (line ++ [b]).length ≤ n - 1 := by
                rw [List.length_append, List.length_singleton]
                omega
              have hleft : n - 1 - line.length = (n - 1 - (line ++ [b]).length) + 1 := by
                rw [List.length_append, List.length_singleton]
                omega
              rw [ih h.2 hlen, hleft, List.take_succ_cons, List.append_assoc]
              rfl
            · rename_i hfull
              have hleft : n - 1 - line.length = 0 := by omega
              rw [ih h.2 hline, hleft, List.take_zero, List.take_zero]

end Loop

/-! ## The buffer -/

section Buffer

variable {input : List ReadEv} {buf : Bytes} {bufSpace : ℕ}

/-- Storing no more than the buffer holds. -/
theorem length_stored {stored : Bytes} (h : stored.length ≤ buf.length) :
    (stored ++ buf.drop stored.length).length = buf.length := by
  rw [List.length_append, List.length_drop]
  omega

/-- A line that is terminated is a valid one. -/
theorem validLine_terminated {line : Bytes} (hline : line = (lineBytes input).take (bufSpace - 1))
    (hspace : 1 ≤ bufSpace) (hbuf : bufSpace ≤ buf.length) :
    ValidLine input buf bufSpace line.length ((line ++ [0]) ++ buf.drop (line ++ [0]).length)
      (afterLine input) := by
  have hlen : line.length = min (lineBytes input).length (bufSpace - 1) := by
    rw [hline, List.length_take, Nat.min_comm]
  have hstored : (line ++ [0]).length = line.length + 1 := by
    rw [List.length_append, List.length_singleton]
  have hle : line.length + 1 ≤ bufSpace := by omega
  constructor
  · omega
  · exact hlen
  · rw [List.append_assoc, List.take_left]
    exact hline
  · rw [List.append_assoc, List.getElem?_append_right le_rfl, Nat.sub_self]
    rfl
  · rfl
  · rw [List.drop_append, hstored, List.drop_eq_nil_of_le (by omega), List.nil_append,
      List.drop_drop]
    congr 1
    omega
  · apply length_stored
    omega

/-- Nothing was stored before the end of file: the buffer is left as it was. -/
theorem validLine_unstored (buf : Bytes) (hany : input.any endsLine = false)
    (hnil : (lineBytes input).take (bufSpace - 1) = []) :
    ValidLine input buf bufSpace 0 buf [] ↔ buf.head? = some 0 := by
  rw [List.head?_eq_getElem?]
  constructor
  · exact fun hvalid => hvalid.nul
  · intro hhead
    constructor
    · exact Nat.zero_le _
    · have hlen : ((lineBytes input).take (bufSpace - 1)).length = 0 := by
        rw [hnil, List.length_nil]
      rw [List.length_take] at hlen
      omega
    · rw [hnil, List.take_zero]
    · exact hhead
    · exact (afterLine_of_not_any hany).symm
    · rfl
    · rfl

/-- Without a terminator the whole stream is read. -/
theorem beforeEnd_of_not_any (hany : input.any endsLine = false) : beforeEnd input = input := by
  rw [beforeEnd, List.takeWhile_eq_self_iff]
  intro ev hev
  rw [Bool.eq_false_of_not_eq_true (List.any_eq_false.mp hany ev hev)]
  rfl

/-- Something is stored when there are bytes and room for one. -/
theorem stored_ne_nil_iff : (lineBytes input).take (bufSpace - 1) ≠ [] ↔
    lineBytes input ≠ [] ∧ 2 ≤ bufSpace := by
  rw [Ne, List.take_eq_nil_iff, not_or, and_comm]
  apply and_congr_right
  intro _
  omega

/-- **When `read_line` yields a string.**  It does unless the stream ends without a terminator
before a byte was stored: then the byte that was there before has to be the NUL. -/
theorem readLine_valid_iff (hspace : 1 ≤ bufSpace) (hbuf : bufSpace ≤ buf.length) :
    (∀ n : ℕ, (readLine input buf bufSpace).1 = n → ValidLine input buf bufSpace n
        (readLine input buf bufSpace).2.1 (readLine input buf bufSpace).2.2) ↔
      input.any endsLine = true ∨ ReadEv.err ∈ input ∨
        (lineBytes input ≠ [] ∧ 2 ≤ bufSpace) ∨
        buf.head? = some 0 := by
  have hpos : bufSpace ≠ 0 := by omega
  have hread : readLine input buf bufSpace = ((readLineLoop bufSpace input []).result,
      (readLineLoop bufSpace input []).buffer buf, (readLineLoop bufSpace input []).rest) :=
        if_neg hpos
  rw [hread, ← stored_ne_nil_iff]
  by_cases herr : ReadEv.err ∈ beforeEnd input
  · -- an error is returned
    have hmem : ReadEv.err ∈ input := (List.takeWhile_sublist _).subset herr
    refine iff_of_true (fun n hn => ?_) (Or.inr (Or.inl hmem))
    have hresult : (readLineLoop bufSpace input []).result = n := hn
    rw [readLineLoop_error herr] at hresult
    exact absurd hresult (by unfold genErrAny; omega)
  · have hloop : readLineLoop bufSpace input [] =
        lineResult input ((lineBytes input).take (bufSpace - 1)) :=
      readLineLoop_line herr (Nat.zero_le _)
    rw [hloop]
    by_cases hstored : input.any endsLine = true ∨ (lineBytes input).take (bufSpace - 1) ≠ []
    · -- a byte or an end of the line has come, so the string is terminated
      rw [lineResult, if_pos hstored]
      apply iff_of_true
      · intro n hn
        obtain rfl : ((lineBytes input).take (bufSpace - 1)).length = n := Int.ofNat_inj.mp hn
        exact validLine_terminated rfl hspace hbuf
      · exact hstored.imp_right fun hne => Or.inr (Or.inl hne)
    · rw [lineResult, if_neg hstored]
      -- the end of the stream at once: the buffer is as it was
      obtain ⟨hany, hnil⟩ := not_or.mp hstored
      have hnone := Bool.eq_false_of_not_eq_true hany
      rw [beforeEnd_of_not_any hnone] at herr
      have hvalid := validLine_unstored buf hnone (not_not.mp hnil)
      constructor
      · exact fun h => Or.inr (Or.inr (Or.inr (hvalid.mp (h 0 rfl))))
      · intro hcases n hn
        obtain rfl : 0 = n := Int.ofNat_inj.mp hn
        apply hvalid.mpr
        rcases hcases with hsome | hmem | hne | hhead
        · exact absurd hsome hany
        · exact absurd hmem herr
        · exact absurd hne hnil
        · exact hhead

end Buffer

/-- A line in two pieces, and a connection that is closed behind it. -/
theorem readLine_valid_iff_hi :
    (∀ n : ℕ, (readLine [.byte 104, .eintr, .byte 105, .byte 0] (ascii "abc") 3).1 = n →
        ValidLine [.byte 104, .eintr, .byte 105, .byte 0] (ascii "abc") 3 n
          (readLine [.byte 104, .eintr, .byte 105, .byte 0] (ascii "abc") 3).2.1
          (readLine [.byte 104, .eintr, .byte 105, .byte 0] (ascii "abc") 3).2.2) ↔
      ([.byte 104, .eintr, .byte 105, .byte 0] : List ReadEv).any endsLine = true ∨
        ReadEv.err ∈ ([.byte 104, .eintr, .byte 105, .byte 0] : List ReadEv) ∨
        (lineBytes [.byte 104, .eintr, .byte 105, .byte 0] ≠ [] ∧ 2 ≤ 3) ∨
        (ascii "abc").head? = some 0 :=
  readLine_valid_iff (by decide) (by decide)

/-- **No string.**  The connection is closed before a byte has come: the result is 0, and the
buffer holds what it held before. -/
theorem not_readLine_valid :
    ¬ ∀ (input : List ReadEv) (buf : Bytes) (bufSpace : ℕ), 1 ≤ bufSpace →
      bufSpace ≤ buf.length →
      ∀ n : ℕ, (readLine input buf bufSpace).1 = n → ValidLine input buf bufSpace n
        (readLine input buf bufSpace).2.1 (readLine input buf bufSpace).2.2 := by
  intro h
  have hvalid := h [] (List.replicate maxMsgSize 65) maxMsgSize (by decide)
    (List.length_replicate).ge 0 rfl
  have hnul : (List.replicate maxMsgSize (65 : UInt8))[0]? = some 0 := hvalid.nul
  exact absurd hnul (by decide)
