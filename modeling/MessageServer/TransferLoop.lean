/-
# The loop of `write_bytes` and `read_bytes`

Both are `do`-`while` loops.  They count with the result of every call, also with the -1 of a
call that fails, and look at it afterwards.

* `transferLoop`: the loop, on any results of `write` or `read`;
* `GivenBy`: each call has the result that `write` or `read` gave behind the calls before it;
* `Moved`: the calls so far have moved the first bytes, each once;
* `transferLoop_ends`: how the loop ends.
-/
import MessageServer.Transition
import MessageServer.Dbms

/-! ## The loop -/

/-- A call of `write` or `read`: where in the buffer, for how many bytes, and its result. -/
structure IoStep where
  pos : ℤ
  count : ℤ
  result : ℤ
  deriving DecidableEq

/-- The variables of the loop: the last result, the bytes that are left, the total, and how far
`buffer` has moved. -/
structure LoopVars where
  last : ℤ
  left : ℤ
  total : ℤ
  pos : ℤ

/-- The body behind the call. -/
def LoopVars.add (s : LoopVars) (n : ℤ) : LoopVars := ⟨n, s.left - n, s.total + n, s.pos + n⟩

/-- The loop, at most `fuel` times round: `io` gives the result of a call for a count behind
earlier calls, `again` is what the loop asks of it. -/
def transferLoop (io : List IoStep → ℤ → ℤ) (again : ℤ → Bool) :
    ℕ → LoopVars → List IoStep → Option (LoopVars × List IoStep)
  | 0, _, _ => none
  | fuel + 1, s, calls =>
      let n := io calls s.left
      let s' := s.add n
      let calls' := calls ++ [⟨s.pos, s.left, n⟩]
      if 0 < s'.left ∧ again n then transferLoop io again fuel s' calls' else some (s', calls')

/-- What is returned: `GEN_ERR_ANY` when the last call has failed, else the total. -/
def LoopVars.returned (s : LoopVars) : ℤ := if s.last < 0 then genErrAny else s.total

/-- The variables before the loop; `last` is not initialised. -/
def LoopVars.start (last len : ℤ) : LoopVars := ⟨last, len, 0, 0⟩

/-- `write_bytes`, with the calls that it makes. -/
def writeBytesOn (write : List IoStep → ℤ → ℤ) (fuel : ℕ) (last len : ℤ) :
    Option (ℤ × List IoStep) :=
  if len ≤ 0 then some (genErrInvArgs, [])
  else (transferLoop write (fun n => 0 ≤ n) fuel (LoopVars.start last len) []).map fun r =>
    (r.1.returned, r.2)

/-- `read_bytes`, with the calls that it makes. -/
def readBytesOn (read : List IoStep → ℤ → ℤ) (fuel : ℕ) (last len : ℤ) :
    Option (ℤ × List IoStep) :=
  if len ≤ 0 then some (genErrInvArgs, [])
  else (transferLoop read (fun n => 0 < n) fuel (LoopVars.start last len) []).map fun r =>
    (r.1.returned, r.2)

/-! ## What the calls move -/

/-- The positions of the bytes that the calls have moved, in this order. -/
def positions (calls : List IoStep) : List ℕ :=
  calls.flatMap fun c => List.range' c.pos.toNat c.result.toNat

/-- Each call has the result that `io` gives for its count behind the calls before it. -/
def GivenBy (io : List IoStep → ℤ → ℤ) (calls : List IoStep) : Prop :=
  ∀ before c after, calls = before ++ c :: after → c.result = io before c.count

/-- The calls, with the results of `io`, have moved the first `m` of `len` bytes, each once and in
order, and none of them reaches behind the `len` bytes. -/
structure Moved (io : List IoStep → ℤ → ℤ) (len m : ℕ) (calls : List IoStep) : Prop where
  positions : positions calls = List.range m
  given : GivenBy io calls
  inside : ∀ c ∈ calls, 0 ≤ c.pos ∧ c.pos + c.count = len
  results : ∀ c ∈ calls, 1 ≤ c.result
  le : m ≤ len

/-- How the loop ends: all bytes are moved; a call fails; a call gives 0 and the loop stops at
it. -/
inductive LoopEnds (io : List IoStep → ℤ → ℤ) (again : ℤ → Bool) (len : ℕ) :
    LoopVars × List IoStep → Prop
  | full {n : ℤ} {calls : List IoStep} (hn : 1 ≤ n) (h : Moved io len len calls) :
      LoopEnds io again len (⟨n, 0, len, len⟩, calls)
  | failed {m : ℕ} {calls : List IoStep} (hfail : io calls (len - m) = -1)
      (h : Moved io len m calls) (hm : m < len) :
      LoopEnds io again len
      ((⟨m, len - m, m, m⟩ : LoopVars).add (-1), calls ++ [⟨m, len - m, -1⟩])
  | ended {m : ℕ} {calls : List IoStep} (hstop : again 0 = false) (hzero : io calls (len - m) = 0)
      (h : Moved io len m calls) (hm : m < len) :
      LoopEnds io again len (⟨0, len - m, m, m⟩, calls ++ [⟨m, len - m, 0⟩])

/-! ### One more call -/

section Loop

variable {io : List IoStep → ℤ → ℤ} {again : ℤ → Bool} {len m : ℕ}
  {calls : List IoStep}

theorem positions_snoc (c : IoStep) :
    positions (calls ++ [c]) = positions calls ++ List.range' c.pos.toNat c.result.toNat := by
  rw [positions, List.flatMap_append, List.flatMap_singleton]
  rfl

/-- The first positions, and the next ones. -/
theorem range_append_range' (m n : ℕ) : List.range m ++ List.range' m n = List.range (m + n) := by
  rw [List.range_eq_range', List.range_eq_range', ← List.range'_append_1, Nat.zero_add]

theorem givenBy_nil (io : List IoStep → ℤ → ℤ) : GivenBy io [] := by
  intro before c after h
  simp at h

/-- One more call, with its result. -/
theorem GivenBy.snoc (h : GivenBy io calls) {pos count n : ℤ} (hgiven : io calls count = n) :
    GivenBy io (calls ++ [⟨pos, count, n⟩]) :=
  forall_split_snoc.mpr ⟨h, hgiven.symm⟩

theorem moved_nil (io : List IoStep → ℤ → ℤ) (len : ℕ) : Moved io len 0 [] :=
  ⟨rfl, givenBy_nil io, by simp, by simp, Nat.zero_le _⟩

/-- A call that moves nothing. -/
theorem positions_snoc_of_le {pos count n : ℤ} (hn : n ≤ 0) :
    positions (calls ++ [⟨pos, count, n⟩]) = positions calls := by
  rw [positions_snoc]
  simp only
  rw [Int.toNat_of_nonpos hn, List.range'_zero, List.append_nil]

/-- The next call begins where the earlier ones have stopped. -/
theorem Moved.within (h : Moved io len m calls) (n : ℤ) :
    ∀ c ∈ calls ++ [(⟨m, len - m, n⟩ : IoStep)], 0 ≤ c.pos ∧ c.pos + c.count = len := by
  intro c hc
  rcases List.mem_append.mp hc with hc | hc
  · exact h.inside c hc
  · rw [List.mem_singleton.mp hc]
    constructor
    · exact Int.natCast_nonneg m
    · show (m : ℤ) + (len - m) = len
      omega

/-- A call that moves the next bytes. -/
theorem Moved.snoc (h : Moved io len m calls) {n : ℕ} (hn : 1 ≤ n) (hle : m + n ≤ len)
    (hgiven : io calls (len - m) = n) : Moved io len (m + n) (calls ++ [⟨m, len - m, n⟩]) := by
  constructor
  · rw [positions_snoc, h.positions, Int.toNat_natCast, Int.toNat_natCast]
    exact range_append_range' m n
  · exact h.given.snoc hgiven
  · exact h.within n
  · intro c hc
    rcases List.mem_append.mp hc with hc | hc
    · exact h.results c hc
    · rw [List.mem_singleton.mp hc]
      exact Int.ofNat_le.mpr hn
  · exact hle

/-! ### The loop -/

/-- What a call may give for a positive count: -1, 0, or some of the bytes. -/
def Transfers (io : List IoStep → ℤ → ℤ) : Prop :=
  ∀ calls count, 0 < count → io calls count = -1 ∨ io calls count = 0 ∨
    (1 ≤ io calls count ∧ io calls count ≤ count)

/-- **The loop ends**, after at most one round for each byte. -/
theorem transferLoop_ends (hio : Transfers io) (hneg : again (-1) = false)
    (hpos : ∀ n, 1 ≤ n → again n = true)
    (hzero : again 0 = false ∨ ∀ calls count, 0 < count → io calls count ≠ 0)
    {fuel : ℕ} {last : ℤ}
    (h : Moved io len m calls) (hm : m < len) (hfuel : len - m ≤ fuel) :
    ∃ r, transferLoop io again fuel ⟨last, len - m, m, m⟩ calls = some r ∧
      LoopEnds io again len r := by
  induction fuel generalizing m last calls with
  | zero => omega
  | succ fuel ih =>
      rw [transferLoop]
      simp only
      -- the call fails, moves nothing, or moves some bytes
      rcases hio calls (len - m) (by omega) with hn | hn | ⟨hn, hle⟩
      · rw [hn, hneg, if_neg (by simp)]
        exact ⟨_, rfl, LoopEnds.failed hn h hm⟩
      · have hstop : again 0 = false := hzero.resolve_right fun hno =>
          hno calls (len - m) (by omega) hn
        rw [hn, hstop, if_neg (by simp)]
        have hadd : (⟨last, len - m, m, m⟩ : LoopVars).add 0 = ⟨0, len - m, m, m⟩ := by
          simp [LoopVars.add]
        rw [hadd]
        exact ⟨_, rfl, LoopEnds.ended hstop hn h hm⟩
      · obtain ⟨n, hnat⟩ := Int.eq_ofNat_of_zero_le (show 0 ≤ io calls (len - m) by omega)
        rw [hnat] at hn hle ⊢
        have hmoved : Moved io len (m + n) (calls ++ [⟨m, len - m, n⟩]) :=
          h.snoc (by omega) (by omega) hnat
        have hadd : (⟨last, len - m, m, m⟩ : LoopVars).add n =
            ⟨n, len - (m + n : ℕ), (m + n : ℕ), (m + n : ℕ)⟩ := by
          rw [LoopVars.add, LoopVars.mk.injEq]
          refine ⟨rfl, ?_, ?_, ?_⟩
          · push_cast
            omega
          · push_cast
            rfl
          · push_cast
            rfl
        rw [hadd]
        by_cases hmore : m + n < len
        · rw [if_pos ⟨by show (0 : ℤ) < len - (m + n : ℕ); omega, hpos n (by omega)⟩]
          exact ih hmoved hmore (by omega)
        · have hall : m + n = len := by omega
          rw [if_neg fun hgo => absurd hgo.1 (by show ¬ (0 : ℤ) < len - (m + n : ℕ); omega)]
          rw [hall] at hmoved ⊢
          rw [Int.sub_self]
          exact ⟨_, rfl, LoopEnds.full hn hmoved⟩

/-- More rounds do not change how the loop has ended. -/
theorem transferLoop_mono {fuel fuel' : ℕ} (hle : fuel ≤ fuel') {s : LoopVars}
    {r : LoopVars × List IoStep}
    (h : transferLoop io again fuel s calls = some r) :
    transferLoop io again fuel' s calls = some r := by
  induction fuel generalizing fuel' s calls with
  | zero => cases h
  | succ fuel ih =>
      obtain ⟨n, rfl⟩ : ∃ n, fuel' = n + 1 := ⟨fuel' - 1, by omega⟩
      rw [transferLoop] at h ⊢
      split
      · rename_i hgo
        rw [if_pos hgo] at h
        exact ih (by omega) h
      · rename_i hstop
        rw [if_neg hstop] at h
        exact h

/-- Before the loop nothing is moved. -/
theorem loopVars_start (last : ℤ) (len : ℕ) :
    LoopVars.start last len = ⟨last, len - (0 : ℕ), (0 : ℕ), (0 : ℕ)⟩ := by
  rw [Nat.cast_zero, Int.sub_zero]
  rfl

theorem returned_of_nonneg {n left total pos : ℤ} (hn : 0 ≤ n) :
    (⟨n, left, total, pos⟩ : LoopVars).returned = total := if_neg (Int.not_lt.mpr hn)

/-- No call that has moved bytes has failed. -/
theorem Moved.no_failure (h : Moved io len m calls) : ∀ c ∈ calls, c.result ≠ -1 := by
  intro c hc
  have hone := h.results c hc
  omega

/-- The bytes at the first positions. -/
theorem filterMap_range (mem : Bytes) (m : ℕ) :
    (List.range m).filterMap (fun k => mem[k]?) = mem.take m := by
  induction m with
  | zero => rfl
  | succ m ih =>
      rw [List.range_succ, List.filterMap_append, ih, List.take_add_one]
      cases hm : mem[m]? with
      | none => simp [hm]
      | some b => simp [hm]

/-- The first positions tell how many they are. -/
theorem range_injective {m n : ℕ} (h : List.range m = List.range n) : m = n := by
  have hlen := congrArg List.length h
  rwa [List.length_range, List.length_range] at hlen

end Loop
