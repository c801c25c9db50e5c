/-
# What `write_bytes` and `read_bytes` move

* `WritesOnce`, `ReadsOnce`: the first bytes are moved, each once, and the result tells
  whether all are;
* `writeBytesOn_writes`, `readBytesOn_reads`: what the two functions return and move;
* `transfers_once`: both together.
-/
import MessageServer.TransferLoop

/-! ## `write_bytes` -/

/-- `write` on a positive count gives -1 or a number between 1 and that count. -/
def WritesSome (write : List IoStep → ℤ → ℤ) : Prop :=
  ∀ calls count, 0 < count → write calls count = -1 ∨
    (1 ≤ write calls count ∧ write calls count ≤ count)

/-- The bytes of the buffer that the calls have written. -/
def bytesWritten (buffer : Bytes) (calls : List IoStep) : Bytes :=
  calls.flatMap fun c => (buffer.drop c.pos.toNat).take c.result.toNat

/-- What `write_bytes` returns after the calls of `write` that it makes, and what they have
written. -/
structure WritesOnce (write : List IoStep → ℤ → ℤ) (buffer : Bytes) (len : ℕ) (r : ℤ)
    (calls : List IoStep) : Prop where
  given : GivenBy write calls
  full : r = len ↔ positions calls = List.range len ∧
    bytesWritten buffer calls = buffer.take len
  failed : r = genErrAny ↔ ∃ c ∈ calls, c.result = -1
  either : r = len ∨ r = genErrAny
  part : ∃ m ≤ len, positions calls = List.range m ∧ bytesWritten buffer calls = buffer.take m
  within : ∀ c ∈ calls, 0 ≤ c.pos ∧ c.pos + c.count = len

section Write

variable {io : List IoStep → ℤ → ℤ} {buffer : Bytes} {len m : ℕ} {calls : List IoStep}

/-- A call writes the bytes at its positions. -/
theorem piece_eq (buffer : Bytes) (p n : ℕ) :
    (buffer.drop p).take n = (List.range' p n).filterMap fun k => buffer[k]? := by
  induction n generalizing p with
  | zero => simp
  | succ n ih =>
      rw [List.range'_succ, List.filterMap_cons]
      by_cases hp : p < buffer.length
      · rw [List.drop_eq_getElem_cons hp, List.take_succ_cons, List.getElem?_eq_getElem hp, ih]
      · -- behind the end there is nothing, at the next positions neither
        have hnext := ih (p + 1)
        rw [List.drop_eq_nil_of_le (by omega), List.take_nil] at hnext
        rw [List.drop_eq_nil_of_le (by omega), List.getElem?_eq_none (by omega), List.take_nil]
        exact hnext

/-- What the calls write, byte by byte. -/
theorem bytesWritten_eq (buffer : Bytes) (calls : List IoStep) :
    bytesWritten buffer calls = (positions calls).filterMap fun k => buffer[k]? := by
  induction calls with
  | nil => rfl
  | cons c calls ih =>
      rw [bytesWritten, positions, List.flatMap_cons, List.flatMap_cons,
        List.filterMap_append, ← piece_eq]
      exact congrArg _ ih

/-- The calls that have moved the first bytes have written them. -/
theorem bytesWritten_of_positions (h : positions calls = List.range m) :
    bytesWritten buffer calls = buffer.take m := by
  rw [bytesWritten_eq, h]
  exact filterMap_range buffer m

/-- What is to be shown of `write_bytes`, once it is known how many bytes were moved. -/
theorem WritesOnce.of_positions {r : ℤ} (hm : m ≤ len) (hpos : positions calls = List.range m)
    (hgiven : GivenBy io calls) (hwithin : ∀ c ∈ calls, 0 ≤ c.pos ∧ c.pos + c.count = len)
    (hr : (r = len ∧ m = len ∧ ∀ c ∈ calls, c.result ≠ -1) ∨
      (r = genErrAny ∧ m < len ∧ ∃ c ∈ calls, c.result = -1)) :
    WritesOnce io buffer len r calls := by
  have herr : (len : ℤ) ≠ genErrAny := by
    unfold genErrAny
    omega
  have hpart : ∃ m ≤ len, positions calls = List.range m ∧
      bytesWritten buffer calls = buffer.take m :=
    ⟨m, hm, hpos, bytesWritten_of_positions hpos⟩
  rcases hr with ⟨rfl, rfl, hno⟩ | ⟨rfl, hlt, hfail⟩
  · apply WritesOnce.mk
    · exact hgiven
    · exact iff_of_true rfl ⟨hpos, bytesWritten_of_positions hpos⟩
    · exact iff_of_false herr fun hc => hc.elim fun c hc => hno c hc.1 hc.2
    · exact Or.inl rfl
    · exact hpart
    · exact hwithin
  · apply WritesOnce.mk
    · exact hgiven
    · apply iff_of_false herr.symm
      intro hall
      have hsame := range_injective (hpos.symm.trans hall.1)
      omega
    · exact iff_of_true rfl hfail
    · exact Or.inr rfl
    · exact hpart
    · exact hwithin

/-- **`write_bytes` writes each byte once.** -/
theorem writeBytesOn_writes {write : List IoStep → ℤ → ℤ} (hwrite : WritesSome write)
    (hlen : 0 < len)
    (buffer : Bytes) (last : ℤ) : ∃ r calls, (∀ fuel, len ≤ fuel →
      writeBytesOn write fuel last len = some (r, calls)) ∧
        WritesOnce write buffer len r calls := by
  have hio : Transfers write :=
    fun calls count hcount => (hwrite calls count hcount).imp_right Or.inr
  have hzero : ∀ calls count, 0 < count → write calls count ≠ 0 := by
    intro calls count hcount
    have hgiven := hwrite calls count hcount
    omega
  have hloop : ∃ r, transferLoop write (fun n => 0 ≤ n) len ⟨last, len - (0 : ℕ), (0 : ℕ),
      (0 : ℕ)⟩ [] =
      some r ∧ LoopEnds write (fun n => 0 ≤ n) len r :=
    transferLoop_ends hio (by decide) (fun n hn => decide_eq_true (by omega)) (Or.inr hzero)
      (moved_nil write len) hlen (Nat.sub_le _ _)
  obtain ⟨⟨s, calls⟩, hloop, hends⟩ := hloop
  refine ⟨s.returned, calls, ?_, ?_⟩
  · intro fuel hfuel
    rw [writeBytesOn, if_neg (by omega), loopVars_start, transferLoop_mono hfuel hloop]
    rfl
  · cases hends with
    | full hn h =>
        apply WritesOnce.of_positions le_rfl h.positions h.given h.inside
        exact Or.inl ⟨returned_of_nonneg (by omega), rfl, h.no_failure⟩
    | @failed m front hfail h hm =>
        apply WritesOnce.of_positions hm.le ((positions_snoc_of_le (by decide)).trans h.positions)
          (h.given.snoc hfail) (h.within (-1))
        exact Or.inr ⟨rfl, hm, _, List.mem_append_right _ (List.mem_singleton_self _), rfl⟩
    | ended hstop _ _ _ => exact absurd hstop (by decide)

end Write

/-! ## `read_bytes` -/

/-- The number of bytes that the calls have taken from the stream. -/
def taken (calls : List IoStep) : ℕ := (calls.map fun c => c.result.toNat).sum

/-- `read` on a positive count gives -1, or 0 at the end of file, or a number between 1 and the
count. -/
def ReadsStream (stream : Bytes) (read : List IoStep → ℤ → ℤ) : Prop :=
  ∀ calls count, 0 < count → read calls count = -1 ∨
    (read calls count = 0 ∧ stream.length ≤ taken calls) ∨
    (1 ≤ read calls count ∧ read calls count ≤ count ∧
      taken calls + read calls count ≤ stream.length)

/-- A call puts the next bytes of the stream into the buffer; with what is left of the stream. -/
def storeCall (s : Bytes × Bytes) (c : IoStep) : Bytes × Bytes :=
  (s.1.take c.pos.toNat ++ s.2.take c.result.toNat ++
    s.1.drop (c.pos.toNat + c.result.toNat), s.2.drop c.result.toNat)

/-- The buffer after the calls, and what is left of the stream. -/
def stored (stream buf : Bytes) (calls : List IoStep) : Bytes × Bytes :=
  calls.foldl storeCall (buf, stream)

/-- What `read_bytes` returns after the calls of `read` that it makes, and what they have stored. -/
structure ReadsOnce (read : List IoStep → ℤ → ℤ) (stream buf : Bytes) (len : ℕ) (r : ℤ)
    (calls : List IoStep) : Prop where
  given : GivenBy read calls
  returned : ∀ n : ℕ, r = n ↔ n ≤ stream.length ∧
    stored stream buf calls = (stream.take n ++ buf.drop n, stream.drop n) ∧
    (n = len ∨ (n = stream.length ∧ ∃ c ∈ calls, c.result = 0))
  failed : r = genErrAny ↔ ∃ c ∈ calls, c.result = -1
  either : 0 ≤ r ∨ r = genErrAny
  untouched : (stored stream buf calls).1.drop len = buf.drop len ∧
    (stored stream buf calls).1.length = buf.length
  within : ∀ c ∈ calls, 0 ≤ c.pos ∧ c.pos + c.count = len

/-! ### What the reads deliver -/

section Read

variable {io : List IoStep → ℤ → ℤ} {stream buf : Bytes} {len m : ℕ}
  {calls : List IoStep} {c : IoStep}

theorem length_positions (calls : List IoStep) : (positions calls).length = taken calls := by
  rw [positions, List.length_flatMap, taken]
  congr 1
  exact List.map_congr_left fun c _ => List.length_range'

theorem Moved.count (h : Moved io len m calls) : taken calls = m := by
  rw [← length_positions, h.positions, List.length_range]

/-- **The last call** has moved the last bytes. -/
theorem Moved.of_snoc (h : Moved io len m (calls ++ [c])) :
    ∃ k n : ℕ, m = k + n ∧ 1 ≤ n ∧ c.pos = k ∧
    c.result = n ∧ Moved io len k calls := by
  have hmem : c ∈ calls ++ [c] := List.mem_append_right _ (List.mem_singleton_self _)
  have hone : 1 ≤ c.result := h.results c hmem
  obtain ⟨p, hp⟩ := Int.eq_ofNat_of_zero_le (h.inside c hmem).1
  obtain ⟨n, hn⟩ := Int.eq_ofNat_of_zero_le (show 0 ≤ c.result by omega)
  have hpos := h.positions
  rw [positions_snoc, hp, hn, Int.toNat_natCast, Int.toNat_natCast] at hpos
  have hm : m = taken calls + n := by
    have hlen := congrArg List.length hpos
    rw [List.length_append, length_positions, List.length_range', List.length_range] at hlen
    exact hlen.symm
  rw [hm, ← range_append_range'] at hpos
  obtain ⟨hfront, hlast⟩ := List.append_inj hpos (by rw [length_positions, List.length_range])
  have hplace : p = taken calls := by
    obtain ⟨k, rfl⟩ : ∃ k, n = k + 1 := ⟨n - 1, by omega⟩
    rw [List.range'_succ, List.range'_succ] at hlast
    exact (List.cons.inj hlast).1
  have hmoved : Moved io len (taken calls) calls := by
    apply Moved.mk
    · exact hfront
    · exact (forall_split_snoc.mp h.given).1
    · exact fun d hd => h.inside d (List.mem_append_left _ hd)
    · exact fun d hd => h.results d (List.mem_append_left _ hd)
    · have hle := h.le
      omega
  exact ⟨taken calls, n, hm, by omega, by rw [hp, hplace], hn, hmoved⟩

/-- The calls take no more than the stream has. -/
theorem Moved.le_stream (h : Moved io len m calls) (hread : ReadsStream stream io) :
    m ≤ stream.length := by
  rcases List.eq_nil_or_concat calls with rfl | ⟨front, c, rfl⟩
  · obtain rfl : 0 = m := h.count
    exact Nat.zero_le _
  · rw [List.concat_eq_append] at h
    obtain ⟨k, n, rfl, hn, hpos, hresult, hfront⟩ := h.of_snoc
    have hgiven := (forall_split_snoc.mp h.given).2
    have hcount : 0 < c.count := by
      have hinside := (h.inside c (List.mem_append_right _ (List.mem_singleton_self _))).2
      have hle := h.le
      omega
    rcases hread front c.count hcount with hr | ⟨hr, -⟩ | ⟨-, -, hr⟩
    · omega
    · omega
    · rw [hfront.count, ← hgiven] at hr
      omega

/-! ### What is stored -/

theorem stored_snoc (c : IoStep) :
    stored stream buf (calls ++ [c]) = storeCall (stored stream buf calls) c :=
  List.foldl_concat _ _ _ _

/-- A call at the place that the earlier ones have reached puts its bytes behind theirs. -/
theorem storeCall_next {k n : ℕ} (hk : k ≤ stream.length) (hpos : c.pos = k)
    (hresult : c.result = n) :
    storeCall (stream.take k ++ buf.drop k, stream.drop k) c =
      (stream.take (k + n) ++ buf.drop (k + n), stream.drop (k + n)) := by
  have hlen : (stream.take k).length = k := List.length_take_of_le hk
  have hfront : (stream.take k ++ buf.drop k).take k = stream.take k := by
    rw [List.take_append_of_le_length hlen.ge, List.take_take, Nat.min_self]
  have hback : (stream.take k ++ buf.drop k).drop (k + n) = buf.drop (k + n) := by
    rw [List.drop_append, hlen, List.drop_eq_nil_of_le (hlen.le.trans (Nat.le_add_right k n)),
      List.nil_append, List.drop_drop, Nat.add_sub_cancel_left]
  rw [storeCall, hpos, hresult, Int.toNat_natCast, Int.toNat_natCast]
  simp only
  rw [hfront, hback, List.drop_drop, List.take_add]

/-- **What the calls store**: the first bytes of the stream, in front of the rest of the buffer. -/
theorem Moved.stores (h : Moved io len m calls) (hread : ReadsStream stream io) :
    stored stream buf calls = (stream.take m ++ buf.drop m, stream.drop m) := by
  induction calls using List.reverseRecOn generalizing m with
  | nil =>
      obtain rfl : 0 = m := h.count
      rfl
  | append_singleton calls c ih =>
      obtain ⟨k, n, rfl, hn, hpos, hresult, hfront⟩ := h.of_snoc
      rw [stored_snoc, ih hfront]
      exact storeCall_next (hfront.le_stream hread) hpos hresult

/-- A call that has failed, or met the end of file, stores nothing. -/
theorem stored_snoc_of_le {pos count n : ℤ} (hn : n ≤ 0) :
    stored stream buf (calls ++ [⟨pos, count, n⟩]) = stored stream buf calls := by
  rw [stored_snoc, storeCall]
  simp only
  rw [Int.toNat_of_nonpos hn, List.take_zero, List.append_nil, Nat.add_zero, List.take_append_drop,
    List.drop_zero]

/-- What is left of the stream tells how much was read. -/
theorem drop_stream_injective {n : ℕ} (hm : m ≤ stream.length) (hn : n ≤ stream.length)
    (h : stream.drop m = stream.drop n) : m = n := by
  have hlen := congrArg List.length h
  rw [List.length_drop, List.length_drop] at hlen
  omega

/-- Nothing behind the `len` bytes is touched. -/
theorem untouched_of_le (hm : m ≤ stream.length) (hle : m ≤ len) (hbuf : len ≤ buf.length) :
    (stream.take m ++ buf.drop m).drop len = buf.drop len ∧
      (stream.take m ++ buf.drop m).length = buf.length := by
  have hlen : (stream.take m).length = m := List.length_take_of_le hm
  constructor
  · rw [List.drop_append, hlen, List.drop_eq_nil_of_le (hlen.le.trans hle), List.nil_append,
      List.drop_drop, Nat.add_sub_cancel' hle]
  · rw [List.length_append, hlen, List.length_drop]
    omega

/-! ### The whole read -/

/-- What is to be shown of `read_bytes`, once it is known how many bytes were stored. -/
theorem ReadsOnce.of_stored {r : ℤ} (hm : m ≤ stream.length) (hle : m ≤ len)
    (hbuf : len ≤ buf.length)
    (hstored : stored stream buf calls = (stream.take m ++ buf.drop m, stream.drop m))
    (hgiven : GivenBy io calls)
    (hwithin : ∀ c ∈ calls, 0 ≤ c.pos ∧ c.pos + c.count = len)
    (hr : (r = m ∧ (m = len ∨ (m = stream.length ∧ ∃ c ∈ calls, c.result = 0)) ∧
        ∀ c ∈ calls, c.result ≠ -1) ∨
      (r = genErrAny ∧ m ≠ len ∧ (∀ c ∈ calls, c.result ≠ 0) ∧ ∃ c ∈ calls,
          c.result = -1)) :
    ReadsOnce io stream buf len r calls := by
  have huntouched : (stored stream buf calls).1.drop len = buf.drop len ∧
      (stored stream buf calls).1.length = buf.length := by
    rw [hstored]
    exact untouched_of_le hm hle hbuf
  have hsame : ∀ n : ℕ, n ≤ stream.length →
      stored stream buf calls = (stream.take n ++ buf.drop n, stream.drop n) → m = n := by
    intro n hn heq
    exact drop_stream_injective hm hn (Prod.ext_iff.mp (hstored.symm.trans heq)).2
  -- the loop has come to an end of what it reads, or a call has failed
  rcases hr with ⟨rfl, hend, hno⟩ | ⟨rfl, hne, hnone, hfail⟩
  · apply ReadsOnce.mk
    · exact hgiven
    · intro n
      constructor
      · intro hn
        obtain rfl : m = n := Int.ofNat_inj.mp hn
        exact ⟨hm, hstored, hend⟩
      · intro hn
        rw [hsame n hn.1 hn.2.1]
    · apply iff_of_false
      · unfold genErrAny
        omega
      · exact fun hc => hc.elim fun c hc => hno c hc.1 hc.2
    · exact Or.inl (Int.natCast_nonneg m)
    · exact huntouched
    · exact hwithin
  · apply ReadsOnce.mk
    · exact hgiven
    · intro n
      apply iff_of_false
      · unfold genErrAny
        omega
      · rintro ⟨hn, heq, hlast | ⟨-, c, hc, hzero⟩⟩
        · exact hne ((hsame n hn heq).trans hlast)
        · exact hnone c hc hzero
    · exact iff_of_true rfl hfail
    · exact Or.inr rfl
    · exact huntouched
    · exact hwithin

/-- **`read_bytes` reads each byte once.** -/
theorem readBytesOn_reads {read : List IoStep → ℤ → ℤ} (hread : ReadsStream stream read)
    (hlen : 0 < len)
    (hbuf : len ≤ buf.length) (last : ℤ) : ∃ r calls, (∀ fuel, len ≤ fuel →
      readBytesOn read fuel last len = some (r, calls)) ∧
        ReadsOnce read stream buf len r calls := by
  have hio : Transfers read := by
    intro calls count hcount
    rcases hread calls count hcount with hr | ⟨hr, -⟩ | ⟨hr, hle, -⟩
    · exact Or.inl hr
    · exact Or.inr (Or.inl hr)
    · exact Or.inr (Or.inr ⟨hr, hle⟩)
  have hloop : ∃ r, transferLoop read (fun n => 0 < n) len ⟨last, len - (0 : ℕ), (0 : ℕ),
      (0 : ℕ)⟩ [] =
      some r ∧ LoopEnds read (fun n => 0 < n) len r :=
    transferLoop_ends hio (by decide) (fun n hn => decide_eq_true (by omega)) (Or.inl (by decide))
      (moved_nil read len) hlen (Nat.sub_le _ _)
  obtain ⟨⟨s, calls⟩, hloop, hends⟩ := hloop
  refine ⟨s.returned, calls, ?_, ?_⟩
  · intro fuel hfuel
    rw [readBytesOn, if_neg (by omega), loopVars_start, transferLoop_mono hfuel hloop]
    rfl
  · cases hends with
    | full hn h =>
        apply ReadsOnce.of_stored (h.le_stream hread) le_rfl hbuf (h.stores hread) h.given h.inside
        exact Or.inl ⟨returned_of_nonneg (by omega), Or.inl rfl, h.no_failure⟩
    | @failed m front hfail h hm =>
        have hnone : ∀ c ∈ front ++ [(⟨m, len - m, -1⟩ : IoStep)], c.result ≠ 0 := by
          refine List.forall_mem_append.mpr ⟨?_, ?_⟩
          · intro c hc
            have hone := h.results c hc
            omega
          · exact List.forall_mem_singleton.mpr (show (-1 : ℤ) ≠ 0 by decide)
        apply ReadsOnce.of_stored (h.le_stream hread) hm.le hbuf
          ((stored_snoc_of_le (by decide)).trans (h.stores hread)) (h.given.snoc hfail)
            (h.within (-1))
        exact Or.inr ⟨rfl, hm.ne, hnone, _, List.mem_append_right _ (List.mem_singleton_self _),
          rfl⟩
    | @ended m front hstop hzero h hm =>
        have hno : ∀ c ∈ front ++ [(⟨m, len - m, 0⟩ : IoStep)], c.result ≠ -1 := by
          refine List.forall_mem_append.mpr ⟨?_, ?_⟩
          · exact h.no_failure
          · exact List.forall_mem_singleton.mpr (show (0 : ℤ) ≠ -1 by decide)
        -- 0 is given at the end of the stream only, and `m` bytes were taken by then
        have hall : m = stream.length := by
          have hle := h.le_stream hread
          rcases hread front (len - m) (by omega) with hr | ⟨-, hr⟩ | ⟨hr, -⟩
          · omega
          · rw [h.count] at hr
            omega
          · omega
        apply ReadsOnce.of_stored (h.le_stream hread) hm.le hbuf
          ((stored_snoc_of_le le_rfl).trans (h.stores hread)) (h.given.snoc hzero) (h.within 0)
        exact Or.inl ⟨returned_of_nonneg le_rfl,
          Or.inr ⟨hall, _, List.mem_append_right _ (List.mem_singleton_self _), rfl⟩, hno⟩

end Read

/-! ## Both loops -/

/-- **Each byte is moved once**: by `write_bytes` from the buffer, by `read_bytes` into it, with
calls that have the results that `write` and `read` give. -/
theorem transfers_once :
    (∀ (write : List IoStep → ℤ → ℤ) (buffer : Bytes) (len : ℕ) (last : ℤ),
        WritesSome write →
      0 < len → len ≤ buffer.length → ∃ r calls, (∀ fuel, len ≤ fuel →
        writeBytesOn write fuel last len = some (r, calls)) ∧
          WritesOnce write buffer len r calls) ∧
    (∀ (read : List IoStep → ℤ → ℤ) (stream buf : Bytes) (len : ℕ) (last : ℤ),
        ReadsStream stream read →
      0 < len → len ≤ buf.length → ∃ r calls, (∀ fuel, len ≤ fuel →
        readBytesOn read fuel last len = some (r, calls)) ∧
          ReadsOnce read stream buf len r calls) := by
  constructor
  · intro write buffer len last hwrite hlen _
    exact writeBytesOn_writes hwrite hlen buffer last
  · intro read stream buf len last hread hlen hbuf
    exact readBytesOn_reads hread hlen hbuf last

/-- A byte at a time, from a buffer of two and from a stream of one into a buffer of two. -/
theorem transfers_once_hi : (∃ r calls, (∀ fuel, 2 ≤ fuel →
      writeBytesOn (fun _ _ => 1) fuel 0 (2 : ℕ) = some (r, calls)) ∧
        WritesOnce (fun _ _ => 1) (ascii "hi") 2 r calls) ∧
    ∃ r calls, (∀ fuel, 2 ≤ fuel →
        readBytesOn (fun calls _ => if taken calls = 0 then 1 else 0)
        fuel 0 (2 : ℕ) = some (r, calls)) ∧
      ReadsOnce (fun calls _ => if taken calls = 0 then 1 else 0) (ascii "h") (ascii "..")
        2 r calls := by
  constructor
  · apply transfers_once.1 (fun _ _ => 1) (ascii "hi") 2 0
    · intro _ count hcount
      exact Or.inr ⟨le_rfl, hcount⟩
    · decide
    · decide
  · apply transfers_once.2 (fun calls _ => if taken calls = 0 then 1 else 0) (ascii "h")
      (ascii "..") 2 0
    · intro calls count hcount
      simp only
      by_cases hnone : taken calls = 0
      · rw [if_pos hnone, hnone]
        exact Or.inr (Or.inr ⟨le_rfl, hcount, le_rfl⟩)
      · rw [if_neg hnone]
        exact Or.inr (Or.inl ⟨rfl, Nat.one_le_iff_ne_zero.mpr hnone⟩)
    · decide
    · decide
