/-
# Constants, byte strings and number strings (`util.h`, `util.c`)

The constants of `include/DS-Lab-Assignment/util.h` that the server logic reads,
and the conversions between numbers and strings:

* `strToNum` is `str_to_num` (for the two integer types the server asks for), on
  top of `strtol`;
* `decimal` is what `sprintf` writes for `%u`.

A C string is the list of its bytes without the terminating NUL.
-/
import Mathlib.Data.Nat.Digits.Defs
import Mathlib.Data.Nat.Digits.Lemmas
import Mathlib.Data.List.TakeWhile
import Mathlib.Algebra.Order.Ring.Int
import Mathlib.Tactic.Linarith
import Mathlib.Tactic.NormNum

/-! ## Byte strings -/

/-- A string of bytes: a C string without its terminator, or a piece of memory. -/
abbrev Bytes := List UInt8

/-- The bytes of an ASCII literal. -/
def ascii (s : String) : Bytes := s.toList.map (fun c => c.toNat.toUInt8)

/-- The byte of the path separator `/`. -/
def slash : UInt8 := 47

/-- The C string that starts a piece of memory: the bytes before the first NUL. -/
def cstr (mem : Bytes) : Bytes := mem.takeWhile (· ≠ 0)

/-- `strcpy` into a buffer of `n` bytes, the rest of which is cleared. -/
def padTo (n : ℕ) (s : Bytes) : Bytes := (s ++ List.replicate (n - s.length) 0).take n

/-! ## Sizes and codes of `util.h` -/

/-- `MAX_STR_SIZE` -/
def maxStrSize : ℕ := 512
/-- `MSG_ID_MAX_STR_SIZE` -/
def msgIdMaxStrSize : ℕ := 10
/-- `MAX_MSG_SIZE` -/
def maxMsgSize : ℕ := 256
/-- `MSG_ID_MAX_VALUE` -/
def msgIdMaxValue : UInt32 := 4294967295

/-! ### Operation codes -/

/-- `REGISTER` -/
def opRegister : Bytes := ascii "REGISTER"
/-- `UNREGISTER` -/
def opUnregister : Bytes := ascii "UNREGISTER"
/-- `CONNECT` -/
def opConnect : Bytes := ascii "CONNECT"
/-- `DISCONNECT` -/
def opDisconnect : Bytes := ascii "DISCONNECT"
/-- `SEND` -/
def opSend : Bytes := ascii "SEND"
/-- `SEND_MESSAGE` -/
def opSendMessage : Bytes := ascii "SEND_MESSAGE"
/-- `SEND_MESS_ACK` -/
def opSendMessAck : Bytes := ascii "SEND_MESS_ACK"

/-! ### Return codes -/

/-- `GEN_ERR_ANY` -/
def genErrAny : ℤ := -1
/-- `GEN_ERR_INV_ARGS` -/
def genErrInvArgs : ℤ := -2
/-- `DBMS_SUCCESS` -/
def dbmsSuccess : ℤ := 100
/-- `DBMS_ERR_ANY` -/
def dbmsErrAny : ℤ := -100
/-- `DBMS_ERR_NOT_EXISTS` -/
def dbmsErrNotExists : ℤ := -101
/-- `DBMS_ERR_EXISTS` -/
def dbmsErrExists : ℤ := -102

/-! ### Reply codes (`reply_t.server_error_code`) -/

/-- `SRV_SUCCESS` -/
def srvSuccess : UInt8 := 0
/-- `SRV_ERR_REG_USR_ALREADY_REG` -/
def srvErrRegUsrAlreadyReg : UInt8 := 1
/-- `SRV_ERR_UNREG_USR_NOT_EXISTS` -/
def srvErrUnregUsrNotExists : UInt8 := 1
/-- `SRV_ERR_UNREG_ANY` -/
def srvErrUnregAny : UInt8 := 2
/-- `SRV_ERR_CN_USR_NOT_EXISTS` -/
def srvErrCnUsrNotExists : UInt8 := 1
/-- `SRV_ERR_CN_USR_ALREADY_CN` -/
def srvErrCnUsrAlreadyCn : UInt8 := 2
/-- `SRV_ERR_CN_ANY` -/
def srvErrCnAny : UInt8 := 3
/-- `SRV_ERR_DCN_USR_NOT_EXISTS` -/
def srvErrDcnUsrNotExists : UInt8 := 1
/-- `SRV_ERR_DCN_USR_NOT_CN` -/
def srvErrDcnUsrNotCn : UInt8 := 2
/-- `SRV_ERR_DCN_ANY` -/
def srvErrDcnAny : UInt8 := 3
/-- `SRV_ERR_SEND_USR_NOT_EXISTS` -/
def srvErrSendUsrNotExists : UInt8 := 1
/-- `SRV_ERR_SEND_ANY` -/
def srvErrSendAny : UInt8 := 2

/-- `STATUS_DCN` -/
def statusDcn : UInt8 := 0
/-- `STATUS_CN` -/
def statusCn : UInt8 := 1

/-! ### The schema -/

/-- `DB_DIR` -/
def dbDir : Bytes := ascii "users"
/-- `USERDATA_ENTRY` -/
def userdataEntry : Bytes := ascii "userdata.entry"
/-- `PEND_MSGS_TABLE` -/
def pendMsgsTable : Bytes := ascii "pend_msgs-table"
/-- The suffix that every path format appends to a username. -/
def tableSuffix : Bytes := ascii "-table"

/-! ## Numbers printed with `%u` -/

/-- What `sprintf` writes for an unsigned number with `%u`. -/
def decimal (n : ℕ) : Bytes :=
  if n = 0 then [48] else (Nat.digits 10 n).reverse.map (fun d => (48 + d).toUInt8)

/-- `isdigit` -/
def isDigit (c : UInt8) : Bool := 48 ≤ c && c ≤ 57

/-- `isspace` in the C locale. -/
def isSpace (c : UInt8) : Bool := c = 32 || (9 ≤ c && c ≤ 13)

/-- The value of a string of decimal digits. -/
def digitsValue (ds : Bytes) : ℕ := ds.foldl (fun n d => 10 * n + (d.toNat - 48)) 0

/-- The digit characters of a number are digits, and stand for its digits. -/
theorem digitChar_spec {d : ℕ} (hd : d < 10) :
    isDigit (48 + d).toUInt8 = true ∧ (48 + d).toUInt8.toNat - 48 = d := by
  interval_cases d <;> decide

/-- Every byte of a printed number is a digit. -/
theorem isDigit_of_mem_decimal {n : ℕ} {c : UInt8} (hc : c ∈ decimal n) :
    isDigit c = true := by
  unfold decimal at hc
  split at hc
  · simp only [List.mem_singleton] at hc
    subst hc
    decide
  · simp only [List.mem_map, List.mem_reverse] at hc
    obtain ⟨d, hd, rfl⟩ := hc
    exact (digitChar_spec (Nat.digits_lt_base (by norm_num) hd)).1

/-- A printed number is not empty. -/
theorem decimal_ne_nil (n : ℕ) : decimal n ≠ [] := by
  unfold decimal
  split
  · simp
  · rename_i hn
    simp [Nat.digits_eq_nil_iff_eq_zero, hn]

/-- Reading the digits back, least significant first. -/
theorem digitsValue_map_reverse (ds : List ℕ) (hds : ∀ d ∈ ds, d < 10) :
    digitsValue (ds.reverse.map (fun d => (48 + d).toUInt8)) = Nat.ofDigits 10 ds := by
  induction ds with
  | nil => rfl
  | cons d ds ih =>
      have htail : digitsValue (ds.reverse.map (fun d => (48 + d).toUInt8)) =
          Nat.ofDigits 10 ds := ih (fun e he => hds e (List.mem_cons_of_mem _ he))
      have hhead := (digitChar_spec (hds d List.mem_cons_self)).2
      rw [List.reverse_cons, List.map_append, digitsValue, List.foldl_append, ← digitsValue,
        htail, Nat.ofDigits_cons]
      simp only [List.map_cons, List.map_nil, List.foldl_cons, List.foldl_nil, hhead]
      omega

/-- `MSG_ID_MAX_STR_SIZE` is enough for every id. -/
theorem length_decimal_le (id : UInt32) : (decimal id.toNat).length ≤ msgIdMaxStrSize := by
  have hlt : id.toNat < 10 ^ msgIdMaxStrSize := id.toNat_lt.trans (by decide)
  have hdigits : (Nat.digits 10 id.toNat).length ≤ msgIdMaxStrSize :=
    (Nat.digits_length_le_iff (by norm_num) _).mpr hlt
  unfold decimal
  split
  · decide
  · rw [List.length_map, List.length_reverse]
    exact hdigits

/-- The value of a printed number is the number. -/
theorem digitsValue_decimal (n : ℕ) : digitsValue (decimal n) = n := by
  unfold decimal
  split
  · rename_i hn
    subst hn
    decide
  · rw [digitsValue_map_reverse _ (fun d hd => Nat.digits_lt_base (by norm_num) hd),
      Nat.ofDigits_digits]

/-- Different numbers are printed differently. -/
theorem decimal_injective : Function.Injective decimal := by
  intro m n h
  rw [← digitsValue_decimal m, h, digitsValue_decimal]

/-! ## `str_to_num` -/

/-- `strtol(string, &endptr, 10)` with a 64-bit `long`: `none` when no digits were
found (`endptr == string`), otherwise the value, and whether it was out of range
(then it is clamped and `errno` is `ERANGE`). -/
def strtol (s : Bytes) : Option (ℤ × Bool) :=
  let s₁ := s.dropWhile isSpace
  let neg := s₁.head? = some 45
  let s₂ := if neg ∨ s₁.head? = some 43 then s₁.tail else s₁
  let ds := s₂.takeWhile isDigit
  if ds = [] then none
  else
    let v : ℤ := if neg then -(digitsValue ds : ℤ) else digitsValue ds
    if 2 ^ 63 - 1 < v then some (2 ^ 63 - 1, true)
    else if v < -2 ^ 63 then some (-2 ^ 63, true)
    else some (v, false)

/-- The integer types `str_to_num` is asked for (`INT` and `UINT`). -/
inductive NumType
  | int
  | uint
  deriving DecidableEq, Repr

/-- `str_to_num`: the number written through the pointer, or the error code. -/
def strToNum (string : Bytes) (type : NumType) : Except ℤ ℤ :=
  if string = [] then .error genErrInvArgs
  else
    match strtol string with
    | none => .error genErrAny
    | some (_, true) => .error genErrAny
    | some (v, false) =>
        -- the casts `(int)` and `(unsigned int)` keep the low 32 bits
        match type with
        | .int => .ok (v.bmod (2 ^ 32))
        | .uint => .ok (v % 2 ^ 32)

/-- A digit is neither a space nor a sign. -/
theorem not_space_of_isDigit {c : UInt8} (hc : isDigit c = true) :
    isSpace c = false ∧ c ≠ 45 ∧ c ≠ 43 := by
  simp only [isDigit, Bool.and_eq_true, decide_eq_true_eq, UInt8.le_iff_toNat_le] at hc
  have h48 : (48 : UInt8).toNat = 48 := rfl
  have hc48 : 48 ≤ c.toNat := hc.1
  refine ⟨?_, ?_, ?_⟩
  · simp only [isSpace, Bool.or_eq_false_iff, Bool.and_eq_false_iff, decide_eq_false_iff_not,
      UInt8.le_iff_toNat_le]
    refine ⟨?_, Or.inr ?_⟩
    · rintro rfl
      exact absurd hc48 (by decide)
    · have h13 : (13 : UInt8).toNat = 13 := rfl
      omega
  · rintro rfl
    exact absurd hc48 (by decide)
  · rintro rfl
    exact absurd hc48 (by decide)

/-- Digits alone are read as their value. -/
theorem strtol_digits {ds : Bytes} (hne : ds ≠ []) (hds : ∀ c ∈ ds, isDigit c = true)
    (hlt : digitsValue ds < 2 ^ 63) : strtol ds = some ((digitsValue ds : ℤ), false) := by
  obtain ⟨c, cs, rfl⟩ := List.exists_cons_of_ne_nil hne
  obtain ⟨hsp, hminus, hplus⟩ := not_space_of_isDigit (hds c List.mem_cons_self)
  have hdrop : (c :: cs).dropWhile isSpace = c :: cs := List.dropWhile_cons_of_neg (by simp [hsp])
  have hall : (c :: cs).takeWhile isDigit = c :: cs := List.takeWhile_eq_self_iff.mpr hds
  unfold strtol
  simp only [hdrop, List.head?_cons, Option.some.injEq, hminus, hplus, or_self, if_false, hall, hne]
  rw [if_neg (by omega), if_neg (by omega)]

/-- **The file name of a pending message is read back as its id.** -/
theorem strToNum_decimal (id : UInt32) :
    strToNum (decimal id.toNat) .uint = .ok (id.toNat : ℤ) := by
  have hlt : id.toNat < 2 ^ 32 := id.toNat_lt
  have htol := strtol_digits (decimal_ne_nil id.toNat) (fun c hc => isDigit_of_mem_decimal hc)
    (by rw [digitsValue_decimal]; omega)
  unfold strToNum
  rw [if_neg (decimal_ne_nil _), htol, digitsValue_decimal]
  simp only [Except.ok.injEq]
  omega
