/-
# The strings that `str_to_num` takes for numbers

`strtol` reads the digits that a string starts with, and `str_to_num` casts what it gives.

* `IsNumeral`, `NumType.Represents`: the numerals, and the values of the two integer types;
* `isNumeral_iff`: a numeral is a string that `strtol` reads up to its end;
* `strToNum_accepts_iff`: exactly the numerals of the type are accepted, unless text follows the
  digits, or the value fits `long` and not the type.
-/
import MessageServer.Util

/-! ## Numerals -/

/-- Blanks, perhaps a sign, and digits up to the end, with the value `v`. -/
def IsNumeral (s : Bytes) (v : ℤ) : Prop :=
  ∃ blanks sign ds : Bytes, s = blanks ++ (sign ++ ds) ∧
    (∀ c ∈ blanks, isSpace c = true) ∧
    (sign = [] ∨ sign = [43] ∨ sign = [45]) ∧ ds ≠ [] ∧
      (∀ c ∈ ds, isDigit c = true) ∧
    v = if sign = [45] then -(digitsValue ds : ℤ) else digitsValue ds

/-- The values of the type. -/
def NumType.Represents : NumType → ℤ → Prop
  | .int, v => -2 ^ 31 ≤ v ∧ v < 2 ^ 31
  | .uint, v => 0 ≤ v ∧ v < 2 ^ 32

/-- `str_to_num`, with the number at the target before and after. -/
def strToNumAt (string : Bytes) (type : NumType) (target : ℤ) : ℤ × ℤ :=
  match strToNum string type with
  | .ok number => (0, number)
  | .error code => (code, target)

/-- A numeral of the type is accepted and stored; any other string is refused, and the target is
left alone. -/
structure AcceptsNumeral (s : Bytes) (type : NumType) (target : ℤ) : Prop where
  accepted : (strToNumAt s type target).1 = 0 ↔ ∃ v, IsNumeral s v ∧ type.Represents v
  stored : ∀ v, IsNumeral s v → type.Represents v → (strToNumAt s type target).2 = v
  refused : (¬ ∃ v, IsNumeral s v ∧ type.Represents v) →
    (strToNumAt s type target).1 < 0 ∧ (strToNumAt s type target).2 = target

/-! ## What `strtol` reads -/

/-- What stands behind the blanks and the sign. -/
def behindSign (s : Bytes) : Bytes :=
  let s₁ := s.dropWhile isSpace
  if s₁.head? = some 45 ∨ s₁.head? = some 43 then s₁.tail else s₁

/-- The digits behind the blanks and the sign. -/
def leadingDigits (s : Bytes) : Bytes := (behindSign s).takeWhile isDigit

/-- Their value. -/
def leadingValue (s : Bytes) : ℤ :=
  if (s.dropWhile isSpace).head? = some 45 then -(digitsValue (leadingDigits s) : ℤ)
  else digitsValue (leadingDigits s)

/-- What stands behind the digits. -/
def behindDigits (s : Bytes) : Bytes := (behindSign s).dropWhile isDigit

/-- The values of a 64-bit `long`. -/
def FitsLong (v : ℤ) : Prop := -2 ^ 63 ≤ v ∧ v ≤ 2 ^ 63 - 1

/-! ### The three results -/

section Strtol

variable {s : Bytes} {v : ℤ} {type : NumType}

theorem strtol_none (h : leadingDigits s = []) : strtol s = none := if_pos h

theorem strtol_out (h : leadingDigits s ≠ []) (hv : ¬ FitsLong (leadingValue s)) :
    ∃ w, strtol s = some (w, true) := by
  have heq : strtol s = if 2 ^ 63 - 1 < leadingValue s then some (2 ^ 63 - 1, true)
      else if leadingValue s < -2 ^ 63 then some (-2 ^ 63, true)
        else some (leadingValue s, false) :=
    if_neg h
  rw [heq]
  by_cases hlarge : 2 ^ 63 - 1 < leadingValue s
  · exact ⟨_, if_pos hlarge⟩
  · have hsmall : leadingValue s < -2 ^ 63 := by
      unfold FitsLong at hv
      omega
    rw [if_neg hlarge]
    exact ⟨_, if_pos hsmall⟩

theorem strtol_in (h : leadingDigits s ≠ []) (hv : FitsLong (leadingValue s)) :
    strtol s = some (leadingValue s, false) := by
  have heq : strtol s = if 2 ^ 63 - 1 < leadingValue s then some (2 ^ 63 - 1, true)
      else if leadingValue s < -2 ^ 63 then some (-2 ^ 63, true)
        else some (leadingValue s, false) :=
    if_neg h
  unfold FitsLong at hv
  rw [heq, if_neg (by omega), if_neg (by omega)]

/-- What a string with blanks, a sign and digits in front of `rest` is read as. -/
theorem behindSign_append (rest : Bytes) {blanks sign : Bytes}
    (hblanks : ∀ c ∈ blanks, isSpace c = true)
    (hsign : sign = [] ∨ sign = [43] ∨ sign = [45]) {d : UInt8} (hd : isDigit d = true) :
    behindSign (blanks ++ (sign ++ d :: rest)) = d :: rest ∧
      ((blanks ++ (sign ++ d :: rest)).dropWhile isSpace).head? = (sign ++ d :: rest).head? := by
  obtain ⟨hspace, hminus, hplus⟩ := not_space_of_isDigit hd
  have hdrop : (blanks ++ (sign ++ d :: rest)).dropWhile isSpace = sign ++ d :: rest := by
    rw [List.dropWhile_append_of_pos hblanks]
    rcases hsign with rfl | rfl | rfl
    · exact List.dropWhile_cons_of_neg (by simp [hspace])
    · exact List.dropWhile_cons_of_neg (by decide)
    · exact List.dropWhile_cons_of_neg (by decide)
  refine ⟨?_, by rw [hdrop]⟩
  unfold behindSign
  simp only [hdrop]
  rcases hsign with rfl | rfl | rfl
  · rw [if_neg (by simp [hminus, hplus])]
    rfl
  · exact if_pos (Or.inr rfl)
  · exact if_pos (Or.inl rfl)

/-! ### Numerals -/

/-- **A numeral** is read up to its end. -/
theorem isNumeral_iff :
    IsNumeral s v ↔ leadingDigits s ≠ [] ∧ behindDigits s = [] ∧ v = leadingValue s := by
  constructor
  · rintro ⟨blanks, sign, ds, rfl, hblanks, hsign, hne, hds, rfl⟩
    obtain ⟨d, rest, rfl⟩ := List.exists_cons_of_ne_nil hne
    obtain ⟨hbehind, hhead⟩ := behindSign_append rest hblanks hsign (hds d List.mem_cons_self)
    have hlead : leadingDigits (blanks ++ (sign ++ d :: rest)) = d :: rest := by
      rw [leadingDigits, hbehind]
      exact List.takeWhile_eq_self_iff.mpr hds
    refine ⟨by rw [hlead]; exact hne, ?_, ?_⟩
    · rw [behindDigits, hbehind]
      exact List.dropWhile_eq_nil_iff.mpr hds
    · obtain ⟨-, hminus, -⟩ := not_space_of_isDigit (hds d List.mem_cons_self)
      rw [leadingValue, hlead, hhead]
      rcases hsign with rfl | rfl | rfl
      · rw [if_neg (by simp), if_neg (by simp [hminus])]
      · rw [if_neg (by decide), if_neg (by simp)]
      · rw [if_pos rfl, if_pos (show List.head? ([45] ++ d :: rest) = some 45 from rfl)]
  · rintro ⟨hne, hend, rfl⟩
    -- conversely the string splits into its blanks, its sign and its digits
    have hdigits : behindSign s = leadingDigits s := by
      have hsplit := List.takeWhile_append_dropWhile (p := isDigit) (l := behindSign s)
      rw [show (behindSign s).dropWhile isDigit = [] from hend, List.append_nil] at hsplit
      exact hsplit.symm
    have hall : ∀ c ∈ leadingDigits s, isDigit c = true := fun c hc => List.mem_takeWhile_imp hc
    have hblanks : ∀ c ∈ s.takeWhile isSpace, isSpace c = true :=
      fun c hc => List.mem_takeWhile_imp hc
    have hs : s = s.takeWhile isSpace ++ s.dropWhile isSpace := List.takeWhile_append_dropWhile.symm
    unfold leadingValue
    unfold behindSign at hdigits
    simp only at hdigits
    cases hrest : s.dropWhile isSpace with
    | nil =>
        rw [hrest] at hdigits
        exact absurd hdigits.symm hne
    | cons c cs =>
        rw [hrest, List.head?_cons] at hdigits
        rw [hrest] at hs
        rw [List.head?_cons]
        by_cases hminus : c = 45
        · rw [if_pos (Or.inl (congrArg some hminus)), List.tail_cons] at hdigits
          rw [if_pos (congrArg some hminus)]
          refine ⟨_, [45], _, ?_, hblanks, Or.inr (Or.inr rfl), hne, hall, (if_pos rfl).symm⟩
          rw [← hdigits, ← hminus]
          exact hs
        · rw [if_neg (by simp [hminus])]
          by_cases hplus : c = 43
          · rw [if_pos (Or.inr (congrArg some hplus)), List.tail_cons] at hdigits
            refine ⟨_, [43], _, ?_, hblanks, Or.inr (Or.inl rfl), hne, hall,
              (if_neg (by decide)).symm⟩
            rw [← hdigits, ← hplus]
            exact hs
          · rw [if_neg (by simp [hminus, hplus])] at hdigits
            refine ⟨_, [], _, ?_, hblanks, Or.inl rfl, hne, hall, (if_neg (by decide)).symm⟩
            rw [← hdigits]
            exact hs

/-! ### Numbers of a type -/

/-- Every value of the types fits `long`. -/
theorem NumType.Represents.fitsLong (h : type.Represents v) : FitsLong v := by
  cases type with
  | int =>
      have h' : -2 ^ 31 ≤ v ∧ v < 2 ^ 31 := h
      unfold FitsLong
      omega
  | uint =>
      have h' : 0 ≤ v ∧ v < 2 ^ 32 := h
      unfold FitsLong
      omega

/-- Casting a value of the type does not change it. -/
theorem strToNum_represented (hne : leadingDigits s ≠ []) (h : type.Represents (leadingValue s)) :
    strToNum s type = .ok (leadingValue s) := by
  have hnil : s ≠ [] := by
    rintro rfl
    exact hne rfl
  rw [strToNum, if_neg hnil, strtol_in hne h.fitsLong]
  cases type with
  | int =>
      have h' : -2 ^ 31 ≤ leadingValue s ∧ leadingValue s < 2 ^ 31 := h
      refine congrArg Except.ok (Int.bmod_eq_of_le ?_ ?_)
      · omega
      · omega
  | uint =>
      have h' : 0 ≤ leadingValue s ∧ leadingValue s < 2 ^ 32 := h
      exact congrArg Except.ok (Int.emod_eq_of_lt h'.1 h'.2)

/-- A string whose digits give a `long` is accepted. -/
theorem strToNum_ok (type : NumType) (hne : leadingDigits s ≠ [])
    (h : FitsLong (leadingValue s)) :
    ∃ number, strToNum s type = .ok number := by
  have hnil : s ≠ [] := by
    rintro rfl
    exact hne rfl
  rw [strToNum, if_neg hnil, strtol_in hne h]
  cases type with
  | int => exact ⟨_, rfl⟩
  | uint => exact ⟨_, rfl⟩

/-- Any other string is refused. -/
theorem strToNum_error (type : NumType)
    (h : leadingDigits s = [] ∨ ¬ FitsLong (leadingValue s)) :
    ∃ code < 0, strToNum s type = .error code := by
  rw [strToNum]
  split
  · exact ⟨genErrInvArgs, by decide, rfl⟩
  have hany : genErrAny < 0 := by decide
  by_cases hne : leadingDigits s = []
  · rw [strtol_none hne]
    exact ⟨genErrAny, hany, rfl⟩
  · obtain ⟨w, hw⟩ := strtol_out hne (h.resolve_left hne)
    rw [hw]
    exact ⟨genErrAny, hany, rfl⟩

/-- A numeral of the type is dealt with as it should be. -/
theorem acceptsNumeral_of_numeral (hne : leadingDigits s ≠ []) (hend : behindDigits s = [])
    (hrep : type.Represents (leadingValue s)) (target : ℤ) : AcceptsNumeral s type target := by
  have hat : strToNumAt s type target = (0, leadingValue s) := by
    rw [strToNumAt, strToNum_represented hne hrep]
  have hsome : ∃ v, IsNumeral s v ∧ type.Represents v :=
    ⟨_, isNumeral_iff.mpr ⟨hne, hend, rfl⟩, hrep⟩
  constructor
  · rw [hat]
    exact iff_of_true rfl hsome
  · intro v hv _
    obtain ⟨-, -, rfl⟩ := isNumeral_iff.mp hv
    rw [hat]
  · exact fun hno => absurd hsome hno

/-- A string that is no numeral of the type, and is refused. -/
theorem acceptsNumeral_of_refused {target : ℤ}
    (hnum : ¬ (leadingDigits s ≠ [] ∧ behindDigits s = [] ∧
        type.Represents (leadingValue s)))
    (hout : leadingDigits s = [] ∨ ¬ FitsLong (leadingValue s)) :
    AcceptsNumeral s type target := by
  obtain ⟨code, hneg, herr⟩ := strToNum_error type hout
  have hat : strToNumAt s type target = (code, target) := by rw [strToNumAt, herr]
  have hnone : ¬ ∃ v, IsNumeral s v ∧ type.Represents v := by
    rintro ⟨v, hv, hrep⟩
    obtain ⟨hne, hend, rfl⟩ := isNumeral_iff.mp hv
    exact hnum ⟨hne, hend, hrep⟩
  constructor
  · rw [hat]
    exact iff_of_false hneg.ne hnone
  · exact fun v hv hrep => absurd ⟨v, hv, hrep⟩ hnone
  · intro _
    rw [hat]
    exact ⟨hneg, rfl⟩

end Strtol

/-- **`str_to_num` accepts exactly the numerals of the type**, unless digits that fit `long` are
followed by something else, or their value is none of the type.  The file name of a pending
message is read back as its id. -/
theorem strToNum_accepts_iff (s : Bytes) (type : NumType) (target : ℤ) (id : UInt32) :
    (AcceptsNumeral s type target ↔ leadingDigits s = [] ∨ ¬ FitsLong (leadingValue s) ∨
      (behindDigits s = [] ∧ type.Represents (leadingValue s))) ∧
      strToNumAt (decimal id.toNat) .uint target = (0, (id.toNat : ℤ)) := by
  constructor
  · constructor
    · intro h
      by_cases hne : leadingDigits s = []
      · exact Or.inl hne
      by_cases hlong : FitsLong (leadingValue s)
      · -- the string is accepted, so it has to be a numeral
        obtain ⟨number, hok⟩ := strToNum_ok type hne hlong
        have hcode : (strToNumAt s type target).1 = 0 := by rw [strToNumAt, hok]
        obtain ⟨v, hv, hrep⟩ := h.accepted.mp hcode
        obtain ⟨-, hend, rfl⟩ := isNumeral_iff.mp hv
        exact Or.inr (Or.inr ⟨hend, hrep⟩)
      · exact Or.inr (Or.inl hlong)
    · intro h
      by_cases hnum : leadingDigits s ≠ [] ∧ behindDigits s = [] ∧
        type.Represents (leadingValue s)
      · obtain ⟨hne, hend, hrep⟩ := hnum
        exact acceptsNumeral_of_numeral hne hend hrep target
      · apply acceptsNumeral_of_refused hnum
        rcases h with hnil | hlong | ⟨hend, hrep⟩
        · exact Or.inl hnil
        · exact Or.inr hlong
        · exact Or.inl (by_contra fun hne => hnum ⟨hne, hend, hrep⟩)
  · rw [strToNumAt, strToNum_decimal]

/-- **Not only numerals.**  Text behind the digits is ignored. -/
theorem not_strToNum_accepts :
    ¬ ∀ (s : Bytes) (type : NumType) (target : ℤ), AcceptsNumeral s type target := by
  intro h
  have haccepted := (h (ascii "80x") .int 0).accepted
  obtain ⟨v, hv, -⟩ := haccepted.mp (by decide)
  obtain ⟨-, hend, -⟩ := isNumeral_iff.mp hv
  exact absurd hend (by decide)
