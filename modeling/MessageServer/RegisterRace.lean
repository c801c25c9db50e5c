/-
# Concurrent registrations

Any number of service threads register one name, each system call an atomic step.

* `RaceInv`: the threads that made the table, found it, or lost it to another thread;
* `register_race_iff`: when there is one winner.
-/
import MessageServer.RegisterSteps

/-! ## Any number of registrations -/

section Race

variable {ι : Type} {fs₀ fs fs' : FS} {u : Bytes} {t : List (ι × callE.Event)}
  {hows : ι → Option RegEnd} {i j : ι}

/-- The failed `mkdir` of thread `i`. -/
def mkdirFailed (u : Bytes) (i : ι) (e : Errno) : ι × callE.Event :=
  (i, ⟨.inl (.mkdir (userTablePath u)), .error e⟩)

/-- What holds at any time: the file system changes only when a thread makes the table,
one thread at most does, and a thread that lost has a failed `mkdir` to show. -/
structure RaceInv (fs₀ : FS) (u : Bytes) (t : List (ι × callE.Event)) (fs : FS)
    (hows : ι → Option RegEnd) : Prop where
  before : (∀ i, hows i ≠ some .made) → fs = fs₀
  after : ∀ i, hows i = some .made → fs₀.FreePlace u ∧ fs.HasTable u
  once : ∀ i j, hows i = some .made → hows j = some .made → i = j
  found : ∀ i, hows i = some .found → ∃ j, hows j = some .made
  lost : fs₀.FreePlace u → ∀ i, hows i = some .lost → ∃ e, mkdirFailed u i e ∈ t
  failed : ∀ i e, mkdirFailed u i e ∈ t → hows i = some .lost

/-! ### Steps that make nothing -/

/-- Where a table is the place is not free. -/
theorem not_freePlace_of_hasTable (h : fs.HasTable u) : ¬ fs.FreePlace u := by
  obtain ⟨L, hL⟩ := h
  rintro ⟨L', hL', hnew⟩
  obtain rfl : L = L' := Except.ok.inj (hL.1.symm.trans hL')
  exact absurd (hnew.symm.trans hL.2) (by simp)

/-- Nothing has happened yet. -/
theorem raceInv_start : RaceInv fs₀ u ([] : List (ι × callE.Event)) fs₀ fun _ => none where
  before _ := rfl
  after _ h := absurd h (by simp)
  once _ _ h := absurd h (by simp)
  found _ h := absurd h (by simp)
  lost _ _ h := absurd h (by simp)
  failed _ _ h := absurd h (by simp)

/-- A failure among the steps with one more. -/
theorem mem_snoc_of_ne {e : Errno} {ev : ι × callE.Event} (hne : mkdirFailed u j e ≠ ev) :
    mkdirFailed u j e ∈ t ++ [ev] ↔ mkdirFailed u j e ∈ t := by
  rw [List.mem_append, List.mem_singleton]
  exact or_iff_left hne

/-- Another step is not this failure. -/
theorem mkdirFailed_ne {e : Errno} {o : SysOp ⊕ SrvOp} {x : callE.Ans o}
    (ho : o ≠ .inl (.mkdir (userTablePath u))) : mkdirFailed u j e ≠ (i, ⟨o, x⟩) := by
  intro heq
  exact ho (congrArg (fun ev => ev.2.1) heq).symm

/-- While no thread has made the table, there is the same place for it. -/
theorem RaceInv.no_made (h : RaceInv fs₀ u t fs hows) (hplace : fs.FreePlace u) :
    (∀ j, hows j ≠ some .made) ∧ fs = fs₀ := by
  have hno : ∀ j, hows j ≠ some .made :=
    fun j hj => not_freePlace_of_hasTable (h.after j hj).2 hplace
  exact ⟨hno, h.before hno⟩

/-- A step that makes no directory keeps the invariant. -/
theorem RaceInv.stay (h : RaceInv fs₀ u t fs hows) {o : SysOp ⊕ SrvOp} {x : callE.Ans o}
    (hfs : fs' = fs ∨ (hows i = some .made ∧ (fs.HasTable u → fs'.HasTable u)))
    (hop : o ≠ .inl (.mkdir (userTablePath u))) :
    RaceInv fs₀ u (t ++ [(i, ⟨o, x⟩)]) fs' hows where
  before hno := by
    rcases hfs with rfl | ⟨hi, -⟩
    · exact h.before hno
    · exact absurd hi (hno i)
  after j hj := by
    obtain ⟨hplace, htable⟩ := h.after j hj
    rcases hfs with rfl | ⟨-, hkeep⟩
    · exact ⟨hplace, htable⟩
    · exact ⟨hplace, hkeep htable⟩
  once := h.once
  found := h.found
  lost hplace j hj := by
    obtain ⟨e, he⟩ := h.lost hplace j hj
    exact ⟨e, List.mem_append_left _ he⟩
  failed j e he := h.failed j e ((mem_snoc_of_ne (mkdirFailed_ne hop)).mp he)

variable [DecidableEq ι]

/-- A thread that has come to an end keeps it; thread `i` comes to its end. -/
theorem update_eq_some {r r' : RegEnd} (hnew : hows i = none) :
    Function.update hows i (some r) j = some r' ↔ (j = i ∧ r = r') ∨ hows j = some r' := by
  rw [update_eq_iff, Option.some_inj]
  refine or_congr_right (and_iff_right_of_imp fun hj => ?_)
  rintro rfl
  rw [hnew] at hj
  cases hj

/-! ### Steps that find, make or lose -/

/-- A thread finds the table that another one made. -/
theorem RaceInv.find (h : RaceInv fs₀ u t fs hows) (hno : ¬ fs₀.HasTable u)
    (hnew : hows i = none)
    (htable : fs.HasTable u) {o : SysOp ⊕ SrvOp} {x : callE.Ans o}
    (hop : o ≠ .inl (.mkdir (userTablePath u))) :
    RaceInv fs₀ u (t ++ [(i, ⟨o, x⟩)]) fs (Function.update hows i (some .found)) := by
  have hmade : ∃ j, hows j = some .made := by
    by_contra hnone
    push Not at hnone
    rw [h.before hnone] at htable
    exact hno htable
  have hends : ∀ j r, r ≠ .found →
      (Function.update hows i (some .found) j = some r ↔ hows j = some r) := by
    intro j r hr
    rw [update_eq_some hnew]
    exact or_iff_right fun heq => hr heq.2.symm
  refine ⟨fun hnone => ?_, fun j hj => ?_, fun j k hj hk => ?_, fun j _ => ?_,
    fun hplace j hj => ?_,
    fun j e he => ?_⟩
  · exact h.before fun j hj => hnone j ((hends j _ (by simp)).mpr hj)
  · exact h.after j ((hends j _ (by simp)).mp hj)
  · exact h.once j k ((hends j _ (by simp)).mp hj) ((hends k _ (by simp)).mp hk)
  · obtain ⟨k, hk⟩ := hmade
    exact ⟨k, (hends k _ (by simp)).mpr hk⟩
  · obtain ⟨e, he⟩ := h.lost hplace j ((hends j _ (by simp)).mp hj)
    exact ⟨e, List.mem_append_left _ he⟩
  · rw [hends j _ (by simp)]
    exact h.failed j e ((mem_snoc_of_ne (mkdirFailed_ne hop)).mp he)

/-- A thread makes the table: no other one has. -/
theorem RaceInv.make (h : RaceInv fs₀ u t fs hows) (hnew : hows i = none)
    (hplace : fs.FreePlace u)
    (htable : fs'.HasTable u) :
    RaceInv fs₀ u (t ++ [(i, ⟨.inl (.mkdir (userTablePath u)), .ok ()⟩)]) fs'
      (Function.update hows i (some .made)) := by
  obtain ⟨hno, rfl⟩ := h.no_made hplace
  have hmade : ∀ j, Function.update hows i (some .made) j = some .made ↔ j = i := by
    intro j
    rw [update_eq_some hnew]
    simp [hno j]
  have hends : ∀ j r, r ≠ .made →
      (Function.update hows i (some .made) j = some r ↔ hows j = some r) := by
    intro j r hr
    rw [update_eq_some hnew]
    exact or_iff_right fun heq => hr heq.2.symm
  refine ⟨fun hnone => ?_, fun _ _ => ⟨hplace, htable⟩, fun j k hj hk => ?_, fun _ _ => ?_,
    fun hplace j hj => ?_, fun j e he => ?_⟩
  · exact absurd ((hmade i).mpr rfl) (hnone i)
  · exact ((hmade j).mp hj).trans ((hmade k).mp hk).symm
  · exact ⟨i, (hmade i).mpr rfl⟩
  · obtain ⟨e, he⟩ := h.lost hplace j ((hends j _ (by simp)).mp hj)
    exact ⟨e, List.mem_append_left _ he⟩
  · rw [hends j _ (by simp)]
    refine h.failed j e ((mem_snoc_of_ne ?_).mp he)
    intro heq
    cases heq

/-- A thread's `opendir` or `mkdir` fails. -/
theorem RaceInv.lose (h : RaceInv fs₀ u t fs hows) (hnew : hows i = none) {o : SysOp ⊕ SrvOp}
    {x : callE.Ans o}
    (hop : (∃ e, (i, (⟨o, x⟩ : callE.Event)) = mkdirFailed u i e) ∨
      (¬ fs₀.FreePlace u ∧ o ≠ .inl (.mkdir (userTablePath u)))) :
    RaceInv fs₀ u (t ++ [(i, ⟨o, x⟩)]) fs (Function.update hows i (some .lost)) := by
  have hends : ∀ j r, r ≠ .lost →
      (Function.update hows i (some .lost) j = some r ↔ hows j = some r) := by
    intro j r hr
    rw [update_eq_some hnew]
    exact or_iff_right fun heq => hr heq.2.symm
  refine ⟨fun hnone => ?_, fun j hj => ?_, fun j k hj hk => ?_, fun j hj => ?_,
    fun hplace j hj => ?_,
    fun j e he => ?_⟩
  · exact h.before fun j hj => hnone j ((hends j _ (by simp)).mpr hj)
  · exact h.after j ((hends j _ (by simp)).mp hj)
  · exact h.once j k ((hends j _ (by simp)).mp hj) ((hends k _ (by simp)).mp hk)
  · obtain ⟨k, hk⟩ := h.found j ((hends j _ (by simp)).mp hj)
    exact ⟨k, (hends k _ (by simp)).mpr hk⟩
  · rcases (update_eq_some hnew).mp hj with ⟨rfl, -⟩ | hj
    · obtain ⟨e, he⟩ := hop.resolve_right fun hno => hno.1 hplace
      exact ⟨e, List.mem_append_right _ (List.mem_singleton.mpr he.symm)⟩
    · obtain ⟨e, he⟩ := h.lost hplace j hj
      exact ⟨e, List.mem_append_left _ he⟩
  · rw [update_eq_some hnew]
    rcases List.mem_append.mp he with he | he
    · exact Or.inr (h.failed j e he)
    · refine Or.inl ⟨?_, rfl⟩
      exact congrArg Prod.fst (List.mem_singleton.mp he)

/-- **The step lemma.** -/
theorem RaceInv.step {ph ph' : RegPhase} {o : SysOp ⊕ SrvOp} {x : callE.Ans o}
    (h : RaceInv fs₀ u t fs hows) (hno : ¬ fs₀.HasTable u) (hi : hows i = ph.how)
    (hmove : RegMove u fs fs' ph o x ph') :
    RaceInv fs₀ u (t ++ [(i, ⟨o, x⟩)]) fs' (Function.update hows i ph'.how) := by
  cases hmove with
  | stay hhow hfs hop =>
      rw [hhow, ← hi, Function.update_eq_self]
      exact h.stay (hi ▸ hfs) hop
  | find l hnew hfs htable =>
      subst hfs
      exact h.find hno (hi.trans hnew) htable (by simp)
  | refuse e hnew hfs htable hplace =>
      subst hfs
      refine h.lose (hi.trans hnew) (Or.inr ⟨fun hfree => ?_, by simp⟩)
      by_cases hmade : ∃ j, hows j = some .made
      · obtain ⟨j, hj⟩ := hmade
        exact htable (h.after j hj).2
      · push Not at hmade
        exact hplace (h.before hmade ▸ hfree)
  | make hnew hplace htable => exact h.make (hi.trans hnew) hplace htable
  | lose e hnew hfs hplace =>
      subst hfs
      exact h.lose (hi.trans hnew) (Or.inl ⟨e, rfl⟩)

/-! ### Runs -/

/-- **The run lemma.** -/
theorem race_inv {depth : ι → ℕ} {ps : ι → Prog callE Unit} (hno : ¬ fs₀.HasTable u)
    (h : Interleave CallStep fs₀ (fun i => registering (depth i) u) t fs ps) :
    ∃ phs : ι → RegPhase, (RaceInv fs₀ u t fs (fun i => (phs i).how) ∧
      ∀ i, reply (eventsOf i t) = (phs i).reply) ∧
        ∀ i, (ps i).Obeys (registration u) (fun ph _ => ∃ how,
            ph = .ended how true) (phs i) := by
  refine h.invariant (D := fun _ => registration u)
    (I := fun t s (phs : ι → RegPhase) => RaceInv fs₀ u t s (fun i => (phs i).how) ∧
      ∀ i, reply (eventsOf i t) = (phs i).reply) ?_ (fun i => obeys_registering (depth i) u)
    ⟨raceInv_start, fun _ => rfl⟩
  rintro t s phs i o x s' ⟨hinv, hreplies⟩ ho hstep
  obtain ⟨hmove, hreply⟩ := regMove ho hstep
  refine ⟨trivial, ?_, fun j => ?_⟩
  · have hhows : (fun j => (Function.update phs i ((registration u).next (phs i) o x) j).how) =
        Function.update (fun j => (phs j).how) i ((registration u).next (phs i) o x).how :=
      funext fun j => Function.apply_update (fun _ => RegPhase.how) phs i _ j
    rw [hhows]
    exact hinv.step hno rfl hmove
  · rw [reply_eventsOf_snoc]
    by_cases hj : i = j
    · subst hj
      rw [if_pos rfl, Function.update_self, hreply, hreplies]
    · rw [if_neg hj, Function.update_of_ne (Ne.symm hj), hreplies]

end Race

/-- **Concurrent registrations of one name** that is not registered: when all threads
have come to their end, exactly one is answered with success and all others that the
user is registered already, if and only if there is one thread only, or there is a place
for the table and no `mkdir` of it comes behind the `mkdir` of another thread. -/
theorem register_race_iff {ι : Type} [DecidableEq ι] [Nonempty ι] (depth : ι → ℕ)
    (fs₀ fs : FS)
    (u : Bytes) (hno : ¬ fs₀.HasTable u) (t : List (ι × callE.Event))
    (ps : ι → Prog callE Unit)
    (h : Interleave CallStep fs₀ (fun i => registering (depth i) u) t fs ps)
    (hended : ∀ i, ps i = .ret ()) :
    OneWinner t ↔ Subsingleton ι ∨ (fs₀.FreePlace u ∧ MkdirsSucceed u t) := by
  obtain ⟨phs, ⟨hinv, hreplies⟩, hobeys⟩ := race_inv hno h
  have hends : ∀ i, ∃ how, phs i = .ended how true := by
    intro i
    have hi := hobeys i
    rw [hended i] at hi
    exact hi
  choose how hphs using hends
  have hhow : ∀ i r, (phs i).how = some r ↔ how i = r := by
    intro i r
    rw [hphs i]
    exact Option.some_inj
  have hreply : ∀ i, reply (eventsOf i t) = some (how i).code := by
    intro i
    rw [hreplies i, hphs i]
    rfl
  have hfound : ∀ i, reply (eventsOf i t) = some srvErrRegUsrAlreadyReg ↔ how i = .found := by
    intro i
    rw [hreply i]
    cases how i <;> decide
  have hsuccess : ∀ i, reply (eventsOf i t) = some srvSuccess ↔ how i ≠ .found := by
    intro i
    rw [hreply i]
    cases how i <;> decide
  constructor
  · rintro ⟨i, hi, hothers⟩
    by_cases hone : Subsingleton ι
    · exact Or.inl hone
    refine Or.inr ?_
    -- another thread has found the table, so one has made it
    obtain ⟨j, hj⟩ : ∃ j, j ≠ i := by
      by_contra hnone
      push Not at hnone
      exact hone ⟨fun a b => (hnone a).trans (hnone b).symm⟩
    obtain ⟨k, hk⟩ := hinv.found j ((hhow j _).mpr ((hfound j).mp (hothers j hj)))
    have hmade := (hhow k _).mp hk
    obtain rfl : k = i := by
      by_contra hne
      have hkfound := (hfound k).mp (hothers k hne)
      rw [hmade] at hkfound
      cases hkfound
    refine ⟨(hinv.after k hk).1, fun l x hmem => ?_⟩
    cases x with
    | ok a => rfl
    | error e =>
        -- a thread whose `mkdir` failed replies with success, too
        have hlost := (hhow l _).mp (hinv.failed l e hmem)
        obtain rfl : l = k := by
          by_contra hne
          have hlfound := (hfound l).mp (hothers l hne)
          rw [hlost] at hlfound
          cases hlfound
        rw [hmade] at hlost
        cases hlost
  · rintro (hone | ⟨hplace, hmkdirs⟩)
    · obtain ⟨i⟩ := ‹Nonempty ι›
      refine ⟨i, (hsuccess i).mpr fun hi => ?_, fun j hj => absurd (hone.elim j i) hj⟩
      obtain ⟨j, hj⟩ := hinv.found i ((hhow i _).mpr hi)
      rw [hone.elim j i] at hj
      have hmade := (hhow i _).mp hj
      rw [hi] at hmade
      cases hmade
    · have hnever : ∀ i, how i ≠ .lost := by
        intro i hi
        obtain ⟨e, he⟩ := hinv.lost hplace i ((hhow i _).mpr hi)
        exact absurd (hmkdirs i (.error e) he) (by simp)
      -- so every thread made the table or found it
      obtain ⟨k, hk⟩ : ∃ k, how k = .made := by
        obtain ⟨i⟩ := ‹Nonempty ι›
        cases hi : how i with
        | made => exact ⟨i, hi⟩
        | lost => exact absurd hi (hnever i)
        | found =>
            obtain ⟨k, hk⟩ := hinv.found i ((hhow i _).mpr hi)
            exact ⟨k, (hhow k _).mp hk⟩
      refine ⟨k, (hsuccess k).mpr (by rw [hk]; simp), fun j hj => (hfound j).mpr ?_⟩
      cases hhowj : how j with
      | made => exact absurd (hinv.once j k ((hhow j _).mpr hhowj) ((hhow k _).mpr hk)) hj
      | lost => exact absurd hhowj (hnever j)
      | found => rfl

/-! ## Two registrations -/

/-- A step of a thread under a choice of the kernel; the network works. -/
def callApply (c : SysChoice) : (o : SysOp ⊕ SrvOp) → FS → callE.Ans o × FS
  | .inl o, fs => sysStep c o fs
  | .inr o, fs => ((srvApply default o ⟨fs, []⟩).1, fs)

/-- Two threads register `a` on an empty database, and take the given turns. -/
def twoRegister (turns : List Bool) :
    List (Bool × callE.Event) × FS × (Bool → Prog callE Unit) :=
  schedule (fun (_ : Unit) => callApply default) (turns.map fun i => (i, ())) emptyDb
    fun _ => registering 0 (ascii "a")

/-- Two `REGISTER`s as an interleaving. -/
theorem interleave_twoRegister (turns : List Bool) :
    Interleave CallStep emptyDb (fun _ => registering 0 (ascii "a")) (twoRegister turns).1
      (twoRegister turns).2.1 (twoRegister turns).2.2 := by
  refine interleave_schedule (fun _ o fs => ?_) _ _ _
  cases o with
  | inl o => exact ⟨default, rfl, rfl⟩
  | inr o => rfl

/-- One thread after the other. -/
def inTurn : List Bool := List.replicate 14 true ++ List.replicate 6 false

/-- Both threads call `opendir` before one of them calls `mkdir`. -/
def bothAtOnce : List Bool :=
  [true, true, false, false] ++ List.replicate 12 true ++ List.replicate 2 false

/-- Both have come to their end. -/
theorem twoRegister_ended {turns : List Bool}
    (h : ∀ i, ((twoRegister turns).2.2 i).finished = true)
    (i : Bool) : (twoRegister turns).2.2 i = .ret () := by
  obtain ⟨⟨⟩, ha⟩ := Prog.eq_ret_of_finished (h i)
  exact ha

/-- The empty database has no table. -/
theorem emptyDb_not_hasTable : ¬ emptyDb.HasTable (ascii "a") := by
  have hloc : emptyDb.locate (userTablePath (ascii "a")) = .ok [dbDir, ascii "a-table"] := by
    decide +kernel
  rintro ⟨L, hL, hdir⟩
  obtain rfl := Except.ok.inj (hloc.symm.trans hL)
  exact absurd hdir (by decide)

/-- The condition at requests in turn. -/
theorem register_race_iff_inTurn : OneWinner (twoRegister inTurn).1 ↔
    Subsingleton Bool ∨ (emptyDb.FreePlace (ascii "a") ∧
      MkdirsSucceed (ascii "a") (twoRegister inTurn).1) :=
  register_race_iff (fun _ => 0) emptyDb _ (ascii "a") emptyDb_not_hasTable _ _
    (interleave_twoRegister inTurn) (twoRegister_ended (by decide +kernel))

/-- **Two winners.**  Both threads find no table; the `mkdir` of the second one fails
with `EEXIST`, and both are answered with success. -/
theorem not_register_race :
    ¬ ∀ (ι : Type) [DecidableEq ι] [Nonempty ι] (fs₀ fs : FS) (u : Bytes)
        (t : List (ι × callE.Event)) (ps : ι → Prog callE Unit), Reachable fs₀ →
          ¬ fs₀.HasTable u →
      Interleave CallStep fs₀ (fun _ => registering 0 u) t fs ps → (∀ i, ps i = .ret ()) →
      OneWinner t := by
  intro h
  have hreach : Reachable emptyDb := ⟨emptyDb, [], emptyDb_fresh, Run.nil⟩
  obtain ⟨i, -, hothers⟩ := h Bool emptyDb _ (ascii "a") _ _ hreach emptyDb_not_hasTable
    (interleave_twoRegister bothAtOnce) (twoRegister_ended (by decide +kernel))
  have hall : ∀ j, reply (eventsOf j (twoRegister bothAtOnce).1) = some srvSuccess := by
    decide +kernel
  have hother := hothers (!i) (by cases i <;> decide)
  rw [hall] at hother
  exact absurd hother (by decide)
