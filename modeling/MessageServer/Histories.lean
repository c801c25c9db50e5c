/-
# Histories

A history is a list of requests, each with what its service thread did.  A run over the
file system is one over the account of a user, as long as the other requests are for
users whose tables lie elsewhere.

* `Handled`: a request is handled to its end, without faults;
* `Turn`: what a request, whosoever it is for, means for the account of a user;
* `run_turns`: the file system refines the account, over whole histories;
* `history`: the history of given requests under given choices.
-/
import MessageServer.Served

/-! ## Histories -/

/-- A request with what its service thread did. -/
abbrev Turned : Type := Req × List srvE.Event

/-- A request that fits the buffers is handled, and no system call fails for a reason
outside the state of the file system. -/
def Handled (fs : FS) (step : Turned) (fs' : FS) : Prop :=
  step.1.Fits ∧ Handles noFaults fs step.1 step.2 fs'

/-- The table of `v` does not meet that of `u`, nor, when `neat`, anything in it. -/
def Elsewhere (neat : Prop) (cwd : Location) (v u : Bytes) : Prop :=
  Apart cwd v u ∧ (neat → Unrelated cwd v u)

/-- What a request means for the account of `u`: it is served, or it is for somebody else
and may at most leave something in the place of the messages. -/
def Turn (neat : Prop) (u : Bytes) (a : Account) (step : Turned) (a' : Account) : Prop :=
  (step.1.user = some u ∧ Served u a step.1 (acts step.2) a') ∨
    (step.1.user ≠ some u ∧ ∃ stray, (neat → stray = a.stray) ∧
      a' = { a with stray := stray })

section Histories

variable {neat : Prop} {u : Bytes} {fs fs' : FS} {a : Account} {step : Turned} {H : List Turned}

/-- A request means one turn of the account. -/
theorem Handled.turn (neat : Prop) (h : Handled fs step fs') (hu : slash ∉ u)
    (hkept : fs.Keeps True u a)
    (hothers : ∀ v, step.1.user = some v → v = u ∨ Elsewhere neat fs.cwd v u) :
    ∃ a', Turn neat u a step a' ∧ fs'.Keeps True u a' := by
  obtain ⟨hfits, hhandles⟩ := h
  by_cases huser : step.1.user = some u
  · obtain ⟨a', hserved, hkept'⟩ := handles_served hkept hu hfits huser hhandles
    exact ⟨a', Or.inl ⟨huser, hserved⟩, hkept'⟩
  have hother : ∀ v, step.1.user = some v → Elsewhere neat fs.cwd v u := by
    intro v hv
    rcases hothers v hv with rfl | helse
    · exact absurd hv huser
    · exact helse
  by_cases hn : neat
  · have hkept' := handles_apart a.stray hkept hfits (fun v hv => (hother v hv).1)
      (fun hs => ⟨hs, fun v hv => (hother v hv).2 hn⟩) hhandles.untorn
    exact ⟨_, Or.inr ⟨huser, a.stray, fun _ => rfl, rfl⟩, hkept'⟩
  · have hkept' := handles_apart true hkept hfits (fun v hv => (hother v hv).1)
      (fun hs => absurd hs (by simp)) hhandles.untorn
    exact ⟨_, Or.inr ⟨huser, true, fun h => absurd h hn, rfl⟩, hkept'⟩

/-- The parts of an account of which nothing but messages is left stay so. -/
theorem Drained.stray {l : List Act} {a' : Account} (h : Drained a l a') : a'.stray = a.stray := by
  induction h with
  | stop _ => rfl
  | sent _ _ _ _ _ _ _ _ ih => exact ih
  | failed _ _ _ _ _ _ _ => rfl

theorem Served.stray {req : Req} {l : List Act} {a' : Account} (h : Served u a req l a')
    (hstray : a.stray = false) : a'.stray = false := by
  cases h with
  | registered junk hnone => rfl
  | unregistered result hresult hsome => rfl
  | connected junk hconnecting hdraining =>
      have h₁ : ∀ {port l a₁}, Connecting port a l a₁ → a₁.stray = false := by
        intro port l a₁ hc
        cases hc with
        | accepted => exact hstray
        | _ => exact hstray
      cases hdraining with
      | unknown _ _ => exact h₁ hconnecting
      | known _ _ hdrained => exact hdrained.stray.trans (h₁ hconnecting)
  | accepted junk ud ud' code hud hpassing hshelving hfinishing =>
      have h₁ : ∀ {b : Account} {m ud ud' l a₁}, b.stray = false →
          Passing b ud m l ud' a₁ →
          a₁.stray = false := by
        intro b m ud ud' l a₁ hb hp
        cases hp with
        | failed => exact hb
        | _ => exact hb
      have h₂ := h₁ (b := a.write ud.next) hstray hpassing
      cases hshelving with
      | stored _ _ => exact h₂
      | _ => exact h₂
  | disconnected junk ud hud hstatus => exact hstray
  | _ => exact hstray

theorem Turn.stray {a' : Account} (h : Turn neat u a step a') (hn : neat)
    (hstray : a.stray = false) :
    a'.stray = false := by
  rcases h with ⟨-, hserved⟩ | ⟨-, stray, hsame, rfl⟩
  · exact hserved.stray hstray
  · exact (hsame hn).trans hstray

/-- **Histories on the file system are histories of the account.** -/
theorem run_turns {R : FS → Turned → FS → Prop} (hu : slash ∉ u) (hkept : fs.Keeps True u a)
    (hR : ∀ fs step fs', R fs step fs' → Handled fs step fs' ∧
      ∀ v, step.1.user = some v → v = u ∨ Elsewhere neat fs.cwd v u)
    (h : Run R fs H fs') : ∃ a', Run (Turn neat u) a H a' ∧ fs'.Keeps True u a' := by
  induction h with
  | nil => exact ⟨a, Run.nil, hkept⟩
  | snoc _ hstep ih =>
      obtain ⟨a₁, hrun, hkept₁⟩ := ih
      obtain ⟨hhandled, hothers⟩ := hR _ _ _ hstep
      obtain ⟨a', hturn, hkept'⟩ := hhandled.turn neat hu hkept₁ hothers
      exact ⟨a', hrun.snoc hturn, hkept'⟩

end Histories

/-! ## Given requests -/

/-- Requests, each with the choices of the environment in which it is handled. -/
abbrev Script : Type := List (Req × (ℕ → SrvChoice))

/-- The history of a script, and the database that it leads to. -/
def history (fuel : ℕ) : Script → FS → List Turned × FS
  | [], fs => ([], fs)
  | (req, env) :: script, fs =>
      let rest := history fuel script (req.run env fuel fs)
      ((req, ((req.body fuel).run srvApply env ⟨fs, []⟩).1) :: rest.1, rest.2)

theorem history_requests (fuel : ℕ) (script : Script) (fs : FS) :
    (history fuel script fs).1.map Prod.fst = script.map Prod.fst := by
  induction script generalizing fs with
  | nil => rfl
  | cons c script ih => exact congrArg (c.1 :: ·) (ih _)

/-- Every request of the script fits the buffers and is handled to its end. -/
def Plays (fuel : ℕ) : Script → FS → Prop
  | [], _ => True
  | (req, env) :: script, fs => req.Fits ∧ req.Ends env fuel fs ∧
      Plays fuel script (req.run env fuel fs)

instance decidablePlays (fuel : ℕ) : (script : Script) → (fs : FS) →
    Decidable (Plays fuel script fs)
  | [], _ => isTrue trivial
  | (req, env) :: script, fs =>
      have := decidablePlays fuel script (req.run env fuel fs)
      inferInstanceAs (Decidable (req.Fits ∧ req.Ends env fuel fs ∧
        Plays fuel script (req.run env fuel fs)))

/-- A script that plays is a run. -/
theorem run_history {T : DbCall → List sysE.Event → Prop} {fuel : ℕ}
    {script : Script} {fs : FS}
    (hT : ∀ c ∈ script, ∀ n (call : DbCall) (fs : FS),
      T call ((call.prog fs.depth).run sysStep (c.2 n).sys fs).1) (h : Plays fuel script fs) :
    Run (fun fs (step : Turned) fs' => step.1.Fits ∧ Handles T fs step.1 step.2 fs') fs
      (history fuel script fs).1 (history fuel script fs).2 := by
  induction script generalizing fs with
  | nil => exact Run.nil
  | cons c script ih =>
      obtain ⟨hfits, hends, hrest⟩ := h
      have hfirst := handles_runWith (hT c List.mem_cons_self) hends
      exact (Run.single (a := (c.1, _)) ⟨hfits, hfirst⟩).append
        (ih (fun c hc => hT c (List.mem_cons_of_mem _ hc)) hrest)

/-- A script without faults. -/
def calmly (reqs : List Req) : Script := reqs.map fun req => (req, calm)

theorem run_calmly {fuel : ℕ} {reqs : List Req} {fs : FS} (h : Plays fuel (calmly reqs) fs) :
    Run Handled fs (history fuel (calmly reqs) fs).1 (history fuel (calmly reqs) fs).2 := by
  refine run_history (fun c hc n call fs => ?_) h
  obtain ⟨req, -, rfl⟩ := List.mem_map.mp hc
  exact (exec_sysRun (calm n).sys (calm_calm n) (call.prog fs.depth) fs).2
