/-
# Isolation of users

What the database holds for a user is found by resolving paths that are built from
the name.  A request for `u` changes nodes at and below the table of `u` only, so it
leaves `v` alone as long as resolving the paths of `v` never meets that table.  Names
may contain `/`, `.` and `..`, so two different names can meet; names without `/`
cannot.

* `locate_eq_of_trail`: a path resolves alike when its trail holds the same;
* `Apart`: the trail of `v` does not meet the table of `u`;
* `users_isolated`: a request for `u` leaves everything stored for `v` as it was.
-/
import MessageServer.Executions

/-! ## Trails -/

/-- The locations that resolving a path looks at, and the one it leads to. -/
def trail (cwd : Location) (path : Bytes) : List Location :=
  (FS.components path).scanl Location.step cwd

theorem enter_congr {fs fs' : FS} {p : Location} (h : fs'.get p = fs.get p) (c : Name) :
    fs'.enter p c = fs.enter p c := by
  unfold FS.enter
  rw [h]

theorem foldlM_enter_eq_of_trail {fs fs' : FS} (cs : List Name) (p : Location)
    (h : ∀ q ∈ cs.scanl Location.step p, fs'.get q = fs.get q) :
    cs.foldlM fs'.enter p = cs.foldlM fs.enter p := by
  induction cs generalizing p with
  | nil => rfl
  | cons c cs ih =>
      rw [List.scanl_cons] at h
      rw [List.foldlM_cons, List.foldlM_cons, enter_congr (h p List.mem_cons_self)]
      cases henter : fs.enter p c with
      | error e => rfl
      | ok q =>
          obtain ⟨-, -, rfl⟩ := FS.enter_eq_ok.mp henter
          exact ih _ fun q hq => h q (List.mem_cons_of_mem _ hq)

/-- A path resolves alike when its trail holds the same. -/
theorem locate_eq_of_trail {fs fs' : FS} {path : Bytes} (hcwd : fs'.cwd = fs.cwd)
    (h : ∀ q ∈ trail fs.cwd path, fs'.get q = fs.get q) : fs'.locate path = fs.locate path := by
  rw [FS.locate, FS.locate, hcwd]
  split
  · rfl
  · exact foldlM_enter_eq_of_trail _ _ h

theorem scanl_append_subset {cs ds : List Name} {p q : Location}
    (h : q ∈ cs.scanl Location.step p) : q ∈ (cs ++ ds).scanl Location.step p := by
  induction cs generalizing p with
  | nil =>
      obtain rfl : q = p := by simpa using h
      cases ds with
      | nil => simp
      | cons d ds => simp [List.scanl_cons]
  | cons c cs ih =>
      rw [List.scanl_cons, List.mem_cons] at h
      rw [List.cons_append, List.scanl_cons, List.mem_cons]
      exact h.imp_right ih

theorem foldl_mem_scanl (cs : List Name) (p : Location) :
    cs.foldl Location.step p ∈ cs.scanl Location.step p := by
  induction cs generalizing p with
  | nil => simp
  | cons c cs ih =>
      rw [List.scanl_cons, List.foldl_cons]
      exact List.mem_cons_of_mem _ (ih _)

/-- A path is on its own trail. -/
theorem lexical_mem_trail (cwd : Location) (path : Bytes) : lexical cwd path ∈ trail cwd path :=
  foldl_mem_scanl _ _

/-- The trail of a longer path. -/
theorem trail_append {cwd : Location} {path : Bytes} {c : Name} {q : Location}
    (h : q ∈ trail cwd path) : q ∈ trail cwd (path ++ slash :: c) := by
  rw [trail, FS.components_append]
  exact scanl_append_subset h

/-! ## What is stored for a user -/

/-- What a path leads to. -/
def FS.lookup (fs : FS) (path : Bytes) : Option Node :=
  match fs.locate path with
  | .error _ => none
  | .ok p => fs.get p

/-- Everything stored for a user: the registration, the userdata record, the table of
pending messages and its messages. -/
structure Holdings where
  table : Option Node
  userdata : Option Node
  pendTable : Option Node
  pending : UInt32 → Option Node

/-- What the database holds for a user. -/
def FS.holdings (fs : FS) (u : Bytes) : Holdings where
  table := fs.lookup (userTablePath u)
  userdata := fs.lookup (userdataPath u)
  pendTable := fs.lookup (pendTablePath u)
  pending := fun id => fs.lookup (pendMsgPath u id)

/-- A path leads to the same when its trail holds the same. -/
theorem lookup_eq_of_trail {fs fs' : FS} {path : Bytes} (hcwd : fs'.cwd = fs.cwd)
    (h : ∀ q ∈ trail fs.cwd path, fs'.get q = fs.get q) : fs'.lookup path = fs.lookup path := by
  unfold FS.lookup
  rw [locate_eq_of_trail hcwd h]
  cases hp : fs.locate path with
  | error e => rfl
  | ok p =>
      obtain rfl := locate_eq_lexical hp
      exact h _ (lexical_mem_trail _ _)

/-- One more name at the end of a path. -/
theorem lookup_append_eq {fs fs' : FS} {path : Bytes} (hpath : path ≠ []) {c : Name}
    (hc : FS.Plain c)
    (hcwd : fs'.cwd = fs.cwd) (h : ∀ q ∈ trail fs.cwd path, fs'.get q = fs.get q)
    (hlast : fs'.get (lexical fs.cwd path ++ [c]) = fs.get (lexical fs.cwd path ++ [c])) :
    fs'.lookup (path ++ slash :: c) = fs.lookup (path ++ slash :: c) := by
  unfold FS.lookup
  rw [FS.locate_append _ hpath hc.noSlash, FS.locate_append _ hpath hc.noSlash,
    locate_eq_of_trail hcwd h]
  cases hp : fs.locate path with
  | error e => rfl
  | ok p =>
      obtain rfl := locate_eq_lexical hp
      simp only [bind, Except.bind]
      rw [enter_congr (h _ (lexical_mem_trail _ _))]
      cases henter : fs.enter (lexical fs.cwd path) c with
      | error e => rfl
      | ok q =>
          obtain ⟨-, -, rfl⟩ := FS.enter_eq_ok.mp henter
          rw [hc.step]
          exact hlast

/-! ## Names apart -/

/-- Resolving the paths of `v` does not meet the table of `u`, nor anything in it. -/
def Apart (cwd : Location) (u v : Bytes) : Prop :=
  ∀ q ∈ trail cwd (pendTablePath v), ¬ lexical cwd (userTablePath u) <+: q

instance (cwd : Location) (u v : Bytes) : Decidable (Apart cwd u v) :=
  inferInstanceAs (Decidable (∀ q ∈ _, ¬ _))

/-- A table's location ends in a name that ends in `-table`. -/
theorem lexical_userTablePath (cwd : Location) (u : Bytes) :
    ∃ p b, lexical cwd (userTablePath u) = p ++ [b ++ tableSuffix] := by
  obtain ⟨path, b, hpath, hb, hne⟩ := userTablePath_split u
  rw [hpath, lexical_append _ _ (plain_append_tableSuffix hb)]
  exact ⟨_, b, rfl⟩

/-- A table does not meet a file that stands in a place it does not meet. -/
theorem not_prefix_append {cwd : Location} {u : Bytes} {p : Location} {c : Name}
    (hp : ¬ lexical cwd (userTablePath u) <+: p) (hc : c.getLast? ≠ tableSuffix.getLast?) :
    ¬ lexical cwd (userTablePath u) <+: p ++ [c] := by
  obtain ⟨p', b, heq⟩ := lexical_userTablePath cwd u
  rw [heq] at hp ⊢
  intro hpre
  rcases List.prefix_concat_iff.mp hpre with hsame | hpre
  · have hlast := (List.append_inj' hsame rfl).2
    refine hc ?_
    rw [← List.singleton_inj.mp hlast]
    exact getLast?_append_tableSuffix b
  · exact hp hpre

theorem getLast?_decimal (n : ℕ) : (decimal n).getLast? ≠ tableSuffix.getLast? := by
  intro heq
  have hmem : (101 : UInt8) ∈ decimal n := List.mem_of_getLast? (heq.trans (by decide))
  exact absurd (isDigit_of_mem_decimal hmem) (by decide)

/-- What changes only inside a table leaves apart users alone. -/
theorem Touches.holdings_eq {fs fs' : FS} {u v : Bytes}
    (h : Touches (lexical fs.cwd (userTablePath u)) fs fs') (hapart : Apart fs.cwd u v) :
    fs'.holdings v = fs.holdings v := by
  have hpend : ∀ q ∈ trail fs.cwd (pendTablePath v), fs'.get q = fs.get q := fun q hq =>
    h.frame q (hapart q hq)
  have htable : ∀ q ∈ trail fs.cwd (userTablePath v), fs'.get q = fs.get q := fun q hq =>
    hpend q (trail_append hq)
  have hfile : ∀ {path : Bytes} {c : Name}, path ≠ [] → FS.Plain c →
      c.getLast? ≠ tableSuffix.getLast? →
      (∀ q ∈ trail fs.cwd path, q ∈ trail fs.cwd (pendTablePath v)) →
      fs'.lookup (path ++ slash :: c) = fs.lookup (path ++ slash :: c) := by
    intro path c hpath hc hlast hsub
    refine lookup_append_eq hpath hc h.cwd (fun q hq => hpend q (hsub q hq)) (h.frame _ ?_)
    exact not_prefix_append (hapart _ (hsub _ (lexical_mem_trail _ _))) hlast
  unfold FS.holdings
  rw [Holdings.mk.injEq]
  refine ⟨lookup_eq_of_trail h.cwd htable, ?_, lookup_eq_of_trail h.cwd hpend, ?_⟩
  · exact hfile (userTablePath_ne_nil v) plain_userdataEntry (by decide) fun q hq =>
      trail_append hq
  · funext id
    exact hfile (pendTablePath_ne_nil v) (plain_decimal _) (getLast?_decimal _) fun q hq => hq

/-- **Isolation of users.**  In every reachable database, a request for `u` leaves
everything stored for `v` as it was, when the two names are apart. -/
theorem users_isolated {fs fs' : FS} (hreach : Reachable fs) {u v : Bytes} {req : Req}
    (hfits : req.Fits) (hu : req.user = some u) (hapart : Apart fs.cwd u v)
    {t : List srvE.Event} (h : Handles untorn fs req t fs') : fs'.holdings v = fs.holdings v :=
  (handles_touches hreach.schema hfits hu h).holdings_eq hapart

/-- The names that a field can carry. -/
def Deliverable (u : Bytes) : Prop := FitsBuf maxMsgSize u ∧ 10 ∉ u

instance (u : Bytes) : Decidable (Deliverable u) := inferInstanceAs (Decidable (_ ∧ _))

/-- The trail of a name without `/`. -/
theorem trail_pendTablePath {cwd : Location} {v : Bytes} (hv : slash ∉ v) :
    trail cwd (pendTablePath v) =
      [cwd, cwd ++ [dbDir], cwd ++ [dbDir, v ++ tableSuffix],
        cwd ++ [dbDir, v ++ tableSuffix, pendMsgsTable]] := by
  have htable := plain_append_tableSuffix hv
  rw [trail, pendTablePath, userTablePath, FS.components_append, FS.components_append,
    FS.components_plain plain_dbDir.noSlash, FS.components_plain htable.noSlash,
    FS.components_plain plain_pendMsgsTable.noSlash]
  simp [List.scanl_cons, plain_dbDir.step, htable.step, plain_pendMsgsTable.step]

theorem lexical_noSlash (cwd : Location) {u : Bytes} (hu : slash ∉ u) :
    lexical cwd (userTablePath u) = cwd ++ [dbDir, u ++ tableSuffix] := by
  have htable := plain_append_tableSuffix hu
  rw [userTablePath, lexical_append _ _ htable, lexical, FS.components_plain plain_dbDir.noSlash,
    List.foldl_cons, List.foldl_nil, plain_dbDir.step, List.append_assoc]
  rfl

/-- Different names without `/` are apart. -/
theorem apart_of_noSlash (cwd : Location) {u v : Bytes} (hu : slash ∉ u) (hv : slash ∉ v)
    (hne : u ≠ v) : Apart cwd u v := by
  intro q hq hpre
  rw [trail_pendTablePath hv] at hq
  rw [lexical_noSlash cwd hu] at hpre
  -- the table of `u` is two names below the working directory
  have hsame : ∀ rest, cwd ++ [dbDir, u ++ tableSuffix] <+:
      cwd ++ dbDir :: (v ++ tableSuffix) :: rest → False := by
    intro rest h
    have hcons := (List.prefix_append_right_inj cwd).mp h
    rw [List.cons_prefix_cons, List.cons_prefix_cons] at hcons
    exact hne (List.append_cancel_right hcons.2.1)
  simp only [List.mem_cons, List.not_mem_nil, or_false] at hq
  rcases hq with rfl | rfl | rfl | rfl
  · exact absurd hpre.length_le (by simp)
  · exact absurd hpre.length_le (by simp)
  · exact hsame [] hpre
  · exact hsame [pendMsgsTable] hpre

/-! ## Names that meet -/

/-- The environment in which everything succeeds. -/
def calm : ℕ → SrvChoice := fun _ => default

theorem calm_calm (n : ℕ) : (calm n).Calm := fun _ => rfl

theorem requestStep_run {fuel : ℕ} {req : Req} {fs : FS} (hfits : req.Fits)
    (h : req.Ends calm fuel fs) : RequestStep untorn fs req (req.run calm fuel fs) :=
  ⟨hfits, _, (handles_run calm_calm h).untorn⟩

/-- The database after the registration of `v`. -/
def registeredV : FS := (Req.register (ascii "v")).run calm 1 emptyDb

theorem registeredV_reachable : Reachable registeredV := by
  have hfits : (Req.register (ascii "v")).Fits := by decide
  have hends : (Req.register (ascii "v")).Ends calm 1 emptyDb := by decide +kernel
  exact ⟨emptyDb, _, emptyDb_fresh, Run.single (requestStep_run hfits hends)⟩

/-- In it a request for `a` leaves the table of `v` as it was. -/
theorem users_isolated_registeredV :
    ((Req.register (ascii "a")).run calm 1 registeredV).holdings (ascii "v") =
      registeredV.holdings (ascii "v") :=
  have hfits : (Req.register (ascii "a")).Fits := by decide
  have hends : (Req.register (ascii "a")).Ends calm 1 registeredV := by decide +kernel
  users_isolated registeredV_reachable hfits rfl
    (apart_of_noSlash _ (by decide) (by decide) (by decide)) (handles_run calm_calm hends).untorn

/-- **Users are not isolated.**  `UNREGISTER ./v` deletes the table of `v`. -/
theorem not_users_isolated :
    ¬ ∀ (fs fs' : FS) (u v : Bytes) (req : Req) (t : List srvE.Event), Reachable fs →
      Deliverable u → Deliverable v → u ≠ v → req.Fits → req.user = some u →
      Handles untorn fs req t fs' → fs'.holdings v = fs.holdings v := by
  intro h
  have hfits : (Req.unregister (ascii "./v")).Fits := by decide
  have hends : (Req.unregister (ascii "./v")).Ends calm 1 registeredV := by decide +kernel
  have heq := h registeredV _ (ascii "./v") (ascii "v") _ _ registeredV_reachable (by decide)
    (by decide) (by decide) hfits rfl (handles_run calm_calm hends).untorn
  have htable := congrArg Holdings.table heq
  revert htable
  decide +kernel
