/-
# What a READ gives back

`read_entry` takes any number of bytes but none for an entry, and puts them over what the
caller's variable holds.

* `delivered`, `written`: the bytes that the calls of a function have moved;
* `FS.ReadsWhole`: a successful `READ` gives a whole entry;
* `readsWhole_iff`: it does unless the file is shorter than an entry;
* `not_readsWhole`: an entry that was cut off in writing.
-/
import MessageServer.EntryStore
import MessageServer.FailedConnect

/-! ## Bytes that were moved -/

/-- The bytes that a `read` delivers. -/
def readBy : sysE.Event → Bytes
  | ⟨.read _ _ _, .ok bytes⟩ => bytes
  | _ => []

/-- The bytes that the reads of a function have delivered. -/
def delivered (t : List sysE.Event) : Bytes := t.flatMap readBy

/-- The bytes that a `write` takes. -/
def wroteBy : sysE.Event → Bytes
  | ⟨.write _ _ data, .ok n⟩ => data.take n
  | _ => []

/-- The bytes that the writes of a function have put into the file. -/
def written (t : List sysE.Event) : Bytes := t.flatMap wroteBy

section Transfers

variable {fs fs' : FS} {fd : Location} {t t' : List sysE.Event} {ev : sysE.Event}

@[simp] theorem delivered_nil : delivered [] = [] := rfl

@[simp] theorem delivered_append : delivered (t ++ t') = delivered t ++ delivered t' :=
  List.flatMap_append

@[simp] theorem delivered_cons : delivered (ev :: t) = readBy ev ++ delivered t := List.flatMap_cons

@[simp] theorem written_nil : written [] = [] := rfl

@[simp] theorem written_append : written (t ++ t') = written t ++ written t' := List.flatMap_append

@[simp] theorem written_cons : written (ev :: t) = wroteBy ev ++ written t := List.flatMap_cons

theorem noFault_nil : NoFault [] := by
  intro e he
  cases he

theorem NoFault.cons (hev : ¬ Faulted ev) (h : NoFault t) : NoFault (ev :: t) := by
  intro e he
  rcases List.mem_cons.mp he with rfl | he
  · exact hev
  · exact h e he

theorem NoFault.append (h : NoFault t) (h' : NoFault t') : NoFault (t ++ t') := by
  intro e he
  rcases List.mem_append.mp he with he | he
  · exact h e he
  · exact h' e he

/-- `close` never fails, and moves nothing. -/
theorem exec_close_ret_event {α : Type} {a b : α}
    (h : Exec SysStep (sysClose fd >>= fun _ => (return a : Sys α)) fs t b fs') :
    b = a ∧ NoFault t ∧ delivered t = [] ∧ written t = [] := by
  obtain ⟨x, fs₁, t', hstep, hrest, rfl⟩ := exec_perform_bind_iff.mp h
  obtain ⟨rfl, rfl, rfl⟩ := exec_ret_iff.mp hrest
  refine ⟨rfl, NoFault.cons ?_ noFault_nil, rfl, rfl⟩
  intro hfault
  cases hfault

/-- The loop of `read_bytes` collects what is delivered, and ends well only without a fault. -/
theorem exec_readLoop_delivered (fuel left : ℕ) (got : Bytes) {r : ℤ × Bytes}
    (h : Exec SysStep (readLoop fd fuel left got) fs t r fs') :
    r.2 = got ++ delivered t ∧ (r.1 = genErrAny ∨ (r.1 = r.2.length ∧ NoFault t)) := by
  induction fuel generalizing left got t fs with
  | zero =>
      obtain ⟨rfl, rfl, rfl⟩ := exec_ret_iff.mp h
      exact ⟨(List.append_nil got).symm, Or.inr ⟨rfl, noFault_nil⟩⟩
  | succ fuel ih =>
      rw [readLoop] at h
      obtain ⟨x, fs₁, t', hstep, hrest, rfl⟩ := exec_perform_bind_iff.mp h
      cases x with
      | error err =>
          obtain ⟨rfl, rfl, rfl⟩ := exec_ret_iff.mp hrest
          exact ⟨(List.append_nil got).symm, Or.inl rfl⟩
      | ok bs =>
          have hev : ¬ Faulted ⟨SysOp.read fd got.length left,
              (Except.ok bs : Except Errno Bytes)⟩ := by
            intro hfault
            cases hfault
          dsimp only at hrest
          split at hrest
          · obtain ⟨hgot, hcode⟩ := ih _ _ hrest
            refine ⟨?_, hcode.imp_right fun hok => ⟨hok.1, hok.2.cons hev⟩⟩
            rw [hgot, List.append_assoc]
            rfl
          · obtain ⟨rfl, rfl, rfl⟩ := exec_ret_iff.mp hrest
            refine ⟨?_, Or.inr ⟨rfl, noFault_nil.cons hev⟩⟩
            rw [delivered_cons, delivered_nil, List.append_nil]
            rfl

/-- `read_entry` puts what is delivered over the entry. -/
theorem exec_readEntry_delivered {e : Entry} {r : ℤ × Entry}
    (h : Exec SysStep (readEntry fd e) fs t r fs') :
    r.2 = e.overlay (delivered t) ∧ (r.1 = dbmsErrAny ∨ (r.1 = dbmsSuccess ∧ NoFault t)) := by
  rw [readEntry] at h
  obtain ⟨t₁, b, fs₁, t₂, h₁, h₂, rfl⟩ := exec_bind_iff.mp h
  rw [readBytes, if_neg (by decide)] at h₁
  obtain ⟨hgot, hcode⟩ := exec_readLoop_delivered _ _ _ h₁
  rw [List.nil_append] at hgot
  rw [hgot] at h₂
  rcases hcode with hcode | ⟨hcode, hno⟩
  · rw [if_pos (show b.1 = -1 from hcode)] at h₂
    obtain ⟨rfl, -, hnone, -⟩ := exec_close_ret_event h₂
    rw [delivered_append, hnone, List.append_nil]
    exact ⟨rfl, Or.inl rfl⟩
  · rw [if_neg (by omega)] at h₂
    split at h₂
    · obtain ⟨rfl, -, hnone, -⟩ := exec_close_ret_event h₂
      rw [delivered_append, hnone, List.append_nil]
      exact ⟨rfl, Or.inl rfl⟩
    · obtain ⟨rfl, rfl, rfl⟩ := exec_ret_iff.mp h₂
      rw [List.append_nil]
      exact ⟨rfl, Or.inr ⟨rfl, hno⟩⟩

/-- **`READ`** puts what is delivered over the entry, and succeeds only without a fault. -/
theorem exec_ioOp_read_delivered {e : Entry} (he : e.Typed) {depth : ℕ} {r : ℤ × Entry}
    (h : Exec SysStep (dbIoOpUsrEnt depth e .read) fs t r fs') :
    r.2 = e.overlay (delivered t) ∧ (r.1 < 0 ∨ (r.1 = dbmsSuccess ∧ NoFault t)) := by
  rw [dbIoOpUsrEnt_eq he (by decide)] at h
  obtain ⟨x, fs₁, t', hstep, hrest, rfl⟩ := exec_perform_bind_iff.mp h
  cases x with
  | error err =>
      obtain ⟨rfl, rfl, rfl⟩ := exec_ret_iff.mp hrest
      exact ⟨rfl, Or.inl (open_error_neg err)⟩
  | ok fd =>
      obtain ⟨t₁, r₁, fs₂, t₂, h₁, h₂, rfl⟩ := exec_bind_iff.mp hrest
      obtain ⟨rfl, hclose, hnone, -⟩ := exec_close_ret_event h₂
      rw [transferEntry, if_pos rfl] at h₁
      obtain ⟨hgot, hcode⟩ := exec_readEntry_delivered h₁
      constructor
      · rw [delivered_cons, delivered_append, hnone, List.append_nil, hgot]
        rfl
      · rcases hcode with hcode | ⟨hcode, hno⟩
        · rw [hcode]
          exact Or.inl dbmsErrAny_neg
        · refine Or.inr ⟨hcode, NoFault.cons (fun hfault => ?_) (hno.append hclose)⟩
          cases hfault

end Transfers

/-! ## A whole entry -/

/-- Success means that the file holds a whole entry, and this is the entry that is given. -/
def FS.ReadsWhole (fs : FS) (e : Entry) (r : ℤ × Entry) : Prop :=
  r.1 = dbmsSuccess → sizeofEntry ≤ (fs.content (entryPath e)).length ∧
    r.2 = Entry.ofImage ((fs.content (entryPath e)).take sizeofEntry)

/-- Enough bytes replace everything. -/
theorem overlay_whole {e : Entry} {got : Bytes} (h : got.length = sizeofEntry) :
    e.overlay got = Entry.ofImage got := by
  have hne : got ≠ [] := by
    rintro rfl
    exact absurd h (by decide)
  rw [Entry.overlay, if_neg hne, h, List.drop_eq_nil_of_le (by rw [length_image]), List.append_nil]

/-- **A successful `READ` is a whole entry** exactly when the file does not end within one. -/
theorem readsWhole_iff {fs fs' : FS} {e : Entry} {depth : ℕ} {t : List sysE.Event}
    {r : ℤ × Entry}
    (h : Exec SysStep (dbIoOpUsrEnt depth e .read) fs t r fs') :
    fs.ReadsWhole e r ↔ ¬ e.Typed ∨ ¬ NoFault t ∨ fs.content (entryPath e) = [] ∨
      sizeofEntry ≤ (fs.content (entryPath e)).length := by
  by_cases he : e.Typed
  · obtain ⟨-, houtcome⟩ := exec_ioOp_read he h
    obtain ⟨-, hcode⟩ := exec_ioOp_read_delivered he h
    constructor
    · intro hwhole
      by_cases ht : NoFault t
      · by_cases hnil : fs.content (entryPath e) = []
        · exact Or.inr (Or.inr (Or.inl hnil))
        · exact Or.inr (Or.inr (Or.inr (hwhole (houtcome.ofNoFault ht hnil)).1))
      · exact Or.inr (Or.inl ht)
    · rintro (hno | hfault | hnil | hlong) hok
      · exact absurd he hno
      · rcases hcode with hneg | ⟨-, hno⟩
        · rw [hok] at hneg
          exact absurd hneg (by decide)
        · exact absurd hno hfault
      · exact absurd hnil (houtcome.success hok).1
      · refine ⟨hlong, ?_⟩
        rw [(houtcome.success hok).2]
        apply overlay_whole
        rw [List.length_take, Nat.min_eq_left hlong]
  · -- the type is refused before the file is looked at
    have hrefused : r = (genErrInvArgs, e) := by
      have htype : e.data.type ≠ entTypeUd ∧ e.data.type ≠ entTypePMsg := not_or.mp he
      rw [dbIoOpUsrEnt, if_pos htype] at h
      exact (exec_ret_iff.mp h).2.1
    constructor
    · exact fun _ => Or.inl he
    · intro _ hok
      rw [hrefused] at hok
      exact absurd hok (show genErrInvArgs ≠ dbmsSuccess by decide)

/-! ## An entry that was cut off -/

/-- The first `write` takes one byte, the second fails. -/
def cutOff (n : ℕ) : SysChoice :=
  if n = 1 then { (default : SysChoice) with count := 0 }
  else if n = 2 then { (default : SysChoice) with fail := true } else default

/-- A new record for `a`. -/
def recordA : Entry := ⟨ascii "a", .user ⟨1, 2, 3, 4⟩⟩

/-- What is done when the record of `a` is rewritten and the disk is full after one byte. -/
def cutRun : List sysE.Event × (ℤ × Entry) × FS :=
  (dbIoOpUsrEnt registeredA.depth recordA .modify).run sysStep cutOff registeredA

/-- What is left of the record. -/
def cutA : FS := cutRun.2.2

/-- A `READ` into a variable that holds something else. -/
def readCutA : List sysE.Event × (ℤ × Entry) × FS :=
  (dbIoOpUsrEnt cutA.depth ⟨ascii "a", .user ⟨9, 9, 9, 9⟩⟩ .read).run sysStep
    (fun _ => default) cutA

/-- The read of a record that has been cut. -/
theorem exec_readCutA :
    Exec SysStep (dbIoOpUsrEnt cutA.depth ⟨ascii "a", .user ⟨9, 9, 9, 9⟩⟩ .read) cutA
    readCutA.1 readCutA.2.1 readCutA.2.2 := exec_sysRunAny _ _ _

/-- The condition at this record. -/
theorem readsWhole_iff_cutA :
    cutA.ReadsWhole ⟨ascii "a", .user ⟨9, 9, 9, 9⟩⟩ readCutA.2.1 ↔
    ¬ (Entry.mk (ascii "a") (.user ⟨9, 9, 9, 9⟩)).Typed ∨ ¬ NoFault readCutA.1 ∨
      cutA.content (entryPath ⟨ascii "a", .user ⟨9, 9, 9, 9⟩⟩) = [] ∨
      sizeofEntry ≤ (cutA.content (entryPath ⟨ascii "a", .user ⟨9, 9, 9, 9⟩⟩)).length :=
  readsWhole_iff exec_readCutA

/-- **A record that was cut off is read as an entry**: its byte, over the variable. -/
theorem not_readsWhole :
    ¬ ∀ (fs fs' : FS) (e : Entry) (depth : ℕ) (t : List sysE.Event)
      (r : ℤ × Entry), e.Typed →
      Exec SysStep (dbIoOpUsrEnt depth e .read) fs t r fs' → fs.ReadsWhole e r := by
  intro h
  have hwhole := h _ _ _ _ _ _ (typed_user _ _) exec_readCutA
  have hread : readCutA.2.1 = (dbmsSuccess, ⟨ascii "a", .user ⟨9, 9, 9, 9⟩⟩) ∧
      (cutA.content (entryPath ⟨ascii "a", .user ⟨9, 9, 9, 9⟩⟩)).length = 1 := by
        decide +kernel
  obtain ⟨hlong, -⟩ := hwhole (by rw [hread.1])
  rw [hread.2] at hlong
  exact absurd hlong (by decide)
