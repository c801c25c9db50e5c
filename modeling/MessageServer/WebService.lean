/-
# The web service (`serverWS.py`)

A client gives the text of a message to the web service, and sends what comes back.  The service
replaces what matches a regular expression; the model goes over the text once.

* `words`: the words of a text;
* `Spaced`: no two whitespace characters stand side by side;
* `remove_spec`: every run of whitespace but a single character becomes one space, so that the text
  is spaced and keeps its words, and a text that is spaced comes back as it is. -/
import MessageServer.Client

/-- The text begins with whitespace. -/
def startsBlank (st : PyStr) : Bool := st.head?.any isWhitespace

/-- No two whitespace characters stand side by side. -/
def Spaced (st : PyStr) : Prop :=
  st.IsChain fun c d => ¬ (isWhitespace c = true ∧ isWhitespace d = true)

/-- The words of a text: what stands between whitespace. -/
def words (st : PyStr) : List PyStr := (st.splitOnP isWhitespace).filter fun w => !w.isEmpty

section Texts

variable {st st' : PyStr} {c : Char}

theorem spaced_nil : Spaced [] := List.isChain_nil

theorem spaced_cons : Spaced (c :: st) ↔ (isWhitespace c = true → startsBlank st = false) ∧
    Spaced st := by
  cases st with
  | nil => simp [Spaced, startsBlank]
  | cons d st =>
      rw [Spaced, List.isChain_cons_cons]
      refine and_congr_left fun _ => ?_
      rw [not_and, Bool.not_eq_true]
      rfl

/-- Whitespace parts the words before it from those behind it. -/
theorem words_append_cons (st st' : PyStr) (hc : isWhitespace c = true) :
    words (st ++ c :: st') = words st ++ words st' := by
  rw [words, List.splitOnP_append_cons st st' hc, List.filter_append]
  rfl

theorem words_cons (hc : isWhitespace c = true) : words (c :: st) = words st :=
  words_append_cons [] st hc

end Texts

/-! ## One character more -/

section Loop

variable {st : PyStr} {c : Char}

theorem removeLoop_inMatch (hc : isWhitespace c = true) :
    Project.removeLoop true (c :: st) = Project.removeLoop true st := by
  rw [Project.removeLoop, if_pos hc, if_pos rfl]

theorem removeLoop_match (hc : isWhitespace c = true) (hst : startsBlank st = true) :
    Project.removeLoop false (c :: st) = ' ' :: Project.removeLoop true st := by
  rw [Project.removeLoop, if_pos hc, if_neg Bool.false_ne_true]
  exact if_pos hst

theorem removeLoop_single (hc : isWhitespace c = true) (hst : startsBlank st = false) :
    Project.removeLoop false (c :: st) = c :: Project.removeLoop false st := by
  rw [Project.removeLoop, if_pos hc, if_neg Bool.false_ne_true]
  exact if_neg (Bool.not_eq_true _ ▸ hst)

theorem removeLoop_other (hc : isWhitespace c = false) (inMatch : Bool) :
    Project.removeLoop inMatch (c :: st) = c :: Project.removeLoop false st := by
  rw [Project.removeLoop, if_neg (by simp [hc])]

/-- A match goes on to the end of the whitespace. -/
theorem startsBlank_removeLoop_true (st : PyStr) :
    startsBlank (Project.removeLoop true st) = false := by
  induction st with
  | nil => rfl
  | cons c st ih =>
      cases hc : isWhitespace c with
      | true =>
          rw [removeLoop_inMatch hc]
          exact ih
      | false =>
          rw [removeLoop_other hc]
          exact hc

theorem startsBlank_removeLoop_false (st : PyStr) :
    startsBlank (Project.removeLoop false st) = startsBlank st := by
  cases st with
  | nil => rfl
  | cons c st =>
      cases hc : isWhitespace c with
      | true =>
          have hleft : startsBlank (c :: st) = true := hc
          rw [hleft]
          cases hst : startsBlank st with
          | true =>
              rw [removeLoop_match hc hst]
              rfl
          | false =>
              rw [removeLoop_single hc hst]
              exact hc
      | false =>
          rw [removeLoop_other hc]
          rfl

/-- The loop leaves no two whitespace characters side by side. -/
theorem spaced_removeLoop (inMatch : Bool) (st : PyStr) :
    Spaced (Project.removeLoop inMatch st) := by
  induction st generalizing inMatch with
  | nil => exact spaced_nil
  | cons c st ih =>
      cases hc : isWhitespace c with
      | false =>
          rw [removeLoop_other hc, spaced_cons]
          exact ⟨fun hblank => absurd (hc.symm.trans hblank) Bool.false_ne_true, ih false⟩
      | true =>
          cases inMatch with
          | true =>
              rw [removeLoop_inMatch hc]
              exact ih true
          | false =>
              cases hst : startsBlank st with
              | true =>
                  rw [removeLoop_match hc hst, spaced_cons]
                  exact ⟨fun _ => startsBlank_removeLoop_true st, ih true⟩
              | false =>
                  rw [removeLoop_single hc hst, spaced_cons]
                  exact ⟨fun _ => (startsBlank_removeLoop_false st).trans hst, ih false⟩

/-- The loop keeps the words, also those that have begun before it; by induction on the text, in a
match and outside. -/
theorem words_removeLoop (st : PyStr) :
    (∀ before, words (before ++ Project.removeLoop false st) = words (before ++ st)) ∧
      words (Project.removeLoop true st) = words st := by
  induction st with
  | nil => exact ⟨fun _ => rfl, rfl⟩
  | cons c st ih =>
      obtain ⟨houtside, hinside⟩ := ih
      cases hc : isWhitespace c with
      | true =>
          refine ⟨fun before => ?_, ?_⟩
          · cases hst : startsBlank st with
            | true =>
                -- the space that is put there parts the words too
                rw [removeLoop_match hc hst,
                  words_append_cons _ _ (show isWhitespace ' ' = true by decide), hinside,
                  words_append_cons _ _ hc]
            | false =>
                rw [removeLoop_single hc hst, words_append_cons _ _ hc, words_append_cons _ _ hc]
                exact congrArg (words before ++ ·) (houtside [])
          · rw [removeLoop_inMatch hc, hinside, words_cons hc]
      | false =>
          refine ⟨fun before => ?_, ?_⟩
          · rw [removeLoop_other hc, List.append_cons, houtside, ← List.append_cons]
          · rw [removeLoop_other hc]
            exact houtside [c]

/-- A text that is spaced goes through the loop as it is. -/
theorem removeLoop_of_spaced (h : Spaced st) : Project.removeLoop false st = st := by
  induction st with
  | nil => rfl
  | cons c st ih =>
      obtain ⟨hnext, hst⟩ := spaced_cons.mp h
      cases hc : isWhitespace c with
      | true => rw [removeLoop_single hc (hnext hc), ih hst]
      | false => rw [removeLoop_other hc, ih hst]

/-- Text without whitespace goes through the loop as it is. -/
theorem removeLoop_append (w rest : PyStr) (hw : ∀ c ∈ w, isWhitespace c = false) :
    Project.removeLoop false (w ++ rest) = w ++ Project.removeLoop false rest := by
  induction w with
  | nil => rfl
  | cons c w ih =>
      rw [List.cons_append, removeLoop_other (hw c List.mem_cons_self),
        ih fun d hd => hw d (List.mem_cons_of_mem _ hd)]
      rfl

/-- The rest of a match leaves nothing. -/
theorem removeLoop_run (s rest : PyStr) (hs : ∀ c ∈ s, isWhitespace c = true)
    (hrest : startsBlank rest = false) :
    Project.removeLoop true (s ++ rest) = Project.removeLoop false rest := by
  induction s with
  | nil =>
      cases rest with
      | nil => rfl
      | cons c rest => rw [List.nil_append, removeLoop_other hrest, removeLoop_other hrest]
  | cons c s ih =>
      rw [List.cons_append, removeLoop_inMatch (hs c List.mem_cons_self),
        ih fun d hd => hs d (List.mem_cons_of_mem _ hd)]

end Loop

/-! ## `Project.remove` -/

/-- A run of whitespace as the service leaves it. -/
def squeezed (s : PyStr) : PyStr := if s.length = 1 then s else [' ']

/-- The first run of whitespace of a text, behind its first word. -/
theorem remove_run {w s rest : PyStr} (hw : ∀ c ∈ w, isWhitespace c = false) (hne : s ≠ [])
    (hs : ∀ c ∈ s, isWhitespace c = true) (hrest : startsBlank rest = false) :
    Project.remove (w ++ s ++ rest) = w ++ squeezed s ++ Project.remove rest := by
  rw [Project.remove, List.append_assoc, removeLoop_append w _ hw, List.append_assoc]
  refine congrArg (w ++ ·) ?_
  cases s with
  | nil => exact absurd rfl hne
  | cons c s =>
      have hc : isWhitespace c = true := hs c List.mem_cons_self
      cases s with
      | nil =>
          rw [List.singleton_append, removeLoop_single hc hrest]
          rfl
      | cons d s =>
          have hblank : startsBlank (d :: s ++ rest) = true :=
            hs d (List.mem_cons_of_mem _ List.mem_cons_self)
          rw [List.cons_append, removeLoop_match hc hblank,
            removeLoop_run (d :: s) rest (fun e he => hs e (List.mem_cons_of_mem _ he)) hrest]
          rfl

/-- **`Project.remove`**: it goes over a text from one run of whitespace to the next, leaves a run
of one character and makes one space of a longer one.  So no two whitespace characters stand side by
side in what it gives, the words are those of the text, and nothing else is changed in a text in
which no two stand side by side. -/
theorem remove_spec (st : PyStr) :
    (∀ w s rest, st = w ++ s ++ rest → (∀ c ∈ w, isWhitespace c = false) → s ≠ [] →
        (∀ c ∈ s, isWhitespace c = true) → startsBlank rest = false →
        Project.remove st = w ++ squeezed s ++ Project.remove rest) ∧
      Spaced (Project.remove st) ∧ words (Project.remove st) = words st ∧
      (Project.remove st = st ↔ Spaced st) := by
  have hspaced : Spaced (Project.remove st) := spaced_removeLoop false st
  refine ⟨?_, hspaced, (words_removeLoop st).1 [], fun heq => heq ▸ hspaced,
    removeLoop_of_spaced⟩
  rintro w s rest rfl hw hne hs hrest
  exact remove_run hw hne hs hrest

/-- The service leaves what it has given alone. -/
theorem remove_remove (st : PyStr) : Project.remove (Project.remove st) = Project.remove st :=
  removeLoop_of_spaced (spaced_removeLoop false st)
