import NonlocalExit.Proofs.Frames
import NonlocalExit.Proofs.Ledger

/-!
# What a thread notes on its way

`Machine.deeds m m'` is what the current thread has noted between two machines, newest first.  What
other threads have noted meanwhile is not part of it.
-/

namespace NonlocalExit

variable [Declarations]

open Effect

/-- What a thread has noted on some lines of a journal. -/
def entriesOf (thread : Nat) (lines : List JournalLine) : List Entry :=
  lines.filterMap fun l => if l.thread = thread then some l.entry else none

theorem entriesOf_append (n : Nat) (new old : List JournalLine) :
    entriesOf n (new ++ old) = entriesOf n new ++ entriesOf n old := List.filterMap_append

theorem entriesOf_eq_nil {n : Nat} {lines : List JournalLine} (h : ∀ l ∈ lines, l.thread ≠ n) :
    entriesOf n lines = [] := by
  unfold entriesOf
  rw [List.filterMap_eq_nil_iff]
  intro l hl
  rw [if_neg (h l hl)]

theorem entriesOf_map (n : Nat) (es : List Entry) : entriesOf n (es.map (⟨n, ·⟩)) = es := by
  unfold entriesOf
  rw [List.filterMap_map]
  have hsome : ((fun l : JournalLine => if l.thread = n then some l.entry else none) ∘ (⟨n, ·⟩)) =
      some := funext fun e => if_pos rfl
  rw [hsome, List.filterMap_some]

/-- The steps among some entries. -/
def stepsIn (es : List Entry) : List Step := es.filterMap Entry.step?

theorem stepsIn_append (new old : List Entry) :
    stepsIn (new ++ old) = stepsIn new ++ stepsIn old := List.filterMap_append

theorem mem_stepsIn {es : List Entry} {x : Step} : x ∈ stepsIn es ↔ .step x ∈ es := by
  simp only [stepsIn, List.mem_filterMap]
  constructor
  · rintro ⟨e, he, hx⟩
    cases e <;> simp [Entry.step?] at hx
    exact hx ▸ he
  · exact fun h => ⟨_, h, rfl⟩

theorem stepsIn_entriesOf (n : Nat) (lines : List JournalLine) :
    stepsIn (entriesOf n lines) = stepsOf n lines := by
  unfold stepsIn entriesOf stepsOf
  rw [List.filterMap_filterMap]
  congr 1
  funext l
  split <;> rfl

theorem serialsIn_append (L L' : List Step) :
    serialsIn (L ++ L') = serialsIn L ++ serialsIn L' := List.filterMap_append

theorem startedIn_append (L L' : List Step) :
    startedIn (L ++ L') = startedIn L ++ startedIn L' := List.filterMap_append

theorem registeredIn_append (id : Nat) (L L' : List Step) :
    registeredIn id (L ++ L') = registeredIn id L ++ registeredIn id L' := List.filterMap_append

namespace Machine

/-- What the current thread has noted since, newest first. -/
def deeds (m m' : Machine) : List Entry :=
  entriesOf m.thread.number
    (m'.shared.journal.take (m'.shared.journal.length - m.shared.journal.length))

variable {m m₁ m' : Machine}

theorem deeds_of_journal (new : List JournalLine)
    (h : m'.shared.journal = new ++ m.shared.journal) :
    m.deeds m' = entriesOf m.thread.number new := by
  unfold deeds
  rw [h, List.length_append, Nat.add_sub_cancel, List.take_left]

theorem deeds_of_journal_eq (h : m'.shared.journal = m.shared.journal) : m.deeds m' = [] :=
  deeds_of_journal [] h

theorem deeds_trans (h : Adds m m₁) (h' : Adds m₁ m') :
    m.deeds m' = m₁.deeds m' ++ m.deeds m₁ := by
  obtain ⟨new, hj, _⟩ := h.journal
  obtain ⟨new', hj', _⟩ := h'.journal
  rw [deeds_of_journal _ hj, deeds_of_journal _ hj', ← h.number, ← entriesOf_append]
  refine (deeds_of_journal _ ?_).trans (by rw [h.number])
  rw [hj', hj, List.append_assoc]

theorem deeds_note (m : Machine) (e : Entry) : m.deeds (m.note e) = [e] := by
  rw [deeds_of_journal [⟨m.thread.number, e⟩] rfl]
  simp [entriesOf]

theorem deeds_opened (m : Machine) :
    m.deeds m.opened = [.step (.frameOpened m.thread.frames.nextId)] := deeds_note _ _

theorem deeds_closed (m : Machine) (id : Nat) :
    m.deeds (m.closed id) = [.step (.frameClosed id)] := deeds_note _ _

theorem deeds_of_aside (h : Aside m m') : ∀ e ∈ m.deeds m', e.IsPlain := by
  obtain ⟨es, hes, hj⟩ := h.journal
  rw [deeds_of_journal _ hj, entriesOf_map]
  exact hes

/-- What a cleanup notes as it starts: the start, and the argument that it is given. -/
theorem deeds_starting (m : Machine) (c : Cleanup) :
    ∃ es, m.deeds (m.starting c) = es ++ [.step (.started c.serial)] ∧
      ∀ e ∈ es, ∃ a, e = .event (.handler a) := by
  unfold starting
  cases c.argument with
  | none => exact ⟨[], deeds_note _ _, by simp⟩
  | some a =>
    refine ⟨[.event (.handler a)], ?_, by simp⟩
    rw [deeds_trans (.note _ _) (.note _ _), deeds_note, deeds_note]

/-- Other threads note on their own account. -/
theorem deeds_ofThread (hn : m.thread.number < m.shared.nextThread)
    (h : Adds m.threadStarted m') : m.deeds { m' with thread := m.thread } = [] := by
  obtain ⟨new, hj, hl⟩ := h.journal
  have hj' : ({ m' with thread := m.thread } : Machine).shared.journal =
      new ++ m.shared.journal := hj
  rw [deeds_of_journal _ hj']
  refine entriesOf_eq_nil fun l hmem => ?_
  rcases hl l hmem with h | h
  · rw [h]; exact Nat.ne_of_gt hn
  · exact Nat.ne_of_gt (Nat.lt_trans hn h)

/-- Whether a machine has come from another one, and the current thread has noted only entries of
some kind meanwhile. -/
structure NotesOnly (P : Entry → Prop) (m m' : Machine) : Prop extends Grows m m' where
  only : ∀ e ∈ m.deeds m', P e

namespace NotesOnly

variable {P : Entry → Prop}

theorem of_journal_eq (hg : Grows m m') (hj : m'.shared.journal = m.shared.journal) :
    m.NotesOnly P m' := by
  refine ⟨hg, fun e he => ?_⟩
  rw [deeds_of_journal_eq hj] at he
  cases he

theorem of_aside (h : Aside m m') (hj : m'.shared.journal = m.shared.journal) :
    m.NotesOnly P m' := of_journal_eq h.steady.toGrows hj

theorem refl (m : Machine) : m.NotesOnly P m := of_journal_eq (.refl m) rfl

theorem withHeld (held : List (List Guard)) (m : Machine) : m.NotesOnly P (m.withHeld held) :=
  of_journal_eq (Steady.withHeld held m).toGrows rfl

theorem trans (h : m.NotesOnly P m₁) (h' : m₁.NotesOnly P m') : m.NotesOnly P m' := by
  refine ⟨h.toGrows.trans h'.toGrows, fun e he => ?_⟩
  rw [deeds_trans h.toGrows.adds h'.toGrows.adds] at he
  exact (List.mem_append.1 he).elim (h'.only e) (h.only e)

theorem note {e : Entry} (he : P e) (m : Machine) : m.NotesOnly P (m.note e) := by
  refine ⟨.note e m, fun e' he' => ?_⟩
  rw [deeds_note] at he'
  obtain rfl := List.mem_singleton.1 he'
  exact he

end NotesOnly

end Machine

end NonlocalExit
