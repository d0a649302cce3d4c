import NonlocalExit.Proofs.Oblivious

/-!
# The depth of a thread, and its initialisation

`Level.oblivious`: whatever is run, and however it is left, the thread is afterwards inside as many
try blocks and guarded calls as before.  `StaysInitialised.oblivious`: and if it was declared
initialised, it still is, for a session gives up only what it owns.
-/

namespace NonlocalExit

variable [Declarations]

open Effect

namespace Machine

/-- Whether a thread is inside as many try blocks and guarded calls as before. -/
def Level (m m' : Machine) : Prop := m'.thread.depth = m.thread.depth

instance : Composes Level where
  refl _ := rfl
  trans h h' := h'.trans h

theorem Level.oblivious : Oblivious Level where
  toComposes := inferInstance
  frames _ _ := rfl
  held _ _ := rfl
  recovering _ _ := rfl
  current _ _ := rfl
  note _ _ _ := rfl
  shared _ _ _ _ := rfl
  thread _ := rfl
  protect _ := rfl
  declared _ := rfl
  blocked _ _ := rfl
  session _ h := h
  dispatched _ _ := rfl
  throwHook _ _ := rfl

/-! ## Initialisation -/

/-- Whether a thread that was declared initialised still is. -/
def StaysInitialised (m m' : Machine) : Prop :=
  m.thread.initialised = true → m'.thread.initialised = true

instance : Composes StaysInitialised where
  refl _ := id
  trans h h' := h' ∘ h

theorem StaysInitialised.oblivious : Oblivious StaysInitialised where
  toComposes := inferInstance
  frames _ _ := id
  held _ _ := id
  recovering _ _ := id
  current _ _ := id
  note _ _ _ := id
  shared _ _ _ _ := id
  thread _ := id
  protect h := h
  declared _ _ := rfl
  blocked _ _ := id
  session hi _ hm := nomatch hi.symm.trans hm
  dispatched _ _ := id
  throwHook _ h := h

/-! ## The record where something is entered -/

variable (m : Machine)

theorem current_rooted : m.rooted.thread.current = m.thread.current := by
  unfold rooted
  split <;> rfl

theorem current_starting (c : Cleanup) : (m.starting c).thread.current = m.thread.current := by
  unfold starting
  split <;> rfl

theorem current_recoveryEntered : m.recoveryEntered.thread.current = m.thread.current :=
  current_rooted m.tokenTaken

theorem current_threadDeclared : m.threadDeclared.thread.current = m.thread.current := by
  unfold threadDeclared
  split
  · rfl
  · exact current_rooted m.declared

theorem current_sessionEntered : m.sessionEntered.thread.current = m.thread.current := by
  unfold sessionEntered
  split <;> exact current_threadDeclared m

end Machine

end NonlocalExit
