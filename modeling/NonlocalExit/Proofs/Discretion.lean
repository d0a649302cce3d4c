import NonlocalExit.Proofs.Calls

/-!
# Effects that keep out of exceptions

Most effects neither touch the record nor start an unwind of the library: they are discreet.  The
statements that call nothing on their thread are of this kind, `discreet_perform`.
-/

namespace NonlocalExit

variable [Declarations]

open Effect

/-- Whether an unwind is not the library's. -/
def Transfer.IsForeign (t : Transfer) : Prop := ∃ message, t = .foreign message

/-- The law of effects that leave the record as it is and are left by no unwind of the library. -/
def Law.discreet : Law := fun m o m' =>
  m'.thread.current = m.thread.current ∧ ∀ t, o = some t → t.IsForeign

instance : Law.discreet.Composable where
  refl _ := ⟨rfl, fun _ h => nomatch h⟩
  trans h h' := ⟨h'.1.trans h.1, h'.2⟩

section

variable {α : Type}

theorem discreet_modify {f : Machine → Machine}
    (h : ∀ m, (f m).thread.current = m.thread.current) : Obeys .discreet (modify f) :=
  .modify fun m => ⟨h m, fun _ h => nomatch h⟩

theorem discreet_unwind (message : Option String) :
    Obeys .discreet (unwind (.foreign message) : Effect α) := by
  intro m o m' h
  obtain ⟨rfl, rfl⟩ := leaves_unwind.1 h
  exact ⟨rfl, fun t ht => ⟨message, (Option.some.inj ht).symm⟩⟩

theorem discreet_withFrames (use : FrameStack Cleanup → α × FrameStack Cleanup) :
    Obeys .discreet (withFrames use) := by
  refine .bind .machine fun m => ?_
  dsimp only
  split
  · exact discreet_unwind _
  · exact .bind (discreet_modify fun _ => rfl) fun _ => .pure _

theorem discreet_openFrame : Obeys .discreet openFrame :=
  (discreet_withFrames _).bind fun _ => .bind (discreet_modify fun _ => rfl) fun _ => .pure _

theorem discreet_innermostOrRoot : Obeys .discreet innermostOrRoot := by
  refine .bind (discreet_withFrames _) fun f => ?_
  split
  · exact .pure _
  · exact discreet_openFrame

theorem discreet_enter (name : String) :
    Obeys .discreet (do hold ⟨name, ← enterFrame⟩) := by
  refine .bind ?_ fun id => discreet_modify fun _ => rfl
  exact discreet_openFrame.bind fun _ => .bind (discreet_modify fun _ => rfl) fun _ => .pure _

theorem discreet_releaseGuard (name : String) : Obeys .discreet (releaseGuard name) := by
  refine .bind .machine fun m => ?_
  split
  · exact .pure _
  · exact .bind (discreet_modify fun _ => rfl) fun _ => .pure _

theorem discreet_declareThread : Obeys .discreet declareThread := by
  refine .bind (.bind .machine fun m => .bind (discreet_modify fun _ => rfl) fun _ => ?_)
    fun first => ?_
  · split
    · exact .pure _
    · exact discreet_innermostOrRoot.bind fun _ => .pure _
  · unfold warnUnless
    split
    · exact .pure _
    · exact discreet_modify fun _ => rfl

theorem discreet_setDispositions (d : Disposition) : ∀ l, Obeys .discreet (setDispositions d l)
  | [] => .pure ()
  | _ :: rest => .bind (discreet_modify fun _ => rfl) fun _ => discreet_setDispositions d rest

theorem discreet_setTrapping (enabled : Bool) : Obeys .discreet (setTrapping enabled) :=
  (discreet_setDispositions _ _).bind fun _ =>
    .bind (discreet_modify fun _ => rfl) fun _ => discreet_modify fun _ => rfl

theorem discreet_applySettings (settings : Settings) :
    Obeys .discreet (applySettings settings) := by
  refine .bind (discreet_modify fun _ => rfl) fun _ => .bind (.bind .machine fun m => ?_) fun _ =>
    discreet_modify fun _ => rfl
  dsimp only
  split
  · exact discreet_setTrapping _
  · split
    · exact discreet_setTrapping _
    · exact .pure _

/-- What is run on another thread has a record of its own. -/
theorem discreet_inThread (exec : Executor) (body : Effect α) :
    Obeys .discreet (inThread exec body) := by
  intro m o m' h
  obtain rfl := leaves_inThread exec h
  obtain ⟨_, h⟩ := returned_of_leaves h
  obtain ⟨_, _, _, _, rfl⟩ := (inThread_eq_returned exec).1 h
  exact ⟨rfl, fun _ h => nomatch h⟩

theorem discreet_spawn (exec : Executor) (status : Int32) (name : Option String)
    (stackSize : Option Nat) (body : Block) :
    Obeys .discreet (spawn exec status name stackSize body) := by
  unfold spawn
  split
  · exact discreet_unwind _
  · split
    · exact .pure _
    · exact (discreet_inThread exec _).bind fun _ => .pure _

theorem discreet_runPlain (exec : Executor) (status : Int32) (body : Block) :
    Obeys .discreet (runPlain exec status body) := by
  refine (discreet_inThread exec _).bind fun r => ?_
  split <;> exact .pure _

end

/-- Whether a statement calls nothing on its thread and starts no unwind of the library. -/
def Stmt.IsDiscreet : Stmt → Prop
  | emit _ | state | setHook .. | setHooks .. | hooks | enter _ | leak _ | initThread => True
  | panic none | spawn .. | rawThread .. | foreign _ | trapFaults _ | signals => True
  | apply _ | init _ => True
  | _ => False

theorem discreet_perform (exec : Executor) {s : Stmt} (hs : s.IsDiscreet) :
    Obeys .discreet (s.perform exec) := by
  have hnote : ∀ e, Obeys .discreet (note e) := fun e => discreet_modify fun _ => rfl
  cases s with
  | emit message => exact hnote _
  | state =>
    exact .bind (.bind .machine fun _ => .pure _) fun _ =>
      .bind (.bind .machine fun _ => .pure _) fun _ => hnote _
  | setHook kind hook => exact discreet_modify fun _ => rfl
  | setHooks a b c =>
    exact .bind (discreet_modify fun _ => rfl) fun _ => .bind (discreet_modify fun _ => rfl)
      fun _ => discreet_modify fun _ => rfl
  | hooks => exact .bind (.bind .machine fun _ => .pure _) fun _ => hnote _
  | enter name => exact discreet_enter name
  | leak name => exact (discreet_releaseGuard name).bind fun _ => .pure _
  | initThread => exact discreet_declareThread
  | panic code =>
    cases code with
    | none => exact hnote _
    | some code => exact hs.elim
  | spawn status name stackSize body =>
    exact (discreet_spawn exec status name stackSize body).bind fun _ => hnote _
  | rawThread status body => exact (discreet_runPlain exec status body).bind fun _ => hnote _
  | foreign message => exact discreet_unwind message
  | trapFaults enabled => exact (discreet_setTrapping enabled).bind fun _ => hnote _
  | signals =>
    exact .bind .machine fun _ => .bind (.bind .machine fun _ => .pure _) fun _ => hnote _
  | apply settings =>
    cases settings with
    | none => exact hnote _
    | some settings => exact (discreet_applySettings settings).bind fun _ => hnote _
  | init settings =>
    cases settings with
    | none => exact hnote _
    | some settings =>
      refine .bind ?_ fun _ => hnote _
      exact (discreet_applySettings settings).bind fun _ => discreet_declareThread.bind fun _ =>
        hnote _
  | _ => exact hs.elim

end NonlocalExit
