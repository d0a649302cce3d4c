import NonlocalExit.Program
import NonlocalExit.Proofs.Halts
import NonlocalExit.Proofs.Owners

/-!
# What stops the process

A process stops before the end of its program for few reasons, `Stops`: a full frame, a fault that
is not trapped, its own exit, the bound of the run, and an unwind that leaves what was run because
of another one or a cleanup of a teardown.  `process_stopped_by_cause`: whenever a process has
stopped there is such a cause in the course of the program, and whenever there is one the process
has stopped.  Everything else ends at most the thread on which it was started.
-/

namespace NonlocalExit

open Effect

section

variable [Declarations]

/-! ## The course of a program -/

/-- Which statements start a thread, and with what the thread starts. -/
inductive StartsThread : Activation → Activation → Prop
  | plain (n status body) (m : Machine) :
    StartsThread ⟨n, .stmt (.rawThread status body), m⟩ ⟨n, .job (.block body), m.threadStarted⟩
  | spawned (n status body) {name : Option String} {stackSize : Option Nat} (m : Machine)
    (hname : name.bind zeroInName? = none) (hsize : ¬stackSize.any (stackSizeLimit ≤ ·)) :
    StartsThread ⟨n, .stmt (.spawn status name stackSize body), m⟩
      ⟨n, .session status body, m.threadStarted⟩

/-- Which cleanups are run in a teardown: that of a thread which a statement has started, and that
of the thread which ends the process. -/
inductive TearsDown : Activation → Activation → Prop
  | thread {a b : Activation} {o c} {m₁ m : Machine} (h : StartsThread a b)
    (hl : b.run.Leaves o m₁)
    (hs : StartedAtEnd (Job.run b.fuel) m₁.thread.frames.frames.reverse m₁.tornDown c m) :
    TearsDown a ⟨b.fuel, .job (.block c.body), m.starting c⟩
  | process {n status c} {m m₁ : Machine}
    (hs : StartedAtEnd (Job.run n) m.thread.frames.frames.reverse m.tornDown c m₁) :
    TearsDown ⟨n, .stmt (.exitProcess status), m⟩ ⟨n, .job (.block c.body), m₁.starting c⟩

/-- Which pieces are run in the course of which, on whatever thread. -/
inductive Brings : Activation → Activation → Prop
  | call {a l b} (e : Enters a l b) : Brings a b
  | thread {a b} (h : StartsThread a b) : Brings a b
  | cleanup {a b} (h : TearsDown a b) : Brings a b

/-- Whether a piece is run in the course of another one. -/
inductive Activation.Course (a : Activation) : Activation → Prop
  | here : Course a a
  | later {b c} (h : Course a b) (hb : Brings b c) : Course a c

theorem Activation.Course.trans {a b c : Activation} (h : a.Course b) (hc : b.Course c) :
    a.Course c := by
  induction hc with
  | here => exact h
  | later _ hc ih => exact ih.later hc

theorem Activation.Course.of_brings {a b c : Activation} (h : b.Course c) (hb : Brings a b) :
    a.Course c := (Course.here.later hb).trans h

/-- The cleanup that a statement registers. -/
def Stmt.registers? : Stmt → Option (Option String × Block)
  | defer body => some (none, body)
  | deferWith argument body => some (some argument, body)
  | _ => none

/-- What stops the process. -/
inductive Activation.Stops : Activation → Halt → Prop
  | bound (j) (m : Machine) : Stops ⟨0, .job j, m⟩ .outOfFuel
  /-- Another cleanup for a frame that has no room left. -/
  | full (n) {s r f fs} {m : Machine} (hs : Stmt.registers? s = some r)
    (ht : m.thread.torn = false) (hf : m.thread.frames.frames = f :: fs)
    (hfull : f.hasRoom = false) : Stops ⟨n, .stmt s, m⟩ .aborted
  /-- A fault that is not trapped. -/
  | fault (n) {cause h} {m : Machine} (hr : m.reception cause = .stopped h) :
    Stops ⟨n, .stmt (.fault cause), m⟩ h
  | exited {n status} {m m₁ : Machine} (h : (teardown (Job.run n)).run m = ⟨.returned (), m₁⟩) :
    Stops ⟨n, .stmt (.exitProcess status), m⟩ (.exited status)
  /-- A second unwind, which leaves what is run because of the first one. -/
  | second {a b t} {m : Machine} (e : Enters a .unwinding b) (hb : b.run = ⟨.unwound t, m⟩) :
    Stops a .aborted
  /-- An unwind that leaves a cleanup of a teardown. -/
  | torn {a b t} {m : Machine} (h : TearsDown a b) (hb : b.run = ⟨.unwound t, m⟩) :
    Stops a .aborted

theorem StartsThread.fuel {a b : Activation} (h : StartsThread a b) : b.fuel = a.fuel := by
  cases h <;> rfl

theorem StartsThread.lower {a b : Activation} (h : StartsThread a b) :
    b.task.level < a.task.level := by
  cases h <;> simp [Task.level]

theorem TearsDown.lower {a b : Activation} (h : TearsDown a b) :
    b.fuel = a.fuel ∧ b.task.level < a.task.level := by
  cases h with
  | thread h => exact ⟨h.fuel, Nat.lt_of_le_of_lt (Nat.zero_le _) h.lower⟩
  | process => exact ⟨rfl, by simp [Task.level]⟩

theorem Brings.lower {a b : Activation} (h : Brings a b) :
    b.fuel < a.fuel ∨ b.fuel = a.fuel ∧ b.task.level < a.task.level := by
  cases h with
  | call e => exact lower_of_enters e
  | thread h => exact .inr ⟨h.fuel, h.lower⟩
  | cleanup h => exact .inr h.lower

/-- A cleanup finds no room only in a frame that was open before. -/
theorem Machine.add?_rooted_eq_none {c : Cleanup} {m : Machine} :
    m.rooted.thread.frames.add? c = none ↔
      ∃ f fs, m.thread.frames.frames = f :: fs ∧ f.hasRoom = false := by
  unfold Machine.rooted FrameStack.add?
  cases hf : m.thread.frames.frames with
  | nil =>
    constructor
    · intro h
      cases h
    · rintro ⟨_, _, h, -⟩
      cases h
  | cons f fs =>
    rw [if_neg (List.cons_ne_nil f fs), hf]
    simp

/-! ## A halt in a teardown -/

namespace Effect

variable {exec : Executor} {m m' : Machine} {h : Halt} {t : Transfer} {fs : List (Frame Cleanup)}

theorem halted_startAll {cs : List Cleanup} (hx : (startAll exec cs).run m = ⟨.halted h, m'⟩) :
    ∃ cs₁ c cs₂ m₁, cs = cs₁ ++ c :: cs₂ ∧ (startAll exec cs₁).run m = ⟨.returned (), m₁⟩ ∧
      (exec (.block c.body)).run (m₁.starting c) = ⟨.halted h, m'⟩ := by
  induction cs generalizing m with
  | nil => cases hx
  | cons c cs ih =>
    obtain ⟨_, m₁, hc, hx⟩ | hc := halted_bind hx
    · obtain ⟨cs₁, d, cs₂, m₂, rfl, hcs, hd⟩ := ih hx
      exact ⟨c :: cs₁, d, cs₂, m₂, rfl, (run_bind_returned hc).trans hcs, hd⟩
    · rw [run_startCleanup] at hc
      exact ⟨[], c, cs, m, rfl, rfl, hc⟩

theorem unwound_startAll {cs : List Cleanup} (hx : (startAll exec cs).run m = ⟨.unwound t, m'⟩) :
    ∃ cs₁ c cs₂ m₁, cs = cs₁ ++ c :: cs₂ ∧ (startAll exec cs₁).run m = ⟨.returned (), m₁⟩ ∧
      (exec (.block c.body)).run (m₁.starting c) = ⟨.unwound t, m'⟩ := by
  induction cs generalizing m with
  | nil => cases hx
  | cons c cs ih =>
    obtain ⟨_, m₁, hc, hx⟩ | hc := unwound_bind hx
    · obtain ⟨cs₁, d, cs₂, m₂, rfl, hcs, hd⟩ := ih hx
      exact ⟨c :: cs₁, d, cs₂, m₂, rfl, (run_bind_returned hc).trans hcs, hd⟩
    · rw [run_startCleanup] at hc
      exact ⟨[], c, cs, m, rfl, rfl, hc⟩

/-- How a halt comes about while frames are closed at the end of a thread: in a cleanup, or because
an unwind has left one. -/
inductive HaltsAtEnd (exec : Executor) (fs : List (Frame Cleanup)) (m : Machine) (h : Halt)
    (m' : Machine) : Prop
  | cleanup {c m₁} (hs : StartedAtEnd exec fs m c m₁)
    (hc : (exec (.block c.body)).run (m₁.starting c) = ⟨.halted h, m'⟩)
  | unwound {c m₁ t m₂} (hs : StartedAtEnd exec fs m c m₁)
    (hc : (exec (.block c.body)).run (m₁.starting c) = ⟨.unwound t, m₂⟩) (hh : h = .aborted)

theorem HaltsAtEnd.later {f : Frame Cleanup} {o : Option Transfer} {m₁ : Machine}
    (hl : ((startAll exec f.pending).run m).Leaves o m₁) (hx : HaltsAtEnd exec fs m₁ h m') :
    HaltsAtEnd exec (f :: fs) m h m' := by
  cases hx with
  | cleanup hs hc => exact .cleanup (.later hl hs) hc
  | unwound hs hc hh => exact .unwound (.later hl hs) hc hh

theorem HaltsAtEnd.of_halted {f : Frame Cleanup}
    (hx : (startAll exec f.pending).run m = ⟨.halted h, m'⟩) :
    HaltsAtEnd exec (f :: fs) m h m' := by
  obtain ⟨cs, c, ds, m₁, hp, hcs, hc⟩ := halted_startAll hx
  exact .cleanup (.here hp hcs) hc

theorem HaltsAtEnd.of_unwound {f : Frame Cleanup} {m₁ : Machine}
    (hx : (startAll exec f.pending).run m = ⟨.unwound t, m₁⟩) :
    HaltsAtEnd exec (f :: fs) m .aborted m' := by
  obtain ⟨cs, c, ds, m₁, hp, hcs, hc⟩ := unwound_startAll hx
  exact .unwound (.here hp hcs) hc rfl

theorem halted_closeTornUnwinding (hx : (closeTornUnwinding exec fs).run m = ⟨.halted h, m'⟩) :
    HaltsAtEnd exec fs m h m' := by
  induction fs generalizing m with
  | nil => cases hx
  | cons f fs ih =>
    obtain ⟨_, m₁, hs, hx⟩ | hs := halted_bind hx
    · exact .later (leaves_abortOnUnwind.1 (leaves_of_returned hs)).1 (ih hx)
    · rw [run_abortOnUnwind] at hs
      split at hs
      · cases hs
      · rename_i t m₁ hu
        cases hs
        exact .of_unwound hu
      · rename_i hs'
        cases hs
        exact .of_halted hs'

theorem halted_closeTorn (hx : (closeTorn exec fs).run m = ⟨.halted h, m'⟩) :
    HaltsAtEnd exec fs m h m' := by
  induction fs generalizing m with
  | nil => cases hx
  | cons f fs ih =>
    obtain ⟨r, m₁, hc, hx⟩ | hc := halted_bind hx
    · obtain ⟨_, hs, rfl⟩ | ⟨t, hs, rfl⟩ := run_catchUnwind_eq_returned.1 hc
      · exact .later (leaves_of_returned hs) (ih hx)
      · -- The other frames are closed all the same, and only then the process is aborted.
        obtain ⟨_, m₂, -, hx⟩ | hx := halted_bind hx
        · cases hx
          exact .of_unwound hs
        · exact .later (leaves_of_unwound hs) (halted_closeTornUnwinding hx)
    · exact .of_halted (halted_catchUnwind hc)

theorem halted_teardown (hx : (teardown exec).run m = ⟨.halted h, m'⟩) :
    HaltsAtEnd exec m.thread.frames.frames.reverse m.tornDown h m' := halted_closeTorn hx

theorem halted_inThread {α : Type} {body : Effect α}
    (hx : (inThread exec body).run m = ⟨.halted h, m'⟩) :
    body.run m.threadStarted = ⟨.halted h, m'⟩ ∨
      ∃ o m₁, (body.run m.threadStarted).Leaves o m₁ ∧
        HaltsAtEnd exec m₁.thread.frames.frames.reverse m₁.tornDown h m' := by
  rw [run_inThread] at hx
  obtain ⟨r, m₁, hb, hx⟩ | hb := halted_bind hx
  · obtain ⟨_, m₂, -, hx⟩ | hx := halted_bind hx
    · cases hx
    · refine .inr ?_
      obtain ⟨_, hb, -⟩ | ⟨t, hb, -⟩ := run_catchUnwind_eq_returned.1 hb
      · exact ⟨_, m₁, leaves_of_returned hb, halted_teardown hx⟩
      · exact ⟨_, m₁, leaves_of_unwound hb, halted_teardown hx⟩
  · exact .inl (halted_catchUnwind hb)

/-- With a name and a size that the system accepts a thread is started. -/
theorem spawn_started {status : Int32} {name : Option String} {stackSize : Option Nat}
    {body : Block} (hname : name.bind zeroInName? = none)
    (hsize : ¬stackSize.any (stackSizeLimit ≤ ·)) :
    spawn exec status name stackSize body =
      (inThread exec (runBody exec (threadBody exec status body)) >>= fun r =>
        pure (spawnResult name r)) := by
  unfold spawn
  rw [hname, if_neg hsize]

theorem halted_runBody {status : Int32} {body : Block}
    (hx : (runBody exec (threadBody exec status body)).run m = ⟨.halted h, m'⟩) :
    m.thread.torn = false ∧ ((exec (.block body)).run m.sessionEntered = ⟨.halted h, m'⟩ ∨
      ∃ o m₁, ((exec (.block body)).run m.sessionEntered).Leaves o m₁ ∧
        (exec (.closeAbove m.innermostId)).run m₁ = ⟨.halted h, m'⟩) := by
  rw [run_runBody] at hx
  split at hx
  · cases hx
  rename_i ht
  refine ⟨by simpa using ht, ?_⟩
  obtain ⟨r, m₁, hb, hx⟩ | hb := halted_bind hx
  · obtain ⟨_, m₂, -, hx⟩ | hx := halted_bind hx
    · exact (((NeverHalts.closeSession _).bind fun _ => .statusOf _) _ _ _ hx).elim
    · refine .inr ?_
      obtain ⟨_, hb, -⟩ | ⟨t, hb, -⟩ := run_catchUnwind_eq_returned.1 hb
      · obtain ⟨_, _, hb, hp⟩ := returned_bind hb
        cases hp
        exact ⟨_, m₁, leaves_of_returned hb, hx⟩
      · obtain ⟨_, _, -, hp⟩ | hb := unwound_bind hb
        · cases hp
        · exact ⟨_, m₁, leaves_of_unwound hb, hx⟩
  · obtain ⟨_, _, -, hb⟩ | hb := halted_bind (halted_catchUnwind hb)
    · cases hb
    · exact .inl hb

theorem halted_times {x : Effect Unit} : ∀ (times : Nat) {m : Machine},
    (Effect.times x times).run m = ⟨.halted h, m'⟩ →
      ∃ i m₁, i < times ∧ (Effect.times x i).run m = ⟨.returned (), m₁⟩ ∧
        x.run m₁ = ⟨.halted h, m'⟩
  | 0, _, hx => by cases hx
  | times + 1, m, hx => by
    obtain ⟨_, m₁, hr, hx⟩ | hx := halted_bind hx
    · obtain ⟨i, m₂, hi, ht, hm⟩ := halted_times times hx
      exact ⟨i + 1, m₂, Nat.succ_lt_succ hi, (run_bind_returned hr).trans ht, hm⟩
    · exact ⟨0, m, Nat.succ_pos _, rfl, hx⟩

theorem halted_settle {token : Nat} {body : Effect Unit}
    (hx : (settle token body).run m = ⟨.halted h, m'⟩) : body.run m = ⟨.halted h, m'⟩ := by
  rw [run_settle] at hx
  split at hx
  · cases hx
  · split at hx
    · split at hx <;> cases hx
    · cases hx
  · rename_i hr
    cases hx
    exact hr

/-- A cleanup that is registered while the storage of the thread is torn down is run at once;
otherwise registering it halts only if the innermost frame is full. -/
theorem halted_defer {argument : Option String} {body : Block}
    (hx : (defer exec argument body).run m = ⟨.halted h, m'⟩) :
    (m.thread.torn = true ∧ (exec (.block body)).run
        (m.startedLate ⟨m.shared.nextSerial, argument, body⟩) = ⟨.halted h, m'⟩) ∨
      m.thread.torn = false ∧ h = .aborted ∧
        ∃ f fs, m.thread.frames.frames = f :: fs ∧ f.hasRoom = false := by
  rw [run_defer] at hx
  dsimp only at hx
  split at hx
  · rename_i ht
    rw [run_startCleanup] at hx
    exact .inl ⟨ht, hx⟩
  · rename_i ht
    split at hx
    · cases hx
    · rename_i hadd
      cases hx
      exact .inr ⟨by simpa using ht, rfl, (Machine.add?_rooted_eq_none (m := m.serialTaken)).1 hadd⟩

theorem defer_full {argument : Option String} {body : Block} {f : Frame Cleanup}
    {fs : List (Frame Cleanup)} (ht : m.thread.torn = false)
    (hf : m.thread.frames.frames = f :: fs) (hfull : f.hasRoom = false) :
    ∃ m', (defer exec argument body).run m = ⟨.halted .aborted, m'⟩ := by
  have hadd : m.serialTaken.rooted.thread.frames.add? ⟨m.shared.nextSerial, argument, body⟩ =
      none := Machine.add?_rooted_eq_none.2 ⟨f, fs, hf, hfull⟩
  rw [run_defer]
  dsimp only
  rw [ht, hadd]
  exact ⟨_, rfl⟩

end Effect

/-! ## Where a halt comes from -/

/-- How a halt comes about in a piece: the piece stops the process, or something that is run in its
course has halted. -/
inductive Activation.HaltedBy (a : Activation) (h : Halt) (m : Machine) : Prop
  | stops (hs : a.Stops h)
  | brought {b} (hb : Brings a b) (hx : b.run = ⟨.halted h, m⟩)

namespace Activation.HaltedBy

variable {a b : Activation} {l : Label} {h : Halt} {m m' : Machine} {n : Nat}

theorem called (e : Enters a l b) (hx : b.run = ⟨.halted h, m⟩) : a.HaltedBy h m :=
  .brought (.call e) hx

theorem block {ss : Block} (hx : (Job.run (n + 1) (.block ss)).run m = ⟨.halted h, m'⟩) :
    HaltedBy ⟨n + 1, .job (.block ss), m⟩ h m' := by
  have hblock : (onExit (Stmt.performAll (Job.run n) ss) (leaveBlock (Job.run n))).run
      (m.withHeld ([] :: m.thread.held)) = ⟨.halted h, m'⟩ := hx
  clear hx
  obtain hb | ⟨o, m₁, hl, hx⟩ | ⟨t, t', m₁, hb, hx, rfl⟩ := halted_onExit hblock
  · exact .called (.block n ss m) hb
  · rw [run_leaveBlock] at hx
    exact .called (.blockLeft hl) (halted_onExit_calm (fun _ => ⟨_, rfl⟩) hx)
  · rw [run_leaveBlock] at hx
    obtain ⟨_, _, -, hp⟩ | ⟨m₂, hd, -⟩ := unwound_onExit hx
    · cases hp
    · exact .stops (.second (.blockLeft (leaves_of_unwound hb)) hd)

theorem close {id : Nat} (hx : (Job.run (n + 1) (.close id)).run m = ⟨.halted h, m'⟩) :
    HaltedBy ⟨n + 1, .job (.close id), m⟩ h m' := by
  have hx' : (closeStep (Job.run n) id).run m = ⟨.halted h, m'⟩ := hx
  rw [run_closeStep] at hx'
  split at hx'
  · cases hx'
  rename_i ht
  have ht : m.thread.torn = false := by simpa using ht
  split at hx'
  · cases hx'
  rename_i f hf
  split at hx'
  · cases hx'
  rename_i c cs hp
  obtain ⟨_, m₁, hc, hx'⟩ | hc := halted_bind hx'
  · exact .called (.closeNext ht hf hp hc) hx'
  · rw [run_startCleanup] at hc
    exact .called (.cleanup n ht hf hp) hc

theorem closeAbove {base : Option Nat}
    (hx : (Job.run (n + 1) (.closeAbove base)).run m = ⟨.halted h, m'⟩) :
    HaltedBy ⟨n + 1, .job (.closeAbove base), m⟩ h m' := by
  have hx' : (closeAboveStep (Job.run n) base).run m = ⟨.halted h, m'⟩ := hx
  rw [run_closeAboveStep] at hx'
  split at hx'
  · cases hx'
  rename_i ht
  have ht : m.thread.torn = false := by simpa using ht
  split at hx'
  · cases hx'
  rename_i f fs hf
  split at hx'
  · cases hx'
  rename_i hb
  obtain ⟨_, m₁, hc, hx'⟩ | hc := halted_bind hx'
  · exact .called (.closeAboveNext ht hf hb hc) hx'
  · exact .called (.closeInner n ht hf hb) hc

theorem walk {code : ErrorCode} (hx : (Job.run (n + 1) (.walk code)).run m = ⟨.halted h, m'⟩) :
    HaltedBy ⟨n + 1, .job (.walk code), m⟩ h m' := by
  have hx' : (walkStep (Job.run n) code).run m = ⟨.halted h, m'⟩ := hx
  rw [run_walkStep] at hx'
  split at hx'
  · cases hx'
  rename_i ht
  have ht : m.thread.torn = false := by simpa using ht
  split at hx'
  · cases hx'
  rename_i f fs hf
  split at hx'
  · cases hx'
  rename_i hm
  obtain ⟨_, m₁, hc, hx'⟩ | hc := halted_bind hx'
  · exact .called (.walkNext ht hf hm hc) hx'
  · exact .called (.passed n code ht hf hm) hc

theorem drops {count : Nat} (hx : (dropGuards (Job.run n) count).run m = ⟨.halted h, m'⟩) :
    HaltedBy ⟨n, .drops count, m⟩ h m' := by
  cases count with
  | zero => cases hx
  | succ count =>
    rw [run_dropGuards_succ] at hx
    split at hx
    · rename_i g own outer hh
      obtain hc | ⟨o, m₁, hl, hd⟩ | ⟨t, t', m₁, hc, hd, rfl⟩ := halted_onExit hx
      · exact .called (.drop n count hh) hc
      · exact .called (.dropNext hh hl) hd
      · exact .stops (.second (.dropNext hh (leaves_of_unwound hc)) hd)
    · cases hx

theorem session {status : Int32} {body : Block}
    (hx : (runBody (Job.run n) (threadBody (Job.run n) status body)).run m = ⟨.halted h, m'⟩) :
    HaltedBy ⟨n, .session status body, m⟩ h m' := by
  obtain ⟨ht, hb | ⟨o, m₁, hl, hc⟩⟩ := halted_runBody hx
  · exact .called (.session n status body ht) hb
  · exact .called (.sessionLeft ht hl) hc

/-! ### Exceptions -/

theorem unexpected (hx : (Effect.unexpected (Job.run n)).run m = ⟨.halted h, m'⟩) :
    HaltedBy ⟨n, .unexpected, m⟩ h m' := by
  rw [run_unexpected] at hx
  split at hx
  · rename_i b e hb he
    obtain ⟨escaped, m₁, -, hu⟩ | hg := halted_bind hx
    · cases escaped <;> cases hu
    · rw [run_guarded_callHook] at hg
      exact .called (.unexpectedHook n hb he) (halted_of_caught hg)
  · cases hx

theorem unhandled (hx : (Effect.unhandled (Job.run n)).run m = ⟨.halted h, m'⟩) :
    HaltedBy ⟨n, .unhandled, m⟩ h m' := by
  rw [run_unhandled] at hx
  split at hx
  · rename_i b e hb he
    obtain ⟨escaped, m₁, hg, hu⟩ | hg := halted_bind hx
    · cases escaped with
      | true => exact .called (.unhandledHookThrew hb he hg) (run_never_halted hu)
      | false => cases hu
    · rw [run_guarded_callHook] at hg
      exact .called (.unhandledHook n hb he) (halted_of_caught hg)
  · cases hx

/-- A halt while the throw hook is called. -/
theorem throwHook
    (hx : (noteDispatch m.thread.current >>= fun _ => callThrowHook (Job.run n)).run m =
      ⟨.halted h, m'⟩) : HaltedBy ⟨n, .dispatch, m⟩ h m' := by
  by_cases hhook : ∃ b e, m.shared.hooks.onThrow = some b ∧ m.thread.hookRunning = false ∧
      m.thread.current = some e
  · obtain ⟨b, e, hb, hr, he⟩ := hhook
    rw [run_noteDispatch_hook hb hr he] at hx
    obtain ⟨escaped, m₁, hg, hu⟩ | hg := halted_bind hx
    · cases escaped with
      | true => exact .called (.throwHookThrew hb hr he hg) hu
      | false => cases hu
    · rw [run_guarded_runThrowHook] at hg
      exact .called (.throwHook n hb hr he) (halted_of_caught hg)
  · rw [run_noteDispatch_idle hhook] at hx
    cases hx

theorem dispatch (hx : (Effect.dispatch (Job.run n)).run m = ⟨.halted h, m'⟩) :
    HaltedBy ⟨n, .dispatch, m⟩ h m' := by
  rw [run_dispatch] at hx
  obtain ⟨_, m₁, hh, hu⟩ | hh := halted_bind hx
  · have hu' : (if m₁.thread.depth > 0 then unwind .thrown else Effect.unhandled (Job.run n) :
        Effect Empty).run m₁ = ⟨.halted h, m'⟩ := hu
    split at hu'
    · cases hu'
    · rename_i hd
      exact .called (.outside hh (by omega)) (run_never_halted hu')
  · exact throwHook hh

theorem attempt {body : Block} {clauses : List (Trigger × Block)}
    (hx : (Stmt.perform (Job.run n) (.attempt body clauses)).run m = ⟨.halted h, m'⟩) :
    HaltedBy ⟨n, .stmt (.attempt body clauses), m⟩ h m' := by
  obtain hs | ⟨e, m₁, hp, hd⟩ := TryBlock.halted_attempt hx
  · obtain ⟨pending, m₁, hc, hl⟩ | hc := halted_bind hs
    · obtain ⟨final, hf, hb | ⟨t, m₂, hb, ht, hu⟩⟩ := TryBlock.halted_lastStages hl
      · exact .called (.completion hc hf) hb
      · exact .called (.completionThrew hc hf hb ht) hu
    · obtain hb | ⟨e, m₁, hb, hr⟩ := TryBlock.halted_clauseStage hc
      · obtain hb | ⟨t, escape, m₁, hb, ht, hcur, hu⟩ := TryBlock.halted_bodyStage hb
        · exact .called (.attempt n body clauses m) hb
        · exact .called (.recordEmpty hb ht hcur) hu
      · obtain ⟨trigger, b, start, hm, hs, hx | ⟨m₂, hx, hu⟩⟩ := TryBlock.halted_runCatches hr
        · exact .called (.clause hb hm hs) hx
        · exact .called (.clauseThrew hb hm hs hx) hu
  · exact .called (.again hp) hd

/-! ### Statements -/

theorem ofTeardown {a : Activation} {exec : Executor} {fs : List (Frame Cleanup)} {m₁ : Machine}
    (hx : HaltsAtEnd exec fs m₁ h m')
    (hc : ∀ c m, StartedAtEnd exec fs m₁ c m → ∃ b, TearsDown a b ∧
      b.run = (exec (.block c.body)).run (m.starting c)) : a.HaltedBy h m' := by
  cases hx with
  | cleanup hs hrun =>
    obtain ⟨b, ht, hb⟩ := hc _ _ hs
    exact .brought (.cleanup ht) (hb.trans hrun)
  | unwound hs hrun hh =>
    obtain ⟨b, ht, hb⟩ := hc _ _ hs
    exact hh ▸ .stops (.torn ht (hb.trans hrun))

theorem rawThread {status : Int32} {body : Block}
    (hx : (runPlain (Job.run n) status body).run m = ⟨.halted h, m'⟩) :
    HaltedBy ⟨n, .stmt (.rawThread status body), m⟩ h m' := by
  have hstart := StartsThread.plain n status body m
  obtain ⟨r, _, -, hx⟩ | hx := halted_bind hx
  · cases r <;> cases hx
  obtain hb | ⟨o, m₁, hl, hend⟩ := halted_inThread hx
  · exact .brought (.thread hstart) hb
  · exact .ofTeardown hend fun c m hs => ⟨_, .thread hstart hl hs, rfl⟩

theorem spawn {status : Int32} {name : Option String} {stackSize : Option Nat} {body : Block}
    (hx : (Effect.spawn (Job.run n) status name stackSize body).run m = ⟨.halted h, m'⟩) :
    HaltedBy ⟨n, .stmt (.spawn status name stackSize body), m⟩ h m' := by
  by_cases hname : name.bind zeroInName? = none
  · by_cases hsize : stackSize.any (stackSizeLimit ≤ ·)
    · unfold Effect.spawn at hx
      rw [hname, if_pos hsize] at hx
      cases hx
    have hstart := StartsThread.spawned n status body m hname hsize
    rw [spawn_started hname hsize] at hx
    obtain ⟨r, _, -, hx⟩ | hx := halted_bind hx
    · cases hx
    obtain hb | ⟨o, m₁, hl, hend⟩ := halted_inThread hx
    · exact .brought (.thread hstart) (run_bind_halted hb)
    · exact .ofTeardown hend fun c m hs => ⟨_, .thread hstart (leaves_discard hl) hs, rfl⟩
  · obtain ⟨message, hmessage⟩ := Option.ne_none_iff_exists'.1 hname
    unfold Effect.spawn at hx
    rw [hmessage] at hx
    cases hx

theorem recover {value : String} {body : Block}
    (hx : (Effect.recover (Job.run n (.block body))).run m = ⟨.halted h, m'⟩) :
    HaltedBy ⟨n, .stmt (.recover value body), m⟩ h m' := by
  rw [run_recover] at hx
  split at hx
  · cases hx
  rename_i ht
  have ht : m.thread.torn = false := by simpa using ht
  have hend : ∀ {o : Option Transfer} {m₁ : Machine},
      ((Effect.settle m.shared.nextToken (Job.run n (.block body))).run m.recoveryEntered).Leaves
        o m₁ → ∃ m₂, (endRecovery m.rootId m.tokenTaken.markFound m.thread.recovering).run m₁ =
          ⟨.returned (), m₂⟩ := by
    intro o m₁ hl
    have hsteady := (Steady.recoveryEntered m).trans
      (Steady.primitives.obeys_settle _ (Steady.primitives.obeys n _) _ _ _ hl)
    rw [run_endRecovery, hsteady.torn.trans ht]
    exact ⟨_, rfl⟩
  obtain hs | ⟨o, m₁, hl, he⟩ | ⟨t, t', m₁, hs, he, -⟩ := halted_onExit hx
  · exact .called (.recover n value body ht) (halted_settle hs)
  · obtain ⟨m₂, hret⟩ := hend hl
    cases hret.symm.trans he
  · obtain ⟨m₂, hret⟩ := hend (leaves_of_unwound hs)
    cases hret.symm.trans he

theorem scope {body : Block}
    (hx : (Effect.scope (Job.run n) (Job.run n (.block body))).run m = ⟨.halted h, m'⟩) :
    HaltedBy ⟨n, .stmt (.scope body), m⟩ h m' := by
  rw [run_scope] at hx
  split at hx
  · cases hx
  rename_i ht
  have ht : m.thread.torn = false := by simpa using ht
  obtain hb | ⟨o, m₁, hl, hc⟩ | ⟨t, t', m₁, hb, hc, rfl⟩ := halted_onExit hx
  · exact .called (.scope n body ht) hb
  · exact .called (.scopeLeft ht hl) hc
  · exact .stops (.second (.scopeLeft ht (leaves_of_unwound hb)) hc)

theorem rethrow (hx : (Effect.rethrow (Job.run n)).run m = ⟨.halted h, m'⟩) :
    HaltedBy ⟨n, .stmt .rethrow, m⟩ h m' := by
  rw [run_rethrow] at hx
  cases hc : m.thread.current with
  | none =>
    rw [hc] at hx
    exact .called (.rethrowNone n hc) (run_never_halted hx)
  | some e =>
    rw [hc] at hx
    have hu : (if m.thread.depth = 0 then Effect.unhandled (Job.run n) else unwind .rethrown :
        Effect Empty).run m = ⟨.halted h, m'⟩ := hx
    split at hu
    · rename_i hd
      exact .called (.rethrowOutside n hc hd) (run_never_halted hu)
    · cases hu

theorem fault {cause : FaultCause} (hx : (meetFault (Job.run n) cause).run m = ⟨.halted h, m'⟩) :
    HaltedBy ⟨n, .stmt (.fault cause), m⟩ h m' := by
  rw [run_meetFault] at hx
  cases hr : m.reception cause with
  | held | dismissed => rw [hr] at hx; cases hx
  | stopped =>
    rw [hr] at hx
    cases hx
    exact .stops (.fault n hr)
  | trapped deferred =>
    rw [hr] at hx
    exact .called (.fault n hr) (run_never_halted (halted_of_never hx))

theorem exitProcess {status : Int32}
    (hx : (Effect.exitProcess (Job.run n) status : Effect Unit).run m = ⟨.halted h, m'⟩) :
    HaltedBy ⟨n, .stmt (.exitProcess status), m⟩ h m' := by
  obtain ⟨_, m₁, ht, hx⟩ | ht := halted_bind hx
  · cases hx
    exact .stops (.exited ht)
  · exact .ofTeardown (halted_teardown ht) fun c m hs => ⟨_, .process hs, rfl⟩

theorem stmt {s : Stmt} (hx : (s.perform (Job.run n)).run m = ⟨.halted h, m'⟩) :
    HaltedBy ⟨n, .stmt s, m⟩ h m' := by
  have hcalm : NeverHalts (s.perform (Job.run n)) → HaltedBy ⟨n, .stmt s, m⟩ h m' := fun hs =>
    (hs _ _ _ hx).elim
  have hnote : ∀ e, NeverHalts (note e) := fun e => .modify _
  cases s with
  | emit message => exact hcalm (hnote _)
  | state =>
    exact hcalm ((NeverHalts.machine.bind fun _ => .pure _).bind fun _ =>
      (NeverHalts.machine.bind fun _ => .pure _).bind fun _ => hnote _)
  | repeated times body =>
    obtain ⟨i, m₁, hi, ht, hx⟩ := halted_times times hx
    exact .called (.repeated hi ht) hx
  | throw v => exact .called (.throw n v m) (run_never_halted (halted_of_never hx))
  | rethrow => exact rethrow (halted_of_never hx)
  | attempt body clauses => exact attempt hx
  | setHook kind hook => exact hcalm (.modify _)
  | setHooks a b c => exact hcalm ((NeverHalts.modify _).bind fun _ =>
      (NeverHalts.modify _).bind fun _ => .modify _)
  | hooks => exact hcalm ((NeverHalts.machine.bind fun _ => .pure _).bind fun _ => hnote _)
  | scope body => exact scope hx
  | defer body =>
    obtain ⟨ht, hx⟩ | ⟨ht, rfl, f, fs, hf, hfull⟩ := halted_defer hx
    · exact .called (.deferLate n body ht) hx
    · exact .stops (.full n rfl ht hf hfull)
  | deferWith a body =>
    obtain ⟨_, _, -, hx⟩ | hx := halted_bind hx
    · cases hx
    obtain ⟨ht, hx⟩ | ⟨ht, rfl, f, fs, hf, hfull⟩ := halted_defer hx
    · exact .called (.deferWithLate n a body ht) hx
    · exact .stops (.full n rfl ht hf hfull)
  | enter name => exact hcalm (NeverHalts.enterFrame.bind fun _ => .modify _)
  | leave name =>
    obtain ⟨g, m₁, hr, hx⟩ | hx := halted_bind hx
    · rw [run_releaseGuard] at hr
      split at hr
      · cases hr
        cases hx
      · rename_i g held hp
        cases hr
        exact .called (.leave n hp) hx
    · exact (NeverHalts.releaseGuard name _ _ _ hx).elim
  | leak name => exact hcalm ((NeverHalts.releaseGuard name).bind fun _ => .pure _)
  | initThread => exact hcalm .declareThread
  | panic code =>
    cases code with
    | none => exact hcalm (hnote _)
    | some code =>
      have hw : (Job.run n (.walk code) >>= fun _ => _).run (m.note (.log (.panicking code))) =
          ⟨.halted h, m'⟩ := halted_of_never hx
      obtain ⟨_, m₁, -, hx⟩ | hw := halted_bind hw
      · cases hx
      · exact .called (.panic n code m) hw
  | recover value body =>
    obtain ⟨r, _, -, hx⟩ | hx := halted_bind hx
    · cases r <;> cases hx
    · exact recover hx
  | exit status => cases hx
  | run status body =>
    obtain ⟨_, _, -, hx⟩ | hx := halted_bind hx
    · cases hx
    · exact .called (.run n status body m) (run_bind_halted hx)
  | spawn status name stackSize body =>
    obtain ⟨_, _, -, hx⟩ | hx := halted_bind hx
    · cases hx
    · exact spawn hx
  | rawThread status body =>
    obtain ⟨_, _, -, hx⟩ | hx := halted_bind hx
    · cases hx
    · exact rawThread hx
  | foreign message => exact hcalm (.unwind _)
  | intercept body =>
    obtain ⟨r, _, -, hx⟩ | hx := halted_bind hx
    · cases r <;> cases hx
    · exact .called (.intercept n body m) (halted_catchUnwind hx)
  | exitProcess status => exact exitProcess hx
  | trapFaults enabled => exact hcalm ((NeverHalts.setTrapping enabled).bind fun _ => hnote _)
  | signals =>
    exact hcalm (NeverHalts.machine.bind fun _ =>
      (NeverHalts.machine.bind fun _ => .pure _).bind fun _ => hnote _)
  | fault cause => exact fault hx
  | apply settings =>
    cases settings with
    | none => exact hcalm (hnote _)
    | some settings => exact hcalm ((NeverHalts.applySettings settings).bind fun _ => hnote _)
  | init settings =>
    cases settings with
    | none => exact hcalm (hnote _)
    | some settings =>
      refine hcalm (NeverHalts.bind ?_ fun _ => hnote _)
      exact (NeverHalts.applySettings settings).bind fun _ => NeverHalts.declareThread.bind fun _ =>
        hnote _

end Activation.HaltedBy

/-- A piece that halts stops the process itself, or has brought about something that halted. -/
theorem haltedBy_of_halted {a : Activation} {h : Halt} {m : Machine}
    (hx : a.run = ⟨.halted h, m⟩) : a.HaltedBy h m := by
  obtain ⟨n, T, m₀⟩ := a
  cases T with
  | job j =>
    cases n with
    | zero =>
      cases hx
      exact .stops (.bound j m₀)
    | succ n =>
      cases j with
      | block ss => exact .block hx
      | close id => exact .close hx
      | closeAbove base => exact .closeAbove hx
      | walk code => exact .walk hx
  | rest ss =>
    cases ss with
    | nil => cases hx
    | cons s ss =>
      obtain ⟨_, m₁, hs, hr⟩ | hs := halted_bind hx
      · exact .called (.next hs) hr
      · exact .called (.first n s ss m₀) hs
  | stmt s => exact .stmt hx
  | drops count => exact .drops hx
  | session status body =>
    obtain ⟨_, _, -, hx⟩ | hx := halted_bind hx
    · cases hx
    · exact .session hx
  | dispatch => exact .dispatch (halted_of_never hx)
  | unhandled => exact .unhandled (halted_of_never hx)
  | unexpected => exact .unexpected (halted_of_never hx)

/-- Whatever halts was stopped by something in its course. -/
theorem exists_cause {a : Activation} {h : Halt} {m : Machine} (hx : a.run = ⟨.halted h, m⟩) :
    ∃ b, a.Course b ∧ b.Stops h := by
  induction a using Activation.lower_induction with
  | h a ih =>
    obtain hs | ⟨hb, hx⟩ := haltedBy_of_halted hx
    · exact ⟨a, .here, hs⟩
    · obtain ⟨c, hc, hs⟩ := ih _ hb.lower hx
      exact ⟨c, hc.of_brings hb, hs⟩

/-! ## Threads that are waited for -/

/-- When the cleanups of a teardown have returned one after another, each of them has. -/
theorem StartedAtEnd.returned {exec : Executor} {fs : List (Frame Cleanup)} {c : Cleanup}
    {m m₁ m' : Machine} (hs : StartedAtEnd exec fs m c m₁)
    (h : (startAll exec (fs.flatMap (·.pending))).run m = ⟨.returned (), m'⟩) :
    ∃ m₂, (exec (.block c.body)).run (m₁.starting c) = ⟨.returned (), m₂⟩ := by
  induction hs with
  | here hp hcs =>
    rw [List.flatMap_cons, hp, List.append_assoc, run_startAll_append exec hcs] at h
    obtain ⟨_, m₂, hc, -⟩ := returned_bind h
    rw [run_startCleanup] at hc
    exact ⟨m₂, hc⟩
  | later hl _ ih =>
    obtain ⟨m₂, hf, h⟩ := startAll_append exec (List.flatMap_cons .. ▸ h)
    obtain ⟨-, rfl⟩ := (leaves_of_returned hf).unique hl
    exact ih h

namespace Effect

variable {α : Type} {exec : Executor} {o : Option Transfer} {m m' : Machine}

theorem ended_of_inThread {body : Effect α} (h : ((inThread exec body).run m).Leaves o m') :
    o = none ∧ m'.thread = m.thread ∧ ∃ o' m₁ m₂, (body.run m.threadStarted).Leaves o' m₁ ∧
      (teardown exec).run m₁ = ⟨.returned (), m₂⟩ := by
  obtain rfl := leaves_inThread exec h
  obtain ⟨r, h⟩ := returned_of_leaves h
  obtain ⟨m₁, m₂, hb, ht, rfl⟩ := (inThread_eq_returned exec).1 h
  refine ⟨rfl, rfl, ?_⟩
  obtain ⟨_, hb, -⟩ | ⟨t, hb, -⟩ := run_catchUnwind_eq_returned.1 hb
  · exact ⟨_, m₁, m₂, leaves_of_returned hb, ht⟩
  · exact ⟨_, m₁, m₂, leaves_of_unwound hb, ht⟩

end Effect

/-- A thread is waited for until its teardown has returned.  Then the thread that waits goes on, and
its state is what it was before. -/
theorem StartsThread.ended {a b : Activation} {o : Option Transfer} {m : Machine}
    (h : StartsThread a b) (hl : a.run.Leaves o m) :
    o = none ∧ m.thread = a.machine.thread ∧ ∃ o' m₁ m₂, b.run.Leaves o' m₁ ∧
      (teardown (Job.run b.fuel)).run m₁ = ⟨.returned (), m₂⟩ := by
  cases h with
  | plain n status body m₀ =>
    obtain ⟨r, m₁, hr, hp⟩ | ⟨t, ht, rfl⟩ := leaves_bind.1 hl
    · obtain ⟨e, m₂, hthread, hr⟩ := returned_bind hr
      obtain ⟨-, hkept, hended⟩ := ended_of_inThread (leaves_of_returned hthread)
      cases hp
      exact ⟨rfl, by cases e <;> cases hr <;> exact hkept, hended⟩
    · obtain ⟨e, _, -, ht⟩ | ht := unwound_bind ht
      · cases e <;> cases ht
      · cases (ended_of_inThread (leaves_of_unwound ht)).1
  | @spawned n status body name stackSize m₀ hname hsize =>
    have hl' : ((Effect.spawn (Job.run n) status name stackSize body >>= fun r =>
        report (.spawned r)).run m₀).Leaves o m := hl
    rw [spawn_started hname hsize] at hl'
    obtain ⟨r, m₁, hr, hp⟩ | ⟨t, ht, rfl⟩ := leaves_bind.1 hl'
    · obtain ⟨e, m₂, hthread, hr⟩ := returned_bind hr
      obtain ⟨-, hkept, o', m₃, m₄, hbody, htear⟩ :=
        ended_of_inThread (leaves_of_returned hthread)
      cases hp
      cases hr
      exact ⟨rfl, hkept, o', m₃, m₄, leaves_discard hbody, htear⟩
    · obtain ⟨e, _, -, ht⟩ | ht := unwound_bind ht
      · cases ht
      · cases (ended_of_inThread (leaves_of_unwound ht)).1

/-! ## Halts go outward -/

/-- Whether a piece does not come to its end because the process stops. -/
def Activation.Halts (a : Activation) : Prop := ∃ h m, a.run = ⟨.halted h, m⟩

theorem Activation.halts_of_not_left {a : Activation} (h : ∀ o m, ¬a.run.Leaves o m) : a.Halts :=
  halted_of_not_left (x := a.task.effect (Job.run a.fuel)) h

/-- A piece at the end of which a cleanup of its teardown does not return halts. -/
theorem TearsDown.halts {a b : Activation} (h : TearsDown a b)
    (hb : ∀ m, b.run ≠ ⟨.returned (), m⟩) : a.Halts := by
  refine Activation.halts_of_not_left fun o m hl => ?_
  cases h with
  | thread h hleft hs =>
    obtain ⟨-, -, o', m₁, m₂, hleft', htear⟩ := h.ended hl
    obtain ⟨-, rfl⟩ := hleft.unique hleft'
    obtain ⟨m₃, hret⟩ := hs.returned (leaves_teardown _ (leaves_of_returned htear)).2
    exact hb m₃ hret
  | process hs => exact not_leaves_exitProcess _ hl

theorem StartsThread.halts {a b : Activation} (h : StartsThread a b) (hb : b.Halts) : a.Halts := by
  refine Activation.halts_of_not_left fun o m hl => ?_
  obtain ⟨-, -, o', m₁, m₂, hleft, -⟩ := h.ended hl
  obtain ⟨_, _, hb⟩ := hb
  rw [hb] at hleft
  cases hleft

theorem Brings.halts {a b : Activation} (h : Brings a b) (hb : b.Halts) : a.Halts := by
  cases h with
  | call e =>
    obtain ⟨_, _, hb⟩ := hb
    exact ⟨_, _, halted_of_enters e hb⟩
  | thread h => exact h.halts hb
  | cleanup h =>
    obtain ⟨_, _, hb⟩ := hb
    exact h.halts fun m hret => by cases hret.symm.trans hb

theorem Activation.Course.halts {a b : Activation} (h : a.Course b) (hb : b.Halts) : a.Halts := by
  induction h with
  | here => exact hb
  | later _ hc ih => exact ih (hc.halts hb)

theorem Activation.Stops.halts {a : Activation} {h : Halt} (hs : a.Stops h) : a.Halts := by
  cases hs with
  | bound j m => exact ⟨_, _, rfl⟩
  | @full n s r f fs m hs ht hf hfull =>
    cases s with
    | defer body =>
      obtain ⟨m', hx⟩ := @defer_full _ (Job.run n) m none body f fs ht hf hfull
      exact ⟨_, m', hx⟩
    | deferWith argument body =>
      obtain ⟨m', hx⟩ := @defer_full _ (Job.run n) m (some argument) body f fs ht hf hfull
      exact ⟨_, m', run_bind_halted hx⟩
    | _ => cases hs
  | @fault n cause h m hr =>
    have hx : (meetFault (Job.run n) cause).run m = ⟨.halted h, m⟩ := by rw [run_meetFault, hr]
    exact ⟨_, _, hx⟩
  | exited h => exact halts_of_not_left fun _ _ => not_leaves_exitProcess _
  | second e hb => exact halted_of_unwinding e rfl hb
  | torn h hb => exact h.halts fun m hret => by cases hret.symm.trans hb

/-! ## Programs -/

namespace Program

/-- With what status a process ends, from the way in which its body was left. -/
def exitStatus (p : Program) : Option Transfer → Int32
  | none => p.status
  | some (.threadExit status) => status
  | some _ => 101

/-- What is reported of the end of the body. -/
def ending (p : Program) : Option Transfer → ThreadResult
  | none => .status p.status
  | some t => t.result

/-- With what a program begins in given surroundings, and with what a process goes on when its body
has been left. -/
inductive Begins (w : Surroundings) (n : Nat) (p : Program) : Activation → Prop
  | spawned (h : p.mode = .spawned) :
    Begins w n p ⟨n, .stmt (.spawn p.status none none p.body), .fresh w⟩
  | plain (h : p.mode = .plain) :
    Begins w n p ⟨n, .stmt (.rawThread p.status p.body), .fresh w⟩
  | process (h : p.mode = .process) : Begins w n p ⟨n, .job (.block p.body), .fresh w⟩
  | exit {o} {m : Machine} (h : p.mode = .process)
    (hl : ((Job.run n (.block p.body)).run (.fresh w)).Leaves o m) :
    Begins w n p ⟨n, .stmt (.exitProcess (p.exitStatus o)), m.note (.event (.ended (p.ending o)))⟩

/-- Whether a piece is run in the course of a program. -/
def Course (w : Surroundings) (n : Nat) (p : Program) (b : Activation) : Prop :=
  ∃ a, p.Begins w n a ∧ a.Course b

variable {w : Surroundings} {n : Nat} {p : Program} {m m' : Machine} {h : Halt}

theorem Course.trans {b c : Activation} (h : p.Course w n b) (hc : b.Course c) :
    p.Course w n c := by
  obtain ⟨a, hbegins, hcourse⟩ := h
  exact ⟨a, hbegins, hcourse.trans hc⟩

/-- What holds on the first machine and where the body of a process has been left, and is kept by
everything that is brought in the course of a program, holds wherever the program comes to. -/
theorem Course.keeps {I : Machine → Prop} {b : Activation} (h : p.Course w n b)
    (hfirst : I (.fresh w))
    (hleft : ∀ {o m}, p.Course w n ⟨n, .job (.block p.body), .fresh w⟩ →
      ((Job.run n (.block p.body)).run (.fresh w)).Leaves o m →
      I (m.note (.event (.ended (p.ending o)))))
    (hbrings : ∀ {a b}, p.Course w n a → Brings a b → I a.machine → I b.machine) :
    I b.machine := by
  obtain ⟨a, hbegins, hcourse⟩ := h
  induction hcourse with
  | here =>
    cases hbegins with
    | spawned => exact hfirst
    | plain => exact hfirst
    | process => exact hfirst
    | exit hp hl => exact hleft ⟨_, .process hp, .here⟩ hl
  | later hc hb ih => exact hbrings ⟨a, hbegins, hc⟩ hb ih

theorem run_mainThread {o : Option Transfer}
    (hl : ((Job.run n (.block p.body)).run m).Leaves o m') :
    (mainThread (Job.run n) p).run m = (exitProcess (Job.run n) (p.exitStatus o) : Effect Empty).run
      (m'.note (.event (.ended (p.ending o)))) := by
  obtain ⟨_, hb, rfl⟩ | ⟨t, hb, rfl⟩ := Leaves.cases hl
  · exact run_bind_returned (run_catchUnwind_returned hb)
  · refine (run_bind_returned (run_catchUnwind_unwound hb)).trans ?_
    cases t <;> rfl

theorem exitProcess_halted {α β : Type} {exec : Executor} {status : Int32}
    (hx : (exitProcess exec status : Effect α).run m = ⟨.halted h, m'⟩) :
    (exitProcess exec status : Effect β).run m = ⟨.halted h, m'⟩ := by
  obtain ⟨_, m₁, ht, hx⟩ | ht := halted_bind hx
  · cases hx
    exact (run_bind_returned ht).trans rfl
  · exact run_bind_halted ht

/-- A program is never left by an unwind. -/
theorem not_unwound_verdict {t : Transfer} :
    (p.verdict (Job.run n)).run m ≠ ⟨.unwound t, m'⟩ := by
  intro hx
  unfold verdict at hx
  split at hx
  · obtain ⟨_, _, -, hx⟩ | hx := unwound_bind hx
    · cases hx
    · rw [@spawn_started _ (Job.run n) p.status none none p.body rfl Bool.false_ne_true] at hx
      obtain ⟨_, _, -, hx⟩ | hx := unwound_bind hx
      · cases hx
      · cases leaves_inThread _ (leaves_of_unwound hx)
  · obtain ⟨_, _, -, hx⟩ | hx := unwound_bind hx
    · cases hx
    · obtain ⟨r, _, -, hx⟩ | hx := unwound_bind hx
      · cases r <;> cases hx
      · cases leaves_inThread _ (leaves_of_unwound hx)
  · have hmain := unwound_of_never hx
    rcases hb : (Job.run n (.block p.body)).run m with ⟨_ | t | h, m₁⟩
    · rw [run_mainThread (leaves_of_returned hb)] at hmain
      exact not_leaves_exitProcess _ (leaves_of_unwound hmain)
    · rw [run_mainThread (leaves_of_unwound hb)] at hmain
      exact not_leaves_exitProcess _ (leaves_of_unwound hmain)
    · have hcaught : (mainThread (Job.run n) p).run m = ⟨.halted h, m₁⟩ :=
        run_bind_halted (run_catchUnwind_halted hb)
      cases hcaught.symm.trans hmain

/-- A program of which it is known that its process has stopped is one that has halted. -/
theorem verdict_runWith :
    (p.runWith w n).verdict = .process h ↔
      ∃ m, (p.verdict (Job.run n)).run (.fresh w) = ⟨.halted h, m⟩ := by
  unfold runWith
  rcases hx : (p.verdict (Job.run n)).run (.fresh w) with ⟨v | t | h', m⟩
  · refine ⟨fun hv => ?_, fun ⟨_, hv⟩ => by cases hv⟩
    have hv : v = .process h := hv
    subst hv
    unfold verdict at hx
    split at hx
    · obtain ⟨_, _, -, hx⟩ := returned_bind hx
      cases hx
    · obtain ⟨_, _, -, hx⟩ := returned_bind hx
      cases hx
    · exact (not_returned_never hx).elim
  · exact (not_unwound_verdict hx).elim
  · constructor
    · intro hv
      cases hv
      exact ⟨m, rfl⟩
    · rintro ⟨_, hv⟩
      cases hv
      rfl

/-- A program halts with something that it begins with. -/
theorem begins_of_halted (hx : (p.verdict (Job.run n)).run (.fresh w) = ⟨.halted h, m⟩) :
    ∃ a, p.Begins w n a ∧ ∃ m', a.run = ⟨.halted h, m'⟩ := by
  unfold verdict at hx
  split at hx
  · rename_i hm
    obtain ⟨_, _, -, hx⟩ | hx := halted_bind hx
    · cases hx
    · exact ⟨_, .spawned hm, m, run_bind_halted hx⟩
  · rename_i hm
    obtain ⟨_, _, -, hx⟩ | hx := halted_bind hx
    · cases hx
    · exact ⟨_, .plain hm, m, run_bind_halted hx⟩
  · rename_i hm
    have hmain := halted_of_never hx
    rcases hb : (Job.run n (.block p.body)).run (.fresh w) with ⟨_ | t | h', m₁⟩
    · rw [run_mainThread (leaves_of_returned hb)] at hmain
      exact ⟨_, .exit hm (leaves_of_returned hb), m, exitProcess_halted hmain⟩
    · rw [run_mainThread (leaves_of_unwound hb)] at hmain
      exact ⟨_, .exit hm (leaves_of_unwound hb), m, exitProcess_halted hmain⟩
    · have hcaught : (mainThread (Job.run n) p).run (.fresh w) = ⟨.halted h', m₁⟩ :=
        run_bind_halted (run_catchUnwind_halted hb)
      cases hcaught.symm.trans hmain
      exact ⟨_, .process hm, m, hb⟩

theorem halted_of_begins {a : Activation} (hbegins : p.Begins w n a) (ha : a.Halts) :
    ∃ h m, (p.verdict (Job.run n)).run (.fresh w) = ⟨.halted h, m⟩ := by
  obtain ⟨h, m, hx⟩ := ha
  unfold verdict
  cases hbegins with
  | spawned hm =>
    rw [hm]
    obtain ⟨_, _, -, hx⟩ | hx := halted_bind hx
    · cases hx
    · exact ⟨h, m, run_bind_halted hx⟩
  | plain hm =>
    rw [hm]
    obtain ⟨_, _, -, hx⟩ | hx := halted_bind hx
    · cases hx
    · exact ⟨h, m, run_bind_halted hx⟩
  | process hm =>
    rw [hm]
    exact ⟨h, m, run_never_halted (run_bind_halted (run_catchUnwind_halted hx))⟩
  | exit hm hl =>
    rw [hm]
    refine ⟨h, m, run_never_halted ?_⟩
    rw [run_mainThread hl]
    exact exitProcess_halted hx

end Program

/-- A process stops before the end of its program exactly if something in the course of the program
stops it, on whatever thread.  Nothing else ends more than the thread on which it was started: one
that waits for a thread goes on with its own state when that thread has ended in whatever way,
unless the process has stopped. -/
theorem process_stopped_by_cause (w : Surroundings) (n : Nat) (p : Program) :
    (∀ h, (p.runWith w n).verdict = .process h → ∃ b, p.Course w n b ∧ b.Stops h) ∧
    (∀ b h, p.Course w n b → b.Stops h → ∃ h', (p.runWith w n).verdict = .process h') ∧
    ∀ a b, p.Course w n a → StartsThread a b →
      (∃ m, a.run = ⟨.returned (), m⟩ ∧ m.thread = a.machine.thread) ∨
        ∃ c h, a.Course c ∧ c.Stops h := by
  refine ⟨fun h hv => ?_, fun b h hc hs => ?_, fun a b _ hstart => ?_⟩
  · obtain ⟨m, hx⟩ := Program.verdict_runWith.1 hv
    obtain ⟨a, hbegins, m', ha⟩ := Program.begins_of_halted hx
    obtain ⟨b, hb, hs⟩ := exists_cause ha
    exact ⟨b, ⟨a, hbegins, hb⟩, hs⟩
  · obtain ⟨a, hbegins, hb⟩ := hc
    obtain ⟨h', m, hx⟩ := Program.halted_of_begins hbegins (hb.halts hs.halts)
    exact ⟨h', Program.verdict_runWith.2 ⟨m, hx⟩⟩
  · by_cases hl : ∃ o m, a.run.Leaves o m
    · obtain ⟨o, m, hl⟩ := hl
      obtain ⟨rfl, hkept, -⟩ := hstart.ended hl
      obtain ⟨_, hret⟩ := returned_of_leaves hl
      exact .inl ⟨m, hret, hkept⟩
    · obtain ⟨h, m, hx⟩ := Activation.halts_of_not_left fun o m h => hl ⟨o, m, h⟩
      obtain ⟨c, hc, hs⟩ := exists_cause hx
      exact .inr ⟨c, h, hc, hs⟩

end

/-- A thread that is to end inside a scope the cleanup of which ends it once more. -/
def exitInCleanup : Block := [.scope [.defer [.exit 3], .exit 3]]

/-- A process that waits for such a thread. -/
def waitingForExit : Program := ⟨.process, 0, [.spawn 0 none none exitInCleanup, .emit "after"]⟩

/-- The piece in which the thread is started. -/
theorem course_waitingForExit :
    ∃ m, waitingForExit.Course .bare 20 ⟨19, .stmt (.spawn 0 none none exitInCleanup), m⟩ :=
  ⟨_, _, .process rfl, (Activation.Course.here.later (.call (.block _ _ _))).later
    (.call (.first _ _ _ _))⟩

theorem process_stopped_by_cause_waitingForExit :
    (waitingForExit.runWith .bare 20).verdict = .process .aborted ∧
    (∃ b, waitingForExit.Course .bare 20 b ∧ b.Stops .aborted ∧
      ∃ h, (waitingForExit.runWith .bare 20).verdict = .process h) ∧
    ∃ a b, waitingForExit.Course .bare 20 a ∧ StartsThread a b ∧
      ((∃ m, a.run = ⟨.returned (), m⟩ ∧ m.thread = a.machine.thread) ∨
        ∃ c h, a.Course c ∧ c.Stops h) := by
  have hv : (waitingForExit.runWith .bare 20).verdict = .process .aborted := rfl
  obtain ⟨hcause, hstops, hthread⟩ := process_stopped_by_cause .bare 20 waitingForExit
  obtain ⟨b, hc, hs⟩ := hcause _ hv
  obtain ⟨m, hspawn⟩ := course_waitingForExit
  have hstart := @StartsThread.spawned _ 19 0 exitInCleanup none none m rfl Bool.false_ne_true
  exact ⟨hv, ⟨b, hc, hs, hstops _ _ hc hs⟩, _, _, hspawn, hstart, hthread _ _ hspawn hstart⟩

/-- No frame is full and no fault is met, and yet the end of one thread aborts the process. -/
theorem aborted_waitingForExit :
    (waitingForExit.runWith .bare 20).verdict = .process .aborted ∧
      (waitingForExit.runWith .bare 20).diagnostics = [] := ⟨rfl, rfl⟩

end NonlocalExit
