import NonlocalExit.Proofs.Piecewise
import NonlocalExit.Proofs.Stopping

/-!
# The record holds what was raised

An exception is read back by the type it was made from, so it matters that the record never holds
one that was not made from a value.  It only ever holds exceptions that were raised: `Brings.holds`
says so along the calls, for any property of exceptions that those have which are raised on the way,
and `Stack.holdsValue` for all points of a thread: wherever it comes to, the exception in the
record, if there is one, was made from a value.
-/

namespace NonlocalExit

variable [Declarations]

open Effect

/-- Whether the exception in the record, if there is one, has a property. -/
def Thread.Holds (P : Exception → Prop) (t : Thread) : Prop := ∀ e, t.current = some e → P e

/-- Whether the exceptions that are made in the course of a piece have a property. -/
def Activation.RaisesOnly (P : Exception → Prop) (a : Activation) : Prop :=
  ∀ b v, a.Course b → b.Raises v → P (.of v)

variable {P : Exception → Prop}

namespace Thread.Holds

theorem isLocal : Local P (Thread.Holds P) := ⟨fun h => h _, fun _ _ _ h => h⟩

theorem of_current {t t' : Thread} (h : t.Holds P) (hc : t'.current = t.current) : t'.Holds P :=
  fun e he => h e (hc.symm.trans he)

theorem of_none {t : Thread} (h : t.current = none) : t.Holds P :=
  fun _ he => nomatch h.symm.trans he

/-! ## Pieces that handle frames -/

section

variable {n : Nat} {m : Machine} {s : Stmt}

/-- What leaves the record alone leaves in it what was there. -/
theorem discreet (h : m.thread.Holds P) (hs : s.IsDiscreet) :
    Activation.Ends (Thread.Holds P) ⟨n, .stmt s, m⟩ :=
  fun _ _ hl => h.of_current (discreet_perform _ hs _ _ _ hl).1

theorem startCleanup {c : Cleanup}
    (hc : Activation.Ends (Thread.Holds P) ⟨n, .job (.block c.body), m.starting c⟩) :
    (Effect.startCleanup (Job.run n) c).Ends (Thread.Holds P) m :=
  .of_run (run_startCleanup _ _ _) hc

theorem block {ss : Block} (h : m.thread.Holds P)
    (H : ∀ l b, Enters ⟨n, .job (.block ss), m⟩ l b → b.machine.thread.Holds P →
      b.Ends (Thread.Holds P)) : Activation.Ends (Thread.Holds P) ⟨n, .job (.block ss), m⟩ := by
  cases n with
  | zero => exact fun _ _ hl => nomatch hl
  | succ n =>
    refine Ends.of_run (run_asBlock _ _ _) (.onExit (H _ _ (.block n ss m) h) fun o m₁ hl h₁ => ?_)
    refine Ends.of_run (run_leaveBlock _ _) (.onExit (H _ _ (.blockLeft hl) h₁) fun _ _ _ h => ?_)
    exact .modify h

theorem close {id : Nat} (h : m.thread.Holds P)
    (H : ∀ l b, Enters ⟨n, .job (.close id), m⟩ l b → b.machine.thread.Holds P →
      b.Ends (Thread.Holds P)) : Activation.Ends (Thread.Holds P) ⟨n, .job (.close id), m⟩ := by
  intro o m' hl
  cases n with
  | zero => cases hl
  | succ n =>
    have hcleanup : ∀ {f c cs}, m.thread.torn = false →
        Frame.find? id m.thread.frames.frames = some f → f.pending = c :: cs →
        Activation.Ends (Thread.Holds P)
          ⟨n, .job (.block c.body), (m.withPending id cs).starting c⟩ := fun ht hf hp =>
      H _ _ (.cleanup n ht hf hp) (h.of_current (Machine.current_starting _ _))
    cases closeEnds_of_leaves hl with
    | torn => exact h
    | absent => exact h
    | empty => exact h
    | cleanup ht hf hp hx => exact hcleanup ht hf hp _ _ (leaves_of_unwound hx)
    | next ht hf hp hc hl =>
      exact H _ _ (.closeNext ht hf hp hc) ((startCleanup (hcleanup ht hf hp)).returned hc) _ _ hl

theorem drops {count : Nat} (h : m.thread.Holds P)
    (H : ∀ l b, Enters ⟨n, .drops count, m⟩ l b → b.machine.thread.Holds P →
      b.Ends (Thread.Holds P)) : Activation.Ends (Thread.Holds P) ⟨n, .drops count, m⟩ := by
  cases count with
  | zero => exact Ends.pure () h
  | succ count =>
    show (dropGuards (Job.run n) (count + 1)).Ends _ m
    match hh : m.thread.held with
    | [] | [] :: _ => exact .of_run (dropGuards_none count (by rw [hh]; rfl)) (.pure () h)
    | (g :: own) :: outer =>
      refine .of_run (dropGuards_held count hh) (.onExit ?_ fun o m₁ hl h₁ => ?_)
      · exact .of_run (run_leaveFrame _ _ _) (H _ _ (.drop n count hh) h)
      · exact H _ _ (.dropNext hh hl) h₁

theorem session {status : Int32} {body : Block} (h : m.thread.Holds P)
    (H : ∀ l b, Enters ⟨n, .session status body, m⟩ l b → b.machine.thread.Holds P →
      b.Ends (Thread.Holds P)) : Activation.Ends (Thread.Holds P) ⟨n, .session status body, m⟩ := by
  refine Ends.bind (.of_storage (run_runBody _ m _) h fun ht => ?_) fun _ _ _ h => .pure _ h
  have hbody := H _ _ (.session n status body ht) (h.of_current (Machine.current_sessionEntered m))
  refine .bind (.catchUnwind (.bind hbody fun _ _ _ h => .pure _ h)) fun r m₁ hr h₁ => ?_
  obtain ⟨o, hl, -⟩ := leaves_of_threadBody hr
  refine .bind (H _ _ (.sessionLeft ht hl) h₁) fun _ _ _ h => .bind ?_ fun _ _ _ h => ?_
  · unfold closeSession
    split
    · exact .modify h
    · exact .pure _ h
  · unfold statusOf
    split
    · exact .pure _ h
    · exact .pure _ h
    · exact .unwind _ h

theorem scope {body : Block} (h : m.thread.Holds P)
    (H : ∀ l b, Enters ⟨n, .stmt (.scope body), m⟩ l b → b.machine.thread.Holds P →
      b.Ends (Thread.Holds P)) : Activation.Ends (Thread.Holds P) ⟨n, .stmt (.scope body), m⟩ := by
  refine Ends.of_storage (run_scope _ m _) h fun ht => ?_
  refine .onExit (H _ _ (.scope n body ht) h) fun o m₁ hl h₁ => ?_
  exact .of_run (run_leaveFrame _ _ _) (H _ _ (.scopeLeft ht hl) h₁)

theorem leave {name : String} (h : m.thread.Holds P)
    (H : ∀ l b, Enters ⟨n, .stmt (.leave name), m⟩ l b → b.machine.thread.Holds P →
      b.Ends (Thread.Holds P)) : Activation.Ends (Thread.Holds P) ⟨n, .stmt (.leave name), m⟩ := by
  refine Ends.bind (fun o m' hl => h.of_current (discreet_releaseGuard name _ _ _ hl).1)
    fun g m₁ hr h₁ => ?_
  rw [run_releaseGuard] at hr
  split at hr
  · cases hr
    exact .pure _ h₁
  · rename_i g rest hp
    cases hr
    exact .of_run (run_leaveFrame _ _ _) (H _ _ (.leave n hp) h)

theorem defer {argument : Option String} {body : Block} (h : m.thread.Holds P)
    (hlate : m.thread.torn = true → Activation.Ends (Thread.Holds P)
      ⟨n, .job (.block body), m.startedLate ⟨m.shared.nextSerial, argument, body⟩⟩) :
    (Effect.defer (Job.run n) argument body).Ends (Thread.Holds P) m := by
  intro o m' hl
  rw [run_defer] at hl
  dsimp only at hl
  split at hl
  · rename_i ht
    exact startCleanup (hlate ht) _ _ hl
  · split at hl
    · cases hl
      exact h.of_current (Machine.current_rooted m.serialTaken)
    · cases hl

theorem recover {value : String} {body : Block} (h : m.thread.Holds P)
    (H : ∀ l b, Enters ⟨n, .stmt (.recover value body), m⟩ l b → b.machine.thread.Holds P →
      b.Ends (Thread.Holds P)) :
    Activation.Ends (Thread.Holds P) ⟨n, .stmt (.recover value body), m⟩ := by
  refine Ends.bind (.of_storage (run_recover m _) h fun ht => ?_) fun r _ _ h => by
    split <;> exact .note _ h
  have hbody := H _ _ (.recover n value body ht) (h.of_current (Machine.current_recoveryEntered m))
  refine .onExit (.bind (.catchUnwind hbody) fun r _ _ h => ?_) fun o m₁ _ h₁ => ?_
  · split
    · exact .pure _ h
    · split
      · exact .bind (.note _ h) fun _ _ _ h => .pure _ h
      · exact .unwind _ h
    · exact .unwind _ h
  · refine .bind (fun _ _ hl => h₁.of_current (discreet_withFrames _ _ _ _ hl).1) fun _ _ _ h => ?_
    exact .modify h

end

end Thread.Holds

/-- What the record holds at the end of a piece has the property, if it has at the end of all that
is called. -/
theorem Activation.holds_of_calls {a : Activation} (h : a.machine.thread.Holds P)
    (hP : ∀ v, a.Raises v → P (.of v))
    (H : ∀ l b, Enters a l b → b.machine.thread.Holds P → b.Ends (Thread.Holds P)) :
    a.Ends (Thread.Holds P) := by
  by_cases hT : a.task.HandlesFrames
  · obtain ⟨n, T, m⟩ := a
    cases T with
    | job j =>
      cases j with
      | block ss => exact .block h H
      | close id => exact .close h H
      | closeAbove base => exact hT.elim
      | walk code => exact hT.elim
    | drops count => exact .drops h H
    | session status body => exact .session h H
    | stmt s =>
      cases s with
      | scope body => exact .scope h H
      | leave name => exact .leave h H
      | enter name => exact .discreet h trivial
      | leak name => exact .discreet h trivial
      | initThread => exact .discreet h trivial
      | defer body =>
        exact Thread.Holds.defer h fun ht =>
          H _ _ (.deferLate n body ht) (h.of_current (Machine.current_starting _ _))
      | deferWith a body =>
        refine Ends.bind (Thread.Holds.defer h fun ht => ?_) fun _ _ _ h => .note _ h
        exact H _ _ (.deferWithLate n a body ht) (h.of_current (Machine.current_starting _ _))
      | recover value body => exact .recover h H
      | init settings =>
        cases settings with
        | none => exact hT.elim
        | some settings => exact .discreet h trivial
      | _ => exact hT.elim
    | _ => exact hT.elim
  · exact Activation.ends_of_calls Thread.Holds.isLocal hT h hP H

/-! ## Along the calls -/

section

variable {n : Nat} {a b : Activation} {l : Label} {m m' : Machine} {o : Option Transfer}

namespace Activation.RaisesOnly

theorem of_brings (h : a.RaisesOnly P) (hb : Brings a b) : b.RaisesOnly P :=
  fun _ v hc => h _ v (hc.of_brings hb)

/-- However a piece is left, what was in the record or has been raised since is there. -/
theorem ends (h : a.RaisesOnly P) (hm : a.machine.thread.Holds P) : a.Ends (Thread.Holds P) := by
  induction a using Activation.induction with
  | h a ih =>
    exact holds_of_calls hm (fun v => h _ v .here) fun l b e => ih l b e (h.of_brings (.call e))

/-- Whatever is called starts with something in the record that was there or has been raised. -/
theorem called (h : a.RaisesOnly P) (e : Enters a l b) (hm : a.machine.thread.Holds P) :
    b.machine.thread.Holds P := by
  have hends : ∀ l c, Enters a l c → c.machine.thread.Holds P → c.Ends (Thread.Holds P) :=
    fun _ _ e => (h.of_brings (.call e)).ends
  have L := Thread.Holds.isLocal (P := P)
  cases e with
  | blockLeft h' => exact hends _ _ (.block _ _ _) hm _ _ h'
  | cleanup => exact hm.of_current (Machine.current_starting _ _)
  | closeNext ht hf hp h' =>
    have hcleanup := hends _ _ (.cleanup _ ht hf hp) (hm.of_current (Machine.current_starting _ _))
    exact (Thread.Holds.startCleanup hcleanup).returned h'
  | closeAboveNext ht hf hb h' =>
    exact hends _ _ (.closeInner _ ht hf hb) hm _ _ (leaves_of_returned h')
  | walkNext ht hf hmark h' =>
    exact hends _ _ (.passed _ _ ht hf hmark) hm _ _ (leaves_of_returned h')
  | next h' => exact hends _ _ (.first _ _ _ _) hm _ _ (leaves_of_returned h')
  | dropNext hh h' => exact hends _ _ (.drop _ _ hh) hm _ _ h'
  | repeated hi h' =>
    refine (Ends.times _ hm fun j m₁ hj ht h₁ => ?_).returned h'
    exact hends _ _ (.repeated (Nat.lt_trans hj hi) ht) h₁
  | scopeLeft ht h' =>
    have hleft := hends _ _ (.scope _ _ ht) hm _ _ h'
    exact hleft
  | deferLate n body ht => exact hm.of_current (Machine.current_starting _ _)
  | deferWithLate n a body ht => exact hm.of_current (Machine.current_starting _ _)
  | recover n value body ht => exact hm.of_current (Machine.current_recoveryEntered _)
  | session n status body ht => exact hm.of_current (Machine.current_sessionEntered _)
  | sessionLeft ht h' =>
    exact hends _ _ (.session _ _ _ ht) (hm.of_current (Machine.current_sessionEntered _)) _ _ h'
  | throw n v m =>
    rintro _ ⟨⟩
    exact h _ v .here (.thrown n v m)
  | fault n hd =>
    rintro _ ⟨⟩
    exact h _ _ .here (.fault n hd)
  | throwHookThrew hb hr he h' =>
    exact (L.guardedThrowHook (hends _ _ (.throwHook _ hb hr he) hm)).returned h'
  | outside h' hd => exact (L.sendOff hm hends).returned h'
  | unhandledHookThrew hb he h' =>
    exact (L.guardedHook (hends _ _ (.unhandledHook _ hb he) hm)).returned h'
  | attempt n body clauses m => exact L.tryEntered hm clauses
  | recordEmpty h' ht hc => exact .of_none hc
  | clause h' hmatch hs =>
    refine ((L.bodyStage hm hends).returned h').of_current ?_
    exact congrArg Thread.current (Machine.thread_passedOver _ _ _)
  | clauseThrew h' hmatch hs hb =>
    refine hends _ _ (.clause h' hmatch hs) ?_ _ _ (leaves_of_unwound hb)
    refine ((L.bodyStage hm hends).returned h').of_current ?_
    exact congrArg Thread.current (Machine.thread_passedOver _ _ _)
  | completion h' hf =>
    have hleft := (L.clauseStage hm hends).returned h'
    exact hleft
  | completionThrew h' hf hb ht =>
    have hleft := (L.clauseStage hm hends).returned h'
    exact hends _ _ (.completion h' hf) hleft _ _ (leaves_of_unwound hb)
  | again h' =>
    rintro _ ⟨⟩
    exact L.pending hm hends h'
  | _ => exact hm

end Activation.RaisesOnly

theorem Effect.holds_startAll {exec : Executor} : ∀ (cs : List Cleanup) {m : Machine},
    m.thread.Holds P →
    (∀ ds c es m₁, cs = ds ++ c :: es → (startAll exec ds).run m = ⟨.returned (), m₁⟩ →
      m₁.thread.Holds P → (startCleanup exec c).Ends (Thread.Holds P) m₁) →
    (startAll exec cs).Ends (Thread.Holds P) m
  | [], _, hm, _ => .pure () hm
  | c :: cs, m, hm, H => by
    refine .bind (H [] c cs m rfl rfl hm) fun _ m₁ hr h₁ => holds_startAll cs h₁ ?_
    intro ds d es m₂ hcs hds h₂
    exact H (c :: ds) d es m₂ (hcs ▸ rfl) ((run_bind_returned hr).trans hds) h₂

/-- Each cleanup of a teardown starts with something in the record that was there or has been raised
by those before. -/
theorem StartedAtEnd.holds {fs : List (Frame Cleanup)} {c : Cleanup}
    (h : StartedAtEnd (Job.run n) fs m c m') (hm : m.thread.Holds P)
    (H : ∀ d m₁, StartedAtEnd (Job.run n) fs m d m₁ →
      Activation.RaisesOnly P ⟨n, .job (.block d.body), m₁.starting d⟩) :
    (m'.starting c).thread.Holds P := by
  have hcleanup : ∀ {d m₁}, Activation.RaisesOnly P ⟨n, .job (.block d.body), m₁.starting d⟩ →
      m₁.thread.Holds P → (startCleanup (Job.run n) d).Ends (Thread.Holds P) m₁ := fun hd h₁ =>
    Thread.Holds.startCleanup (hd.ends (h₁.of_current (Machine.current_starting _ _)))
  induction h with
  | @here f fs cs c ds m m₁ hp h =>
    have hleft := (holds_startAll cs hm fun es d gs m₂ hcs hes h₂ => ?_).returned h
    · exact hleft.of_current (Machine.current_starting _ _)
    · have hpending : f.pending = es ++ d :: (gs ++ c :: ds) := by simp [hp, hcs]
      exact hcleanup (H _ _ (.here hpending hes)) h₂
  | @later f fs c o m m₁ m₂ h hl ih =>
    refine ih (holds_startAll f.pending hm (fun es d gs m₃ hcs hes h₃ => ?_) _ _ h)
      fun d m₃ hs => H d m₃ (.later h hs)
    exact hcleanup (H _ _ (.here hcs hes)) h₃

theorem StartsThread.holds (h : StartsThread a b) (hm : a.machine.thread.Holds P) :
    b.machine.thread.Holds P := by
  cases h with
  | plain => exact .of_none rfl
  | spawned => exact .of_none rfl

/-- Whatever is run in the course of a piece starts with something in its record that was there or
has been raised. -/
theorem Brings.holds (h : Brings a b) (hr : a.RaisesOnly P) (hm : a.machine.thread.Holds P) :
    b.machine.thread.Holds P := by
  have hcleanups : ∀ {c}, TearsDown a c → c.RaisesOnly P := fun h => hr.of_brings (.cleanup h)
  cases h with
  | call e => exact hr.called e hm
  | thread h => exact h.holds hm
  | cleanup h =>
    cases h with
    | thread h hl hs =>
      have hleft := (hr.of_brings (.thread h)).ends (h.holds hm) _ _ hl
      exact hs.holds (hleft.of_current rfl) fun d m₁ hd => hcleanups (.thread h hl hd)
    | process hs => exact hs.holds (hm.of_current rfl) fun d m₁ hd => hcleanups (.process hd)

/-! ## Along a program -/

namespace Program.Course

variable {w : Surroundings} {p : Program} (h : p.Course w n b)
  (hr : ∀ c v, p.Course w n c → c.Raises v → P (.of v))
include h hr

theorem raisesOnly : b.RaisesOnly P := fun c v hc hv => hr c v (h.trans hc) hv

/-- What is in the record wherever a program comes to was raised in the course of the program. -/
theorem holds : b.machine.thread.Holds P := by
  have hfirst : (Machine.fresh w).thread.Holds P := .of_none rfl
  refine h.keeps (I := fun m => m.thread.Holds P) hfirst (fun hprocess hl => ?_) fun hc hb =>
    hb.holds (hc.raisesOnly hr)
  have hleft := (hprocess.raisesOnly hr).ends hfirst _ _ hl
  exact hleft

end Program.Course

/-! ## Values -/

/-- Whether the exception in the record, if there is one, was made from a value. -/
def Machine.HoldsValue (m : Machine) : Prop := m.thread.Holds fun e => ∃ v, e = .of v

theorem Activation.raisesOnly_values (a : Activation) :
    a.RaisesOnly fun e => ∃ v, e = .of v := fun _ v _ _ => ⟨v, rfl⟩

/-- Every piece leaves values in the record, however it is left. -/
theorem holdsValue_of_leaves (hm : a.machine.HoldsValue) (h : a.run.Leaves o m) : m.HoldsValue :=
  a.raisesOnly_values.ends hm _ _ h

/-- Whatever is called where the record holds a value starts with a value in the record. -/
theorem holdsValue_of_enters (e : Enters a l b) (hm : a.machine.HoldsValue) :
    b.machine.HoldsValue := a.raisesOnly_values.called e hm

theorem Activation.IsStart.holdsValue (h : a.IsStart) : a.machine.HoldsValue := by
  cases h with
  | body hm => exact .of_none (congrArg Thread.current hm)
  | session hm => exact .of_none (congrArg Thread.current hm)

/-- Wherever a thread comes to, the exception in the record was made from a value. -/
theorem Stack.holdsValue {K : List (Label × Activation)} (h : Stack K a) :
    a.machine.HoldsValue := by
  induction h with
  | start h => exact h.holdsValue
  | ended h hl hm hs =>
    have hend := holdsValue_of_leaves h.holdsValue hl
    obtain rfl | ⟨r, rfl⟩ := hm
    · exact hs.holds hend fun _ _ _ => Activation.raisesOnly_values _
    · exact hs.holds hend fun _ _ _ => Activation.raisesOnly_values _
  | exiting h hs ih => exact hs.holds ih fun _ _ _ => Activation.raisesOnly_values _
  | call h e ih => exact holdsValue_of_enters e ih

end

end NonlocalExit
