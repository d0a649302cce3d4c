import NonlocalExit.Proofs.Unwinding

/-!
# How a piece ends by what it has called

A halt of what a piece has called is a halt of the piece, and so is an unwind that the call lets
pass, once what is run on exit has returned.  `Outcome.GoesThrough` says both at once, of an effect
and a part of it; it is shown for each way in which effects are put together, then for each kind of
task, and `goesThrough_of_enters` collects these.  `unwound_of_enters` and `halted_of_enters` read
off it what is needed further on.
-/

namespace NonlocalExit

variable [Declarations]

open Effect

/-- Whether an effect ends as a part of it has ended: it halts if the part has halted, and it is
left by an unwind that has left the part and passes, on the machine that `exit` has returned
with. -/
def Outcome.GoesThrough {α β : Type} (passes : Transfer → Prop) (exit : Effect Unit) :
    Outcome α → Outcome β → Prop
  | ⟨.returned _, _⟩, _ => True
  | ⟨.unwound t, m⟩, out =>
    passes t → ∀ m', exit.run m = ⟨.returned (), m'⟩ → out = ⟨.unwound t, m'⟩
  | ⟨.halted h, m⟩, out => out = ⟨.halted h, m⟩

namespace Outcome.GoesThrough

variable {α β γ : Type} {passes passes' : Transfer → Prop} {exit exit' y : Effect Unit}
  {out : Outcome α} {out' out'' : Outcome β} {x : Effect β} {m m₁ m₂ : Machine}

theorem of_ends
    (hunwound : ∀ t m₁ m₂, out = ⟨.unwound t, m₁⟩ → passes t → exit.run m₁ = ⟨.returned (), m₂⟩ →
      out' = ⟨.unwound t, m₂⟩)
    (hhalted : ∀ h m₁, out = ⟨.halted h, m₁⟩ → out' = ⟨.halted h, m₁⟩) :
    out.GoesThrough passes exit out' := by
  obtain ⟨a | t | h, m₁⟩ := out
  · trivial
  · exact fun hp m₂ he => hunwound t m₁ m₂ rfl hp he
  · exact hhalted h m₁ rfl

theorem unwound {t : Transfer} (h : out.GoesThrough passes exit out')
    (hout : out = ⟨.unwound t, m₁⟩) (hp : passes t) (he : exit.run m₁ = ⟨.returned (), m₂⟩) :
    out' = ⟨.unwound t, m₂⟩ := by
  subst hout
  exact h hp m₂ he

theorem halted {e : Halt} (h : out.GoesThrough passes exit out') (hout : out = ⟨.halted e, m₁⟩) :
    out' = ⟨.halted e, m₁⟩ := by
  subst hout
  exact h

theorem refl (out : Outcome α) : out.GoesThrough passes (pure ()) out :=
  of_ends (fun t m₁ m₂ h _ he => by cases he; exact h) fun _ _ h => h

theorem of_eq (heq : out' = out'') (h : out.GoesThrough passes exit out'') :
    out.GoesThrough passes exit out' := heq ▸ h

theorem mono (h : out.GoesThrough passes exit out') (hp : ∀ t, passes' t → passes t) :
    out.GoesThrough passes' exit out' :=
  of_ends (fun t _ _ hout ht he => h.unwound hout (hp t ht) he) fun _ _ hout => h.halted hout

/-- Where no unwind passes, it is the halts that go through. -/
theorem halts (h : out.GoesThrough passes exit out') :
    out.GoesThrough (fun _ => False) exit' out' :=
  of_ends (fun _ _ _ _ hp _ => hp.elim) fun _ _ hout => h.halted hout

/-! ## What effects are made of -/

theorem bind {f : β → Effect γ} (h : out.GoesThrough passes exit (x.run m)) :
    out.GoesThrough passes exit ((x >>= f).run m) :=
  of_ends (fun _ _ _ hout hp he => run_bind_unwound (h.unwound hout hp he))
    fun _ _ hout => run_bind_halted (h.halted hout)

/-- An effect that never returns ends alike, of whatever type it is taken for. -/
theorem never (x : Effect Empty) (m : Machine) :
    ((never x : Effect α).run m).GoesThrough passes (pure ()) ((never x : Effect β).run m) := by
  unfold Effect.never
  rw [run_bind, run_bind]
  obtain ⟨e | t | h, m₁⟩ := x.run m
  · exact nomatch e
  · exact fun _ _ he => by cases he; rfl
  · rfl

theorem discarded : ((x >>= fun _ => pure ()).run m).GoesThrough passes (pure ()) (x.run m) := by
  rw [run_bind]
  obtain ⟨b | t | h, m₁⟩ := x.run m
  · trivial
  · exact fun _ _ he => by cases he; rfl
  · rfl

theorem onExit (h : out.GoesThrough passes (pure ()) (x.run m)) :
    out.GoesThrough passes y ((onExit x y).run m) :=
  of_ends (fun _ _ _ hout hp he => run_onExit_unwound (h.unwound hout hp rfl) he)
    fun _ _ hout => run_onExit_halted (h.halted hout)

/-- What is run on exit is left by its own unwinds only if there was none before. -/
theorem ofExit {o : Option Transfer} (hx : (x.run m).Leaves o m₁)
    (h : out.GoesThrough passes exit (y.run m₁)) :
    out.GoesThrough (fun t => o = none ∧ passes t) exit ((Effect.onExit x y).run m) := by
  refine of_ends (fun t _ _ hout hp he => ?_) fun _ _ hout => ?_
  · obtain ⟨rfl, hp⟩ := hp
    exact run_onExit_of_exit hx (h.unwound hout hp he)
  · obtain ⟨a, hx, _⟩ | ⟨t, hx, _⟩ := Leaves.cases hx
    · exact run_onExit_returned_halted hx (h.halted hout)
    · exact run_onExit_unwound_halted hx (h.halted hout)

theorem catchUnwind :
    (x.run m).GoesThrough (fun _ => False) exit ((catchUnwind x).run m) :=
  of_ends (fun _ _ _ _ hp _ => hp.elim) fun _ _ hout => run_catchUnwind_halted hout

theorem capture {x : Effect Unit} (hp : ∀ t, passes t → t.escape? = none)
    (h : out.GoesThrough passes exit (x.run m)) :
    out.GoesThrough passes exit ((capture x).run m) :=
  of_ends (fun t _ _ hout ht he => run_capture_unwound (h.unwound hout ht he) (hp t ht))
    fun _ _ hout => run_capture_halted (h.halted hout)

end Outcome.GoesThrough

open Outcome (GoesThrough)

/-! ## Try blocks -/

namespace TryBlock

variable {exec : Executor} {body b final : Block} {clauses : List (Trigger × Block)}
  {trigger : Trigger} {start : Event} {e : Exception} {link : Nat}
  {outer pending : Option Exception} {m m₁ m₂ : Machine} {t : Transfer} {escape : Escape}
  {α : Type} {passes : Transfer → Prop} {out : Outcome α}

theorem goesThrough_bodyStage (exec : Executor) (body : Block) (link : Nat) (m : Machine) :
    ((exec (.block body)).run m).GoesThrough (·.escape? = none) (pure ())
      ((bodyStage exec body link).run m) :=
  ((GoesThrough.refl _).capture fun _ ht => ht).bind.bind

theorem goesThrough_bodyStage_empty (hx : (exec (.block body)).run m = ⟨.unwound t, m₁⟩)
    (ht : t.escape? = some escape) (hc : m₁.thread.current = none) :
    ((never (unexpected exec) : Effect Unit).run (m₁.note (.log (.emptyRecord escape)))).GoesThrough
      (fun _ => True) (pure ()) ((bodyStage exec body link).run m) := by
  have hbody : (TryBlock.runBody exec (exec (.block body))).run m =
      (never (unexpected exec)).run (m₁.note (.log (.emptyRecord escape))) := by
    refine (run_bind_returned (run_capture_escaped hx ht)).trans ?_
    show (current >>= _).run m₁ = _
    rw [run_bind_returned (run_current m₁), hc]
    rfl
  exact (GoesThrough.of_eq hbody (.never _ _)).bind

section Clauses

variable (hb : (bodyStage exec body link).run m = ⟨.returned (some e), m₁⟩)
  (hm : firstMatch e clauses = some (trigger, b)) (hs : start? e trigger = some start)
include hb hm hs

theorem goesThrough_clauseStage :
    ((exec (.block b)).run (m₁.clauseEntered link e clauses start)).GoesThrough
      (·.escape? = none) (pure ()) ((clauseStage exec body clauses outer link).run m) := by
  have hrun : ((catchOf exec (trigger, b)).handler e).run
      ((m₁.passedOver e clauses).stage link .catching .unexpected) =
        (exec (.block b)).run (m₁.clauseEntered link e clauses start) := run_handler hs _
  have hcaught := (GoesThrough.of_eq hrun (.refl _)).capture fun _ ht => ht
  refine .of_eq (run_bind_returned hb) (.bind (.of_eq (run_runCatch hm m₁) ?_))
  exact hcaught.bind

theorem goesThrough_clauseStage_threw
    (hx : (exec (.block b)).run (m₁.clauseEntered link e clauses start) =
      ⟨.unwound .thrown, m₂⟩) :
    ((never (unexpected exec) : Effect Unit).run m₂).GoesThrough (fun _ => True) (pure ())
      ((clauseStage exec body clauses outer link).run m) := by
  refine .of_eq (run_bind_returned hb) (.bind (.of_eq (run_runCatch hm m₁) ?_))
  refine .of_eq (run_bind_returned (run_capture_escaped (capture_handler_unwound hs hx)
    (show _ = some _ from rfl))) (.bind ?_)
  exact .never _ _

end Clauses

section Completion

variable (hf : (completionsOf clauses).getLast? = some final)
include hf

theorem run_lastStages :
    (lastStages exec clauses link pending).run m =
      ((capture (report .completing >>= fun _ => exec (.block final)) >>= fun escape => do
        refuse exec escape
        advance link .unexpected .finishing) >>= fun _ => do
          advance link .finishing .propagating
          pure pending).run (m.stage link .finishing .unexpected) := by
  unfold lastStages
  rw [hf]
  rfl

theorem goesThrough_lastStages :
    ((exec (.block final)).run (m.completionEntered link)).GoesThrough (·.escape? = none) (pure ())
      ((lastStages exec clauses link pending).run m) :=
  .of_eq (run_lastStages hf)
    (GoesThrough.capture (fun _ ht => ht) (GoesThrough.refl _)).bind.bind

theorem goesThrough_lastStages_threw
    (hx : (exec (.block final)).run (m.completionEntered link) = ⟨.unwound t, m₁⟩)
    (ht : t.escape? = some escape) :
    ((never (unexpected exec) : Effect Unit).run m₁).GoesThrough (fun _ => True) (pure ())
      ((lastStages exec clauses link pending).run m) := by
  have hc : (report .completing >>= fun _ => exec (.block final)).run
      (m.stage link .finishing .unexpected) = ⟨.unwound t, m₁⟩ := hx
  refine .of_eq (run_lastStages hf) (.bind ?_)
  exact .of_eq (run_bind_returned (run_capture_escaped hc ht)) (GoesThrough.never _ _).bind

end Completion

/-- What ends the stages of a try block ends the try block, which comes back to its level first. -/
theorem goesThrough_stages
    (h : out.GoesThrough passes (pure ())
      ((clauseStage exec body clauses m.thread.current m.thread.depth >>=
        lastStages exec clauses m.thread.depth).run (m.tryEntered clauses))) :
    out.GoesThrough passes (unprotect m.thread.depth)
      ((Stmt.perform exec (.attempt body clauses)).run m) := by
  refine .of_eq (run_attempt m) (.bind ?_)
  rw [run_protect, thread_warned]
  exact GoesThrough.onExit (.of_eq (run_stages _ _ _) h)

end TryBlock

/-! ## Calls -/

section

variable {exec : Executor} {l : Label} {b : Activation} {n : Nat} {m m₁ : Machine}
  {α β : Type} {out : Outcome α} {out' : Outcome β}

/-- What waits after something that was left in some way. -/
theorem Label.goesThrough_after {o : Option Transfer}
    (h : out.GoesThrough (fun t => o = none ∧ l.Passes t) (l.exit exec) out') :
    out.GoesThrough ((l.after o).Passes ·) ((l.after o).exit exec) out' := by
  cases o with
  | none => exact h.mono fun _ ht => ⟨rfl, ht⟩
  | some _ => exact h.halts

/-- The guarded call of a hook. -/
theorem goesThrough_callHook {kind : HookKind} {hook : Block} {e : Exception}
    (hk : kind ≠ .onThrow) :
    ((exec (.block hook)).run (m.hookCalled kind e)).GoesThrough (·.escape? = none)
      (hookLeft kind m.thread.depth) ((guarded (callHook exec kind hook e)).run m) := by
  refine .of_ends (fun t m₁ m₂ hx ht he => ?_) fun h m₁ hx => ?_
  · rw [run_hookLeft hk] at he
    cases he
    rw [run_guarded_callHook, hx, caught_unwound ht]
  · rw [run_guarded_callHook, hx]
    rfl

theorem goesThrough_runThrowHook {hook : Block} {e : Exception} :
    ((exec (.block hook)).run (m.throwHookCalled e)).GoesThrough (·.escape? = none)
      (hookLeft .onThrow m.thread.depth)
      ((guarded (runThrowHook exec hook e)).run (m.note (.step (.dispatched e)))) := by
  refine .of_ends (fun t m₁ m₂ hx ht he => ?_) fun h m₁ hx => ?_
  · rw [run_hookLeft_onThrow] at he
    cases he
    rw [run_guarded_runThrowHook, hx, caught_unwound ht]
  · rw [run_guarded_runThrowHook, hx]
    rfl

/-- While the storage is torn down, a cleanup is started at once. -/
theorem run_defer_torn (arg : Option String) (body : Block) (ht : m.thread.torn = true) :
    (defer exec arg body).run m =
      (exec (.block body)).run (m.startedLate ⟨m.shared.nextSerial, arg, body⟩) :=
  (run_defer exec m arg body).trans ((if_pos ht).trans (run_startCleanup _ _ _))

/-- The body of a recovery. -/
theorem goesThrough_recover {value : String} {body : Block} (ht : m.thread.torn = false) :
    ((Job.run n (.block body)).run m.recoveryEntered).GoesThrough
      (fun t => ∀ code, t ≠ .panicking code m.shared.nextToken)
      (endRecovery m.rootId m.tokenTaken.markFound m.thread.recovering)
      (Activation.run ⟨n, .stmt (.recover value body), m⟩) := by
  have hrun : (recover (Job.run n (.block body))).run m = (onExit _ _).run m.recoveryEntered :=
    (run_recover m _).trans (if_neg (ht ▸ Bool.false_ne_true))
  refine .bind (.of_eq hrun (.onExit (.of_ends (fun t m₁ m₂ hx hp he => ?_) fun h m₁ hx => ?_)))
  · cases he
    rw [run_settle, hx]
    cases t with
    | panicking code owner =>
      have hne : owner ≠ m.shared.nextToken := fun h => hp code (h ▸ rfl)
      simp only [hne, ↓reduceIte]
    | _ => rfl
  · rw [run_settle, hx]

/-! ### Kinds of tasks -/

/-- Blocks, and the closing of frames. -/
theorem goesThrough_of_job {j : Job} (h : Enters ⟨n, .job j, m⟩ l b) :
    b.run.GoesThrough (l.Passes ·) (l.exit (Job.run b.fuel)) (Activation.run ⟨n, .job j, m⟩) := by
  cases h with
  | block n ss m => exact (GoesThrough.refl _).onExit
  | blockLeft hl =>
    exact Label.goesThrough_after
      (.ofExit hl (.of_eq (run_leaveBlock _ _) (GoesThrough.refl _).onExit))
  | cleanup n ht hf hp =>
    exact .of_eq (closeStep_pending ht hf hp) (.bind (.of_eq (run_startCleanup _ _ _) (.refl _)))
  | closeNext ht hf hp hc =>
    exact .of_eq ((closeStep_pending ht hf hp).trans (run_bind_returned hc)) (.refl _)
  | closeInner n ht hf hbase => exact .of_eq (closeAboveStep_inner ht hf hbase) (.bind (.refl _))
  | closeAboveNext ht hf hbase hc =>
    exact .of_eq ((closeAboveStep_inner ht hf hbase).trans (run_bind_returned hc)) (.refl _)
  | passed n code ht hf hm => exact .of_eq (walkStep_passed ht code hf hm) (.bind (.refl _))
  | walkNext ht hf hm hc =>
    exact .of_eq ((walkStep_passed ht _ hf hm).trans (run_bind_returned hc)) (.refl _)

theorem goesThrough_of_rest {ss : Block} (h : Enters ⟨n, .rest ss, m⟩ l b) :
    b.run.GoesThrough (l.Passes ·) (l.exit (Job.run b.fuel)) (Activation.run ⟨n, .rest ss, m⟩) := by
  cases h with
  | first n s ss m => exact .bind (.refl _)
  | next hn => exact .of_eq (run_bind_returned hn) (.refl _)

theorem goesThrough_of_drops {count : Nat} (h : Enters ⟨n, .drops count, m⟩ l b) :
    b.run.GoesThrough (l.Passes ·) (l.exit (Job.run b.fuel))
      (Activation.run ⟨n, .drops count, m⟩) := by
  cases h with
  | drop n count hh => exact .of_eq (dropGuards_held count hh) (GoesThrough.refl _).onExit
  | dropNext hh hl =>
    exact Label.goesThrough_after (.of_eq (dropGuards_held _ hh) (.ofExit hl (.refl _)))

theorem goesThrough_of_session {status : Int32} {body : Block}
    (h : Enters ⟨n, .session status body, m⟩ l b) :
    b.run.GoesThrough (l.Passes ·) (l.exit (Job.run b.fuel))
      (Activation.run ⟨n, .session status body, m⟩) := by
  have hsession : m.thread.torn = false →
      (runBody (Job.run n) (threadBody (Job.run n) status body)).run m =
        (catchUnwind _ >>= _).run m.sessionEntered := fun ht =>
    (run_runBody _ m _).trans (if_neg (ht ▸ Bool.false_ne_true))
  cases h with
  | session n status body ht =>
    refine .bind (.of_eq (hsession ht) (.of_ends (fun t m₁ m₂ hx hp he => ?_) fun h m₁ hx => ?_))
    · refine (run_bind_returned (run_catchUnwind_unwound (run_bind_unwound hx))).trans ?_
      show (Job.run n (.closeAbove m.innermostId) >>= fun _ =>
        closeSession (!m.thread.initialised) >>= fun _ => statusOf (.error t)).run m₁ = _
      rw [← run_bind_assoc]
      refine (run_bind_returned he).trans ?_
      cases t with
      | threadExit status => exact (hp status rfl).elim
      | _ => rfl
    · exact run_bind_halted (run_catchUnwind_halted (run_bind_halted hx))
  | sessionLeft ht hl =>
    rename_i o m₁
    have hbody : ∃ r, (catchUnwind (threadBody (Job.run n) status body)).run m.sessionEntered =
        ⟨.returned r, m₁⟩ := by
      obtain ⟨_, h, _⟩ | ⟨t, h, _⟩ := Leaves.cases hl
      · exact ⟨_, run_catchUnwind_returned (run_bind_returned h)⟩
      · exact ⟨_, run_catchUnwind_unwound (run_bind_unwound h)⟩
    obtain ⟨r, hr⟩ := hbody
    exact .bind (.of_eq ((hsession ht).trans (run_bind_returned hr)) (.bind (.refl _)))

theorem goesThrough_of_dispatch (h : Enters ⟨n, .dispatch, m⟩ l b) :
    b.run.GoesThrough (l.Passes ·) (l.exit (Job.run b.fuel))
      (Activation.run ⟨n, .dispatch, m⟩) := by
  cases h with
  | throwHook n hk hr hc =>
    refine .bind (.of_eq (run_dispatch m) (.bind (.of_eq (run_noteDispatch_hook hk hr hc) ?_)))
    exact .bind goesThrough_runThrowHook
  | throwHookThrew hk hr hc hg =>
    refine .bind (.of_eq (run_dispatch m) (.bind (.of_eq (run_noteDispatch_hook hk hr hc) ?_)))
    exact .of_eq (run_bind_returned hg) (.refl _)
  | outside hn hd =>
    rename_i m₁
    have hrun : (dispatch (Job.run n)).run m = (unhandled (Job.run n)).run m₁ := by
      rw [run_dispatch, run_bind_returned hn]
      show (if m₁.thread.depth > 0 then unwind .thrown else unhandled (Job.run n) :
        Effect Empty).run m₁ = _
      rw [hd]
      rfl
    exact .of_eq (run_bind_congr hrun) (.refl _)

theorem goesThrough_of_unhandled (h : Enters ⟨n, .unhandled, m⟩ l b) :
    b.run.GoesThrough (l.Passes ·) (l.exit (Job.run b.fuel))
      (Activation.run ⟨n, .unhandled, m⟩) := by
  cases h with
  | unhandledHook n hk hc =>
    exact .bind (.of_eq (run_unhandled_hook hk hc) (.bind (goesThrough_callHook (by decide))))
  | unhandledHookThrew hk hc hg =>
    have hrun := (run_unhandled_hook hk hc).trans (run_bind_returned hg)
    exact .of_eq (run_bind_congr hrun) (.refl _)

theorem goesThrough_of_unexpected (h : Enters ⟨n, .unexpected, m⟩ l b) :
    b.run.GoesThrough (l.Passes ·) (l.exit (Job.run b.fuel))
      (Activation.run ⟨n, .unexpected, m⟩) := by
  cases h with
  | unexpectedHook n hk hc =>
    exact .bind (.of_eq (run_unexpected_hook hk hc) (.bind (goesThrough_callHook (by decide))))

theorem goesThrough_of_attempt {body : Block} {clauses : List (Trigger × Block)}
    (h : Enters ⟨n, .stmt (.attempt body clauses), m⟩ l b) :
    b.run.GoesThrough (l.Passes ·) (l.exit (Job.run b.fuel))
      (Activation.run ⟨n, .stmt (.attempt body clauses), m⟩) := by
  cases h with
  | attempt n body clauses m =>
    exact TryBlock.goesThrough_stages
      (TryBlock.goesThrough_bodyStage (Job.run n) body _ _).bind.bind
  | recordEmpty hx ht hc =>
    refine GoesThrough.mono ?_ fun _ _ => trivial
    exact TryBlock.goesThrough_stages (TryBlock.goesThrough_bodyStage_empty hx ht hc).bind.bind
  | clause hx hm hs =>
    exact TryBlock.goesThrough_stages (TryBlock.goesThrough_clauseStage hx hm hs).bind
  | clauseThrew hx hm hs hc =>
    refine GoesThrough.mono ?_ fun _ _ => trivial
    exact TryBlock.goesThrough_stages (TryBlock.goesThrough_clauseStage_threw hx hm hs hc).bind
  | completion hx hf =>
    exact TryBlock.goesThrough_stages
      (.of_eq (run_bind_returned hx) (TryBlock.goesThrough_lastStages hf))
  | completionThrew hx hf hc ht =>
    obtain ⟨escape, ht⟩ := Option.isSome_iff_exists.1 ht
    refine GoesThrough.mono ?_ fun _ _ => trivial
    exact TryBlock.goesThrough_stages
      (.of_eq (run_bind_returned hx) (TryBlock.goesThrough_lastStages_threw hf hc ht))
  | again hx =>
    exact .of_eq ((TryBlock.run_attempt m).trans (run_bind_returned hx)) (.refl _)

theorem goesThrough_of_stmt {s : Stmt} (h : Enters ⟨n, .stmt s, m⟩ l b) :
    b.run.GoesThrough (l.Passes ·) (l.exit (Job.run b.fuel)) (Activation.run ⟨n, .stmt s, m⟩) := by
  cases s with
  | attempt body clauses => exact goesThrough_of_attempt h
  | scope body =>
    have hscope : m.thread.torn = false → (scope (Job.run n) (Job.run n (.block body))).run m =
        (onExit _ _).run m.scopeEntered := fun ht =>
      (run_scope _ m _).trans (if_neg (ht ▸ Bool.false_ne_true))
    cases h with
    | scope n body ht => exact .of_eq (hscope ht) (GoesThrough.refl _).onExit
    | scopeLeft ht hl =>
      exact Label.goesThrough_after (.of_eq (hscope ht) (.ofExit hl (.refl _)))
  | repeated times body =>
    cases h with
    | repeated hi hn =>
      rename_i i m₁
      obtain ⟨j, rfl⟩ : ∃ j, times = i + (j + 1) := ⟨times - i - 1, by omega⟩
      exact .of_eq ((run_times_append _ i (j + 1) m).trans (run_bind_returned hn)) (.bind (.refl _))
  | leave name =>
    cases h with
    | leave n hp =>
      rename_i g held
      have hrelease : (releaseGuard name).run m = ⟨.returned (some g), m.withHeld held⟩ := by
        rw [run_releaseGuard, hp]
      exact .of_eq (run_bind_returned hrelease) (.refl _)
  | defer body =>
    cases h with
    | deferLate n body ht => exact .of_eq (run_defer_torn none body ht) (.refl _)
  | deferWith arg body =>
    cases h with
    | deferWithLate n arg body ht =>
      exact .bind (.of_eq (run_defer_torn (some arg) body ht) (.refl _))
  | recover value body =>
    cases h with
    | recover n value body ht => exact goesThrough_recover ht
  | run status body =>
    cases h with
    | run n status body m => exact .bind .discarded
  | intercept body =>
    cases h with
    | intercept n body m => exact .bind .catchUnwind
  | panic code =>
    cases h with
    | panic n code m =>
      have hrun : (Effect.panic (Job.run n) code).run m =
          (Job.run n (.walk code) >>= _).run (m.note (.log (.panicking code))) := rfl
      exact .bind (.of_eq hrun (.bind (.refl _)))
  | throw v =>
    cases h with
    | throw n v m =>
      have hrun : (Effect.throw (Job.run n) v).run m = (dispatch (Job.run n)).run
          ((m.note (.log (.throwing v.type.tag))).withCurrent (some (.of v))) := rfl
      exact .of_eq (run_bind_congr hrun) (.refl _)
  | fault cause =>
    cases h with
    | fault n hr => exact .of_eq (run_meetFault_trapped hr) (.refl _)
  | rethrow =>
    cases h with
    | rethrowNone n hc =>
      have hrun : (Effect.rethrow (Job.run n)).run m =
          (unexpected (Job.run n)).run (m.note (.log .rethrowWithoutException)) := by
        rw [run_rethrow, hc]
        rfl
      exact .of_eq (run_bind_congr hrun) (.refl _)
    | rethrowOutside n hc hd =>
      have hrun : (Effect.rethrow (Job.run n)).run m = (unhandled (Job.run n)).run m := by
        rw [run_rethrow, hc]
        show (if m.thread.depth = 0 then unhandled (Job.run n) else unwind .rethrown :
          Effect Empty).run m = _
        rw [hd]
        rfl
      exact .of_eq (run_bind_congr hrun) (.refl _)
  | _ => cases h

/-- A piece ends as what it has called has ended, by a halt or by an unwind that passes. -/
theorem goesThrough_of_enters {a : Activation} (h : Enters a l b) :
    b.run.GoesThrough (l.Passes ·) (l.exit (Job.run b.fuel)) a.run := by
  obtain ⟨n, T, m⟩ := a
  cases T with
  | job j => exact goesThrough_of_job h
  | rest ss => exact goesThrough_of_rest h
  | stmt s => exact goesThrough_of_stmt h
  | drops count => exact goesThrough_of_drops h
  | session status body => exact goesThrough_of_session h
  | dispatch => exact goesThrough_of_dispatch h
  | unhandled => exact goesThrough_of_unhandled h
  | unexpected => exact goesThrough_of_unexpected h

/-- An unwind that leaves a piece goes on where that piece was called. -/
theorem unwound_of_enters {a : Activation} {t : Transfer} {m₂ m₃ : Machine} (h : Enters a l b)
    (hb : b.run = ⟨.unwound t, m₂⟩) (hp : l.Passes t)
    (he : (l.exit (Job.run b.fuel)).run m₂ = ⟨.returned (), m₃⟩) : a.run = ⟨.unwound t, m₃⟩ :=
  (goesThrough_of_enters h).unwound hb hp he

/-- A halt of what a piece calls is a halt of the piece. -/
theorem halted_of_enters {a : Activation} {h : Halt} (e : Enters a l b)
    (hb : b.run = ⟨.halted h, m₁⟩) : a.run = ⟨.halted h, m₁⟩ :=
  (goesThrough_of_enters e).halted hb

end

/-! ## The bound of a run -/

/-- Whether a run is cut off by its bound. -/
def Activation.RunsOut (a : Activation) : Prop := ∃ m, a.run = ⟨.halted .outOfFuel, m⟩

section

variable {a b : Activation} {l : Label} {K : List (Label × Activation)}

theorem runsOut_of_enters (e : Enters a l b) (hb : b.RunsOut) : a.RunsOut := by
  obtain ⟨m, hb⟩ := hb
  exact ⟨m, halted_of_enters e hb⟩

/-- A run is cut off by its bound together with what it has called. -/
theorem Path.runsOut_of_runsOut (h : Path a K b) (hb : b.RunsOut) : a.RunsOut := by
  induction h with
  | here => exact hb
  | call _ e ih => exact ih (runsOut_of_enters e hb)

end

end NonlocalExit
