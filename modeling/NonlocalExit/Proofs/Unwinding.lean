import NonlocalExit.Proofs.Calls

/-!
# What a piece of a run does by what it has called

Equations for the pieces of a run: for guarded calls of hooks, for the stages of try blocks, and for
what is done about an exception.  Each says what is left to do once a part has returned, or was left
by an unwind or a halt.
-/

namespace NonlocalExit

variable [Declarations]

open Effect

namespace Effect

variable {α β : Type} {m m₁ m₂ : Machine} {t : Transfer}

theorem run_bind_congr {x x' : Effect α} {f : α → Effect β} (h : x.run m = x'.run m₁) :
    (x >>= f).run m = (x' >>= f).run m₁ := by rw [run_bind, run_bind, h]

theorem run_onExit_unwound {x : Effect α} {y : Effect Unit} (hx : x.run m = ⟨.unwound t, m₁⟩)
    (hy : y.run m₁ = ⟨.returned (), m₂⟩) : (onExit x y).run m = ⟨.unwound t, m₂⟩ :=
  unwound_of_leaves (leaves_onExit.2 (.inr ⟨t, m₁, hx, leaves_of_returned hy, rfl⟩))

theorem run_onExit_of_exit {x : Effect α} {y : Effect Unit}
    (hx : (x.run m).Leaves none m₁) (hy : y.run m₁ = ⟨.unwound t, m₂⟩) :
    (onExit x y).run m = ⟨.unwound t, m₂⟩ := by
  obtain ⟨a, hx⟩ := returned_of_leaves hx
  exact unwound_of_leaves (leaves_onExit.2 (.inl ⟨a, m₁, hx, leaves_of_unwound hy⟩))

theorem run_onExit_returned {x : Effect α} {y : Effect Unit} {a : α}
    (hx : x.run m = ⟨.returned a, m₁⟩) (hy : y.run m₁ = ⟨.returned (), m₂⟩) :
    (onExit x y).run m = ⟨.returned a, m₂⟩ := by
  rw [run_onExit, hx]
  exact run_bind_returned hy

theorem run_onExit_congr {x x' : Effect α} {y : Effect Unit} (h : x.run m = x'.run m₁) :
    (onExit x y).run m = (onExit x' y).run m₁ := by rw [run_onExit, run_onExit, h]

section Halts

variable {x : Effect α} {y : Effect Unit} {h : Halt}

theorem run_abortOnUnwind_halted (hx : x.run m = ⟨.halted h, m₁⟩) :
    x.abortOnUnwind.run m = ⟨.halted h, m₁⟩ := by rw [run_abortOnUnwind, hx]

theorem run_onExit_halted (hx : x.run m = ⟨.halted h, m₁⟩) :
    (onExit x y).run m = ⟨.halted h, m₁⟩ := by rw [run_onExit, hx]

theorem run_onExit_returned_halted {a : α} (hx : x.run m = ⟨.returned a, m₁⟩)
    (hy : y.run m₁ = ⟨.halted h, m₂⟩) : (onExit x y).run m = ⟨.halted h, m₂⟩ := by
  rw [run_onExit, hx]
  exact run_bind_halted hy

theorem run_onExit_unwound_halted (hx : x.run m = ⟨.unwound t, m₁⟩)
    (hy : y.run m₁ = ⟨.halted h, m₂⟩) : (onExit x y).run m = ⟨.halted h, m₂⟩ := by
  rw [run_onExit, hx]
  exact run_bind_halted (run_abortOnUnwind_halted hy)

theorem run_catchUnwind_halted (hx : x.run m = ⟨.halted h, m₁⟩) :
    (catchUnwind x).run m = ⟨.halted h, m₁⟩ := by rw [run_catchUnwind, hx]

theorem run_capture_halted {x : Effect Unit} (hx : x.run m = ⟨.halted h, m₁⟩) :
    (capture x).run m = ⟨.halted h, m₁⟩ := by rw [run_capture, hx]

end Halts

theorem run_catchUnwind_unwound {x : Effect α} (hx : x.run m = ⟨.unwound t, m₁⟩) :
    (catchUnwind x).run m = ⟨.returned (.error t), m₁⟩ := by rw [run_catchUnwind, hx]

theorem run_catchUnwind_returned {x : Effect α} {a : α} (hx : x.run m = ⟨.returned a, m₁⟩) :
    (catchUnwind x).run m = ⟨.returned (.ok a), m₁⟩ := by rw [run_catchUnwind, hx]

theorem run_capture_unwound {x : Effect Unit} (hx : x.run m = ⟨.unwound t, m₁⟩)
    (ht : t.escape? = none) : (capture x).run m = ⟨.unwound t, m₁⟩ := by
  rw [run_capture, hx]
  simp only [ht]

theorem run_capture_escaped {x : Effect Unit} {escape : Escape} (hx : x.run m = ⟨.unwound t, m₁⟩)
    (ht : t.escape? = some escape) : (capture x).run m = ⟨.returned (some escape), m₁⟩ := by
  rw [run_capture, hx]
  simp only [ht]

theorem run_capture_returned {x : Effect Unit} (hx : x.run m = ⟨.returned (), m₁⟩) :
    (capture x).run m = ⟨.returned none, m₁⟩ := by rw [run_capture, hx]

theorem run_never_unwound {x : Effect Empty} (hx : x.run m = ⟨.unwound t, m₁⟩) :
    (never x : Effect α).run m = ⟨.unwound t, m₁⟩ := run_bind_unwound hx

theorem unwound_of_never {x : Effect Empty} (hx : (never x : Effect α).run m = ⟨.unwound t, m₁⟩) :
    x.run m = ⟨.unwound t, m₁⟩ := by
  obtain ⟨a, _⟩ | ⟨_, h, ⟨⟩⟩ := leaves_bind.1 (leaves_of_unwound hx)
  · cases a
  · exact h

theorem halted_of_never {x : Effect Empty} {h : Halt}
    (hx : (never x : Effect α).run m = ⟨.halted h, m₁⟩) :
    x.run m = ⟨.halted h, m₁⟩ := by
  unfold never at hx
  rw [run_bind] at hx
  rcases hr : x.run m with ⟨e | t | h', m'⟩
  · cases e
  · simp [hr] at hx
  · simpa [hr] using hx

theorem run_never_halted {x : Effect Empty} {h : Halt} (hx : x.run m = ⟨.halted h, m₁⟩) :
    (never x : Effect α).run m = ⟨.halted h, m₁⟩ := run_bind_halted hx

/-- What waits for an effect that never returns is not run. -/
theorem run_bind_never (x : Effect Empty) (f : α → Effect β) (m : Machine) :
    (never x >>= f).run m = (never x : Effect β).run m := by
  unfold never
  rw [run_bind, run_bind, run_bind]
  obtain ⟨e | _ | _, _⟩ := x.run m
  · exact nomatch e
  · rfl
  · rfl

theorem run_times_append (x : Effect Unit) : ∀ (i j : Nat) (m : Machine),
    (Effect.times x (i + j)).run m = (Effect.times x i >>= fun _ => Effect.times x j).run m
  | 0, j, m => by rw [Nat.zero_add]; rfl
  | i + 1, j, m => by
    rw [Nat.add_right_comm]
    show (x >>= fun _ => Effect.times x (i + j)).run m =
      ((x >>= fun _ => Effect.times x i) >>= fun _ => Effect.times x j).run m
    rw [run_bind_assoc, run_bind, run_bind]
    obtain ⟨_ | _ | _, m'⟩ := x.run m
    · exact run_times_append x i j m'
    · rfl
    · rfl

/-! ## Guarded calls -/

theorem run_protect (body : Nat → Effect α) (m : Machine) :
    (protect body).run m =
      (onExit (body m.thread.depth) (unprotect m.thread.depth)).run m.deeper := rfl

theorem run_unprotect (link : Nat) (m : Machine) :
    (unprotect link).run m = ⟨.returned (), m.unprotected link⟩ := rfl

end Effect

/-- What a guarded call makes of how it was left, and of the machine. -/
def Outcome.caught (leave : Machine → Machine) : Outcome Unit → Outcome Bool
  | ⟨.returned _, m⟩ => ⟨.returned false, leave m⟩
  | ⟨.unwound t, m⟩ => ⟨if t.escape? = none then .unwound t else .returned true, leave m⟩
  | ⟨.halted h, m⟩ => ⟨.halted h, m⟩

section

variable {leave : Machine → Machine} {m m' : Machine} {t : Transfer}

theorem caught_unwound (ht : t.escape? = none) :
    Outcome.caught leave ⟨.unwound t, m⟩ = ⟨.unwound t, leave m⟩ := by
  simp only [Outcome.caught, if_pos ht]

theorem caught_escaped (ht : t.escape? ≠ none) :
    Outcome.caught leave ⟨.unwound t, m⟩ = ⟨.returned true, leave m⟩ := by
  simp only [Outcome.caught, if_neg ht]

theorem unwound_of_caught {out : Outcome Unit} (h : out.caught leave = ⟨.unwound t, m'⟩) :
    ∃ m, out = ⟨.unwound t, m⟩ ∧ t.escape? = none ∧ m' = leave m := by
  obtain ⟨_ | t' | _, m⟩ := out
  · cases h
  · by_cases ht : t'.escape? = none
    · rw [caught_unwound ht] at h
      cases h
      exact ⟨m, rfl, ht, rfl⟩
    · rw [caught_escaped ht] at h
      cases h
  · cases h

end

namespace Effect

variable {exec : Executor}

theorem run_guarded (x : Effect Unit) (m : Machine) :
    (guarded x).run m = (x.run m.deeper).caught (·.unprotected m.thread.depth) := by
  show (protect fun _ => capture x >>= fun r => pure r.isSome).run m = _
  rw [run_protect]
  rcases hx : x.run m.deeper with ⟨_ | t | h, m'⟩
  · exact run_onExit_returned (run_bind_returned (run_capture_returned hx)) (run_unprotect _ _)
  · by_cases ht : t.escape? = none
    · rw [caught_unwound ht]
      exact run_onExit_unwound (run_bind_unwound (run_capture_unwound hx ht)) (run_unprotect _ _)
    · rw [caught_escaped ht]
      obtain ⟨escape, hescape⟩ := Option.ne_none_iff_exists'.1 ht
      have hcaught : (capture x >>= fun r => pure r.isSome).run m.deeper =
          ⟨.returned true, m'⟩ := run_bind_returned (run_capture_escaped hx hescape)
      exact run_onExit_returned hcaught (run_unprotect _ _)
  · exact run_onExit_halted (run_bind_halted (run_capture_halted hx))

/-- How the guarded call of a hook ends, by the run of its block. -/
theorem run_guarded_callHook (kind : HookKind) (b : Block) (e : Exception) (m : Machine) :
    (guarded (callHook exec kind b e)).run m =
      ((exec (.block b)).run (m.hookCalled kind e)).caught (·.hookEnded kind m.thread.depth) := by
  have hcall : (callHook exec kind b e).run m.deeper =
      (onExit (exec (.block b)) (step (.hookEnded kind))).run (m.hookCalled kind e) := rfl
  rw [run_guarded, hcall]
  rcases hb : (exec (.block b)).run (m.hookCalled kind e) with ⟨_ | t | h, m'⟩
  · rw [run_onExit_returned hb (run_step _ _)]
    rfl
  · rw [run_onExit_unwound hb (run_step _ _)]
    rfl
  · rw [run_onExit_halted hb]
    rfl

theorem run_guarded_runThrowHook (b : Block) (e : Exception) (m : Machine) :
    (guarded (runThrowHook exec b e)).run (m.note (.step (.dispatched e))) =
      ((exec (.block b)).run (m.throwHookCalled e)).caught (·.throwHookLeft m.thread.depth) := by
  have hcall : (runThrowHook exec b e).run (m.note (.step (.dispatched e))).deeper =
      (onExit (onExit (exec (.block b)) (step (.hookEnded .onThrow)))
        (modifyThread fun t => { t with hookRunning := false })).run (m.throwHookCalled e) := rfl
  rw [run_guarded, hcall]
  rcases hb : (exec (.block b)).run (m.throwHookCalled e) with ⟨_ | t | h, m'⟩
  · rw [run_onExit_returned (run_onExit_returned hb (run_step _ _)) rfl]
    rfl
  · rw [run_onExit_unwound (run_onExit_unwound hb (run_step _ _)) rfl]
    rfl
  · rw [run_onExit_halted (run_onExit_halted hb)]
    rfl

theorem run_hookLeft {kind : HookKind} (hk : kind ≠ .onThrow) (link : Nat) (m : Machine) :
    (hookLeft kind link).run m = ⟨.returned (), m.hookEnded kind link⟩ := by
  unfold hookLeft
  rw [if_neg hk]
  rfl

theorem run_hookLeft_onThrow (link : Nat) (m : Machine) :
    (hookLeft .onThrow link).run m = ⟨.returned (), m.throwHookLeft link⟩ := rfl

end Effect

namespace TryBlock

variable {exec : Executor} {m m₁ m₂ : Machine} {t : Transfer} {e : Exception}
  {body b : Block} {clauses : List (Trigger × Block)} {trigger : Trigger} {start : Event}

/-! ## Clauses -/

/-- A clause as the try block has it. -/
def catchOf (exec : Executor) : Trigger × Block → Catch
  | (.typed t, b) =>
    ⟨some t, fun e =>
      match e.downcast? t with
      | some v => do
        report (.caught v)
        exec (.block b)
      | none => pure ()⟩
  | (_, b) =>
    ⟨none, fun e => do
      report (.caughtAny e)
      exec (.block b)⟩

theorem run_warnRepeated : ∀ (bs : List Block) (m : Machine),
    (warnRepeated bs).run m = ⟨.returned (), m.warned bs⟩
  | [], _ => rfl
  | [_], _ => rfl
  | _ :: b :: rest, m => run_warnRepeated (b :: rest) (m.note (.log .secondFinally))

theorem thread_warned : ∀ (bs : List Block) (m : Machine), (m.warned bs).thread = m.thread
  | [], _ => rfl
  | [_], _ => rfl
  | _ :: b :: rest, m => thread_warned (b :: rest) (m.note (.log .secondFinally))

theorem run_select (e : Exception) : ∀ (clauses : List (Trigger × Block)) (m : Machine),
    (select e (catchesOf exec clauses)).run m =
      ⟨.returned ((firstMatch e clauses).map (catchOf exec)), m.passedOver e clauses⟩
  | [], _ => rfl
  | (.typed t, b) :: rest, m => by
    have ih := run_select e rest
    unfold firstMatch Machine.passedOver
    by_cases htag : e.tag = t.tag
    · by_cases htype : e.type = t
      · simp only [catchesOf, select, htag, htype, ↓reduceIte, and_self]
        rfl
      · simp only [catchesOf, select, htag, htype, ↓reduceIte, and_false]
        exact ih _
    · simp only [catchesOf, select, htag, ↓reduceIte, false_and]
      exact ih m
  | (.any, b) :: rest, m => rfl
  | (.completion, b) :: rest, m => run_select e rest m

theorem run_handler (hs : start? e trigger = some start) (m : Machine) :
    ((catchOf exec (trigger, b)).handler e).run m =
      (exec (.block b)).run (m.note (.event start)) := by
  cases trigger with
  | typed t =>
    obtain ⟨v, hv, rfl⟩ := Option.map_eq_some_iff.1 hs
    simp only [catchOf, hv]
    rfl
  | any => cases hs; rfl
  | completion => cases hs

/-! ## Stages -/

/-- What is left to do after the clauses. -/
def lastStages (exec : Executor) (clauses : List (Trigger × Block)) (link : Nat)
    (pending : Option Exception) : Effect (Option Exception) := do
  runCompletion exec link <| (completionsOf clauses).getLast?.map fun final => do
    report .completing
    exec (.block final)
  advance link .finishing .propagating
  pure pending

theorem run_stages (outer : Option Exception) (link : Nat) (m : Machine) :
    (runStages exec (declared exec body clauses) outer link).run m =
      (clauseStage exec body clauses outer link >>= lastStages exec clauses link).run
        (m.stage link .trying .trying) := by
  unfold clauseStage bodyStage
  rw [run_bind_assoc, run_bind_assoc]
  show (TryBlock.runBody exec (exec (.block body)) >>= fun escaped => _).run
    (m.stage link .trying .trying) = _
  rw [run_bind, run_bind]
  obtain ⟨escaped | _ | _, m₁⟩ :=
    (TryBlock.runBody exec (exec (.block body))).run (m.stage link .trying .trying)
  · show (runCatches exec (catchesOf exec clauses) outer link escaped >>= fun pending => _).run
      (m₁.stage link .trying .catching) =
        ((runCatches exec (catchesOf exec clauses) outer link escaped >>= fun pending => _) >>=
          _).run (m₁.stage link .trying .catching)
    rw [run_bind_assoc]
    rfl
  · rfl
  · rfl

theorem bodyStage_escaped (link : Nat) {escape : Escape}
    (h : (exec (.block body)).run m = ⟨.unwound t, m₁⟩) (ht : t.escape? = some escape)
    (hc : m₁.thread.current = some e) :
    (bodyStage exec body link).run m = ⟨.returned (some e), m₁.stage link .trying .catching⟩ := by
  have hb : (TryBlock.runBody exec (exec (.block body))).run m = ⟨.returned (some e), m₁⟩ := by
    refine (run_bind_returned (run_capture_escaped h ht)).trans ?_
    show (current >>= _).run m₁ = _
    rw [run_bind_returned (run_current m₁), hc]
    rfl
  exact run_bind_returned hb

/-- The clause that matches is captured, and what is done next depends on the outcome. -/
theorem run_runCatch {outer : Option Exception} {link : Nat}
    (hm : firstMatch e clauses = some (trigger, b)) (m : Machine) :
    (runCatches exec (catchesOf exec clauses) outer link (some e)).run m =
      (capture ((catchOf exec (trigger, b)).handler e) >>= fun escape => do
        let pending ← settle exec outer e escape
        advance link .unexpected .catching
        pure pending).run ((m.passedOver e clauses).stage link .catching .unexpected) := by
  show (select e (catchesOf exec clauses) >>= _).run m = _
  rw [run_bind_returned (run_select e clauses m), hm]
  rfl

theorem capture_handler_unwound (hs : start? e trigger = some start)
    (h : (exec (.block b)).run (m.note (.event start)) = ⟨.unwound t, m₁⟩) :
    ((catchOf exec (trigger, b)).handler e).run m = ⟨.unwound t, m₁⟩ := by
  rw [run_handler hs, h]

/-- A try block from the start of its body on. -/
theorem run_attempt (m : Machine) :
    (Stmt.perform exec (.attempt body clauses)).run m =
      (protect (runStages exec (declared exec body clauses) m.thread.current) >>= fun pending =>
        match pending with
        | none => pure ()
        | some e => do
          setCurrent (some e)
          never (dispatch exec)).run (m.warned (completionsOf clauses)) := by
  show (warnRepeated (completionsOf clauses) >>= _).run m = _
  rw [run_bind_returned (run_warnRepeated _ _)]
  show (current >>= _).run (m.warned (completionsOf clauses)) = _
  rw [run_bind_returned (show current.run (m.warned (completionsOf clauses)) =
    ⟨.returned (m.warned (completionsOf clauses)).thread.current, _⟩ from rfl), thread_warned]
  rfl

end TryBlock

/-! ## The end of a thread -/

section

variable {exec : Executor} {m m₁ m₂ : Machine} {t : Transfer} {e : Exception} {b : Block}

theorem run_unexpected (m : Machine) :
    (unexpected exec).run m =
      (match m.shared.hooks.onUnexpected, m.thread.current with
        | some hook, some e => guarded (callHook exec .onUnexpected hook e) >>= fun escaped =>
          if escaped then do
            log .hookThrew
            setHook .onUnexpected none
            failUnexpected
          else abandon
        | _, _ => failUnexpected : Effect Empty).run m := rfl

theorem run_unhandled (m : Machine) :
    (unhandled exec).run m =
      (match m.shared.hooks.onUnhandled, m.thread.current with
        | some hook, some e => guarded (callHook exec .onUnhandled hook e) >>= fun escaped =>
          if escaped then unexpected exec else abandon
        | _, e => do
          diagnose (.unhandled (e.map (·.tag)))
          abandon : Effect Empty).run m := rfl

theorem run_callThrowHook (m : Machine) :
    (callThrowHook exec).run m =
      (match m.shared.hooks.onThrow, m.thread.hookRunning, m.thread.current with
        | some hook, false, some e => guarded (runThrowHook exec hook e) >>= fun escaped =>
          if escaped then never (unexpected exec) else pure ()
        | _, _, _ => pure () : Effect Unit).run m := rfl

theorem run_rethrow (m : Machine) :
    (rethrow exec).run m =
      (match m.thread.current with
        | none => log .rethrowWithoutException >>= fun _ => unexpected exec
        | some _ => depth >>= fun d => if d = 0 then unhandled exec else unwind .rethrown :
        Effect Empty).run m := rfl

theorem run_meetFault (cause : FaultCause) (m : Machine) :
    (meetFault exec cause).run m =
      match m.reception cause with
      | .held => ⟨.returned (), m⟩
      | .stopped h => ⟨.halted h, m⟩
      | .dismissed => ⟨.returned (), m.dismissed cause.signal⟩
      | .trapped deferred =>
        (never (raise exec cause.fault.toValue)).run (m.trapEntered deferred cause.signal) := by
  unfold meetFault
  rw [run_bind_returned (run_machine m)]
  cases m.reception cause <;> rfl

theorem run_meetFault_trapped {cause : FaultCause} {deferred : Bool} {m : Machine}
    (h : m.reception cause = .trapped deferred) :
    (meetFault exec cause).run m =
      (never (raise exec cause.fault.toValue)).run (m.trapEntered deferred cause.signal) := by
  rw [run_meetFault, h]

theorem run_unexpected_hook (hb : m.shared.hooks.onUnexpected = some b)
    (he : m.thread.current = some e) :
    (unexpected exec).run m =
      (guarded (callHook exec .onUnexpected b e) >>= fun escaped =>
        if escaped then do
          log .hookThrew
          setHook .onUnexpected none
          failUnexpected
        else abandon).run m := by
  rw [run_unexpected, hb, he]

theorem run_unhandled_hook (hb : m.shared.hooks.onUnhandled = some b)
    (he : m.thread.current = some e) :
    (unhandled exec).run m =
      (guarded (callHook exec .onUnhandled b e) >>= fun escaped =>
        if escaped then unexpected exec else abandon).run m := by
  rw [run_unhandled, hb, he]

/-- The throw hook is called while no other call of it runs. -/
theorem run_callThrowHook_hook (hb : m.shared.hooks.onThrow = some b)
    (hr : m.thread.hookRunning = false) (he : m.thread.current = some e) :
    (callThrowHook exec).run m =
      (guarded (runThrowHook exec b e) >>= fun escaped =>
        if escaped then never (unexpected exec) else pure ()).run m := by
  rw [run_callThrowHook, hb, hr, he]

theorem run_dispatch (m : Machine) :
    (dispatch exec).run m =
      ((noteDispatch m.thread.current >>= fun _ => callThrowHook exec) >>= fun _ => do
        if (← depth) > 0 then unwind .thrown
        else unhandled exec).run m := by
  rw [run_bind_assoc]
  rfl

/-- What the throw hook does to an exception that starts to look for a try block. -/
theorem run_noteDispatch_hook (hb : m.shared.hooks.onThrow = some b)
    (hr : m.thread.hookRunning = false) (he : m.thread.current = some e) :
    (noteDispatch m.thread.current >>= fun _ => callThrowHook exec).run m =
      (guarded (runThrowHook exec b e) >>= fun escaped =>
        if escaped then never (unexpected exec) else pure ()).run
          (m.note (.step (.dispatched e))) := by
  rw [he]
  show (callThrowHook exec).run (m.note (.step (.dispatched e))) = _
  exact run_callThrowHook_hook hb hr he

theorem Machine.thread_dispatchNoted : m.dispatchNoted.thread = m.thread := by
  unfold dispatchNoted
  split <;> rfl

/-- Where no throw hook is to be called, nothing but the dispatch is written down. -/
theorem run_noteDispatch_idle (hidle : ¬∃ b e, m.shared.hooks.onThrow = some b ∧
      m.thread.hookRunning = false ∧ m.thread.current = some e) :
    (noteDispatch m.thread.current >>= fun _ => callThrowHook exec).run m =
      ⟨.returned (), m.dispatchNoted⟩ := by
  have hnote : (noteDispatch m.thread.current).run m = ⟨.returned (), m.dispatchNoted⟩ := by
    unfold Machine.dispatchNoted
    cases m.thread.current <;> rfl
  have hhooks : m.dispatchNoted.shared.hooks = m.shared.hooks := by
    unfold Machine.dispatchNoted
    split <;> rfl
  rw [run_bind_returned hnote, run_callThrowHook, Machine.thread_dispatchNoted, hhooks]
  split
  · rename_i b e hb hr he
    exact (hidle ⟨b, e, hb, hr, he⟩).elim
  · rfl

/-- How an exception is left that starts to look for a try block, before it is sent there: no throw
hook is to be called, the hook has returned or an unwind of its own has left it, or it threw. -/
inductive SendOff (exec : Executor) (m : Machine) : Option Transfer → Machine → Prop
  | idle (h : ¬∃ b e, m.shared.hooks.onThrow = some b ∧ m.thread.hookRunning = false ∧
      m.thread.current = some e) : SendOff exec m none m.dispatchNoted
  | called {b e o m₁} (hb : m.shared.hooks.onThrow = some b) (hr : m.thread.hookRunning = false)
    (he : m.thread.current = some e)
    (h : ((exec (.block b)).run (m.throwHookCalled e)).Leaves o m₁)
    (ho : ∀ t, o = some t → t.escape? = none) :
    SendOff exec m o (m₁.throwHookLeft m.thread.depth)
  | threw {b e t o m₁ m'} (hb : m.shared.hooks.onThrow = some b)
    (hr : m.thread.hookRunning = false) (he : m.thread.current = some e)
    (h : (exec (.block b)).run (m.throwHookCalled e) = ⟨.unwound t, m₁⟩) (ht : t.escape? ≠ none)
    (hu : ((unexpected exec).run (m₁.throwHookLeft m.thread.depth)).Leaves o m') :
    SendOff exec m o m'

theorem sendOff_of_leaves {o : Option Transfer} {m' : Machine}
    (h : ((noteDispatch m.thread.current >>= fun _ => callThrowHook exec).run m).Leaves o m') :
    SendOff exec m o m' := by
  by_cases hhook : ∃ b e, m.shared.hooks.onThrow = some b ∧ m.thread.hookRunning = false ∧
      m.thread.current = some e
  · obtain ⟨b, e, hb, hr, he⟩ := hhook
    rw [run_noteDispatch_hook hb hr he, run_bind, run_guarded_runThrowHook] at h
    rcases hx : (exec (.block b)).run (m.throwHookCalled e) with ⟨_ | t | _, m₁⟩
    · rw [hx] at h
      cases h
      exact .called hb hr he (leaves_of_returned hx) nofun
    · rw [hx] at h
      by_cases ht : t.escape? = none
      · rw [caught_unwound ht] at h
        cases h
        exact .called hb hr he (leaves_of_unwound hx) fun t' ht' => by cases ht'; exact ht
      · rw [caught_escaped ht] at h
        obtain ⟨e', _, _, _⟩ | ⟨t', hu, rfl⟩ := leaves_bind.1 h
        · exact nomatch e'
        · exact .threw hb hr he hx ht (leaves_of_unwound hu)
    · rw [hx] at h
      cases h
  · rw [run_noteDispatch_idle hhook] at h
    cases h
    exact .idle hhook

end

end NonlocalExit
