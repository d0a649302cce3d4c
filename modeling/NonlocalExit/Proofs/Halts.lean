import NonlocalExit.Proofs.Stages
import NonlocalExit.Proofs.Closings

/-!
# How an effect was halted

`halted_of_enters` says that a halt goes outward to everything around it; here is the way back.
When an effect that is built from others has halted, one of these has, or an unwind has left what
was run because of an unwind.  Effects that only read and change the machine never halt.
-/

namespace NonlocalExit

variable [Declarations]

open Effect

namespace Effect

variable {α β : Type} {m m' : Machine} {h : Halt}

/-! ## Effects that never halt -/

/-- Whether no run of an effect halts. -/
def NeverHalts (x : Effect α) : Prop := ∀ m h m', x.run m ≠ ⟨.halted h, m'⟩

theorem halted_bind {x : Effect α} {f : α → Effect β} (hx : (x >>= f).run m = ⟨.halted h, m'⟩) :
    (∃ a m₁, x.run m = ⟨.returned a, m₁⟩ ∧ (f a).run m₁ = ⟨.halted h, m'⟩) ∨
      x.run m = ⟨.halted h, m'⟩ := by
  rw [run_bind] at hx
  split at hx
  · rename_i a m₁ hr
    exact .inl ⟨a, m₁, hr, hx⟩
  · cases hx
  · rename_i h' m₁ hr
    cases hx
    exact .inr hr

namespace NeverHalts

theorem pure (a : α) : NeverHalts (pure a) := by
  intro m h m' hx
  cases hx

theorem machine : NeverHalts machine := by
  intro m h m' hx
  cases hx

theorem modify (f : Machine → Machine) : NeverHalts (modify f) := by
  intro m h m' hx
  cases hx

theorem unwind (t : Transfer) : NeverHalts (unwind t : Effect α) := by
  intro m h m' hx
  cases hx

theorem bind {x : Effect α} {f : α → Effect β} (hx : NeverHalts x)
    (hf : ∀ a, NeverHalts (f a)) : NeverHalts (x >>= f) := by
  intro m h m' hr
  obtain ⟨a, m₁, -, hr⟩ | hr := halted_bind hr
  · exact hf a _ _ _ hr
  · exact hx _ _ _ hr

theorem withFrames (use : FrameStack Cleanup → α × FrameStack Cleanup) :
    NeverHalts (withFrames use) := by
  refine machine.bind fun m => ?_
  dsimp only
  split
  · exact unwind _
  · exact (modify _).bind fun _ => pure _

theorem openFrame : NeverHalts openFrame :=
  (withFrames _).bind fun _ => (modify _).bind fun _ => pure _

theorem innermostOrRoot : NeverHalts innermostOrRoot := by
  refine (withFrames _).bind fun f => ?_
  split
  · exact pure _
  · exact openFrame

theorem enterFrame : NeverHalts enterFrame :=
  openFrame.bind fun _ => (modify _).bind fun _ => pure _

theorem releaseGuard (name : String) : NeverHalts (releaseGuard name) := by
  refine machine.bind fun m => ?_
  split
  · exact pure _
  · exact (modify _).bind fun _ => pure _

theorem declareThread : NeverHalts declareThread := by
  refine (machine.bind fun m => (modify _).bind fun _ => ?_).bind fun first => ?_
  · split
    · exact pure _
    · exact innermostOrRoot.bind fun _ => pure _
  · unfold warnUnless
    split
    · exact pure _
    · exact modify _

theorem setDispositions (d : Disposition) : ∀ l, NeverHalts (setDispositions d l)
  | [] => pure ()
  | _ :: rest => (modify _).bind fun _ => setDispositions d rest

theorem setTrapping (enabled : Bool) : NeverHalts (setTrapping enabled) :=
  (setDispositions _ _).bind fun _ => (modify _).bind fun _ => modify _

theorem applySettings (settings : Settings) : NeverHalts (applySettings settings) := by
  refine (modify _).bind fun _ => (machine.bind fun m => ?_).bind fun _ => modify _
  dsimp only
  split
  · exact setTrapping _
  · split
    · exact setTrapping _
    · exact pure _

theorem closeSession (owner : Bool) : NeverHalts (closeSession owner) := by
  unfold Effect.closeSession
  split
  · exact modify _
  · exact pure _

theorem statusOf : ∀ r, NeverHalts (statusOf r)
  | .ok _ => pure _
  | .error t => by cases t <;> first | exact pure _ | exact unwind _

end NeverHalts

/-! ## Effects that react to transfers -/

theorem halted_onExit {x : Effect α} {y : Effect Unit}
    (hx : (onExit x y).run m = ⟨.halted h, m'⟩) :
    x.run m = ⟨.halted h, m'⟩ ∨
      (∃ o m₁, (x.run m).Leaves o m₁ ∧ y.run m₁ = ⟨.halted h, m'⟩) ∨
      ∃ t t' m₁, x.run m = ⟨.unwound t, m₁⟩ ∧ y.run m₁ = ⟨.unwound t', m'⟩ ∧ h = .aborted := by
  rw [run_onExit] at hx
  split at hx
  · rename_i a m₁ hr
    obtain ⟨_, _, _, hy⟩ | hy := halted_bind hx
    · cases hy
    · exact .inr (.inl ⟨none, m₁, leaves_of_returned hr, hy⟩)
  · rename_i t m₁ hr
    obtain ⟨_, _, _, hy⟩ | hy := halted_bind hx
    · cases hy
    · rw [run_abortOnUnwind] at hy
      split at hy
      · cases hy
      · rename_i t' m₂ hy'
        cases hy
        exact .inr (.inr ⟨t, t', m₁, hr, hy', rfl⟩)
      · rename_i h' m₂ hy'
        cases hy
        exact .inr (.inl ⟨some t, m₁, leaves_of_unwound hr, hy'⟩)
  · rename_i h' m₁ hr
    cases hx
    exact .inl hr

/-- What is run on exit by an effect that always returns does not halt. -/
theorem halted_onExit_calm {x : Effect α} {y : Effect Unit}
    (hy : ∀ m, ∃ m', y.run m = ⟨.returned (), m'⟩) (hx : (onExit x y).run m = ⟨.halted h, m'⟩) :
    x.run m = ⟨.halted h, m'⟩ := by
  obtain hx | ⟨o, m₁, -, hr⟩ | ⟨t, t', m₁, -, hr, -⟩ := halted_onExit hx
  · exact hx
  · obtain ⟨m₂, hret⟩ := hy m₁
    cases hret.symm.trans hr
  · obtain ⟨m₂, hret⟩ := hy m₁
    cases hret.symm.trans hr

theorem halted_catchUnwind {x : Effect α} (hx : (catchUnwind x).run m = ⟨.halted h, m'⟩) :
    x.run m = ⟨.halted h, m'⟩ := by
  rw [run_catchUnwind] at hx
  split at hx
  · cases hx
  · cases hx
  · rename_i hr
    cases hx
    exact hr

theorem halted_capture {x : Effect Unit} (hx : (capture x).run m = ⟨.halted h, m'⟩) :
    x.run m = ⟨.halted h, m'⟩ := by
  obtain ⟨r, m₁, -, hr⟩ | hr := halted_bind hx
  · cases r with
    | ok => cases hr
    | error t =>
      dsimp only at hr
      split at hr <;> cases hr
  · exact halted_catchUnwind hr

theorem halted_protect {body : Nat → Effect α} (hx : (protect body).run m = ⟨.halted h, m'⟩) :
    (body m.thread.depth).run m.deeper = ⟨.halted h, m'⟩ := by
  rw [run_protect] at hx
  exact halted_onExit_calm (fun m₁ => ⟨_, run_unprotect _ m₁⟩) hx

/-- A guarded call of a hook that halts has had its block halt. -/
theorem halted_of_caught {leave : Machine → Machine} {out : Outcome Unit}
    (hx : out.caught leave = ⟨.halted h, m'⟩) : out = ⟨.halted h, m'⟩ := by
  obtain ⟨_ | t | _, m₁⟩ := out
  · cases hx
  · by_cases ht : t.escape? = none
    · rw [caught_unwound ht] at hx
      cases hx
    · rw [caught_escaped ht] at hx
      cases hx
  · cases hx
    rfl

end Effect

/-! ## Stages of a try block -/

namespace TryBlock

variable {exec : Executor} {m m' : Machine} {h : Halt} {e : Exception} {link : Nat}
  {body b : Block} {clauses : List (Trigger × Block)} {trigger : Trigger}
  {outer pending : Option Exception}

theorem halted_bodyStage (hx : (bodyStage exec body link).run m = ⟨.halted h, m'⟩) :
    (exec (.block body)).run m = ⟨.halted h, m'⟩ ∨
      ∃ t escape m₁, (exec (.block body)).run m = ⟨.unwound t, m₁⟩ ∧ t.escape? = some escape ∧
        m₁.thread.current = none ∧
        (never (unexpected exec) : Effect Unit).run (m₁.note (.log (.emptyRecord escape))) =
          ⟨.halted h, m'⟩ := by
  obtain ⟨_, _, -, hx⟩ | hx := halted_bind hx
  · cases hx
  obtain ⟨escaped, m₁, hc, hx⟩ | hx := halted_bind hx
  · cases escaped with
    | none => cases hx
    | some escape =>
      obtain ⟨t, hb, ht⟩ := capture_eq_escaped hc
      have hx' : (current >>= _).run m₁ = ⟨.halted h, m'⟩ := hx
      rw [run_bind_returned (run_current m₁)] at hx'
      cases hcur : m₁.thread.current with
      | some e =>
        rw [hcur] at hx'
        cases hx'
      | none =>
        rw [hcur] at hx'
        exact .inr ⟨t, escape, m₁, hb, ht, hcur, run_never_halted (halted_of_never hx')⟩
  · exact .inl (halted_capture hx)

theorem halted_runCatches
    (hx : (runCatches exec (catchesOf exec clauses) outer link (some e)).run m = ⟨.halted h, m'⟩) :
    ∃ trigger b start, firstMatch e clauses = some (trigger, b) ∧ start? e trigger = some start ∧
      ((exec (.block b)).run (m.clauseEntered link e clauses start) = ⟨.halted h, m'⟩ ∨
        ∃ m₁, (exec (.block b)).run (m.clauseEntered link e clauses start) =
            ⟨.unwound .thrown, m₁⟩ ∧
          (never (unexpected exec) : Effect Unit).run m₁ = ⟨.halted h, m'⟩) := by
  cases hm : firstMatch e clauses with
  | none =>
    have hx' : (select e (catchesOf exec clauses) >>= _).run m = ⟨.halted h, m'⟩ := hx
    rw [run_bind_returned (run_select e clauses m), hm] at hx'
    cases hx'
  | some c =>
    obtain ⟨trigger, b⟩ := c
    have hne : trigger ≠ .completion := fun h => firstMatch_ne_completion (h ▸ hm)
    rw [run_runCatch hm] at hx
    obtain ⟨escape, m₁, hc, hx⟩ | hc := halted_bind hx
    · obtain ⟨_, _, -, hx⟩ | hx := halted_bind hx
      · obtain ⟨_, _, -, hx⟩ | hx := halted_bind hx <;> cases hx
      · cases escape with
        | none => cases hx
        | some escape =>
          cases escape with
          | rethrown => cases hx
          | thrown =>
            obtain ⟨t, hb, ht⟩ := capture_eq_escaped hc
            have ht' : t = .thrown := by cases t <;> cases ht; rfl
            subst ht'
            obtain ⟨start, hs⟩ := starts_of_acts hne (by rw [hb]; nofun)
            exact ⟨trigger, b, start, rfl, hs,
              .inr ⟨m₁, (run_handler hs _).symm.trans hb, run_never_halted (halted_of_never hx)⟩⟩
    · obtain ⟨start, hs⟩ := starts_of_acts hne (by rw [halted_capture hc]; nofun)
      exact ⟨trigger, b, start, rfl, hs, .inl ((run_handler hs _).symm.trans (halted_capture hc))⟩

theorem halted_clauseStage (hx : (clauseStage exec body clauses outer link).run m =
      ⟨.halted h, m'⟩) :
    (bodyStage exec body link).run m = ⟨.halted h, m'⟩ ∨
      ∃ e m₁, (bodyStage exec body link).run m = ⟨.returned (some e), m₁⟩ ∧
        (runCatches exec (catchesOf exec clauses) outer link (some e)).run m₁ =
          ⟨.halted h, m'⟩ := by
  obtain ⟨escaped, m₁, hb, hx⟩ | hx := halted_bind hx
  · obtain ⟨_, _, -, hx⟩ | hx := halted_bind hx
    · cases hx
    · cases escaped with
      | none => cases hx
      | some e => exact .inr ⟨e, m₁, hb, hx⟩
  · exact .inl hx

theorem halted_lastStages (hx : (lastStages exec clauses link pending).run m = ⟨.halted h, m'⟩) :
    ∃ final, (completionsOf clauses).getLast? = some final ∧
      ((exec (.block final)).run (m.completionEntered link) = ⟨.halted h, m'⟩ ∨
        ∃ t m₁, (exec (.block final)).run (m.completionEntered link) = ⟨.unwound t, m₁⟩ ∧
          t.escape?.isSome ∧
          (never (unexpected exec) : Effect Unit).run m₁ = ⟨.halted h, m'⟩) := by
  obtain ⟨_, _, -, hx⟩ | hx := halted_bind hx
  · cases hx
  · cases hf : (completionsOf clauses).getLast? with
    | none => rw [hf] at hx; cases hx
    | some final =>
      rw [hf] at hx
      have hx' : (capture (report .completing >>= fun _ => exec (.block final)) >>= fun escape =>
          refuse exec escape >>= fun _ => advance link .unexpected .finishing).run
            (m.stage link .finishing .unexpected) = ⟨.halted h, m'⟩ := hx
      refine ⟨final, rfl, ?_⟩
      obtain ⟨escape, m₁, hc, hx'⟩ | hc := halted_bind hx'
      · obtain ⟨_, _, -, hx'⟩ | hx' := halted_bind hx'
        · cases hx'
        · cases escape with
          | none => cases hx'
          | some escape =>
            obtain ⟨t, hb, ht⟩ := capture_eq_escaped hc
            exact .inr ⟨t, m₁, hb, ht ▸ rfl, hx'⟩
      · exact .inl (halted_capture hc)

/-- A try block that halts has had one of its stages halt, or does so when it sends its exception
on. -/
theorem halted_attempt (hx : (Stmt.perform exec (.attempt body clauses)).run m = ⟨.halted h, m'⟩) :
    (clauseStage exec body clauses m.thread.current m.thread.depth >>=
        lastStages exec clauses m.thread.depth).run (m.tryEntered clauses) = ⟨.halted h, m'⟩ ∨
    ∃ e m₁, (protect (runStages exec (declared exec body clauses) m.thread.current)).run
        (m.warned (completionsOf clauses)) = ⟨.returned (some e), m₁⟩ ∧
      (never (dispatch exec) : Effect Unit).run (m₁.withCurrent (some e)) = ⟨.halted h, m'⟩ := by
  rw [run_attempt] at hx
  obtain ⟨pending, m₁, hp, hx⟩ | hx := halted_bind hx
  · cases pending with
    | none => cases hx
    | some e => exact .inr ⟨e, m₁, hp, hx⟩
  · have hstages := halted_protect hx
    rw [thread_warned, run_stages] at hstages
    exact .inl hstages

end TryBlock

end NonlocalExit
