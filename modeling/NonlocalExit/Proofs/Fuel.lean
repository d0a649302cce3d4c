import NonlocalExit.Proofs.Endings
import NonlocalExit.Proofs.Stopping

/-!
# The bound of a run

Jobs are executed in so many nested steps at most.  `Job.run` is monotone in that bound:
a run that was not cut off has the same outcome under every larger bound, `Activation.run_of_le`.
So a task on a machine either has an outcome of its own, which every bound gives that is large
enough, or is cut off by every bound, `Task.ends_or_diverges`; and where it is cut off, jobs are
nested as deep as the bound is large.
-/

namespace NonlocalExit

variable [Declarations]

open Effect

/-- Whether an outcome is not that of a run which was cut off. -/
def Outcome.Finished {α : Type} (o : Outcome α) : Prop := o.ending ≠ .halted .outOfFuel

theorem Activation.finished_iff {a : Activation} : a.run.Finished ↔ ¬a.RunsOut := by
  unfold RunsOut
  rcases a.run with ⟨e, m⟩
  constructor
  · rintro h ⟨m', hrun⟩
    cases hrun
    exact h rfl
  · rintro h (rfl : e = _)
    exact h ⟨m, rfl⟩

/-- Whether an effect does what another one does, unless it is cut off. -/
def Effect.Within {α : Type} (x x' : Effect α) : Prop :=
  ∀ m, (x.run m).Finished → x'.run m = x.run m

namespace Effect.Within

variable {α β : Type} {x x' : Effect α} {m m' : Machine}

theorem refl (x : Effect α) : x.Within x := fun _ _ => rfl

theorem trans {x'' : Effect α} (h : x.Within x') (h' : x'.Within x'') : x.Within x'' := by
  intro m hm
  have hrun := h m hm
  exact (h' m (hrun ▸ hm)).trans hrun

theorem returned {a : α} (h : x.Within x') (hx : x.run m = ⟨.returned a, m'⟩) :
    x'.run m = ⟨.returned a, m'⟩ := by
  have hfinished : (x.run m).Finished := by
    rw [hx]
    nofun
  exact (h m hfinished).trans hx

theorem unwound {t : Transfer} (h : x.Within x') (hx : x.run m = ⟨.unwound t, m'⟩) :
    x'.run m = ⟨.unwound t, m'⟩ := by
  have hfinished : (x.run m).Finished := by
    rw [hx]
    nofun
  exact (h m hfinished).trans hx

theorem halted {e : Halt} (h : x.Within x') (hx : x.run m = ⟨.halted e, m'⟩)
    (he : (⟨.halted e, m'⟩ : Outcome β).Finished) : x'.run m = ⟨.halted e, m'⟩ := by
  have hfinished : (x.run m).Finished := by
    rw [hx]
    rintro h
    cases h
    exact he rfl
  exact (h m hfinished).trans hx

/-! ## What effects are made of -/

theorem bind {f f' : α → Effect β} (hx : x.Within x') (hf : ∀ a, (f a).Within (f' a)) :
    (x >>= f).Within (x' >>= f') := by
  intro m h
  rcases hr : x.run m with ⟨a | t | e, m₁⟩
  · rw [run_bind_returned hr] at h ⊢
    rw [run_bind_returned (hx.returned hr)]
    exact hf a m₁ h
  · rw [run_bind_unwound hr, run_bind_unwound (hx.unwound hr)]
  · rw [run_bind_halted hr] at h ⊢
    exact run_bind_halted (hx.halted hr h)

theorem abortOnUnwind (hx : x.Within x') : (abortOnUnwind x).Within (abortOnUnwind x') := by
  intro m h
  rw [run_abortOnUnwind] at h ⊢
  rw [run_abortOnUnwind]
  rcases hr : x.run m with ⟨a | t | e, m₁⟩
  · rw [hx.returned hr]
  · rw [hx.unwound hr]
  · rw [hr] at h
    rw [hx.halted hr h]

theorem onExit {y y' : Effect Unit} (hx : x.Within x') (hy : y.Within y') :
    (onExit x y).Within (onExit x' y') := by
  intro m h
  rw [run_onExit] at h ⊢
  rw [run_onExit]
  rcases hr : x.run m with ⟨a | t | e, m₁⟩
  · rw [hr] at h
    rw [hx.returned hr]
    exact hy.bind (fun _ => refl _) m₁ h
  · rw [hr] at h
    rw [hx.unwound hr]
    exact hy.abortOnUnwind.bind (fun _ => refl _) m₁ h
  · rw [hr] at h
    rw [hx.halted hr h]

theorem catchUnwind (hx : x.Within x') : (catchUnwind x).Within (catchUnwind x') := by
  intro m h
  rw [run_catchUnwind] at h ⊢
  rw [run_catchUnwind]
  rcases hr : x.run m with ⟨a | t | e, m₁⟩
  · rw [hx.returned hr]
  · rw [hx.unwound hr]
  · rw [hr] at h
    rw [hx.halted hr h]

theorem protect {f f' : Nat → Effect α} (hf : ∀ link, (f link).Within (f' link)) :
    (Effect.protect f).Within (Effect.protect f') := by
  intro m h
  rw [run_protect] at h ⊢
  exact (hf _).onExit (refl _) _ h

theorem inThread {exec exec' : Executor} (hx : x.Within x')
    (ht : (teardown exec).Within (teardown exec')) :
    (inThread exec x).Within (inThread exec' x') := by
  intro m h
  rw [run_inThread] at h ⊢
  exact hx.catchUnwind.bind (fun _ => ht.bind fun _ => refl _) _ h

theorem capture {x x' : Effect Unit} (hx : x.Within x') : (capture x).Within (capture x') :=
  hx.catchUnwind.bind fun _ => refl _

/-- What is built from jobs and try blocks that do what others do is so as well. -/
theorem of_built {exec exec' : Executor} {tries : Prop} (hjob : ∀ j, (exec j).Within (exec' j))
    (htry : tries → ∀ body clauses, (TryBlock.declare exec body clauses).Within
      (TryBlock.declare exec' body clauses))
    (h : Built exec exec' tries x x') : x.Within x' := by
  induction h with
  | bind _ _ hx hf => exact hx.bind hf
  | onExit _ _ hx hy => exact hx.onExit hy
  | catchUnwind _ hx => exact hx.catchUnwind
  | abortOnUnwind _ hx => exact hx.abortOnUnwind
  | protect _ hx => exact protect hx
  | inThread _ _ hx ht => exact hx.inThread ht
  | job j => exact hjob j
  | attempt h body clauses => exact htry h body clauses
  | meetFault cause _ hr =>
    intro m h
    rw [run_meetFault] at h ⊢
    rw [run_meetFault]
    split at h
    · rfl
    · rfl
    · rfl
    · exact hr.bind nofun _ h
  | pure | machine | modify | note | clear | store | unwind | halt | trap | apply => exact refl _

/-! ## Try blocks -/

section

variable {exec exec' : Executor} (hjob : ∀ j, (exec j).Within (exec' j))
include hjob

theorem unexpected : (never (unexpected exec) : Effect α).Within (never (unexpected exec')) :=
  of_built hjob False.elim Built.unexpected.never

theorem handler (e : Exception) : ∀ clause : Trigger × Block,
    ((TryBlock.catchOf exec clause).handler e).Within
      ((TryBlock.catchOf exec' clause).handler e)
  | (.typed t, b) => by
    unfold TryBlock.catchOf
    dsimp only
    split
    · exact (refl _).bind fun _ => hjob _
    · exact refl _
  | (.any, b) | (.completion, b) => (refl (report (.caughtAny e))).bind fun _ => hjob _

theorem settle (outer : Option Exception) (e : Exception) : ∀ escape,
    (TryBlock.settle exec outer e escape).Within (TryBlock.settle exec' outer e escape)
  | none | some .rethrown => refl _
  | some .thrown => unexpected hjob

theorem refuse : ∀ escape, (TryBlock.refuse exec escape).Within (TryBlock.refuse exec' escape)
  | none => refl _
  | some _ => unexpected hjob

theorem runBody (body : Block) :
    (TryBlock.runBody exec (exec (.block body))).Within
      (TryBlock.runBody exec' (exec' (.block body))) := by
  refine (hjob _).capture.bind fun escape => ?_
  split
  · exact refl _
  · refine (refl current).bind fun e => ?_
    split
    · exact refl _
    · exact (refl _).bind fun _ => unexpected hjob

/-- Which clause is selected does not depend on how the clauses are executed. -/
theorem runCatches (clauses : List (Trigger × Block)) (outer : Option Exception) (link : Nat) :
    ∀ escaped,
      (TryBlock.runCatches exec (TryBlock.catchesOf exec clauses) outer link escaped).Within
        (TryBlock.runCatches exec' (TryBlock.catchesOf exec' clauses) outer link escaped)
  | none => refl _
  | some e => by
    intro m h
    have hselect : ∀ exec, (TryBlock.runCatches exec (TryBlock.catchesOf exec clauses) outer link
        (some e)).run m = _ := fun exec => run_bind_returned
      (show (TryBlock.select e (TryBlock.catchesOf exec clauses)).run m = _ from
        TryBlock.run_select e clauses m)
    rw [hselect] at h ⊢
    rw [hselect]
    cases hm : TryBlock.firstMatch e clauses with
    | none => rfl
    | some clause =>
      rw [hm] at h
      refine (refl (TryBlock.advance link .catching .unexpected)).bind (fun _ => ?_) _ h
      exact (handler hjob e clause).capture.bind fun escape =>
        (settle hjob outer e escape).bind fun _ => refl _

theorem runCompletion (link : Nat) : ∀ final : Option Block,
    (TryBlock.runCompletion exec link (final.map fun b => do
      report .completing
      exec (.block b))).Within
    (TryBlock.runCompletion exec' link (final.map fun b => do
      report .completing
      exec' (.block b)))
  | none => refl _
  | some b => by
    have hfinal := (refl (report .completing)).bind fun _ => hjob (.block b)
    exact (refl (TryBlock.advance link .finishing .unexpected)).bind fun _ =>
      hfinal.capture.bind fun escape => (refuse hjob escape).bind fun _ => refl _

theorem declare (body : Block) (clauses : List (Trigger × Block)) :
    (TryBlock.declare exec body clauses).Within (TryBlock.declare exec' body clauses) := by
  refine (refl (TryBlock.warnRepeated _)).bind fun _ => (refl current).bind fun outer => ?_
  refine (protect fun link => ?_).bind fun pending => ?_
  · exact (refl (TryBlock.advance _ _ _)).bind fun _ => (runBody hjob body).bind fun escaped =>
      (refl (TryBlock.advance _ _ _)).bind fun _ =>
        (runCatches hjob clauses outer link escaped).bind fun _ =>
          (refl (TryBlock.advance _ _ _)).bind fun _ =>
            (runCompletion hjob link _).bind fun _ => refl _
  · split
    · exact refl _
    · exact (refl (setCurrent _)).bind fun _ => of_built hjob False.elim Built.dispatch.never

end

end Effect.Within

/-! ## Larger bounds -/

/-- One more nested step changes nothing but what was cut off. -/
theorem Job.run_within_succ : ∀ n j, (Job.run n j).Within (Job.run (n + 1) j)
  | 0, _ => fun _ h => (h rfl).elim
  | n + 1, j => .of_built (run_within_succ n) (fun _ => .declare (run_within_succ n)) (.step j)

theorem Job.run_within {n k : Nat} (h : n ≤ k) (j : Job) : (Job.run n j).Within (Job.run k j) := by
  induction h with
  | refl => exact .refl _
  | step _ ih => exact ih.trans (run_within_succ _ j)

theorem Effect.Within.of_jobs {α : Type} {n k : Nat} (h : n ≤ k) {tries : Prop} {x x' : Effect α}
    (hx : Built (Job.run n) (Job.run k) tries x x') : x.Within x' :=
  .of_built (Job.run_within h) (fun _ => .declare (Job.run_within h)) hx

/-- A piece that was not cut off has the same outcome under every larger bound. -/
theorem Activation.run_of_le {n k : Nat} {T : Task} {m : Machine} (h : n ≤ k)
    (hx : ¬Activation.RunsOut ⟨n, T, m⟩) :
    Activation.run ⟨k, T, m⟩ = Activation.run ⟨n, T, m⟩ :=
  Effect.Within.of_jobs h (.task T) m (finished_iff.2 hx)

/-- A piece that is cut off is cut off under every smaller bound. -/
theorem Activation.RunsOut.of_le {n k : Nat} {T : Task} {m : Machine} (h : n ≤ k)
    (hk : Activation.RunsOut ⟨k, T, m⟩) : Activation.RunsOut ⟨n, T, m⟩ := by
  refine Classical.byContradiction fun hn => ?_
  obtain ⟨m', hk⟩ := hk
  exact hn ⟨m', (run_of_le h hn).symm.trans hk⟩

/-- A program that was not cut off does the same under every larger bound. -/
theorem Program.runWith_of_le {w : Surroundings} {n k : Nat} {p : Program} (h : n ≤ k)
    (hp : (p.runWith w n).verdict ≠ .process .outOfFuel) : p.runWith w k = p.runWith w n := by
  have hfinished : ((p.verdict (Job.run n)).run (.fresh w)).Finished := by
    intro hcut
    refine hp (Program.verdict_runWith.2 ⟨((p.verdict (Job.run n)).run (.fresh w)).machine, ?_⟩)
    rw [← hcut]
  have hbuilt : Built (Job.run n) (Job.run k) False _ _ := .verdict p
  have hx := Effect.Within.of_jobs h hbuilt _ hfinished
  unfold runWith
  rw [hx]

/-! ## Tasks without a bound -/

namespace Task

variable {T : Task} {m : Machine} {out out' : Outcome Unit}

/-- Whether a task has an outcome: some bound is large enough for it. -/
def Ends (T : Task) (m : Machine) (out : Outcome Unit) : Prop :=
  ∃ n, Activation.run ⟨n, T, m⟩ = out ∧ out.Finished

/-- Whether no bound is large enough for a task. -/
def Diverges (T : Task) (m : Machine) : Prop := ∀ n, Activation.RunsOut ⟨n, T, m⟩

/-- Every bound from some number on gives the outcome of a task. -/
theorem Ends.eventually (h : T.Ends m out) :
    ∃ n, ∀ k, n ≤ k → Activation.run ⟨k, T, m⟩ = out := by
  obtain ⟨n, rfl, hfinished⟩ := h
  exact ⟨n, fun k hk => Activation.run_of_le hk (Activation.finished_iff.1 hfinished)⟩

/-- What a run under any bound ends with is the outcome of the task, unless it was cut off. -/
theorem Ends.run_eq (h : T.Ends m out) {n : Nat} (hn : ¬Activation.RunsOut ⟨n, T, m⟩) :
    Activation.run ⟨n, T, m⟩ = out := by
  obtain ⟨k, hk⟩ := h.eventually
  rw [← hk (max n k) (Nat.le_max_right n k)]
  exact (Activation.run_of_le (Nat.le_max_left n k) hn).symm

theorem Ends.unique (h : T.Ends m out) (h' : T.Ends m out') : out = out' := by
  obtain ⟨n, rfl, hfinished⟩ := h
  exact h'.run_eq (Activation.finished_iff.1 hfinished)

/-- A task has an outcome, or is cut off however large the bound. -/
theorem ends_or_diverges (T : Task) (m : Machine) : (∃ out, T.Ends m out) ∨ T.Diverges m := by
  by_cases h : ∃ n, ¬Activation.RunsOut ⟨n, T, m⟩
  · obtain ⟨n, hn⟩ := h
    exact .inl ⟨_, n, rfl, Activation.finished_iff.2 hn⟩
  · exact .inr fun n => Classical.not_not.1 fun hn => h ⟨n, hn⟩

theorem Ends.not_diverges (h : T.Ends m out) : ¬T.Diverges m := by
  obtain ⟨n, rfl, hfinished⟩ := h
  exact fun hout => Activation.finished_iff.1 hfinished (hout n)

end Task

/-- A fault does not cut a run off. -/
theorem Machine.reception_ne_outOfFuel (cause : FaultCause) (m : Machine) :
    m.reception cause ≠ .stopped .outOfFuel := by
  unfold reception
  split
  · split <;> nofun
  · split
    · nofun
    · nofun
    · split
      · nofun
      · split <;> nofun

/-- A piece is cut off where jobs are nested in it as deep as its bound is large. -/
theorem Activation.RunsOut.exists_job {a : Activation} (h : a.RunsOut) :
    ∃ j m, a.Course ⟨0, .job j, m⟩ := by
  obtain ⟨m, h⟩ := h
  obtain ⟨b, hb, hs⟩ := exists_cause h
  cases hs with
  | bound j m => exact ⟨j, m, hb⟩
  | fault n hr => exact (Machine.reception_ne_outOfFuel _ _ hr).elim

end NonlocalExit
