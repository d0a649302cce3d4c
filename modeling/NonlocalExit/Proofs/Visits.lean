import NonlocalExit.Proofs.Calls
import NonlocalExit.Proofs.Steady

/-!
# What is kept on the way to a call

A relation that every single step keeps holds between the start of a piece of a run and the start
of each piece that is run in its course, up to what a block or a recovery does as it is entered:
`AllPrimitives.visits`.
-/

namespace NonlocalExit

variable [Declarations]

open Effect

/-- The machine on which a piece starts the call, before anything is run. -/
inductive Label.Opens (m : Machine) : Label → Machine → Prop
  | same {l} (h : ∀ r previous outer, l ≠ .recover r previous outer) : Opens m l m
  | block {l} (h : ∀ r previous outer, l ≠ .recover r previous outer) :
    Opens m l (m.withHeld ([] :: m.thread.held))
  | recover (ht : m.thread.torn = false) :
    Opens m (.recover ⟨m.shared.nextToken, m.rootId⟩ m.tokenTaken.markFound m.thread.recovering)
      m.recoveryEntered

namespace Primitives

variable {r : Machine → Machine → Prop} (P : Primitives r)
include P

theorem hookCalled (kind : HookKind) (e : Exception) (m : Machine) : r m (m.hookCalled kind e) :=
  P.trans (P.deeper m) (P.noted (by exact trivial) _)

theorem staged (link : Nat) (before after : Stage) (m : Machine) :
    r m (m.stage link before after) := P.noted (by exact trivial) m

theorem warned : ∀ (bs : List Block) (m : Machine), r m (m.warned bs)
  | [], m => P.refl m
  | [_], m => P.refl m
  | _ :: b :: rest, m => P.trans (P.noted (by exact trivial) m) (warned (b :: rest) _)

theorem tryEntered (clauses : List (Trigger × Block)) (m : Machine) :
    r m (m.tryEntered clauses) :=
  P.trans (P.trans (P.warned _ m) (P.deeper _)) (P.staged _ _ _ _)

theorem passedOver (e : Exception) : ∀ (clauses : List (Trigger × Block)) (m : Machine),
    r m (m.passedOver e clauses)
  | [], m => P.refl m
  | (.typed t, _) :: rest, m => by
    unfold Machine.passedOver
    split
    · split
      · exact P.refl m
      · exact P.trans (P.noted (by exact trivial) m) (passedOver e rest _)
    · exact passedOver e rest m
  | (.any, _) :: _, m => P.refl m
  | (.completion, _) :: rest, m => passedOver e rest m

theorem clauseEntered (link : Nat) (e : Exception) (clauses : List (Trigger × Block))
    {start : Event} (hs : (Entry.event start).IsPlain) (m : Machine) :
    r m (m.clauseEntered link e clauses start) :=
  P.trans (P.trans (P.passedOver e clauses m) (P.staged _ _ _ _)) (P.noted hs _)

theorem completionEntered (link : Nat) (m : Machine) : r m (m.completionEntered link) :=
  P.trans (P.staged _ _ _ _) (P.noted (by exact trivial) _)

theorem scopeEntered {m : Machine} (ht : m.thread.torn = false) : r m m.scopeEntered :=
  P.trans (P.opened m ht) (P.enteredFrame _ _)

end Primitives

theorem TryBlock.isPlain_start {e : Exception} {trigger : Trigger} {start : Event}
    (h : start? e trigger = some start) : (Entry.event start).IsPlain := by
  cases trigger with
  | typed t =>
    obtain ⟨v, _, rfl⟩ := Option.map_eq_some_iff.1 h
    trivial
  | any => cases h; trivial
  | completion => cases h

namespace AllPrimitives

variable {r : Machine → Machine → Prop} (P : AllPrimitives r)
include P

theorem governs (n : Nat) : Governs (.ofRel r) (Job.run n) := P.governs_of_jobs (P.obeys n)

/-- Every piece of a run keeps the relation. -/
theorem obeys_task (n : Nat) (T : Task) : Obeys (.ofRel r) (T.effect (Job.run n)) :=
  (P.governs n).obeys_task (P.obeys n) (P.obeys_dropGuards (P.governs n).leaveFrame) T

theorem obeys_run {a : Activation} {o : Option Transfer} {m : Machine} (h : a.run.Leaves o m) :
    r a.machine m := P.obeys_task a.fuel a.task _ _ _ h

/-- The relation holds between the start of a call and what is called. -/
theorem visits {a b : Activation} {l : Label} (h : Enters a l b) :
    ∃ m, l.Opens a.machine m ∧ r m b.machine := by
  have same : ∀ {l : Label} {m m' : Machine}, (∀ r previous outer, l ≠ .recover r previous outer) →
      r m m' → ∃ m₀, l.Opens m m₀ ∧ r m₀ m' := fun hl h => ⟨_, .same hl, h⟩
  have Q := P.toPrimitives
  cases h with
  | block n ss m => exact ⟨_, .block nofun, P.refl _⟩
  | blockLeft h =>
    rename_i o _ _
    exact ⟨_, .block (by cases o <;> nofun), (P.governs _).performAll _ _ _ _ h⟩
  | cleanup n ht hf hp => exact same nofun (P.started _ _ _ _ _ ht hf hp)
  | closeNext ht hf hp h =>
    have hs := P.started _ _ _ _ _ ht hf hp
    exact same nofun (P.trans hs (Primitives.obeys_startCleanup (P.governs _).block _
      (leaves_of_returned h)))
  | closeInner n ht hf hb => exact same nofun (P.refl _)
  | closeAboveNext ht hf hb h => exact same nofun (P.obeys _ _ _ _ _ (leaves_of_returned h))
  | passed n code ht hf hm => exact same nofun (P.passed _ _)
  | walkNext ht hf hm h =>
    exact same nofun (P.trans (P.passed _ _) (P.obeys _ _ _ _ _ (leaves_of_returned h)))
  | first n s ss m => exact same nofun (P.refl _)
  | next h => exact same nofun ((P.governs _).perform _ _ _ _ (leaves_of_returned h))
  | drop n count hh => exact same nofun (P.trans (P.dropped _ _ _ _ hh) (P.leftFrame _ _))
  | dropNext hh h =>
    rename_i o _ _
    exact same (by cases o <;> nofun) (P.trans (P.dropped _ _ _ _ hh)
      (P.trans (P.leftFrame _ _) (P.obeys _ _ _ _ _ h)))
  | repeated hi h =>
    rename_i n times i body m m₁
    have G := P.governs n
    exact same nofun (G.obeys_times (G.block body) i _ _ _ (leaves_of_returned h))
  | scope n body ht => exact same nofun (Q.scopeEntered ht)
  | scopeLeft ht h =>
    rename_i o _ _
    exact same (by cases o <;> nofun) (P.trans (P.trans (Q.scopeEntered ht)
      (P.obeys _ _ _ _ _ h)) (P.leftFrame _ _))
  | leave n h => exact same nofun (P.trans (P.released _ _ _ _ h) (P.leftFrame _ _))
  | deferLate n body ht => exact same nofun (P.registeredLate _ ⟨_, none, body⟩ ht rfl)
  | deferWithLate n arg body ht => exact same nofun (P.registeredLate _ ⟨_, some arg, body⟩ ht rfl)
  | recover n value body ht => exact ⟨_, .recover ht, P.refl _⟩
  | run n status body m => exact same nofun (P.refl _)
  | session n status body ht => exact same nofun (Q.sessionEntered ht)
  | sessionLeft ht h => exact same nofun (P.trans (Q.sessionEntered ht) (P.obeys _ _ _ _ _ h))
  | intercept n body m => exact same nofun (P.refl _)
  | panic n code m => exact same nofun (Q.noted (by exact trivial) _)
  | throw n v m => exact same nofun (P.trans (Q.noted (by exact trivial) _) (Q.withCurrent _ _))
  | fault n h => exact same nofun (P.trans (Q.withBlocked _ _) (Q.withCurrent _ _))
  | rethrowNone n h => exact same nofun (Q.noted (by exact trivial) _)
  | rethrowOutside n h hd => exact same nofun (P.refl _)
  | throwHook n hb hr he => exact same nofun (Q.throwHookCalled _ _)
  | throwHookThrew hb hr he h =>
    rename_i n b e m m₁
    have G := P.governs n
    exact same nofun (keeps_guardedThrowHook (Q.acrossThrowHook m) G.block hr h)
  | outside h hd =>
    rename_i n m m₁
    have G := P.governs n
    exact same nofun (G.obeys_sendOff (leaves_of_returned h))
  | unhandledHook n hb he => exact same nofun (Q.hookCalled _ _ _)
  | unhandledHookThrew hb he h =>
    rename_i n b e m m₁
    have G := P.governs n
    have hne : HookKind.onUnhandled ≠ .onThrow := nofun
    exact same nofun (G.obeys_guarded (G.obeys_callHook hne b e) _ _ _ (leaves_of_returned h))
  | unexpectedHook n hb he => exact same nofun (Q.hookCalled _ _ _)
  | attempt n body clauses m => exact same nofun (Q.tryEntered _ _)
  | recordEmpty h ht hc =>
    exact same nofun (P.trans (Q.tryEntered _ _)
      (P.trans (P.obeys _ _ _ _ _ (leaves_of_unwound h)) (Q.noted (by exact trivial) _)))
  | clause h hm hs =>
    exact same nofun (P.trans (P.trans (Q.tryEntered _ _)
      ((P.governs _).obeys_bodyStage _ _ _ _ _ (leaves_of_returned h)))
        (Q.clauseEntered _ _ _ (TryBlock.isPlain_start hs) _))
  | clauseThrew h hm hs hb =>
    exact same nofun (P.trans (P.trans (P.trans (Q.tryEntered _ _)
      ((P.governs _).obeys_bodyStage _ _ _ _ _ (leaves_of_returned h)))
        (Q.clauseEntered _ _ _ (TryBlock.isPlain_start hs) _))
          (P.obeys _ _ _ _ _ (leaves_of_unwound hb)))
  | completion h hf =>
    exact same nofun (P.trans (P.trans (Q.tryEntered _ _)
      ((P.governs _).obeys_clauseStage _ _ _ _ _ _ _ (leaves_of_returned h)))
        (Q.completionEntered _ _))
  | completionThrew h hf hb ht =>
    exact same nofun (P.trans (P.trans (P.trans (Q.tryEntered _ _)
      ((P.governs _).obeys_clauseStage _ _ _ _ _ _ _ (leaves_of_returned h)))
        (Q.completionEntered _ _))
        (P.obeys _ _ _ _ _ (leaves_of_unwound hb)))
  | again h =>
    rename_i n body clauses e m m₁
    have hstages := (P.governs n).obeys_stages body clauses m.thread.current
    have hrun := (P.governs n).protect _ hstages _ _ _ (leaves_of_returned h)
    exact same nofun (P.trans (P.trans (Q.warned _ _) hrun) (Q.withCurrent _ _))

end AllPrimitives

end NonlocalExit
