import NonlocalExit.Proofs.Course
import NonlocalExit.Proofs.Senders

/-!
# The completion clause of a try block

Of several completion clauses the last one counts.  It is run when the body has ended, by itself or
by an exception, and the clause that matches has ended or has thrown its exception again:
`TryBlock.Comes` says how a try block comes there, which exception it has taken from its body and
which one is left.

`completion_runs_once`: if whatever returns puts the record back, the completion clause is then run
once, after the clause that matches, it finds the exception in the record that is sent on
afterwards, and it is run in no other case.
-/

namespace NonlocalExit

open Effect TryBlock

theorem Label.isQuiet_of_rethrown {l : Label} (h : l.Passes .rethrown) : l.IsQuiet := by
  cases l with
  | attempt | clause | hook => cases h
  | foreign | unwinding => exact h.elim
  | _ => trivial

section

variable [Declarations]

theorem Machine.current_passedOver (e : Exception) (clauses : List (Trigger × Block))
    (m : Machine) : (m.passedOver e clauses).thread.current = m.thread.current :=
  have h : m.Spared 0 (m.passedOver e clauses) := .passedOver e clauses m
  h.current

/-! ## What puts the record back -/

/-- Whether whatever is run in the course of a piece, and returns, leaves the record as it found
it. -/
def Activation.PutsBack (a : Activation) : Prop := ∀ K x, Path a K x → x.KeepsRecord

/-- Whether an exception is never thrown again where a session closes its frames after an unwind has
left its body.  That unwind is lost there, with what it has left in the record. -/
def Activation.NoLateRethrow (a : Activation) : Prop :=
  ∀ K n status body (m : Machine) t m₁ m₂, Path a K ⟨n, .session status body, m⟩ →
    (Job.run n (.block body)).run m.sessionEntered = ⟨.unwound t, m₁⟩ →
    (Job.run n (.closeAbove m.innermostId)).run m₁ ≠ ⟨.unwound .rethrown, m₂⟩

/-- What is run in the course of a piece while no exception is on its way or handled, and where no
session has stopped an unwind. -/
inductive Undisturbed (a : Activation) : Activation → Prop
  | here : Undisturbed a a
  | call {b l c} (h : Undisturbed a b) (e : Enters b l c) (hl : l.IsQuiet) (ht : c.task.IsQuiet)
    (hs : ∀ status body, b.task = .session status body → l = .plain →
      ∃ m, (Job.run b.fuel (.block body)).run b.machine.sessionEntered = ⟨.returned (), m⟩) :
    Undisturbed a c

section

variable {a b : Activation} {l : Label} {m : Machine}

namespace Activation

theorem PutsBack.call (h : a.PutsBack) (e : Enters a l b) : b.PutsBack :=
  fun _ _ hp => h _ _ (Path.here.join e hp)

theorem PutsBack.calls (h : a.PutsBack) : ∀ l b, Enters a l b → b.KeepsRecord :=
  fun _ _ e => h _ _ (Path.here.call e)

theorem PutsBack.carries (h : a.PutsBack) : a.CarriesRecord := by
  induction a using Activation.induction with
  | h a ih => exact carriesRecord_of_calls h.calls fun l b e => ih l b e (h.call e)

theorem NoLateRethrow.call (h : a.NoLateRethrow) (e : Enters a l b) : b.NoLateRethrow :=
  fun _ _ _ _ _ _ _ _ hp => h _ _ _ _ _ _ _ _ (Path.here.join e hp)

end Activation

/-- No exception is thrown again where one is sent on its way or given up. -/
theorem Origin.task_isQuiet (h : Origin .rethrown b a m) : a.task.IsQuiet := by
  obtain ⟨n, T, m₀⟩ := a
  cases T with
  | dispatch =>
    obtain ⟨_, _, _, _, hr⟩ := h.path
    rw [eq_of_origin_dispatch h nofun] at hr
    cases hr
  | unhandled => cases escape_of_unhandled h.unwound
  | unexpected => cases escape_of_unexpected h.unwound
  | _ => trivial

/-- A call at which no exception is on its way finds the record as it was, if a session has not
stopped an unwind before. -/
theorem current_of_undisturbed_call (hP : a.PutsBack) (e : Enters a l b) (hl : l.IsQuiet)
    (ht : b.task.IsQuiet)
    (hs : ∀ status body, a.task = .session status body → l = .plain →
      ∃ m, (Job.run a.fuel (.block body)).run a.machine.sessionEntered = ⟨.returned (), m⟩) :
    b.machine.thread.current = a.machine.thread.current := by
  by_cases hleft : ∃ status body, a.task = .session status body ∧ l = .plain
  · obtain ⟨_, _, htask, hplain⟩ := hleft
    cases e with
    | session => cases hplain
    | sessionLeft htorn hbody =>
      rename_i n status body o m m₁
      obtain ⟨m₂, hreturned⟩ := hs status body rfl rfl
      obtain ⟨-, rfl⟩ := hbody.unique (leaves_of_returned hreturned)
      have hentered := Enters.session n status body htorn
      exact (hP.calls _ _ hentered _ hreturned).trans (Machine.current_sessionEntered m)
    | _ => cases htask
  · exact current_of_call hP.calls e hl ht fun status body htask hplain =>
      hleft ⟨status, body, htask, hplain⟩

/-- Where no exception is on its way the record is as it was. -/
theorem Undisturbed.current (h : Undisturbed a b) (hP : a.PutsBack) :
    b.PutsBack ∧ b.machine.thread.current = a.machine.thread.current := by
  induction h with
  | here => exact ⟨hP, rfl⟩
  | call h e hl ht hs ih =>
    exact ⟨ih.1.call e, (current_of_undisturbed_call ih.1 e hl ht hs).trans ih.2⟩

/-- An exception that is thrown again leaves a piece with the record with which it was entered. -/
theorem current_of_rethrown (hP : a.PutsBack) (hL : a.NoLateRethrow) (h : Origin .rethrown b a m) :
    m.thread.current = a.machine.thread.current := by
  induction h with
  | here h => cases h; rfl
  | through e h hp hx ih =>
    have hcalled := ih (hP.call e) (hL.call e)
    have hentered := current_of_undisturbed_call hP e (Label.isQuiet_of_rethrown hp)
      h.task_isQuiet fun status body htask hplain => by
        cases e with
        | session => cases hplain
        | sessionLeft htorn hbody =>
          cases htask
          obtain ⟨_, hbody, _⟩ | ⟨t, hbody, _⟩ := Leaves.cases hbody
          · exact ⟨_, hbody⟩
          · exact (hL _ _ _ _ _ _ _ _ .here hbody h.unwound).elim
        | _ => cases htask
    exact ((current_of_exit e hP.calls h.unwound hx).trans hcalled).trans hentered

end

/-! ## Where nothing is stopped -/

theorem Activation.IsFaithful.putsBack {a : Activation} (h : a.IsFaithful) : a.PutsBack := by
  intro K x hp
  suffices hx : x.IsFaithful from (record_of_faithful hx).1
  induction hp with
  | here => exact h
  | call _ e ih => exact ih.call e

/-- Whether a piece may stop an unwind that is not an exception's. -/
def Task.MayStop : Task → Prop
  | .session _ _ | .stmt (.recover _ _) | .stmt (.intercept _) => True
  | _ => False

/-- Whether nothing in the course of a piece stops unwinds but try blocks. -/
def Activation.StopsNothing (a : Activation) : Prop := ∀ K x, Path a K x → ¬x.task.MayStop

namespace Activation.StopsNothing

variable {n : Nat} {a : Activation} {m : Machine} {s : Stmt} {ss : Block}

theorem isFaithful (h : a.StopsNothing) : a.IsFaithful := by
  refine ⟨fun K x l y hp e hl => h K x hp ?_, fun K x l y t b m hp e hs _ => (h K x hp ?_).elim⟩
  · cases e with
    | intercept => trivial
    | blockLeft | dropNext | scopeLeft => cases ‹Option Transfer› <;> cases hl
    | _ => cases hl
  · cases e with
    | recover | session => trivial
    | blockLeft | dropNext | scopeLeft => cases ‹Option Transfer› <;> exact hs.elim
    | _ => exact hs.elim

theorem noLateRethrow (h : a.StopsNothing) : a.NoLateRethrow :=
  fun _ _ _ _ _ _ _ _ hp => (h _ _ hp trivial).elim

/-- A piece stops nothing if the pieces that it calls do not. -/
theorem of_calls (ha : ¬a.task.MayStop) (h : ∀ l b, Enters a l b → b.StopsNothing) :
    a.StopsNothing := by
  intro K x hp
  obtain rfl | ⟨l, b, K', e, hp⟩ := hp.first
  · exact ha
  · exact h l b e K' x hp

theorem rest (hs : (⟨n, .stmt s, m⟩ : Activation).StopsNothing)
    (hr : ∀ m₁, (s.perform (Job.run n)).run m = ⟨.returned (), m₁⟩ →
      (⟨n, .rest ss, m₁⟩ : Activation).StopsNothing) :
    (⟨n, .rest (s :: ss), m⟩ : Activation).StopsNothing := by
  refine of_calls id fun l b e => ?_
  cases e with
  | first => exact hs
  | next h => exact hr _ h

theorem block (hr : (⟨n, .rest ss, m.withHeld ([] :: m.thread.held)⟩ : Activation).StopsNothing)
    (hd : ∀ o m₁, (Activation.run ⟨n, .rest ss, m.withHeld ([] :: m.thread.held)⟩).Leaves o m₁ →
      m₁.thread.held.headD [] = []) :
    (⟨n + 1, .job (.block ss), m⟩ : Activation).StopsNothing := by
  refine of_calls id fun l b e => ?_
  cases e with
  | block => exact hr
  | blockLeft h =>
    rw [hd _ _ h]
    exact of_calls id fun _ _ e => nomatch e

/-- An exception that is sent to a try block around it calls nothing, if there is no hook. -/
theorem dispatch (hh : m.shared.hooks.onThrow = none) (hd : 0 < m.thread.depth) :
    (⟨n, .dispatch, m⟩ : Activation).StopsNothing := by
  refine of_calls id fun l b e => ?_
  cases e with
  | throwHook n hb => exact nomatch hh.symm.trans hb
  | throwHookThrew hb => exact nomatch hh.symm.trans hb
  | outside h hd' =>
    have hlevel : _ = m.thread.depth := depth_of_enters (.outside h hd')
    exact absurd (hlevel.symm.trans hd') (Nat.ne_of_gt hd)

theorem throw {v : Value} (hh : m.shared.hooks.onThrow = none) (hd : 0 < m.thread.depth) :
    (⟨n, .stmt (.throw v), m⟩ : Activation).StopsNothing := by
  refine of_calls id fun l b e => ?_
  cases e with
  | throw => exact dispatch hh hd

theorem rethrow {e : Exception} (hc : m.thread.current = some e) (hd : 0 < m.thread.depth) :
    (⟨n, .stmt .rethrow, m⟩ : Activation).StopsNothing := by
  refine of_calls id fun l b e => ?_
  cases e with
  | rethrowNone n hc' => cases hc.symm.trans hc'
  | rethrowOutside n _ hd' => exact absurd hd' (Nat.ne_of_gt hd)

theorem state : (⟨n, .stmt .state, m⟩ : Activation).StopsNothing :=
  of_calls id fun _ _ e => nomatch e

end Activation.StopsNothing

/-! ## The way to the completion clause -/

namespace TryBlock

/-- A clause that is run for an exception, with the search for it. -/
def handle (n : Nat) (clauses : List (Trigger × Block)) (link : Nat) (e : Exception)
    (c : Trigger × Block) (m : Machine) : Outcome Unit :=
  ((catchOf (Job.run n) c).handler e).run
    ((m.passedOver e clauses).stage link .catching .unexpected)

/-- How a try block comes to its completion clause: which exception was taken from the body, and
which one is left. -/
inductive Comes (n : Nat) (body : Block) (clauses : List (Trigger × Block)) (m : Machine) :
    Option Exception → Option Exception → Machine → Prop
  | quiet {m₁} (hb : (Job.run n (.block body)).run (m.tryEntered clauses) = ⟨.returned (), m₁⟩) :
    Comes n body clauses m none none
      ((m₁.stage m.thread.depth .trying .catching).stage m.thread.depth .catching .finishing)
  | unmatched {t e m₁}
    (hb : (Job.run n (.block body)).run (m.tryEntered clauses) = ⟨.unwound t, m₁⟩)
    (ht : t.escape? ≠ none) (he : m₁.thread.current = some e) (hm : firstMatch e clauses = none) :
    Comes n body clauses m (some e) (some e)
      (((m₁.stage m.thread.depth .trying .catching).passedOver e clauses).stage m.thread.depth
        .catching .finishing)
  | consumed {t e m₁ c m₂}
    (hb : (Job.run n (.block body)).run (m.tryEntered clauses) = ⟨.unwound t, m₁⟩)
    (ht : t.escape? ≠ none) (he : m₁.thread.current = some e)
    (hm : firstMatch e clauses = some c)
    (hc : handle n clauses m.thread.depth e c (m₁.stage m.thread.depth .trying .catching) =
      ⟨.returned (), m₂⟩) :
    Comes n body clauses m (some e) none
      (((m₂.withCurrent m.thread.current).stage m.thread.depth .unexpected .catching).stage
        m.thread.depth .catching .finishing)
  | rethrown {t e m₁ c m₂}
    (hb : (Job.run n (.block body)).run (m.tryEntered clauses) = ⟨.unwound t, m₁⟩)
    (ht : t.escape? ≠ none) (he : m₁.thread.current = some e)
    (hm : firstMatch e clauses = some c)
    (hc : handle n clauses m.thread.depth e c (m₁.stage m.thread.depth .trying .catching) =
      ⟨.unwound .rethrown, m₂⟩) :
    Comes n body clauses m (some e) (some e)
      ((m₂.stage m.thread.depth .unexpected .catching).stage m.thread.depth .catching .finishing)

/-- Whether the body ends by itself or by an exception. -/
def BodyEnds (n : Nat) (body : Block) (clauses : List (Trigger × Block)) (m : Machine) : Prop :=
  ((Job.run n (.block body)).run (m.tryEntered clauses)).ending = .returned () ∨
    ∃ t, ((Job.run n (.block body)).run (m.tryEntered clauses)).ending = .unwound t ∧
      t.escape? ≠ none

/-- Whether a clause matches the exception from the body, and how it ends. -/
def ClauseEnds (n : Nat) (body : Block) (clauses : List (Trigger × Block)) (m : Machine)
    (ending : Ending Unit) : Prop :=
  ∃ e c m₁, (bodyStage (Job.run n) body m.thread.depth).run (m.tryEntered clauses) =
      ⟨.returned (some e), m₁⟩ ∧ firstMatch e clauses = some c ∧
    (handle n clauses m.thread.depth e c m₁).ending = ending

section

variable {n link : Nat} {body : Block} {clauses : List (Trigger × Block)} {e : Exception}
  {taken pending : Option Exception} {m m₁ m' : Machine}

/-- The exception from the body was taken from the record. -/
theorem taken_of_bodyStage {exec : Executor}
    (h : (bodyStage exec body link).run m = ⟨.returned (some e), m'⟩) :
    ∃ t m₁, (exec (.block body)).run m = ⟨.unwound t, m₁⟩ ∧ t.escape? ≠ none ∧
      m₁.thread.current = some e ∧ m' = m₁.stage link .trying .catching := by
  obtain ⟨escaped, m₁, hr, h⟩ := returned_bind h
  cases h
  obtain ⟨escape, m₂, hc, hr⟩ := returned_bind hr
  cases escape with
  | none => cases hr
  | some escape =>
    obtain ⟨t, hb, ht⟩ := capture_eq_escaped hc
    have hr' : (current >>= _).run m₂ = ⟨.returned (some e), m₁⟩ := hr
    rw [run_bind_returned (run_current m₂)] at hr'
    cases hcur : m₂.thread.current with
    | some e' =>
      rw [hcur] at hr'
      cases hr'
      exact ⟨t, m₁, hb, ht ▸ nofun, hcur, rfl⟩
    | none =>
      rw [hcur] at hr'
      obtain ⟨_, _, _, hr'⟩ := returned_bind hr'
      exact (not_returned_never hr').elim

theorem bodyStage_taken {exec : Executor} {t : Transfer} (link : Nat)
    (hb : (exec (.block body)).run m = ⟨.unwound t, m₁⟩) (ht : t.escape? ≠ none)
    (he : m₁.thread.current = some e) :
    (bodyStage exec body link).run m = ⟨.returned (some e), m₁.stage link .trying .catching⟩ := by
  obtain ⟨escape, ht⟩ := Option.ne_none_iff_exists'.1 ht
  exact bodyStage_escaped link hb ht he

/-- A clause that matches has ended, and the exception is settled. -/
theorem clauseStage_settled {t : Transfer} {c : Trigger × Block} {escape : Option Escape}
    {m₂ m₃ : Machine} (hb : (Job.run n (.block body)).run (m.tryEntered clauses) = ⟨.unwound t, m₁⟩)
    (ht : t.escape? ≠ none) (he : m₁.thread.current = some e) (hm : firstMatch e clauses = some c)
    (hc : (capture ((catchOf (Job.run n) c).handler e)).run
      (((m₁.stage m.thread.depth .trying .catching).passedOver e clauses).stage m.thread.depth
        .catching .unexpected) = ⟨.returned escape, m₂⟩)
    (hs : (settle (Job.run n) m.thread.current e escape).run m₂ = ⟨.returned pending, m₃⟩) :
    (clauseStage (Job.run n) body clauses m.thread.current m.thread.depth).run
        (m.tryEntered clauses) =
      ⟨.returned pending, (m₃.stage m.thread.depth .unexpected .catching).stage m.thread.depth
        .catching .finishing⟩ := by
  refine (run_bind_returned (bodyStage_taken _ hb ht he)).trans ?_
  rw [run_bind_congr (run_runCatch hm _), run_bind_assoc, run_bind_returned hc, run_bind_assoc,
    run_bind_returned hs]
  rfl

theorem Comes.clauseStage_returned (h : Comes n body clauses m taken pending m₁) :
    (clauseStage (Job.run n) body clauses m.thread.current m.thread.depth).run
      (m.tryEntered clauses) = ⟨.returned pending, m₁⟩ := by
  cases h with
  | quiet hb =>
    rename_i m₂
    have hbody : (TryBlock.runBody (Job.run n) (Job.run n (.block body))).run
        (m.tryEntered clauses) = ⟨.returned none, m₂⟩ :=
      run_bind_returned (run_capture_returned hb)
    have hstage : (bodyStage (Job.run n) body m.thread.depth).run (m.tryEntered clauses) =
        ⟨.returned none, m₂.stage m.thread.depth .trying .catching⟩ := run_bind_returned hbody
    exact run_bind_returned hstage
  | unmatched hb ht he hm => exact clauseStage_unmatched _ (bodyStage_taken _ hb ht he) hm
  | consumed hb ht he hm hc => exact clauseStage_settled hb ht he hm (run_capture_returned hc) rfl
  | rethrown hb ht he hm hc =>
    exact clauseStage_settled hb ht he hm (run_capture_escaped hc (show _ = some _ from rfl)) rfl

/-- The search for a clause that handles an exception, when it has come to its end. -/
theorem comes_of_runCatches {t : Transfer} {m₂ : Machine}
    (hb : (Job.run n (.block body)).run (m.tryEntered clauses) = ⟨.unwound t, m₁⟩)
    (ht : t.escape? ≠ none) (he : m₁.thread.current = some e)
    (h : (runCatches (Job.run n) (catchesOf (Job.run n) clauses) m.thread.current m.thread.depth
      (some e)).run (m₁.stage m.thread.depth .trying .catching) = ⟨.returned pending, m₂⟩) :
    Comes n body clauses m (some e) pending (m₂.stage m.thread.depth .catching .finishing) := by
  cases hm : firstMatch e clauses with
  | none =>
    have h' : (select e (catchesOf _ clauses) >>= _).run _ = ⟨.returned pending, m₂⟩ := h
    rw [run_bind_returned (run_select e clauses _), hm] at h'
    cases h'
    exact .unmatched hb ht he hm
  | some c =>
    obtain ⟨trigger, b⟩ := c
    rw [run_runCatch hm] at h
    obtain ⟨escape, m₃, hc, h⟩ := returned_bind h
    obtain ⟨_, m₄, hs, h⟩ := returned_bind h
    cases h
    cases escape with
    | none =>
      cases hs
      exact .consumed hb ht he hm (capture_eq_returned hc)
    | some escape =>
      cases escape with
      | thrown => exact (not_returned_never hs).elim
      | rethrown =>
        cases hs
        obtain ⟨t', hc, ht'⟩ := capture_eq_escaped hc
        have hrethrown : t' = .rethrown := by cases t' <;> cases ht'; rfl
        exact .rethrown hb ht he hm (hrethrown ▸ hc)

/-- A try block comes to the search for a completion clause exactly in these ways. -/
theorem clauseStage_returned_iff :
    (clauseStage (Job.run n) body clauses m.thread.current m.thread.depth).run
        (m.tryEntered clauses) = ⟨.returned pending, m₁⟩ ↔
      ∃ taken, Comes n body clauses m taken pending m₁ := by
  refine ⟨fun h => ?_, fun ⟨_, h⟩ => h.clauseStage_returned⟩
  obtain ⟨taken, m₂, hb, h⟩ := returned_bind h
  obtain ⟨_, m₃, hc, h⟩ := returned_bind h
  cases h
  refine ⟨taken, ?_⟩
  cases taken with
  | none =>
    cases hc
    obtain ⟨m₄, hx, rfl⟩ := returned_bodyStage hb
    exact .quiet hx
  | some e =>
    obtain ⟨t, m₄, hx, ht, he, rfl⟩ := taken_of_bodyStage hb
    exact comes_of_runCatches hx ht he hc

/-- An exception that leaves what puts the record back is in the record. -/
theorem exists_taken {a : Activation} {t : Transfer} (hP : a.PutsBack)
    (h : a.run = ⟨.unwound t, m⟩) (ht : t.escape? ≠ none) (ha : a.task ≠ .dispatch) :
    ∃ e, m.thread.current = some e := by
  obtain ⟨b, ho⟩ := exists_origin h (by rintro ⟨_, rfl⟩; exact ht rfl)
  obtain ⟨_, _, e, _, _, _, _, _, hr⟩ := ho.sender ht ha
  exact ⟨e, (hP.carries _ _ _ ho).trans hr⟩

/-- The exception from the body and the clause that matches it are known once the body has ended. -/
theorem clauseEnds_iff {t : Transfer} {ending : Ending Unit}
    (hb : (Job.run n (.block body)).run (m.tryEntered clauses) = ⟨.unwound t, m₁⟩)
    (ht : t.escape? ≠ none) (he : m₁.thread.current = some e) :
    ClauseEnds n body clauses m ending ↔ ∃ c, firstMatch e clauses = some c ∧
      (handle n clauses m.thread.depth e c
        (m₁.stage m.thread.depth .trying .catching)).ending = ending := by
  have hstage := bodyStage_taken m.thread.depth hb ht he
  constructor
  · rintro ⟨e', c, m₂, hb', hm, hc⟩
    cases hstage.symm.trans hb'
    exact ⟨c, hm, hc⟩
  · rintro ⟨c, hm, hc⟩
    exact ⟨e, c, _, hstage, hm, hc⟩

theorem not_clauseEnds_of_returned {ending : Ending Unit}
    (hb : (Job.run n (.block body)).run (m.tryEntered clauses) = ⟨.returned (), m₁⟩) :
    ¬ClauseEnds n body clauses m ending := by
  rintro ⟨e, c, m₂, hb', hm, hc⟩
  obtain ⟨_, _, hb', _⟩ := taken_of_bodyStage hb'
  cases hb.symm.trans hb'

/-- A clause that does anything is run as a piece of its own, on the machine that the search for it
has left. -/
theorem exists_clause {t : Transfer} {c : Trigger × Block}
    (hb : (Job.run n (.block body)).run (m.tryEntered clauses) = ⟨.unwound t, m₁⟩)
    (ht : t.escape? ≠ none) (he : m₁.thread.current = some e) (hm : firstMatch e clauses = some c)
    (hc : (handle n clauses m.thread.depth e c
      (m₁.stage m.thread.depth .trying .catching)).ending ≠ .returned ()) :
    ∃ start, Enters ⟨n, .stmt (.attempt body clauses), m⟩ (.clause m.thread.depth)
        ⟨n, .job (.block c.2), (m₁.stage m.thread.depth .trying .catching).clauseEntered
          m.thread.depth e clauses start⟩ ∧
      handle n clauses m.thread.depth e c (m₁.stage m.thread.depth .trying .catching) =
        Activation.run ⟨n, .job (.block c.2), (m₁.stage m.thread.depth .trying
          .catching).clauseEntered m.thread.depth e clauses start⟩ := by
  obtain ⟨trigger, b⟩ := c
  have hne : trigger ≠ .completion := fun h => firstMatch_ne_completion (h ▸ hm)
  obtain ⟨start, hs⟩ := starts_of_acts hne fun h => hc (congrArg Outcome.ending h)
  exact ⟨start, .clause (bodyStage_taken m.thread.depth hb ht he) hm hs, run_handler hs _⟩

theorem Comes.ends (h : Comes n body clauses m taken pending m₁) :
    BodyEnds n body clauses m ∧ ∀ ending, ClauseEnds n body clauses m ending →
      ending = .returned () ∨ ending = .unwound .rethrown := by
  cases h with
  | quiet hb =>
    exact ⟨.inl (congrArg Outcome.ending hb), fun _ hc => (not_clauseEnds_of_returned hb hc).elim⟩
  | unmatched hb ht he hm =>
    refine ⟨.inr ⟨_, congrArg Outcome.ending hb, ht⟩, fun _ hc => ?_⟩
    obtain ⟨c, hm', _⟩ := (clauseEnds_iff hb ht he).1 hc
    cases hm.symm.trans hm'
  | consumed hb ht he hm hc =>
    refine ⟨.inr ⟨_, congrArg Outcome.ending hb, ht⟩, fun _ hc' => .inl ?_⟩
    obtain ⟨c, hm', rfl⟩ := (clauseEnds_iff hb ht he).1 hc'
    cases hm.symm.trans hm'
    exact congrArg Outcome.ending hc
  | rethrown hb ht he hm hc =>
    refine ⟨.inr ⟨_, congrArg Outcome.ending hb, ht⟩, fun _ hc' => .inr ?_⟩
    obtain ⟨c, hm', rfl⟩ := (clauseEnds_iff hb ht he).1 hc'
    cases hm.symm.trans hm'
    exact congrArg Outcome.ending hc

theorem comes_of_ends (hP : Activation.PutsBack ⟨n, .stmt (.attempt body clauses), m⟩)
    (hbody : BodyEnds n body clauses m)
    (hclause : ∀ ending, ClauseEnds n body clauses m ending →
      ending = .returned () ∨ ending = .unwound .rethrown) :
    ∃ taken pending m₁, Comes n body clauses m taken pending m₁ := by
  rcases hb : (Job.run n (.block body)).run (m.tryEntered clauses) with ⟨_ | t | _, m₁⟩
  · exact ⟨_, _, _, .quiet hb⟩
  · have ht : t.escape? ≠ none := by
      rw [BodyEnds, hb] at hbody
      obtain h | ⟨_, h, ht⟩ := hbody
      · cases h
      · cases h
        exact ht
    obtain ⟨e, he⟩ := exists_taken (hP.call (.attempt n body clauses m)) hb ht nofun
    cases hm : firstMatch e clauses with
    | none => exact ⟨_, _, _, .unmatched hb ht he hm⟩
    | some c =>
      have hends := hclause _ ((clauseEnds_iff hb ht he).2 ⟨c, hm, rfl⟩)
      rcases hc : handle n clauses m.thread.depth e c
        (m₁.stage m.thread.depth .trying .catching) with ⟨_ | t' | _, m₂⟩
      · exact ⟨_, _, _, .consumed hb ht he hm hc⟩
      · rw [hc] at hends
        obtain h | h := hends
        · cases h
        · cases h
          exact ⟨_, _, _, .rethrown hb ht he hm hc⟩
      · rw [hc] at hends
        obtain h | h := hends <;> cases h
  · rw [BodyEnds, hb] at hbody
    obtain h | ⟨_, h, _⟩ := hbody <;> cases h

/-- A try block comes to its completion clause when its body ends by itself or by an exception, and
the clause that matches ends by itself or by a rethrow. -/
theorem comes_iff (hP : Activation.PutsBack ⟨n, .stmt (.attempt body clauses), m⟩) :
    (∃ taken pending m₁, Comes n body clauses m taken pending m₁) ↔
      BodyEnds n body clauses m ∧ ∀ ending, ClauseEnds n body clauses m ending →
        ending = .returned () ∨ ending = .unwound .rethrown :=
  ⟨fun ⟨_, _, _, h⟩ => h.ends, fun ⟨hbody, hclause⟩ => comes_of_ends hP hbody hclause⟩

/-- Up to the search for a completion clause, no way is one on which such a clause is run. -/
theorem firstLegs_ne_completing {l : Leg Activation} (hl : l ∈ firstLegs n body clauses m) :
    l.move ≠ (.finishing, .unexpected) := by
  obtain hl | hl := List.mem_append.1 hl
  · obtain h | h := move_of_mem_bodyLegs hl <;> rw [h] <;> nofun
  · obtain ⟨_, _, _, hl⟩ := Outcome.mem_next hl
    obtain hl | h := move_of_mem_catchLegs hl
    · obtain h | h := move_of_mem_clauseLegs hl <;> rw [h] <;> nofun
    · rw [h]
      nofun

end

end TryBlock

/-! ## The completion clause -/

/-- Whether a try block ends by sending an exception on, at the level outside it: that exception is
in the record then, and still is when it leaves the try block. -/
structure SendsOn (n : Nat) (body : Block) (clauses : List (Trigger × Block)) (m : Machine)
    (e : Exception) (m₁ : Machine) : Prop where
  sent : sent n body clauses m = [⟨n, .dispatch, m₁⟩]
  current : m₁.thread.current = some e
  depth : m₁.thread.depth = m.thread.depth
  run : Activation.run ⟨n, .stmt (.attempt body clauses), m⟩ = Activation.run ⟨n, .dispatch, m₁⟩
  leaves : ∀ t m₂, Activation.run ⟨n, .dispatch, m₁⟩ = ⟨.unwound t, m₂⟩ → t.escape? ≠ none →
    m₂.thread.current = some e

/-- What is known of a completion clause that is run, where an exception `taken` came from the body
and `pending` is what is left of it. -/
structure CompletionRun (n : Nat) (body : Block) (clauses : List (Trigger × Block)) (m : Machine)
    (taken pending : Option Exception) (c : Activation) : Prop where
  /-- The last piece that is run, unless its exception is given up. -/
  once : ∃ last, Leg.Once (.finishing, .unexpected) (legs n body clauses m) c last ∧
    ∀ l ∈ last, l.inside = []
  /-- The record holds the exception that is to be sent on, or what it held before. -/
  record : c.machine.thread.current = pending.or m.thread.current
  kept : ∀ x, Undisturbed c x → x.machine.thread.current = c.machine.thread.current
  returns : c.run.ending = .returned () →
    ((Activation.run ⟨n, .stmt (.attempt body clauses), m⟩).ending = .returned () ↔
      taken = none ∨ ClauseEnds n body clauses m (.returned ()))
  sends : c.run.ending = .returned () →
    (Activation.run ⟨n, .stmt (.attempt body clauses), m⟩).ending ≠ .returned () →
    ∃ e m₁, taken = some e ∧ pending = some e ∧ SendsOn n body clauses m e m₁

namespace TryBlock.Comes

variable {n : Nat} {body final : Block} {clauses : List (Trigger × Block)}
  {taken pending : Option Exception} {m m₁ : Machine}

theorem once (h : Comes n body clauses m taken pending m₁)
    (hf : (completionsOf clauses).getLast? = some final) :
    ∃ last, Leg.Once (.finishing, .unexpected) (legs n body clauses m)
        ⟨n, .job (.block final), m₁.completionEntered m.thread.depth⟩ last ∧
      ∀ l ∈ last, l.inside = [] := by
  have hlegs : legs n body clauses m =
      firstLegs n body clauses m ++ lastLegs n clauses m.thread.depth m₁ :=
    congrArg (_ ++ Outcome.next · _) (clauseStage_returned_iff.2 ⟨taken, h⟩)
  have hend : ∀ l ∈ ((completionStage clauses m.thread.depth (Job.run n)).run m₁).next
      fun _ _ => [(⟨.finishing, .propagating, []⟩ : Leg Activation)],
        l = ⟨.finishing, .propagating, []⟩ := fun l hl => by
    obtain ⟨_, _, _, hl⟩ := Outcome.mem_next hl
    exact List.mem_singleton.1 hl
  rw [hlegs, lastLegs, completionLegs, hf]
  have hback : (Stage.unexpected, Stage.finishing) ≠ (Stage.finishing, Stage.unexpected) := nofun
  obtain ⟨last, honce, hlast⟩ := Leg.once_around hback
    (fun _ hl => firstLegs_ne_completing hl) fun l hl => by rw [hend l hl]; nofun
  refine ⟨_, honce, fun l hl => ?_⟩
  obtain hl | hl := List.mem_append.1 hl
  · exact hlast l hl
  · rw [hend l hl]

/-- An exception is left unless none was taken or a clause has ended by itself. -/
theorem pending_eq_none_iff (h : Comes n body clauses m taken pending m₁) :
    pending = none ↔ taken = none ∨ ClauseEnds n body clauses m (.returned ()) := by
  cases h with
  | quiet hb => exact iff_of_true rfl (.inl rfl)
  | unmatched hb ht he hm =>
    refine iff_of_false nofun (not_or.2 ⟨nofun, fun hc => ?_⟩)
    obtain ⟨c, hm', _⟩ := (clauseEnds_iff hb ht he).1 hc
    cases hm.symm.trans hm'
  | consumed hb ht he hm hc =>
    exact iff_of_true rfl
      (.inr ((clauseEnds_iff hb ht he).2 ⟨_, hm, congrArg Outcome.ending hc⟩))
  | rethrown hb ht he hm hc =>
    refine iff_of_false nofun (not_or.2 ⟨nofun, fun hc' => ?_⟩)
    obtain ⟨c, hm', hc'⟩ := (clauseEnds_iff hb ht he).1 hc'
    cases hm.symm.trans hm'
    rw [hc] at hc'
    cases hc'

theorem pending_eq_taken (h : Comes n body clauses m taken pending m₁) (hp : pending ≠ none) :
    taken = pending := by
  cases h with
  | quiet | consumed => exact (hp rfl).elim
  | unmatched | rethrown => rfl

/-- The completion clause finds the exception that is to be sent on, or what was in the record when
the try block was entered. -/
theorem current (h : Comes n body clauses m taken pending m₁)
    (hP : Activation.PutsBack ⟨n, .stmt (.attempt body clauses), m⟩)
    (hL : Activation.NoLateRethrow ⟨n, .stmt (.attempt body clauses), m⟩) :
    m₁.thread.current = pending.or m.thread.current := by
  cases h with
  | quiet hb =>
    have hkept := hP.calls _ _ (.attempt n body clauses m) _ hb
    exact hkept.trans (m.current_tryEntered clauses)
  | unmatched hb ht he hm => exact (Machine.current_passedOver _ clauses _).trans he
  | consumed hb ht he hm hc => rfl
  | rethrown hb ht he hm hc =>
    rename_i t e m₂ c m₃
    obtain ⟨start, hentered, hclause⟩ := exists_clause hb ht he hm (by rw [hc]; nofun)
    obtain ⟨b, ho⟩ := exists_origin (hclause.symm.trans hc) (by rintro ⟨_, h⟩; cases h)
    have hkept := current_of_rethrown (hP.call hentered) (hL.call hentered) ho
    exact (hkept.trans (Machine.current_passedOver e clauses _)).trans he

/-- When the completion clause has returned, what is left of the exception is sent on. -/
theorem completed (h : Comes n body clauses m taken pending m₁)
    (hP : Activation.PutsBack ⟨n, .stmt (.attempt body clauses), m⟩)
    (hf : (completionsOf clauses).getLast? = some final)
    (hc : (Activation.run
      ⟨n, .job (.block final), m₁.completionEntered m.thread.depth⟩).ending = .returned ()) :
    (pending = none ∧
      (Activation.run ⟨n, .stmt (.attempt body clauses), m⟩).ending = .returned ()) ∨
    ∃ e m₂, pending = some e ∧ SendsOn n body clauses m e m₂ ∧
      (Activation.run ⟨n, .stmt (.attempt body clauses), m⟩).ending ≠ .returned () := by
  obtain ⟨m₂, hc⟩ : ∃ m₂, (Job.run n (.block final)).run (m₁.completionEntered m.thread.depth) =
      ⟨.returned (), m₂⟩ := ⟨_, congrArg (Outcome.mk · _) hc⟩
  obtain ⟨hsent, hrun⟩ := sent_of_returned <|
    (run_bind_returned (clauseStage_returned_iff.2 ⟨taken, h⟩)).trans
      (lastStages_completed pending hf hc)
  cases pending with
  | none => exact .inl ⟨rfl, congrArg Outcome.ending hrun⟩
  | some e =>
    refine .inr ⟨e, _, rfl, ⟨hsent, rfl, rfl, hrun, fun t m₃ hd ht => ?_⟩, fun hreturned => ?_⟩
    · have hentered := enters_sent (by rw [hsent]; exact List.mem_singleton.2 rfl)
      obtain ⟨b, ho⟩ := exists_origin hd (by rintro ⟨_, rfl⟩; exact ht rfl)
      obtain rfl := eq_of_origin_dispatch ho ht
      exact (hP.call hentered).carries _ _ _ ho
    · exact ending_never _ _ () ((congrArg Outcome.ending hrun).symm.trans hreturned)

theorem completionRun (h : Comes n body clauses m taken pending m₁)
    (hP : Activation.PutsBack ⟨n, .stmt (.attempt body clauses), m⟩)
    (hL : Activation.NoLateRethrow ⟨n, .stmt (.attempt body clauses), m⟩)
    (hf : (completionsOf clauses).getLast? = some final) :
    CompletionRun n body clauses m taken pending
      ⟨n, .job (.block final), m₁.completionEntered m.thread.depth⟩ := by
  have hentered := Enters.completion (clauseStage_returned_iff.2 ⟨taken, h⟩) hf
  refine ⟨h.once hf, h.current hP hL, fun x hx => (hx.current (hP.call hentered)).2, ?_, ?_⟩
  · intro hc
    rw [← h.pending_eq_none_iff]
    obtain ⟨hnone, hreturned⟩ | ⟨e, _, hsome, _, hne⟩ := h.completed hP hf hc
    · exact iff_of_true hreturned hnone
    · exact iff_of_false hne (by rw [hsome]; nofun)
  · intro hc hne
    obtain ⟨_, hreturned⟩ | ⟨e, m₂, rfl, hsends, _⟩ := h.completed hP hf hc
    · exact (hne hreturned).elim
    · exact ⟨e, m₂, h.pending_eq_taken nofun, rfl, hsends⟩

end TryBlock.Comes

/-- A try block that does not come to its completion clause goes no way on which one is run. -/
theorem TryBlock.not_completing {n : Nat} {body : Block} {clauses : List (Trigger × Block)}
    {m : Machine} (h : ¬∃ taken pending m₁, Comes n body clauses m taken pending m₁)
    {l : Leg Activation} (hl : l ∈ legs n body clauses m) : l.move ≠ (.finishing, .unexpected) := by
  obtain hl | hl := List.mem_append.1 hl
  · exact firstLegs_ne_completing hl
  · obtain ⟨pending, m₁, hstage, _⟩ := Outcome.mem_next hl
    obtain ⟨taken, hcomes⟩ := clauseStage_returned_iff.1 hstage
    exact (h ⟨taken, pending, m₁, hcomes⟩).elim

/-- The last completion clause of a try block is run once, after the clause that matches, if the
body ends by itself or by an exception and that clause by itself or by a rethrow, and in no other
case.  It finds the exception in the record that is sent on when it has returned. -/
theorem completion_runs_once {n : Nat} {body final : Block} {clauses : List (Trigger × Block)}
    {m : Machine} (hf : (completionsOf clauses).getLast? = some final)
    (hP : Activation.PutsBack ⟨n, .stmt (.attempt body clauses), m⟩)
    (hL : Activation.NoLateRethrow ⟨n, .stmt (.attempt body clauses), m⟩) :
    Course (Stage.passage (selected n body clauses m) (completes clauses))
      ⟨n, .stmt (.attempt body clauses), m⟩ (legs n body clauses m) (sent n body clauses m) ∧
    ((∃ taken pending m₁, Comes n body clauses m taken pending m₁) ↔
      BodyEnds n body clauses m ∧ ∀ ending, ClauseEnds n body clauses m ending →
        ending = .returned () ∨ ending = .unwound .rethrown) ∧
    (∀ taken pending m₁, Comes n body clauses m taken pending m₁ →
      CompletionRun n body clauses m taken pending
        ⟨n, .job (.block final), m₁.completionEntered m.thread.depth⟩) ∧
    ((¬∃ taken pending m₁, Comes n body clauses m taken pending m₁) →
      ∀ l ∈ legs n body clauses m, l.move ≠ (.finishing, .unexpected)) :=
  ⟨course_attempt n body clauses m, comes_iff hP, fun _ _ _ h => h.completionRun hP hL hf,
    fun h _ hl => not_completing h hl⟩

end

/-- A clause that throws its exception again, and a completion clause. -/
def rethrowingClauses : List (Trigger × Block) :=
  [(.typed .bool, [.rethrow]), (.completion, [.state])]

theorem stopsNothing_rethrowing : Activation.StopsNothing
    ⟨8, .stmt (.attempt [.throw (.bool true)] rethrowingClauses), aroundThrowingScope⟩ := by
  refine .of_calls id fun l b e => ?_
  cases e with
  | attempt =>
    exact .block (.rest (.throw rfl (by decide)) fun m₁ h => by cases h) fun o m₁ h => by
      cases h
      rfl
  | recordEmpty h _ hc => cases h; cases hc
  | clause h hm hs =>
    cases h
    cases hm
    cases hs
    exact .block (.rest (.rethrow rfl (by decide)) fun m₁ h => by cases h) fun o m₁ h => by
      cases h
      rfl
  | clauseThrew h hm hs hb => cases h; cases hm; cases hs; cases hb
  | completion h hf =>
    cases h
    cases hf
    exact .block (.rest .state fun m₁ h => .of_calls id fun l b e => nomatch e) fun o m₁ h => by
      cases h
      rfl
  | completionThrew h hf hb => cases h; cases hf; cases hb
  | again h =>
    cases h
    exact .dispatch rfl (by decide)

/-- The completion clause is run over the exception that the clause has thrown again, which is then
sent on. -/
theorem completion_runs_once_rethrowing : ∃ m₁ m₂,
    CompletionRun 8 [.throw (.bool true)] rethrowingClauses aroundThrowingScope
      (some (.of (.bool true))) (some (.of (.bool true))) ⟨8, .job (.block [.state]), m₁⟩ ∧
    SendsOn 8 [.throw (.bool true)] rethrowingClauses aroundThrowingScope (.of (.bool true))
      m₂ := by
  have hnothing := stopsNothing_rethrowing
  have hcomes : Comes 8 [.throw (.bool true)] rethrowingClauses aroundThrowingScope
      (some (.of (.bool true))) (some (.of (.bool true))) _ := .rethrown rfl nofun rfl rfl rfl
  have hrun := (completion_runs_once rfl hnothing.isFaithful.putsBack
    hnothing.noLateRethrow).2.2.1 _ _ _ hcomes
  obtain ⟨e, m₂, hsome, _, hsends⟩ := hrun.sends rfl nofun
  cases hsome
  exact ⟨_, m₂, hrun, hsends⟩

/-- A session that is left by an exception, with a cleanup that throws the exception again. -/
def rethrowingTeardown : Stmt := .run 0 [.defer [.rethrow], .throw (.bool false)]

/-- The thread in a clause. -/
def inClause : Thread :=
  { Thread.new 0 [] with depth := 2, current := some (.of (.bool true)), held := [[], []] }

theorem isFaithful_rethrowingTeardown {m : Machine} (ht : m.thread = inClause)
    (hh : m.shared.hooks = .none) :
    (⟨10, .stmt rethrowingTeardown, m⟩ : Activation).IsFaithful := by
  obtain ⟨_, _, _, _, _, _, _, _, _⟩ := m
  cases ht
  cases hh
  refine .of_plain_calls fun l b e => ?_
  cases e with
  | run =>
    refine ⟨nofun, fun _ => id, .of_calls fun l b e => ?_⟩
    cases e with
    | session n status body ht =>
      refine ⟨nofun, .block (.rest ?_ ?_) ?_, ?_⟩
      · refine Activation.StopsNothing.isFaithful (.of_calls id fun l b e => ?_)
        cases e with
        | deferLate n body ht => cases ht
      · intro m₁ h
        cases h
        exact .rest (.throw rfl (Nat.succ_pos 1)) fun m₁ h => by cases h
      · intro o m₁ h
        cases h
        rfl
      · rintro t m₁ ⟨status, rfl⟩ h
        cases h
    | sessionLeft ht h =>
      cases h
      refine ⟨nofun, Activation.StopsNothing.isFaithful (.of_calls id fun l b e => ?_),
        fun _ _ h => h.elim⟩
      cases e with
      | closeInner n ht hf hb =>
        cases hf
        refine .of_calls id fun l b e => ?_
        cases e with
        | cleanup n ht hf hp =>
          cases hf
          cases hp
          exact .block (.rest (.rethrow rfl (Nat.succ_pos 1)) fun m₁ h => by cases h)
            fun o m₁ h => by
              cases h
              rfl
        | closeNext ht hf hp h =>
          cases hf
          cases hp
          cases h
      | closeAboveNext ht hf hb h =>
        cases hf
        cases h

/-- A clause in which such a session is run, and a completion clause. -/
def teardownClauses : List (Trigger × Block) :=
  [(.typed .bool, [rethrowingTeardown]), (.completion, [.state])]

theorem isFaithful_teardownClauses : Activation.IsFaithful
    ⟨11, .stmt (.attempt [.throw (.bool true)] teardownClauses), aroundThrowingScope⟩ := by
  refine .of_plain_calls fun l b e => ?_
  cases e with
  | attempt =>
    refine ⟨nofun, fun _ => id, .block (.rest (.throw rfl (Nat.succ_pos 1)) ?_) ?_⟩
    · intro m₁ h
      cases h
    · intro o m₁ h
      cases h
      rfl
  | recordEmpty h _ hc => cases h; cases hc
  | clause h hm hs =>
    cases h
    cases hm
    cases hs
    refine ⟨nofun, fun _ => id, .block (.rest (isFaithful_rethrowingTeardown rfl rfl) ?_) ?_⟩
    · intro m₁ h
      cases h
    · intro o m₁ h
      cases h
      rfl
  | clauseThrew h hm hs hb => cases h; cases hm; cases hs; cases hb
  | completion h hf =>
    cases h
    cases hf
    refine ⟨nofun, fun _ => id, .block (.rest Activation.StopsNothing.state.isFaithful ?_) ?_⟩
    · exact fun m₁ h => .rest_nil
    · intro o m₁ h
      cases h
      rfl
  | completionThrew h hf hb => cases h; cases hf; cases hb
  | again h =>
    cases h
    exact ⟨nofun, fun _ => id, (Activation.StopsNothing.dispatch rfl (Nat.succ_pos 0)).isFaithful⟩

/-- The completion clause finds the exception of the session in the record, and another one is sent
on. -/
theorem another_seen_overRethrowingTeardown :
    Activation.PutsBack
      ⟨11, .stmt (.attempt [.throw (.bool true)] teardownClauses), aroundThrowingScope⟩ ∧
    ∃ m₁ m₂, Comes 11 [.throw (.bool true)] teardownClauses aroundThrowingScope
        (some (.of (.bool true))) (some (.of (.bool true))) m₁ ∧
      (m₁.completionEntered 1).thread.current = some (.of (.bool false)) ∧
      SendsOn 11 [.throw (.bool true)] teardownClauses aroundThrowingScope (.of (.bool true))
        m₂ := by
  have hP := isFaithful_teardownClauses.putsBack
  have hcomes : Comes 11 [.throw (.bool true)] teardownClauses aroundThrowingScope
      (some (.of (.bool true))) (some (.of (.bool true))) _ := .rethrown rfl nofun rfl rfl rfl
  obtain ⟨hnone, _⟩ | ⟨e, m₂, hsome, hsends, _⟩ := hcomes.completed hP rfl rfl
  · cases hnone
  · cases hsome
    exact ⟨hP, _, m₂, hcomes, rfl, hsends⟩

end NonlocalExit
