import NonlocalExit.Proofs.Exceptions
import NonlocalExit.Proofs.Closings
import NonlocalExit.Proofs.Owners
import NonlocalExit.Proofs.Panics

/-!
# How other unwinds than those of exceptions arrive

A thread exit, a panic or a foreign unwind goes outward from call to call.  What is run on the way
are the cleanups of the frames that are closed there, and no clause of a try block: `Arrives`.
`unwind_reaches_owner`: when these cleanups return, the unwind comes to the call that it is meant
for, or out of all calls, and carries what it carried when it was started.
-/

namespace NonlocalExit

open Effect Machine

section

variable [Declarations]

/-- Whether a piece returns. -/
def Activation.Returns (a : Activation) : Prop := ∃ m, a.run = ⟨.returned (), m⟩

/-! ## Closings that return -/

/-- When all cleanups return, the frames that are to be closed come to be closed. -/
theorem closing_returns (y : Activation) (hc : y.task.Closes)
    (hw : ∀ code, y.task ≠ .job (.walk code)) (ht : y.machine.thread.torn = false)
    (hd : ∀ d, StartsCleanup y d → d.Returns) : y.RunsOut ∨ y.Returns := by
  induction y using Activation.induction with
  | h y ih =>
    obtain ⟨n, T, m⟩ := y
    have hinner : ∀ {l b}, Enters ⟨n, T, m⟩ l b → b.task.Closes →
        (∀ code, b.task ≠ .job (.walk code)) → Activation.RunsOut ⟨n, T, m⟩ ∨ b.Returns :=
      fun e hb hwb => (ih _ _ e hb hwb ((tidy_of_enters e).torn.trans ht)
        fun d h => hd d (.later e hb h)).imp_left (runsOut_of_enters e)
    cases T with
    | job j =>
      cases n with
      | zero => exact .inl ⟨m, rfl⟩
      | succ n =>
      cases j with
      | block ss => exact hc.elim
      | walk code => exact (hw code rfl).elim
      | close id =>
        cases hf : Frame.find? id m.thread.frames.frames with
        | none => exact .inr ⟨m, closeStep_absent ht hf⟩
        | some f =>
        cases hp : f.pending with
        | nil => exact .inr ⟨_, closeStep_empty ht hf hp⟩
        | cons c cs =>
          obtain ⟨m₁, hrun⟩ := hd _ (.here (.cleanup n ht hf hp))
          have hstart : (startCleanup (Job.run n) c).run (m.withPending id cs) =
              ⟨.returned (), m₁⟩ := (run_startCleanup _ _ _).trans hrun
          refine (hinner (.closeNext ht hf hp hstart) trivial nofun).imp_right ?_
          rintro ⟨m', hret⟩
          exact ⟨m', (closeStep_pending ht hf hp).trans ((run_bind_returned hstart).trans hret)⟩
      | closeAbove base =>
        by_cases hdone : ∀ f ∈ m.thread.frames.innermost?, base.any (f.id ≤ ·)
        · exact .inr ⟨m, closeAboveStep_done ht hdone⟩
        obtain ⟨f, fs, hf, hb⟩ : ∃ f fs, m.thread.frames.frames = f :: fs ∧
            ¬base.any (f.id ≤ ·) := by
          obtain ⟨f, hf⟩ := Classical.not_forall.1 hdone
          obtain ⟨hmem, hb⟩ := Classical.not_imp.1 hf
          obtain ⟨fs, hfs⟩ := List.head?_eq_some_iff.1 hmem
          exact ⟨f, fs, hfs, hb⟩
        obtain hout | ⟨m₁, hret⟩ := hinner (.closeInner n ht hf hb) trivial nofun
        · exact .inl hout
        refine (hinner (.closeAboveNext ht hf hb hret) trivial nofun).imp_right ?_
        rintro ⟨m', hret'⟩
        exact ⟨m', (closeAboveStep_inner ht hf hb).trans ((run_bind_returned hret).trans hret')⟩
    | drops count =>
      cases count with
      | zero => exact .inr ⟨m, rfl⟩
      | succ count =>
      match hh : m.thread.held with
      | [] | [] :: _ => exact .inr ⟨m, dropGuards_none count (by rw [hh]; rfl)⟩
      | (g :: own) :: outer =>
        obtain hout | ⟨m₁, hret⟩ := hinner (.drop n count hh) trivial nofun
        · exact .inl hout
        refine (hinner (.dropNext hh (leaves_of_returned hret)) trivial nofun).imp_right ?_
        rintro ⟨m', hret'⟩
        exact ⟨m', (dropGuards_held count hh).trans (run_onExit_returned hret hret')⟩
    | _ => exact hc.elim

/-! ## What is closed at a call -/

/-- Which cleanups are started at a call when an unwind has left what it waits for. -/
def StartsOnExit (t : Transfer) (l : Label) (x d : Activation) : Prop :=
  ∃ c m y, Enters x l c ∧ c.run = ⟨.unwound t, m⟩ ∧ l.closing? c.fuel m = some y ∧
    StartsCleanup y d

section

variable {t : Transfer} {l : Label} {x c d : Activation} {m : Machine}

theorem enters_block (e : Enters x .block c) : ∃ n ss m, x = ⟨n + 1, .job (.block ss), m⟩ ∧
    c = ⟨n, .rest ss, m.withHeld ([] :: m.thread.held)⟩ := by
  generalize hl : Label.block = l at e
  cases e with
  | block n ss m => exact ⟨n, ss, m, rfl, rfl⟩
  | blockLeft | dropNext | scopeLeft => cases ‹Option Transfer› <;> cases hl
  | _ => cases hl

theorem enters_dropping {count : Nat} (e : Enters x (.dropping count) c) :
    ∃ n m g own outer, m.thread.held = (g :: own) :: outer ∧ x = ⟨n, .drops (count + 1), m⟩ ∧
      c = ⟨n, .job (.close g.frame), (m.withHeld (own :: outer)).leaving g.frame⟩ := by
  generalize hl : Label.dropping count = l at e
  cases e with
  | drop n count' hh =>
    cases hl
    exact ⟨n, _, _, _, _, hh, rfl, rfl⟩
  | blockLeft | dropNext | scopeLeft => cases ‹Option Transfer› <;> cases hl
  | _ => cases hl

theorem enters_scope {id : Nat} (e : Enters x (.scope id) c) :
    ∃ n body m, m.thread.torn = false ∧ id = m.thread.frames.nextId ∧
      x = ⟨n, .stmt (.scope body), m⟩ ∧ c = ⟨n, .job (.block body), m.scopeEntered⟩ := by
  generalize hl : Label.scope id = l at e
  cases e with
  | scope n body ht =>
    cases hl
    exact ⟨n, body, _, ht, rfl, rfl, rfl⟩
  | blockLeft | dropNext | scopeLeft => cases ‹Option Transfer› <;> cases hl
  | _ => cases hl

theorem enters_session {base : Option Nat} {owner : Bool} (e : Enters x (.session base owner) c) :
    ∃ n status body m, m.thread.torn = false ∧ base = m.innermostId ∧
      owner = !m.thread.initialised ∧ x = ⟨n, .session status body, m⟩ ∧
      c = ⟨n, .job (.block body), m.sessionEntered⟩ := by
  generalize hl : Label.session base owner = l at e
  cases e with
  | session n status body ht =>
    cases hl
    exact ⟨n, status, body, _, ht, rfl, rfl, rfl, rfl⟩
  | blockLeft | dropNext | scopeLeft => cases ‹Option Transfer› <;> cases hl
  | _ => cases hl

/-- A call at which something is closed waits for one piece only. -/
theorem startsOnExit_iff (e : Enters x l c) (hc : c.run = ⟨.unwound t, m⟩) :
    StartsOnExit t l x d ↔ ∃ y, l.closing? c.fuel m = some y ∧ StartsCleanup y d := by
  refine ⟨?_, fun ⟨y, hy, hs⟩ => ⟨c, m, y, e, hc, hy, hs⟩⟩
  rintro ⟨c', m', y, e', hc', hy, hs⟩
  obtain rfl : c = c' := by
    cases l with
    | block =>
      obtain ⟨_, _, _, rfl, rfl⟩ := enters_block e
      obtain ⟨_, _, _, hx, rfl⟩ := enters_block e'
      cases hx
      rfl
    | dropping count =>
      obtain ⟨_, _, _, _, _, hh, rfl, rfl⟩ := enters_dropping e
      obtain ⟨_, _, _, _, _, hh', hx, rfl⟩ := enters_dropping e'
      cases hx
      cases hh.symm.trans hh'
      rfl
    | scope id =>
      obtain ⟨_, _, _, _, rfl, rfl, rfl⟩ := enters_scope e
      obtain ⟨_, _, _, _, _, hx, rfl⟩ := enters_scope e'
      cases hx
      rfl
    | session base owner =>
      obtain ⟨_, _, _, _, _, rfl, rfl, rfl, rfl⟩ := enters_session e
      obtain ⟨_, _, _, _, _, _, _, hx, rfl⟩ := enters_session e'
      cases hx
      rfl
    | _ => cases hy
  cases hc.symm.trans hc'
  exact ⟨y, hy, hs⟩

theorem not_startsOnExit (h : ∀ fuel m, l.closing? fuel m = none) : ¬StartsOnExit t l x d := by
  rintro ⟨c, m, y, -, -, hy, -⟩
  cases (h _ _).symm.trans hy

/-- A block that holds no guard has nothing to close. -/
theorem not_startsOnExit_block {n : Nat} {ss : Block} {m₀ : Machine}
    (hc : Activation.run ⟨n, .rest ss, m₀.withHeld ([] :: m₀.thread.held)⟩ = ⟨.unwound t, m⟩)
    (hheld : m.thread.held.headD [] = []) :
    ¬StartsOnExit t .block ⟨n + 1, .job (.block ss), m₀⟩ d := by
  intro hs
  obtain ⟨y, hy, hs⟩ := (startsOnExit_iff (.block n ss m₀) hc).1 hs
  cases hy
  rw [hheld] at hs
  exact StartsCleanup.not_drops_zero hs

end

theorem within_of_not_inBlock {a : Activation} (h : ¬a.task.InBlock) (bound : Nat) :
    a.Within bound a.machine.thread.held.length :=
  ⟨⟨Nat.le_refl _, fun _ hi => absurd hi (by omega)⟩, fun hin => (h hin).elim⟩

/-- On torn storage no guard is held by a block that was entered since the teardown started. -/
theorem Stack.within {K : List (Label × Activation)} {a : Activation} (h : Stack K a)
    (ht : a.machine.thread.torn = true) : ∃ depth, ∀ bound, a.Within bound depth := by
  induction h with
  | start h => exact ⟨_, within_of_not_inBlock (by cases h <;> exact id)⟩
  | ended | exiting => exact ⟨_, within_of_not_inBlock id⟩
  | call h e ih =>
    have htorn := (tidy_of_enters e).torn.symm.trans ht
    obtain ⟨depth, hwithin⟩ := ih htorn
    exact ⟨depth, fun bound =>
      within_of_enters e (fun hlive => by cases htorn.symm.trans hlive) (hwithin bound)⟩

section

variable {x c : Activation} {l : Label} {t : Transfer} {m : Machine} {K : List (Label × Activation)}

/-- What is left to do at a call is done when the cleanups that are started there return. -/
theorem exit_returns (h : Stack K x) (e : Enters x l c) (hc : c.run = ⟨.unwound t, m⟩)
    (hd : ∀ d, StartsOnExit t l x d → d.Returns) :
    x.RunsOut ∨ ∃ m₁, (l.exit (Job.run c.fuel)).run m = ⟨.returned (), m₁⟩ := by
  have hl := leaves_of_unwound hc
  have hhold := Holding.primitives.obeys_run hl
  have htidy : Tidy x.machine m := (tidy_of_enters e).trans (Tidy.primitives.obeys_run hl)
  have hclosing : ∀ y, l.closing? c.fuel m = some y → ∀ d, StartsCleanup y d → d.Returns :=
    fun y hy d hs => hd d ⟨c, m, y, e, hc, hy, hs⟩
  cases e with
  | block n ss m₀ =>
    have hdrops : Activation.RunsOut ⟨n + 1, .job (.block ss), m₀⟩ ∨
        Activation.Returns ⟨n, .drops (m.thread.held.headD []).length, m⟩ := by
      cases ht : m₀.thread.torn with
      | false =>
        exact (closing_returns ⟨n, .drops _, m⟩ trivial nofun (htidy.torn.trans ht)
          (hclosing _ rfl)).imp_left (runsOut_of_enters (.blockLeft hl))
      | true =>
        rw [(head_of_block hl).2.2 ht]
        exact .inr ⟨m, rfl⟩
    refine hdrops.imp_right ?_
    rintro ⟨m₁, hret⟩
    exact ⟨_, run_onExit_returned hret (run_popHeld m₁)⟩
  | drop n count hh =>
    rename_i g own outer m₀
    cases ht : m₀.thread.torn with
    | false =>
      exact (closing_returns ⟨n, .drops count, m⟩ trivial nofun (htidy.torn.trans ht)
        (hclosing _ rfl)).imp_left (runsOut_of_enters (.dropNext hh hl))
    | true =>
      -- The guard that is dropped would be of a frame beyond every bound.
      obtain ⟨depth, hwithin⟩ := h.within ht
      have habove := (hwithin (g.frame + 1)).holds.head ((hwithin 0).inside trivial) g
        (by rw [hh]; exact List.mem_cons_self)
      omega
  | scope n body ht =>
    exact (closing_returns ⟨n, .job (.close _), m.leaving _⟩ trivial nofun (htidy.torn.trans ht)
      (hclosing _ rfl)).imp_left (runsOut_of_enters (.scopeLeft ht hl))
  | session n status body ht =>
    rename_i m₀
    refine (closing_returns ⟨n, .job (.closeAbove _), m⟩ trivial nofun (htidy.torn.trans ht)
      (hclosing _ rfl)).imp (runsOut_of_enters (.sessionLeft ht hl)) ?_
    rintro ⟨m₁, hret⟩
    refine ⟨m₁.sessionClosed (!m₀.thread.initialised), (run_bind_returned hret).trans ?_⟩
    cases m₀.thread.initialised <;> rfl
  | recover n value body ht =>
    rename_i m₀
    refine .inr ⟨(m.withMark m₀.rootId m₀.tokenTaken.markFound).withRecovering
      m₀.thread.recovering, (run_endRecovery _ _ _ _).trans ?_⟩
    rw [htidy.torn.trans ht]
    rfl
  | blockLeft => cases ‹Option Transfer› <;> exact .inr ⟨_, rfl⟩
  | dropNext => cases ‹Option Transfer› <;> exact .inr ⟨m, rfl⟩
  | scopeLeft => cases ‹Option Transfer› <;> exact .inr ⟨m, rfl⟩
  | _ => exact .inr ⟨_, rfl⟩

/-- A try block the body of which is left by another unwind than that of an exception runs no
clause. -/
theorem not_enters_clause {link link' : Nat} {d : Activation} (e : Enters x (.attempt link) c)
    (hc : c.run = ⟨.unwound t, m⟩) (ht : t.escape? = none) : ¬Enters x (.clause link') d := by
  obtain ⟨n, body, clauses, m₀, rfl, rfl, rfl⟩ := enters_attempt e
  have hbody : ∀ link, (TryBlock.bodyStage (Job.run n) body link).run (m₀.tryEntered clauses) =
      ⟨.unwound t, m⟩ := fun link =>
    (TryBlock.goesThrough_bodyStage (Job.run n) body link _).unwound hc ht rfl
  intro h
  generalize hl' : Label.clause link' = l' at h
  cases h with
  | recordEmpty hx htx =>
    cases (show (Job.run n (.block body)).run (m₀.tryEntered clauses) = _ from hc).symm.trans hx
    cases htx.symm.trans ht
  | clause hx => cases (hbody _).symm.trans hx
  | clauseThrew hx => cases (hbody _).symm.trans hx
  | completion hx => cases (run_bind_unwound (hbody _)).symm.trans hx
  | completionThrew hx => cases (run_bind_unwound (hbody _)).symm.trans hx
  | attempt => cases hl'
  | again => cases hl'

end

/-! ## From call to call -/

/-- The calls that an unwind comes to, from the innermost one up to the first that does not let it
pass. -/
inductive OnWay (t : Transfer) : List (Label × Activation) → Label → Activation → Prop
  | here {l x K} : OnWay t ((l, x) :: K) l x
  | outer {l x K l' x'} (hp : l.Passes t) (h : OnWay t K l' x') : OnWay t ((l, x) :: K) l' x'

theorem OnWay.forall_nil {t : Transfer} {P : Label → Activation → Prop} :
    ∀ l x, OnWay t [] l x → P l x := by
  intro l x h
  cases h

theorem OnWay.forall_cons {t : Transfer} {P : Label → Activation → Prop} {l : Label}
    {x : Activation} {K : List (Label × Activation)} (h : P l x)
    (hK : l.Passes t → ∀ l' x', OnWay t K l' x' → P l' x') :
    ∀ l' x', OnWay t ((l, x) :: K) l' x' → P l' x' := by
  intro l' x' h'
  cases h' with
  | here => exact h
  | outer hp h' => exact hK hp l' x' h'

/-- How an unwind that has left a piece on a machine goes outward through the calls on the way from
another one, innermost first, and where it ends: the call that it is meant for gives what it
carries, or it leaves them all.  At each call nothing is run but what is to be done on exit. -/
inductive Arrives (t : Transfer) (a : Activation) :
    List (Label × Activation) → Activation → Machine → Prop
  | out {m} (h : a.run = ⟨.unwound t, m⟩) : Arrives t a [] a m
  | recovered {K n value body r previous outer b m m₀ code} (ht : t = .panicking code r.token)
    (h : (Effect.recover (Job.run n (.block body))).run m₀ = ⟨.returned (some code),
      ((m.note (.log (.recovered code))).withMark r.frame previous).withRecovering outer⟩) :
    Arrives t a ((.recover r previous outer, ⟨n, .stmt (.recover value body), m₀⟩) :: K) b m
  | ended {K base owner n status body b m m₀ m₁ s} (ht : t = .threadExit s)
    (hclose : (Job.run n (.closeAbove base)).run m = ⟨.returned (), m₁⟩)
    (h : (runBody (Job.run n) (threadBody (Job.run n) status body)).run m₀ =
      ⟨.returned s, m₁.sessionClosed owner⟩) :
    Arrives t a ((.session base owner, ⟨n, .session status body, m₀⟩) :: K) b m
  | through {l K} {x c : Activation} {m m₁} (hp : l.Passes t)
    (hexit : (l.exit (Job.run c.fuel)).run m = ⟨.returned (), m₁⟩)
    (hx : x.run = ⟨.unwound t, m₁⟩)
    (hclauses : ∀ link, l = .attempt link → ∀ link' d, ¬Enters x (.clause link') d)
    (h : Arrives t a K x m₁) : Arrives t a ((l, x) :: K) c m

/-- How a session ends, from the way in which its body was left. -/
def sessionEnding (value : Int32) : Option Transfer → Ending Int32
  | none => .returned value
  | some (.threadExit status) => .returned status
  | some t => .unwound t

/-- A session the frames of which are closed ends as its body has, and stops the end of the
thread. -/
theorem run_session_left {n : Nat} {value : Int32} {body : Block} {o : Option Transfer}
    {m m₁ m₂ : Machine} (ht : m.thread.torn = false)
    (h : ((Job.run n (.block body)).run m.sessionEntered).Leaves o m₁)
    (hc : (Job.run n (.closeAbove m.innermostId)).run m₁ = ⟨.returned (), m₂⟩) :
    (runBody (Job.run n) (threadBody (Job.run n) value body)).run m =
      ⟨sessionEnding value o, m₂.sessionClosed (!m.thread.initialised)⟩ := by
  obtain ⟨r, hbody, hr⟩ : ∃ r, (catchUnwind (threadBody (Job.run n) value body)).run
      m.sessionEntered = ⟨.returned r, m₁⟩ ∧
        ∀ m₃, (statusOf r).run m₃ = ⟨sessionEnding value o, m₃⟩ := by
    cases o with
    | none =>
      obtain ⟨_, h⟩ := returned_of_leaves h
      exact ⟨_, run_catchUnwind_returned (run_bind_returned h), fun _ => rfl⟩
    | some t =>
      have h := unwound_of_leaves h
      exact ⟨_, run_catchUnwind_unwound (run_bind_unwound h), fun _ => by cases t <;> rfl⟩
  rw [run_runBody, ht]
  refine (run_bind_returned hbody).trans ((run_bind_returned hc).trans ?_)
  cases m.thread.initialised <;> exact hr _

section

variable {a b x c : Activation} {K K₀ : List (Label × Activation)} {l : Label} {t : Transfer}
  {m : Machine}

/-- A call that does not let such an unwind pass, and is not one that stops every unwind, is the one
that it is meant for. -/
theorem arrives_at_owner {m₁ : Machine} (e : Enters x l c) (hc : c.run = ⟨.unwound t, m⟩)
    (ht : t.escape? = none) (hp : ¬l.Passes t) (hforeign : l ≠ .foreign)
    (hunwinding : l ≠ .unwinding)
    (hexit : (l.exit (Job.run c.fuel)).run m = ⟨.returned (), m₁⟩) :
    Arrives t a ((l, x) :: K) c m := by
  have htidy : Tidy x.machine m :=
    (tidy_of_enters e).trans (Tidy.primitives.obeys_run (leaves_of_unwound hc))
  cases l with
  | recover r previous outer =>
    obtain ⟨code, rfl⟩ : ∃ code, t = .panicking code r.token := by
      exact Classical.byContradiction fun hne => hp fun code he => hne ⟨code, he⟩
    obtain ⟨n, value, body, m₀, rfl, rfl, ht₀, rfl, rfl, rfl⟩ := enters_recover e
    exact .recovered rfl (run_recover_panicking ht₀ (htidy.torn.trans ht₀) hc)
  | session base owner =>
    obtain ⟨s, rfl⟩ : ∃ s, t = .threadExit s := by
      exact Classical.byContradiction fun hne => hp fun s he => hne ⟨s, he⟩
    obtain ⟨_, m₂, hclose, -⟩ := returned_bind hexit
    obtain ⟨n, status, body, m₀, ht₀, rfl, rfl, rfl, rfl⟩ := enters_session e
    exact .ended rfl hclose (run_session_left ht₀ (leaves_of_unwound hc) hclose)
  | foreign => exact (hforeign rfl).elim
  | unwinding => exact (hunwinding rfl).elim
  | attempt | clause | hook => exact (hp ht).elim
  | _ => exact (hp trivial).elim

/-- An unwind other than that of an exception goes outward as far as what is left to do at the calls
on its way returns. -/
theorem arrives_of_exits (hpath : Path a K b) (hrun : b.run = ⟨.unwound t, m⟩)
    (ht : t.escape? = none) (hstops : ∀ l x, OnWay t K l x → l ≠ .foreign ∧ l ≠ .unwinding)
    (hexits : ∀ {K' l x c m}, Path a K' x → OnWay t K l x → Enters x l c →
      c.run = ⟨.unwound t, m⟩ →
      x.RunsOut ∨ ∃ m₁, (l.exit (Job.run c.fuel)).run m = ⟨.returned (), m₁⟩) :
    a.RunsOut ∨ Arrives t a K b m := by
  induction hpath generalizing m with
  | here => exact .inr (.out hrun)
  | call h e ih =>
    obtain ⟨hforeign, hunwinding⟩ := hstops _ _ .here
    rename_i K x l c
    obtain hout | ⟨m₁, hexit⟩ := hexits h .here e hrun
    · exact .inl (h.runsOut_of_runsOut hout)
    by_cases hp : l.Passes t
    · have hrun₁ := unwound_of_enters e hrun hp hexit
      refine (ih hrun₁ (fun l' x' h' => hstops l' x' (.outer hp h'))
        fun h' hway => hexits h' (.outer hp hway)).imp_right ?_
      refine .through hp hexit hrun₁ fun link hl link' d => ?_
      subst hl
      exact not_enters_clause e hrun ht
    · exact .inr (arrives_at_owner e hrun ht hp hforeign hunwinding hexit)

/-- A thread exit, a panic or a foreign unwind goes outward through calls of every kind but those
that stop all unwinds.  When the cleanups that are run on the way return, it comes to the call that
it is meant for, or out of all of them, with what it carries; and no clause of a try block that it
goes through is run. -/
theorem unwind_reaches_owner (hstack : Stack K₀ a) (hpath : Path a K b)
    (hrun : b.run = ⟨.unwound t, m⟩) (ht : t.escape? = none)
    (hway : ∀ l x, OnWay t K l x →
      l ≠ .foreign ∧ l ≠ .unwinding ∧ ∀ d, StartsOnExit t l x d → d.Returns) :
    a.RunsOut ∨ Arrives t a K b m :=
  arrives_of_exits hpath hrun ht (fun l x h => ⟨(hway l x h).1, (hway l x h).2.1⟩)
    fun h hway' e hc => exit_returns (hstack.append h) e hc (hway _ _ hway').2.2

end

end

/-- A session in which the thread is ended inside a scope, inside a try block with clauses of both
kinds. -/
def exitingInTry : Stmt :=
  .run 0 [.attempt [.scope [.defer [.emit "cleanup"], .exit 3]]
    [(.any, [.emit "caught"]), (.completion, [.emit "completed"])]]

/-- The machine in the scope, after the cleanup was registered. -/
def inExitingTry : Machine :=
  let session := (Machine.initial.withHeld [[]]).sessionEntered
  let entered := (session.withHeld ([] :: session.thread.held)).tryEntered
    [(.any, [.emit "caught"]), (.completion, [.emit "completed"])]
  let scope := (entered.withHeld ([] :: entered.thread.held)).scopeEntered
  ((Stmt.perform (Job.run 5) (.defer [.emit "cleanup"])).run
    (scope.withHeld ([] :: scope.thread.held))).machine

theorem unwind_reaches_owner_exitingInTry :
    ∃ K m, Stack [] ⟨9, .job (.block [exitingInTry]), .initial⟩ ∧
      Path ⟨9, .job (.block [exitingInTry]), .initial⟩ K ⟨5, .stmt (.exit 3), inExitingTry⟩ ∧
      K.countP (·.1.protects) = 1 ∧
      (Stmt.perform (Job.run 5) (.exit 3)).run inExitingTry = ⟨.unwound (.threadExit 3), m⟩ ∧
      Arrives (.threadExit 3) ⟨9, .job (.block [exitingInTry]), .initial⟩ K
        ⟨5, .stmt (.exit 3), inExitingTry⟩ m := by
  have hstart : Stack [] ⟨9, .job (.block [exitingInTry]), .initial⟩ :=
    .start (.body rfl (by decide : 0 < _))
  have hpath := (((((((((((Path.here (a := ⟨9, .job (.block [exitingInTry]), .initial⟩)).call
    (.block _ _ _)).call (.first _ _ _ _)).call (.run _ _ _ _)).call (.session _ _ _ rfl)).call
    (.block _ _ _)).call (.first _ _ _ _)).call (.attempt _ _ _ _)).call (.block _ _ _)).call
    (.first _ _ _ _)).call (.scope _ _ rfl)).call (.block _ _ _) |>.call
    (@Enters.next _ _ _ _ _ inExitingTry rfl) |>.call (.first _ _ _ _)
  refine ⟨_, _, hstart, hpath, rfl, rfl, ?_⟩
  refine (unwind_reaches_owner hstart hpath rfl rfl ?_).resolve_left (by rintro ⟨m, h⟩; cases h)
  have hnone : ∀ {l x}, (∀ fuel m, l.closing? fuel m = none) →
      ∀ d, StartsOnExit (.threadExit 3) l x d → d.Returns := fun hl _ hs =>
    (not_startsOnExit hl hs).elim
  have hblock : ∀ {n ss m m'}, Activation.run ⟨n, .rest ss, m.withHeld ([] :: m.thread.held)⟩ =
      ⟨.unwound (.threadExit 3), m'⟩ → m'.thread.held.headD [] = [] →
      ∀ d, StartsOnExit (.threadExit 3) .block ⟨n + 1, .job (.block ss), m⟩ d → d.Returns :=
    fun hc hheld _ hs => (not_startsOnExit_block hc hheld hs).elim
  refine OnWay.forall_cons ⟨nofun, nofun, hnone fun _ _ => rfl⟩ fun _ =>
    OnWay.forall_cons ⟨nofun, nofun, hnone fun _ _ => rfl⟩ fun _ =>
    OnWay.forall_cons ⟨nofun, nofun, hblock rfl rfl⟩ fun _ =>
    OnWay.forall_cons ⟨nofun, nofun, fun d hs => ?_⟩ fun _ =>
    OnWay.forall_cons ⟨nofun, nofun, hnone fun _ _ => rfl⟩ fun _ =>
    OnWay.forall_cons ⟨nofun, nofun, hblock rfl rfl⟩ fun _ =>
    OnWay.forall_cons ⟨nofun, nofun, hnone fun _ _ => rfl⟩ fun _ =>
    OnWay.forall_cons ⟨nofun, nofun, hnone fun _ _ => rfl⟩ fun _ =>
    OnWay.forall_cons ⟨nofun, nofun, hblock rfl rfl⟩ fun _ =>
    OnWay.forall_cons ⟨nofun, nofun, fun d hs => ?_⟩ fun hp => (hp 3 rfl).elim
  · -- The scope has one cleanup.
    obtain ⟨y, hy, hs⟩ := (startsOnExit_iff (.scope 6 _ rfl) rfl).1 hs
    cases hy
    obtain rfl | ⟨m₁, h, hs⟩ := hs.of_close rfl rfl
    · exact ⟨_, rfl⟩
    · cases h
      exact (StartsCleanup.not_close rfl rfl hs).elim
  · -- The frame of the session is empty.
    obtain ⟨y, hy, hs⟩ := (startsOnExit_iff (.session 8 _ _ rfl) rfl).1 hs
    cases hy
    cases hs with
    | later h hb hs =>
      cases h with
      | closeInner n ht hf hbase =>
        cases hf
        exact (StartsCleanup.not_close rfl rfl hs).elim
      | closeAboveNext ht hf hbase h =>
        cases hf
        cases h
        cases hs with
        | later h hb hs =>
          cases h with
          | closeInner n ht hf hbase => cases hf
          | closeAboveNext ht hf hbase h => cases hf

end NonlocalExit
