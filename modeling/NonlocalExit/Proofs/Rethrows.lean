import NonlocalExit.Proofs.Escapes

/-!
# Exceptions that are thrown again

A clause that throws its exception again is left by an unwind of its own kind, by which the try
block knows that the exception goes on outward.  A try block on the way that does not consume the
exception sends it on as one that was thrown anew.  `rethrow_leaves_clause`: through no such try
block the exception comes to the next try block outside, after the completion clause; and through
one or more of them it is taken for unexpected.
-/

namespace NonlocalExit

open Effect Machine

/-- A call that lets a rethrown exception pass lets every exception pass. -/
theorem Label.passes_of_escape {l : Label} {t : Transfer} (h : l.Passes .rethrown)
    (ht : t.escape? ≠ none) : l.Passes t := by
  cases l with
  | recover r previous outer =>
    rintro code rfl
    exact ht rfl
  | session base owner =>
    rintro status rfl
    exact ht rfl
  | attempt | clause | hook => cases h
  | foreign | unwinding => exact h.elim
  | plain | block | leaving | dropping | scope => trivial

section

variable [Declarations]

/-! ## On the way outward -/

/-- Whether an exception that comes to a call goes on outward with the record as it is.  The
cleanups that are run there return and keep the record.  A try block sends the exception on when no
clause matches it, the completion clause returns, and the throw hook returns and keeps the
record. -/
inductive Forwards (e : Exception) : Label → Activation → Prop
  | exit {l x} (hp : l.Passes .rethrown)
    (hd : ∀ t d, t.escape? ≠ none → StartsOnExit t l x d → d.Returns ∧ d.KeepsRecord) :
    Forwards e l x
  | attempt {n body clauses m} (hm : TryBlock.firstMatch e clauses = none)
    (hf : ∀ d, Serves .completion ⟨n, .stmt (.attempt body clauses), m⟩ d → d.Returns)
    (hh : ∀ d, Serves .hook ⟨n, .stmt (.attempt body clauses), m⟩ d →
      d.Returns ∧ d.KeepsRecord) :
    Forwards e (.attempt m.thread.depth) ⟨n, .stmt (.attempt body clauses), m⟩

/-- How the completion clause of a try block is run, if there is one. -/
inductive CompletionReturned (n link : Nat) (clauses : List (Trigger × Block)) :
    Machine → Machine → Prop
  | none {m} (h : (TryBlock.completionsOf clauses).getLast? = none) :
    CompletionReturned n link clauses m m
  | returned {m m₁ final} (h : (TryBlock.completionsOf clauses).getLast? = some final)
    (hr : (Job.run n (.block final)).run (m.completionEntered link) = ⟨.returned (), m₁⟩) :
    CompletionReturned n link clauses m (m₁.stage link .unexpected .finishing)

section

variable {n : Nat} {e : Exception} {body : Block} {clauses : List (Trigger × Block)}
  {t : Transfer} {m m₁ : Machine}

/-- An exception is sent to the try block around it when the throw hook returns. -/
theorem dispatch_forwards (he : m.thread.current = some e) (hd : 0 < m.thread.depth)
    (hh : ∀ link d, Enters ⟨n, .dispatch, m⟩ (.hook .onThrow link) d →
      d.Returns ∧ d.KeepsRecord) :
    ∃ m', Activation.run ⟨n, .dispatch, m⟩ = ⟨.unwound .thrown, m'⟩ ∧
      m'.thread.current = some e := by
  have hcall : ∃ m', (noteDispatch m.thread.current >>= fun _ =>
      callThrowHook (Job.run n)).run m = ⟨.returned (), m'⟩ ∧ m'.thread.current = some e := by
    by_cases hq : m.shared.hooks.onThrow = none ∨ m.thread.hookRunning = true
    · exact ⟨_, run_noteDispatch_quiet he hq, he⟩
    · obtain ⟨hb, hr⟩ := not_or.1 hq
      obtain ⟨b, hb⟩ := Option.ne_none_iff_exists'.1 hb
      rw [Bool.not_eq_true] at hr
      obtain ⟨⟨m₁, hrun⟩, hkept⟩ := hh _ _ (.throwHook n hb hr he)
      refine ⟨m₁.throwHookLeft m.thread.depth, ?_, (hkept _ hrun).trans he⟩
      rw [run_noteDispatch_hook hb hr he]
      exact run_bind_returned (guarded_runThrowHook_returned hrun)
  obtain ⟨m', hrun, hcur⟩ := hcall
  have hlevel : m'.thread.depth = m.thread.depth :=
    (Level.oblivious.governs_run n).obeys_sendOff (leaves_of_returned hrun)
  exact ⟨m', (Raises.thrown hrun (hlevel.symm ▸ hd)).run, hcur⟩

theorem lastStages_returned (pending : Option Exception) {link : Nat}
    (hf : ∀ final, (TryBlock.completionsOf clauses).getLast? = some final →
      Activation.Returns ⟨n, .job (.block final), m.completionEntered link⟩) :
    ∃ m₁, CompletionReturned n link clauses m m₁ ∧
      (TryBlock.lastStages (Job.run n) clauses link pending).run m =
        ⟨.returned pending, m₁.stage link .finishing .propagating⟩ := by
  cases hlast : (TryBlock.completionsOf clauses).getLast? with
  | none => exact ⟨m, .none hlast, TryBlock.lastStages_none pending hlast⟩
  | some final =>
    obtain ⟨m₁, hrun⟩ := hf final hlast
    exact ⟨_, .returned hlast hrun, TryBlock.lastStages_completed pending hlast hrun⟩

/-- What is left to do in a try block that has an exception left after its clauses is to run the
completion clause and to send the exception on. -/
theorem protect_stages_sends (hc : (TryBlock.clauseStage (Job.run n) body clauses m.thread.current
      m.thread.depth).run (m.tryEntered clauses) = ⟨.returned (some e), m₁⟩)
    (hf : ∀ d, Serves .completion ⟨n, .stmt (.attempt body clauses), m⟩ d → d.Returns) :
    ∃ m₂, CompletionReturned n m.thread.depth clauses m₁ m₂ ∧
      (protect (TryBlock.runStages (Job.run n) (.declared (Job.run n) body clauses)
        m.thread.current)).run (m.warned (TryBlock.completionsOf clauses)) =
          ⟨.returned (some e),
            (m₂.stage m.thread.depth .finishing .propagating).unprotected m.thread.depth⟩ := by
  obtain ⟨m₂, hcompletion, hlast⟩ := lastStages_returned (some e)
    fun _ hlast => hf _ (.completion hc hlast)
  exact ⟨m₂, hcompletion, TryBlock.protect_stages hc hlast⟩

/-- A try block that is inside another one sends an exception on, as one that is thrown. -/
theorem attempt_sends (hd : 0 < m.thread.depth)
    (h : (protect (TryBlock.runStages (Job.run n) (.declared (Job.run n) body clauses)
      m.thread.current)).run (m.warned (TryBlock.completionsOf clauses)) =
        ⟨.returned (some e), m₁⟩)
    (hh : ∀ d, Serves .hook ⟨n, .stmt (.attempt body clauses), m⟩ d →
      d.Returns ∧ d.KeepsRecord) :
    ∃ m', Activation.run ⟨n, .stmt (.attempt body clauses), m⟩ = ⟨.unwound .thrown, m'⟩ ∧
      m'.thread.current = some e := by
  have hagain := Enters.again h
  have hdepth : (m₁.withCurrent (some e)).thread.depth = m.thread.depth := depth_of_enters hagain
  obtain ⟨m', hrun, hcur⟩ := dispatch_forwards (n := n) (m := m₁.withCurrent (some e)) rfl
    (hdepth.symm ▸ hd) fun link d hhook => hh d (.hook hagain hhook)
  exact ⟨m', unwound_of_enters hagain hrun trivial rfl, hcur⟩

/-- A try block no clause of which matches sends the exception on. -/
theorem attempt_forwards {link : Nat} {x c : Activation} (h : Enters x (.attempt link) c)
    (hforwards : Forwards e (.attempt link) x) (hd : 0 < x.machine.thread.depth)
    (hc : c.run = ⟨.unwound t, m⟩) (ht : t.escape? ≠ none)
    (hcur : m.thread.current = some e) :
    ∃ m', x.run = ⟨.unwound .thrown, m'⟩ ∧ m'.thread.current = some e := by
  obtain ⟨n, body, clauses, m₀, rfl, rfl, rfl⟩ := enters_attempt h
  obtain ⟨escape, ht⟩ := Option.ne_none_iff_exists'.1 ht
  generalize hl : Label.attempt m₀.thread.depth = l at hforwards
  cases hforwards with
  | exit hp _ => subst hl; cases hp
  | attempt hm hf hh =>
    have hstage := TryBlock.clauseStage_unmatched m₀.thread.current
      (TryBlock.bodyStage_escaped m₀.thread.depth hc ht hcur) hm
    obtain ⟨m₂, -, hpending⟩ := protect_stages_sends hstage hf
    exact attempt_sends hd hpending hh

end

section

variable {a b : Activation} {K K₀ : List (Label × Activation)} {e : Exception} {t : Transfer}
  {m : Machine}

/-- An exception that is forwarded at all calls on its way comes out of them: as it was started when
there is no try block among them, and as one that was thrown when there is. -/
theorem forwarded_of_path (hstack : Stack K₀ a) (h : Path a K b) (hd : 0 < a.machine.thread.depth)
    (hK : ∀ c ∈ K, Forwards e c.1 c.2) (hb : b.run = ⟨.unwound t, m⟩) (ht : t.escape? ≠ none)
    (hcur : m.thread.current = some e) :
    a.RunsOut ∨ ∃ m', m'.thread.current = some e ∧
      ((∀ c ∈ K, c.1.Passes .rethrown) ∧ a.run = ⟨.unwound t, m'⟩ ∨
        (∃ c ∈ K, ¬c.1.Passes .rethrown) ∧ a.run = ⟨.unwound .thrown, m'⟩) := by
  induction h generalizing t m with
  | here => exact .inr ⟨m, hcur, .inl ⟨List.forall_mem_nil _, hb⟩⟩
  | call h e' ih =>
    rename_i K x l c
    have hforwards := hK _ List.mem_cons_self
    have hK' : ∀ c ∈ K, Forwards e c.1 c.2 := fun c hc => hK c (List.mem_cons_of_mem _ hc)
    by_cases hp : l.Passes .rethrown
    · have hd' : ∀ d, StartsOnExit t l x d → d.Returns ∧ d.KeepsRecord := by
        cases hforwards with
        | exit _ hd => exact fun d => hd t d ht
        | attempt => cases hp
      -- What is to be done on exit is done.
      obtain hout | ⟨m₁, hx, hcur₁⟩ := unwound_keeping_record (hstack.append h)
        (Path.here.call e') hb (by simpa using Label.passes_of_escape hp ht) (by simpa using hd')
      · exact .inl (h.runsOut_of_runsOut hout)
      refine (ih hK' hx ht (hcur₁.trans hcur)).imp_right ?_
      rintro ⟨m', hcur', ⟨hall, hrun⟩ | ⟨⟨c, hc, hnot⟩, hrun⟩⟩
      · exact ⟨m', hcur', .inl ⟨List.forall_mem_cons.2 ⟨hp, hall⟩, hrun⟩⟩
      · exact ⟨m', hcur', .inr ⟨⟨c, List.mem_cons_of_mem _ hc, hnot⟩, hrun⟩⟩
    · obtain ⟨link, rfl⟩ : ∃ link, l = .attempt link := by
        cases hforwards with
        | exit hp' _ => exact (hp hp').elim
        | attempt => exact ⟨_, rfl⟩
      obtain ⟨m₁, hx, hcur₁⟩ :=
        attempt_forwards e' hforwards (Nat.lt_of_lt_of_le hd h.depth_le) hb ht hcur
      refine (ih hK' hx nofun hcur₁).imp_right ?_
      rintro ⟨m', hcur', ⟨-, hrun⟩ | ⟨-, hrun⟩⟩ <;>
        exact ⟨m', hcur', .inr ⟨⟨_, List.mem_cons_self, hp⟩, hrun⟩⟩

end

/-! ## At the try block of the clause -/

/-- The completion clause of a try block is run when its clauses have been gone through. -/
theorem Serves.of_completion {n : Nat} {body : Block} {clauses : List (Trigger × Block)}
    {m : Machine} {d : Activation}
    (h : Serves .completion ⟨n, .stmt (.attempt body clauses), m⟩ d) :
    ∃ pending final m₁, (TryBlock.clauseStage (Job.run n) body clauses m.thread.current
        m.thread.depth).run (m.tryEntered clauses) = ⟨.returned pending, m₁⟩ ∧
      (TryBlock.completionsOf clauses).getLast? = some final ∧
      d = ⟨n, .job (.block final), m₁.completionEntered m.thread.depth⟩ := by
  cases h with
  | completion h hf => exact ⟨_, _, _, h, hf, rfl⟩

/-- How an exception goes on from a try block whose clause it has left on a machine.  The completion
clause is run, once, and then the exception is sent to the next try block. -/
structure GoesOn (n : Nat) (body : Block) (clauses : List (Trigger × Block)) (e : Exception)
    (m₀ m m' : Machine) : Prop where
  completed : CompletionReturned n m₀.thread.depth clauses
    ((m.stage m₀.thread.depth .unexpected .catching).stage m₀.thread.depth .catching .finishing) m'
  once : ∀ d d', Serves .completion ⟨n, .stmt (.attempt body clauses), m₀⟩ d →
    Serves .completion ⟨n, .stmt (.attempt body clauses), m₀⟩ d' → d = d'
  sent : Activation.run ⟨n, .stmt (.attempt body clauses), m₀⟩ = Activation.run ⟨n, .dispatch,
    ((m'.stage m₀.thread.depth .finishing .propagating).unprotected m₀.thread.depth).withCurrent
      (some e)⟩
  thrown : 0 < m₀.thread.depth → ∃ m₁, Activation.run ⟨n, .stmt (.attempt body clauses), m₀⟩ =
    ⟨.unwound .thrown, m₁⟩ ∧ m₁.thread.current = some e

/-- How a try block ends whose clause was left on a machine by an exception that is taken for
unexpected.  The completion clause is not run, and no exception leaves the try block. -/
structure TakenForUnexpected (n : Nat) (body : Block) (clauses : List (Trigger × Block))
    (m₀ m : Machine) : Prop where
  entered : Enters ⟨n, .stmt (.attempt body clauses), m₀⟩ (.clause m₀.thread.depth)
    ⟨n, .unexpected, m⟩
  uncompleted : ∀ d, ¬Serves .completion ⟨n, .stmt (.attempt body clauses), m₀⟩ d
  ends : (∃ es t m', UnexpectedEnds n m es t m' ∧ t.escape? = none ∧
      Activation.run ⟨n, .stmt (.attempt body clauses), m₀⟩ =
        ⟨.unwound t, m'.unprotected m₀.thread.depth⟩) ∨
    ∃ l y h m', Enters ⟨n, .unexpected, m⟩ l y ∧ y.run = ⟨.halted h, m'⟩ ∧
      Activation.run ⟨n, .stmt (.attempt body clauses), m₀⟩ = ⟨.halted h, m'⟩

section

variable {n : Nat} {body b : Block} {clauses : List (Trigger × Block)} {trigger : Trigger}
  {e : Exception} {start : Event} {m₀ m₁ m₂ : Machine}
  (hbody : (TryBlock.bodyStage (Job.run n) body m₀.thread.depth).run (m₀.tryEntered clauses) =
    ⟨.returned (some e), m₁⟩)
  (hmatch : TryBlock.firstMatch e clauses = some (trigger, b))
  (hstart : TryBlock.start? e trigger = some start)
include hbody hmatch hstart

theorem goesOn_of_rethrown
    (hclause : (Job.run n (.block b)).run (m₁.clauseEntered m₀.thread.depth e clauses start) =
      ⟨.unwound .rethrown, m₂⟩)
    (hf : ∀ d, Serves .completion ⟨n, .stmt (.attempt body clauses), m₀⟩ d → d.Returns)
    (hh : ∀ d, Serves .hook ⟨n, .stmt (.attempt body clauses), m₀⟩ d →
      d.Returns ∧ d.KeepsRecord) :
    ∃ m₃, GoesOn n body clauses e m₀ m₂ m₃ := by
  have hstage := TryBlock.clauseStage_rethrown m₀.thread.current hbody hmatch hstart hclause
  obtain ⟨m₃, hcompletion, hpending⟩ := protect_stages_sends hstage hf
  refine ⟨m₃, hcompletion, fun d d' h h' => ?_,
    (TryBlock.run_attempt m₀).trans (run_bind_returned hpending),
    fun hd => attempt_sends hd hpending hh⟩
  obtain ⟨_, _, _, hr, hlast, rfl⟩ := h.of_completion
  obtain ⟨_, _, _, hr', hlast', rfl⟩ := h'.of_completion
  cases hr.symm.trans hr'
  cases hlast.symm.trans hlast'
  rfl

theorem takenForUnexpected_of_thrown
    (hclause : (Job.run n (.block b)).run (m₁.clauseEntered m₀.thread.depth e clauses start) =
      ⟨.unwound .thrown, m₂⟩) : TakenForUnexpected n body clauses m₀ m₂ := by
  have hentered := Enters.clauseThrew hbody hmatch hstart hclause
  obtain ⟨es, t, m', hrun, hends⟩ | ⟨l, y, h, m', hy, hhalt, hrun⟩ := unexpectedEnds_or_halted n m₂
  · have ht : t.escape? = none := escape_of_unexpected hrun
    refine ⟨hentered, fun d hd => ?_, .inl ⟨es, t, m', hends, ht,
      unwound_of_enters hentered hrun ht rfl⟩⟩
    obtain ⟨_, _, _, hret, -⟩ := hd.of_completion
    cases hret.symm.trans ((TryBlock.goesThrough_clauseStage_threw hbody
      hmatch hstart hclause).unwound hrun trivial rfl)
  · refine ⟨hentered, fun d hd => ?_, .inr ⟨l, y, h, m', hy, hhalt,
      halted_of_enters hentered hrun⟩⟩
    obtain ⟨_, _, _, hret, -⟩ := hd.of_completion
    cases hret.symm.trans ((TryBlock.goesThrough_clauseStage_threw hbody
      hmatch hstart hclause).halted hrun)

end

/-- A clause in which its exception is thrown again is abandoned, and the record holds the exception
as before.  When no try block is between the rethrow and the clause, the completion clause is run
and the exception goes on outward; when there are some, which do not consume it, the try block of
the clause takes it for unexpected. -/
theorem rethrow_leaves_clause {K₀ K : List (Label × Activation)} {n k : Nat} {body b : Block}
    {clauses : List (Trigger × Block)} {trigger : Trigger} {e : Exception} {start : Event}
    {m₀ m₁ m : Machine} (hstack : Stack K₀ ⟨n, .stmt (.attempt body clauses), m₀⟩)
    (hbody : (TryBlock.bodyStage (Job.run n) body m₀.thread.depth).run (m₀.tryEntered clauses) =
      ⟨.returned (some e), m₁⟩)
    (hmatch : TryBlock.firstMatch e clauses = some (trigger, b))
    (hstart : TryBlock.start? e trigger = some start)
    (hpath : Path ⟨n, .job (.block b), m₁.clauseEntered m₀.thread.depth e clauses start⟩ K
      ⟨k, .stmt .rethrow, m⟩)
    (hcur : m.thread.current = some e) (hK : ∀ c ∈ K, Forwards e c.1 c.2)
    (hf : ∀ d, Serves .completion ⟨n, .stmt (.attempt body clauses), m₀⟩ d → d.Returns)
    (hh : ∀ d, Serves .hook ⟨n, .stmt (.attempt body clauses), m₀⟩ d →
      d.Returns ∧ d.KeepsRecord) :
    Activation.RunsOut ⟨n, .stmt (.attempt body clauses), m₀⟩ ∨
      ∃ m₂, m₂.thread.current = some e ∧
        ((∀ c ∈ K, c.1.Passes .rethrown) ∧
            (Job.run n (.block b)).run (m₁.clauseEntered m₀.thread.depth e clauses start) =
              ⟨.unwound .rethrown, m₂⟩ ∧ (∃ m₃, GoesOn n body clauses e m₀ m₂ m₃) ∨
          (∃ c ∈ K, ¬c.1.Passes .rethrown) ∧
            (Job.run n (.block b)).run (m₁.clauseEntered m₀.thread.depth e clauses start) =
              ⟨.unwound .thrown, m₂⟩ ∧ TakenForUnexpected n body clauses m₀ m₂) := by
  have hclause := Enters.clause hbody hmatch hstart
  have hinside : 0 < (m₁.clauseEntered m₀.thread.depth e clauses start).thread.depth := by
    have hdepth := depth_of_enters hclause
    exact hdepth ▸ Nat.succ_pos _
  have hrethrow : Activation.run ⟨k, .stmt .rethrow, m⟩ = ⟨.unwound .rethrown, m⟩ :=
    (Raises.rethrown k hcur (Nat.lt_of_lt_of_le hinside hpath.depth_le)).run
  refine (forwarded_of_path (hstack.call hclause) hpath hinside hK hrethrow nofun hcur).imp
    (runsOut_of_enters hclause) ?_
  rintro ⟨m₂, hcur₂, ⟨hall, hrun⟩ | ⟨hsome, hrun⟩⟩
  · exact ⟨m₂, hcur₂, .inl ⟨hall, hrun, goesOn_of_rethrown hbody hmatch hstart hrun hf hh⟩⟩
  · exact ⟨m₂, hcur₂, .inr ⟨hsome, hrun, takenForUnexpected_of_thrown hbody hmatch hstart hrun⟩⟩

end

/-- A try block with a clause for all exceptions and a completion clause, in which a value is
thrown. -/
def throwingInto (clause : Block) : Stmt :=
  .attempt [.throw (.bool true)] [(.any, clause), (.completion, [.emit "last"])]

/-- The machine at that try block, inside another one. -/
def insideOuterTry : Machine :=
  let entered := (Machine.initial.withHeld [[]]).tryEntered [(.any, [])]
  entered.withHeld ([] :: entered.thread.held)

/-- The machine at the start of the clause. -/
def inRethrowingClause (clause : Block) : Machine :=
  ((TryBlock.bodyStage (Job.run 6) [.throw (.bool true)] 1).run (insideOuterTry.tryEntered
    [(.any, clause), (.completion, [.emit "last"])])).machine.clauseEntered 1 (.of (.bool true))
      [(.any, clause), (.completion, [.emit "last"])] (.caughtAny (.of (.bool true)))

theorem rethrow_leaves_clause_outward :
    ∃ K₀ K m, Stack K₀ ⟨6, .stmt (throwingInto [.rethrow]), insideOuterTry⟩ ∧
      Path ⟨6, .job (.block [.rethrow]), inRethrowingClause [.rethrow]⟩ K
        ⟨5, .stmt .rethrow, m⟩ ∧
      ∃ m', Activation.run ⟨6, .stmt (throwingInto [.rethrow]), insideOuterTry⟩ =
          ⟨.unwound .thrown, m'⟩ ∧
        m'.thread.current = some (.of (.bool true)) ∧
        Entry.event .completing ∈ insideOuterTry.deeds m' := by
  have hstart : Activation.IsStart ⟨8, .job (.block [.attempt [throwingInto [.rethrow]]
      [(.any, [])]]), .initial⟩ := .body rfl (by decide)
  have hstack := (((((Stack.start hstart).call (.block _ _ _)).call (.first _ _ _ _)).call
    (.attempt _ _ _ _)).call (.block _ _ _)).call (.first _ _ _ _)
  have hpath := ((Path.here (a := ⟨6, .job (.block [.rethrow]),
    inRethrowingClause [.rethrow]⟩)).call (.block _ _ _)).call (.first _ _ _ _)
  refine ⟨_, _, _, hstack, hpath, ?_⟩
  have hblock : ∀ t d, ¬StartsOnExit t .block
      ⟨6, .job (.block [.rethrow]), inRethrowingClause [.rethrow]⟩ d := by
    rintro t d ⟨c, m, y, e, hc, hy, hs⟩
    obtain ⟨_, _, _, hx, rfl⟩ := enters_block e
    cases hx
    cases hc
    cases hy
    exact StartsCleanup.not_drops_zero hs
  have hf : ∀ d, Serves .completion ⟨6, .stmt (throwingInto [.rethrow]), insideOuterTry⟩ d →
      d.Returns := by
    intro d h
    obtain ⟨_, _, _, hr, hlast, rfl⟩ := h.of_completion
    cases hr
    cases hlast
    exact ⟨_, rfl⟩
  have hh : ∀ d, ¬Serves .hook ⟨6, .stmt (throwingInto [.rethrow]), insideOuterTry⟩ d := by
    intro d h
    cases h with
    | hook h hd =>
      cases h with
      | again h =>
        cases h
        cases hd with
        | throwHook n hb hr he => cases hb
  obtain ⟨m₁, hout⟩ | ⟨m₂, -, ⟨-, -, m₃, hgoes⟩ | ⟨-, hthrown, -⟩⟩ :=
    rethrow_leaves_clause hstack rfl rfl rfl hpath rfl
      (List.forall_mem_cons.2
        ⟨.exit trivial fun t d _ h => (not_startsOnExit (fun _ _ => rfl) h).elim,
          List.forall_mem_cons.2 ⟨.exit trivial fun t d _ h => (hblock t d h).elim,
            List.forall_mem_nil _⟩⟩) hf fun d h => (hh d h).elim
  · cases hout
  · obtain ⟨m', hrun, hcur⟩ := hgoes.thrown (by decide)
    refine ⟨m', hrun, hcur, ?_⟩
    cases hrun
    decide
  · cases hthrown

/-- A rethrow inside a try block of the clause ends the thread, without the completion clause, where
a rethrow in the clause itself goes on outward. -/
theorem unexpected_of_nestedRethrow :
    (∃ m', Activation.run ⟨8, .stmt (throwingInto [.attempt [.rethrow] []]), insideOuterTry⟩ =
        ⟨.unwound (.threadExit exitFailure), m'⟩ ∧
      Entry.event .completing ∉ insideOuterTry.deeds m' ∧
      Entry.diagnostic (.unexpected (some (Value.bool true).type.tag)) ∈
        insideOuterTry.deeds m') ∧
    ∃ m', Activation.run ⟨8, .stmt (throwingInto [.rethrow]), insideOuterTry⟩ =
        ⟨.unwound .thrown, m'⟩ ∧ m'.thread.current = some (.of (.bool true)) ∧
      Entry.event .completing ∈ insideOuterTry.deeds m' :=
  ⟨⟨_, rfl, by decide, by decide⟩, _, rfl, rfl, by decide⟩

end NonlocalExit
