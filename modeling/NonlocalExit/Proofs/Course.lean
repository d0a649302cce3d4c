import NonlocalExit.Proofs.Legs

/-!
# The course of a try block

`TryBlock.legs` lists the ways of a try block with what is run on each: its body, the clause that
matches, the completion clause, and what is done about an exception that has escaped one of them.
`TryBlock.sent` is the sending of an exception that no clause has consumed.

`TryBlock.course_attempt`: that is all a try block runs, one piece after another; it goes through
all its stages, or it stops short on a way where a piece was run that has not returned.
-/

namespace NonlocalExit

variable [Declarations]

open Effect

/-- The ways of a try block that comes to its end. -/
def Stage.passage (selected declared : Bool) : List (Stage × Stage) :=
  [(.trying, .trying), (.trying, .catching)] ++
    ((if selected then [(.catching, .unexpected), (.unexpected, .catching)] else []) ++
      [(.catching, .finishing)] ++
      ((if declared then [(.finishing, .unexpected), (.unexpected, .finishing)] else []) ++
        [(.finishing, .propagating)]))

namespace TryBlock

/-- Whether an exception that has escaped a body is given up: nobody knows which one it is when the
record is empty. -/
def refusedBody (escape : Escape) (m : Machine) : Option Machine :=
  match m.thread.current with
  | none => some (m.note (.log (.emptyRecord escape)))
  | some _ => none

/-- Whether an exception that has escaped a clause is given up: a clause may throw its own again. -/
def refusedClause : Escape → Machine → Option Machine
  | .rethrown, _ => none
  | .thrown, m => some m

/-- An exception that has escaped a completion clause is given up. -/
def refusedCompletion (_ : Escape) (m : Machine) : Option Machine := some m

variable (n : Nat) (body : Block) (clauses : List (Trigger × Block)) (link : Nat)

/-- The ways of the body. -/
def bodyLegs (m : Machine) : List (Leg Activation) :=
  Leg.around (.trying, .trying) (.trying, .catching) refusedBody
    ⟨n, .job (.block body), m.tryEntered clauses⟩

/-- The ways of the clause that matches an exception. -/
def matchLegs (e : Exception) (m : Machine) : List (Leg Activation) :=
  match firstMatch e clauses with
  | none => []
  | some (trigger, b) =>
    match start? e trigger with
    | none => [⟨.catching, .unexpected, []⟩, ⟨.unexpected, .catching, []⟩]
    | some start =>
      Leg.around (.catching, .unexpected) (.unexpected, .catching) refusedClause
        ⟨n, .job (.block b), m.clauseEntered link e clauses start⟩

/-- The ways of the clause that matches the exception from the body, if there is an exception. -/
def clauseLegs (m : Machine) : Option Exception → List (Leg Activation)
  | none => []
  | some e => matchLegs n clauses link e m

/-- The ways of the completion clause. -/
def completionLegs (m : Machine) : List (Leg Activation) :=
  match (completionsOf clauses).getLast? with
  | none => []
  | some final =>
    Leg.around (.finishing, .unexpected) (.unexpected, .finishing) refusedCompletion
      ⟨n, .job (.block final), m.completionEntered link⟩

/-- The clause that is called for, up to the search for a completion clause. -/
def catchStage (exec : Executor) (outer escaped : Option Exception) :
    Effect (Option Exception) := do
  let pending ← runCatches exec (catchesOf exec clauses) outer link escaped
  advance link .catching .finishing
  pure pending

/-- The ways from the end of the body on, up to the search for a completion clause. -/
def catchLegs (outer escaped : Option Exception) (m : Machine) : List (Leg Activation) :=
  clauseLegs n clauses link m escaped ++
    ((runCatches (Job.run n) (catchesOf (Job.run n) clauses) outer link escaped).run m).next
      fun _ _ => [⟨.catching, .finishing, []⟩]

/-- The completion clause, as the try block has it. -/
def completionStage (exec : Executor) : Effect Unit :=
  runCompletion exec link <| (completionsOf clauses).getLast?.map fun final => do
    report .completing
    exec (.block final)

/-- The ways from the search for a completion clause on. -/
def lastLegs (m : Machine) : List (Leg Activation) :=
  completionLegs n clauses link m ++
    ((completionStage clauses link (Job.run n)).run m).next
      fun _ _ => [⟨.finishing, .propagating, []⟩]

/-- The ways of the body and the clause that it calls for. -/
def firstLegs (m : Machine) : List (Leg Activation) :=
  bodyLegs n body clauses m ++
    ((bodyStage (Job.run n) body m.thread.depth).run (m.tryEntered clauses)).next
      (catchLegs n clauses m.thread.depth m.thread.current)

/-- The ways of a try block. -/
def legs (m : Machine) : List (Leg Activation) :=
  firstLegs n body clauses m ++
    ((clauseStage (Job.run n) body clauses m.thread.current m.thread.depth).run
      (m.tryEntered clauses)).next fun _ => lastLegs n clauses m.thread.depth

/-- The sending of the exception that no clause has consumed. -/
def sent (m : Machine) : List Activation :=
  ((protect (runStages (Job.run n) (declared (Job.run n) body clauses) m.thread.current)).run
    (m.warned (completionsOf clauses))).next fun pending m₁ =>
      (pending.map fun e => ⟨n, .dispatch, m₁.withCurrent (some e)⟩).toList

/-- Whether a clause matches an exception, if there is one. -/
def selects (escaped : Option Exception) : Bool :=
  escaped.any fun e => (firstMatch e clauses).isSome

/-- Whether a clause matches the exception from the body. -/
def selected (m : Machine) : Bool :=
  match (bodyStage (Job.run n) body m.thread.depth).run (m.tryEntered clauses) with
  | ⟨.returned escaped, _⟩ => selects clauses escaped
  | _ => false

/-- Whether there is a completion clause. -/
def completes : Bool := (completionsOf clauses).getLast?.isSome

variable {n body clauses link} {thread : Nat} {m : Machine}

theorem way_body (n : Nat) (body : Block) (link : Nat) (hn : m.thread.number = thread) :
    Way thread link m [(.trying, .trying), (.trying, .catching)]
      ((bodyStage (Job.run n) body link).run (m.stage link .trying .trying))
      (Leg.around (.trying, .trying) (.trying, .catching) refusedBody
        ⟨n, .job (.block body), m.stage link .trying .trying⟩) := by
  unfold bodyStage TryBlock.runBody
  rw [run_bind_assoc]
  refine Way.around (a := ⟨n, .job (.block body), m.stage link .trying .trying⟩) hn (by decide)
    (.refl _) ?_ ?_
  · intro r m₁ hno
    cases r with
    | none => exact ⟨none, m₁, .refl _, rfl⟩
    | some escape =>
      have hsome := hno escape rfl
      unfold refusedBody at hsome
      split at hsome
      · cases hsome
      · rename_i e hc
        refine ⟨some e, m₁, .refl _, ?_⟩
        show ((current >>= _) >>= _).run m₁ = _
        rw [run_bind_assoc, run_bind_returned (run_current m₁), hc]
        rfl
  · intro escape m₁ m₂ hsome
    unfold refusedBody at hsome
    split at hsome
    · rename_i hc
      cases hsome
      refine ⟨.note rfl _, ?_⟩
      show ((current >>= _) >>= _).run m₁ = _
      rw [run_bind_assoc, run_bind_returned (run_current m₁), hc]
      exact run_bind_never (unexpected (Job.run n)) _ (m₁.note (.log (.emptyRecord escape)))
    · cases hsome

theorem run_capture_handler {exec : Executor} {e : Exception} {trigger : Trigger} {b : Block}
    {start : Event} (hs : start? e trigger = some start) :
    (capture ((catchOf exec (trigger, b)).handler e)).run m =
      (capture (exec (.block b))).run (m.note (.event start)) := by
  rw [run_capture, run_capture, run_handler hs]

theorem way_match {e : Exception} {trigger : Trigger} {b : Block} (outer : Option Exception)
    (hm : firstMatch e clauses = some (trigger, b)) (hn : m.thread.number = thread) :
    Way thread link m [(.catching, .unexpected), (.unexpected, .catching)]
      ((runCatches (Job.run n) (catchesOf (Job.run n) clauses) outer link (some e)).run m)
      (matchLegs n clauses link e m) := by
  have hpassed := (Machine.Idle.passedOver e clauses m).number.trans hn
  have hne : trigger ≠ .completion := fun h => firstMatch_ne_completion (h ▸ hm)
  unfold matchLegs
  rw [run_runCatch hm, hm]
  refine .of_idle (.passedOver e clauses m) ?_
  generalize hm₁ : m.passedOver e clauses = m₁ at hpassed
  dsimp only
  cases hs : start? e trigger with
  | none =>
    have hdone : ((catchOf (Job.run n) (trigger, b)).handler e).run
        (m₁.stage link .catching .unexpected) =
          ⟨.returned (), m₁.stage link .catching .unexpected⟩ := by
      refine Classical.not_not.1 fun h => ?_
      obtain ⟨start, hstart⟩ := starts_of_acts hne h
      cases hs.symm.trans hstart
    rw [run_bind_returned (run_capture_returned hdone)]
    have hback : (m₁.stage link .catching .unexpected).Idle
        ((m₁.stage link .catching .unexpected).withCurrent outer) := .withCurrent _ _
    exact .through hpassed ((Goes.leg hpassed (.nil hback)).append (.leg hpassed (.nil (.refl _))))
      rfl (by simp)
  | some start =>
    rw [run_bind_congr (run_capture_handler hs)]
    have hentered : m.clauseEntered link e clauses start =
        (m₁.stage link .catching .unexpected).note (.event start) := hm₁ ▸ rfl
    dsimp only
    rw [hentered]
    refine Way.around (a := ⟨n, .job (.block b), _⟩) hpassed (by decide) (.note rfl _) ?_ ?_
    · intro r m₂ hno
      cases r with
      | none => exact ⟨none, m₂.withCurrent outer, .withCurrent _ _, rfl⟩
      | some escape =>
        cases escape with
        | rethrown => exact ⟨some e, m₂, .refl _, rfl⟩
        | thrown => cases hno _ rfl
    · intro escape m₂ m₃ hsome
      cases escape with
      | rethrown => cases hsome
      | thrown =>
        cases hsome
        exact ⟨.refl _, run_bind_never _ _ _⟩

theorem way_clause (outer escaped : Option Exception) (hn : m.thread.number = thread) :
    Way thread link m
      (if selects clauses escaped then [(.catching, .unexpected), (.unexpected, .catching)] else [])
      ((runCatches (Job.run n) (catchesOf (Job.run n) clauses) outer link escaped).run m)
      (clauseLegs n clauses link m escaped) := by
  cases escaped with
  | none => exact .idle (.refl _) hn
  | some e =>
    cases hm : firstMatch e clauses with
    | none =>
      have hselects : selects clauses (some e) = false := by simp [selects, hm]
      have hrun : (runCatches (Job.run n) (catchesOf (Job.run n) clauses) outer link
          (some e)).run m = ⟨.returned (some e), m.passedOver e clauses⟩ := by
        show (select e (catchesOf _ clauses) >>= _).run m = _
        rw [run_bind_returned (run_select e clauses m), hm]
        rfl
      have hlegs : clauseLegs n clauses link m (some e) = [] := by
        simp only [clauseLegs, matchLegs, hm]
      rw [hrun, hselects, hlegs]
      exact .idle (.passedOver e clauses m) hn
    | some c =>
      obtain ⟨trigger, b⟩ := c
      have hselects : selects clauses (some e) = true := by simp [selects, hm]
      rw [if_pos hselects]
      exact way_match outer hm hn

theorem way_completion (hn : m.thread.number = thread) :
    Way thread link m
      (if completes clauses then [(.finishing, .unexpected), (.unexpected, .finishing)] else [])
      ((completionStage clauses link (Job.run n)).run m) (completionLegs n clauses link m) := by
  unfold completionStage completionLegs completes
  cases (completionsOf clauses).getLast? with
  | none => exact .idle (.refl _) hn
  | some final =>
    have hcapture : (capture (report .completing >>= fun _ => Job.run n (.block final))).run
        (m.stage link .finishing .unexpected) =
          (capture (Job.run n (.block final))).run (m.completionEntered link) := rfl
    show Way thread link m _ ((capture (report .completing >>= fun _ => _) >>= _).run
      (m.stage link .finishing .unexpected)) _
    rw [run_bind_congr hcapture]
    refine Way.around (a := ⟨n, .job (.block final), m.completionEntered link⟩) hn (by decide)
      (.note rfl _) ?_ ?_
    · intro r m₂ hno
      cases r with
      | none => exact ⟨(), m₂, .refl _, rfl⟩
      | some escape => cases hno _ rfl
    · intro escape m₂ m₃ hsome
      cases hsome
      exact ⟨.refl _, run_bind_never _ _ _⟩

theorem way_catch (outer escaped : Option Exception) (hn : m.thread.number = thread) :
    Way thread link m
      ((if selects clauses escaped then [(.catching, .unexpected), (.unexpected, .catching)]
        else []) ++ [(.catching, .finishing)])
      ((catchStage clauses link (Job.run n) outer escaped).run m)
      (catchLegs n clauses link outer escaped m) :=
  (way_clause outer escaped hn).bind fun _ _ _ hn₁ => .advance hn₁

theorem way_last (n : Nat) (clauses : List (Trigger × Block)) (link : Nat)
    (pending : Option Exception) (hn : m.thread.number = thread) :
    Way thread link m
      ((if completes clauses then [(.finishing, .unexpected), (.unexpected, .finishing)]
        else []) ++ [(.finishing, .propagating)])
      ((lastStages (Job.run n) clauses link pending).run m) (lastLegs n clauses link m) :=
  (way_completion hn).bind fun _ _ _ hn₁ => .advance hn₁

/-- A try block goes through all its stages in order, or stops short where a piece it runs has not
returned. -/
theorem way_stages (n : Nat) (body : Block) (clauses : List (Trigger × Block)) (m : Machine) :
    Way m.thread.number m.thread.depth m
      (Stage.passage (selected n body clauses m) (completes clauses))
      ((clauseStage (Job.run n) body clauses m.thread.current m.thread.depth >>=
        lastStages (Job.run n) clauses m.thread.depth).run (m.tryEntered clauses))
      (legs n body clauses m) := by
  have hstart : m.Idle (m.warned (completionsOf clauses)).deeper :=
    (Machine.Idle.warned _ m).trans (.deeper _)
  have hbody : Way m.thread.number m.thread.depth m _
      ((bodyStage (Job.run n) body m.thread.depth).run (m.tryEntered clauses))
      (bodyLegs n body clauses m) :=
    .of_idle hstart (way_body n body m.thread.depth hstart.number)
  have hcatch : Way m.thread.number m.thread.depth m _
      ((clauseStage (Job.run n) body clauses m.thread.current m.thread.depth).run
        (m.tryEntered clauses)) _ :=
    hbody.bind fun escaped m₁ h hn₁ => by
      have hselected : selected n body clauses m = selects clauses escaped := by
        unfold selected
        rw [h]
      exact hselected ▸ way_catch m.thread.current escaped hn₁
  have hall := hcatch.bind fun pending m₁ _ hn₁ => way_last n clauses m.thread.depth pending hn₁
  rw [List.append_assoc] at hall
  exact hall

end TryBlock

/-- Whether a try block goes its ways and sends its exception on, and runs nothing else: it goes
through the whole passage, or stops short where the pieces that were run last have not returned. -/
structure Course (passage : List (Stage × Stage)) (a : Activation) (legs : List (Leg Activation))
    (sent : List Activation) : Prop where
  goes : ∃ m₁, Goes a.machine.thread.number a.machine.thread.depth a.machine legs m₁ ∧
    Runs m₁ sent a.run.machine
  calling : ∀ l ∈ legs, l.inside ≠ [] → l.move ∈ Leg.calling
  ended : a.run.ending = .returned () ∨ sent ≠ [] → legs.map Leg.move = passage
  cut : a.run.ending ≠ .returned () → sent = [] → legs.map Leg.move <+: passage ∧
    ∃ ls l, legs = ls ++ [l] ∧ l.inside ≠ [] ∧ ∀ c ∈ l.inside, c.run.ending ≠ .returned ()

namespace TryBlock

variable {n : Nat} {body : Block} {clauses : List (Trigger × Block)} {m : Machine}

/-- The stages of a try block, with the way back to the level outside. -/
theorem run_protectedStages (exec : Executor) (body : Block) (clauses : List (Trigger × Block))
    (m : Machine) :
    (protect (runStages exec (declared exec body clauses) m.thread.current)).run
        (m.warned (completionsOf clauses)) =
      (onExit (clauseStage exec body clauses m.thread.current m.thread.depth >>=
        lastStages exec clauses m.thread.depth) (unprotect m.thread.depth)).run
          (m.tryEntered clauses) := by
  rw [run_protect, thread_warned]
  exact run_onExit_congr (run_stages _ _ _)

/-- When the stages have returned, the exception that no clause has consumed is sent on. -/
theorem sent_of_returned {pending : Option Exception} {m₁ : Machine}
    (h : (clauseStage (Job.run n) body clauses m.thread.current m.thread.depth >>=
      lastStages (Job.run n) clauses m.thread.depth).run (m.tryEntered clauses) =
        ⟨.returned pending, m₁⟩) :
    sent n body clauses m = (pending.map fun e =>
      ⟨n, .dispatch, (m₁.unprotected m.thread.depth).withCurrent (some e)⟩).toList ∧
    (Stmt.perform (Job.run n) (.attempt body clauses)).run m =
      match pending with
      | none => ⟨.returned (), m₁.unprotected m.thread.depth⟩
      | some e => (never (dispatch (Job.run n)) : Effect Unit).run
          ((m₁.unprotected m.thread.depth).withCurrent (some e)) := by
  have hback := (run_protectedStages (Job.run n) body clauses m).trans
    (run_onExit_returned h (run_unprotect _ _))
  unfold sent
  rw [hback, run_attempt, run_bind_returned hback]
  cases pending with
  | none => exact ⟨rfl, rfl⟩
  | some e => exact ⟨rfl, rfl⟩

/-- When the stages have not returned, the try block has not, and nothing is sent. -/
theorem sent_of_not_returned
    (h : ∀ pending, ((clauseStage (Job.run n) body clauses m.thread.current m.thread.depth >>=
      lastStages (Job.run n) clauses m.thread.depth).run (m.tryEntered clauses)).ending ≠
        .returned pending) :
    sent n body clauses m = [] ∧
    ((Stmt.perform (Job.run n) (.attempt body clauses)).run m).ending ≠ .returned () ∧
    ((clauseStage (Job.run n) body clauses m.thread.current m.thread.depth >>=
      lastStages (Job.run n) clauses m.thread.depth).run (m.tryEntered clauses)).machine.Idle
        ((Stmt.perform (Job.run n) (.attempt body clauses)).run m).machine := by
  have hback := run_protectedStages (Job.run n) body clauses m
  unfold sent
  rw [run_attempt]
  rcases hout : (clauseStage (Job.run n) body clauses m.thread.current m.thread.depth >>=
    lastStages (Job.run n) clauses m.thread.depth).run (m.tryEntered clauses) with
    ⟨pending | t | e, m₁⟩
  · exact (h pending (congrArg Outcome.ending hout)).elim
  · rw [run_onExit_unwound hout (run_unprotect _ _)] at hback
    rw [run_bind_unwound hback, hback]
    exact ⟨rfl, nofun, .unprotected _ _⟩
  · rw [run_onExit_halted hout] at hback
    rw [run_bind_halted hback, hback]
    exact ⟨rfl, nofun, .refl _⟩

theorem course_attempt (n : Nat) (body : Block) (clauses : List (Trigger × Block)) (m : Machine) :
    Course (Stage.passage (selected n body clauses m) (completes clauses))
      ⟨n, .stmt (.attempt body clauses), m⟩ (legs n body clauses m) (sent n body clauses m) := by
  have hw := way_stages n body clauses m
  generalize legs n body clauses m = ls at hw
  generalize hout : (clauseStage (Job.run n) body clauses m.thread.current m.thread.depth >>=
    lastStages (Job.run n) clauses m.thread.depth).run (m.tryEntered clauses) = out at hw
  cases hw with
  | through hn hg hm hc =>
    rename_i pending m₁
    obtain ⟨hsent, hrun⟩ := sent_of_returned hout
    refine ⟨⟨m₁, hg, ?_⟩, hc, fun _ => hm, fun hne hnil => ?_⟩
    · rw [hsent]
      show Runs m₁ _ ((Stmt.perform (Job.run n) (.attempt body clauses)).run m).machine
      rw [hrun]
      cases pending with
      | none => exact .nil (.unprotected _ _)
      | some e =>
        exact .cons ((Machine.Idle.unprotected _ _).trans (.withCurrent _ _)) (.nil (.refl _))
    · rw [hsent] at hnil
      cases pending with
      | none => exact (hne (congrArg Outcome.ending hrun)).elim
      | some e => cases hnil
  | cut hne hg hm hc hl hi =>
    obtain ⟨hsent, hending, hidle⟩ :=
      sent_of_not_returned fun pending h => hne pending (hout ▸ h)
    refine ⟨⟨out.machine, hg, ?_⟩, hc, fun h => ?_, fun _ _ => ⟨hm, _, _, rfl, hl, hi⟩⟩
    · rw [hsent]
      exact .nil (hout ▸ hidle)
    · exact (h.elim hending (· hsent)).elim

/-! ### What is run on the ways -/

theorem enters_sent {c : Activation} (hc : c ∈ sent n body clauses m) :
    Enters ⟨n, .stmt (.attempt body clauses), m⟩ .plain c := by
  obtain ⟨pending, m₁, h, hc⟩ := Outcome.mem_next hc
  cases pending with
  | none => cases hc
  | some e =>
    obtain rfl := List.mem_singleton.1 hc
    exact .again h

theorem mem_bodyLegs {l : Leg Activation} {c : Activation} (hl : l ∈ bodyLegs n body clauses m)
    (hc : c ∈ l.inside) : c = ⟨n, .job (.block body), m.tryEntered clauses⟩ ∨
      ∃ t escape m₁, (Job.run n (.block body)).run (m.tryEntered clauses) = ⟨.unwound t, m₁⟩ ∧
        t.escape? = some escape ∧ m₁.thread.current = none ∧
        c = ⟨n, .unexpected, m₁.note (.log (.emptyRecord escape))⟩ := by
  refine (Leg.mem_around hl hc).imp_right ?_
  rintro ⟨t, escape, m₁, m₂, ha, ht, hr, rfl⟩
  unfold refusedBody at hr
  split at hr
  · rename_i hcur
    cases hr
    exact ⟨t, escape, m₁, ha, ht, hcur, rfl⟩
  · cases hr

theorem matchLegs_eq {link : Nat} {e : Exception} {trigger : Trigger} {b : Block} {start : Event}
    (hm : firstMatch e clauses = some (trigger, b)) (hs : start? e trigger = some start) :
    matchLegs n clauses link e m =
      Leg.around (.catching, .unexpected) (.unexpected, .catching) refusedClause
        ⟨n, .job (.block b), m.clauseEntered link e clauses start⟩ := by
  simp only [matchLegs, hm, hs]

theorem move_of_mem_matchLegs {link : Nat} {e : Exception} {l : Leg Activation}
    (hl : l ∈ matchLegs n clauses link e m) :
    l.move = (.catching, .unexpected) ∨ l.move = (.unexpected, .catching) := by
  cases hm : firstMatch e clauses with
  | none =>
    simp only [matchLegs, hm] at hl
    cases hl
  | some p =>
    obtain ⟨trigger, b⟩ := p
    cases hs : start? e trigger with
    | none =>
      simp only [matchLegs, hm, hs, List.mem_cons, List.not_mem_nil, or_false] at hl
      exact hl.imp (congrArg Leg.move) (congrArg Leg.move)
    | some start =>
      rw [matchLegs_eq hm hs] at hl
      exact Leg.move_of_mem_around hl

theorem mem_matchLegs {link : Nat} {e : Exception} {l : Leg Activation} {c : Activation}
    (hl : l ∈ matchLegs n clauses link e m) (hc : c ∈ l.inside) :
    ∃ trigger b start, firstMatch e clauses = some (trigger, b) ∧ start? e trigger = some start ∧
      (c = ⟨n, .job (.block b), m.clauseEntered link e clauses start⟩ ∨
        ∃ m₁, (Job.run n (.block b)).run (m.clauseEntered link e clauses start) =
            ⟨.unwound .thrown, m₁⟩ ∧ c = ⟨n, .unexpected, m₁⟩) := by
  cases hm : firstMatch e clauses with
  | none =>
    simp only [matchLegs, hm] at hl
    cases hl
  | some p =>
    obtain ⟨trigger, b⟩ := p
    cases hs : start? e trigger with
    | none =>
      simp only [matchLegs, hm, hs, List.mem_cons, List.not_mem_nil, or_false] at hl
      obtain rfl | rfl := hl <;> cases hc
    | some start =>
      rw [matchLegs_eq hm hs] at hl
      refine ⟨trigger, b, start, rfl, hs, (Leg.mem_around hl hc).imp_right ?_⟩
      rintro ⟨t, escape, m₁, m₂, ha, ht, hr, rfl⟩
      cases escape with
      | rethrown => cases hr
      | thrown =>
        cases hr
        have hthrown : t = .thrown := by cases t <;> cases ht; rfl
        exact ⟨m₁, hthrown ▸ ha, rfl⟩

theorem mem_completionLegs {link : Nat} {l : Leg Activation} {c : Activation}
    (hl : l ∈ completionLegs n clauses link m) (hc : c ∈ l.inside) :
    ∃ final, (completionsOf clauses).getLast? = some final ∧
      (c = ⟨n, .job (.block final), m.completionEntered link⟩ ∨
        ∃ t m₁, (Job.run n (.block final)).run (m.completionEntered link) = ⟨.unwound t, m₁⟩ ∧
          t.escape?.isSome ∧ c = ⟨n, .unexpected, m₁⟩) := by
  unfold completionLegs at hl
  split at hl
  · cases hl
  · rename_i final hf
    refine ⟨final, hf, (Leg.mem_around hl hc).imp_right ?_⟩
    rintro ⟨t, escape, m₁, m₂, ha, ht, hr, rfl⟩
    cases hr
    exact ⟨t, m₁, ha, ht ▸ rfl, rfl⟩

/-! ### The stages that the ways are between -/

theorem move_of_mem_bodyLegs {l : Leg Activation} (hl : l ∈ bodyLegs n body clauses m) :
    l.move = (.trying, .trying) ∨ l.move = (.trying, .catching) := Leg.move_of_mem_around hl

theorem move_of_mem_catchLegs {link : Nat} {outer escaped : Option Exception} {l : Leg Activation}
    (hl : l ∈ catchLegs n clauses link outer escaped m) :
    l ∈ clauseLegs n clauses link m escaped ∨ l.move = (.catching, .finishing) := by
  refine (List.mem_append.1 hl).imp_right fun hl => ?_
  obtain ⟨_, _, _, hl⟩ := Outcome.mem_next hl
  exact congrArg Leg.move (List.mem_singleton.1 hl)

theorem move_of_mem_clauseLegs {link : Nat} {escaped : Option Exception} {l : Leg Activation}
    (hl : l ∈ clauseLegs n clauses link m escaped) :
    l.move = (.catching, .unexpected) ∨ l.move = (.unexpected, .catching) := by
  cases escaped with
  | none => cases hl
  | some e => exact move_of_mem_matchLegs hl

theorem move_of_mem_lastLegs {link : Nat} {l : Leg Activation}
    (hl : l ∈ lastLegs n clauses link m) :
    l.move = (.finishing, .unexpected) ∨ l.move = (.unexpected, .finishing) ∨
      l.move = (.finishing, .propagating) := by
  obtain hl | hl := List.mem_append.1 hl
  · unfold completionLegs at hl
    split at hl
    · cases hl
    · exact (Leg.move_of_mem_around hl).imp_right .inl
  · obtain ⟨_, _, _, hl⟩ := Outcome.mem_next hl
    exact .inr (.inr (congrArg Leg.move (List.mem_singleton.1 hl)))

/-- Each piece on the ways of a try block is called by it, one level deeper. -/
theorem enters_legs {l : Leg Activation} {c : Activation} (hl : l ∈ legs n body clauses m)
    (hc : c ∈ l.inside) :
    Enters ⟨n, .stmt (.attempt body clauses), m⟩ (.attempt m.thread.depth) c ∨
      Enters ⟨n, .stmt (.attempt body clauses), m⟩ (.clause m.thread.depth) c := by
  have hidle : ∀ {b a : Stage}, l = ⟨b, a, []⟩ → False := by
    rintro b a rfl
    cases hc
  obtain hl | hl := List.mem_append.1 hl
  · obtain hl | hl := List.mem_append.1 hl
    · obtain rfl | ⟨t, escape, m₁, hb, ht, hcur, rfl⟩ := mem_bodyLegs hl hc
      · exact .inl (.attempt n body clauses m)
      · exact .inr (.recordEmpty hb ht hcur)
    · obtain ⟨escaped, m₁, hb, hl⟩ := Outcome.mem_next hl
      obtain hl | hl := List.mem_append.1 hl
      · cases escaped with
        | none => cases hl
        | some e =>
          obtain ⟨trigger, b, start, hm, hs, rfl | ⟨m₂, hr, rfl⟩⟩ := mem_matchLegs hl hc
          · exact .inr (.clause hb hm hs)
          · exact .inr (.clauseThrew hb hm hs hr)
      · obtain ⟨_, _, _, hl⟩ := Outcome.mem_next hl
        exact (hidle (List.mem_singleton.1 hl)).elim
  · obtain ⟨pending, m₁, hcl, hl⟩ := Outcome.mem_next hl
    obtain hl | hl := List.mem_append.1 hl
    · obtain ⟨final, hf, rfl | ⟨t, m₂, hr, ht, rfl⟩⟩ := mem_completionLegs hl hc
      · exact .inr (.completion hcl hf)
      · exact .inr (.completionThrew hcl hf hr ht)
    · obtain ⟨_, _, _, hl⟩ := Outcome.mem_next hl
      exact (hidle (List.mem_singleton.1 hl)).elim

end TryBlock

end NonlocalExit
