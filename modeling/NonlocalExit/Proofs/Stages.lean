import NonlocalExit.Proofs.Inversion

/-!
# How a try block was left

A try block comes through its stages one after another.  When it has returned, all of them have;
when it is left by an unwind, its body, the clause that matches or the completion clause was left by
it, or an exception that escaped a clause was given up: `returned_attempt`, `unwound_attempt`.
-/

namespace NonlocalExit

variable [Declarations]

open Effect

namespace TryBlock

variable {exec : Executor} {m m' : Machine} {t : Transfer} {e : Exception} {link : Nat}
  {body b : Block} {clauses : List (Trigger × Block)} {trigger : Trigger}

theorem firstMatch_ne_completion : firstMatch e clauses ≠ some (.completion, b) := by
  intro h
  induction clauses with
  | nil => cases h
  | cons c rest ih =>
    obtain ⟨trigger, b'⟩ := c
    unfold firstMatch at h
    cases trigger with
    | typed type =>
      dsimp only at h
      split at h
      · cases h
      · exact ih h
    | any => cases h
    | completion => exact ih h

/-- A clause that does anything is one that starts. -/
theorem starts_of_acts (ht : trigger ≠ .completion)
    (h : ((catchOf exec (trigger, b)).handler e).run m ≠ ⟨.returned (), m⟩) :
    ∃ start, start? e trigger = some start := by
  cases trigger with
  | typed type =>
    cases hd : e.downcast? type with
    | none => exact (h (by simp only [catchOf, hd]; rfl)).elim
    | some v => exact ⟨.caught v, congrArg (Option.map _) hd⟩
  | any => exact ⟨_, rfl⟩
  | completion => exact (ht rfl).elim

/-! ### Stages that have returned -/

theorem returned_bodyStage (h : (bodyStage exec body link).run m = ⟨.returned none, m'⟩) :
    ∃ m₁, (exec (.block body)).run m = ⟨.returned (), m₁⟩ ∧
      m' = m₁.stage link .trying .catching := by
  obtain ⟨escaped, m₁, hr, h⟩ := returned_bind h
  cases h
  obtain ⟨escape, m₂, hc, hr⟩ := returned_bind hr
  cases escape with
  | none =>
    cases hr
    exact ⟨m₁, capture_eq_returned hc, rfl⟩
  | some escape =>
    have hr' : (current >>= _).run m₂ = ⟨.returned none, m₁⟩ := hr
    rw [run_bind_returned (run_current m₂)] at hr'
    cases hcur : m₂.thread.current with
    | some e =>
      rw [hcur] at hr'
      cases hr'
    | none =>
      rw [hcur] at hr'
      obtain ⟨_, _, _, hr'⟩ := returned_bind hr'
      exact (not_returned_never hr').elim

/-- The clauses have consumed the exception, and the record is as it was before. -/
theorem returned_runCatches {outer : Option Exception}
    (h : (runCatches exec (catchesOf exec clauses) outer link (some e)).run m =
      ⟨.returned none, m'⟩) : m'.thread.current = outer := by
  cases hm : firstMatch e clauses with
  | none =>
    have h' : (select e (catchesOf exec clauses) >>= _).run m = ⟨.returned none, m'⟩ := h
    rw [run_bind_returned (run_select e clauses m), hm] at h'
    cases h'
  | some c =>
    obtain ⟨trigger, b⟩ := c
    rw [run_runCatch hm] at h
    obtain ⟨escape, m₁, _, h⟩ := returned_bind h
    obtain ⟨pending, m₂, hs, h⟩ := returned_bind h
    cases h
    cases escape with
    | none =>
      cases hs
      rfl
    | some escape =>
      cases escape with
      | rethrown => cases hs
      | thrown => exact (not_returned_never hs).elim

theorem returned_clauseStage {outer : Option Exception}
    (h : (clauseStage exec body clauses outer link).run m = ⟨.returned none, m'⟩) :
    (∃ m₁, (exec (.block body)).run m = ⟨.returned (), m₁⟩ ∧ m'.thread = m₁.thread) ∨
      m'.thread.current = outer := by
  obtain ⟨escaped, m₁, hb, h⟩ := returned_bind h
  obtain ⟨pending, m₂, hc, h⟩ := returned_bind h
  cases h
  cases escaped with
  | none =>
    cases hc
    obtain ⟨m₃, hx, rfl⟩ := returned_bodyStage hb
    exact .inl ⟨m₃, hx, rfl⟩
  | some e =>
    have hcur : m₂.thread.current = outer := returned_runCatches hc
    exact .inr hcur

theorem returned_lastStages {pending pending' : Option Exception}
    (h : (lastStages exec clauses link pending).run m = ⟨.returned pending', m'⟩) :
    pending' = pending ∧
      (((completionsOf clauses).getLast? = none ∧ m'.thread = m.thread) ∨
        ∃ final m₁, (completionsOf clauses).getLast? = some final ∧
          (exec (.block final)).run (m.completionEntered link) = ⟨.returned (), m₁⟩ ∧
          m'.thread = m₁.thread) := by
  obtain ⟨_, m₁, hr, h⟩ := returned_bind h
  cases h
  refine ⟨rfl, ?_⟩
  cases hf : (completionsOf clauses).getLast? with
  | none =>
    rw [hf] at hr
    cases hr
    exact .inl ⟨rfl, rfl⟩
  | some final =>
    rw [hf] at hr
    have hr' : (capture (report .completing >>= fun _ => exec (.block final)) >>= fun escape =>
        refuse exec escape >>= fun _ => advance link .unexpected .finishing).run
          (m.stage link .finishing .unexpected) = ⟨.returned (), m₁⟩ := hr
    obtain ⟨escape, m₂, hc, hr'⟩ := returned_bind hr'
    obtain ⟨_, m₃, he, hr'⟩ := returned_bind hr'
    cases hr'
    cases escape with
    | some escape => exact (not_returned_never he).elim
    | none =>
      cases he
      exact .inr ⟨final, m₂, rfl, capture_eq_returned hc, rfl⟩

/-- A try block that has returned has come through all its stages. -/
theorem returned_attempt
    (h : (Stmt.perform exec (.attempt body clauses)).run m = ⟨.returned (), m'⟩) :
    ∃ m₁ m₂, (clauseStage exec body clauses m.thread.current m.thread.depth).run
        (m.tryEntered clauses) = ⟨.returned none, m₁⟩ ∧
      (lastStages exec clauses m.thread.depth none).run m₁ = ⟨.returned none, m₂⟩ ∧
      m'.thread.current = m₂.thread.current := by
  rw [run_attempt] at h
  obtain ⟨pending, m₂, hp, h⟩ := returned_bind h
  cases pending with
  | some e =>
    obtain ⟨_, _, _, h⟩ := returned_bind h
    exact (not_returned_never h).elim
  | none =>
    cases h
    obtain ⟨m₂, hx, hu⟩ := returned_protect hp
    cases hu
    rw [thread_warned, run_stages] at hx
    obtain ⟨pending, m₁, hc, hl⟩ := returned_bind hx
    obtain ⟨rfl, _⟩ := returned_lastStages hl
    exact ⟨m₁, m₂, hc, hl, rfl⟩

/-! ### Stages that are left by an unwind -/

theorem unwound_bodyStage (h : (bodyStage exec body link).run m = ⟨.unwound t, m'⟩) :
    ((exec (.block body)).run m = ⟨.unwound t, m'⟩ ∧ t.escape? = none) ∨
      ∃ t' escape m₁, (exec (.block body)).run m = ⟨.unwound t', m₁⟩ ∧
        t'.escape? = some escape ∧ m₁.thread.current = none ∧
        (never (unexpected exec) : Effect Unit).run (m₁.note (.log (.emptyRecord escape))) =
          ⟨.unwound t, m'⟩ := by
  obtain ⟨_, _, _, h⟩ | h := unwound_bind h
  · cases h
  obtain ⟨escaped, m₁, hc, h⟩ | h := unwound_bind h
  · cases escaped with
    | none => cases h
    | some escape =>
      obtain ⟨t', hb, ht⟩ := capture_eq_escaped hc
      have h' : (current >>= _).run m₁ = ⟨.unwound t, m'⟩ := h
      rw [run_bind_returned (run_current m₁)] at h'
      cases hcur : m₁.thread.current with
      | some e =>
        rw [hcur] at h'
        cases h'
      | none =>
        rw [hcur] at h'
        exact .inr ⟨t', escape, m₁, hb, ht, hcur, run_never_unwound (unwound_of_never h')⟩
  · exact .inl (unwound_capture h)

/-- An unwind that leaves the clauses has left the one that matches, or starts from there because
an exception escaped it. -/
theorem unwound_runCatches {outer : Option Exception}
    (h : (runCatches exec (catchesOf exec clauses) outer link (some e)).run m =
      ⟨.unwound t, m'⟩) :
    ∃ trigger b start, firstMatch e clauses = some (trigger, b) ∧ start? e trigger = some start ∧
      (((exec (.block b)).run (m.clauseEntered link e clauses start) = ⟨.unwound t, m'⟩ ∧
          t.escape? = none) ∨
        ∃ m₁, (exec (.block b)).run (m.clauseEntered link e clauses start) =
            ⟨.unwound .thrown, m₁⟩ ∧
          (never (unexpected exec) : Effect Unit).run m₁ = ⟨.unwound t, m'⟩) := by
  cases hm : firstMatch e clauses with
  | none =>
    have h' : (select e (catchesOf exec clauses) >>= _).run m = ⟨.unwound t, m'⟩ := h
    rw [run_bind_returned (run_select e clauses m), hm] at h'
    cases h'
  | some c =>
    obtain ⟨trigger, b⟩ := c
    have hne : trigger ≠ .completion := fun h => firstMatch_ne_completion (h ▸ hm)
    rw [run_runCatch hm] at h
    have hleft : ∀ {t m₁}, ((catchOf exec (trigger, b)).handler e).run
        ((m.passedOver e clauses).stage link .catching .unexpected) = ⟨.unwound t, m₁⟩ →
          ∃ start, start? e trigger = some start ∧
            (exec (.block b)).run (m.clauseEntered link e clauses start) = ⟨.unwound t, m₁⟩ := by
      intro t m₁ hx
      obtain ⟨start, hs⟩ := starts_of_acts hne (by rw [hx]; nofun)
      exact ⟨start, hs, (run_handler hs _).symm.trans hx⟩
    obtain ⟨escape, m₁, hc, h⟩ | h := unwound_bind h
    · obtain ⟨_, _, _, h⟩ | h := unwound_bind h
      · cases h
      · cases escape with
        | none => cases h
        | some escape =>
          cases escape with
          | rethrown => cases h
          | thrown =>
            obtain ⟨t', hx, ht⟩ := capture_eq_escaped hc
            have ht' : t' = .thrown := by cases t' <;> cases ht; rfl
            subst ht'
            obtain ⟨start, hs, hb⟩ := hleft hx
            exact ⟨trigger, b, start, rfl, hs,
              .inr ⟨m₁, hb, run_never_unwound (unwound_of_never h)⟩⟩
    · obtain ⟨hx, ht⟩ := unwound_capture h
      obtain ⟨start, hs, hb⟩ := hleft hx
      exact ⟨trigger, b, start, rfl, hs, .inl ⟨hb, ht⟩⟩

theorem unwound_clauseStage {outer : Option Exception}
    (h : (clauseStage exec body clauses outer link).run m = ⟨.unwound t, m'⟩) :
    (bodyStage exec body link).run m = ⟨.unwound t, m'⟩ ∨
      ∃ e m₁, (bodyStage exec body link).run m = ⟨.returned (some e), m₁⟩ ∧
        (runCatches exec (catchesOf exec clauses) outer link (some e)).run m₁ =
          ⟨.unwound t, m'⟩ := by
  obtain ⟨escaped, m₁, hb, h⟩ | h := unwound_bind h
  · obtain ⟨_, _, _, h⟩ | h := unwound_bind h
    · cases h
    · cases escaped with
      | none => cases h
      | some e => exact .inr ⟨e, m₁, hb, h⟩
  · exact .inl h

theorem unwound_lastStages {pending : Option Exception}
    (h : (lastStages exec clauses link pending).run m = ⟨.unwound t, m'⟩) :
    ∃ final, (completionsOf clauses).getLast? = some final ∧
      (((exec (.block final)).run (m.completionEntered link) = ⟨.unwound t, m'⟩ ∧
          t.escape? = none) ∨
        ∃ t' m₁, (exec (.block final)).run (m.completionEntered link) = ⟨.unwound t', m₁⟩ ∧
          t'.escape?.isSome ∧
          (never (unexpected exec) : Effect Unit).run m₁ = ⟨.unwound t, m'⟩) := by
  obtain ⟨_, _, _, h⟩ | h := unwound_bind h
  · cases h
  · cases hf : (completionsOf clauses).getLast? with
    | none => rw [hf] at h; cases h
    | some final =>
      rw [hf] at h
      have h' : (capture (report .completing >>= fun _ => exec (.block final)) >>= fun escape =>
          refuse exec escape >>= fun _ => advance link .unexpected .finishing).run
            (m.stage link .finishing .unexpected) = ⟨.unwound t, m'⟩ := h
      refine ⟨final, rfl, ?_⟩
      obtain ⟨escape, m₁, hc, h'⟩ | h' := unwound_bind h'
      · obtain ⟨_, _, _, h'⟩ | h' := unwound_bind h'
        · cases h'
        · cases escape with
          | none => cases h'
          | some escape =>
            obtain ⟨t', hx, ht⟩ := capture_eq_escaped hc
            exact .inr ⟨t', m₁, hx, ht ▸ rfl, h'⟩
      · exact .inl (unwound_capture h')

/-- An unwind that leaves a try block leaves one of its stages, or is that of the exception which
the try block sends on. -/
theorem unwound_attempt (h : (Stmt.perform exec (.attempt body clauses)).run m = ⟨.unwound t, m'⟩) :
    (∃ m₁, (clauseStage exec body clauses m.thread.current m.thread.depth >>=
        lastStages exec clauses m.thread.depth).run (m.tryEntered clauses) = ⟨.unwound t, m₁⟩ ∧
      (unprotect m.thread.depth).run m₁ = ⟨.returned (), m'⟩) ∨
    ∃ e m₁, (protect (runStages exec (declared exec body clauses) m.thread.current)).run
        (m.warned (completionsOf clauses)) = ⟨.returned (some e), m₁⟩ ∧
      (never (dispatch exec) : Effect Unit).run (m₁.withCurrent (some e)) = ⟨.unwound t, m'⟩ := by
  rw [run_attempt] at h
  obtain ⟨pending, m₁, hp, h⟩ | h := unwound_bind h
  · cases pending with
    | none => cases h
    | some e => exact .inr ⟨e, m₁, hp, h⟩
  · obtain ⟨m₁, hx, hu⟩ := unwound_protect h
    rw [thread_warned] at hx hu
    rw [run_stages] at hx
    exact .inl ⟨m₁, hx, hu⟩

end TryBlock

end NonlocalExit
