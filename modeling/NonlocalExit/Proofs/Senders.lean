import NonlocalExit.Proofs.Record

/-!
# Which exception a try block is given

The unwind of an exception carries no value: the try block takes the exception from the record.
`escaped_holds_sent`: if the body of a try block is faithful, the record holds the exception of the
very statement that sent it on its way, whatever was run in between.
-/

namespace NonlocalExit

open Effect

section

variable [Declarations]

/-- Which statements send an exception on its way to a try block, and which exception. -/
inductive Sends : Activation → Exception → Prop
  | throw (n v m) : Sends ⟨n, .stmt (.throw v), m⟩ (.of v)
  | fault (n) {cause deferred} {m : Machine} (h : m.reception cause = .trapped deferred) :
    Sends ⟨n, .stmt (.fault cause), m⟩ (.of cause.fault.toValue)
  | rethrow (n) {e} {m : Machine} (h : m.thread.current = some e) :
    Sends ⟨n, .stmt .rethrow, m⟩ e
  /-- A try block that has not consumed the exception. -/
  | propagate {n body clauses e} {m m₁ : Machine}
    (h : (protect (TryBlock.runStages (Job.run n) (.declared (Job.run n) body clauses)
      m.thread.current)).run (m.warned (TryBlock.completionsOf clauses)) =
        ⟨.returned (some e), m₁⟩) : Sends ⟨n, .stmt (.attempt body clauses), m⟩ e

section

variable {n : Nat} {t : Transfer} {a b : Activation} {m m' : Machine}

/-- No exception comes out of where one is taken for unhandled. -/
theorem escape_of_unhandled
    (h : (never (Effect.unhandled (Job.run n)) : Effect Unit).run m = ⟨.unwound t, m'⟩) :
    t.escape? = none := by
  obtain h | ⟨e, hb, hp, _⟩ := leftBy_unhandled (unwound_of_never h)
  · cases h
    rfl
  · cases e with
    | unhandledHook => exact hp
    | unhandledHookThrew => exact escape_of_unexpected hb

/-- The unwind of an exception that was sent on its way starts there. -/
theorem eq_of_origin_dispatch (h : Origin t b ⟨n, .dispatch, m⟩ m') (ht : t.escape? ≠ none) :
    b = ⟨n, .dispatch, m⟩ := by
  cases h with
  | here => rfl
  | through e h hp hx =>
    cases e with
    | throwHook => exact (ht hp).elim
    | throwHookThrew => exact (ht (escape_of_unexpected h.unwound)).elim
    | outside => exact (ht (escape_of_unhandled h.unwound)).elim

/-- The unwind of an exception goes back to a statement that has sent it on its way, and starts with
that exception in the record. -/
theorem Origin.sender (h : Origin t b a m) (ht : t.escape? ≠ none) (ha : a.task ≠ .dispatch) :
    ∃ K s e m₁, Path a K s ∧ (∀ c ∈ K, c.1.Passes t) ∧ Sends s e ∧ Origin t b s m₁ ∧
      b.recordRaised = some e := by
  induction h with
  | here h =>
    cases h with
    | thrown => exact (ha rfl).elim
    | rethrown n he hd =>
      exact ⟨[], _, _, _, .here, List.forall_mem_nil _, .rethrow n he, .here (.rethrown n he hd),
        he⟩
    | _ => exact (ht rfl).elim
  | through e h hp hx ih =>
    rename_i a l x m m'
    by_cases hd : x.task = .dispatch
    · have ho := Origin.through e h hp hx
      cases e with
      | throw n v m =>
        obtain rfl := eq_of_origin_dispatch h ht
        exact ⟨[], _, _, _, .here, List.forall_mem_nil _, .throw n v m, ho, rfl⟩
      | fault n hc =>
        obtain rfl := eq_of_origin_dispatch h ht
        exact ⟨[], _, _, _, .here, List.forall_mem_nil _, .fault n hc, ho, rfl⟩
      | again hr =>
        obtain rfl := eq_of_origin_dispatch h ht
        exact ⟨[], _, _, _, .here, List.forall_mem_nil _, .propagate hr, ho, rfl⟩
      | _ => cases hd
    · obtain ⟨K, s, exc, m₁, hpath, hK, hs, ho, hr⟩ := ih hd
      refine ⟨_, s, exc, m₁, Path.here.join e hpath, fun c hc => ?_, hs, ho, hr⟩
      obtain hc | hc := List.mem_append.1 hc
      · exact hK c hc
      · obtain rfl := List.mem_singleton.1 hc
        exact hp

end

/-- An exception that escapes a faithful body was sent on its way by a statement in its course, and
it is the exception of that statement that the record holds and the try block goes on with. -/
theorem escaped_holds_sent {n : Nat} {body : Block} {clauses : List (Trigger × Block)}
    {t : Transfer} {escape : Escape} {m m₁ : Machine}
    (hF : (⟨n, .job (.block body), m.tryEntered clauses⟩ : Activation).IsFaithful)
    (h : (Job.run n (.block body)).run (m.tryEntered clauses) = ⟨.unwound t, m₁⟩)
    (ht : t.escape? = some escape) :
    ∃ K s e m₂, Path ⟨n, .job (.block body), m.tryEntered clauses⟩ K s ∧
      (∀ c ∈ K, c.1.Passes t) ∧ Sends s e ∧ s.run = ⟨.unwound t, m₂⟩ ∧
      m₁.thread.current = some e ∧
      (TryBlock.bodyStage (Job.run n) body m.thread.depth).run (m.tryEntered clauses) =
        ⟨.returned (some e), m₁.stage m.thread.depth .trying .catching⟩ := by
  have hne : t.escape? ≠ none := by rw [ht]; nofun
  obtain ⟨b, ho⟩ := exists_origin (a := ⟨n, .job (.block body), m.tryEntered clauses⟩) h
    (by rintro ⟨_, rfl⟩; exact hne rfl)
  obtain ⟨K, s, e, m₂, hpath, hK, hs, ho', hr⟩ := ho.sender hne nofun
  have hcur : m₁.thread.current = some e := ((record_of_faithful hF).2 t b m₁ ho).trans hr
  exact ⟨K, s, e, m₂, hpath, hK, hs, ho'.unwound, hcur,
    TryBlock.bodyStage_escaped m.thread.depth h ht hcur⟩

end

/-- A scope in which a value is thrown, with a cleanup that throws another one and catches it. -/
def throwingOverCleanup : Block :=
  [.scope [.defer [.attempt [.throw (.bool false)] [(.any, [])]], .throw (.bool true)]]

/-- The machine in the try block around the scope. -/
def aroundThrowingScope : Machine :=
  (Machine.initial.tryEntered [(.typed .bool, [])]).withHeld [[]]

/-- The machine at the end of the scope, when the exception is on its way. -/
def leavingThrowingScope : Machine :=
  ((Job.run 7 (.block [.defer [.attempt [.throw (.bool false)] [(.any, [])]],
    .throw (.bool true)])).run aroundThrowingScope.scopeEntered).machine.leaving 0

/-- The machine at the start of the cleanup. -/
def inThrowingCleanup : Machine :=
  (leavingThrowingScope.withPending 0 []).starting
    ⟨0, none, [.attempt [.throw (.bool false)] [(.any, [])]]⟩

theorem isFaithful_inThrowingCleanup :
    (⟨5, .stmt (.attempt [.throw (.bool false)] [(.any, [])]),
      inThrowingCleanup.withHeld ([] :: inThrowingCleanup.thread.held)⟩ :
        Activation).IsFaithful := by
  refine .of_plain_calls fun l b e => ?_
  cases e with
  | attempt =>
    refine ⟨nofun, fun _ => id, .block (.rest (.throw rfl (by decide)) ?_) ?_⟩
    · intro m₁ h
      cases h
    · intro o m₁ h
      cases h
      rfl
  | recordEmpty h _ hc => cases h; cases hc
  | clause h hm hs =>
    cases h
    cases hm
    cases hs
    exact ⟨nofun, fun _ => id, .block .rest_nil fun o m₁ h => by cases h; rfl⟩
  | clauseThrew h hm hs hb => cases h; cases hm; cases hs; cases hb
  | completion h hf => cases hf
  | completionThrew h hf => cases hf
  | again h => cases h

/-- The scope has one cleanup. -/
theorem isFaithful_leavingThrowingScope :
    (⟨7, .job (.close 0), leavingThrowingScope⟩ : Activation).IsFaithful := by
  refine .of_plain_calls fun l b e => ?_
  cases e with
  | cleanup n ht hf hp =>
    cases hf
    cases hp
    refine ⟨nofun, fun _ => id,
      .block (.rest isFaithful_inThrowingCleanup fun m₁ _ => .rest_nil) ?_⟩
    intro o m₁ h
    cases h
    rfl
  | closeNext ht hf hp h =>
    cases hf
    cases hp
    cases h
    refine ⟨nofun, fun _ => id, .of_plain_calls fun l b e => ?_⟩
    cases e with
    | cleanup n ht hf hp => cases hf; cases hp
    | closeNext ht hf hp => cases hf; cases hp

theorem isFaithful_throwingOverCleanup : (⟨8, .job (.block throwingOverCleanup),
    Machine.initial.tryEntered [(.typed .bool, [])]⟩ : Activation).IsFaithful := by
  refine .block (.rest (.of_plain_calls fun l b e => ?_) ?_) ?_
  · cases e with
    | scope n body ht =>
      refine ⟨nofun, fun _ => id, .block (.rest (.of_plain_calls fun l b e => ?_) ?_) ?_⟩
      · cases e with
        | deferLate n body ht => cases ht
      · intro m₁ h
        cases h
        refine .rest (.throw rfl (by decide)) fun m₁ h => ?_
        cases h
      · intro o m₁ h
        cases h
        rfl
    | scopeLeft ht h =>
      cases h
      exact ⟨nofun, fun _ => id, isFaithful_leavingThrowingScope⟩
  · intro m₁ h
    cases h
  · intro o m₁ h
    cases h
    rfl

theorem escaped_holds_sent_over_cleanup :
    ∃ m₁ K s e, (Job.run 8 (.block throwingOverCleanup)).run
        (Machine.initial.tryEntered [(.typed .bool, [])]) = ⟨.unwound .thrown, m₁⟩ ∧
      Path ⟨8, .job (.block throwingOverCleanup), Machine.initial.tryEntered [(.typed .bool, [])]⟩
        K s ∧ Sends s e ∧ m₁.thread.current = some e ∧ e = .of (.bool true) := by
  obtain ⟨K, s, e, _, hpath, _, hs, _, hcur, _⟩ :=
    escaped_holds_sent isFaithful_throwingOverCleanup rfl rfl
  refine ⟨_, K, s, e, rfl, hpath, hs, hcur, ?_⟩
  cases hcur
  rfl

/-- A scope in which a value is thrown, with a cleanup that throws another one and recovers from a
panic of its clause. -/
def throwingOverRecovery : Block :=
  [.scope [.defer [.recover "value"
    [.attempt [.throw (.bool false)] [(.any, [.panic (some .enoent)])]]], .throw (.bool true)]]

/-- The try block goes on with the value of the cleanup. -/
theorem another_taken_over_recovery :
    ∃ m₁ m₂, (Job.run 12 (.block throwingOverRecovery)).run (Machine.initial.tryEntered []) =
        ⟨.unwound .thrown, m₁⟩ ∧
      (TryBlock.bodyStage (Job.run 12) throwingOverRecovery 0).run
        (Machine.initial.tryEntered []) = ⟨.returned (some (.of (.bool false))), m₂⟩ :=
  ⟨_, _, rfl, rfl⟩

end NonlocalExit
