import NonlocalExit.Proofs.Owners
import NonlocalExit.Proofs.Panics

/-!
# Scopes that are left

`scope_leaves`: when a scope is left, its frame is no longer open and each of the frame's cleanups
was started once, so that cleanups are registered further out again.  This needs that no cleanup is
left by an unwind where the body has returned.  Where an unwind has left the body, a cleanup that is
left by another unwind aborts the process.
-/

namespace NonlocalExit

open Effect Machine

section

variable [Declarations]

/-! ## How the closing of a frame ends -/

section

variable {n id : Nat} {t : Transfer} {m m' : Machine}

/-- A frame whose closing has returned is not open. -/
theorem closed_of_returned (ho : m.Orderly)
    (h : (Job.run n (.close id)).run m = ⟨.returned (), m'⟩) : id ∉ m'.openIds := by
  obtain ⟨cs, hcs⟩ := empties_of_returned h
  exact hcs.not_open ho

theorem cleanup_of_closeAbove_unwound {base : Option Nat} (ht : m.thread.torn = false)
    (h : (Job.run n (.closeAbove base)).run m = ⟨.unwound t, m'⟩) :
    ∃ d, StartsCleanup ⟨n, .job (.closeAbove base), m⟩ d ∧ ∃ m₁, d.run = ⟨.unwound t, m₁⟩ := by
  induction n generalizing m with
  | zero => simp [Job.run, Effect.halt] at h
  | succ n ih =>
    have hends : CloseAboveEnds (Job.run n) base m (some t) m' :=
      closeAboveEnds_of_leaves (leaves_of_unwound h)
    cases hends with
    | torn ht' => simp [ht] at ht'
    | inner _ hf hb h =>
      obtain ⟨d, hd, hrun⟩ := cleanup_of_unwound ht h
      exact ⟨d, .later (.closeInner n ht hf hb) trivial hd, _, hrun⟩
    | next _ hf hb hc h =>
      have hnext := Enters.closeAboveNext ht hf hb hc
      obtain ⟨d, hd, hrun⟩ := ih ((tidy_of_enters hnext).torn.trans ht) (unwound_of_leaves h)
      exact ⟨d, .later hnext trivial hd, hrun⟩

end

/-! ## What a scope leaves -/

/-- Wherever a thread comes to on live storage, its cleanups are accounted for. -/
theorem Stack.accounted {K : List (Label × Activation)} {a : Activation} (h : Stack K a)
    (ht : a.machine.thread.torn = false) : ∃ base, a.machine.Accounted base fun _ => [] := by
  obtain ⟨root, hroot, hpath⟩ := h.path ht
  exact ⟨_, hpath.accounted (hroot.isRoot.accounted (hpath.tidy.torn.symm.trans ht))⟩

/-- In which frame a cleanup is registered, if it is registered. -/
theorem frame_of_defer {exec : Executor} {argument : Option String} {body : Block} {m m' : Machine}
    (ht : m.thread.torn = false) (h : (defer exec argument body).run m = ⟨.returned (), m'⟩) :
    .step (.registered m.shared.nextSerial (some m.rootId)) ∈ m.deeds m' := by
  rw [run_defer] at h
  simp only [ht, Bool.false_eq_true, ↓reduceIte] at h
  split at h
  · rename_i s hs
    cases h
    have hg : Tidy m (m.serialTaken.rooted.withFrames s) :=
      ((Tidy.serialTaken m).trans (.rooted _)).trans (.add hs)
    rw [deeds_trans hg.toGrows.adds (.note _ _), deeds_note]
    exact List.mem_append_left _ List.mem_cons_self
  · cases h

/-- What holds when a scope is left that was entered on a machine. -/
structure Machine.ScopeLeft (m m' : Machine) : Prop where
  closed : m.thread.frames.nextId ∉ m'.openIds
  once : ∀ s ∈ registeredIn m.thread.frames.nextId (stepsIn (m.deeds m')),
    (startedIn (stepsIn (m.deeds m'))).count s = 1
  apart : m'.rootId ≠ m.thread.frames.nextId
  /-- What is open was open outside the scope, or was opened in it and given away. -/
  novel : ∀ id ∈ m'.openIds, id ∈ m.openIds ∨ m.thread.frames.nextId < id
  /-- The enclosing frame is the innermost one again, unless it was closed, or frames that were
  opened in the scope are still open. -/
  enclosing : ∀ id ∈ m.innermostId, id ∈ m'.openIds →
    (∀ i ∈ m'.openIds, i ∈ m.openIds) → m'.rootId = id

/-- Among frames that were open before, the one that was the innermost still is. -/
theorem Machine.rootId_of_innermostId {m m' : Machine} {id : Nat} (ho : m.Orderly)
    (ho' : m'.Orderly) (hid : id ∈ m.innermostId) (hopen : id ∈ m'.openIds)
    (hsub : ∀ i ∈ m'.openIds, i ∈ m.openIds) : m'.rootId = id := by
  obtain ⟨i, hi, hle⟩ := (Option.any_eq_true _ _).1 (ho'.le_innermostId hopen)
  have hle' := ho.le_innermostId (hsub i (mem_openIds_of_innermostId hi))
  rw [hid] at hle'
  simp only [Option.any_some, decide_eq_true_eq] at hle hle'
  rw [rootId_eq hi]
  omega

/-- The closing of the frame of a scope returns however the scope is left, unless the body has
returned and a cleanup is left by an unwind. -/
theorem leaveFrame_of_scope {n : Nat} {body : Block} {m m' : Machine} {o : Option Transfer}
    (ht : m.thread.torn = false) (h : ((Stmt.perform (Job.run n) (.scope body)).run m).Leaves o m')
    (hcleanups : ∀ m₁, (Job.run n (.block body)).run m.scopeEntered = ⟨.returned (), m₁⟩ →
      ∀ d, StartsCleanup
        ⟨n, .job (.close m.thread.frames.nextId), m₁.leaving m.thread.frames.nextId⟩ d →
      ∀ t m₂, d.run ≠ ⟨.unwound t, m₂⟩) :
    ∃ m₁, Tidy m.scopeEntered m₁ ∧
      (Job.run n (.close m.thread.frames.nextId)).run m₁ = ⟨.returned (), m'⟩ := by
  have hbody : ∀ {o' m₁}, ((Job.run n (.block body)).run m.scopeEntered).Leaves o' m₁ →
      Tidy m.scopeEntered (m₁.leaving m.thread.frames.nextId) := fun hb =>
    (Tidy.primitives.obeys _ _ _ _ _ hb).trans (.note _ _)
  have hscope : (Stmt.perform (Job.run n) (.scope body)).run m = _ := run_scope (Job.run n) m _
  rw [hscope, ht] at h
  obtain ⟨_, m₁, hb, h⟩ | ⟨t, m₁, hb, h, _⟩ := leaves_onExit.1 h
  · have htidy := hbody (leaves_of_returned hb)
    refine ⟨_, htidy, ?_⟩
    cases o with
    | none =>
      obtain ⟨_, h⟩ := returned_of_leaves h
      exact h
    | some t =>
      obtain ⟨d, hd, hrun⟩ := cleanup_of_unwound (htidy.torn.trans ht) (unwound_of_leaves h)
      exact (hcleanups m₁ hb d hd t m' hrun).elim
  · obtain ⟨_, h⟩ := returned_of_leaves h
    exact ⟨_, hbody (leaves_of_unwound hb), h⟩

/-- When a scope is left, and no cleanup is left by an unwind if its body has returned, the frame of
the scope is no longer open and each of its cleanups was started once.  Cleanups that are registered
afterwards are registered in the frame that is the innermost one then, the enclosing frame if no
frame was given away. -/
theorem scope_leaves {K : List (Label × Activation)} {n : Nat} {body : Block} {m m' : Machine}
    {o : Option Transfer} (hstack : Stack K ⟨n, .stmt (.scope body), m⟩)
    (ht : m.thread.torn = false) (h : ((Stmt.perform (Job.run n) (.scope body)).run m).Leaves o m')
    (hcleanups : ∀ m₁, (Job.run n (.block body)).run m.scopeEntered = ⟨.returned (), m₁⟩ →
      ∀ d, StartsCleanup
        ⟨n, .job (.close m.thread.frames.nextId), m₁.leaving m.thread.frames.nextId⟩ d →
      ∀ t m₂, d.run ≠ ⟨.unwound t, m₂⟩) :
    m.ScopeLeft m' ∧ ∀ k argument b m'',
      (defer (Job.run k) argument b).run m' = ⟨.returned (), m''⟩ →
        .step (.registered m'.shared.nextSerial (some m'.rootId)) ∈ m'.deeds m'' := by
  obtain ⟨base, hacc : m.Accounted base _⟩ := hstack.accounted ht
  have hrun : KeepsAccount m m' :=
    KeepsAccount.primitives.obeys_run (a := ⟨n, .stmt (.scope body), m⟩) h
  have htidy : Tidy m m' := Tidy.primitives.obeys_run (a := ⟨n, .stmt (.scope body), m⟩) h
  have ho : m.Orderly := hacc.orderly
  obtain ⟨m₁, htidy₁, hclose⟩ := leaveFrame_of_scope ht h hcleanups
  have hentered : Tidy m m.scopeEntered := (Tidy.opened m).trans (.note _ _)
  have hclosed := closed_of_returned (htidy₁.orderly (hentered.orderly ho)) hclose
  have hlt : m.thread.frames.nextId < m'.thread.frames.nextId :=
    (htidy₁.trans (Tidy.primitives.obeys _ _ _ _ _ (leaves_of_returned hclose))).nextId
  refine ⟨⟨hclosed, ?_, ?_, fun id hid => ?_, fun id hid hopen hsub => ?_⟩,
    fun k argument b m'' hd => frame_of_defer (htidy.torn.trans ht) hd⟩
  · exact count_started_of_closed hacc (hrun.2 _ _ hacc) hrun.1 ht hclosed
  · show m'.innermostId.getD m'.thread.frames.nextId ≠ _
    cases hi : m'.innermostId with
    | none => exact Nat.ne_of_gt hlt
    | some i =>
      rintro rfl
      exact hclosed (mem_openIds_of_innermostId hi)
  · refine (htidy.novel id hid).imp_right fun hle => Nat.lt_of_le_of_ne hle ?_
    rintro rfl
    exact hclosed hid
  · exact rootId_of_innermostId ho (htidy.orderly ho) hid hopen hsub

end

/-- A scope with two cleanups. -/
def cleanedScope (newer : Block) : Stmt := .scope [.defer [.emit "older"], .defer newer]

/-- The scope in a try block, in another scope. -/
def cleanedInTry (newer : Block) : Stmt :=
  .scope [.attempt [cleanedScope newer] [(.any, [])]]

/-- The machine in the outer scope. -/
def inOuterScope : Machine :=
  let entered := (Machine.initial.withHeld [[]]).scopeEntered
  entered.withHeld ([] :: entered.thread.held)

/-- The machine in the try block. -/
def inTryInScope : Machine :=
  let tried := inOuterScope.tryEntered [(.any, [])]
  tried.withHeld ([] :: tried.thread.held)

theorem stack_cleanedInTry (newer : Block) :
    ∃ K, Stack K ⟨6, .stmt (cleanedScope newer), inTryInScope⟩ := by
  have hstart : Activation.IsStart ⟨9, .job (.block [cleanedInTry newer]), .initial⟩ :=
    .body rfl (by decide : 0 < _)
  exact ⟨_, ((((((((Stack.start hstart).call (.block _ _ _)).call (.first _ _ _ _)).call
    (.scope _ _ rfl)).call (.block _ _ _)).call (.first _ _ _ _)).call (.attempt _ _ _ _)).call
    (.block _ _ _)).call (.first _ _ _ _)⟩

theorem scope_leaves_cleanedInTry :
    ∃ K m', Stack K ⟨6, .stmt (cleanedScope [.emit "newer"]), inTryInScope⟩ ∧
      (Stmt.perform (Job.run 6) (cleanedScope [.emit "newer"])).run inTryInScope =
        ⟨.returned (), m'⟩ ∧
      registeredIn 1 (stepsIn (inTryInScope.deeds m')) = [1, 0] ∧ inTryInScope.ScopeLeft m' ∧
      m'.rootId = 0 := by
  obtain ⟨K, hstack⟩ := stack_cleanedInTry [.emit "newer"]
  refine ⟨K, _, hstack, rfl, rfl, ?_⟩
  have hleft := (scope_leaves hstack rfl (leaves_of_returned rfl) ?_).1
  · exact ⟨hleft, hleft.enclosing 0 rfl (by decide) (by decide)⟩
  -- Both cleanups return.
  · intro m₁ hb d hd t m₂
    cases hb
    rcases hd.of_close rfl rfl with rfl | ⟨m₃, h, hd⟩
    · nofun
    · cases h
      rcases hd.of_close rfl rfl with rfl | ⟨m₃, h, hd⟩
      · nofun
      · cases h
        exact (StartsCleanup.not_close rfl rfl hd).elim

/-- An exception that leaves a cleanup when the body has returned leaves the frame open, with the
cleanups that still wait; and what catches the exception goes on inside this frame. -/
theorem frame_open_after_cleanedInTry :
    ∃ K m' m'', Stack K ⟨6, .stmt (cleanedScope [.throw (.bool true)]), inTryInScope⟩ ∧
      (Stmt.perform (Job.run 6) (cleanedScope [.throw (.bool true)])).run inTryInScope =
        ⟨.unwound .thrown, m'⟩ ∧
      1 ∈ m'.openIds ∧ registeredIn 1 (stepsIn (inTryInScope.deeds m')) = [1, 0] ∧
      startedIn (stepsIn (inTryInScope.deeds m')) = [1] ∧
      (Stmt.perform (Job.run 7)
        (.attempt [cleanedScope [.throw (.bool true)]] [(.any, [])])).run inOuterScope =
        ⟨.returned (), m''⟩ ∧ m''.rootId = 1 := by
  obtain ⟨K, hstack⟩ := stack_cleanedInTry [.throw (.bool true)]
  exact ⟨K, _, _, hstack, rfl, by decide, rfl, rfl, rfl, rfl⟩

end NonlocalExit
