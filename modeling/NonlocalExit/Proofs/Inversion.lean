import NonlocalExit.Proofs.Resuming

/-!
# How an effect was left

`unwound_of_enters` says how an unwind goes outward; here is the way back.  When an effect that is
built from others has returned, all of them have; when it is left by an unwind, one of these was
left by it, and what comes with them has returned.
-/

namespace NonlocalExit

variable [Declarations]

open Effect

namespace Effect

variable {α β : Type} {m m' : Machine} {t : Transfer}

/-! ## Effects that have returned -/

theorem returned_bind {x : Effect α} {f : α → Effect β} {b : β}
    (h : (x >>= f).run m = ⟨.returned b, m'⟩) :
    ∃ a m₁, x.run m = ⟨.returned a, m₁⟩ ∧ (f a).run m₁ = ⟨.returned b, m'⟩ := by
  rw [run_bind] at h
  rcases hx : x.run m with ⟨a | t | h', m₁⟩ <;> rw [hx] at h
  · exact ⟨a, m₁, rfl, h⟩
  · cases h
  · cases h

theorem returned_onExit {x : Effect α} {y : Effect Unit} {a : α}
    (h : (onExit x y).run m = ⟨.returned a, m'⟩) :
    ∃ m₁, x.run m = ⟨.returned a, m₁⟩ ∧ y.run m₁ = ⟨.returned (), m'⟩ := by
  rw [run_onExit] at h
  rcases hx : x.run m with ⟨b | t | h', m₁⟩ <;> rw [hx] at h
  · obtain ⟨_, _, hy, h⟩ := returned_bind h
    cases h
    exact ⟨_, rfl, hy⟩
  · obtain ⟨_, _, _, h⟩ := returned_bind h
    cases h
  · cases h

theorem not_returned_never {x : Effect Empty} {a : α} :
    (never x : Effect α).run m ≠ ⟨.returned a, m'⟩ := by
  intro h
  obtain ⟨e, _⟩ := returned_bind h
  exact nomatch e

/-- A fault that the thread gets over is held back or dismissed. -/
theorem returned_meetFault {exec : Executor} {cause : FaultCause} {m m' : Machine}
    (h : (meetFault exec cause).run m = ⟨.returned (), m'⟩) :
    m.reception cause = .held ∧ m' = m ∨
      m.reception cause = .dismissed ∧ m' = m.dismissed cause.signal := by
  rw [run_meetFault] at h
  cases hr : m.reception cause with
  | held => rw [hr] at h; cases h; exact .inl ⟨rfl, rfl⟩
  | dismissed => rw [hr] at h; cases h; exact .inr ⟨rfl, rfl⟩
  | stopped => rw [hr] at h; cases h
  | trapped deferred => rw [hr] at h; exact (not_returned_never h).elim

/-- A fault that the thread is unwound by is raised. -/
theorem unwound_meetFault {exec : Executor} {cause : FaultCause} {t : Transfer} {m m' : Machine}
    (h : (meetFault exec cause).run m = ⟨.unwound t, m'⟩) :
    ∃ deferred, m.reception cause = .trapped deferred ∧
      (raise exec cause.fault.toValue).run (m.trapEntered deferred cause.signal) =
        ⟨.unwound t, m'⟩ := by
  rw [run_meetFault] at h
  cases hr : m.reception cause with
  | held | stopped | dismissed => rw [hr] at h; cases h
  | trapped deferred => rw [hr] at h; exact ⟨deferred, rfl, unwound_of_never h⟩

theorem returned_protect {body : Nat → Effect α} {a : α}
    (h : (protect body).run m = ⟨.returned a, m'⟩) :
    ∃ m₁, (body m.thread.depth).run m.deeper = ⟨.returned a, m₁⟩ ∧
      (unprotect m.thread.depth).run m₁ = ⟨.returned (), m'⟩ := by
  rw [run_protect] at h
  exact returned_onExit h

/-! ## Effects that are left by an unwind -/

theorem unwound_bind {x : Effect α} {f : α → Effect β} (h : (x >>= f).run m = ⟨.unwound t, m'⟩) :
    (∃ a m₁, x.run m = ⟨.returned a, m₁⟩ ∧ (f a).run m₁ = ⟨.unwound t, m'⟩) ∨
      x.run m = ⟨.unwound t, m'⟩ := by
  obtain ⟨a, m₁, hx, h⟩ | ⟨t, hx, ht⟩ := leaves_bind.1 (leaves_of_unwound h)
  · exact .inl ⟨a, m₁, hx, unwound_of_leaves h⟩
  · cases ht
    exact .inr hx

theorem leaves_discard {x : Effect α} {o : Option Transfer} (hl : (x.run m).Leaves o m') :
    ((x >>= fun _ => pure ()).run m).Leaves o m' := by
  obtain ⟨a, hx, rfl⟩ | ⟨t, hx, rfl⟩ := Leaves.cases hl
  · exact leaves_of_returned ((run_bind_returned hx).trans rfl)
  · exact leaves_of_unwound (run_bind_unwound hx)

theorem unwound_onExit {x : Effect α} {y : Effect Unit}
    (h : (onExit x y).run m = ⟨.unwound t, m'⟩) :
    (∃ a m₁, x.run m = ⟨.returned a, m₁⟩ ∧ y.run m₁ = ⟨.unwound t, m'⟩) ∨
      ∃ m₁, x.run m = ⟨.unwound t, m₁⟩ ∧ y.run m₁ = ⟨.returned (), m'⟩ := by
  obtain ⟨a, m₁, hx, h⟩ | ⟨t, m₁, hx, h, ht⟩ := leaves_onExit.1 (leaves_of_unwound h)
  · exact .inl ⟨a, m₁, hx, unwound_of_leaves h⟩
  · cases ht
    obtain ⟨_, h⟩ := returned_of_leaves h
    exact .inr ⟨m₁, hx, h⟩

theorem unwound_capture {x : Effect Unit} (h : (capture x).run m = ⟨.unwound t, m'⟩) :
    x.run m = ⟨.unwound t, m'⟩ ∧ t.escape? = none := by
  obtain ⟨_, ht⟩ | ⟨t', hx, ht⟩ := leaves_capture.1 (leaves_of_unwound h)
  · cases ht
  · cases he : t'.escape? with
    | some e => rw [he] at ht; cases ht
    | none => rw [he] at ht; cases ht; exact ⟨hx, he⟩

theorem capture_eq_escaped {x : Effect Unit} {escape : Escape}
    (h : (capture x).run m = ⟨.returned (some escape), m'⟩) :
    ∃ t, x.run m = ⟨.unwound t, m'⟩ ∧ t.escape? = some escape := by
  rw [run_capture] at h
  rcases hx : x.run m with ⟨a | t | h', m₁⟩ <;> rw [hx] at h
  · cases h
  · cases he : t.escape? <;> simp only [he] at h <;> cases h
    exact ⟨t, rfl, he⟩
  · cases h

theorem capture_eq_returned {x : Effect Unit} (h : (capture x).run m = ⟨.returned none, m'⟩) :
    x.run m = ⟨.returned (), m'⟩ := by
  rw [run_capture] at h
  rcases hx : x.run m with ⟨a | t | h', m₁⟩ <;> rw [hx] at h
  · cases h
    rfl
  · cases he : t.escape? <;> simp only [he] at h <;> cases h
  · cases h

theorem unwound_protect {body : Nat → Effect α} (h : (protect body).run m = ⟨.unwound t, m'⟩) :
    ∃ m₁, (body m.thread.depth).run m.deeper = ⟨.unwound t, m₁⟩ ∧
      (unprotect m.thread.depth).run m₁ = ⟨.returned (), m'⟩ := by
  rw [run_protect] at h
  obtain ⟨_, _, _, h⟩ | h := unwound_onExit h
  · cases h
  · exact h

/-- An unwind that leaves a guarded hook has left the block of the hook. -/
theorem unwound_guarded_callHook {exec : Executor} {kind : HookKind} {b : Block} {e : Exception}
    (hk : kind ≠ .onThrow) (h : (guarded (callHook exec kind b e)).run m = ⟨.unwound t, m'⟩) :
    ∃ m₁, (exec (.block b)).run (m.hookCalled kind e) = ⟨.unwound t, m₁⟩ ∧ t.escape? = none ∧
      (hookLeft kind m.thread.depth).run m₁ = ⟨.returned (), m'⟩ := by
  rw [run_guarded_callHook] at h
  obtain ⟨m₁, hb, ht, rfl⟩ := unwound_of_caught h
  exact ⟨m₁, hb, ht, run_hookLeft hk _ _⟩

theorem unwound_guarded_runThrowHook {exec : Executor} {b : Block} {e : Exception}
    (h : (guarded (runThrowHook exec b e)).run (m.note (.step (.dispatched e))) =
      ⟨.unwound t, m'⟩) :
    ∃ m₁, (exec (.block b)).run (m.throwHookCalled e) = ⟨.unwound t, m₁⟩ ∧ t.escape? = none ∧
      (hookLeft .onThrow m.thread.depth).run m₁ = ⟨.returned (), m'⟩ := by
  rw [run_guarded_runThrowHook] at h
  obtain ⟨m₁, hb, ht, rfl⟩ := unwound_of_caught h
  exact ⟨m₁, hb, ht, run_hookLeft_onThrow _ _⟩

/-- The throw hook has returned, or there was none to call. -/
theorem returned_callThrowHook {exec : Executor}
    (h : (noteDispatch m.thread.current >>= fun _ => callThrowHook exec).run m =
      ⟨.returned (), m'⟩) :
    m'.thread.current = m.thread.current ∨
      ∃ b e m₁, m.shared.hooks.onThrow = some b ∧ m.thread.hookRunning = false ∧
        m.thread.current = some e ∧
        (exec (.block b)).run (m.throwHookCalled e) = ⟨.returned (), m₁⟩ ∧
        m'.thread.current = m₁.thread.current := by
  cases sendOff_of_leaves (leaves_of_returned h) with
  | idle =>
    rw [Machine.thread_dispatchNoted]
    exact .inl rfl
  | called hb hr he hx =>
    obtain ⟨_, hblock⟩ := returned_of_leaves hx
    exact .inr ⟨_, _, _, hb, hr, he, hblock, rfl⟩
  | threw _ _ _ _ _ hu =>
    obtain ⟨e, _⟩ := returned_of_leaves hu
    cases e

/-! ## Frames

What needs the frames of the thread does not return in its teardown. -/

theorem returned_of_storage {out : Outcome α} {a : α} {m₁ : Machine}
    (h : (if m.thread.torn then ⟨.unwound storageGone, m₁⟩ else out) = ⟨.returned a, m'⟩) :
    m.thread.torn = false ∧ out = ⟨.returned a, m'⟩ := by
  split at h
  · cases h
  · rename_i ht
    exact ⟨by simpa using ht, h⟩

theorem unwound_of_storage {out : Outcome α} {m₁ : Machine}
    (h : (if m.thread.torn then ⟨.unwound storageGone, m₁⟩ else out) = ⟨.unwound t, m'⟩) :
    t = storageGone ∨ m.thread.torn = false ∧ out = ⟨.unwound t, m'⟩ := by
  split at h
  · cases h
    exact .inl rfl
  · rename_i ht
    exact .inr ⟨by simpa using ht, h⟩

/-- How one step of closing a frame comes to its end: in the teardown, at a frame that is not open
or is empty, or with the newest cleanup and what comes after it. -/
inductive CloseEnds (exec : Executor) (id : Nat) (m : Machine) : Option Transfer → Machine → Prop
  | torn (ht : m.thread.torn = true) : CloseEnds exec id m (some storageGone) m
  | absent (ht : m.thread.torn = false) (hf : Frame.find? id m.thread.frames.frames = none) :
    CloseEnds exec id m none m
  | empty {f} (ht : m.thread.torn = false) (hf : Frame.find? id m.thread.frames.frames = some f)
    (hp : f.pending = []) : CloseEnds exec id m none (m.closed id)
  | cleanup {f c cs t m'} (ht : m.thread.torn = false)
    (hf : Frame.find? id m.thread.frames.frames = some f) (hp : f.pending = c :: cs)
    (h : (exec (.block c.body)).run ((m.withPending id cs).starting c) = ⟨.unwound t, m'⟩) :
    CloseEnds exec id m (some t) m'
  | next {f c cs o m₁ m'} (ht : m.thread.torn = false)
    (hf : Frame.find? id m.thread.frames.frames = some f) (hp : f.pending = c :: cs)
    (hc : (startCleanup exec c).run (m.withPending id cs) = ⟨.returned (), m₁⟩)
    (h : ((exec (.close id)).run m₁).Leaves o m') : CloseEnds exec id m o m'

theorem closeEnds_of_leaves {exec : Executor} {id : Nat} {o : Option Transfer}
    (h : ((closeStep exec id).run m).Leaves o m') : CloseEnds exec id m o m' := by
  rw [run_closeStep] at h
  split at h
  · rename_i ht
    cases h
    exact .torn ht
  rename_i ht
  have ht : m.thread.torn = false := by simpa using ht
  split at h
  · rename_i hf
    cases h
    exact .absent ht hf
  rename_i f hf
  split at h
  · rename_i hp
    cases h
    exact .empty ht hf hp
  · rename_i c cs hp
    obtain ⟨_, m₁, hc, h⟩ | ⟨t, hc, rfl⟩ := leaves_bind.1 h
    · exact .next ht hf hp hc h
    · rw [run_startCleanup] at hc
      exact .cleanup ht hf hp hc

/-- How one step of closing frames inside a base comes to its end. -/
inductive CloseAboveEnds (exec : Executor) (base : Option Nat) (m : Machine) :
    Option Transfer → Machine → Prop
  | torn (ht : m.thread.torn = true) : CloseAboveEnds exec base m (some storageGone) m
  | done (ht : m.thread.torn = false) : CloseAboveEnds exec base m none m
  | inner {f fs t m'} (ht : m.thread.torn = false) (hf : m.thread.frames.frames = f :: fs)
    (hb : ¬base.any (f.id ≤ ·)) (h : (exec (.close f.id)).run m = ⟨.unwound t, m'⟩) :
    CloseAboveEnds exec base m (some t) m'
  | next {f fs o m₁ m'} (ht : m.thread.torn = false) (hf : m.thread.frames.frames = f :: fs)
    (hb : ¬base.any (f.id ≤ ·)) (hc : (exec (.close f.id)).run m = ⟨.returned (), m₁⟩)
    (h : ((exec (.closeAbove base)).run m₁).Leaves o m') : CloseAboveEnds exec base m o m'

theorem closeAboveEnds_of_leaves {exec : Executor} {base : Option Nat} {o : Option Transfer}
    (h : ((closeAboveStep exec base).run m).Leaves o m') : CloseAboveEnds exec base m o m' := by
  rw [run_closeAboveStep] at h
  split at h
  · rename_i ht
    cases h
    exact .torn ht
  rename_i ht
  have ht : m.thread.torn = false := by simpa using ht
  split at h
  · cases h
    exact .done ht
  rename_i f fs hf
  split at h
  · cases h
    exact .done ht
  · rename_i hb
    obtain ⟨_, m₁, hc, h⟩ | ⟨t, hc, rfl⟩ := leaves_bind.1 h
    · exact .next ht hf hb hc h
    · exact .inner ht hf hb hc

/-- How one step of the walk of a panic comes to its end: in the teardown, outside of all frames, at
a marked frame, or with the frame that it comes past and what comes after it. -/
inductive WalkEnds (exec : Executor) (code : ErrorCode) (m : Machine) :
    Option Transfer → Machine → Prop
  | torn (ht : m.thread.torn = true) : WalkEnds exec code m (some storageGone) m
  | outside (ht : m.thread.torn = false) (hf : m.thread.frames.frames = []) :
    WalkEnds exec code m none m
  | marked {f fs token} (ht : m.thread.torn = false) (hf : m.thread.frames.frames = f :: fs)
    (hm : f.mark = some token) : WalkEnds exec code m (some (.panicking code token)) m
  | passed {f fs t m'} (ht : m.thread.torn = false) (hf : m.thread.frames.frames = f :: fs)
    (hm : f.mark = none)
    (h : (exec (.close f.id)).run (m.note (.step (.passed f.id))) = ⟨.unwound t, m'⟩) :
    WalkEnds exec code m (some t) m'
  | next {f fs o m₁ m'} (ht : m.thread.torn = false) (hf : m.thread.frames.frames = f :: fs)
    (hm : f.mark = none)
    (hc : (exec (.close f.id)).run (m.note (.step (.passed f.id))) = ⟨.returned (), m₁⟩)
    (h : ((exec (.walk code)).run m₁).Leaves o m') : WalkEnds exec code m o m'

theorem walkEnds_of_leaves {exec : Executor} {code : ErrorCode} {o : Option Transfer}
    (h : ((walkStep exec code).run m).Leaves o m') : WalkEnds exec code m o m' := by
  rw [run_walkStep] at h
  split at h
  · rename_i ht
    cases h
    exact .torn ht
  rename_i ht
  have ht : m.thread.torn = false := by simpa using ht
  split at h
  · rename_i hf
    cases h
    exact .outside ht hf
  rename_i f fs hf
  split at h
  · rename_i token hm
    cases h
    exact .marked ht hf hm
  · rename_i hm
    obtain ⟨_, m₁, hc, h⟩ | ⟨t, hc, rfl⟩ := leaves_bind.1 h
    · exact .next ht hf hm hc h
    · exact .passed ht hf hm hc

/-- The body of a thread is left as its block is, and an unwind that it was left by was caught. -/
theorem leaves_of_threadBody {exec : Executor} {status : Int32} {b : Block}
    {r : Except Transfer Int32}
    (h : (catchUnwind (threadBody exec status b)).run m = ⟨.returned r, m'⟩) :
    ∃ o, ((exec (.block b)).run m).Leaves o m' ∧ ∀ t, r = .error t → o = some t := by
  obtain ⟨_, hx, rfl⟩ | ⟨t, hx, rfl⟩ := run_catchUnwind_eq_returned.1 h
  · obtain ⟨_, _, hx, hp⟩ := returned_bind hx
    cases hp
    exact ⟨none, leaves_of_returned hx, nofun⟩
  · obtain ⟨_, _, _, hp⟩ | hx := unwound_bind hx
    · cases hp
    · exact ⟨some t, leaves_of_unwound hx, fun _ he => by cases he; rfl⟩

/-- A session that has returned has closed its frames, and its body has returned or was left by the
end of the thread with the status of the session. -/
theorem returned_runBody_session {exec : Executor} {status status' : Int32} {b : Block}
    (h : (runBody exec (threadBody exec status b)).run m = ⟨.returned status', m'⟩) :
    m.thread.torn = false ∧ ∃ m₁,
      ((exec (.block b)).run m.sessionEntered = ⟨.returned (), m₁⟩ ∧ status' = status ∨
        (exec (.block b)).run m.sessionEntered = ⟨.unwound (.threadExit status'), m₁⟩) ∧
      ∃ m₂, (exec (.closeAbove m.innermostId)).run m₁ = ⟨.returned (), m₂⟩ ∧
        m'.thread.current = m₂.thread.current := by
  rw [run_runBody] at h
  obtain ⟨ht, h⟩ := returned_of_storage h
  refine ⟨ht, ?_⟩
  obtain ⟨r, m₁, hb, h⟩ := returned_bind h
  obtain ⟨_, m₂, hc, h⟩ := returned_bind h
  obtain ⟨_, m₃, hs, h⟩ := returned_bind h
  have hcur : m₃.thread.current = m₂.thread.current := by
    unfold closeSession at hs
    split at hs <;> cases hs <;> rfl
  refine ⟨m₁, ?_, m₂, hc, ?_⟩
  · obtain ⟨_, hx, rfl⟩ | ⟨t, hx, rfl⟩ := run_catchUnwind_eq_returned.1 hb
    · obtain ⟨_, _, hx, hp⟩ := returned_bind hx
      cases hp
      cases h
      exact .inl ⟨hx, rfl⟩
    · obtain ⟨_, _, _, hp⟩ | hx := unwound_bind hx
      · cases hp
      · cases t with
        | threadExit status => cases h; exact .inr hx
        | _ => cases h
  · cases r with
    | ok _ =>
      cases h
      exact hcur
    | error t =>
      cases t with
      | threadExit _ => cases h; exact hcur
      | _ => cases h

theorem unwound_runBody_session {exec : Executor} {status : Int32} {b : Block}
    (h : (runBody exec (threadBody exec status b)).run m = ⟨.unwound t, m'⟩) :
    t = storageGone ∨ m.thread.torn = false ∧
      ((∃ m₁, (exec (.block b)).run m.sessionEntered = ⟨.unwound t, m₁⟩ ∧
        (∀ status, t ≠ .threadExit status) ∧
        ((Label.session m.innermostId (!m.thread.initialised)).exit exec).run m₁ =
          ⟨.returned (), m'⟩) ∨
      ∃ o m₁, ((exec (.block b)).run m.sessionEntered).Leaves o m₁ ∧
        (exec (.closeAbove m.innermostId)).run m₁ = ⟨.unwound t, m'⟩) := by
  rw [run_runBody] at h
  refine (unwound_of_storage h).imp_right ?_
  rintro ⟨ht, h⟩
  refine ⟨ht, ?_⟩
  obtain ⟨r, m₁, hb, h⟩ | h := unwound_bind h
  · obtain ⟨o, hl, he⟩ := leaves_of_threadBody hb
    obtain ⟨_, m₂, hc, h⟩ | h := unwound_bind h
    · obtain ⟨_, m₃, hs, h⟩ | h := unwound_bind h
      · -- What is left is to give the outcome of the body, so the body was left by the unwind.
        cases r with
        | ok status => cases h
        | error t' =>
          cases t' with
          | threadExit status => cases h
          | _ =>
            cases h
            obtain rfl := he _ rfl
            exact .inl ⟨m₁, unwound_of_leaves hl, nofun, (run_bind_returned hc).trans hs⟩
      · unfold closeSession at h
        split at h <;> cases h
    · exact .inr ⟨o, m₁, hl, h⟩
  · cases (leaves_catchUnwind.1 (leaves_of_unwound h)).2

/-- A recovery that has returned has put its mark and itself away, and its body has returned or was
left by a panic with its token. -/
theorem returned_of_recover {exec : Executor} {b : Block} {r : Option ErrorCode}
    (h : (Effect.recover (exec (.block b))).run m = ⟨.returned r, m'⟩) :
    m.thread.torn = false ∧ ∃ m₁,
      ((exec (.block b)).run m.recoveryEntered = ⟨.returned (), m₁⟩ ∧ r = none ∨
        ∃ code, (exec (.block b)).run m.recoveryEntered =
          ⟨.unwound (.panicking code m.shared.nextToken), m₁⟩ ∧ r = some code) ∧
      m'.thread = ((m₁.withMark m.rootId m.tokenTaken.markFound).withRecovering
        m.thread.recovering).thread := by
  rw [run_recover] at h
  obtain ⟨ht, h⟩ := returned_of_storage h
  obtain ⟨m₁, hs, he⟩ := returned_onExit h
  rw [run_endRecovery] at he
  obtain ⟨-, he⟩ := returned_of_storage he
  cases he
  refine ⟨ht, ?_⟩
  rw [run_settle] at hs
  split at hs
  · rename_i hb
    cases hs
    exact ⟨m₁, .inl ⟨hb, rfl⟩, rfl⟩
  · rename_i t m₃ hb
    split at hs
    · rename_i code' owner
      split at hs
      · rename_i howner
        subst howner
        cases hs
        exact ⟨m₃, .inr ⟨code', hb, rfl⟩, rfl⟩
      · cases hs
    · cases hs
  · cases hs

theorem returned_recover {exec : Executor} {value : String} {b : Block}
    (h : (Stmt.perform exec (.recover value b)).run m = ⟨.returned (), m'⟩) :
    m.thread.torn = false ∧ ∃ m₁,
      ((exec (.block b)).run m.recoveryEntered = ⟨.returned (), m₁⟩ ∨
        ∃ code, (exec (.block b)).run m.recoveryEntered =
          ⟨.unwound (.panicking code m.shared.nextToken), m₁⟩) ∧
      m'.thread = ((m₁.withMark m.rootId m.tokenTaken.markFound).withRecovering
        m.thread.recovering).thread := by
  obtain ⟨r, m₂, hr, h⟩ := returned_bind h
  have hthread : m'.thread = m₂.thread := by cases r <;> cases h <;> rfl
  obtain ⟨ht, m₁, hbody, hm₂⟩ := returned_of_recover hr
  refine ⟨ht, m₁, ?_, hthread.trans hm₂⟩
  obtain ⟨hb, -⟩ | ⟨code, hb, -⟩ := hbody
  · exact .inl hb
  · exact .inr ⟨code, hb⟩

theorem unwound_recover {exec : Executor} {value : String} {b : Block}
    (h : (Stmt.perform exec (.recover value b)).run m = ⟨.unwound t, m'⟩) :
    t = storageGone ∨ m.thread.torn = false ∧ ∃ m₁,
      (exec (.block b)).run m.recoveryEntered = ⟨.unwound t, m₁⟩ ∧
      (∀ code, t ≠ .panicking code m.shared.nextToken) ∧
      (endRecovery m.rootId m.tokenTaken.markFound m.thread.recovering).run m₁ =
        ⟨.returned (), m'⟩ := by
  obtain ⟨code, _, _, h⟩ | h := unwound_bind h
  · cases code <;> cases h
  rw [run_recover] at h
  obtain h | ⟨ht, h⟩ := unwound_of_storage h
  · exact .inl h
  obtain ⟨_, m₁, _, he⟩ | ⟨m₁, hs, he⟩ := unwound_onExit h
  · rw [run_endRecovery] at he
    obtain h | ⟨_, he⟩ := unwound_of_storage he
    · exact .inl h
    · cases he
  refine .inr ⟨ht, m₁, ?_⟩
  rw [run_settle] at hs
  split at hs
  · cases hs
  · rename_i t' m₂ hb
    split at hs
    · rename_i code owner
      split at hs
      · cases hs
      · rename_i hne
        cases hs
        exact ⟨hb, fun code he => hne (by cases he; rfl), he⟩
    · rename_i hne
      cases hs
      exact ⟨hb, fun code he => hne code _ he, he⟩
  · cases hs

theorem unwound_times {x : Effect Unit} : ∀ (times : Nat) {m : Machine},
    (Effect.times x times).run m = ⟨.unwound t, m'⟩ →
      ∃ i m₁, i < times ∧ (Effect.times x i).run m = ⟨.returned (), m₁⟩ ∧
        x.run m₁ = ⟨.unwound t, m'⟩
  | 0, _, h => by cases h
  | times + 1, m, h => by
    obtain ⟨_, m₁, hx, h⟩ | h := unwound_bind h
    · obtain ⟨i, m₂, hi, ht, hm⟩ := unwound_times times h
      exact ⟨i + 1, m₂, Nat.succ_lt_succ hi, (run_bind_returned hx).trans ht, hm⟩
    · exact ⟨0, m, Nat.succ_pos _, rfl, h⟩

end Effect

end NonlocalExit
