import NonlocalExit.Proofs.Completions

/-!
# What follows from the calls

What a piece of a run does on its own is little: apart from what it calls, it writes notes, changes
the record and counts its level, and some pieces open and close frames.  `Activation.ends_of_calls`
takes up the pieces that leave frames to what they call.  A property of threads that looks at
frames, guards and the record only, and lets the record be cleared and be given some exceptions,
holds at the end of such a piece if it holds at the end of whatever the piece calls, and the
exceptions that the piece makes itself are among these.

Other than a law, the property need not be kept by what is called elsewhere.
-/

namespace NonlocalExit

variable [Declarations]

open Effect

/-- Whether a property of threads holds wherever an effect is left that is started on a machine. -/
def Effect.Ends {α : Type} (R : Thread → Prop) (x : Effect α) (m : Machine) : Prop :=
  ∀ o m', (x.run m).Leaves o m' → R m'.thread

/-- Whether a property of threads holds wherever a piece is left. -/
def Activation.Ends (R : Thread → Prop) (a : Activation) : Prop :=
  ∀ o m', a.run.Leaves o m' → R m'.thread

namespace Effect.Ends

variable {R : Thread → Prop} {α β : Type} {x : Effect α} {m m₁ : Machine}

theorem pure (a : α) (h : R m.thread) : (Pure.pure a : Effect α).Ends R m := by
  intro o m' hl
  obtain ⟨-, rfl⟩ := leaves_pure.1 hl
  exact h

theorem unwind (t : Transfer) (h : R m.thread) : (Effect.unwind t : Effect α).Ends R m := by
  intro o m' hl
  obtain ⟨-, rfl⟩ := leaves_unwind.1 hl
  exact h

theorem modify {f : Machine → Machine} (h : R (f m).thread) : (Effect.modify f).Ends R m := by
  intro o m' hl
  obtain ⟨-, rfl⟩ := leaves_modify.1 hl
  exact h

theorem note (e : Entry) (h : R m.thread) : (Effect.note e).Ends R m := modify h

theorem of_run {y : Effect α} (h : x.run m = y.run m₁) (hy : y.Ends R m₁) : x.Ends R m :=
  fun o m' hl => hy o m' (h ▸ hl)

/-- What is refused on torn storage and goes its way otherwise. -/
theorem of_storage {y : Effect α} {t : Transfer} {m₂ : Machine}
    (hx : x.run m = if m.thread.torn then ⟨.unwound t, m₁⟩ else y.run m₂) (h₁ : R m₁.thread)
    (hy : m.thread.torn = false → y.Ends R m₂) : x.Ends R m := by
  cases ht : m.thread.torn with
  | true =>
    intro o m' hl
    rw [hx, if_pos ht] at hl
    cases hl
    exact h₁
  | false => exact of_run (hx.trans (if_neg (by rw [ht]; exact nofun))) (hy ht)

theorem returned {a : α} (hx : x.Ends R m) (h : x.run m = ⟨.returned a, m₁⟩) : R m₁.thread :=
  hx _ _ (leaves_of_returned h)

theorem bind {f : α → Effect β} (hx : x.Ends R m)
    (hf : ∀ a m₁, x.run m = ⟨.returned a, m₁⟩ → R m₁.thread → (f a).Ends R m₁) :
    (x >>= f).Ends R m := by
  intro o m' hl
  obtain ⟨a, m₁, hr, hl⟩ | ⟨t, hu, rfl⟩ := leaves_bind.1 hl
  · exact hf a m₁ hr (hx.returned hr) _ _ hl
  · exact hx _ _ (leaves_of_unwound hu)

/-- What is left at last is the exit, however the body was left. -/
theorem of_exit {y : Effect Unit} (hy : ∀ o m₁, (x.run m).Leaves o m₁ → y.Ends R m₁) :
    (Effect.onExit x y).Ends R m := by
  intro o m' hl
  obtain ⟨a, m₁, hr, hl⟩ | ⟨t, m₁, hu, hl, -⟩ := leaves_onExit.1 hl
  · exact hy _ _ (leaves_of_returned hr) _ _ hl
  · exact hy _ _ (leaves_of_unwound hu) _ _ hl

theorem onExit {y : Effect Unit} (hx : x.Ends R m)
    (hy : ∀ o m₁, (x.run m).Leaves o m₁ → R m₁.thread → y.Ends R m₁) :
    (Effect.onExit x y).Ends R m := of_exit fun o m₁ hl => hy o m₁ hl (hx o m₁ hl)

/-- What follows on an effect whose unwinds are all stopped. -/
theorem of_caught {f : Except Transfer α → Effect β}
    (hf : ∀ r m₁, (Effect.catchUnwind x).run m = ⟨.returned r, m₁⟩ → (f r).Ends R m₁) :
    (Effect.catchUnwind x >>= f).Ends R m := by
  intro o m' hl
  obtain ⟨r, m₁, hr, hl⟩ | ⟨t, hu, rfl⟩ := leaves_bind.1 hl
  · exact hf r m₁ hr _ _ hl
  · cases (leaves_catchUnwind.1 (leaves_of_unwound hu)).2

theorem catchUnwind (hx : x.Ends R m) : (Effect.catchUnwind x).Ends R m := by
  intro o m' hl
  obtain ⟨⟨o', hl⟩, -⟩ := leaves_catchUnwind.1 hl
  exact hx _ _ hl

theorem capture {x : Effect Unit} (hx : x.Ends R m) : (Effect.capture x).Ends R m := by
  intro o m' hl
  obtain ⟨hl, -⟩ | ⟨t, hu, -⟩ := leaves_capture.1 hl
  · exact hx _ _ hl
  · exact hx _ _ (leaves_of_unwound hu)

theorem never {x : Effect Empty} (hx : x.Ends R m) : (Effect.never x : Effect α).Ends R m :=
  hx.bind fun e => nomatch e

theorem of_never {x : Effect Empty} (hx : (Effect.never x : Effect α).Ends R m) : x.Ends R m := by
  intro o m' hl
  obtain ⟨e, -, -⟩ | ⟨t, hu, rfl⟩ := Leaves.cases hl
  · exact nomatch e
  · exact hx _ _ (leaves_of_unwound (run_never_unwound hu))

theorem times {x : Effect Unit} : ∀ (i : Nat) {m : Machine}, R m.thread →
    (∀ j m₁, j < i → (Effect.times x j).run m = ⟨.returned (), m₁⟩ → R m₁.thread → x.Ends R m₁) →
      (Effect.times x i).Ends R m
  | 0, _, h, _ => pure _ h
  | i + 1, m, h, hx => by
    refine bind (hx 0 m (Nat.succ_pos i) rfl h) fun _ m₁ hr h₁ => times i h₁ fun j m₂ hj ht h₂ => ?_
    exact hx (j + 1) m₂ (Nat.succ_lt_succ hj) ((run_bind_returned hr).trans ht) h₂

end Effect.Ends

/-- A guarded hook is left on the machine on which its block is left, and comes back from there. -/
theorem Effect.leaves_of_caught {out : Outcome Unit} {leave : Machine → Machine} {m' : Machine}
    {o : Option Transfer} (h : (out.caught leave).Leaves o m') :
    ∃ o' m, out.Leaves o' m ∧ m' = leave m := by
  obtain ⟨_ | t | _, m⟩ := out
  · cases h
    exact ⟨_, m, .returned () m, rfl⟩
  · refine ⟨_, m, .unwound t m, ?_⟩
    by_cases ht : t.escape? = none
    · rw [caught_unwound ht] at h
      cases h
      rfl
    · rw [caught_escaped ht] at h
      cases h
      rfl
  · cases h

/-- An exception that no clause of a try block has consumed was taken from the record when the body
was left. -/
theorem TryBlock.taken_of_stages {n : Nat} {body : Block} {clauses : List (Trigger × Block)}
    {m m' : Machine} {e : Exception}
    (h : (protect (runStages (Job.run n) (.declared (Job.run n) body clauses)
      m.thread.current)).run (m.warned (completionsOf clauses)) = ⟨.returned (some e), m'⟩) :
    ∃ t m₁, (Job.run n (.block body)).run (m.tryEntered clauses) = ⟨.unwound t, m₁⟩ ∧
      t.escape? ≠ none ∧ m₁.thread.current = some e := by
  obtain ⟨m₁, hx, -⟩ := returned_protect h
  rw [thread_warned, run_stages] at hx
  obtain ⟨pending, m₂, hc, hl⟩ := returned_bind hx
  obtain ⟨rfl, -⟩ := returned_lastStages hl
  obtain ⟨_, hcomes⟩ := clauseStage_returned_iff.1 hc
  cases hcomes with
  | unmatched hb ht he => exact ⟨_, _, hb, ht, he⟩
  | rethrown hb ht he => exact ⟨_, _, hb, ht, he⟩

/-- A property of threads that looks at the frames, the guards and the record only, and that the
record may be given those exceptions for which `P` holds. -/
structure Effect.Local (P : Exception → Prop) (R : Thread → Prop) : Prop where
  holds : ∀ {t e}, R t → t.current = some e → P e
  same : ∀ {t t' : Thread}, R t → t'.frames = t.frames → t'.held = t.held →
    (∀ e, t'.current = some e → P e) → R t'

/-- The exceptions that a piece makes. -/
inductive Activation.Raises : Activation → Value → Prop
  | thrown (n v m) : Raises ⟨n, .stmt (.throw v), m⟩ v
  | fault (n) {cause : FaultCause} {deferred} {m : Machine}
    (h : m.reception cause = .trapped deferred) :
    Raises ⟨n, .stmt (.fault cause), m⟩ cause.fault.toValue

/-- Whether a piece opens or closes frames, or holds or releases guards, by itself. -/
def Task.HandlesFrames : Task → Prop
  | .job (.block _) | .job (.close _) | .drops _ | .session .. => True
  | .stmt s =>
    match s with
    | .scope _ | .enter _ | .leave _ | .leak _ | .defer _ | .deferWith .. | .recover .. => True
    | .initThread | .init (some _) => True
    | _ => False
  | _ => False

theorem Machine.thread_settingsApplied (settings : Settings) (m : Machine) :
    (m.settingsApplied settings).thread = m.thread := by
  unfold settingsApplied
  dsimp only
  split <;> rfl

theorem Machine.thread_passedOver (e : Exception) : ∀ (clauses : List (Trigger × Block))
    (m : Machine), (m.passedOver e clauses).thread = m.thread
  | [], _ => rfl
  | (.typed t, _) :: rest, m => by
    unfold Machine.passedOver
    split
    · split
      · rfl
      · exact thread_passedOver e rest (m.note (.log (.tagClash e.tag)))
    · exact thread_passedOver e rest m
  | (.any, _) :: _, _ => rfl
  | (.completion, _) :: rest, m => thread_passedOver e rest m

namespace Effect.Local

variable {P : Exception → Prop} {R : Thread → Prop} (L : Local P R)
include L

theorem of_eq {t t' : Thread} (h : R t) (hf : t'.frames = t.frames) (hh : t'.held = t.held)
    (hc : t'.current = t.current) : R t' :=
  L.same h hf hh fun _ he => L.holds h (hc.symm.trans he)

theorem withCurrent {m : Machine} (h : R m.thread) {c : Option Exception}
    (hc : ∀ e, c = some e → P e) : R (m.withCurrent c).thread := L.same h rfl rfl hc

theorem unprotected {m : Machine} (h : R m.thread) (link : Nat) : R (m.unprotected link).thread :=
  L.of_eq h rfl rfl rfl

theorem unprotect {m : Machine} (h : R m.thread) (link : Nat) :
    (Effect.unprotect link).Ends R m := by
  intro o m' hl
  rw [run_unprotect] at hl
  cases hl
  exact L.unprotected h link

theorem hookCalled {m : Machine} (h : R m.thread) (kind : HookKind) (e : Exception) :
    R (m.hookCalled kind e).thread := L.of_eq h rfl rfl rfl

theorem hookEnded {m : Machine} (h : R m.thread) (kind : HookKind) (link : Nat) :
    R (m.hookEnded kind link).thread := L.of_eq h rfl rfl rfl

theorem throwHookCalled {m : Machine} (h : R m.thread) (e : Exception) :
    R (m.throwHookCalled e).thread := L.of_eq h rfl rfl rfl

theorem throwHookLeft {m : Machine} (h : R m.thread) (link : Nat) :
    R (m.throwHookLeft link).thread := L.of_eq h rfl rfl rfl

theorem tryEntered {m : Machine} (h : R m.thread) (clauses : List (Trigger × Block)) :
    R (m.tryEntered clauses).thread := by
  show R { (m.warned (TryBlock.completionsOf clauses)).thread with depth := _ }
  rw [TryBlock.thread_warned]
  exact L.of_eq h rfl rfl rfl

/-! ## The end of a thread -/

theorem abandon {m : Machine} (h : R m.thread) : Effect.abandon.Ends R m := by
  refine .bind (.modify (L.withCurrent h nofun)) fun _ _ _ h => ?_
  exact .bind (.note _ h) fun _ _ _ h => .unwind _ h

theorem failUnexpected {m : Machine} (h : R m.thread) : Effect.failUnexpected.Ends R m := by
  refine .of_run (run_bind_returned (run_current m)) ?_
  exact .bind (.note _ h) fun _ _ _ h => L.abandon h

/-! ## Hooks -/

section

variable {n : Nat} {m : Machine} {e : Exception} {b : Block} {kind : HookKind}

/-- What holds where a hook is left holds where its guarded call is. -/
theorem guardedHook
    (hb : ∀ o m₁, ((Job.run n (.block b)).run (m.hookCalled kind e)).Leaves o m₁ → R m₁.thread) :
    (guarded (callHook (Job.run n) kind b e)).Ends R m := by
  intro o m' hl
  rw [run_guarded_callHook] at hl
  obtain ⟨o', m₁, hx, rfl⟩ := leaves_of_caught hl
  exact L.hookEnded (hb _ _ hx) kind _

theorem guardedThrowHook
    (hb : ∀ o m₁, ((Job.run n (.block b)).run (m.throwHookCalled e)).Leaves o m₁ → R m₁.thread) :
    (guarded (runThrowHook (Job.run n) b e)).Ends R (m.note (.step (.dispatched e))) := by
  intro o m' hl
  rw [run_guarded_runThrowHook] at hl
  obtain ⟨o', m₁, hx, rfl⟩ := leaves_of_caught hl
  exact L.throwHookLeft (hb _ _ hx) _

theorem unexpected (h : R m.thread)
    (H : ∀ l c, Enters ⟨n, .unexpected, m⟩ l c → R c.machine.thread → c.Ends R) :
    (Effect.unexpected (Job.run n)).Ends R m := by
  refine .of_run (run_unexpected m) ?_
  split
  · rename_i b e hb he
    refine .bind (L.guardedHook (H _ _ (.unexpectedHook n hb he) (L.hookCalled h _ _)))
      fun escaped _ _ h => ?_
    split
    · exact .bind (.note _ h) fun _ _ _ h => .bind (.modify h) fun _ _ _ h => L.failUnexpected h
    · exact L.abandon h
  · exact L.failUnexpected h

theorem unhandled (h : R m.thread)
    (H : ∀ l c, Enters ⟨n, .unhandled, m⟩ l c → R c.machine.thread → c.Ends R) :
    (Effect.unhandled (Job.run n)).Ends R m := by
  refine .of_run (run_unhandled m) ?_
  split
  · rename_i b e hb he
    refine .bind (L.guardedHook (H _ _ (.unhandledHook n hb he) (L.hookCalled h _ _)))
      fun escaped _ hr h => ?_
    cases escaped with
    | true => exact .of_never (H _ _ (.unhandledHookThrew hb he hr) h)
    | false => exact L.abandon h
  · exact .bind (.note _ h) fun _ _ _ h => L.abandon h

/-- What holds up to where an exception that starts to look for a try block is sent there. -/
theorem sendOff (h : R m.thread)
    (H : ∀ l c, Enters ⟨n, .dispatch, m⟩ l c → R c.machine.thread → c.Ends R) :
    (noteDispatch m.thread.current >>= fun _ => callThrowHook (Job.run n)).Ends R m := by
  intro o m' hl
  cases sendOff_of_leaves hl with
  | idle =>
    rw [Machine.thread_dispatchNoted]
    exact h
  | called hb hr he hx ho =>
    exact L.throwHookLeft (H _ _ (.throwHook n hb hr he) (L.throwHookCalled h _) _ _ hx) _
  | threw hb hr he hx ht hu =>
    have hleft := L.throwHookLeft (H _ _ (.throwHook n hb hr he) (L.throwHookCalled h _) _ _
      (leaves_of_unwound hx)) m.thread.depth
    have hthrew := (@run_guarded_runThrowHook _ (Job.run n) _ _ m).trans
      ((congrArg _ hx).trans (caught_escaped ht))
    exact Ends.of_never (H _ _ (.throwHookThrew hb hr he hthrew) hleft) _ _ hu

theorem dispatch (h : R m.thread)
    (H : ∀ l c, Enters ⟨n, .dispatch, m⟩ l c → R c.machine.thread → c.Ends R) :
    (Effect.dispatch (Job.run n)).Ends R m := by
  refine .of_run (run_dispatch m) (.bind (L.sendOff h H) fun _ m₁ hr h₁ => ?_)
  show (if m₁.thread.depth > 0 then Effect.unwind .thrown else Effect.unhandled (Job.run n) :
    Effect Empty).Ends R m₁
  split
  · exact .unwind _ h₁
  · rename_i hd
    exact .of_never (H _ _ (.outside hr (by omega)) h₁)

end

/-! ## Try blocks -/

section

open TryBlock

variable {n : Nat} {body : Block} {clauses : List (Trigger × Block)} {m m₁ : Machine}

variable (h : R m.thread)
  (H : ∀ l c, Enters ⟨n, .stmt (.attempt body clauses), m⟩ l c → R c.machine.thread → c.Ends R)
include h H

theorem bodyStage : (TryBlock.bodyStage (Job.run n) body m.thread.depth).Ends R
    (m.tryEntered clauses) := by
  have hbody := H _ _ (.attempt n body clauses m) (L.tryEntered h clauses)
  refine .bind (.bind (.capture hbody) fun escape m₁ hc h₁ => ?_) fun _ _ _ h => .bind (.note _ h)
    fun _ _ _ h => .pure _ h
  cases escape with
  | none => exact .pure _ h₁
  | some escape =>
    obtain ⟨t, hx, ht⟩ := capture_eq_escaped hc
    refine .of_run (run_bind_returned (run_current m₁)) ?_
    cases he : m₁.thread.current with
    | some e => exact .pure _ h₁
    | none =>
      exact .bind (.note _ h₁) fun _ _ hr h => by
        cases hr
        exact .never (.of_never (H _ _ (.recordEmpty hx ht he) h))

/-- The clause that matches the exception from the body, and what is done when it has ended. -/
theorem runCatch {trigger : Trigger} {b : Block} {e : Exception}
    (hb : (TryBlock.bodyStage (Job.run n) body m.thread.depth).run (m.tryEntered clauses) =
      ⟨.returned (some e), m₁⟩) (hm : firstMatch e clauses = some (trigger, b)) :
    (TryBlock.runCatches (Job.run n) (catchesOf (Job.run n) clauses) m.thread.current
      m.thread.depth (some e)).Ends R m₁ := by
  have hpassed : R (m₁.passedOver e clauses).thread := by
    rw [Machine.thread_passedOver]
    exact (L.bodyStage h H).returned hb
  have hclause : ∀ {start}, start? e trigger = some start →
      ((catchOf (Job.run n) (trigger, b)).handler e).Ends R
        ((m₁.passedOver e clauses).stage m.thread.depth .catching .unexpected) := fun hs =>
    .of_run (run_handler hs _) (H _ _ (.clause hb hm hs) hpassed)
  have hacts : ∀ {out}, ((catchOf (Job.run n) (trigger, b)).handler e).run
      ((m₁.passedOver e clauses).stage m.thread.depth .catching .unexpected) = out →
        out = ⟨.returned (), (m₁.passedOver e clauses).stage m.thread.depth .catching .unexpected⟩ ∨
          ∃ start, start? e trigger = some start := by
    intro out hout
    refine Classical.or_iff_not_imp_left.2 fun hne => ?_
    exact starts_of_acts (fun ht => firstMatch_ne_completion (ht ▸ hm)) (hout ▸ hne)
  have hhandler : ((catchOf (Job.run n) (trigger, b)).handler e).Ends R
      ((m₁.passedOver e clauses).stage m.thread.depth .catching .unexpected) := by
    obtain hidle | ⟨start, hs⟩ := hacts rfl
    · intro o m' hl
      rw [hidle] at hl
      cases hl
      exact hpassed
    · exact hclause hs
  refine .of_run (run_runCatch hm m₁) (.bind (.capture hhandler) fun escape m₂ hc h₂ => ?_)
  refine .bind ?_ fun _ _ _ h => .bind (.note _ h) fun _ _ _ h => .pure _ h
  cases escape with
  | none => exact .bind (.modify (L.withCurrent h₂ fun _ => L.holds h)) fun _ _ _ h => .pure _ h
  | some escape =>
    cases escape with
    | rethrown => exact .pure _ h₂
    | thrown =>
      obtain ⟨t, hx, ht⟩ := capture_eq_escaped hc
      have hthrown : t = .thrown := by cases t <;> cases ht; rfl
      obtain hidle | ⟨start, hs⟩ := hacts hx
      · cases hidle
      · rw [run_handler hs, hthrown] at hx
        exact .never (.of_never (H _ _ (.clauseThrew hb hm hs hx) h₂))

theorem clauseStage : (TryBlock.clauseStage (Job.run n) body clauses m.thread.current
    m.thread.depth).Ends R (m.tryEntered clauses) := by
  refine .bind (L.bodyStage h H) fun escaped m₁ hb h₁ => .bind ?_ fun _ _ _ h =>
    .bind (.note _ h) fun _ _ _ h => .pure _ h
  cases escaped with
  | none => exact .pure _ h₁
  | some e =>
    cases hm : firstMatch e clauses with
    | none =>
      refine .of_run (run_bind_returned (run_select e clauses m₁)) ?_
      rw [hm]
      refine .pure _ ?_
      rw [Machine.thread_passedOver]
      exact h₁
    | some c => exact L.runCatch h H hb hm

theorem lastStages {pending : Option Exception}
    (hc : (TryBlock.clauseStage (Job.run n) body clauses m.thread.current m.thread.depth).run
      (m.tryEntered clauses) = ⟨.returned pending, m₁⟩) :
    (TryBlock.lastStages (Job.run n) clauses m.thread.depth pending).Ends R m₁ := by
  have h₁ := (L.clauseStage h H).returned hc
  unfold TryBlock.lastStages
  refine .bind ?_ fun _ _ _ h => .bind (.note _ h) fun _ _ _ h => .pure _ h
  cases hf : (completionsOf clauses).getLast? with
  | none => exact .pure _ h₁
  | some final =>
    refine .bind (.note _ h₁) fun _ _ hr h₂ => ?_
    cases hr
    have hfinal := H _ _ (.completion hc hf) h₂
    refine .bind (.capture (.bind (.note _ h₂) fun _ _ hr _ => ?_)) fun escape m₃ hx h₃ =>
      .bind ?_ fun _ _ _ h => .note _ h
    · cases hr
      exact hfinal
    · cases escape with
      | none => exact .pure _ h₃
      | some escape =>
        obtain ⟨t, hx, ht⟩ := capture_eq_escaped hx
        exact .never (.of_never (H _ _ (.completionThrew hc hf hx (by rw [ht]; rfl)) h₃))

theorem stages : (protect (runStages (Job.run n) (.declared (Job.run n) body clauses)
    m.thread.current)).Ends R (m.warned (completionsOf clauses)) := by
  refine .of_run (run_protect _ _) ?_
  rw [thread_warned]
  refine .onExit (.of_run (run_stages _ _ _) ?_) fun _ _ _ h => L.unprotect h _
  exact .bind (L.clauseStage h H) fun pending m₁ hc _ => L.lastStages h H hc

/-- What no clause has consumed was in the record when it left the body. -/
theorem pending {e : Exception}
    (hx : (protect (runStages (Job.run n) (.declared (Job.run n) body clauses)
      m.thread.current)).run (m.warned (completionsOf clauses)) = ⟨.returned (some e), m₁⟩) :
    P e := by
  obtain ⟨t, m₂, hb, -, he⟩ := taken_of_stages hx
  exact L.holds (H _ _ (.attempt n body clauses m) (L.tryEntered h clauses) _ _
    (leaves_of_unwound hb)) he

theorem attempt : Activation.Ends R ⟨n, .stmt (.attempt body clauses), m⟩ := by
  refine Ends.of_run (run_attempt m) (.bind (L.stages h H) fun pending m₁ hx h₁ => ?_)
  cases pending with
  | none => exact .pure _ h₁
  | some e =>
    refine H _ _ (.again hx) (L.withCurrent h₁ fun _ he => ?_)
    obtain rfl := Option.some.inj he
    exact L.pending h H hx

end

/-! ## Pieces -/

section

variable {n : Nat} {m : Machine}

omit L in
theorem rest {ss : Block} (h : R m.thread)
    (H : ∀ l c, Enters ⟨n, .rest ss, m⟩ l c → R c.machine.thread → c.Ends R) :
    Activation.Ends R ⟨n, .rest ss, m⟩ := by
  cases ss with
  | nil => exact Ends.pure () h
  | cons s ss =>
    exact Ends.bind (H _ _ (.first n s ss m) h) fun _ m₁ hr h₁ => H _ _ (.next hr) h₁

omit L in
theorem closeAbove {base : Option Nat} (h : R m.thread)
    (H : ∀ l c, Enters ⟨n, .job (.closeAbove base), m⟩ l c → R c.machine.thread → c.Ends R) :
    Activation.Ends R ⟨n, .job (.closeAbove base), m⟩ := by
  intro o m' hl
  cases n with
  | zero => cases hl
  | succ n =>
    cases closeAboveEnds_of_leaves hl with
    | torn => exact h
    | done => exact h
    | inner ht hf hb hx => exact H _ _ (.closeInner n ht hf hb) h _ _ (leaves_of_unwound hx)
    | next ht hf hb hc hl =>
      have hclosed := H _ _ (.closeInner n ht hf hb) h _ _ (leaves_of_returned hc)
      exact H _ _ (.closeAboveNext ht hf hb hc) hclosed _ _ hl

omit L in
theorem walk {code : ErrorCode} (h : R m.thread)
    (H : ∀ l c, Enters ⟨n, .job (.walk code), m⟩ l c → R c.machine.thread → c.Ends R) :
    Activation.Ends R ⟨n, .job (.walk code), m⟩ := by
  intro o m' hl
  cases n with
  | zero => cases hl
  | succ n =>
    cases walkEnds_of_leaves hl with
    | torn => exact h
    | outside => exact h
    | marked => exact h
    | passed ht hf hm hx => exact H _ _ (.passed n code ht hf hm) h _ _ (leaves_of_unwound hx)
    | next ht hf hm hc hl =>
      have hclosed := H _ _ (.passed n code ht hf hm) h _ _ (leaves_of_returned hc)
      exact H _ _ (.walkNext ht hf hm hc) hclosed _ _ hl

omit L in
/-- A thread that waits goes on as it was. -/
theorem inThread {α : Type} {body : Effect α} (h : R m.thread) :
    (Effect.inThread (Job.run n) body).Ends R m := by
  intro o m' hl
  obtain rfl := leaves_inThread _ hl
  obtain ⟨_, hl⟩ := returned_of_leaves hl
  obtain ⟨_, _, _, _, rfl⟩ := (inThread_eq_returned _).1 hl
  exact h

omit L in
theorem rethrow (h : R m.thread)
    (H : ∀ l c, Enters ⟨n, .stmt .rethrow, m⟩ l c → R c.machine.thread → c.Ends R) :
    Activation.Ends R ⟨n, .stmt .rethrow, m⟩ := by
  refine Ends.never (.of_run (run_rethrow m) ?_)
  cases he : m.thread.current with
  | none =>
    refine .bind (.note _ h) fun _ _ hr h => ?_
    cases hr
    exact .of_never (H _ _ (.rethrowNone n he) h)
  | some e =>
    show (if m.thread.depth = 0 then Effect.unhandled (Job.run n) else Effect.unwind .rethrown :
      Effect Empty).Ends R m
    split
    · rename_i hd
      exact .of_never (H _ _ (.rethrowOutside n he hd) h)
    · exact .unwind _ h

theorem fault {cause : FaultCause} (h : R m.thread)
    (hP : ∀ v, Activation.Raises ⟨n, .stmt (.fault cause), m⟩ v → P (.of v))
    (H : ∀ l c, Enters ⟨n, .stmt (.fault cause), m⟩ l c → R c.machine.thread → c.Ends R) :
    Activation.Ends R ⟨n, .stmt (.fault cause), m⟩ := by
  intro o m' hl
  obtain ⟨_, hx, -⟩ | ⟨t, hx, rfl⟩ := Leaves.cases hl
  · obtain ⟨-, rfl⟩ | ⟨-, rfl⟩ := returned_meetFault hx <;> exact h
  obtain ⟨deferred, hr, hx⟩ := unwound_meetFault hx
  have hentered : R ((m.trapEntered deferred cause.signal).withCurrent
      (some (.of cause.fault.toValue))).thread :=
    L.same h rfl rfl fun e he => by
      cases he
      exact hP _ (.fault n hr)
  exact H _ _ (.fault n hr) hentered _ _ (leaves_of_unwound (run_never_unwound hx))

theorem throw {v : Value} (h : R m.thread) (hP : P (.of v))
    (H : ∀ l c, Enters ⟨n, .stmt (.throw v), m⟩ l c → R c.machine.thread → c.Ends R) :
    Activation.Ends R ⟨n, .stmt (.throw v), m⟩ := by
  refine Ends.never (.bind (.note _ h) fun _ _ hr h => ?_)
  cases hr
  refine .bind (.modify (L.withCurrent h ?_)) fun _ _ hr h => ?_
  · rintro _ ⟨⟩
    exact hP
  · cases hr
    exact .of_never (H _ _ (.throw n v m) h)

/-- A statement that leaves frames and guards to what it calls. -/
theorem stmt {s : Stmt} (hs : ¬(Task.stmt s).HandlesFrames) (h : R m.thread)
    (hP : ∀ v, Activation.Raises ⟨n, .stmt s, m⟩ v → P (.of v))
    (H : ∀ l c, Enters ⟨n, .stmt s, m⟩ l c → R c.machine.thread → c.Ends R) :
    Activation.Ends R ⟨n, .stmt s, m⟩ := by
  cases s with
  | emit message => exact Ends.note _ h
  | state => exact Ends.note _ h
  | repeated times body =>
    exact Ends.times times h fun j m₁ hj ht h₁ => H _ _ (.repeated hj ht) h₁
  | throw v => exact L.throw h (hP v (.thrown n v m)) H
  | rethrow => exact rethrow h H
  | attempt body clauses => exact L.attempt h H
  | setHook kind hook => exact Ends.modify h
  | setHooks a b c =>
    exact Ends.bind (.modify h) fun _ _ _ h => .bind (.modify h) fun _ _ _ h => .modify h
  | hooks => exact Ends.note _ h
  | panic code =>
    cases code with
    | none => exact Ends.note _ h
    | some code =>
      refine Ends.never (.bind (.note _ h) fun _ _ hr h => ?_)
      cases hr
      refine .bind (H _ _ (.panic n code m) h) fun _ _ _ h => .bind (.note _ h) fun _ m₁ _ h => ?_
      exact .of_run (run_bind_returned (run_machine m₁))
        (.bind (.note _ h) fun _ _ _ h => .bind (.note _ h) fun _ _ _ h => .unwind _ h)
  | exit status => exact Ends.never (.bind (.note _ h) fun _ _ _ h => .unwind _ h)
  | run status body =>
    have hsession := H _ _ (.run n status body m) h
    refine Ends.bind (fun o m' hl => hsession o m' (leaves_discard hl)) fun _ _ _ h => .note _ h
  | spawn status name stackSize body =>
    refine Ends.bind ?_ fun _ _ _ h => .note _ h
    unfold Effect.spawn
    split
    · exact .unwind _ h
    · split
      · exact .pure _ h
      · exact .bind (inThread h) fun _ _ _ h => .pure _ h
  | rawThread status body =>
    refine Ends.bind (.bind (inThread h) fun r _ _ h => ?_) fun _ _ _ h => .note _ h
    split <;> exact .pure _ h
  | foreign message => exact Ends.unwind _ h
  | intercept body =>
    refine Ends.bind (.catchUnwind (H _ _ (.intercept n body m) h)) fun r _ _ h => ?_
    split <;> exact .note _ h
  | exitProcess status => exact fun _ _ hl => (not_leaves_exitProcess _ hl).elim
  | trapFaults enabled =>
    refine Ends.of_run (run_bind_returned (run_setTrapping enabled m)) (.note _ h)
  | signals => exact Ends.note _ h
  | fault cause => exact L.fault h hP H
  | apply settings =>
    cases settings with
    | none => exact Ends.note _ h
    | some settings =>
      refine Ends.of_run (run_bind_returned (run_applySettings settings m)) (.note _ ?_)
      rw [Machine.thread_settingsApplied]
      exact h
  | init settings =>
    cases settings with
    | none => exact Ends.note _ h
    | some settings => exact (hs trivial).elim
  | _ => exact (hs trivial).elim

end

end Effect.Local

/-- What holds at the end of all that is called holds at the end of a piece that leaves frames and
guards to what it calls. -/
theorem Activation.ends_of_calls {P : Exception → Prop} {R : Thread → Prop} (L : Local P R)
    {a : Activation} (hT : ¬a.task.HandlesFrames) (h : R a.machine.thread)
    (hP : ∀ v, a.Raises v → P (.of v))
    (H : ∀ l b, Enters a l b → R b.machine.thread → b.Ends R) : a.Ends R := by
  obtain ⟨n, T, m⟩ := a
  cases T with
  | job j =>
    cases j with
    | block ss => exact (hT trivial).elim
    | close id => exact (hT trivial).elim
    | closeAbove base => exact Local.closeAbove h H
    | walk code => exact Local.walk h H
  | rest ss => exact Local.rest h H
  | stmt s => exact L.stmt hT h hP H
  | drops count => exact (hT trivial).elim
  | session status body => exact (hT trivial).elim
  | dispatch => exact Ends.never (L.dispatch h H)
  | unhandled => exact Ends.never (L.unhandled h H)
  | unexpected => exact Ends.never (L.unexpected h H)

end NonlocalExit
