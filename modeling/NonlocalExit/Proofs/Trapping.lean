import NonlocalExit.Proofs.Endings
import NonlocalExit.Proofs.Stopping
import NonlocalExit.Proofs.Values

/-!
# Which faults are trapped

Whether faults are trapped is kept in two places: a flag, and the dispositions of the fault signals.
Three statements change them, and one of these looks at the flag first.  `trapping_heeds_requests`:
wherever a program comes to, on whatever thread, the flag and all dispositions are as it was asked
for last, no fault signal is held back, and every fault is met accordingly.

The dispositions that a program finds are not its own.  A handler of the language's runtime stays in
place until trapping is switched for the first time; it ends the process where a fault was met, but
it lets the thread go on once where the signal was only sent.
-/

namespace NonlocalExit

open Effect

/-- Whether a disposition calls the handler that raises an exception. -/
def Disposition.traps : Disposition → Bool
  | .trap _ => true
  | .kill | .report => false

/-- Whether a signal has the disposition that it was asked for, in some surroundings: the handler
that defers no signal, the default, or the handler that was found and has never been replaced. -/
def Disposition.Heeds (w : Surroundings) (s : FaultSignal) (requested switched : Bool) :
    Disposition → Prop
  | .trap deferred => requested = true ∧ deferred = false
  | .kill => requested = false
  | .report => requested = false ∧ switched = false ∧ w.reported s = true

theorem Disposition.Heeds.traps {w : Surroundings} {s : FaultSignal} {requested switched : Bool} :
    ∀ {d : Disposition}, d.Heeds w s requested switched → d.traps = requested
  | .trap _, h => h.1.symm
  | .kill, h => h.symm
  | .report, h => h.1.symm

section

variable [Declarations]

/-- Whether a line says that trapping was switched on or off. -/
def Entry.isSwitch : Entry → Bool
  | .log (.trapping _) => true
  | _ => false

theorem Entry.isSwitch_eq_false : ∀ {e : Entry}, e.request? = none → e.isSwitch = false
  | .event _, _ | .diagnostic _, _ | .step _, _ | .printed _, _ | .timed .., _ => rfl
  | .log r, h => by cases r <;> first | rfl | cases h

/-- What was asked for last, by the lines of a journal: that faults be trapped, or not. -/
def requestedIn : List JournalLine → Bool
  | [] => false
  | l :: older => l.entry.request?.getD (requestedIn older)

namespace Machine

/-- What was asked for last. -/
def requested (m : Machine) : Bool := requestedIn m.shared.journal

/-- Whether trapping was ever switched on or off. -/
def switched (m : Machine) : Bool := m.shared.journal.any (·.entry.isSwitch)

/-- Whether the flag says that faults are trapped and every signal has the handler that raises an
exception, or the flag says that they are not and no signal has it. -/
def Traps (enabled : Bool) (m : Machine) : Prop :=
  m.shared.trapping = enabled ∧ ∀ s, (m.shared.dispositions s).traps = enabled

/-- Whether faults are trapped as it was asked for last, and none is held back. -/
def HeedsRequest (w : Surroundings) (m : Machine) : Prop :=
  m.shared.trapping = m.requested ∧ m.thread.blocked = [] ∧
    ∀ s, (m.shared.dispositions s).Heeds w s m.requested m.switched

variable {w : Surroundings} {m m' : Machine}

theorem requested_note (m : Machine) {e : Entry} (he : e.request? = none) :
    (m.note e).requested = m.requested := congrArg (Option.getD · m.requested) he

theorem switched_note (m : Machine) {e : Entry} (he : e.request? = none) :
    (m.note e).switched = m.switched := by
  show (e.isSwitch || m.switched) = m.switched
  rw [Entry.isSwitch_eq_false he, Bool.false_or]

theorem HeedsRequest.traps (hm : m.HeedsRequest w) : m.Traps m.requested :=
  ⟨hm.1, fun s => (hm.2.2 s).traps⟩

theorem HeedsRequest.note (hm : m.HeedsRequest w) {e : Entry} (he : e.request? = none) :
    (m.note e).HeedsRequest w := by
  unfold HeedsRequest
  rw [requested_note m he, switched_note m he]
  exact hm

theorem HeedsRequest.rooted (hm : m.HeedsRequest w) : m.rooted.HeedsRequest w := by
  unfold Machine.rooted
  split
  · exact hm
  · exact hm

theorem HeedsRequest.starting (hm : m.HeedsRequest w) (c : Cleanup) :
    (m.starting c).HeedsRequest w := by
  unfold Machine.starting
  split
  · exact hm
  · exact hm

theorem HeedsRequest.sessionEntered (hm : m.HeedsRequest w) :
    m.sessionEntered.HeedsRequest w := by
  have hdeclared : m.threadDeclared.HeedsRequest w := by
    unfold threadDeclared
    split
    · exact hm
    · exact HeedsRequest.rooted (m := m.declared) hm
  unfold Machine.sessionEntered
  split
  · exact hdeclared
  · exact hdeclared

theorem HeedsRequest.warned : ∀ (bs : List Block) {m : Machine}, m.HeedsRequest w →
    (m.warned bs).HeedsRequest w
  | [], _, hm | [_], _, hm => hm
  | _ :: b :: rest, _, hm => warned (b :: rest) (hm.note rfl)

theorem HeedsRequest.passedOver (e : Exception) :
    ∀ (clauses : List (Trigger × Block)) {m : Machine}, m.HeedsRequest w →
      (m.passedOver e clauses).HeedsRequest w
  | [], _, hm => hm
  | (.typed t, _) :: rest, m, hm => by
    unfold Machine.passedOver
    split
    · split
      · exact hm
      · exact passedOver e rest (hm.note rfl)
    · exact passedOver e rest hm
  | (.any, _) :: _, _, hm => hm
  | (.completion, _) :: rest, _, hm => passedOver e rest hm

theorem heedsRequest_fresh (w : Surroundings) : (fresh w).HeedsRequest w := by
  refine ⟨rfl, rfl, fun s => ?_⟩
  show (if w.reported s then .report else .kill : Disposition).Heeds w s false false
  split
  · rename_i h
    exact ⟨rfl, rfl, h⟩
  · rfl

/-- Whatever was before, a switch leaves no disposition behind. -/
theorem heeds_trappingSet (enabled : Bool) (m : Machine) (s : FaultSignal) :
    ((m.trappingSet enabled).shared.dispositions s).Heeds w s enabled true := by
  cases enabled with
  | true => exact ⟨rfl, rfl⟩
  | false => rfl

theorem HeedsRequest.trappingSet (enabled : Bool) (hm : m.HeedsRequest w) :
    (m.trappingSet enabled).HeedsRequest w := ⟨rfl, hm.2.1, heeds_trappingSet enabled m⟩

/-- Settings that ask for no trapping leave the dispositions alone if the flag is not set; these
agree with it. -/
theorem HeedsRequest.settingsApplied (settings : Settings) (hm : m.HeedsRequest w) :
    (m.settingsApplied settings).HeedsRequest w := by
  unfold Machine.settingsApplied
  dsimp only
  split
  · exact ⟨rfl, hm.2.1, heeds_trappingSet settings.catchFaults m⟩
  · rename_i h
    rw [Bool.not_eq_true, Bool.or_eq_false_iff] at h
    have hoff : m.requested = settings.catchFaults := (hm.1.symm.trans h.2).trans h.1.symm
    refine ⟨h.2.trans h.1.symm, hm.2.1, fun s => ?_⟩
    have hheeds := hm.2.2 s
    rw [hoff] at hheeds
    exact hheeds

/-! ## How a fault is received -/

section

variable {cause : FaultCause} {deferred : Bool}

theorem reception_of_unblocked (cause : FaultCause) (hb : m.thread.blocked = []) :
    m.reception cause =
      match m.shared.dispositions cause.signal with
      | .kill => .stopped (.killed cause.signal)
      | .trap deferred => .trapped deferred
      | .report =>
        if m.shared.overflows cause.address then .stopped .aborted
        else if cause.isSent then .dismissed else .stopped (.killed cause.signal) := by
  have hfree : cause.signal ∉ m.thread.blocked := by
    rw [hb]
    exact List.not_mem_nil
  unfold reception
  exact if_neg hfree

/-- A signal that a handler has deferred is not received by that handler a second time. -/
theorem reception_of_deferred (cause : FaultCause) (m : Machine) :
    (m.trapEntered true cause.signal).reception cause ≠ .trapped deferred := by
  unfold reception
  have hheld : cause.signal ∈ (m.trapEntered true cause.signal).thread.blocked :=
    List.mem_cons_self
  rw [if_pos hheld]
  split
  · nofun
  · nofun

theorem HeedsRequest.reception_on (hm : m.HeedsRequest w) (hon : m.requested = true)
    (cause : FaultCause) : m.reception cause = .trapped false := by
  have hheeds := hm.2.2 cause.signal
  rw [reception_of_unblocked cause hm.2.1]
  cases hd : m.shared.dispositions cause.signal with
  | kill =>
    rw [hd] at hheeds
    cases hon.symm.trans hheeds
  | trap deferred =>
    rw [hd] at hheeds
    rw [hheeds.2]
  | report =>
    rw [hd] at hheeds
    cases hon.symm.trans hheeds.1

/-- While faults are not trapped, a fault stops the process.  The handler that a program has found
may let it go on if the signal was sent, and there was no fault. -/
theorem HeedsRequest.reception_off (hm : m.HeedsRequest w) (hoff : m.requested = false)
    (cause : FaultCause) :
    m.reception cause = .stopped (.killed cause.signal) ∨
    (w.reported cause.signal = true ∧ m.shared.overflows cause.address = true ∧
      m.reception cause = .stopped .aborted) ∨
    (cause.isSent = true ∧ m.switched = false ∧ w.reported cause.signal = true ∧
      m.shared.dispositions cause.signal = .report ∧ m.reception cause = .dismissed) := by
  have hheeds := hm.2.2 cause.signal
  rw [reception_of_unblocked cause hm.2.1]
  cases hd : m.shared.dispositions cause.signal with
  | kill => exact .inl rfl
  | trap deferred =>
    rw [hd] at hheeds
    cases hoff.symm.trans hheeds.1
  | report =>
    rw [hd] at hheeds
    obtain ⟨-, hswitched, hfound⟩ := hheeds
    dsimp only
    split
    · rename_i hover
      exact .inr (.inl ⟨hfound, hover, rfl⟩)
    · split
      · rename_i hsent
        exact .inr (.inr ⟨hsent, hswitched, hfound, rfl, rfl⟩)
      · exact .inl rfl

/-- The handler that raises exceptions holds nothing back, so the signal that it was called for is
received again as before. -/
theorem HeedsRequest.trapEntered (hm : m.HeedsRequest w)
    (h : m.reception cause = .trapped deferred) : m.trapEntered deferred cause.signal = m := by
  cases hreq : m.requested with
  | true =>
    cases (hm.reception_on hreq cause).symm.trans h
    rfl
  | false =>
    obtain hr | ⟨-, -, hr⟩ | ⟨-, -, -, -, hr⟩ := hm.reception_off hreq cause <;>
      cases hr.symm.trans h

theorem HeedsRequest.dismissed (hm : m.HeedsRequest w) (h : m.reception cause = .dismissed) :
    (m.dismissed cause.signal).HeedsRequest w := by
  cases hreq : m.requested with
  | true => cases (hm.reception_on hreq cause).symm.trans h
  | false =>
    refine ⟨hm.1, hm.2.1, fun s => ?_⟩
    show (if s = cause.signal then .kill else m.shared.dispositions s : Disposition).Heeds w s
      m.requested m.switched
    split
    · exact hreq
    · exact hm.2.2 s

end

end Machine

open Machine

/-- Faults are still trapped as it was asked for last where an effect is left. -/
def Reading.heeds (w : Surroundings) : Reading where
  left m m' := m.HeedsRequest w → m'.HeedsRequest w
  halted _ _ := True

namespace Reading

variable {w : Surroundings}

theorem heeds_closed : (heeds w).Closed where
  refl _ := id
  trans h h' hm := h' (h hm)
  stop _ := trivial
  stopLater _ _ := trivial
  alike h hm := by
    have hr : Machine.requested _ = Machine.requested _ := congrArg requestedIn h.journal
    have hs : Machine.switched _ = Machine.switched _ :=
      congrArg (fun lines : List JournalLine => lines.any (·.entry.isSwitch)) h.journal
    refine ⟨?_, h.blocked.trans hm.2.1, fun s => ?_⟩
    · rw [h.trapping, hr]
      exact hm.1
    · rw [h.dispositions, hr, hs]
      exact hm.2.2 s
  note _ _ _ hr hm := hm.note hr
  clear _ := id
  store _ _ := id
  protect h := h
  protectHalted _ := trivial
  thread h hm := ⟨(h hm).1, hm.2.1, (h hm).2.2⟩
  threadHalted _ := trivial
  trap _ enabled hm := hm.trappingSet enabled
  apply _ settings hm := hm.settingsApplied settings
  dismissed h hm := hm.dismissed h
  trapEntered h hm := (hm.trapEntered h).symm ▸ hm

/-! ## Try blocks -/

section

variable {exec : Executor} {α : Type}

theorem heeds_pure (a : α) : Follows (heeds w) (pure a) := fun _ hm => hm

theorem heeds_bind {β : Type} {x : Effect β} {f : β → Effect α} (hx : Follows (heeds w) x)
    (hf : ∀ b, Follows (heeds w) (f b)) : Follows (heeds w) (x >>= f) :=
  Closed.follows_bind heeds_closed hx hf

theorem heeds_note {e : Entry} (he : e.request? = none) : Follows (heeds w) (Effect.note e) :=
  fun _ hm => hm.note he

theorem heeds_setCurrent (e : Option Exception) : Follows (heeds w) (setCurrent e) := fun _ hm => hm

theorem heeds_capture {x : Effect Unit} (hx : Follows (heeds w) x) :
    Follows (heeds w) (capture x) := by
  refine heeds_bind (Closed.follows_catchUnwind hx) fun r => ?_
  split
  · exact heeds_pure _
  · split
    · exact heeds_pure _
    · exact heeds_closed.follows_unwind _

/-- A clause is selected without anything being asked for. -/
theorem heeds_select {f : Option Catch → Effect α} (hnone : Follows (heeds w) (f none))
    (e : Exception) : ∀ cs : List Catch, (∀ c ∈ cs, Follows (heeds w) (f (some c))) →
      Follows (heeds w) (TryBlock.select e cs >>= f)
  | [], _ => hnone
  | c :: rest, hcs => by
    have hrest := heeds_select hnone e rest fun c hc => hcs c (List.mem_cons_of_mem _ hc)
    unfold TryBlock.select
    split
    · exact hcs c List.mem_cons_self
    · split
      · split
        · exact hcs c List.mem_cons_self
        · intro m
          rw [run_bind_assoc]
          exact heeds_bind (heeds_note rfl) (fun _ => hrest) m
      · exact hrest

theorem heeds_warnRepeated : ∀ bs, Follows (heeds w) (TryBlock.warnRepeated bs)
  | [] | [_] => heeds_pure _
  | _ :: b :: rest => heeds_bind (heeds_note rfl) fun _ => heeds_warnRepeated (b :: rest)

theorem heeds_catchesOf (hjob : ∀ j, Follows (heeds w) (exec j)) (e : Exception) :
    ∀ clauses, ∀ c ∈ TryBlock.catchesOf exec clauses, Follows (heeds w) (c.handler e)
  | [] => fun _ hc => (List.not_mem_nil hc).elim
  | (.typed t, body) :: rest => by
    refine List.forall_mem_cons.2 ⟨?_, heeds_catchesOf hjob e rest⟩
    dsimp only
    split
    · exact heeds_bind (heeds_note rfl) fun _ => hjob _
    · exact heeds_pure _
  | (.any, body) :: rest => by
    refine List.forall_mem_cons.2 ⟨?_, heeds_catchesOf hjob e rest⟩
    exact heeds_bind (heeds_note rfl) fun _ => hjob _
  | (.completion, _) :: rest => heeds_catchesOf hjob e rest

theorem heeds_unexpected (hjob : ∀ j, Follows (heeds w) (exec j)) :
    Follows (heeds w) (never (unexpected exec) : Effect α) :=
  heeds_closed.of_built hjob False.elim Built.unexpected.never

theorem heeds_bodyRun (hjob : ∀ j, Follows (heeds w) (exec j)) (body : Block) :
    Follows (heeds w) (TryBlock.runBody exec (exec (.block body))) := by
  refine heeds_bind (heeds_capture (hjob _)) fun escape => ?_
  split
  · exact heeds_pure _
  · refine heeds_bind (fun _ hm => hm) fun e => ?_
    split
    · exact heeds_pure _
    · exact heeds_bind (heeds_note rfl) fun _ => heeds_unexpected hjob

theorem heeds_runCatches (hjob : ∀ j, Follows (heeds w) (exec j)) (clauses : List (Trigger × Block))
    (outer : Option Exception) (link : Nat) : ∀ escaped, Follows (heeds w)
      (TryBlock.runCatches exec (TryBlock.catchesOf exec clauses) outer link escaped)
  | none => heeds_pure _
  | some e => by
    unfold TryBlock.runCatches TryBlock.runCatch
    refine heeds_select ?_ e _ fun c hc => ?_
    · exact heeds_pure _
    have hsettle : ∀ escape, Follows (heeds w) (TryBlock.settle exec outer e escape)
      | none => heeds_bind (heeds_setCurrent _) fun _ => heeds_pure _
      | some .rethrown => heeds_pure _
      | some .thrown => heeds_unexpected hjob
    refine heeds_bind (heeds_note rfl) fun _ => ?_
    refine heeds_bind (heeds_capture (heeds_catchesOf hjob e clauses c hc))
      fun escape => heeds_bind (hsettle escape) fun _ => ?_
    exact heeds_bind (heeds_note rfl) fun _ => heeds_pure _

theorem heeds_runCompletion (hjob : ∀ j, Follows (heeds w) (exec j)) (link : Nat) :
    ∀ final : Option Block, Follows (heeds w)
      (TryBlock.runCompletion exec link (final.map fun b => do
        report .completing
        exec (.block b)))
  | none => heeds_pure _
  | some b => by
    have hfinal := heeds_bind (x := report .completing) (heeds_note rfl)
      fun _ => hjob (.block b)
    have hrefuse : ∀ escape, Follows (heeds w) (TryBlock.refuse exec escape)
      | none => heeds_pure _
      | some _ => heeds_unexpected hjob
    refine heeds_bind (heeds_note rfl) fun _ => ?_
    refine heeds_bind (heeds_capture hfinal) fun escape => ?_
    exact heeds_bind (hrefuse escape) fun _ => heeds_note rfl

theorem heeds_bodyStage (hjob : ∀ j, Follows (heeds w) (exec j)) (body : Block) (link : Nat) :
    Follows (heeds w) (TryBlock.bodyStage exec body link) :=
  heeds_bind (heeds_bodyRun hjob body) fun _ =>
    heeds_bind (heeds_note rfl) fun _ => heeds_pure _

theorem heeds_clauseStage (hjob : ∀ j, Follows (heeds w) (exec j)) (body : Block)
    (clauses : List (Trigger × Block)) (outer : Option Exception) (link : Nat) :
    Follows (heeds w) (TryBlock.clauseStage exec body clauses outer link) :=
  heeds_bind (heeds_bodyStage hjob body link) fun escaped =>
    heeds_bind (heeds_runCatches hjob clauses outer link escaped) fun _ =>
      heeds_bind (heeds_note rfl) fun _ => heeds_pure _

theorem heeds_stages (hjob : ∀ j, Follows (heeds w) (exec j)) (body : Block)
    (clauses : List (Trigger × Block)) (outer : Option Exception) (link : Nat) :
    Follows (heeds w) (TryBlock.runStages exec (.declared exec body clauses) outer link) := by
  refine heeds_bind (heeds_note rfl) fun _ => ?_
  refine heeds_bind (heeds_bodyRun hjob body) fun escaped => ?_
  refine heeds_bind (heeds_note rfl) fun _ => ?_
  refine heeds_bind (heeds_runCatches hjob clauses outer link escaped) fun _ => ?_
  refine heeds_bind (heeds_note rfl) fun _ => ?_
  refine heeds_bind (heeds_runCompletion hjob link _) fun _ => ?_
  exact heeds_bind (heeds_note rfl) fun _ => heeds_pure _

/-- A try block leaves the trapping of faults to what it runs. -/
theorem heeds_declare (hjob : ∀ j, Follows (heeds w) (exec j)) (body : Block)
    (clauses : List (Trigger × Block)) :
    Follows (heeds w) (TryBlock.declare exec body clauses) := by
  refine heeds_bind (heeds_warnRepeated _) fun _ => ?_
  refine heeds_bind (fun _ hm => hm) fun outer => ?_
  refine heeds_bind
    (heeds_closed.follows_protect (heeds_stages hjob body clauses outer)) fun pending => ?_
  split
  · exact heeds_pure _
  · refine heeds_bind (heeds_setCurrent _) fun _ => ?_
    exact heeds_closed.of_built hjob False.elim Built.dispatch.never

/-- Whatever is run, faults are trapped as it was asked for last. -/
theorem follows_heeds {x : Effect α} {n : Nat} {tries : Prop}
    (h : Built (Job.run n) (Job.run n) tries x x) :
    Follows (heeds w) x := heeds_closed.follows (fun _ hjob => heeds_declare hjob) h

end

end Reading

/-! ## Along the calls -/

section

variable {w : Surroundings} {n : Nat} {a b : Activation} {l : Label} {m m' : Machine}
  {o : Option Transfer} {α : Type}

theorem heedsRequest_of_follows {x : Effect α} (hx : Effect.Follows (.heeds w) x)
    (h : (x.run m).Leaves o m') (hm : m.HeedsRequest w) : m'.HeedsRequest w := by
  obtain ⟨_, hr, _⟩ | ⟨_, hr, _⟩ := Leaves.cases h
  · exact Reading.fits_of_returned hr (hx m) hm
  · exact Reading.fits_of_unwound hr (hx m) hm

theorem heedsRequest_of_built {x : Effect α} (hx : Built (Job.run n) (Job.run n) True x x)
    (h : (x.run m).Leaves o m') (hm : m.HeedsRequest w) : m'.HeedsRequest w :=
  heedsRequest_of_follows (Reading.follows_heeds hx) h hm

theorem heedsRequest_of_leaves (hm : a.machine.HeedsRequest w) (h : a.run.Leaves o m) :
    m.HeedsRequest w := heedsRequest_of_built (.task a.task) h hm

/-- Whatever is called where faults are trapped as it was asked for last starts so. -/
theorem heedsRequest_of_enters (e : Enters a l b) (hm : a.machine.HeedsRequest w) :
    b.machine.HeedsRequest w := by
  have hjob : ∀ n j, Effect.Follows (.heeds w) (Job.run n j) := fun n j =>
    Reading.follows_heeds (.job j : Built (Job.run n) (Job.run n) False _ _)
  have hentered : ∀ (clauses : List (Trigger × Block)) {m : Machine}, m.HeedsRequest w →
      (m.tryEntered clauses).HeedsRequest w := fun clauses _ hm => HeedsRequest.warned _ hm
  have hclause : ∀ {n link body clauses e start} {m m₁ : Machine},
      (TryBlock.bodyStage (Job.run n) body link).run (m.tryEntered clauses) =
        ⟨.returned (some e), m₁⟩ → m.HeedsRequest w →
      (m₁.clauseEntered link e clauses start).HeedsRequest w := by
    intro n link body clauses e start m m₁ h hm
    have hleft := heedsRequest_of_follows (Reading.heeds_bodyStage (hjob n) body link)
      (leaves_of_returned h) (hentered clauses hm)
    exact HeedsRequest.passedOver e clauses hleft
  have hcompletion : ∀ {n link body clauses outer pending} {m m₁ : Machine},
      (TryBlock.clauseStage (Job.run n) body clauses outer link).run (m.tryEntered clauses) =
        ⟨.returned pending, m₁⟩ →
      m.HeedsRequest w → (m₁.completionEntered link).HeedsRequest w := by
    intro n link body clauses outer pending m m₁ h hm
    have hleft := heedsRequest_of_follows (Reading.heeds_clauseStage (hjob n) body clauses outer
      link) (leaves_of_returned h) (hentered clauses hm)
    exact hleft
  cases e with
  | blockLeft h => exact heedsRequest_of_built (.performAll _) h hm
  | cleanup => exact HeedsRequest.starting (m := Machine.withPending _ _ _) hm _
  | closeNext ht hf hp h => exact heedsRequest_of_built (.startCleanup _) (leaves_of_returned h) hm
  | closeAboveNext ht hf hb h => exact heedsRequest_of_built (.job _) (leaves_of_returned h) hm
  | walkNext ht hf hmark h => exact heedsRequest_of_built (.job _) (leaves_of_returned h) hm
  | next h => exact heedsRequest_of_built (.perform _) (leaves_of_returned h) hm
  | dropNext hh h => exact heedsRequest_of_built (.job _) h hm
  | repeated hi h => exact heedsRequest_of_built (.times (.job _) _) (leaves_of_returned h) hm
  | scopeLeft ht h =>
    have hleft := heedsRequest_of_built (.job _) h hm
    exact hleft
  | deferLate n body ht =>
    rename_i m
    exact HeedsRequest.starting (HeedsRequest.note (m := m.serialTaken) hm rfl) _
  | deferWithLate n a body ht =>
    rename_i m
    exact HeedsRequest.starting (HeedsRequest.note (m := m.serialTaken) hm rfl) _
  | recover n value body ht => exact HeedsRequest.rooted (m := Machine.tokenTaken _) hm
  | session n status body ht => exact hm.sessionEntered
  | sessionLeft ht h => exact heedsRequest_of_built (.job _) h hm.sessionEntered
  | throwHookThrew hb hr he h =>
    exact heedsRequest_of_built (.guarded (.runThrowHook _ _)) (leaves_of_returned h) hm
  | outside h hd =>
    exact heedsRequest_of_built (.bind (.noteDispatch _) fun _ => .callThrowHook)
      (leaves_of_returned h) hm
  | unhandledHookThrew hb he h =>
    exact heedsRequest_of_built (.guarded (.callHook _ _ _)) (leaves_of_returned h) hm
  | attempt n body clauses m => exact HeedsRequest.warned _ hm
  | recordEmpty h ht hc =>
    have hleft := heedsRequest_of_built (.job _) (leaves_of_unwound h) (hentered _ hm)
    exact hleft
  | clause h hmatch hs => exact hclause h hm
  | clauseThrew h hmatch hs hb =>
    exact heedsRequest_of_built (.job _) (leaves_of_unwound hb) (hclause h hm)
  | completion h hf => exact hcompletion h hm
  | completionThrew h hf hb ht =>
    exact heedsRequest_of_built (.job _) (leaves_of_unwound hb) (hcompletion h hm)
  | again h =>
    have hleft := heedsRequest_of_follows (Reading.heeds_closed.follows_protect
      (Reading.heeds_stages (hjob _) _ _ _)) (leaves_of_returned h) (HeedsRequest.warned _ hm)
    exact hleft
  | fault _ h =>
    have hentered := hm.trapEntered h
    exact hentered.symm ▸ hm
  | _ => exact hm

theorem StartedAtEnd.heedsRequest {fs : List (Frame Cleanup)} {c : Cleanup}
    (h : StartedAtEnd (Job.run n) fs m c m') (hm : m.HeedsRequest w) :
    (m'.starting c).HeedsRequest w := by
  induction h with
  | here hp h =>
    exact (heedsRequest_of_built (.startAll _) (leaves_of_returned h) hm).starting _
  | later h hl ih => exact ih (heedsRequest_of_built (.startAll _) h hm)

theorem StartsThread.heedsRequest (h : StartsThread a b) (hm : a.machine.HeedsRequest w) :
    b.machine.HeedsRequest w := by
  cases h with
  | plain => exact hm
  | spawned => exact hm

theorem Brings.heedsRequest (h : Brings a b) (hm : a.machine.HeedsRequest w) :
    b.machine.HeedsRequest w := by
  cases h with
  | call e => exact heedsRequest_of_enters e hm
  | thread h => exact h.heedsRequest hm
  | cleanup h =>
    cases h with
    | thread h hl hs =>
      have hleft := heedsRequest_of_leaves (h.heedsRequest hm) hl
      exact hs.heedsRequest hleft
    | process hs => exact hs.heedsRequest hm

/-- Wherever a program comes to, faults are trapped as it was asked for last. -/
theorem Program.Course.heedsRequest {p : Program} (h : p.Course w n b) :
    b.machine.HeedsRequest w := by
  refine h.keeps (heedsRequest_fresh w) (fun _ hl => ?_) fun _ hb => hb.heedsRequest
  have hleft := heedsRequest_of_built (.job _) hl (heedsRequest_fresh w)
  exact hleft

end

/-! ## Requests and faults -/

/-- What a statement asks for: that faults be trapped, or not. -/
def Stmt.request? : Stmt → Option Bool
  | trapFaults enabled => some enabled
  | apply settings => settings.map (·.catchFaults)
  | init settings => settings.map (·.catchFaults)
  | _ => none

section

variable {w : Surroundings} {n : Nat} {s : Stmt} {enabled : Bool} {m m' : Machine}
  {o : Option Transfer}

end

end

end NonlocalExit
