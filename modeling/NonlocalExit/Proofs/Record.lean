import NonlocalExit.Proofs.Origins
import NonlocalExit.Proofs.Stacks

/-!
# The exception in flight

Whether the record of a thread is put back depends on where unwinds are stopped.  A call of
`recover` or `run` stops an unwind without a look at the record, so the record is afterwards as it
was where that unwind started.  Where that is the same as at the entry, `Activation.IsFaithful`,
whatever returns leaves the record as it found it, and an unwind carries it unchanged to where it
is stopped: `record_of_faithful`.
-/

namespace NonlocalExit

open Effect

section

variable [Declarations]

namespace Activation

/-- The record with which an unwind starts.  An exception that is given up is cleared first. -/
def recordRaised (b : Activation) : Option Exception :=
  match b.task with
  | .unhandled | .unexpected => none
  | _ => b.machine.thread.current

/-- Whether a piece that returns leaves the record as it found it. -/
def KeepsRecord (a : Activation) : Prop :=
  ∀ m, a.run = ⟨.returned (), m⟩ → m.thread.current = a.machine.thread.current

/-- Whether unwinds leave a piece with the record with which they were started. -/
def CarriesRecord (a : Activation) : Prop :=
  ∀ t b m, Origin t b a m → m.thread.current = b.recordRaised

end Activation

/-- Whether the unwind is stopped there, for good. -/
def Label.Stops (t : Transfer) : Label → Prop
  | recover r _ _ => ∃ code, t = .panicking code r.token
  | session _ _ => ∃ status, t = .threadExit status
  | _ => False

/-- Whether a piece is not part of sending an exception on its way. -/
def Task.IsQuiet : Task → Prop
  | .dispatch | .unhandled | .unexpected => False
  | _ => True

/-- Whether no exception is handled at a call, and no unwind is under way. -/
def Label.IsQuiet : Label → Prop
  | clause _ | hook .. | unwinding => False
  | _ => True

/-- Whether, in the course of a piece, nothing stops every unwind, and every call of `recover` and
`run` that stops one finds the record of its entry where the unwind started. -/
structure Activation.IsFaithful (a : Activation) : Prop where
  uncaught : ∀ K x l y, Path a K x → Enters x l y → l ≠ .foreign
  kept : ∀ K x l y t b m, Path a K x → Enters x l y → l.Stops t → Origin t b y m →
    b.recordRaised = y.machine.thread.current

theorem Activation.IsFaithful.call {a b : Activation} {l : Label} (h : a.IsFaithful)
    (e : Enters a l b) : b.IsFaithful :=
  ⟨fun _ x l y hp => h.uncaught _ x l y (Path.here.join e hp),
    fun _ x l y t o m hp => h.kept _ x l y t o m (Path.here.join e hp)⟩

theorem Machine.current_tryEntered (clauses : List (Trigger × Block)) (m : Machine) :
    (m.tryEntered clauses).thread.current = m.thread.current := by
  show (m.warned (TryBlock.completionsOf clauses)).thread.current = m.thread.current
  rw [TryBlock.thread_warned]

/-! ## Unwinds carry the record -/

section

variable {n : Nat} {m m' : Machine} {a x : Activation} {l : Label} {t : Transfer}

/-- Where closing frames keeps the record, what is run on exit does. -/
theorem current_of_closing (hy : ∀ y, l.closing? n m = some y → y.KeepsRecord)
    (h : (l.exit (Job.run n)).run m = ⟨.returned (), m'⟩) :
    m'.thread.current = m.thread.current := by
  cases l with
  | block =>
    obtain ⟨m₁, hd, hp⟩ := returned_onExit h
    have hkept := hy _ rfl _ hd
    cases hp
    exact hkept
  | dropping count => exact hy _ rfl _ h
  | scope id => exact hy _ rfl _ h
  | recover r previous outer =>
    rw [show (Label.recover r previous outer).exit (Job.run n) =
      endRecovery r.frame previous outer from rfl, run_endRecovery] at h
    split at h <;> cases h
    rfl
  | session base owner =>
    obtain ⟨_, m₁, hc, hs⟩ := returned_bind h
    have hkept := hy _ rfl _ hc
    unfold closeSession at hs
    split at hs <;> cases hs <;> exact hkept
  | hook kind link => cases kind <;> cases h <;> rfl
  | _ => cases h; rfl

/-- What is closed at a call is closed in its course. -/
theorem enters_closing {y : Activation} (e : Enters a l x) (hx : x.run = ⟨.unwound t, m⟩)
    (hy : l.closing? x.fuel m = some y) : ∃ l', Enters a l' y := by
  have hl := leaves_of_unwound hx
  cases e with
  | block n ss m₀ => cases hy; exact ⟨_, .blockLeft hl⟩
  | drop n count hh => cases hy; exact ⟨_, .dropNext hh hl⟩
  | scope n body ht => cases hy; exact ⟨_, .scopeLeft ht hl⟩
  | session n status body ht => cases hy; exact ⟨_, .sessionLeft ht hl⟩
  | blockLeft | dropNext | scopeLeft => cases ‹Option Transfer› <;> cases hy
  | _ => cases hy

/-- What is run on exit, while an unwind is under way, leaves the record as it is. -/
theorem current_of_exit (e : Enters a l x) (hK : ∀ l y, Enters a l y → y.KeepsRecord)
    (hx : x.run = ⟨.unwound t, m⟩)
    (hexit : (l.exit (Job.run x.fuel)).run m = ⟨.returned (), m'⟩) :
    m'.thread.current = m.thread.current :=
  current_of_closing (fun _ hy => (enters_closing e hx hy).elim fun _ he => hK _ _ he) hexit

/-- An unwind starts with the record of the piece that starts it, or with none. -/
theorem current_of_raises (h : Raises a t m) (hK : ∀ l y, Enters a l y → y.KeepsRecord) :
    m.thread.current = a.recordRaised := by
  cases h with
  | thrown h hd =>
    obtain h | ⟨b, e, m₁, hb, hr, he, hx, hcur⟩ := returned_callThrowHook h
    · exact h
    · exact hcur.trans (hK _ _ (.throwHook _ hb hr he) _ hx)
  | panicked h =>
    have hkept := hK _ _ (.panic _ _ _) _ h
    exact hkept
  | _ => rfl

theorem carriesRecord_of_calls (hK : ∀ l y, Enters a l y → y.KeepsRecord)
    (hC : ∀ l y, Enters a l y → y.CarriesRecord) : a.CarriesRecord := by
  intro t b m h
  cases h with
  | here h => exact current_of_raises h hK
  | through e h hp hx => exact (current_of_exit e hK h.unwound hx).trans (hC _ _ e _ _ _ h)

/-! ## Pieces that return -/

theorem keepsRecord_repeated {times : Nat} {body : Block}
    (hK : ∀ l y, Enters ⟨n, .stmt (.repeated times body), m⟩ l y → y.KeepsRecord) :
    ∀ {i : Nat} {m' : Machine}, i ≤ times →
      (Effect.times (Job.run n (.block body)) i).run m = ⟨.returned (), m'⟩ →
        m'.thread.current = m.thread.current
  | 0, _, _, h => by cases h; rfl
  | i + 1, m', hi, h => by
    rw [run_times_append] at h
    obtain ⟨_, m₁, ht, hx⟩ := returned_bind h
    obtain ⟨_, _, hx, hr⟩ := returned_bind (f := fun _ => pure ()) hx
    cases hr
    have hlast := hK _ _ (.repeated (Nat.lt_of_succ_le hi) ht) _ hx
    exact hlast.trans (keepsRecord_repeated hK (Nat.le_of_succ_le hi) ht)

/-- A call at which no exception is on its way finds the record of the piece that makes it, if what
that piece has called before has returned. -/
theorem current_of_call (hK : ∀ l y, Enters a l y → y.KeepsRecord) (e : Enters a l x)
    (hl : l.IsQuiet) (ht : x.task.IsQuiet)
    (hs : ∀ status body, a.task = .session status body → l ≠ .plain) :
    x.machine.thread.current = a.machine.thread.current := by
  cases e with
  | blockLeft h =>
    rename_i n ss o m m₁
    cases o with
    | none =>
      obtain ⟨_, h⟩ := returned_of_leaves h
      exact hK _ _ (.block n ss m) _ h
    | some t => exact hl.elim
  | dropNext hh h =>
    rename_i n count g own outer o m m₁
    cases o with
    | none =>
      obtain ⟨_, h⟩ := returned_of_leaves h
      exact hK _ _ (.drop n count hh) _ h
    | some t => exact hl.elim
  | scopeLeft htorn h =>
    rename_i n body o m m₁
    cases o with
    | none =>
      obtain ⟨_, h⟩ := returned_of_leaves h
      have hkept := hK _ _ (.scope n body htorn) _ h
      exact hkept
    | some t => exact hl.elim
  | cleanup n htorn hf hp => exact Machine.current_starting _ _
  | closeNext htorn hf hp h =>
    rw [run_startCleanup] at h
    exact (hK _ _ (.cleanup _ htorn hf hp) _ h).trans (Machine.current_starting _ _)
  | closeAboveNext htorn hf hb h => exact hK _ _ (.closeInner _ htorn hf hb) _ h
  | walkNext htorn hf hm h => exact hK _ _ (.passed _ _ htorn hf hm) _ h
  | next h => exact hK _ _ (.first _ _ _ _) _ h
  | repeated hi h => exact keepsRecord_repeated hK (Nat.le_of_lt hi) h
  | deferLate n body htorn => exact Machine.current_starting _ _
  | deferWithLate n arg body htorn => exact Machine.current_starting _ _
  | recover n value body htorn => exact Machine.current_recoveryEntered _
  | session n status body htorn => exact Machine.current_sessionEntered _
  | sessionLeft => exact (hs _ _ rfl rfl).elim
  | attempt n body clauses m => exact m.current_tryEntered clauses
  | block => rfl
  | closeInner => rfl
  | passed => rfl
  | first => rfl
  | drop => rfl
  | scope => rfl
  | leave => rfl
  | run => rfl
  | intercept => rfl
  | panic => rfl
  | clause => exact hl.elim
  | completion => exact hl.elim
  | throwHook => exact hl.elim
  | unhandledHook => exact hl.elim
  | unexpectedHook => exact hl.elim
  | _ => exact ht.elim

/-- A piece that returns with the last thing that it has called leaves the record as it found it. -/
theorem current_of_last (hK : ∀ l y, Enters a l y → y.KeepsRecord) (e : Enters a l x)
    (hl : l.IsQuiet) (ht : x.task.IsQuiet) (hs : ∀ status body, a.task ≠ .session status body)
    (h : x.run = ⟨.returned (), m⟩) : m.thread.current = a.machine.thread.current :=
  (hK _ _ e _ h).trans (current_of_call hK e hl ht fun _ _ h => (hs _ _ h).elim)

theorem keepsRecord_block {ss : Block}
    (hK : ∀ l y, Enters ⟨n + 1, .job (.block ss), m⟩ l y → y.KeepsRecord) :
    (⟨n + 1, .job (.block ss), m⟩ : Activation).KeepsRecord := by
  intro m' h
  have h' : (onExit (Stmt.performAll (Job.run n) ss) (leaveBlock (Job.run n))).run
      (m.withHeld ([] :: m.thread.held)) = ⟨.returned (), m'⟩ := h
  obtain ⟨m₁, hb, hl⟩ := returned_onExit h'
  obtain ⟨m₂, hd, hp⟩ := returned_onExit hl
  cases hp
  have hkept := current_of_last hK (.blockLeft (leaves_of_returned hb)) trivial trivial nofun hd
  exact hkept

theorem keepsRecord_close {id : Nat}
    (hK : ∀ l y, Enters ⟨n + 1, .job (.close id), m⟩ l y → y.KeepsRecord) :
    (⟨n + 1, .job (.close id), m⟩ : Activation).KeepsRecord := by
  intro m' h
  cases closeEnds_of_leaves (leaves_of_returned h) with
  | absent => rfl
  | empty => rfl
  | next ht hf hp hc h =>
    obtain ⟨_, hr⟩ := returned_of_leaves h
    exact current_of_last hK (.closeNext ht hf hp hc) trivial trivial nofun hr

theorem keepsRecord_closeAbove {base : Option Nat}
    (hK : ∀ l y, Enters ⟨n + 1, .job (.closeAbove base), m⟩ l y → y.KeepsRecord) :
    (⟨n + 1, .job (.closeAbove base), m⟩ : Activation).KeepsRecord := by
  intro m' h
  cases closeAboveEnds_of_leaves (leaves_of_returned h) with
  | done => rfl
  | next ht hf hb hc h =>
    obtain ⟨_, hr⟩ := returned_of_leaves h
    exact current_of_last hK (.closeAboveNext ht hf hb hc) trivial trivial nofun hr

theorem keepsRecord_walk {code : ErrorCode}
    (hK : ∀ l y, Enters ⟨n + 1, .job (.walk code), m⟩ l y → y.KeepsRecord) :
    (⟨n + 1, .job (.walk code), m⟩ : Activation).KeepsRecord := by
  intro m' h
  cases walkEnds_of_leaves (leaves_of_returned h) with
  | outside => rfl
  | next ht hf hm hc h =>
    obtain ⟨_, hr⟩ := returned_of_leaves h
    exact current_of_last hK (.walkNext ht hf hm hc) trivial trivial nofun hr

theorem keepsRecord_rest {ss : Block}
    (hK : ∀ l y, Enters ⟨n, .rest ss, m⟩ l y → y.KeepsRecord) :
    (⟨n, .rest ss, m⟩ : Activation).KeepsRecord := by
  intro m' h
  cases ss with
  | nil => cases h; rfl
  | cons s ss =>
    obtain ⟨_, m₁, hs, hr⟩ := returned_bind h
    exact current_of_last hK (.next hs) trivial trivial nofun hr

theorem keepsRecord_drops {count : Nat}
    (hK : ∀ l y, Enters ⟨n, .drops count, m⟩ l y → y.KeepsRecord) :
    (⟨n, .drops count, m⟩ : Activation).KeepsRecord := by
  intro m' h
  cases count with
  | zero => cases h; rfl
  | succ count =>
    have h' : (dropGuards (Job.run n) (count + 1)).run m = ⟨.returned (), m'⟩ := h
    rw [run_dropGuards_succ] at h'
    split at h'
    · rename_i g own outer hh
      obtain ⟨m₁, hc, hd⟩ := returned_onExit h'
      exact current_of_last hK (.dropNext hh (leaves_of_returned hc)) trivial trivial nofun hd
    · cases h'
      rfl

/-- The exception that a try block has seen is no longer in the record when the block returns. -/
theorem keepsRecord_attempt {body : Block} {clauses : List (Trigger × Block)}
    (hK : ∀ l y, Enters ⟨n, .stmt (.attempt body clauses), m⟩ l y → y.KeepsRecord) :
    (⟨n, .stmt (.attempt body clauses), m⟩ : Activation).KeepsRecord := by
  intro m' h
  obtain ⟨m₁, m₂, hc, hl, hcur⟩ := TryBlock.returned_attempt h
  have hclauses : m₁.thread.current = m.thread.current := by
    obtain ⟨m₃, hb, ht⟩ | h := TryBlock.returned_clauseStage hc
    · rw [ht, hK _ _ (.attempt n body clauses m) _ hb]
      exact Machine.current_tryEntered clauses m
    · exact h
  obtain ⟨_, ⟨_, ht⟩ | ⟨final, m₃, hf, hb, ht⟩⟩ := TryBlock.returned_lastStages hl
  · rw [hcur, ht]
    exact hclauses
  · rw [hcur, ht, hK _ _ (.completion hc hf) _ hb]
    exact hclauses

/-- After a call of `recover` the record is as it was before, or as it was where the panic started
that is stopped there. -/
theorem record_of_recover {value : String} {body : Block}
    (hK : ∀ l y, Enters ⟨n, .stmt (.recover value body), m⟩ l y → y.KeepsRecord)
    (hC : ∀ l y, Enters ⟨n, .stmt (.recover value body), m⟩ l y → y.CarriesRecord)
    (h : (Stmt.perform (Job.run n) (.recover value body)).run m = ⟨.returned (), m'⟩) :
    m'.thread.current = m.thread.current ∨
      m.thread.torn = false ∧ ∃ code b m₁, Origin (.panicking code m.shared.nextToken) b
        ⟨n, .job (.block body), m.recoveryEntered⟩ m₁ ∧ m'.thread.current = b.recordRaised := by
  obtain ⟨ht, m₁, hbody, hthread⟩ := returned_recover h
  have e := Enters.recover n value body ht
  rw [hthread]
  obtain hb | ⟨code, hb⟩ := hbody
  · exact .inl ((hK _ _ e _ hb).trans (Machine.current_recoveryEntered m))
  · obtain ⟨b, ho⟩ := exists_origin
      (a := ⟨n, .job (.block body), m.recoveryEntered⟩) hb (by rintro ⟨_, ⟨⟩⟩)
    have hcur := hC _ _ e _ _ _ ho
    exact .inr ⟨ht, code, b, m₁, ho, hcur⟩

/-- When a session has closed its frames the record is as it was before, or as it was where the end
of the thread was started that is stopped there. -/
theorem record_of_session {status : Int32} {body : Block}
    (hK : ∀ l y, Enters ⟨n, .session status body, m⟩ l y → y.KeepsRecord)
    (hC : ∀ l y, Enters ⟨n, .session status body, m⟩ l y → y.CarriesRecord)
    (h : (Activation.run ⟨n, .session status body, m⟩) = ⟨.returned (), m'⟩) :
    m'.thread.current = m.thread.current ∨
      m.thread.torn = false ∧ ∃ status' b m₁, Origin (.threadExit status') b
        ⟨n, .job (.block body), m.sessionEntered⟩ m₁ ∧ m'.thread.current = b.recordRaised := by
  obtain ⟨status', m₁, hr, h⟩ := returned_bind h
  cases h
  obtain ⟨ht, m₂, hbody, m₃, hc, hcur⟩ := returned_runBody_session hr
  have e := Enters.session n status body ht
  rw [hcur]
  obtain ⟨hb, -⟩ | hb := hbody
  · have hkept := hK _ _ (.sessionLeft ht (leaves_of_returned hb)) _ hc
    exact .inl (hkept.trans ((hK _ _ e _ hb).trans (Machine.current_sessionEntered m)))
  · have hkept := hK _ _ (.sessionLeft ht (leaves_of_unwound hb)) _ hc
    obtain ⟨b, ho⟩ := exists_origin
      (a := ⟨n, .job (.block body), m.sessionEntered⟩) hb (by rintro ⟨_, ⟨⟩⟩)
    exact .inr ⟨ht, status', b, m₂, ho, hkept.trans (hC _ _ e _ _ _ ho)⟩

theorem keepsRecord_defer {a : Option String} {body : Block}
    (hK : m.thread.torn = true → (⟨n, .job (.block body),
      m.startedLate ⟨m.shared.nextSerial, a, body⟩⟩ : Activation).KeepsRecord)
    (h : (Effect.defer (Job.run n) a body).run m = ⟨.returned (), m'⟩) :
    m'.thread.current = m.thread.current := by
  rw [run_defer] at h
  dsimp only at h
  split at h
  · rename_i ht
    rw [run_startCleanup] at h
    exact (hK ht _ h).trans (Machine.current_starting _ _)
  · split at h
    · cases h
      exact Machine.current_rooted m.serialTaken
    · cases h

theorem keepsRecord_stmt {s : Stmt} (hK : ∀ l y, Enters ⟨n, .stmt s, m⟩ l y → y.KeepsRecord)
    (hC : ∀ l y, Enters ⟨n, .stmt s, m⟩ l y → y.CarriesRecord)
    (hF : (⟨n, .stmt s, m⟩ : Activation).IsFaithful) :
    (⟨n, .stmt s, m⟩ : Activation).KeepsRecord := by
  intro m' h
  have hd : s.IsDiscreet → m'.thread.current = m.thread.current := fun hs =>
    (discreet_perform _ hs _ _ _ (leaves_of_returned h)).1
  cases s with
  | repeated times body => exact keepsRecord_repeated hK (Nat.le_refl _) h
  | attempt body clauses => exact keepsRecord_attempt hK _ h
  | scope body =>
    have h' : (Effect.scope (Job.run n) (Job.run n (.block body))).run m = ⟨.returned (), m'⟩ := h
    rw [run_scope] at h'
    obtain ⟨ht, h'⟩ := returned_of_storage h'
    obtain ⟨m₁, hb, hc⟩ := returned_onExit h'
    exact current_of_last hK (.scopeLeft ht (leaves_of_returned hb)) trivial trivial nofun hc
  | defer body => exact keepsRecord_defer (fun ht => hK _ _ (.deferLate n body ht)) h
  | deferWith a body =>
    obtain ⟨_, m₁, hx, hr⟩ := returned_bind h
    have hkept := keepsRecord_defer (fun ht => hK _ _ (.deferWithLate n a body ht)) hx
    cases hr
    exact hkept
  | leave name =>
    obtain ⟨g, m₁, hr, hx⟩ := returned_bind h
    rw [run_releaseGuard] at hr
    split at hr
    · cases hr
      cases hx
      rfl
    · rename_i g held hp
      cases hr
      exact hK _ _ (.leave n hp) _ hx
  | panic code =>
    cases code with
    | none => exact hd trivial
    | some code => exact (not_returned_never h).elim
  | recover value body =>
    obtain h | ⟨ht, code, b, m₁, ho, hcur⟩ := record_of_recover hK hC h
    · exact h
    · have hstart := hF.kept _ _ _ _ _ b _ .here (.recover n value body ht) ⟨code, rfl⟩ ho
      exact (hcur.trans hstart).trans (Machine.current_recoveryEntered m)
  | run status body =>
    obtain ⟨_, m₁, hx, hr⟩ := returned_bind h
    have hkept := hK _ _ (.run n status body m) _ (run_bind_returned hx)
    cases hr
    exact hkept
  | intercept body => exact (hF.uncaught _ _ _ _ .here (.intercept n body m) rfl).elim
  | exitProcess status => exact (not_leaves_exitProcess _ (leaves_of_returned h)).elim
  | throw v => exact (not_returned_never h).elim
  | rethrow => exact (not_returned_never h).elim
  | exit status => exact (not_returned_never h).elim
  | fault cause => obtain ⟨-, rfl⟩ | ⟨-, rfl⟩ := returned_meetFault h <;> rfl
  | _ => exact hd trivial

theorem keepsRecord_of_calls (hK : ∀ l y, Enters a l y → y.KeepsRecord)
    (hC : ∀ l y, Enters a l y → y.CarriesRecord) (hF : a.IsFaithful) : a.KeepsRecord := by
  obtain ⟨n, T, m⟩ := a
  cases T with
  | job j =>
    cases n with
    | zero => exact fun m' h => nomatch h
    | succ n =>
      cases j with
      | block ss => exact keepsRecord_block hK
      | close id => exact keepsRecord_close hK
      | closeAbove base => exact keepsRecord_closeAbove hK
      | walk code => exact keepsRecord_walk hK
  | rest ss => exact keepsRecord_rest hK
  | stmt s => exact keepsRecord_stmt hK hC hF
  | drops count => exact keepsRecord_drops hK
  | session status body =>
    intro m' h
    obtain h | ⟨ht, status', b, m₁, ho, hcur⟩ := record_of_session hK hC h
    · exact h
    · have hstart := hF.kept _ _ _ _ _ b _ .here (.session n status body ht) ⟨status', rfl⟩ ho
      exact (hcur.trans hstart).trans (Machine.current_sessionEntered m)
  | dispatch => exact fun m' h => (not_returned_never h).elim
  | unhandled => exact fun m' h => (not_returned_never h).elim
  | unexpected => exact fun m' h => (not_returned_never h).elim

/-- What returns leaves the record as it found it, and an unwind leaves it as it was started
with. -/
theorem record_of_faithful (hF : a.IsFaithful) : a.KeepsRecord ∧ a.CarriesRecord := by
  induction a using Activation.induction with
  | h a ih =>
    have hK : ∀ l y, Enters a l y → y.KeepsRecord := fun l y e => (ih l y e (hF.call e)).1
    have hC : ∀ l y, Enters a l y → y.CarriesRecord := fun l y e => (ih l y e (hF.call e)).2
    exact ⟨keepsRecord_of_calls hK hC hF, carriesRecord_of_calls hK hC⟩

end

/-! ## While no exception is on its way -/

/-- What is run in the course of a piece while no exception is on its way or handled. -/
inductive Quietly (a : Activation) : Activation → Prop
  | here : Quietly a a
  | call {b l c} (h : Quietly a b) (e : Enters b l c) (hl : l.IsQuiet) (ht : c.task.IsQuiet)
    (hs : ∀ status body, b.task = .session status body → l = .plain → ∀ t m,
      (Job.run b.fuel (.block body)).run b.machine.sessionEntered = ⟨.unwound t, m⟩ →
        ∃ status, t = .threadExit status) : Quietly a c

theorem Quietly.faithful {a b : Activation} (h : Quietly a b) (hF : a.IsFaithful) :
    b.IsFaithful := by
  induction h with
  | here => exact hF
  | call _ e _ _ _ ih => exact ih.call e

/-- A call at which no exception is on its way finds the record as it was. -/
theorem current_of_quiet_call {a b : Activation} {l : Label} (e : Enters a l b) (hl : l.IsQuiet)
    (ht : b.task.IsQuiet) (hF : a.IsFaithful)
    (hs : ∀ status body, a.task = .session status body → l = .plain → ∀ t m,
      (Job.run a.fuel (.block body)).run a.machine.sessionEntered = ⟨.unwound t, m⟩ →
        ∃ status, t = .threadExit status) :
    b.machine.thread.current = a.machine.thread.current := by
  have hK : ∀ l y, Enters a l y → y.KeepsRecord := fun l y e => (record_of_faithful (hF.call e)).1
  by_cases hleft : ∃ status body, a.task = .session status body ∧ l = .plain
  · obtain ⟨_, _, htask, hplain⟩ := hleft
    cases e with
    | session => cases hplain
    | sessionLeft htorn h =>
      rename_i n status body o m m₁
      have e := Enters.session n status body htorn
      obtain ⟨_, hb, _⟩ | ⟨t, hb, _⟩ := Leaves.cases h
      · exact (hK _ _ e _ hb).trans (Machine.current_sessionEntered m)
      · obtain ⟨status', rfl⟩ := hs status body rfl rfl t m₁ hb
        obtain ⟨o, ho⟩ := exists_origin
          (a := ⟨n, .job (.block body), m.sessionEntered⟩) hb (by rintro ⟨_, ⟨⟩⟩)
        have hcarried := (record_of_faithful (hF.call e)).2 _ _ _ ho
        have hstart := hF.kept _ _ _ _ _ o _ .here e ⟨status', rfl⟩ ho
        exact (hcarried.trans hstart).trans (Machine.current_sessionEntered m)
    | _ => cases htask
  · exact current_of_call hK e hl ht fun status body htask hplain =>
      hleft ⟨status, body, htask, hplain⟩

theorem Quietly.current {a b : Activation} (h : Quietly a b) (hF : a.IsFaithful) :
    b.machine.thread.current = a.machine.thread.current := by
  induction h with
  | here => rfl
  | call h e hl ht hs ih => exact (current_of_quiet_call e hl ht (h.faithful hF) hs).trans ih

/-! ## Pieces that are faithful -/

namespace Activation.IsFaithful

variable {n : Nat} {m : Machine} {a : Activation} {ss : Block}

/-- A piece is faithful if the pieces that it calls are, and those that it stops leave the record as
they found it. -/
theorem of_calls (h : ∀ l b, Enters a l b → l ≠ .foreign ∧ b.IsFaithful ∧
    ∀ t m, l.Stops t → b.run = ⟨.unwound t, m⟩ → m.thread.current = b.machine.thread.current) :
    a.IsFaithful := by
  refine ⟨fun K x l y hp e => ?_, fun K x l y t o m hp e hs ho => ?_⟩
  · obtain rfl | ⟨l', b, K', e', hp'⟩ := hp.first
    · exact (h l y e).1
    · exact (h l' b e').2.1.uncaught K' x l y hp' e
  · obtain rfl | ⟨l', b, K', e', hp'⟩ := hp.first
    · obtain ⟨_, hy, hstop⟩ := h l y e
      exact ((record_of_faithful hy).2 t o m ho).symm.trans (hstop t m hs ho.unwound)
    · exact (h l' b e').2.1.kept K' x l y t o m hp' e hs ho

/-- Where nothing is stopped only the calls matter. -/
theorem of_plain_calls (h : ∀ l b, Enters a l b → l ≠ .foreign ∧ (∀ t, ¬l.Stops t) ∧ b.IsFaithful) :
    a.IsFaithful :=
  of_calls fun l b e => ⟨(h l b e).1, (h l b e).2.2, fun t _ hs => ((h l b e).2.1 t hs).elim⟩

theorem drops_zero : (⟨n, .drops 0, m⟩ : Activation).IsFaithful :=
  of_plain_calls fun _ _ e => nomatch e

theorem rest_nil : (⟨n, .rest [], m⟩ : Activation).IsFaithful :=
  of_plain_calls fun _ _ e => nomatch e

theorem rest {s : Stmt} (hs : (⟨n, .stmt s, m⟩ : Activation).IsFaithful)
    (hr : ∀ m₁, (s.perform (Job.run n)).run m = ⟨.returned (), m₁⟩ →
      (⟨n, .rest ss, m₁⟩ : Activation).IsFaithful) :
    (⟨n, .rest (s :: ss), m⟩ : Activation).IsFaithful := by
  refine of_plain_calls fun l b e => ?_
  cases e with
  | first => exact ⟨nofun, fun _ => id, hs⟩
  | next h => exact ⟨nofun, fun _ => id, hr _ h⟩

/-- A block that is left without a guard is faithful if its statements are. -/
theorem block (hr : (⟨n, .rest ss, m.withHeld ([] :: m.thread.held)⟩ : Activation).IsFaithful)
    (hd : ∀ o m₁, (Activation.run ⟨n, .rest ss, m.withHeld ([] :: m.thread.held)⟩).Leaves o m₁ →
      m₁.thread.held.headD [] = []) :
    (⟨n + 1, .job (.block ss), m⟩ : Activation).IsFaithful := by
  refine of_plain_calls fun l b e => ?_
  cases e with
  | block => exact ⟨nofun, fun _ => id, hr⟩
  | blockLeft h =>
    rename_i o m₁
    rw [hd o m₁ h]
    cases o with
    | none => exact ⟨nofun, fun _ => id, drops_zero⟩
    | some _ => exact ⟨nofun, fun _ => id, drops_zero⟩

/-- A throw is faithful where no throw hook is set and a try block is around it. -/
theorem throw {v : Value} (hh : m.shared.hooks.onThrow = none) (hd : 0 < m.thread.depth) :
    (⟨n, .stmt (.throw v), m⟩ : Activation).IsFaithful := by
  refine of_plain_calls fun l b e => ?_
  cases e with
  | throw =>
    refine ⟨nofun, fun _ => id, of_plain_calls fun l b e => ?_⟩
    have hhook : ∀ m' : Machine, m'.shared.hooks.onThrow = m.shared.hooks.onThrow →
        m'.shared.hooks.onThrow = none := fun m' h => h.trans hh
    cases e with
    | throwHook n hb => exact nomatch (hhook _ rfl).symm.trans hb
    | throwHookThrew hb => exact nomatch (hhook _ rfl).symm.trans hb
    | outside h hd' =>
      have hlevel : _ = m.thread.depth := depth_of_enters (.outside h hd')
      exact absurd (hlevel.symm.trans hd') (Nat.ne_of_gt hd)

/-- A panic at a marked frame calls nothing. -/
theorem panic {token : Nat} {f : Frame Cleanup}
    {fs : List (Frame Cleanup)} {code : ErrorCode} (hf : m.thread.frames.frames = f :: fs)
    (hm : f.mark = some token) : (⟨n, .stmt (.panic (some code)), m⟩ : Activation).IsFaithful := by
  refine .of_plain_calls fun l b e => ?_
  cases e with
  | panic =>
    refine ⟨nofun, fun _ => id, .of_plain_calls fun l b e => ?_⟩
    have hmarked : ∀ {g gs} {m' : Machine}, m'.thread = m.thread →
        m'.thread.frames.frames = g :: gs → g.mark ≠ none := by
      intro g gs m' ht hg hn
      rw [ht, hf] at hg
      obtain ⟨rfl, -⟩ := List.cons.inj hg
      exact nomatch hm.symm.trans hn
    cases e with
    | passed n code ht hg hn => exact (hmarked rfl hg hn).elim
    | walkNext ht hg hn => exact (hmarked rfl hg hn).elim

end Activation.IsFaithful

/-- A faithful statement that returns has put the record back, an unwind of the library leaves it
with the record with which the unwind was started, and in its course the record is the same wherever
no exception is on its way or handled. -/
theorem record_restored {n : Nat} {s : Stmt} {m : Machine}
    (hF : (⟨n, .stmt s, m⟩ : Activation).IsFaithful) :
    (∀ m', (s.perform (Job.run n)).run m = ⟨.returned (), m'⟩ →
      m'.thread.current = m.thread.current) ∧
    (∀ t m', (s.perform (Job.run n)).run m = ⟨.unwound t, m'⟩ → ¬t.IsForeign →
      ∃ b, Origin t b ⟨n, .stmt s, m⟩ m' ∧ m'.thread.current = b.recordRaised) ∧
    ∀ a, Quietly ⟨n, .stmt s, m⟩ a → a.machine.thread.current = m.thread.current := by
  obtain ⟨hK, hC⟩ := record_of_faithful hF
  refine ⟨hK, fun t m' h ht => ?_, fun a h => h.current hF⟩
  obtain ⟨b, ho⟩ := exists_origin (a := ⟨n, .stmt s, m⟩) h ht
  exact ⟨b, ho, hC t b m' ho⟩

end

/-- A recovery in which an exception is caught, and a panic is started afterwards. -/
def caughtThenPanicking : Stmt :=
  .recover "value" [.attempt [.throw (.bool true)] [(.typed .bool, [])], .panic (some .enoent)]

/-- The machine in the recovery. -/
def inRecovery : Machine := Machine.initial.recoveryEntered.withHeld [[]]

theorem isFaithful_caught : (⟨7, .stmt (.attempt [.throw (.bool true)] [(.typed .bool, [])]),
    inRecovery⟩ : Activation).IsFaithful := by
  refine .of_plain_calls fun l b e => ?_
  cases e with
  | attempt =>
    refine ⟨nofun, fun _ => id, .block (.rest (.throw rfl (by decide)) ?_) ?_⟩
    · intro m₁ h
      cases h
    · intro o m₁ h
      cases h
      rfl
  | recordEmpty h _ hc => cases h; cases hc
  | clause h hm hs =>
    cases h
    cases hm
    cases hs
    exact ⟨nofun, fun _ => id, .block .rest_nil fun o m₁ h => by cases h; rfl⟩
  | clauseThrew h hm hs hb => cases h; cases hm; cases hs; cases hb
  | completion h hf => cases hf
  | completionThrew h hf => cases hf
  | again h => cases h

theorem isFaithful_caughtThenPanicking :
    (⟨8, .stmt caughtThenPanicking, .initial⟩ : Activation).IsFaithful := by
  refine .of_calls fun l b e => ?_
  cases e with
  | recover n value body ht =>
    refine ⟨nofun, .block (.rest isFaithful_caught fun m₁ h => ?_) ?_, ?_⟩
    · cases h
      refine .rest (.panic rfl rfl) fun m₁ h => ?_
      cases h
    · intro o m₁ h
      cases h
      rfl
    · intro t m₁ _ h
      cases h
      rfl

theorem record_restored_caughtThenPanicking :
    ∃ m', (caughtThenPanicking.perform (Job.run 8)).run .initial = ⟨.returned (), m'⟩ ∧
      m'.thread.current = none :=
  ⟨_, rfl, (record_restored isFaithful_caughtThenPanicking).1 _ rfl⟩

/-- A recovery that stops a panic of a clause. -/
def panickingInClause : Stmt :=
  .recover "value" [.attempt [.throw (.bool true)] [(.typed .bool, [.panic (some .enoent)])]]

/-- The clause is left for good, and the exception it handled stays in the record. -/
theorem record_stays_after_panickingInClause :
    ∃ m', (panickingInClause.perform (Job.run 8)).run .initial = ⟨.returned (), m'⟩ ∧
      m'.thread.current = some (.of (.bool true)) ∧ Machine.initial.thread.current = none :=
  ⟨_, rfl, rfl, rfl⟩

end NonlocalExit
