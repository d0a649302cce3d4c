import NonlocalExit.Proofs.Discretion
import NonlocalExit.Proofs.Passing
import NonlocalExit.Proofs.Stages

/-!
# Where an unwind starts

`exists_origin`: an unwind of the library that leaves a piece of a run was started at a point in
its course, `Raises`, and has left all calls from there on, one after the other, with what each of
them runs on exit.
-/

namespace NonlocalExit

variable [Declarations]

open Effect

/-! ## Induction along the calls -/

/-- The place of a task among those that have the same fuel. -/
def Task.level : Task → Nat
  | job _ => 0
  | unexpected => 1
  | unhandled => 2
  | dispatch => 3
  | session .. => 4
  | stmt _ => 5
  | rest ss => 6 + ss.length
  | drops count => 6 + count

theorem lower_of_enters {a b : Activation} {l : Label} (h : Enters a l b) :
    b.fuel < a.fuel ∨ b.fuel = a.fuel ∧ b.task.level < a.task.level := by
  cases h <;> first
    | exact .inl (Nat.lt_succ_self _)
    | exact .inr ⟨rfl, by simp [Task.level] <;> omega⟩

/-- What holds of a piece if it holds of all lower ones holds of all. -/
theorem Activation.lower_induction {P : Activation → Prop}
    (h : ∀ a : Activation, (∀ b : Activation,
      b.fuel < a.fuel ∨ b.fuel = a.fuel ∧ b.task.level < a.task.level → P b) → P a)
    (a : Activation) : P a := by
  have wf : WellFounded fun b a : Activation =>
      Prod.Lex (· < ·) (· < ·) (b.fuel, b.task.level) (a.fuel, a.task.level) :=
    InvImage.wf (fun a : Activation => (a.fuel, a.task.level))
      (Prod.lex Nat.lt_wfRel Nat.lt_wfRel).wf
  refine wf.induction a fun a ih => h a fun b hlower => ih b ?_
  obtain hlt | ⟨heq, hlt⟩ := hlower
  · exact .left _ _ hlt
  · rw [heq]
    exact .right _ hlt

/-- What holds of a piece if it holds of all pieces that are run in its course holds of all. -/
theorem Activation.induction {P : Activation → Prop}
    (h : ∀ a, (∀ l b, Enters a l b → P b) → P a) (a : Activation) : P a :=
  lower_induction (fun a ih => h a fun _ b e => ih b (lower_of_enters e)) a

/-! ## Where unwinds start -/

namespace Machine

/-- The machine on which a thread is given up, after an exception that nobody handled. -/
def abandoned (m : Machine) : Machine :=
  (m.withCurrent none).note (.log (.threadExit exitFailure))

/-- The machine on which a thread ends after a panic that nobody stopped. -/
def panicked (code : ErrorCode) (m : Machine) : Machine :=
  let report : Diagnostic := if m.shared.forceBacktrace then .backtrace else .noBacktrace
  ((m.note (.diagnostic (.panic code))).note (.diagnostic report)).note
    (.log (.threadExit code.value))

end Machine

/-- Which pieces start an unwind themselves, and on which machine. -/
inductive Raises : Activation → Transfer → Machine → Prop
  /-- An exception that was sent on its way, and the throw hook has returned. -/
  | thrown {n} {m m₁ : Machine}
    (h : (noteDispatch m.thread.current >>= fun _ => callThrowHook (Job.run n)).run m =
      ⟨.returned (), m₁⟩) (hd : 0 < m₁.thread.depth) : Raises ⟨n, .dispatch, m⟩ .thrown m₁
  | rethrown (n) {e} {m : Machine} (h : m.thread.current = some e) (hd : 0 < m.thread.depth) :
    Raises ⟨n, .stmt .rethrow, m⟩ .rethrown m
  /-- A panic that has come to a marked frame. -/
  | panicking (n code) {f fs token} {m : Machine} (ht : m.thread.torn = false)
    (hf : m.thread.frames.frames = f :: fs) (hm : f.mark = some token) :
    Raises ⟨n + 1, .job (.walk code), m⟩ (.panicking code token) m
  | exit (n status) (m : Machine) :
    Raises ⟨n, .stmt (.exit status), m⟩ (.threadExit status) (m.note (.log (.threadExit status)))
  /-- A panic that has met no marked frame. -/
  | panicked {n code} {m m₁ : Machine}
    (h : (Job.run n (.walk code)).run (m.note (.log (.panicking code))) = ⟨.returned (), m₁⟩) :
    Raises ⟨n, .stmt (.panic (some code)), m⟩ (.threadExit code.value) (m₁.panicked code)
  | unhandled {n} {m m₁ : Machine}
    (h : (Effect.unhandled (Job.run n)).run m =
      ⟨.unwound (.threadExit exitFailure), m₁.abandoned⟩) :
    Raises ⟨n, .unhandled, m⟩ (.threadExit exitFailure) m₁.abandoned
  | unexpected {n} {m m₁ : Machine}
    (h : (Effect.unexpected (Job.run n)).run m =
      ⟨.unwound (.threadExit exitFailure), m₁.abandoned⟩) :
    Raises ⟨n, .unexpected, m⟩ (.threadExit exitFailure) m₁.abandoned

/-- How an unwind comes to leave a piece: the piece starts it, or what the piece has called is left
by it and lets it pass. -/
inductive Activation.LeftBy (a : Activation) (t : Transfer) (m : Machine) : Prop
  | raised (h : Raises a t m)
  | called {l b m₁} (e : Enters a l b) (h : b.run = ⟨.unwound t, m₁⟩) (hp : l.Passes t)
    (hx : (l.exit (Job.run b.fuel)).run m₁ = ⟨.returned (), m⟩)

section

variable {n : Nat} {m m' : Machine} {t : Transfer} {a : Activation}

theorem Raises.run (h : Raises a t m) : a.run = ⟨.unwound t, m⟩ := by
  cases h with
  | thrown h hd =>
    refine run_never_unwound ?_
    rw [run_dispatch, run_bind_returned h]
    show (if m.thread.depth > 0 then unwind .thrown else Effect.unhandled _ :
      Effect Empty).run m = _
    rw [if_pos hd]
    rfl
  | rethrown n h hd =>
    refine run_never_unwound ?_
    rw [run_rethrow, h]
    show (if m.thread.depth = 0 then Effect.unhandled _ else unwind .rethrown :
      Effect Empty).run m = _
    rw [if_neg (Nat.ne_of_gt hd)]
    rfl
  | panicking n code ht hf hm => exact walkStep_marked ht code hf hm
  | exit n status m => rfl
  | panicked h =>
    rename_i n code m₀ m₁
    refine run_never_unwound ?_
    show (Job.run n (.walk code) >>= _).run (m₀.note (.log (.panicking code))) = _
    exact (run_bind_returned h).trans rfl
  | unhandled h => exact run_never_unwound h
  | unexpected h => exact run_never_unwound h

/-! ### Jobs, blocks and sessions -/

theorem leftBy_block {ss : Block} (h : (Job.run (n + 1) (.block ss)).run m = ⟨.unwound t, m'⟩) :
    (⟨n + 1, .job (.block ss), m⟩ : Activation).LeftBy t m' := by
  have h' : (onExit (Stmt.performAll (Job.run n) ss) (leaveBlock (Job.run n))).run
      (m.withHeld ([] :: m.thread.held)) = ⟨.unwound t, m'⟩ := h
  obtain ⟨_, m₁, hb, hl⟩ | ⟨m₁, hb, hl⟩ := unwound_onExit h'
  · rw [run_leaveBlock] at hl
    obtain ⟨_, _, _, hp⟩ | ⟨m₂, hd, hp⟩ := unwound_onExit hl
    · cases hp
    · exact .called (.blockLeft (leaves_of_returned hb)) hd trivial hp
  · exact .called (.block n ss m) hb trivial hl

theorem leftBy_close {id : Nat} (h : (Job.run (n + 1) (.close id)).run m = ⟨.unwound t, m'⟩)
    (hf : ¬t.IsForeign) : (⟨n + 1, .job (.close id), m⟩ : Activation).LeftBy t m' := by
  cases closeEnds_of_leaves (leaves_of_unwound h) with
  | torn => exact (hf ⟨_, rfl⟩).elim
  | cleanup ht hfind hp h => exact .called (.cleanup n ht hfind hp) h trivial rfl
  | next ht hfind hp hc h =>
    exact .called (.closeNext ht hfind hp hc) (unwound_of_leaves h) trivial rfl

theorem leftBy_closeAbove {base : Option Nat}
    (h : (Job.run (n + 1) (.closeAbove base)).run m = ⟨.unwound t, m'⟩) (hf : ¬t.IsForeign) :
    (⟨n + 1, .job (.closeAbove base), m⟩ : Activation).LeftBy t m' := by
  cases closeAboveEnds_of_leaves (leaves_of_unwound h) with
  | torn => exact (hf ⟨_, rfl⟩).elim
  | inner ht hfs hb h => exact .called (.closeInner n ht hfs hb) h trivial rfl
  | next ht hfs hb hc h =>
    exact .called (.closeAboveNext ht hfs hb hc) (unwound_of_leaves h) trivial rfl

theorem leftBy_walk {code : ErrorCode}
    (h : (Job.run (n + 1) (.walk code)).run m = ⟨.unwound t, m'⟩) (hf : ¬t.IsForeign) :
    (⟨n + 1, .job (.walk code), m⟩ : Activation).LeftBy t m' := by
  cases walkEnds_of_leaves (leaves_of_unwound h) with
  | torn => exact (hf ⟨_, rfl⟩).elim
  | marked ht hfs hm => exact .raised (.panicking n code ht hfs hm)
  | passed ht hfs hm h => exact .called (.passed n code ht hfs hm) h trivial rfl
  | next ht hfs hm hc h => exact .called (.walkNext ht hfs hm hc) (unwound_of_leaves h) trivial rfl

theorem leftBy_drops {count : Nat} (h : (dropGuards (Job.run n) count).run m = ⟨.unwound t, m'⟩) :
    (⟨n, .drops count, m⟩ : Activation).LeftBy t m' := by
  cases count with
  | zero => cases h
  | succ count =>
    rw [run_dropGuards_succ] at h
    split at h
    · rename_i g own outer hh
      obtain ⟨_, m₁, hc, hd⟩ | ⟨m₁, hc, hd⟩ := unwound_onExit h
      · exact .called (.dropNext hh (leaves_of_returned hc)) hd trivial rfl
      · exact .called (.drop n count hh) hc trivial hd
    · cases h

theorem leftBy_session {status : Int32} {body : Block}
    (h : (runBody (Job.run n) (threadBody (Job.run n) status body)).run m = ⟨.unwound t, m'⟩)
    (hf : ¬t.IsForeign) : (⟨n, .session status body, m⟩ : Activation).LeftBy t m' := by
  obtain rfl | ⟨ht, ⟨m₁, hb, hp, hx⟩ | ⟨o, m₁, hl, hc⟩⟩ := unwound_runBody_session h
  · exact (hf ⟨_, rfl⟩).elim
  · exact .called (.session n status body ht) hb hp hx
  · exact .called (.sessionLeft ht hl) hc trivial rfl

/-! ### Exceptions -/

theorem leftBy_unexpected (h : (Effect.unexpected (Job.run n)).run m = ⟨.unwound t, m'⟩) :
    (⟨n, .unexpected, m⟩ : Activation).LeftBy t m' := by
  have h' := h
  rw [run_unexpected] at h'
  split at h'
  · rename_i b e hb he
    obtain ⟨escaped, m₁, _, hu⟩ | hg := unwound_bind h'
    · cases escaped <;> cases hu <;> exact .raised (.unexpected h)
    · obtain ⟨m₁, hx, ht, hl⟩ := unwound_guarded_callHook (by decide) hg
      exact .called (.unexpectedHook n hb he) hx ht hl
  · cases h'
    exact .raised (.unexpected h)

/-- No exception comes out of where one is taken for unexpected. -/
theorem escape_of_unexpected
    (h : (never (Effect.unexpected (Job.run n)) : Effect Unit).run m = ⟨.unwound t, m'⟩) :
    t.escape? = none := by
  obtain h | ⟨e, _, hp, _⟩ := leftBy_unexpected (unwound_of_never h)
  · cases h
    rfl
  · cases e
    exact hp

theorem leftBy_unhandled (h : (Effect.unhandled (Job.run n)).run m = ⟨.unwound t, m'⟩) :
    (⟨n, .unhandled, m⟩ : Activation).LeftBy t m' := by
  have h' := h
  rw [run_unhandled] at h'
  split at h'
  · rename_i b e hb he
    obtain ⟨escaped, m₁, hg, hu⟩ | hg := unwound_bind h'
    · cases escaped with
      | true => exact .called (.unhandledHookThrew hb he hg) (run_never_unwound hu) trivial rfl
      | false => cases hu; exact .raised (.unhandled h)
    · obtain ⟨m₁, hx, ht, hl⟩ := unwound_guarded_callHook (by decide) hg
      exact .called (.unhandledHook n hb he) hx ht hl
  · cases h'
    exact .raised (.unhandled h)

/-- What the throw hook does to an exception that starts to look for a try block, when it ends by
an unwind. -/
theorem leftBy_callThrowHook
    (h : (noteDispatch m.thread.current >>= fun _ => callThrowHook (Job.run n)).run m =
      ⟨.unwound t, m'⟩) : (⟨n, .dispatch, m⟩ : Activation).LeftBy t m' := by
  by_cases hhook : ∃ b e, m.shared.hooks.onThrow = some b ∧ m.thread.hookRunning = false ∧
      m.thread.current = some e
  · obtain ⟨b, e, hb, hr, he⟩ := hhook
    rw [run_noteDispatch_hook hb hr he] at h
    obtain ⟨escaped, m₁, hg, hu⟩ | hg := unwound_bind h
    · cases escaped with
      | true => exact .called (.throwHookThrew hb hr he hg) hu trivial rfl
      | false => cases hu
    · obtain ⟨m₁, hx, ht, hl⟩ := unwound_guarded_runThrowHook hg
      exact .called (.throwHook n hb hr he) hx ht hl
  · rw [run_noteDispatch_idle hhook] at h
    cases h

theorem leftBy_dispatch (h : (Effect.dispatch (Job.run n)).run m = ⟨.unwound t, m'⟩) :
    (⟨n, .dispatch, m⟩ : Activation).LeftBy t m' := by
  rw [run_dispatch] at h
  obtain ⟨_, m₁, hh, hu⟩ | hh := unwound_bind h
  · have hu' : (if m₁.thread.depth > 0 then unwind .thrown else Effect.unhandled (Job.run n) :
        Effect Empty).run m₁ = ⟨.unwound t, m'⟩ := hu
    split at hu'
    · rename_i hd
      cases hu'
      exact .raised (.thrown hh hd)
    · rename_i hd
      exact .called (.outside hh (by omega)) (run_never_unwound hu') trivial rfl
  · exact leftBy_callThrowHook hh

end

section

variable {n : Nat} {m m' : Machine} {t : Transfer}

theorem leftBy_attempt {body : Block} {clauses : List (Trigger × Block)}
    (h : (Stmt.perform (Job.run n) (.attempt body clauses)).run m = ⟨.unwound t, m'⟩) :
    (⟨n, .stmt (.attempt body clauses), m⟩ : Activation).LeftBy t m' := by
  obtain ⟨m₁, hs, hu⟩ | ⟨e, m₁, hp, hd⟩ := TryBlock.unwound_attempt h
  · obtain ⟨pending, m₂, hc, hl⟩ | hc := unwound_bind hs
    · obtain ⟨final, hf, ⟨hb, ht⟩ | ⟨t', m₃, hb, ht, hx⟩⟩ := TryBlock.unwound_lastStages hl
      · exact .called (.completion hc hf) hb ht hu
      · exact .called (.completionThrew hc hf hb ht) hx (escape_of_unexpected hx) hu
    · obtain hb | ⟨e, m₂, hb, hr⟩ := TryBlock.unwound_clauseStage hc
      · obtain ⟨hb, ht⟩ | ⟨t', escape, m₂, hb, ht, hcur, hx⟩ := TryBlock.unwound_bodyStage hb
        · exact .called (.attempt n body clauses m) hb ht hu
        · exact .called (.recordEmpty hb ht hcur) hx (escape_of_unexpected hx) hu
      · obtain ⟨trigger, b, start, hm, hs, ⟨hx, ht⟩ | ⟨m₃, hx, hun⟩⟩ :=
          TryBlock.unwound_runCatches hr
        · exact .called (.clause hb hm hs) hx ht hu
        · exact .called (.clauseThrew hb hm hs hx) hun (escape_of_unexpected hun) hu
  · exact .called (.again hp) hd trivial rfl

/-! ### Statements -/

theorem unwound_defer {a : Option String} {body : Block}
    (h : (Effect.defer (Job.run n) a body).run m = ⟨.unwound t, m'⟩) :
    m.thread.torn = true ∧ (Job.run n (.block body)).run
      (m.startedLate ⟨m.shared.nextSerial, a, body⟩) = ⟨.unwound t, m'⟩ := by
  rw [run_defer] at h
  dsimp only at h
  split at h
  · rename_i ht
    rw [run_startCleanup] at h
    exact ⟨ht, h⟩
  · split at h <;> cases h

theorem leftBy_stmt {s : Stmt} (h : (s.perform (Job.run n)).run m = ⟨.unwound t, m'⟩)
    (hf : ¬t.IsForeign) : (⟨n, .stmt s, m⟩ : Activation).LeftBy t m' := by
  have hd : s.IsDiscreet → (⟨n, .stmt s, m⟩ : Activation).LeftBy t m' := fun hs =>
    (hf ((discreet_perform _ hs _ _ _ (leaves_of_unwound h)).2 t rfl)).elim
  cases s with
  | repeated times body =>
    obtain ⟨i, m₁, hi, ht, hx⟩ := unwound_times times h
    exact .called (.repeated hi ht) hx trivial rfl
  | throw v => exact .called (.throw n v m) (run_never_unwound (unwound_of_never h)) trivial rfl
  | rethrow =>
    have h' := unwound_of_never h
    rw [run_rethrow] at h'
    cases hc : m.thread.current with
    | none =>
      rw [hc] at h'
      exact .called (.rethrowNone n hc) (run_never_unwound h') trivial rfl
    | some e =>
      rw [hc] at h'
      have hu : (if m.thread.depth = 0 then Effect.unhandled (Job.run n) else unwind .rethrown :
          Effect Empty).run m = ⟨.unwound t, m'⟩ := h'
      split at hu
      · rename_i hd
        exact .called (.rethrowOutside n hc hd) (run_never_unwound hu) trivial rfl
      · rename_i hne
        cases hu
        exact .raised (.rethrown n hc (Nat.pos_of_ne_zero hne))
  | attempt body clauses => exact leftBy_attempt h
  | scope body =>
    have h' : (Effect.scope (Job.run n) (Job.run n (.block body))).run m = ⟨.unwound t, m'⟩ := h
    rw [run_scope] at h'
    obtain rfl | ⟨ht, h'⟩ := unwound_of_storage h'
    · exact (hf ⟨_, rfl⟩).elim
    obtain ⟨_, m₁, hb, hx⟩ | ⟨m₁, hb, hx⟩ := unwound_onExit h'
    · exact .called (.scopeLeft ht (leaves_of_returned hb)) hx trivial rfl
    · exact .called (.scope n body ht) hb trivial hx
  | defer body =>
    obtain ⟨ht, hx⟩ := unwound_defer h
    exact .called (.deferLate n body ht) hx trivial rfl
  | deferWith a body =>
    obtain ⟨_, _, _, h⟩ | h := unwound_bind h
    · cases h
    · obtain ⟨ht, hx⟩ := unwound_defer h
      exact .called (.deferWithLate n a body ht) hx trivial rfl
  | leave name =>
    obtain ⟨g, m₁, hr, hx⟩ | h := unwound_bind h
    · rw [run_releaseGuard] at hr
      split at hr
      · cases hr
        cases hx
      · rename_i g held hp
        cases hr
        exact .called (.leave n hp) hx trivial rfl
    · rw [run_releaseGuard] at h
      split at h <;> cases h
  | panic code =>
    cases code with
    | none => exact hd trivial
    | some code =>
      have h' : (Job.run n (.walk code) >>= fun _ => _).run (m.note (.log (.panicking code))) =
          ⟨.unwound t, m'⟩ := unwound_of_never h
      obtain ⟨_, m₁, hw, hx⟩ | hw := unwound_bind h'
      · have hr := Raises.panicked hw
        cases (show _ = _ from hr.run).symm.trans h
        exact .raised hr
      · exact .called (.panic n code m) hw trivial rfl
  | recover value body =>
    obtain rfl | ⟨ht, m₁, hb, hp, he⟩ := unwound_recover h
    · exact (hf ⟨_, rfl⟩).elim
    · exact .called (.recover n value body ht) hb hp he
  | exit status =>
    cases h
    exact .raised (.exit n status m)
  | run status body =>
    obtain ⟨_, _, _, h⟩ | h := unwound_bind h
    · cases h
    · exact .called (.run n status body m) (run_bind_unwound h) trivial rfl
  | intercept body =>
    obtain ⟨r, _, _, h⟩ | h := unwound_bind h
    · cases r <;> cases h
    · cases (leaves_catchUnwind.1 (leaves_of_unwound h)).2
  | exitProcess status => exact (not_leaves_exitProcess _ (leaves_of_unwound h)).elim
  | fault cause =>
    obtain ⟨_, hr, h⟩ := unwound_meetFault h
    exact .called (.fault n hr) (run_never_unwound h) trivial rfl
  | _ => exact hd trivial

/-- An unwind of the library that leaves a piece starts there, or has left what the piece called. -/
theorem leftBy_of_unwound {a : Activation} (h : a.run = ⟨.unwound t, m'⟩) (hf : ¬t.IsForeign) :
    a.LeftBy t m' := by
  obtain ⟨n, T, m⟩ := a
  cases T with
  | job j =>
    cases n with
    | zero => cases h
    | succ n =>
      cases j with
      | block ss => exact leftBy_block h
      | close id => exact leftBy_close h hf
      | closeAbove base => exact leftBy_closeAbove h hf
      | walk code => exact leftBy_walk h hf
  | rest ss =>
    cases ss with
    | nil => cases h
    | cons s ss =>
      obtain ⟨_, m₁, hs, hr⟩ | hs := unwound_bind h
      · exact .called (.next hs) hr trivial rfl
      · exact .called (.first n s ss m) hs trivial rfl
  | stmt s => exact leftBy_stmt h hf
  | drops count => exact leftBy_drops h
  | session status body =>
    obtain ⟨_, _, _, h⟩ | h := unwound_bind h
    · cases h
    · exact leftBy_session h hf
  | dispatch => exact leftBy_dispatch (unwound_of_never h)
  | unhandled => exact leftBy_unhandled (unwound_of_never h)
  | unexpected => exact leftBy_unexpected (unwound_of_never h)

end

/-! ## The way from there -/

/-- A piece that starts an unwind, in the course of another one that the unwind leaves. -/
inductive Origin (t : Transfer) (b : Activation) : Activation → Machine → Prop
  | here {m} (h : Raises b t m) : Origin t b b m
  | through {a l x m m'} (e : Enters a l x) (h : Origin t b x m) (hp : l.Passes t)
    (hx : (l.exit (Job.run x.fuel)).run m = ⟨.returned (), m'⟩) : Origin t b a m'

section

variable {t : Transfer} {a b : Activation} {m : Machine}

theorem Origin.unwound (h : Origin t b a m) : a.run = ⟨.unwound t, m⟩ := by
  induction h with
  | here h => exact h.run
  | through e _ hp hx ih => exact unwound_of_enters e ih hp hx

/-- All calls between the start of an unwind and what it leaves let it pass. -/
theorem Origin.path (h : Origin t b a m) :
    ∃ K m₁, Path a K b ∧ (∀ x ∈ K, x.1.Passes t) ∧ Raises b t m₁ := by
  induction h with
  | here h => exact ⟨[], _, .here, List.forall_mem_nil _, h⟩
  | through e _ hp _ ih =>
    obtain ⟨K, m₁, hpath, hK, hr⟩ := ih
    refine ⟨_, m₁, Path.here.join e hpath, fun x hx => ?_, hr⟩
    obtain hx | hx := List.mem_append.1 hx
    · exact hK x hx
    · obtain rfl := List.mem_singleton.1 hx
      exact hp

/-- Every unwind of the library that leaves a piece was started in its course. -/
theorem exists_origin (h : a.run = ⟨.unwound t, m⟩) (hf : ¬t.IsForeign) : ∃ b, Origin t b a m := by
  induction a using Activation.induction generalizing m with
  | h a ih =>
    obtain hr | ⟨e, hb, hp, hx⟩ := leftBy_of_unwound h hf
    · exact ⟨a, .here hr⟩
    · obtain ⟨b, ho⟩ := ih _ _ e hb
      exact ⟨b, .through e ho hp hx⟩

end

end NonlocalExit
