import NonlocalExit.Proofs.Origins
import NonlocalExit.Proofs.Stacks

/-!
# What meets an unwind

The unwinds of exceptions and of panics are the library's own affair: each is meant for a call on
the stack on which it starts.  `private_unwinds_meet_owner`: such a call is always there, and the
unwind comes to it unless something else stops it, the process ends on the way, or a cleanup that is
run at the end of a session is itself left by an unwind and takes its place.  So no thread ends with
it.
-/

namespace NonlocalExit

open Effect

/-- Whether an unwind is that of an exception or of a panic, which nobody but the library stops. -/
def Transfer.IsPrivate : Transfer → Prop
  | .thrown | .rethrown | .panicking .. => True
  | .threadExit _ | .foreign _ => False

/-- Whether an unwind is meant for a call. -/
def Label.Owns (t : Transfer) : Label → Prop
  | recover r _ _ => ∃ code, t = .panicking code r.token
  | attempt _ | clause _ | hook .. => t.escape? ≠ none
  | _ => False

theorem Transfer.IsPrivate.result_eq {t : Transfer} (h : t.IsPrivate) : t.result = .internal := by
  cases t with
  | thrown | rethrown | panicking => rfl
  | _ => exact h.elim

/-- A call to which the unwind of an exception or of a panic comes is meant for it, stops every
unwind, goes on with another unwind, or lets it pass. -/
theorem Transfer.IsPrivate.passes {t : Transfer} (ht : t.IsPrivate) (l : Label) :
    l.Owns t ∨ l = .foreign ∨ l = .unwinding ∨ l.Passes t := by
  cases l with
  | foreign => exact .inr (.inl rfl)
  | unwinding => exact .inr (.inr (.inl rfl))
  | attempt | clause | hook =>
    by_cases he : t.escape? = none
    · exact .inr (.inr (.inr he))
    · exact .inl he
  | recover r previous outer =>
    by_cases h : ∃ code, t = .panicking code r.token
    · exact .inl h
    · exact .inr (.inr (.inr (not_exists.1 h)))
  | session base owner =>
    refine .inr (.inr (.inr ?_))
    rintro status rfl
    exact ht
  | _ => exact .inr (.inr (.inr trivial))

section

variable [Declarations]

/-- An unwind that has left what the innermost of some calls has called, and goes on outward from
call to call, comes to one that it is meant for, to one that stops every unwind, or to the end of
the process. -/
inductive Meets (t : Transfer) : List (Label × Activation) → Prop
  | owner {l x K} (h : Label.Owns t l) : Meets t ((l, x) :: K)
  | swallowed {x K} : Meets t ((.foreign, x) :: K)
  | ended {l K h m} {x : Activation} (hx : x.run = ⟨.halted h, m⟩) : Meets t ((l, x) :: K)
  | passed {l K m} {x : Activation} (hp : Label.Passes t l) (hx : x.run = ⟨.unwound t, m⟩)
    (h : Meets t K) : Meets t ((l, x) :: K)

/-- An unwind comes to a session the frames of which are closed next, and one of their cleanups is
left by an unwind. -/
inductive Replaced (t : Transfer) : List (Label × Activation) → Prop
  | here {n status body K t'} {m m₁ m₂ : Machine}
    (hb : (Job.run n (.block body)).run m.sessionEntered = ⟨.unwound t, m₁⟩)
    (hc : (Job.run n (.closeAbove m.innermostId)).run m₁ = ⟨.unwound t', m₂⟩) :
    Replaced t
      ((.session m.innermostId (!m.thread.initialised), ⟨n, .session status body, m⟩) :: K)
  | passed {l K m} {x : Activation} (hp : Label.Passes t l) (hx : x.run = ⟨.unwound t, m⟩)
    (h : Replaced t K) : Replaced t ((l, x) :: K)

/-! ## Stacks and paths -/

section

variable {a b : Activation} {K K' : List (Label × Activation)} {l : Label} {t : Transfer}
  {n : Nat} {m m' : Machine} {o : Option Transfer}

theorem Stack.append (h : Stack K a) (hp : Path a K' b) : Stack (K' ++ K) b := by
  induction hp with
  | here => exact h
  | call _ e ih => exact ih.call e

theorem StartedAtEnd.torn {fs : List (Frame Cleanup)} {c : Cleanup}
    (h : StartedAtEnd (Job.run n) fs m c m') : m'.thread.torn = m.thread.torn := by
  have hsteady : Steady m (m'.starting c) :=
    h.obeys Steady.starting fun _ _ _ _ => steady_of_leaves
  exact (Steady.starting c m').torn.symm.trans hsteady.torn

/-- Before the teardown of a thread its stack goes back to the start of its code. -/
theorem Stack.path (h : Stack K a) (ht : a.machine.thread.torn = false) :
    ∃ r : Activation, r.IsStart ∧ Path r K a := by
  have htorn : ∀ {c : Cleanup} {fs : List (Frame Cleanup)} {n : Nat} {m m' : Machine},
      StartedAtEnd (Job.run n) fs m.tornDown c m' → (m'.starting c).thread.torn = true :=
    fun hs => (Steady.starting _ _).torn.trans hs.torn
  induction h with
  | start h => exact ⟨_, h, .here⟩
  | ended h hl hm hs => exact nomatch ht.symm.trans (htorn hs)
  | exiting h hs ih => exact nomatch ht.symm.trans (htorn hs)
  | call h e ih =>
    obtain ⟨r, hr, hp⟩ := ih ((tidy_of_enters e).torn.symm.trans ht)
    exact ⟨r, hr, hp.call e⟩

theorem Activation.IsStart.isRoot (h : a.IsStart) : a.IsRoot := by
  cases h with
  | body hm hn => exact .body hm hn
  | session hm hn => exact .session hm hn

theorem Stack.marked (h : Stack K a) (ht : a.machine.thread.torn = false) : a.machine.Marked := by
  obtain ⟨root, hroot, hpath⟩ := h.path ht
  exact hpath.marked (Machine.Marked.of_isRoot hroot.isRoot).1

/-! ## The call that an unwind is meant for -/

/-- Around the start of the unwind of an exception there is a try block or a hook. -/
theorem exists_protecting (h : Stack K b) (hr : Raises b t m) (ht : t.escape? ≠ none) :
    ∃ c ∈ K, c.1.protects := by
  have hd : 0 < b.machine.thread.depth := by
    have hlevel := depth_of_leaves (leaves_of_unwound hr.run)
    cases hr with
    | thrown h hd => exact hlevel ▸ hd
    | rethrown n h hd => exact hd
    | _ => exact (ht rfl).elim
  rw [h.depth] at hd
  exact List.countP_pos_iff.1 hd

/-- Around the start of the unwind of a panic there is the call of `recover` with its token. -/
theorem exists_recovering {code : ErrorCode} {token : Nat} (h : Stack K b)
    (hr : Raises b (.panicking code token) m) :
    ∃ r previous outer x, (Label.recover r previous outer, x) ∈ K ∧ r.token = token := by
  cases hr with
  | panicking n code ht hf hm =>
    obtain ⟨root, hroot, hpath⟩ := h.path ht
    obtain ⟨hmarked, hnil⟩ := Machine.Marked.of_isRoot hroot.isRoot
    have hmark := (hpath.marked hmarked).mark _ (hf ▸ List.mem_cons_self)
    rw [hm] at hmark
    obtain ⟨r, hfind, rfl⟩ := Option.map_eq_some_iff.1 hmark.symm
    obtain ⟨K₁, previous, outer, x, K₂, rfl⟩ :=
      hpath.call_of_recovering (List.mem_of_find?_eq_some hfind)
        (by rw [hnil]; exact List.not_mem_nil)
    exact ⟨r, previous, outer, x, by simp, rfl⟩

/-- Whatever an unwind of an exception or a panic leaves, there is a call around it that the unwind
is meant for. -/
theorem exists_owner (h : Stack K a) (hrun : a.run = ⟨.unwound t, m⟩) (ht : t.IsPrivate) :
    ∃ c ∈ K, c.1.Owns t := by
  obtain ⟨b, ho⟩ := exists_origin hrun (by rintro ⟨_, rfl⟩; exact ht)
  obtain ⟨K', m₁, hpath, hpass, hr⟩ := ho.path
  have hstack := h.append hpath
  have hexception : t.escape? ≠ none → ∃ c ∈ K, c.1.Owns t := by
    intro he
    obtain ⟨⟨l, x⟩, hmem, hprot⟩ := exists_protecting hstack hr he
    obtain hmem | hmem := List.mem_append.1 hmem
    · have hp := hpass _ hmem
      cases l with
      | attempt | clause | hook => exact (he hp).elim
      | _ => cases hprot
    · refine ⟨_, hmem, ?_⟩
      cases l with
      | attempt | clause | hook => exact he
      | _ => cases hprot
  cases t with
  | thrown => exact hexception nofun
  | rethrown => exact hexception nofun
  | panicking code token =>
    obtain ⟨r, previous, outer, x, hmem, rfl⟩ := exists_recovering hstack hr
    obtain hmem | hmem := List.mem_append.1 hmem
    · exact (hpass _ hmem code rfl).elim
    · exact ⟨_, hmem, code, rfl⟩
  | threadExit => exact ht.elim
  | foreign => exact ht.elim

end

/-! ## From call to call -/

namespace Effect

variable {α : Type} {m m₁ : Machine} {t : Transfer}

theorem halted_of_not_left {x : Effect α} (h : ∀ o m', ¬(x.run m).Leaves o m') :
    ∃ h m', x.run m = ⟨.halted h, m'⟩ := by
  rcases hx : x.run m with ⟨a | t | h', m'⟩
  · exact (h _ _ (leaves_of_returned hx)).elim
  · exact (h _ _ (leaves_of_unwound hx)).elim
  · exact ⟨_, _, rfl⟩

/-- While an unwind is under way an exit that does not return ends the process. -/
theorem onExit_halted {x : Effect α} {y : Effect Unit} (hx : x.run m = ⟨.unwound t, m₁⟩)
    (hy : ∀ m', y.run m₁ ≠ ⟨.returned (), m'⟩) : ∃ h m', (onExit x y).run m = ⟨.halted h, m'⟩ := by
  refine halted_of_not_left fun o m' h => ?_
  obtain ⟨_, _, hx', _⟩ | ⟨_, _, hx', h, _⟩ := leaves_onExit.1 h
  · cases hx.symm.trans hx'
  · cases hx.symm.trans hx'
    obtain ⟨_, h⟩ := returned_of_leaves h
    exact hy _ h

theorem bind_halted {β : Type} {x : Effect α} {f : α → Effect β}
    (h : ∃ h m', x.run m = ⟨.halted h, m'⟩) : ∃ h m', (x >>= f).run m = ⟨.halted h, m'⟩ := by
  obtain ⟨h, m', hx⟩ := h
  exact ⟨h, m', run_bind_halted hx⟩

end Effect

section

variable {a b : Activation} {K : List (Label × Activation)} {l : Label} {t : Transfer} {m : Machine}

/-- At a call where what is to be done on exit does not return the process ends, or it is a session
in the teardown of which the unwind is replaced. -/
theorem halted_of_exit (e : Enters a l b) (hb : b.run = ⟨.unwound t, m⟩) (hp : l.Passes t)
    (hexit : ∀ m', (l.exit (Job.run b.fuel)).run m ≠ ⟨.returned (), m'⟩) :
    (∃ h m', a.run = ⟨.halted h, m'⟩) ∨ ∀ K, Replaced t ((l, a) :: K) := by
  cases e with
  | block n ss m₀ => exact .inl (onExit_halted hb hexit)
  | drop n count hh =>
    refine .inl ?_
    show ∃ h m', (dropGuards (Job.run n) (count + 1)).run _ = ⟨.halted h, m'⟩
    rw [dropGuards_held count hh]
    exact onExit_halted hb hexit
  | scope n body ht =>
    rename_i m₀
    refine .inl ?_
    show ∃ h m', (Effect.scope (Job.run n) (Job.run n (.block body))).run m₀ = ⟨.halted h, m'⟩
    rw [run_scope, ht]
    exact onExit_halted hb hexit
  | recover n value body ht =>
    rename_i m₀
    refine .inl (bind_halted ?_)
    rw [run_recover, ht]
    refine onExit_halted (t := t) ?_ hexit
    have hs : (Job.run n (.block body)).run m₀.recoveryEntered = ⟨.unwound t, m⟩ := hb
    rw [run_settle, hs]
    cases t with
    | panicking code owner =>
      have hne : owner ≠ m₀.shared.nextToken := fun h => hp code (h ▸ rfl)
      simp only [hne, ↓reduceIte]
    | _ => rfl
  | session n status body ht =>
    rename_i m₀
    have hs : (Job.run n (.block body)).run m₀.sessionEntered = ⟨.unwound t, m⟩ := hb
    rcases hc : (Job.run n (.closeAbove m₀.innermostId)).run m with ⟨_ | t' | h, m₁⟩
    · refine (hexit { m₁ with thread := { m₁.thread with
        initialised := m₁.thread.initialised && m₀.thread.initialised } } ?_).elim
      refine (run_bind_returned hc).trans ?_
      cases m₀.thread.initialised with
      | false => simp [closeSession, run_modifyThread]
      | true => simp [closeSession]
    · exact .inr fun K => .here hs hc
    · refine .inl (bind_halted ?_)
      rw [run_runBody, ht]
      refine ⟨h, m₁, (run_bind_returned
        (run_catchUnwind_unwound (run_bind_unwound hs))).trans (run_bind_halted hc)⟩
  | blockLeft => cases ‹Option Transfer› <;> exact (hexit _ rfl).elim
  | dropNext => cases ‹Option Transfer› <;> exact (hexit _ rfl).elim
  | scopeLeft => cases ‹Option Transfer› <;> exact (hexit _ rfl).elim
  | _ => exact (hexit _ rfl).elim

/-- A call that lets an unwind pass is left by it in turn, or does not come to an end, or is a
session in the teardown of which the unwind is replaced. -/
theorem passes_on (e : Enters a l b) (hb : b.run = ⟨.unwound t, m⟩) (hp : l.Passes t) :
    (∃ m', a.run = ⟨.unwound t, m'⟩) ∨ (∃ h m', a.run = ⟨.halted h, m'⟩) ∨
      ∀ K, Replaced t ((l, a) :: K) := by
  by_cases hexit : ∃ m', (l.exit (Job.run b.fuel)).run m = ⟨.returned (), m'⟩
  · obtain ⟨m', hx⟩ := hexit
    exact .inl ⟨m', unwound_of_enters e hb hp hx⟩
  · exact .inr (halted_of_exit e hb hp (not_exists.1 hexit))

/-- An unwind that leaves something which is run because of an unwind ends the process. -/
theorem halted_of_unwinding (e : Enters a l b) (hl : l = .unwinding)
    (hb : b.run = ⟨.unwound t, m⟩) : ∃ h m', a.run = ⟨.halted h, m'⟩ := by
  cases e with
  | blockLeft h =>
    rename_i n ss o m₀ m₁
    cases o with
    | none => cases hl
    | some t' =>
      refine onExit_halted (unwound_of_leaves h) fun m' hx => ?_
      obtain ⟨m₂, hd, _⟩ := returned_onExit hx
      cases hd.symm.trans hb
  | dropNext hh h =>
    rename_i n count g own outer o m₀ m₁
    cases o with
    | none => cases hl
    | some t' =>
      show ∃ h m', (dropGuards (Job.run n) (count + 1)).run _ = ⟨.halted h, m'⟩
      rw [dropGuards_held count hh]
      exact onExit_halted (unwound_of_leaves h) fun m' hx => by cases hx.symm.trans hb
  | scopeLeft ht h =>
    rename_i n body o m₀ m₁
    cases o with
    | none => cases hl
    | some t' =>
      show ∃ h m', (Effect.scope (Job.run n) (Job.run n (.block body))).run m₀ = ⟨.halted h, m'⟩
      rw [run_scope, ht]
      exact onExit_halted (unwound_of_leaves h) fun m' hx => by cases hx.symm.trans hb
  | _ => cases hl

/-- On its way from call to call the unwind meets the call that it is meant for, or is stopped or
replaced before. -/
theorem meets_or_replaced (h : Stack K a) (hrun : a.run = ⟨.unwound t, m⟩) (ht : t.IsPrivate)
    (ho : ∃ c ∈ K, c.1.Owns t) : Meets t K ∨ Replaced t K := by
  induction h generalizing m with
  | start | ended =>
    obtain ⟨_, hc, _⟩ := ho
    cases hc
  | exiting h hs ih =>
    obtain ⟨h, m', hx⟩ := halted_of_not_left fun _ _ => not_leaves_exitProcess _
    exact .inl (.ended hx)
  | call h e ih =>
    rename_i K a l b
    obtain hown | rfl | hl | hp := ht.passes l
    · exact .inl (.owner hown)
    · exact .inl .swallowed
    · obtain ⟨_, _, hx⟩ := halted_of_unwinding e hl hrun
      exact .inl (.ended hx)
    obtain ⟨m', hx⟩ | ⟨_, _, hx⟩ | hreplaced := passes_on e hrun hp
    · -- The call that the unwind is meant for is further out.
      by_cases hown : l.Owns t
      · exact .inl (.owner hown)
      have hout : ∃ c ∈ K, c.1.Owns t := by
        obtain ⟨c, hc, hown'⟩ := ho
        obtain rfl | hc := List.mem_cons.1 hc
        · exact (hown hown').elim
        · exact ⟨c, hc, hown'⟩
      exact (ih hx hout).imp (.passed hp hx) (.passed hp hx)
    · exact .inl (.ended hx)
    · exact .inr (hreplaced K)

end

/-! ## Threads -/

namespace Effect

variable {α : Type} {m m' : Machine} {t : Transfer}

/-- A thread that ends with an unwind has had a body that was left by it. -/
theorem unwound_of_inThread {exec : Executor} {body : Effect α}
    (h : (inThread exec body).run m = ⟨.returned (.error t), m'⟩) :
    ∃ m₁, body.run m.threadStarted = ⟨.unwound t, m₁⟩ := by
  obtain ⟨m₁, _, hb, _⟩ := (inThread_eq_returned exec).1 h
  obtain ⟨_, _, hr⟩ | ⟨t', hb, hr⟩ := run_catchUnwind_eq_returned.1 hb
  · cases hr
  · cases hr
    exact ⟨m₁, hb⟩

end Effect

/-- The body of a thread is not left by the unwind of an exception or of a panic. -/
theorem Activation.IsStart.not_isPrivate {a : Activation} {t : Transfer} {m : Machine}
    (h : a.IsStart) (hrun : a.run = ⟨.unwound t, m⟩) : ¬t.IsPrivate := by
  intro ht
  obtain ⟨_, hc, _⟩ := exists_owner (.start h) hrun ht
  cases hc

/-- What a plain thread ends with is seen by the thread that waits for it. -/
theorem runPlain_ne_internal {n : Nat} {status : Int32} {body : Block} {m m' : Machine}
    {r : ThreadResult} (h : (runPlain (Job.run n) status body).run m = ⟨.returned r, m'⟩) :
    r ≠ .internal := by
  obtain ⟨e, m₁, hthread, h⟩ := returned_bind h
  cases e with
  | ok =>
    cases h
    nofun
  | error t =>
    cases h
    obtain ⟨m₂, hb⟩ := unwound_of_inThread hthread
    have ht := (Activation.IsStart.body rfl (Nat.lt_succ_self _) :
      Activation.IsStart ⟨n, .job (.block body), m.threadStarted⟩).not_isPrivate hb
    cases t with
    | thrown | rethrown | panicking => exact (ht trivial).elim
    | _ => nofun

/-- A thread of the library of which it is said that it panicked ended with an unwind that is not
one of an exception or of a panic of the library. -/
theorem not_isPrivate_of_threadPanicked {n : Nat} {status : Int32} {name : Option String}
    {stackSize : Option Nat} {body : Block} {m m' : Machine} {text : String}
    (h : (spawn (Job.run n) status name stackSize body).run m =
      ⟨.returned (.failed (.threadPanicked text)), m'⟩) :
    ∃ t m₁, (runBody (Job.run n) (threadBody (Job.run n) status body)).run m.threadStarted =
      ⟨.unwound t, m₁⟩ ∧ ¬t.IsPrivate ∧ text = t.describe := by
  unfold spawn at h
  split at h
  · cases h
  split at h
  · cases h
  obtain ⟨e, m₁, hthread, h⟩ := returned_bind h
  cases e with
  | ok => cases h
  | error t =>
    cases h
    obtain ⟨m₂, hb⟩ := unwound_of_inThread hthread
    exact ⟨t, m₂, hb, (Activation.IsStart.session rfl (Nat.lt_succ_self _) :
      Activation.IsStart ⟨n, .session status body, m.threadStarted⟩).not_isPrivate
        (run_bind_unwound hb), rfl⟩

/-- The unwind of an exception or of a panic does not end a thread.  Whatever it leaves, there is a
call around it that it is meant for, and it comes to that call, unless it is stopped by what stops
every unwind, the process ends, or it is replaced in the teardown of a session. -/
theorem private_unwinds_meet_owner {t : Transfer} (ht : t.IsPrivate) :
    (∀ (a : Activation) (m : Machine), a.IsStart → a.run ≠ ⟨.unwound t, m⟩) ∧
    (∀ (n : Nat) (status : Int32) (body : Block) (m m' : Machine),
      (runPlain (Job.run n) status body).run m ≠ ⟨.returned t.result, m'⟩) ∧
    (∀ (n : Nat) (status : Int32) (name : Option String) (stackSize : Option Nat) (body : Block)
      (m m' : Machine) (text : String),
      (spawn (Job.run n) status name stackSize body).run m =
        ⟨.returned (.failed (.threadPanicked text)), m'⟩ →
      ∃ t' m₁, (runBody (Job.run n) (threadBody (Job.run n) status body)).run m.threadStarted =
        ⟨.unwound t', m₁⟩ ∧ ¬t'.IsPrivate ∧ text = t'.describe) ∧
    ∀ (K : List (Label × Activation)) (a : Activation) (m : Machine),
      Stack K a → a.run = ⟨.unwound t, m⟩ →
      (∃ c ∈ K, c.1.Owns t) ∧ (Meets t K ∨ Replaced t K) := by
  refine ⟨fun _ _ h hrun => h.not_isPrivate hrun ht,
    fun _ _ _ _ _ h => runPlain_ne_internal h ht.result_eq,
    fun _ _ _ _ _ _ _ _ h => not_isPrivate_of_threadPanicked h, fun K a m h hrun => ?_⟩
  have howner := exists_owner h hrun ht
  exact ⟨howner, meets_or_replaced h hrun ht howner⟩

end

/-- A try block around a session in the teardown of which the thread is ended. -/
def overExitingTeardown : Stmt :=
  .attempt [.run 0 [.defer [.exit 3], .throw (.bool true)]] [(.typed .bool, [])]

/-- The machine in the session, after the cleanup was registered. -/
def inExitingSession : Machine :=
  let entered := (Machine.initial.withHeld [[]]).tryEntered [(.typed .bool, [])]
  let session := (entered.withHeld ([] :: entered.thread.held)).sessionEntered
  ((Stmt.perform (Job.run 6) (.defer [.exit 3])).run
    (session.withHeld ([] :: session.thread.held))).machine

/-- Nothing that stops every unwind is around the exception, and it does not come to the try block:
the session is left by the end of the thread. -/
theorem exists_stack_inExitingSession :
    ∃ K, Stack K ⟨6, .stmt (.throw (.bool true)), inExitingSession⟩ ∧
      (∀ c ∈ K, c.1 ≠ .foreign) ∧ ¬Meets .thrown K := by
  have h₀ : Activation.IsStart ⟨9, .job (.block [overExitingTeardown]), .initial⟩ :=
    .body rfl (by decide : 0 < _)
  refine ⟨_, ((((((((Stack.start h₀).call (.block _ _ _)).call (.first _ _ _ _)).call
    (.attempt _ _ _ _)).call (.block _ _ _)).call (.first _ _ _ _)).call (.run _ _ _ _)).call
    (.session _ _ _ rfl)).call (.block _ _ _) |>.call (.next rfl) |>.call (.first _ _ _ _), ?_, ?_⟩
  · simp
  · intro h
    obtain h | - | hx | ⟨-, -, h⟩ := h
    · exact h
    · cases hx
    obtain h | - | hx | ⟨-, -, h⟩ := h
    · exact h
    · cases hx
    obtain h | - | hx | ⟨-, -, h⟩ := h
    · exact h
    · cases hx
    obtain h | - | hx | ⟨-, hx, -⟩ := h
    · exact h
    · cases hx
    · cases hx

theorem private_unwinds_meet_owner_overExitingTeardown :
    Transfer.thrown.IsPrivate ∧
    (∀ m, (⟨9, .job (.block [overExitingTeardown]), .initial⟩ : Activation).run ≠
      ⟨.unwound .thrown, m⟩) ∧
    (∀ m', (runPlain (Job.run 8) 0 [overExitingTeardown]).run .initial ≠
      ⟨.returned .internal, m'⟩) ∧
    (∃ text m', (spawn (Job.run 8) 0 none none [.foreign (some "stop")]).run .initial =
      ⟨.returned (.failed (.threadPanicked text)), m'⟩ ∧
        ∃ t : Transfer, ¬t.IsPrivate ∧ text = t.describe) ∧
    ∃ K a m, Stack K a ∧ a.task = .stmt (.throw (.bool true)) ∧ a.run = ⟨.unwound .thrown, m⟩ ∧
      (∃ c ∈ K, c.1.Owns .thrown) ∧ (Meets .thrown K ∨ Replaced .thrown K) := by
  obtain ⟨hstart, hplain, hspawned, hstack⟩ :=
    private_unwinds_meet_owner (t := .thrown) trivial
  obtain ⟨K, h, -, -⟩ := exists_stack_inExitingSession
  refine ⟨trivial, fun m => hstart _ m (.body rfl (by decide : 0 < _)),
    fun m' => hplain _ _ _ _ m', ⟨_, _, rfl, ?_⟩, K, _, _, h, rfl, rfl, hstack _ _ _ h rfl⟩
  obtain ⟨t, _, _, ht, htext⟩ :=
    hspawned 8 0 none none [.foreign (some "stop")] .initial _ _ rfl
  exact ⟨t, ht, htext⟩

theorem not_meets_overExitingTeardown :
    ∃ K m, Stack K ⟨6, .stmt (.throw (.bool true)), inExitingSession⟩ ∧
      (Stmt.perform (Job.run 6) (.throw (.bool true))).run inExitingSession =
        ⟨.unwound .thrown, m⟩ ∧ (∀ c ∈ K, c.1 ≠ .foreign) ∧ ¬Meets .thrown K := by
  obtain ⟨K, h, hforeign, hmeets⟩ := exists_stack_inExitingSession
  exact ⟨K, _, h, rfl, hforeign, hmeets⟩

end NonlocalExit
