import NonlocalExit.Proofs.Arrival

/-!
# Where a panic ends

The walk of a panic closes frames until the innermost one carries a mark, or until none is left.
From there the panic unwinds, and all frames that the calls on its way would close are closed
already.  `panic_reaches_recovery_or_end`: so the next code of the program that is run is what
follows the call of `recover` that returns the error code, or the end of the thread or of a session
with that code as its status.
-/

namespace NonlocalExit

open Effect Machine

section

variable [Declarations]

/-! ## Closings that start nothing -/

namespace StartsCleanup

variable {y d : Activation} {n id : Nat} {m : Machine}

/-- On torn storage no cleanup is started by a closing. -/
theorem live (h : StartsCleanup y d) : y.machine.thread.torn = false := by
  induction h with
  | here h =>
    cases h with
    | cleanup n ht => exact ht
  | later h hb hc ih => exact (tidy_of_enters h).torn.symm.trans ih

theorem not_close_closed (hid : id ∉ m.openIds) : ¬StartsCleanup ⟨n, .job (.close id), m⟩ d := by
  have hnone := find?_of_closed hid
  intro h
  cases h with
  | here h =>
    cases h with
    | cleanup n ht hf => simp [hnone] at hf
  | later h hb hc =>
    cases h with
    | cleanup n ht hf => simp [hnone] at hf
    | closeNext ht hf => simp [hnone] at hf

theorem not_closeAbove_closed {base : Option Nat} (hb : ∀ id ∈ m.openIds, base.any (id ≤ ·)) :
    ¬StartsCleanup ⟨n, .job (.closeAbove base), m⟩ d := by
  have hdone : ∀ {f fs}, m.thread.frames.frames = f :: fs → base.any (f.id ≤ ·) := by
    intro f fs hf
    apply hb
    unfold openIds
    simp [hf]
  intro h
  cases h with
  | later h hc hs =>
    cases h with
    | closeInner n ht hf hbase => exact hbase (hdone hf)
    | closeAboveNext ht hf hbase => exact hbase (hdone hf)

theorem not_drops_closed {count : Nat} (hg : ∀ g ∈ m.thread.held.headD [], g.frame ∉ m.openIds) :
    ¬StartsCleanup ⟨n, .drops count, m⟩ d := by
  induction count generalizing m with
  | zero => exact not_drops_zero
  | succ count ih =>
    intro h
    have ht := h.live
    cases h with
    | later h hc hs =>
      cases h with
      | drop n count hh =>
        rename_i g own outer
        rw [hh] at hg
        exact not_close_closed (m := (m.withHeld (own :: outer)).leaving g.frame)
          (hg g List.mem_cons_self) hs
      | dropNext hh hl =>
        rename_i g own outer o m₁
        rw [hh] at hg
        cases n with
        | zero => cases hl
        | succ n =>
          rw [close_absent (m := (m.withHeld (own :: outer)).leaving g.frame) ht
            (hg g List.mem_cons_self)] at hl
          cases hl
          exact ih (m := (m.withHeld (own :: outer)).leaving g.frame)
            (fun x hx => hg x (List.mem_cons_of_mem _ hx)) hs

end StartsCleanup

/-- Where all frames that are to be closed are closed no cleanup is started. -/
theorem Label.FindsClosed.not_starts {l : Label} {m : Machine} {k : Nat} {y d : Activation}
    (h : l.FindsClosed m) (hy : l.closing? k m = some y) : ¬StartsCleanup y d := by
  cases l with
  | block =>
    cases hy
    exact StartsCleanup.not_drops_closed h
  | dropping count =>
    cases hy
    exact StartsCleanup.not_drops_closed h
  | scope id =>
    cases hy
    exact StartsCleanup.not_close_closed (m := m.leaving id) h
  | session base owner =>
    cases hy
    exact StartsCleanup.not_closeAbove_closed h
  | _ => cases hy

/-- An unwind that finds all frames on its way closed goes on without starting a cleanup. -/
theorem not_startsOnExit_of_closed {a b : Activation} {K : List (Label × Activation)}
    {t : Transfer} {m : Machine} (h : Path a K b) (hk : 0 < b.fuel) (hb : b.run = ⟨.unwound t, m⟩)
    (ht : m.thread.torn = false)
    (hclosed : ∀ l x c m', (l, x) ∈ K → Enters x l c → c.run = ⟨.unwound t, m'⟩ →
      m.SameFrames m' → l.FindsClosed m') :
    ∀ l x, OnWay t K l x → ∀ d, ¬StartsOnExit t l x d := by
  induction h generalizing m with
  | here => exact OnWay.forall_nil
  | call h e ih =>
    rename_i K x l c
    have hfinds := hclosed l x c m List.mem_cons_self e hb ⟨rfl, rfl⟩
    refine OnWay.forall_cons (fun d hs => ?_) fun hp => ?_
    · obtain ⟨y, hy, hs⟩ := (startsOnExit_iff e hb).1 hs
      exact hfinds.not_starts hy hs
    · obtain ⟨k, hc⟩ : ∃ k, c.fuel = k + 1 := ⟨c.fuel - 1, by omega⟩
      obtain ⟨m₁, hexit, hsame⟩ := exit_closed (k := k) ht hfinds
      have hx := unwound_of_enters e hb hp (hc ▸ hexit)
      have hfuel := fuel_of_enters e
      refine ih (by omega) hx (hsame.torn.trans ht) fun l' x' c' m' hmem e' hc' hs' => ?_
      exact hclosed l' x' c' m' (List.mem_cons_of_mem _ hmem) e' hc' (hsame.trans hs')

namespace OnWay

variable {t : Transfer} {K K' : List (Label × Activation)} {l : Label} {x : Activation}

theorem mem (h : OnWay t K l x) : (l, x) ∈ K := by
  induction h with
  | here => simp
  | outer hp h ih => simp [ih]

theorem append_left (h : OnWay t K l x) : OnWay t (K ++ K') l x := by
  induction h with
  | here => exact .here
  | outer hp h ih => exact .outer hp ih

theorem of_append (h : OnWay t (K ++ K') l x) : OnWay t K l x ∨ OnWay t K' l x := by
  induction K with
  | nil => exact .inr h
  | cons c K ih =>
    cases h with
    | here => exact .inl .here
    | outer hp h => exact (ih h).imp_left (.outer hp)

end OnWay

/-! ## The end of the walk -/

/-- The mark of the innermost frame is that of the recovery that a panic is to reach. -/
theorem Machine.Marked.aim_of_head {m : Machine} (hm : m.Marked) {f : Frame Cleanup}
    {fs : List (Frame Cleanup)} {token : Nat} (hf : m.thread.frames.frames = f :: fs)
    (hmark : f.mark = some token) :
    ∃ r, m.aim? = some r ∧ r.frame = f.id ∧ r.token = token := by
  have hopen : f.id ∈ m.openIds := by
    unfold openIds
    simp [hf]
  rw [hm.mark f (by simp [hf])] at hmark
  obtain ⟨r, hfind, rfl⟩ := Option.map_eq_some_iff.1 hmark
  obtain ⟨hid, newer, older, hrec, hnew⟩ := List.find?_eq_some_iff_append.1 hfind
  simp only [decide_eq_true_eq] at hid
  refine ⟨r, aim?_eq_some.2 ⟨hid ▸ hopen, newer, older, hrec, fun s hs hs' => ?_⟩, hid, rfl⟩
  -- A newer recovery is not further out, and no frame is further in.
  have hnested := hm.nested
  rw [hrec] at hnested
  have hle := (List.pairwise_append.1 hnested).2.2 s hs r List.mem_cons_self (hid ▸ hopen)
  have hge := hm.orderly.le_innermostId hs'
  rw [innermostId_of_cons hf] at hge
  have hge : s.frame ≤ f.id := of_decide_eq_true hge
  have hne : s.frame ≠ f.id := by simpa using hnew s hs
  omega

/-- When all cleanups return, the walk of a panic ends at the first frame with a mark, or when all
frames are closed. -/
theorem walk_ends {n : Nat} {code : ErrorCode} {m : Machine} (ht : m.thread.torn = false)
    (hd : ∀ d, StartsCleanup ⟨n, .job (.walk code), m⟩ d → d.Returns) :
    Activation.RunsOut ⟨n, .job (.walk code), m⟩ ∨
      (∃ m', (Job.run n (.walk code)).run m = ⟨.returned (), m'⟩ ∧ m'.thread.frames.frames = []) ∨
      ∃ m' f fs token, (Job.run n (.walk code)).run m = ⟨.unwound (.panicking code token), m'⟩ ∧
        m'.thread.frames.frames = f :: fs ∧ f.mark = some token := by
  induction n generalizing m with
  | zero => exact .inl ⟨m, rfl⟩
  | succ n ih =>
    cases hf : m.thread.frames.frames with
    | nil =>
      refine .inr (.inl ⟨m, ?_, hf⟩)
      show (walkStep (Job.run n) code).run m = _
      rw [run_walkStep, ht, hf]
      rfl
    | cons f fs =>
    cases hm : f.mark with
    | some token => exact .inr (.inr ⟨m, f, fs, token, walkStep_marked ht code hf hm, hf, hm⟩)
    | none =>
      have hpass := Enters.passed n code ht hf hm
      rcases closing_returns ⟨n, .job (.close f.id), m.note (.step (.passed f.id))⟩ trivial nofun ht
        fun d h => hd d (.later hpass trivial h) with hout | ⟨m₁, hret⟩
      · exact .inl (runsOut_of_enters hpass hout)
      have hnext := @Enters.walkNext _ n code _ _ _ _ ht hf hm hret
      have ht₁ : m₁.thread.torn = false :=
        (steady_of_leaves (leaves_of_returned hret)).torn.trans ht
      have hstep : (Job.run (n + 1) (.walk code)).run m = (Job.run n (.walk code)).run m₁ :=
        (walkStep_passed ht code hf hm).trans (run_bind_returned hret)
      rw [hstep]
      exact (ih ht₁ fun d h => hd d (.later hnext trivial h)).imp_left (runsOut_of_enters hnext)

/-- With what a panic unwinds, and where its walk has ended: with the token of the innermost frame,
with the end of the thread when all frames are closed, or with the failure of torn storage. -/
inductive PanicEnds (code : ErrorCode) (m : Machine) : Transfer → Prop
  | marked {f fs token} (ht : m.thread.torn = false) (hf : m.thread.frames.frames = f :: fs)
    (hm : f.mark = some token) : PanicEnds code m (.panicking code token)
  | unmarked (ht : m.thread.torn = false) (hf : m.thread.frames.frames = []) :
    PanicEnds code m (.threadExit code.value)
  | torn (ht : m.thread.torn = true) : PanicEnds code m storageGone

theorem panic_ends {n : Nat} {code : ErrorCode} {m : Machine}
    (hd : ∀ d, StartsCleanup ⟨n, .job (.walk code), m.note (.log (.panicking code))⟩ d →
      d.Returns) :
    Activation.RunsOut ⟨n, .stmt (.panic (some code)), m⟩ ∨
      0 < n ∧ ∃ t m₁, Activation.run ⟨n, .stmt (.panic (some code)), m⟩ = ⟨.unwound t, m₁⟩ ∧
        PanicEnds code m₁ t := by
  have henter := Enters.panic n code m
  cases n with
  | zero => exact .inl (runsOut_of_enters henter ⟨_, rfl⟩)
  | succ n =>
  cases ht : m.thread.torn with
  | true =>
    have hwalk : (Job.run (n + 1) (.walk code)).run (m.note (.log (.panicking code))) =
        ⟨.unwound storageGone, m.note (.log (.panicking code))⟩ := by
      refine (run_walkStep _ _ _).trans ?_
      rw [show (m.note _).thread.torn = true from ht]
      rfl
    exact .inr ⟨Nat.succ_pos n, _, _, unwound_of_enters henter hwalk trivial rfl, .torn ht⟩
  | false =>
    rcases walk_ends (m := m.note (.log (.panicking code))) ht hd with
      hout | ⟨m₁, hret, hf⟩ | ⟨m₁, f, fs, token, hrun, hf, hm⟩
    · exact .inl (runsOut_of_enters henter hout)
    · have ht₁ := (steady_of_leaves (leaves_of_returned hret)).torn.trans ht
      exact .inr ⟨Nat.succ_pos n, _, _, (Raises.panicked hret).run, .unmarked ht₁ hf⟩
    · have ht₁ := (steady_of_leaves (leaves_of_unwound hrun)).torn.trans ht
      exact .inr ⟨Nat.succ_pos n, _, _, unwound_of_enters henter hrun trivial rfl,
        .marked ht₁ hf hm⟩

/-! ## The way from there -/

section

variable {root a b : Activation} {K : List (Label × Activation)} {t : Transfer} {m : Machine}
  {code : ErrorCode}

theorem not_startsOnExit_of_torn (h : Path a K b) (ht : b.machine.thread.torn = true) :
    ∀ l x, OnWay t K l x → ∀ d, ¬StartsOnExit t l x d := by
  rintro l x hway d ⟨c, m', y, e, hc, hy, hs⟩
  obtain ⟨K₁, K₂, rfl⟩ := List.append_of_mem hway.mem
  obtain ⟨c', -, e', h'⟩ := h.split
  have hx : x.machine.thread.torn = true :=
    ((tidy_of_enters e').trans h'.tidy).torn.symm.trans ht
  have hm : m'.thread.torn = x.machine.thread.torn :=
    ((tidy_of_enters e).trans (Tidy.primitives.obeys_run (leaves_of_unwound hc))).torn
  have hlive : m'.thread.torn = false := by
    have := hs.live
    cases l with
    | block | dropping | scope | session =>
      cases hy
      exact this
    | _ => cases hy
  simp [hx, hlive] at hm

/-- A panic that has come to a marked frame finds the frames inside it closed. -/
theorem not_startsOnExit_of_marked (hroot : root.IsRoot) (h : Path root K b) (hk : 0 < b.fuel)
    {token : Nat} (hb : b.run = ⟨.unwound (.panicking code token), m⟩)
    (ht : m.thread.torn = false) {f : Frame Cleanup} {fs : List (Frame Cleanup)}
    (hf : m.thread.frames.frames = f :: fs) (hmark : f.mark = some token) :
    ∀ l x, OnWay (.panicking code token) K l x →
      ∀ d, ¬StartsOnExit (.panicking code token) l x d := by
  obtain ⟨hrootMarked, hnil⟩ := Marked.of_isRoot hroot
  have hbm := h.marked hrootMarked
  have hrun : Marking b.machine m := Marking.primitives.obeys_run (leaves_of_unwound hb)
  have hm := hrun.marked hbm
  obtain ⟨r, haim, hid, rfl⟩ := hm.aim_of_head hf hmark
  have hrb : r ∈ b.machine.thread.recovering := hrun.recovering ▸ mem_of_aim haim
  have hinner : ∀ id ∈ m.openIds, id ≤ r.frame := by
    intro id hmem
    have hle := hm.orderly.le_innermostId hmem
    rw [innermostId_of_cons hf] at hle
    exact hid ▸ of_decide_eq_true hle
  obtain ⟨K₁, previous, outer, x, K₂, rfl⟩ := h.call_of_recovering hrb (by simp [hnil])
  obtain ⟨c, hout, henter, hin⟩ := h.split
  have hc := marked_of_enters henter (hout.marked hrootMarked)
  obtain ⟨n, value, body, ma, rfl, rfl, hta, rfl, rfl, rfl⟩ := enters_recover henter
  have hrec : (⟨ma.shared.nextToken, ma.rootId⟩ : Recovery) ∈
      ma.recoveryEntered.thread.recovering := List.mem_cons_self
  have hlt : ma.rootId < ma.recoveryEntered.thread.frames.nextId := (hc.known _ hrec).1
  -- The frame was open all the way from where its recovery was entered.
  have hopen : ∀ {z : Activation} {m' : Machine}, Tidy z.machine m' →
      Tidy ma.recoveryEntered z.machine → ma.rootId ∈ m'.openIds →
        ma.rootId ∈ z.machine.openIds := by
    intro z m' htidy hto hmem
    have hle := hto.nextId
    rcases htidy.novel _ hmem with hmem | hge
    · exact hmem
    · omega
  have hopenb := hopen hrun.toTidy hin.tidy (frame_of_aim haim)
  have hclosed := not_startsOnExit_of_closed hin hk hb ht fun l x c m' hx e hxc hsame => by
    obtain ⟨K₃, K₄, rfl⟩ := List.append_of_mem hx
    obtain ⟨c', hto, e', hfrom⟩ := hin.split
    have hwithin : Activation.Within (ma.rootId + 1) ma.recoveryEntered.thread.held.length
        ⟨n, .job (.block body), ma.recoveryEntered⟩ :=
      within_of_not_inBlock (a := ⟨n, .job (.block body), ma.recoveryEntered⟩) id _
    refine (idle_of_enters e (hto.within (fun _ => hlt) hwithin)
      (Nat.lt_of_lt_of_le hlt hto.tidy.nextId) (hto.tidy.orderly hc.orderly)
      (hopen ((tidy_of_enters e').trans hfrom.tidy) hto.tidy hopenb) ?_
      (leaves_of_unwound hxc)).findsClosed ?_
    · rintro s previous' outer' rfl
      exact (hin.recovery_ne hc hrec hm hrun.recovering haim hx).1
    · intro id hmem
      refine hinner id ?_
      unfold openIds at hmem ⊢
      rwa [hsame.frames] at hmem
  intro l x hway
  rcases hway.of_append with hway | hway
  · exact hclosed l x hway
  · cases hway with
    | here => exact fun d => not_startsOnExit fun _ _ => rfl
    | outer hp => exact (hp code rfl).elim

/-- However a panic ends, it starts no cleanup on its way from there. -/
theorem PanicEnds.not_startsOnExit {K₀ : List (Label × Activation)} (he : PanicEnds code m t)
    (hstack : Stack K₀ a) (h : Path a K b) (hk : 0 < b.fuel) (hb : b.run = ⟨.unwound t, m⟩) :
    ∀ l x, OnWay t K l x → ∀ d, ¬StartsOnExit t l x d := by
  have hsteady : Steady b.machine m := Steady.primitives.obeys_run (leaves_of_unwound hb)
  cases he with
  | torn ht => exact not_startsOnExit_of_torn h (hsteady.torn.symm.trans ht)
  | unmarked ht hf =>
    refine not_startsOnExit_of_closed h hk hb ht fun l x c m' _ _ _ hsame => ?_
    have hnone : m'.openIds = [] := by
      unfold openIds
      simp [hsame.frames, hf]
    cases l <;> simp [Label.FindsClosed, hnone]
  | marked ht hf hm =>
    obtain ⟨root, hroot, hpath⟩ := (hstack.append h).path (hsteady.torn.symm.trans ht)
    exact fun l x hway =>
      not_startsOnExit_of_marked hroot.isRoot hpath hk hb ht hf hm l x hway.append_left

end

/-- When all cleanups that the walk of a panic starts return, the panic unwinds with a token, or
with the end of the thread when no frame is marked.  From there on it starts no cleanup and runs
nothing else of the program until it has come to the call of `recover` that returns the error code,
to the session that returns it as its status, or out of all calls.  Only what stops every unwind is
in its way. -/
theorem panic_reaches_recovery_or_end {K₀ K : List (Label × Activation)} {a : Activation} {n : Nat}
    {code : ErrorCode} {m : Machine} (hstack : Stack K₀ a)
    (hpath : Path a K ⟨n, .stmt (.panic (some code)), m⟩)
    (hK : ∀ c ∈ K, c.1 ≠ .foreign ∧ c.1 ≠ .unwinding)
    (hcleanups : ∀ d, StartsCleanup ⟨n, .job (.walk code), m.note (.log (.panicking code))⟩ d →
      d.Returns) :
    a.RunsOut ∨ ∃ t m₁,
      Activation.run ⟨n, .stmt (.panic (some code)), m⟩ = ⟨.unwound t, m₁⟩ ∧
      PanicEnds code m₁ t ∧ (∀ l x, OnWay t K l x → ∀ d, ¬StartsOnExit t l x d) ∧
      Arrives t a K ⟨n, .stmt (.panic (some code)), m⟩ m₁ := by
  rcases panic_ends hcleanups with hout | ⟨hn, t, m₁, hrun, hends⟩
  · exact .inl (hpath.runsOut_of_runsOut hout)
  have hnone := hends.not_startsOnExit hstack hpath hn hrun
  have ht : t.escape? = none := by cases hends <;> rfl
  refine (arrives_of_exits hpath hrun ht (fun l x hway => hK _ hway.mem)
    fun h hway e hc => ?_).imp_right fun harrives => ⟨t, m₁, hrun, hends, hnone, harrives⟩
  exact exit_returns (hstack.append h) e hc fun d hs => (hnone _ _ hway d hs).elim

end

/-- A panic in a scope, inside a try block, inside a recovery. -/
def panickingInTry (cleanup : Block) : Stmt :=
  .recover "value" [.attempt [.scope [.defer cleanup, .panic (some .enoent)]] [(.any, [])]]

/-- The machine in the scope, after the cleanup was registered. -/
def inPanickingTry (cleanup : Block) : Machine :=
  let entered := (Machine.initial.withHeld [[]]).recoveryEntered
  let tried := (entered.withHeld ([] :: entered.thread.held)).tryEntered [(.any, [])]
  let scope := (tried.withHeld ([] :: tried.thread.held)).scopeEntered
  ((Stmt.perform (Job.run 6) (.defer cleanup)).run
    (scope.withHeld ([] :: scope.thread.held))).machine

theorem path_panickingInTry (cleanup : Block) :
    ∃ K x, Path ⟨10, .job (.block [panickingInTry cleanup]), .initial⟩ K
        ⟨6, .stmt (.panic (some .enoent)), inPanickingTry cleanup⟩ ∧
      (∀ c ∈ K, c.1 ≠ .foreign ∧ c.1 ≠ .unwinding) ∧ (Label.attempt 0, x) ∈ K ∧
      x = ⟨8, .stmt (.attempt [.scope [.defer cleanup, .panic (some .enoent)]] [(.any, [])]),
        (Machine.initial.withHeld [[]]).recoveryEntered.withHeld [[], []]⟩ := by
  refine ⟨_, _, (((((((((((Path.here.call (.block _ _ _)).call (.first _ _ _ _)).call
    (.recover _ _ _ rfl)).call (.block _ _ _)).call (.first _ _ _ _)).call (.attempt _ _ _ _)).call
    (.block _ _ _)).call (.first _ _ _ _)).call (.scope _ _ rfl)).call (.block _ _ _)).call
    (@Enters.next _ _ _ _ _ (inPanickingTry cleanup) rfl)).call (.first _ _ _ _), ?_, ?_, rfl⟩
  · simp
  · exact .tail _ (.tail _ (.tail _ (.tail _ (.tail _ (.tail _ (.head _))))))

/-- The cleanup of the scope is the only one that the walk starts. -/
theorem returns_inPanickingTry (d : Activation)
    (h : StartsCleanup ⟨6, .job (.walk .enoent),
      (inPanickingTry []).note (.log (.panicking .enoent))⟩ d) : d.Returns := by
  cases h with
  | later h hb hc =>
    cases h with
    | passed n code ht hf hm =>
      cases hf
      rcases hc.of_close rfl rfl with rfl | ⟨m₁, h, hc⟩
      · exact ⟨_, rfl⟩
      · cases h
        exact (StartsCleanup.not_close rfl rfl hc).elim
    | walkNext ht hf hm h =>
      cases hf
      cases h
      -- The next frame is marked.
      cases hc with
      | later h hb hc =>
        cases h with
        | passed n code ht hf hm => cases hf; cases hm
        | walkNext ht hf hm h => cases hf; cases hm

theorem panic_reaches_recovery_or_end_panickingInTry :
    ∃ K m₁, Path ⟨10, .job (.block [panickingInTry []]), .initial⟩ K
        ⟨6, .stmt (.panic (some .enoent)), inPanickingTry []⟩ ∧
      (∃ x, (Label.attempt 0, x) ∈ K) ∧
      Activation.run ⟨6, .stmt (.panic (some .enoent)), inPanickingTry []⟩ =
        ⟨.unwound (.panicking .enoent 1), m₁⟩ ∧
      Arrives (.panicking .enoent 1) ⟨10, .job (.block [panickingInTry []]), .initial⟩ K
        ⟨6, .stmt (.panic (some .enoent)), inPanickingTry []⟩ m₁ := by
  obtain ⟨K, x, hpath, hK, hx, -⟩ := path_panickingInTry []
  have hstart : Stack [] ⟨10, .job (.block [panickingInTry []]), .initial⟩ :=
    .start (.body rfl (by decide : 0 < _))
  rcases panic_reaches_recovery_or_end hstart hpath hK returns_inPanickingTry with
    ⟨m, h⟩ | ⟨t, m₁, hrun, -, -, h⟩
  · cases h
  · cases hrun
    exact ⟨K, _, hpath, ⟨x, hx⟩, rfl, h⟩

/-- A cleanup that the walk starts and an exception leaves has the panic caught by a try block. -/
theorem clause_runs_over_panickingInTry :
    ∃ K x d, Path ⟨10, .job (.block [panickingInTry [.throw (.bool true)]]), .initial⟩ K
        ⟨6, .stmt (.panic (some .enoent)), inPanickingTry [.throw (.bool true)]⟩ ∧
      (∀ c ∈ K, c.1 ≠ .foreign ∧ c.1 ≠ .unwinding) ∧ (Label.attempt 0, x) ∈ K ∧
      Enters x (.clause 0) d ∧ d.task = .job (.block []) ∧ x.Returns := by
  obtain ⟨K, x, hpath, hK, hx, rfl⟩ := path_panickingInTry [.throw (.bool true)]
  have hmatch : TryBlock.firstMatch (.of (.bool true)) [(.any, [])] = some (.any, []) := rfl
  have hstart : TryBlock.start? (.of (.bool true)) .any =
      some (.caughtAny (.of (.bool true))) := rfl
  exact ⟨K, _, _, hpath, hK, hx, .clause rfl hmatch hstart, rfl, _, rfl⟩

end NonlocalExit
