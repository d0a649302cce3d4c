import NonlocalExit.Proofs.Closings
import NonlocalExit.Proofs.Layers
import NonlocalExit.Proofs.Stacks

/-!
# An exception reaches the clause that matches it

`exception_reaches_clause`: an exception that is thrown inside layers of a try block is run outward
through them, from the innermost one, and then the first clause that matches it is started.
-/

namespace NonlocalExit

open Effect Machine

section

variable [Declarations]

/-! ## Through one layer -/

section Layers

variable {v : Value} {origin m m₁ : Machine} {n : Nat}

theorem Machine.StillWaits.leaving (bound id : Nat) (m : Machine) :
    m.StillWaits bound (m.leaving id) := by
  refine ⟨rfl, fun i _ _ => ⟨[], rfl, ?_⟩⟩
  rw [show m.deeds (m.leaving id) = [.log (.leftFrame id)] from deeds_note m _]
  rfl

/-- The current block holds guards of its own frames only, and none on torn storage. -/
theorem head_of_block {ss : Block} {o : Option Transfer}
    (hc : (Activation.run ⟨n, .rest ss, m.withHeld ([] :: m.thread.held)⟩).Leaves o m₁) :
    m₁.HoldsAbove m.thread.frames.nextId m.thread.held.length ∧
      m.thread.held.length < m₁.thread.held.length ∧
      (m.thread.torn = true → m₁.thread.held.headD [] = []) := by
  have hhold := Holding.primitives.obeys_run hc
  have hstart : ∀ bound, (m.withHeld ([] :: m.thread.held)).HoldsAbove bound
      m.thread.held.length := by
    refine fun bound => ⟨Nat.le_succ _, fun i hi g hg => ?_⟩
    have hi' : i + m.thread.held.length < m.thread.held.length + 1 := hi
    obtain rfl : i = 0 := by omega
    cases hg
  have hlen : m.thread.held.length < m₁.thread.held.length :=
    Nat.lt_of_lt_of_eq (Nat.lt_succ_self _) (hhold.length nofun).symm
  refine ⟨hhold.above _ _ (fun _ => Nat.le_refl _) (hstart _), hlen, fun ht => ?_⟩
  cases hh : m₁.thread.held.headD [] with
  | nil => rfl
  | cons g gs =>
    have habove := hhold.above (g.frame + 1) _ (fun hlive => by cases ht.symm.trans hlive)
      (hstart _)
    have := habove.head hlen g (hh ▸ List.mem_cons_self)
    omega

theorem block_left {e : Exception} {ss : Block}
    (hserves : ∀ s d, Serves s ⟨n + 1, .job (.block ss), m⟩ d → ∃ m', d.Completes s m')
    (hc : Activation.run ⟨n, .rest ss, m.withHeld ([] :: m.thread.held)⟩ =
      ⟨.unwound .thrown, m₁⟩) :
    Activation.RunsOut ⟨n + 1, .job (.block ss), m⟩ ∨
      ∃ m₂, Activation.run ⟨n + 1, .job (.block ss), m⟩ = ⟨.unwound .thrown, m₂⟩ ∧
        LayerLeft e origin ⟨n + 1, .job (.block ss), m⟩ m₁ m₂ ∧
        Spared m.thread.frames.nextId m₁ m₂ := by
  have hl := leaves_of_unwound hc
  obtain ⟨habove, hlen, hnil⟩ := head_of_block hl
  have hsteady := Steady.primitives.obeys_run hl
  have hdrops : Activation.RunsOut ⟨n, .drops (m₁.thread.held.headD []).length, m₁⟩ ∨
      ∃ gone m₂, (dropGuards (Job.run n) (m₁.thread.held.headD []).length).run m₁ =
        ⟨.returned (), m₂⟩ ∧ Drops (m₁.thread.held.headD []).length m₁ gone m₂ ∧
          Spared m.thread.frames.nextId m₁ m₂ := by
    cases ht : m.thread.torn with
    | true =>
      rw [hnil ht]
      exact .inr ⟨[], m₁, rfl, .done, .refl _⟩
    | false =>
      have ht₁ := hsteady.torn.trans ht
      refine (dropGuards_completes ht₁ fun d hd =>
        hserves _ _ (.cleanup (.blockLeft hl) trivial hd)).imp id ?_
      rintro ⟨gone, m₂, hret, hgone⟩
      exact ⟨gone, m₂, hret, hgone, hgone.spared ht₁ hsteady.nextId habove hlen⟩
  rcases hdrops with hout | ⟨gone, m₂, hret, hgone, hspared⟩
  · exact .inl (runsOut_of_enters (.blockLeft hl) hout)
  · have hexit : (leaveBlock (Job.run n)).run m₁ =
        ⟨.returned (), m₂.withHeld m₂.thread.held.tail⟩ := run_onExit_returned hret (run_popHeld m₂)
    exact .inr ⟨_, unwound_of_enters (.block n ss m) hc trivial hexit, .block hgone,
      hspared.trans (.withHeld _ _)⟩

theorem scope_left {e : Exception} {body : Block} (ht : m.thread.torn = false)
    (ho : m₁.Orderly) (hwaits : origin.StillWaits (m.thread.frames.nextId + 1) m₁)
    (hgrows : Grows origin m₁)
    (hserves : ∀ s d, Serves s ⟨n, .stmt (.scope body), m⟩ d → ∃ m', d.Completes s m')
    (hc : (Job.run n (.block body)).run m.scopeEntered = ⟨.unwound .thrown, m₁⟩) :
    Activation.RunsOut ⟨n, .stmt (.scope body), m⟩ ∨
      ∃ m₂, Activation.run ⟨n, .stmt (.scope body), m⟩ = ⟨.unwound .thrown, m₂⟩ ∧
        LayerLeft e origin ⟨n, .stmt (.scope body), m⟩ m₁ m₂ ∧
        Spared m.thread.frames.nextId m₁ m₂ := by
  have hl := leaves_of_unwound hc
  have hsteady : Steady m m₁ :=
    (Steady.primitives.scopeEntered ht).trans (Steady.primitives.obeys _ _ _ _ _ hl)
  rcases close_completes (m := m₁.leaving m.thread.frames.nextId) (hsteady.torn.trans ht)
      fun d hd => hserves _ _ (.cleanup (.scopeLeft ht hl) trivial hd) with
    hout | ⟨cs, m₂, hret, hcs⟩
  · exact .inl (runsOut_of_enters (.scopeLeft ht hl) hout)
  · have hclose : Spared m.thread.frames.nextId (m₁.leaving m.thread.frames.nextId) m₂ :=
      hcs.spared (Nat.le_refl _) hsteady.nextId
    have hleaving : Spared m.thread.frames.nextId m₁ (m₁.leaving m.thread.frames.nextId) :=
      .leaving (Nat.le_refl _) _
    refine .inr ⟨m₂, unwound_of_enters (.scope n body ht) hc trivial hret,
      .scope hcs fun hopen => ?_, hleaving.trans hclose⟩
    have hstill := hwaits.trans (.leaving _ m.thread.frames.nextId m₁) hgrows hleaving.toGrows
    exact (hcs.clears (ho.note _)).after hstill hopen (Nat.lt_succ_self _)
      (hgrows.trans hleaving.toGrows) hclose.toGrows

theorem session_left {e : Exception} {status : Int32} {body : Block} (ht : m.thread.torn = false)
    (ho : m.Orderly) (hwaits : origin.StillWaits m.sessionEntered.thread.frames.nextId m₁)
    (hgrows : Grows origin m₁)
    (hserves : ∀ s d, Serves s ⟨n, .session status body, m⟩ d → ∃ m', d.Completes s m')
    (hc : (Job.run n (.block body)).run m.sessionEntered = ⟨.unwound .thrown, m₁⟩) :
    Activation.RunsOut ⟨n, .session status body, m⟩ ∨
      ∃ m₂, Activation.run ⟨n, .session status body, m⟩ = ⟨.unwound .thrown, m₂⟩ ∧
        LayerLeft e origin ⟨n, .session status body, m⟩ m₁ m₂ ∧
        Spared m.thread.frames.nextId m₁ m₂ := by
  have hl := leaves_of_unwound hc
  have htidy : Tidy m m₁ :=
    (Tidy.primitives.sessionEntered ht).trans (Tidy.primitives.obeys _ _ _ _ _ hl)
  have ht₁ := htidy.torn.trans ht
  have hcleanups : ∀ d, StartsCleanup ⟨n, .job (.closeAbove m.innermostId), m₁⟩ d →
      ∃ m', d.Completes .cleanup m' :=
    fun d hd => hserves _ _ (.cleanup (.sessionLeft ht hl) trivial hd)
  rcases closeAbove_completes ht₁ hcleanups with hout | ⟨gone, m₂, hret, hgone⟩
  · exact .inl (runsOut_of_enters (.sessionLeft ht hl) hout)
  · have hexit : ((Job.run n) (.closeAbove m.innermostId) >>= fun _ =>
        closeSession (!m.thread.initialised)).run m₁ =
        ⟨.returned (), m₂.sessionClosed (!m.thread.initialised)⟩ := by
      rw [run_bind_returned hret]
      cases m.thread.initialised <;> rfl
    have hspared : Spared m.thread.frames.nextId m₁ m₂ := by
      refine hgone.spared (htidy.orderly ho) htidy.nextId fun id hopen hlt => ?_
      rcases htidy.novel id hopen with hopen | hge
      · exact ho.le_innermostId hopen
      · omega
    refine .inr ⟨_, unwound_of_enters (.session n status body ht) hc nofun hexit,
      .session hgone fun id hopen hge hlt => ?_, hspared.trans (.sessionClosed _ _)⟩
    have hbase : ¬m.innermostId.any (id ≤ ·) := by
      intro hany
      obtain ⟨i, hi, hle⟩ := (Option.any_eq_true _ _).1 hany
      obtain ⟨f, hf, rfl⟩ := Option.map_eq_some_iff.1 hi
      have hfresh := ho.frames.fresh f (List.mem_of_mem_head? hf)
      have := of_decide_eq_true hle
      omega
    obtain ⟨cs, hmem, hcs⟩ :=
      hgone.clears (htidy.orderly ho) ht₁ ((hwaits.openIds hlt).2 hopen) hbase
    exact ⟨cs, hmem, hcs.after hwaits hopen hlt hgrows hspared.toGrows⟩

theorem recover_left {e : Exception} {value : String} {body : Block} (ht : m.thread.torn = false)
    (hc : (Job.run n (.block body)).run m.recoveryEntered = ⟨.unwound .thrown, m₁⟩) :
    ∃ m₂, Activation.run ⟨n, .stmt (.recover value body), m⟩ = ⟨.unwound .thrown, m₂⟩ ∧
      LayerLeft e origin ⟨n, .stmt (.recover value body), m⟩ m₁ m₂ ∧
      Spared m.thread.frames.nextId m₁ m₂ := by
  have hsteady : Steady m m₁ := (Steady.recoveryEntered m).trans
    (Steady.primitives.obeys _ _ _ _ _ (leaves_of_unwound hc))
  have hexit : (endRecovery m.rootId m.tokenTaken.markFound m.thread.recovering).run m₁ =
      ⟨.returned (), (m₁.withMark m.rootId m.tokenTaken.markFound).withRecovering
        m.thread.recovering⟩ := by
    rw [run_endRecovery, hsteady.torn.trans ht]
    rfl
  exact ⟨_, unwound_of_enters (.recover n value body ht) hc nofun hexit, .recover,
    (Spared.withMark _ _ _).trans (.withRecovering _ _)⟩

/-- An exception goes through a try block whose clauses do not consume it. -/
theorem attempt_left {body : Block} {clauses : List (Trigger × Block)}
    (hcur : m₁.thread.current = some (.of v)) (hd : 0 < m.thread.depth)
    (hserves : ∀ s d, Serves s ⟨n, .stmt (.attempt body clauses), m⟩ d → ∃ m', d.Completes s m')
    (hc : (Job.run n (.block body)).run (m.tryEntered clauses) = ⟨.unwound .thrown, m₁⟩) :
    ∃ m₂, Activation.run ⟨n, .stmt (.attempt body clauses), m⟩ = ⟨.unwound .thrown, m₂⟩ ∧
      LayerLeft (.of v) origin ⟨n, .stmt (.attempt body clauses), m⟩ m₁ m₂ ∧
      Spared m.thread.frames.nextId m₁ m₂ := by
  have hsteady : Steady m m₁ := (Steady.primitives.tryEntered clauses m).trans
    (Steady.primitives.obeys _ _ _ _ _ (leaves_of_unwound hc))
  have hbody := TryBlock.bodyStage_escaped m.thread.depth hc rfl hcur
  obtain ⟨m₂, hclause, hpending⟩ := TryBlock.clauseStage_ran m.thread.current hbody
    (fun _ _ hm => (TryBlock.start_of_firstMatch hm).imp fun _ h => h.1)
    fun _ _ _ hm hs => hserves _ _ (.clause hbody hm hs)
  obtain ⟨m₃, hfinal, hlast⟩ := TryBlock.lastStages_ran (some (.of v))
    fun _ hf => hserves _ _ (.completion hpending hf)
  have hprotect := TryBlock.protect_stages hpending hlast
  obtain ⟨m₄, hrun, hdis⟩ := dispatch_thrown (e := .of v) (k := n)
    (m := ((m₃.stage m.thread.depth .finishing .propagating).unprotected m.thread.depth).withCurrent
      (some (.of v))) rfl hd fun link d h => hserves _ _ (.hook (.again hprotect) h)
  have hstaged : Spared m.thread.frames.nextId m₁ (m₁.stage m.thread.depth .trying .catching) :=
    .staged _ _ _ _
  have hcaught := hstaged.trans (hclause.spared hsteady.nextId)
  have hfinishing := hcaught.trans (.staged m.thread.depth .catching .finishing _)
  have hfinished := hfinishing.trans
    (hfinal.spared (Nat.le_trans hsteady.nextId hfinishing.nextId))
  have hlevel := (hfinished.trans (.staged m.thread.depth .finishing .propagating _)).trans
    (.unprotected m.thread.depth _)
  have hagain : Spared m.thread.frames.nextId
      ((m₃.stage m.thread.depth .finishing .propagating).unprotected m.thread.depth)
      (((m₃.stage m.thread.depth .finishing .propagating).unprotected m.thread.depth).withCurrent
        (some (.of v))) :=
    .ofThread _ rfl rfl rfl rfl rfl (hlevel.current.trans hcur).symm
  have hpropagated := hlevel.trans hagain
  refine ⟨m₄, ?_, .attempt hclause hfinal hdis, hpropagated.trans
    (hdis.spared (Nat.le_trans hsteady.nextId hpropagated.nextId))⟩
  refine (TryBlock.run_attempt m).trans ((run_bind_returned hprotect).trans ?_)
  exact run_never_unwound hrun

end Layers

section

variable {x c : Activation} {l : Label} {v : Value} {origin m₁ : Machine}

theorem enters_attempt {link : Nat} (e : Enters x (.attempt link) c) :
    ∃ n body clauses m, link = m.thread.depth ∧ x = ⟨n, .stmt (.attempt body clauses), m⟩ ∧
      c = ⟨n, .job (.block body), m.tryEntered clauses⟩ := by
  generalize hl : Label.attempt link = l at e
  cases e with
  | attempt n body clauses m =>
    cases hl
    exact ⟨n, body, clauses, m, rfl, rfl, rfl⟩
  | blockLeft | dropNext | scopeLeft => cases ‹Option Transfer› <;> cases hl
  | _ => cases hl

/-- An exception that comes to a layer goes on through it, if all that is run for it completes. -/
theorem layer_left (h : Enters x l c) (hl : l.IsLayer x.task) (ho : x.machine.Orderly)
    (hd : 0 < x.machine.thread.depth)
    (hserves : ∀ s d, Serves s x d → ∃ m', d.Completes s m')
    (hc : c.run = ⟨.unwound .thrown, m₁⟩) (hcur : m₁.thread.current = some (.of v))
    (hwaits : origin.StillWaits c.machine.thread.frames.nextId m₁) (hgrows : Grows origin m₁) :
    x.RunsOut ∨ ∃ m₂, x.run = ⟨.unwound .thrown, m₂⟩ ∧ LayerLeft (.of v) origin x m₁ m₂ ∧
      Spared x.machine.thread.frames.nextId m₁ m₂ := by
  have ho₁ : m₁.Orderly := (Tidy.primitives.obeys_run (leaves_of_unwound hc)).orderly
    ((tidy_of_enters h).orderly ho)
  cases h with
  | block n ss m => exact block_left hserves hc
  | first n s ss m =>
    exact .inr ⟨m₁, unwound_of_enters (.first n s ss m) hc trivial rfl, .rest, .refl _⟩
  | next hn => exact .inr ⟨m₁, unwound_of_enters (.next hn) hc trivial rfl, .rest, .refl _⟩
  | repeated hi hn =>
    exact .inr ⟨m₁, unwound_of_enters (.repeated hi hn) hc trivial rfl, .repeated, .refl _⟩
  | scope n body ht => exact scope_left ht ho₁ hwaits hgrows hserves hc
  | recover n value body ht => exact .inr (recover_left ht hc)
  | run n status body m =>
    exact .inr ⟨m₁, unwound_of_enters (.run n status body m) hc trivial rfl, .run, .refl _⟩
  | session n status body ht => exact session_left ht ho hwaits hgrows hserves hc
  | attempt n body clauses m => exact .inr (attempt_left hcur hd hserves hc)
  | blockLeft _ => cases ‹Option Transfer› <;> exact hl.elim
  | dropNext _ _ => cases ‹Option Transfer› <;> exact hl.elim
  | scopeLeft _ _ => cases ‹Option Transfer› <;> exact hl.elim
  | _ => exact hl.elim

end

/-! ## Through all layers -/

namespace Machine

/-- The machine on which an exception starts to look for a try block. -/
def thrown (v : Value) (m : Machine) : Machine :=
  (m.note (.log (.throwing v.type.tag))).withCurrent (some (.of v))

theorem StillWaits.thrown (bound : Nat) (v : Value) (m : Machine) :
    m.StillWaits bound (m.thrown v) := by
  refine ⟨rfl, fun i _ _ => ⟨[], rfl, ?_⟩⟩
  rw [show m.deeds (m.thrown v) = [.log (.throwing v.type.tag)] from deeds_note m _]
  rfl

end Machine

namespace Path

variable {a b : Activation} {K : List (Label × Activation)}

/-- What is reached from a piece is on the same level or deeper. -/
theorem depth_le (h : Path a K b) : a.machine.thread.depth ≤ b.machine.thread.depth := by
  induction h with
  | here => exact Nat.le_refl _
  | call h e ih => exact Nat.le_trans ih (depth_of_enters e ▸ Nat.le_add_right _ _)

end Path

/-- How an exception goes outward through layers, from the innermost one: it leaves one after the
other. -/
inductive ThrownThrough (e : Exception) (origin : Machine) :
    List (Label × Activation) → Machine → Machine → Prop
  | here {m} : ThrownThrough e origin [] m m
  | layer {l x K m m₁ m'} (h : LayerLeft e origin x m m₁) (hx : x.run = ⟨.unwound .thrown, m₁⟩)
    (outer : ThrownThrough e origin K m₁ m') : ThrownThrough e origin ((l, x) :: K) m m'

section

variable {a b : Activation} {K : List (Label × Activation)} {v : Value} {origin m₁ : Machine}

theorem thrownThrough_of_path (h : Path a K b) (hl : ∀ x ∈ K, x.1.IsLayer x.2.task)
    (ho : a.machine.Orderly) (hd : 0 < a.machine.thread.depth)
    (hserves : ∀ x ∈ K, ∀ s d, Serves s x.2 d → ∃ m', d.Completes s m')
    (hb : b.run = ⟨.unwound .thrown, m₁⟩) (hcur : m₁.thread.current = some (.of v))
    (hwaits : origin.StillWaits b.machine.thread.frames.nextId m₁) (hgrows : Grows origin m₁) :
    a.RunsOut ∨ ∃ m₂, a.run = ⟨.unwound .thrown, m₂⟩ ∧ ThrownThrough (.of v) origin K m₁ m₂ ∧
      m₂.thread.current = some (.of v) := by
  induction h generalizing m₁ with
  | here => exact .inr ⟨m₁, hb, .here, hcur⟩
  | call h e ih =>
    rename_i K x l c
    have hl' : ∀ y ∈ K, y.1.IsLayer y.2.task := fun y hy => hl y (List.mem_cons_of_mem _ hy)
    have hlayer := hl _ List.mem_cons_self
    have hox := h.tidy.orderly ho
    have hdx : 0 < x.machine.thread.depth := Nat.lt_of_lt_of_le hd h.depth_le
    rcases layer_left e hlayer hox hdx (hserves _ List.mem_cons_self) hb hcur hwaits hgrows with
      hout | ⟨m₂, hx, hleft, hspared⟩
    · exact .inl (h.runsOut_of_runsOut hout)
    · have hc := Tidy.primitives.obeys_run (leaves_of_unwound hb)
      have hle := (tidy_of_enters e).nextId
      have hstill := hspared.still (hc.orderly ((tidy_of_enters e).orderly hox))
        (Nat.le_trans hle hc.nextId)
      rcases ih hl' (fun y hy => hserves y (List.mem_cons_of_mem _ hy)) hx
          (hspared.current.trans hcur) ((hwaits.mono hle).trans hstill hgrows hspared.toGrows)
          (hgrows.trans hspared.toGrows) with hout | ⟨m₃, ha, hthrough, hcur₃⟩
      · exact .inl hout
      · exact .inr ⟨m₃, ha, .layer hleft hx hthrough, hcur₃⟩

end

/-- An exception that is thrown inside layers of a try block goes outward through them, from the
innermost one, and is given to the first clause of the try block that matches it; this holds if all
that is run for it on the way completes, and no panic in it comes past a frame that was open
before.  Each layer has the cleanups of its frames run, newest first, then its clause and its
completion clause, and nothing besides. -/
theorem exception_reaches_clause {K K₀ : List (Label × Activation)} {n k link : Nat}
    {body b : Block} {clauses : List (Trigger × Block)} {trigger : Trigger} {v : Value}
    {m₀ m : Machine}
    (hreach : Reaches (K ++ (.attempt link, ⟨n, .stmt (.attempt body clauses), m₀⟩) :: K₀)
      ⟨k, .stmt (.throw v), m⟩)
    (hlayers : ∀ x ∈ K, x.1.IsLayer x.2.task)
    (hserves : ∀ x ∈ ⟨k, .stmt (.throw v), m⟩ :: K.map (·.2), ∀ s d, Serves s x d →
      ∃ m', d.Completes s m')
    (hfuel : ¬Activation.RunsOut ⟨n, .job (.block body), m₀.tryEntered clauses⟩)
    (hmatch : TryBlock.firstMatch (.of v) clauses = some (trigger, b)) :
    ∃ m₁ m₂ start, Dispatched (.of v) (m.thrown v) m₁ ∧ ThrownThrough (.of v) m K m₁ m₂ ∧
      (Job.run n (.block body)).run (m₀.tryEntered clauses) = ⟨.unwound .thrown, m₂⟩ ∧
      TryBlock.start? (.of v) trigger = some start ∧
      (start = .caught v ∨ start = .caughtAny (.of v)) ∧
      Activation.run ⟨n, .stmt (.attempt body clauses), m₀⟩ =
        (TryBlock.fromClause (Job.run n) clauses m₀.thread.current m₀.thread.depth (.of v) b).run
          ((m₂.stage m₀.thread.depth .trying .catching).clauseEntered m₀.thread.depth (.of v)
            clauses start) := by
  obtain ⟨root, hstart, hpath⟩ := hreach
  obtain ⟨c, hout, henter, hin⟩ := hpath.split
  have ho₀ : m₀.Orderly := (Reaches.marked ⟨root, hstart, hout⟩).orderly
  obtain rfl : c = ⟨n, .job (.block body), m₀.tryEntered clauses⟩ := by
    obtain ⟨_, _, _, _, -, hx, hc⟩ := enters_attempt henter
    cases hx
    exact hc
  have hserves' : ∀ x ∈ K, ∀ s d, Serves s x.2 d → ∃ m', d.Completes s m' := fun x hx =>
    hserves _ (List.mem_cons_of_mem _ (List.mem_map_of_mem hx))
  have ho := (tidy_of_enters henter).orderly ho₀
  have hd : 0 < (m₀.tryEntered clauses).thread.depth := Nat.succ_pos _
  -- The throw hook is called, and the unwind starts.
  obtain ⟨m₁, hrun, hdis⟩ := dispatch_thrown (e := .of v) (k := k) (m := m.thrown v) rfl
    (Nat.lt_of_lt_of_le hd hin.depth_le)
    fun link d h => hserves _ List.mem_cons_self _ _ (.hook (.throw k v m) h)
  have hthrow : Activation.run ⟨k, .stmt (.throw v), m⟩ = ⟨.unwound .thrown, m₁⟩ :=
    unwound_of_enters (.throw k v m) (run_never_unwound hrun) trivial rfl
  have hspared : Spared m.thread.frames.nextId (m.thrown v) m₁ := hdis.spared (Nat.le_refl _)
  have hom : (m.thrown v).Orderly := (tidy_of_enters (.throw k v m)).orderly (hin.tidy.orderly ho)
  have hgrows : Grows m (m.thrown v) := (tidy_of_enters (.throw k v m)).toGrows
  have hwaits := (StillWaits.thrown m.thread.frames.nextId v m).trans
    (hspared.still hom (Nat.le_refl _)) hgrows hspared.toGrows
  -- It goes through the layers.
  obtain hout | ⟨m₂, hbody, hthrough, hcur⟩ := thrownThrough_of_path hin hlayers ho hd hserves'
    hthrow hspared.current hwaits (hgrows.trans hspared.toGrows)
  · exact (hfuel hout).elim
  obtain ⟨start, hs, hvalue⟩ := TryBlock.start_of_firstMatch hmatch
  exact ⟨m₁, m₂, start, hdis, hthrough, hbody, hs, hvalue, TryBlock.run_attempt_clause
    (TryBlock.bodyStage_escaped _ hbody rfl hcur) hmatch hs⟩

end

/-- A scope with a cleanup and a try block in which a value is thrown. -/
def scopedThrow : Block :=
  [.defer [.emit "cleanup"], .attempt [.throw (.bool true)] [(.completion, [.emit "last"])]]

/-- The machine at a try block around the scope. -/
def aroundScope : Machine := Machine.initial.withHeld [[]]

/-- The machine in the scope, after the cleanup was registered. -/
def insideScope : Machine :=
  let entered := aroundScope.tryEntered [(.typed .bool, [])]
  let scope := (entered.withHeld ([] :: entered.thread.held)).scopeEntered
  ((Stmt.perform (Job.run 6) (.defer [.emit "cleanup"])).run
    (scope.withHeld ([] :: scope.thread.held))).machine

/-- The machine at the throw. -/
def insideTry : Machine :=
  let entered := insideScope.tryEntered [(.completion, [.emit "last"])]
  entered.withHeld ([] :: entered.thread.held)

theorem path_scopedThrow :
    ∃ K, Path ⟨8, .job (.block [.scope scopedThrow]),
        aroundScope.tryEntered [(.typed .bool, [])]⟩ K
        ⟨5, .stmt (.throw (.bool true)), insideTry⟩ ∧
      (∀ x ∈ K, x.1.IsLayer x.2.task) ∧
      ∀ x ∈ K, ∀ s d, Serves s x.2 d → ∃ m', d.Completes s m' := by
  have hblock : ∀ {s n ss m d}, Serves s ⟨n + 1, .job (.block ss), m⟩ d →
      (∀ o m₁, (Activation.run ⟨n, .rest ss, m.withHeld ([] :: m.thread.held)⟩).Leaves o m₁ →
        m₁.thread.held.headD [] = []) → ∃ m', d.Completes s m' := by
    intro s n ss m d h hnil
    obtain ⟨o, m₁, hl, hd⟩ := h.of_block
    rw [hnil o m₁ hl] at hd
    exact (StartsCleanup.not_drops_zero hd).elim
  refine ⟨_, ((((((((Path.here.call (.block _ _ _)).call (.first _ _ _ _)).call
    (.scope _ _ rfl)).call (.block _ _ _)).call (@Enters.next _ _ _ _ _ insideScope rfl)).call
    (.first _ _ _ _)).call (.attempt _ _ _ _)).call (.block _ _ _)).call (.first _ _ _ _), ?_, ?_⟩
  · simp [Label.IsLayer]
  · simp only [List.forall_mem_cons]
    refine ⟨fun s d h => (h.not_rest).elim, fun s d h => hblock h fun o m₁ hl => by cases hl; rfl,
      ?_, fun s d h => (h.not_rest).elim, fun s d h => (h.not_rest).elim,
      fun s d h => hblock h fun o m₁ hl => by cases hl; rfl, ?_, fun s d h => (h.not_rest).elim,
      fun s d h => hblock h fun o m₁ hl => by cases hl; rfl, fun x hx => by cases hx⟩
    -- The inner try block has a completion clause only.
    · intro s d h
      cases h with
      | cleanup h hy hd => cases h <;> exact hy.elim
      | clause h hm hs => cases hm
      | completion h hf =>
        cases hf
        cases h
        exact ⟨_, rfl, rfl, by decide, by decide⟩
      | hook h hd =>
        cases h with
        | again h =>
          cases h
          cases hd with
          | throwHook n hb hr he => cases hb
    -- The scope has one cleanup.
    · intro s d h
      cases h with
      | cleanup h hy hd =>
        cases h with
        | scope => exact hy.elim
        | scopeLeft ht h =>
          cases h
          obtain rfl | ⟨m₁, h, hd⟩ := hd.of_close rfl rfl
          · exact ⟨_, rfl, rfl, by decide, by decide⟩
          · cases h
            exact (StartsCleanup.not_close rfl rfl hd).elim
      | hook h hd => cases h

theorem exception_reaches_clause_through_scope :
    ∃ K K₀ m₁ m₂, Reaches (K ++ (.attempt 0, ⟨8, .stmt (.attempt [.scope scopedThrow]
        [(.typed .bool, [])]), aroundScope⟩) :: K₀) ⟨5, .stmt (.throw (.bool true)), insideTry⟩ ∧
      TryBlock.firstMatch (.of (.bool true)) [(.typed .bool, [])] = some (.typed .bool, []) ∧
      Dispatched (.of (.bool true)) (insideTry.thrown (.bool true)) m₁ ∧
      ThrownThrough (.of (.bool true)) insideTry K m₁ m₂ ∧
      (Job.run 8 (.block [.scope scopedThrow])).run (aroundScope.tryEntered [(.typed .bool, [])]) =
        ⟨.unwound .thrown, m₂⟩ := by
  obtain ⟨K, hpath, hlayers, hserves⟩ := path_scopedThrow
  have hroot : Activation.IsRoot ⟨9, .job (.block [.attempt [.scope scopedThrow]
      [(.typed .bool, [])]]), .initial⟩ := .body rfl (by decide : 0 < _)
  have hreach := Path.join ((Path.here.call (.block 8 [.attempt [.scope scopedThrow]
    [(.typed .bool, [])]] .initial)).call (.first _ _ _ _)) (.attempt _ _ _ _) hpath
  have hthrow : ∀ s d, Serves s ⟨5, .stmt (.throw (.bool true)), insideTry⟩ d →
      ∃ m', d.Completes s m' := by
    intro s d h
    cases h with
    | cleanup h hy hd => cases h; exact hy.elim
    | hook h hd =>
      cases h with
      | throw k v m =>
        cases hd with
        | throwHook n hb hr he => cases hb
  obtain ⟨m₁, m₂, _, hdis, hthrough, hbody, _⟩ := exception_reaches_clause ⟨_, hroot, hreach⟩
    hlayers
    (List.forall_mem_cons.2 ⟨hthrow, List.forall_mem_map.2 hserves⟩) (by rintro ⟨m', h⟩; cases h)
    (TryBlock.firstMatch_of_type (.bool true) [] [])
  exact ⟨K, _, m₁, m₂, ⟨_, hroot, hreach⟩, TryBlock.firstMatch_of_type (.bool true) [] [], hdis,
    hthrough, hbody⟩

/-- A scope in which a value is thrown, with a cleanup in which a session panics. -/
def throwOverPanic : Block := [.defer [.run 0 [.panic (some .einval)]], .throw (.bool true)]

/-- The same scope in a try block, in another scope with a cleanup. -/
def aroundThrowOverPanic : Block :=
  [.defer [.emit "outer"], .attempt [.scope throwOverPanic] [(.completion, [])]]

/-- The machine at the end of the inner scope, when the exception is on its way. -/
def leavingThrowOverPanic : Machine :=
  let entered := aroundScope.tryEntered [(.typed .bool, [])]
  let outer := (entered.withHeld ([] :: entered.thread.held)).scopeEntered
  let registered := ((Stmt.perform (Job.run 9) (.defer [.emit "outer"])).run
    (outer.withHeld ([] :: outer.thread.held))).machine
  let tried := registered.tryEntered [(.completion, [])]
  ((Job.run 8 (.block throwOverPanic)).run
    (tried.withHeld ([] :: tried.thread.held)).scopeEntered).machine.leaving 1

/-- On the way out of two scopes, a cleanup of the inner one completes, but for a panic that a
session stops. The cleanup of the outer scope is then run before the completion clause of the try
block between the two. -/
theorem outer_cleaned_first_over_panickingCleanup :
    (∃ K, Path ⟨11, .stmt (.attempt [.scope aroundThrowOverPanic] [(.typed .bool, [])]),
      aroundScope⟩ K ⟨8, .job (.close 1), leavingThrowOverPanic⟩) ∧
    (∃ d m, StartsCleanup ⟨8, .job (.close 1), leavingThrowOverPanic⟩ d ∧
      d.run = ⟨.returned (), m⟩ ∧ m.thread.current = d.machine.thread.current ∧
      SparesGuards (List.range d.machine.thread.frames.nextId) (d.machine.deeds m)) ∧
    (Activation.run ⟨11, .stmt (.attempt [.scope aroundThrowOverPanic] [(.typed .bool, [])]),
      aroundScope⟩).ending = .returned () ∧
    (Activation.run ⟨11, .stmt (.attempt [.scope aroundThrowOverPanic] [(.typed .bool, [])]),
      aroundScope⟩).machine.entries.filterMap Entry.event? =
        [.emitted "outer", .ran 22, .completing, .caught (.bool true)] := by
  have hpath := ((((((((((Path.here.call (.attempt 11 [.scope aroundThrowOverPanic]
    [(.typed .bool, [])] aroundScope)).call (.block _ _ _)).call (.first _ _ _ _)).call
    (.scope _ _ rfl)).call (.block _ _ _)).call (@Enters.next _ _ _ _ _ _ rfl)).call
    (.first _ _ _ _)).call (.attempt _ _ _ _)).call (.block _ _ _)).call (.first _ _ _ _)).call
    (.scopeLeft rfl (.unwound .thrown _))
  exact ⟨⟨_, hpath⟩, ⟨_, _, .here (.cleanup 7 rfl rfl rfl), rfl, rfl, by decide⟩, rfl, rfl⟩

end NonlocalExit
